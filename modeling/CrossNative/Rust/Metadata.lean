import CrossNative.Manifest
import CrossNative.ValueVector
import CrossNative.Rust.Arena
import CrossNative.Rust.Handle

/-!
# Metadata, from the attribute to the module entry

A function is described twice: by the document its metadata export returns, and by the
parameter list of its shim. Loading a module reads the first; binding fills the second.
-/

namespace CrossNative

set_option autoImplicit false

open Basis Proc

/-! ## The text of a document -/

def escaped (c : Char) : List Char :=
  if c = '"' ∨ c = '\\' then ['\\', c]
  else if c.toNat < 0x20 then
    ['\\', 'u', '0', '0', Nat.digitChar (c.toNat / 16), Nat.digitChar (c.toNat % 16)]
  else [c]

def quoted (s : String) : String := "\"" ++ String.ofList (s.toList.flatMap escaped) ++ "\""

/-- The JSON text of `signatureDoc name params returns`. -/
def signatureText (name : String) (params : List (String × String)) (returns : String) : String :=
  "\x7b\"name\":" ++ quoted name ++ ",\"params\":[" ++
    ",".intercalate (params.map fun p =>
      "\x7b\"name\":" ++ quoted p.1 ++ ",\"type\":" ++ quoted p.2 ++ "\x7d") ++
    "],\"returns\":" ++ quoted returns ++ "\x7d"

namespace Rust

theorem quoted_plain {s : String} (h : PlainText s) : quoted s = "\"" ++ s ++ "\"" := by
  have hescaped : ∀ l : List Char, (∀ c ∈ l, c ≠ '"' ∧ c ≠ '\\' ∧ 0x20 ≤ c.toNat) →
      l.flatMap escaped = l := by
    intro l hl
    induction l with
    | nil => rfl
    | cons c l ih =>
      obtain ⟨⟨hquote, hslash, hcontrol⟩, hrest⟩ := List.forall_mem_cons.mp hl
      rw [List.flatMap_cons, ih hrest, escaped, if_neg (by tauto), if_neg (by omega)]
      rfl
  rw [quoted, hescaped _ h, String.ofList_toList]

theorem Kind.plain_wireName (k : Kind) : PlainText k.wireName := by
  cases k with
  | unit => decide
  | text owned => cases owned <;> decide
  | scalar s =>
    cases s with
    | elem k => cases k <;> decide
    | _ => decide
  | slice s owned =>
    cases owned <;> cases s with
    | elem k => cases k <;> decide
    | _ => decide

/-- The attribute pastes names and types between quotes; none of them needs escaping. -/
theorem FnDecl.metadata_eq_text (f : FnDecl) :
    f.metadata =
      signatureText f.name.text (f.params.map fun p => (p.name.text, p.kind.wireName))
        f.returns.wireName := by
  have hentry : ∀ p : ParamDecl, paramEntry p =
      "\x7b\"name\":" ++ quoted p.name.text ++ ",\"type\":" ++ quoted p.kind.wireName ++ "\x7d" := by
    intro p
    rw [quoted_plain p.name.plain, quoted_plain p.kind.plain_wireName, paramEntry]
    apply String.toList_injective
    simp
  rw [metadata, signatureText, quoted_plain f.name.plain, quoted_plain f.returns.plain_wireName,
    List.map_map]
  have hentries : f.params.map paramEntry = f.params.map ((fun p : String × String =>
      "\x7b\"name\":" ++ quoted p.1 ++ ",\"type\":" ++ quoted p.2 ++ "\x7d") ∘
        fun p => (p.name.text, p.kind.wireName)) := List.map_congr_left fun p _ => hentry p
  rw [hentries]
  apply String.toList_injective
  simp

end Rust

/-! ## Loading -/

variable {σ : Type}

structure Grew (entry entry' : ModuleEntry) : Prop where
  signatures : ∀ name, (entry.signatures.lookup name).isSome → (entry'.signatures.lookup name).isSome
  manifest : entry.manifest ⊆ entry'.manifest

theorem Grew.refl (entry : ModuleEntry) : Grew entry entry := ⟨fun _ h => h, fun _ h => h⟩

theorem Grew.trans {e₁ e₂ e₃ : ModuleEntry} (h₁ : Grew e₁ e₂) (h₂ : Grew e₂ e₃) : Grew e₁ e₃ :=
  ⟨fun name h => h₂.signatures name (h₁.signatures name h), fun _ h => h₂.manifest (h₁.manifest h)⟩

theorem addDocument_grew (entry : ModuleEntry) (doc : Json) : Grew entry (addDocument entry doc) := by
  unfold addDocument
  split
  · split
    · rename_i sig _ name _
      refine ⟨fun wanted h => ?_, List.subset_append_left _ _⟩
      rw [List.lookup_cons]
      split
      · rfl
      · exact h
    · exact Grew.refl entry
  · exact Grew.refl entry

theorem addDocument_grows {entry₀ : ModuleEntry} (entry : ModuleEntry) (doc : Json)
    (h : Grew entry₀ entry) : Grew entry₀ (addDocument entry doc) :=
  h.trans (addDocument_grew entry doc)

theorem readExport_grew (env : Env) (g : Guest σ) (name : String) (entry : ModuleEntry) :
    Returns (Grew entry) (readExport env g name entry) :=
  readExport_invariant addDocument_grows env g name (Grew.refl entry)

theorem readManifest_plain (env : Env) (g : Guest σ) {names : List String}
    (hplain : ∀ name ∈ names, isMetaExport name = false) (entry : ModuleEntry) (h : Host σ) :
    readManifest env g names entry h = (.ok entry, h) := by
  induction names with
  | nil => rfl
  | cons name names ih =>
    obtain ⟨hname, hrest⟩ := List.forall_mem_cons.mp hplain
    have hfirst : readExport env g name entry h = (.ok entry, h) := by
      simp only [readExport, hname, Bool.false_eq_true, if_false]
      rfl
    rw [readManifest, bind_of_ok hfirst, ih hrest]

/-- Loading never fails, and keeps every document it has read. -/
theorem readManifest_grew (env : Env) (g : Guest σ) (names : List String) (entry : ModuleEntry) :
    Returns (Grew entry) (readManifest env g names entry) :=
  readManifest_invariant addDocument_grows env g names (Grew.refl entry)

theorem readManifest_append (env : Env) (g : Guest σ) (before after : List String)
    (entry : ModuleEntry) (h : Host σ) :
    readManifest env g (before ++ after) entry h =
      (readManifest env g before entry >>= readManifest env g after) h := by
  induction before generalizing entry h with
  | nil => rfl
  | cons name before ih =>
    obtain ⟨entry₁, h₁, hfirst, _⟩ := readExport_grew env g name entry h
    obtain ⟨entry₂, h₂, hrest, _⟩ := readManifest_grew env g before entry₁ h₁
    have hboth : readManifest env g (name :: before) entry h = (.ok entry₂, h₂) := by
      rw [readManifest, bind_of_ok hfirst, hrest]
    rw [List.cons_append, readManifest, bind_of_ok hfirst, ih, bind_of_ok hrest, bind_of_ok hboth]

namespace Rust

theorem slotKinds_of_known {k : Kind} {t : ValueType} (hk : k.valueType? = some t)
    {kinds : List ValKind} {slot : Nat} (hkinds : (kinds.drop slot).take k.shimParams.length = k.shimParams) :
    t.slotKinds kinds slot = k.shimParams := by
  cases Kind.known hk with
  | scalar e => rw [ValueType.slotKinds, getD_of_take_one hkinds, Kind.shimParams]
  | vector e owned => rfl
  | text owned => rfl
  | void => rfl

theorem slotKinds_hostParams (decls : List ParamDecl) {params : List Param}
    (hparams : hostParams decls = some params) {kinds : List ValKind} {slot : Nat}
    (hkinds : kinds.drop slot = decls.flatMap fun p => p.kind.shimParams) :
    slotKinds kinds slot params = kinds.drop slot := by
  induction decls generalizing params slot with
  | nil =>
    cases hparams
    rw [hkinds]
    rfl
  | cons d decls ih =>
    obtain ⟨type, rest, htype, hrest, rfl⟩ := hostParams_cons hparams
    have hhead : type.slotKinds kinds slot = d.kind.shimParams := by
      apply slotKinds_of_known htype
      rw [hkinds, List.flatMap_cons, List.take_left]
    have hdrop : kinds.drop (slot + type.slots) = decls.flatMap fun p => p.kind.shimParams := by
      rw [Kind.slots_eq htype, ← List.drop_drop, hkinds, List.flatMap_cons, List.drop_left]
    rw [slotKinds, hhead, ih hrest hdrop, hdrop, hkinds, List.flatMap_cons]

theorem Packed.run {heap : Heap σ} {bytes : List UInt8} {st st' : Store σ} {buffer : BitVec 32}
    (h : Packed heap bytes st buffer st') (count : Nat) :
    packSlice heap bytes count st =
      (.ok (pack buffer count), { st' with mem := st'.mem.write buffer.toNat bytes }) := by
  have hlen : bytes.length ≠ 0 := by simpa using h.nonempty
  simp only [packSlice, hlen, if_false, h.alloc, h.nonnull, h.fits, if_true]

variable {m : RustModule σ} {f : RustFn} (hf : f ∈ m.functions)

include hf

theorem readMetadata_packed {h : Host σ} {buffer : BitVec 32} {st' : Store σ}
    (hpacked : Packed m.heap (utf8 f.decl.metadata) h.store buffer st') :
    ∃ h', readMetadata m.guest f.decl.metaExport h = (.ok (some (utf8 f.decl.metadata)), h') := by
  have hcount := hpacked.count_mod (Nat.le_refl _)
  have hrun : m.guest.run f.decl.metaExport [] h.store =
      RustModule.cells (packStr m.heap f.decl.metadata h.store) := RustModule.run_metaExport hf [] h.store
  have hcall : callWasmA m.guest ⟨f.decl.metaExport, [], [.i64]⟩ 1 [] h =
      (.ok (.ok [.i64 (pack buffer (utf8 f.decl.metadata).length)]),
        { h with store := { st' with mem := st'.mem.write buffer.toNat (utf8 f.decl.metadata) } }) := by
    simp only [packStr, hpacked.run] at hrun
    simp [callWasmA, hrun, RustModule.cells, Except.map, Val.ofCells]
  have hptr : buffer.toNat ≠ 0 := fun hzero => hpacked.nonnull (BitVec.eq_of_toNat_eq hzero)
  have hlen : (utf8 f.decl.metadata).length ≠ 0 := by simpa using hpacked.nonempty
  have hin : buffer.toNat < st'.mem.size := by
    have hfits := hpacked.fits
    omega
  have hread := Memory.read_write_same st'.mem buffer.toNat (utf8 f.decl.metadata)
  obtain ⟨_, h', hfree, _⟩ := wasmFree_returns m.guest buffer.toNat (utf8 f.decl.metadata).length
    { h with
      store := { st' with mem := st'.mem.write buffer.toNat (utf8 f.decl.metadata) }
      log := h.log ++ [.handed ⟨buffer.toNat, (utf8 f.decl.metadata).length⟩ st'.mem.size] ++
        [.reads ⟨buffer.toNat, (utf8 f.decl.metadata).length⟩ st'.mem.size] }
  refine ⟨h', ?_⟩
  simp only [readMetadata, RustModule.lookup_meta hf, bind_of_ok hcall, List.headD_cons, Val.ofI64_i64,
    unpackHandle_pack, hcount, hptr, hlen, or_self, if_false]
  simp only [bind, handOver, nativePtr, Memory.size_write, hin, decide_true, ↓reduceIte, readBytes, hread,
    hfree, pure]

omit hf in
theorem isMetaExport_metaExport (f : FnDecl) : isMetaExport f.metaExport = true := by
  simp [isMetaExport, kMetaPrefix, FnDecl.metaExport]

omit hf in
theorem addDocument_metadataDoc {f : FnDecl} {sig : Signature} (hsig : f.hostSignature = some sig)
    (entry : ModuleEntry) :
    addDocument entry f.metadataDoc =
      { entry with
        signatures := (f.name.text, sig) :: entry.signatures
        manifest := entry.manifest ++ [f.metadataDoc] } := by
  have hname : f.metadataDoc.valueString "name" "" = .ok f.name.text :=
    Json.valueString_of_str (by simp)
  simp only [addDocument, parseSignature_metadataDoc, hsig, hname]

omit hf in
/-- The exports that a load passes before it comes to the document of `f`. -/
def namesBefore (m : RustModule σ) (f : RustFn) : List String :=
  (exportNames m.functions).takeWhile (· ≠ f.decl.metaExport)

/-- What reading a function's document relies on: the parser understands its text, and the
module's allocator has a block for that text when the load comes to its export. -/
structure MetadataServed (env : Env) (m : RustModule σ) (f : RustFn) (h : Host σ) : Prop where
  parsed : env.parse (utf8 (signatureText f.decl.name.text
    (f.decl.params.map fun p => (p.name.text, p.kind.wireName)) f.decl.returns.wireName)) =
      .ok f.decl.metadataDoc
  packed : ∀ entry h₁, readManifest env m.guest (namesBefore m f) ⟨exportNames m.functions, [], []⟩ h =
    (.ok entry, h₁) → ∃ buffer st', Packed m.heap (utf8 f.decl.metadata) h₁.store buffer st'

theorem exportNames_split : ∃ after,
    exportNames m.functions = namesBefore m f ++ f.decl.metaExport :: after := by
  have hmem : f.decl.metaExport ∈ exportNames m.functions := by
    simp only [exportNames, List.mem_cons, List.mem_flatMap]
    exact Or.inr (Or.inr ⟨f, hf, by simp⟩)
  unfold namesBefore
  generalize exportNames m.functions = names at hmem
  induction names with
  | nil => cases hmem
  | cons name names ih =>
    by_cases hname : name = f.decl.metaExport
    · exact ⟨names, by simp [hname]⟩
    · obtain ⟨after, hsplit⟩ := ih ((List.mem_cons.mp hmem).resolve_left fun h => hname h.symm)
      refine ⟨after, ?_⟩
      rw [List.takeWhile_cons_of_pos (by simpa using hname), List.cons_append, ← hsplit]

/-- After a load, a function whose types the host knows is listed with its document. -/
theorem loadEntry_lists {env : Env} {h h' : Host σ} (served : MetadataServed env m f h)
    {sig : Signature} (hsig : f.decl.hostSignature = some sig) {entry : ModuleEntry}
    (hload : loadEntry env m.guest h = (.ok entry, h')) :
    (entry.signatures.lookup f.decl.name.text).isSome ∧ f.decl.metadataDoc ∈ entry.manifest := by
  have hnames : m.guest.exports.map Prod.fst = exportNames m.functions := m.exports_names
  obtain ⟨after, hsplit⟩ := exportNames_split hf
  rw [loadEntry, hnames] at hload
  obtain ⟨entry₁, h₁, hbefore, _⟩ :=
    readManifest_grew env m.guest (namesBefore m f) ⟨exportNames m.functions, [], []⟩ h
  obtain ⟨buffer, st', hpacked⟩ := served.packed entry₁ h₁ hbefore
  obtain ⟨h₂, hread⟩ := readMetadata_packed hf hpacked
  have hexport : readExport env m.guest f.decl.metaExport entry₁ h₁ =
      (.ok (addDocument entry₁ f.decl.metadataDoc), h₂) := by
    rw [readExport, isMetaExport_metaExport, if_pos rfl, bind_of_ok hread]
    have hparsed := served.parsed
    rw [← FnDecl.metadata_eq_text] at hparsed
    cases hbytes : utf8 f.decl.metadata with
    | nil => exact absurd hbytes hpacked.nonempty
    | cons b bs =>
      rw [hbytes] at hparsed
      simp only [hparsed]
      rfl
  obtain ⟨entry₃, h₃, hafter, hgrew⟩ :=
    readManifest_grew env m.guest after (addDocument entry₁ f.decl.metadataDoc) h₂
  have hrun := readManifest_append env m.guest (namesBefore m f) (f.decl.metaExport :: after)
    ⟨exportNames m.functions, [], []⟩ h
  rw [bind_of_ok hbefore, readManifest, bind_of_ok hexport, hafter] at hrun
  have hwhole : readManifest env m.guest (namesBefore m f ++ f.decl.metaExport :: after)
      ⟨exportNames m.functions, [], []⟩ h = (.ok entry, h') := by rw [← hsplit]; exact hload
  rw [hwhole] at hrun
  cases hrun
  rw [addDocument_metadataDoc hsig] at hgrew
  constructor
  · apply hgrew.signatures
    simp
  · apply hgrew.manifest
    simp

/-- The two descriptions of a function agree exactly when the host knows all its types: its
document is accepted, the load lists it, and the slots of its signature are those of its shim. -/
theorem metadata_agrees_iff {env : Env} {h h' : Host σ} (served : MetadataServed env m f h)
    {entry : ModuleEntry} (hload : loadEntry env m.guest h = (.ok entry, h')) :
    (∃ sig, parseSignature f.decl.metadataDoc = .ok (some sig) ∧
        (entry.signatures.lookup f.decl.name.text).isSome ∧ f.decl.metadataDoc ∈ entry.manifest ∧
        slotKinds f.decl.shimType.params 0 sig.params = f.decl.shimType.params) ↔
      f.decl.HostKnown := by
  rw [← hostSignature_isSome_iff, parseSignature_metadataDoc]
  constructor
  · rintro ⟨sig, haccepted, _⟩
    rw [Except.ok.inj haccepted]
    rfl
  · intro hknown
    obtain ⟨sig, hsig⟩ := Option.isSome_iff_exists.mp hknown
    obtain ⟨hlisted, hmanifest⟩ := loadEntry_lists hf served hsig hload
    have hparams := (hostSignature_eq_some hsig).1
    exact ⟨sig, by rw [hsig], hlisted, hmanifest, slotKinds_hostParams f.decl.params hparams rfl⟩

omit hf

def metadataEnv (f : FnDecl) : Env :=
  { (default : Env) with
    parse := fun bytes =>
      if bytes = utf8 f.metadata then .ok f.metadataDoc else .error "parse error" }

def metadataHost : Host Arena := Host.start (arenaStore 256 (by decide))

theorem joinMetadata_served : MetadataServed (metadataEnv joinDecl) joinModule joinFn metadataHost where
  parsed := by
    rw [← FnDecl.metadata_eq_text]
    simp only [metadataEnv, joinFn, if_true]
  packed entry h₁ hrun := by
    have hplain : ∀ name ∈ namesBefore joinModule joinFn, isMetaExport name = false := by
      decide +kernel
    rw [readManifest_plain _ _ hplain] at hrun
    cases hrun
    have hlength : (utf8 joinFn.decl.metadata).length = 140 := by decide +kernel
    refine ⟨8, ⟨metadataHost.store.guest.take 140, metadataHost.store.mem⟩, ?_, ?_, by decide, ?_⟩
    · rw [hlength]
      rfl
    · intro hempty
      rw [hempty] at hlength
      cases hlength
    · rw [hlength]
      decide

theorem metadata_agrees_iff_join : ∃ entry h',
    loadEntry (metadataEnv joinDecl) joinModule.guest metadataHost = (.ok entry, h') ∧
      ∃ sig, parseSignature joinDecl.metadataDoc = .ok (some sig) ∧
        (entry.signatures.lookup "join").isSome ∧ joinDecl.metadataDoc ∈ entry.manifest ∧
        slotKinds joinDecl.shimType.params 0 sig.params = joinDecl.shimType.params := by
  obtain ⟨entry, h', hload, _⟩ := readManifest_grew (metadataEnv joinDecl) joinModule.guest
    (joinModule.guest.exports.map Prod.fst) ⟨joinModule.guest.exports.map Prod.fst, [], []⟩ metadataHost
  have hknown : joinFn.decl.HostKnown := (hostSignature_isSome_iff joinDecl).mp rfl
  exact ⟨entry, h', hload,
    (metadata_agrees_iff List.mem_cons_self joinMetadata_served hload).mpr hknown⟩

/-- `fn matrix_multiply(a: Vec<f64>, b: Vec<f64>, n: usize) -> Vec<f64>`. -/
def matrixMultiply : ItemFn where
  ident := ⟨"matrix_multiply", by decide⟩
  inputs := [.typed (some ⟨"a", by decide⟩) vecOfF64, .typed (some ⟨"b", by decide⟩) vecOfF64,
    .typed (some ⟨"n", by decide⟩) (.path false [.mk "usize" .none])]
  output := some vecOfF64
where
  vecOfF64 : SynType :=
    .path false [.mk "Vec" (.angleBracketed [.type (.path false [.mk "f64" .none])])]

/-- The attribute accepts the function, and the host drops its document. -/
theorem metadata_drifts : ¬ ∀ (function : ItemFn) (decl : FnDecl), crossnative function = .ok decl →
    ∃ sig, parseSignature decl.metadataDoc = .ok (some sig) := by
  intro hall
  cases hdecl : crossnative matrixMultiply with
  | error message =>
    have haccepted : (crossnative matrixMultiply).isOk = true := by decide +kernel
    rw [hdecl] at haccepted
    cases haccepted
  | ok decl =>
    obtain ⟨sig, haccepted⟩ := hall matrixMultiply decl hdecl
    rw [parseSignature_metadataDoc] at haccepted
    have hdropped : (crossnative matrixMultiply).toOption.bind FnDecl.hostSignature = none := by
      decide +kernel
    rw [hdecl] at hdropped
    exact absurd (hdropped.symm.trans (Except.ok.inj haccepted)) (by simp)

end Rust

end CrossNative
