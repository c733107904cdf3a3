import CrossNative.Rust.Metadata
import CrossNative.Text.Calls

/-!
# Metadata as texts

The attribute pastes a function's document together as a text. The parser reads that text as the
document, so a load lists a function under its name with the signature it is declared with.
-/

namespace CrossNative.Wire

set_option autoImplicit false

open Basis Text Proc Rust

/-! ## Plain texts -/

theorem escapeText_plain {chars : List Char} (h : ∀ c ∈ chars, c ≠ '"' ∧ c ≠ '\\' ∧ 0x20 ≤ c.toNat) :
    Serializer.escapeText chars = utf8Text chars := by
  induction chars with
  | nil => rfl
  | cons c chars ih =>
    obtain ⟨⟨hquote, hslash, hcontrol⟩, hrest⟩ := List.forall_mem_cons.mp h
    have hquote : c.toNat ≠ 0x22 := fun heq => hquote (Char.toNat_inj.mp heq)
    have hslash : c.toNat ≠ 0x5C := fun heq => hslash (Char.toNat_inj.mp heq)
    have hc : Serializer.escapeChar c = String.utf8EncodeChar c := by
      unfold Serializer.escapeChar
      rw [if_neg (by omega), if_neg (by omega), if_neg (by omega), if_neg (by omega), if_neg (by omega),
        if_neg hquote, if_neg hslash, if_neg (by omega)]
    have hih := ih hrest
    rw [Serializer.escapeText] at hih ⊢
    rw [List.flatMap_cons, hc, hih, utf8Text, utf8Text, List.flatMap_cons]

theorem dumpString_plain {s : String} (h : PlainText s) :
    Serializer.dumpString s = .ok (bytesOf ("\"" ++ s ++ "\"")) := by
  have hbytes : bytesOf s = utf8Text s.toList := by rw [← bytesOf_ofList, String.ofList_toList]
  have hquote : bytesOf "\"" = [quote] := rfl
  rw [Serializer.dumpString, hbytes, Serializer.dumpEscaped_utf8, escapeText_plain h, bytesOf_append, bytesOf_append,
    hquote, hbytes]
  rfl

/-! ## The text of a declaration -/

def paramDoc (p : ParamDecl) : Json := .obj [("name", .str p.name.text), ("type", .str p.kind.wireName)]

theorem dump_paramDoc (p : ParamDecl) : Serializer.dump (paramDoc p) = .ok (bytesOf (FnDecl.paramEntry p)) := by
  have hname : Serializer.dumpString "name" = .ok (bytesOf "\"name\"") := rfl
  have htype : Serializer.dumpString "type" = .ok (bytesOf "\"type\"") := rfl
  rw [paramDoc, Serializer.dump, dumpFields_cons, Serializer.dumpFields, Serializer.dump, Serializer.dump, hname, htype,
    dumpString_plain p.name.plain, dumpString_plain p.kind.plain_wireName, FnDecl.paramEntry]
  have hopening : bytesOf "\x7b\"name\":\"" = 0x7B :: (bytesOf "\"name\"" ++ [0x3A, quote]) := rfl
  have hbetween : bytesOf "\",\"type\":\"" = quote :: 0x2C :: (bytesOf "\"type\"" ++ [0x3A, quote]) := rfl
  have hclosing : bytesOf "\"\x7d" = [quote, 0x7D] := rfl
  have hquote : bytesOf "\"" = [quote] := rfl
  simp [bytesOf_append, bind, Except.bind, hopening, hbetween, hclosing, hquote]

theorem dumpItems_params (params : List ParamDecl) : Serializer.dumpItems (params.map paramDoc) =
    .ok (bytesOf (",".intercalate (params.map FnDecl.paramEntry))) := by
  induction params with
  | nil => rfl
  | cons p params ih =>
    cases params with
    | nil =>
      rw [List.map_cons, List.map_nil, List.map_cons, List.map_nil, Serializer.dumpItems, String.intercalate_singleton,
        dump_paramDoc]
    | cons p' params =>
      rw [List.map_cons] at ih
      have hrest : (p :: p' :: params).map FnDecl.paramEntry =
          FnDecl.paramEntry p :: FnDecl.paramEntry p' :: params.map FnDecl.paramEntry := rfl
      rw [List.map_cons, List.map_cons, dumpItems_cons, dump_paramDoc, ih, hrest, String.intercalate_cons_cons,
        bytesOf_append, bytesOf_append, List.append_assoc]
      rfl

/-- The pasted text is what `dump` prints for the document. -/
theorem dump_metadataDoc (f : FnDecl) : Serializer.dump f.metadataDoc = .ok (bytesOf f.metadata) := by
  have hname : Serializer.dumpString "name" = .ok (bytesOf "\"name\"") := rfl
  have hparams : Serializer.dumpString "params" = .ok (bytesOf "\"params\"") := rfl
  have hreturns : Serializer.dumpString "returns" = .ok (bytesOf "\"returns\"") := rfl
  have hitems : Serializer.dump (.arr (f.params.map paramDoc)) =
      .ok (0x5B :: bytesOf (",".intercalate (f.params.map FnDecl.paramEntry)) ++ [0x5D]) := by
    rw [Serializer.dump, dumpItems_params]
    cases f.params with
    | nil => rfl
    | cons p params => rfl
  have hdoc : f.metadataDoc = .obj [("name", .str f.name.text), ("params", .arr (f.params.map paramDoc)),
      ("returns", .str f.returns.wireName)] := by
    rw [FnDecl.metadataDoc, signatureDoc, List.map_map]
    rfl
  rw [hdoc, Serializer.dump, dumpFields_cons, dumpFields_cons, Serializer.dumpFields, Serializer.dump, Serializer.dump,
    hitems, hname, hparams, hreturns, dumpString_plain f.name.plain, dumpString_plain f.returns.plain_wireName,
    FnDecl.metadata]
  have hopening : bytesOf "\x7b\"name\":\"" = 0x7B :: (bytesOf "\"name\"" ++ [0x3A, quote]) := rfl
  have hbefore : bytesOf "\",\"params\":[" = quote :: 0x2C :: (bytesOf "\"params\"" ++ [0x3A, 0x5B]) := rfl
  have hafter : bytesOf "],\"returns\":\"" = 0x5D :: 0x2C :: (bytesOf "\"returns\"" ++ [0x3A, quote]) := rfl
  have hclosing : bytesOf "\"\x7d" = [quote, 0x7D] := rfl
  have hquote : bytesOf "\"" = [quote] := rfl
  simp [bytesOf_append, bind, Except.bind, hopening, hbefore, hafter, hclosing, hquote]

theorem settled_metadataDoc (f : FnDecl) : Settled f.metadataDoc := by
  have hparam (p : String × String) : Settled (.obj [("name", .str p.1), ("type", .str p.2)]) :=
    settled_obj (by simp [SortedFields]; decide) (by simp [settled_str])
  have hparams : Settled (.arr ((f.params.map fun p => (p.name.text, p.kind.wireName)).map fun p =>
      .obj [("name", .str p.1), ("type", .str p.2)])) := by
    refine settled_arr ?_
    intro j hj
    obtain ⟨p, -, rfl⟩ := List.mem_map.mp hj
    exact hparam p
  exact settled_obj (by simp [SortedFields]; decide) (by simp only [List.forall_mem_cons]; exact
    ⟨settled_str _, hparams, settled_str _, by simp⟩)

theorem parse_metadata (f : FnDecl) : Text.parse (bytesOf f.metadata) = .ok f.metadataDoc := by
  obtain ⟨line, hdump, -, hdenotes⟩ := settled_printed (settled_metadataDoc f)
  obtain rfl := Except.ok.inj (hdump.symm.trans (dump_metadataDoc f))
  exact parse_of_denotes hdenotes

theorem textEnv_metadata (P : Platform) (f : FnDecl) : (textEnv P).parse (utf8 f.metadata) = .ok f.metadataDoc := by
  have hparse : Text.parse (utf8 f.metadata) = .ok f.metadataDoc := parse_metadata f
  simp only [textEnv, hparse]

/-! ## Loading -/

variable {σ : Type} {m : RustModule σ}

/-- A metadata export returns the function's document or nothing. -/
theorem readMetadata_document {f : RustFn} (hf : f ∈ m.functions) :
    Returns (fun document => document = some (utf8 f.decl.metadata) ∨ ∀ b bs, document ≠ some (b :: bs))
      (readMetadata m.guest f.decl.metaExport) := by
  intro h
  have hrun : m.guest.run f.decl.metaExport [] h.store =
      RustModule.cells (packStr m.heap f.decl.metadata h.store) := RustModule.run_metaExport hf [] h.store
  have hnull {st' : Store σ} (hpack : packStr m.heap f.decl.metadata h.store = (.ok (pack 0 0), st')) :
      ∃ document h', readMetadata m.guest f.decl.metaExport h = (.ok document, h') ∧
        (document = some (utf8 f.decl.metadata) ∨ ∀ b bs, document ≠ some (b :: bs)) := by
    refine ⟨some [], { h with store := st' }, ?_, Or.inr (by simp)⟩
    have hcall : callWasmA m.guest ⟨f.decl.metaExport, [], [.i64]⟩ 1 [] h =
        (.ok (.ok [.i64 (pack 0 0)]), { h with store := st' }) := by
      rw [hpack] at hrun
      simp [callWasmA, hrun, RustModule.cells, Except.map, Val.ofCells]
    simp only [readMetadata, RustModule.lookup_meta hf, bind_of_ok hcall, List.headD_cons, Val.ofI64_i64,
      unpackHandle_pack]
    rfl
  rcases packSlice_cases m.heap (utf8 f.decl.metadata) (utf8 f.decl.metadata).length h.store with
    ⟨-, hpack⟩ | ⟨st', -, -, hpack⟩ | ⟨trap, st', hpack⟩ | ⟨buffer, st', hpacked, -⟩
  · exact hnull hpack
  · exact hnull hpack
  · refine ⟨none, { h with store := st' }, ?_, Or.inr (by simp)⟩
    have hcall : callWasmA m.guest ⟨f.decl.metaExport, [], [.i64]⟩ 1 [] h =
        (.ok (.error (some trap)), { h with store := st' }) := by
      rw [packStr, hpack] at hrun
      simp [callWasmA, hrun, RustModule.cells, Except.map]
    simp only [readMetadata, RustModule.lookup_meta hf, bind_of_ok hcall]
    rfl
  · obtain ⟨h', hread⟩ := readMetadata_packed hf hpacked
    exact ⟨_, h', hread, Or.inl rfl⟩

/-- What is listed is declared. -/
structure Declared (m : RustModule σ) (entry : ModuleEntry) : Prop where
  signatures : ∀ name sig, entry.signatures.lookup name = some sig →
    ∃ f ∈ m.functions, f.decl.name.text = name ∧ f.decl.hostSignature = some sig
  manifest : ∀ doc ∈ entry.manifest, ∃ f ∈ m.functions, f.decl.metadataDoc = doc ∧ f.decl.HostKnown

theorem Declared.addDocument {f : RustFn} (hf : f ∈ m.functions) {entry : ModuleEntry} (h : Declared m entry) :
    Declared m (addDocument entry f.decl.metadataDoc) := by
  cases hsig : f.decl.hostSignature with
  | none =>
    have hsame : CrossNative.addDocument entry f.decl.metadataDoc = entry := by
      rw [CrossNative.addDocument, parseSignature_metadataDoc, hsig]
    rwa [hsame]
  | some sig =>
    rw [addDocument_metadataDoc hsig]
    constructor
    · intro name sig' hlookup
      dsimp only at hlookup
      rw [List.lookup_cons] at hlookup
      split at hlookup
      · rename_i heq
        exact ⟨f, hf, (beq_iff_eq.mp heq).symm, hsig.trans hlookup⟩
      · exact h.signatures name sig' hlookup
    · intro doc hdoc
      rcases List.mem_append.mp hdoc with hbefore | hself
      · exact h.manifest doc hbefore
      · obtain rfl := List.mem_singleton.mp hself
        exact ⟨f, hf, rfl, (hostSignature_isSome_iff f.decl).mp (by rw [hsig]; rfl)⟩

/-- No function is named like a metadata export. -/
def PlainNames (m : RustModule σ) : Prop := ∀ f ∈ m.functions, isMetaExport f.decl.name.text = false

theorem meta_of_export (hplain : PlainNames m) {name : String} (hname : name ∈ exportNames m.functions)
    (hmeta : isMetaExport name = true) : ∃ f ∈ m.functions, name = f.decl.metaExport := by
  simp only [exportNames, List.mem_cons, List.mem_flatMap, List.not_mem_nil, or_false] at hname
  rcases hname with rfl | rfl | ⟨f, hf, rfl | rfl⟩
  · exact absurd hmeta (by decide)
  · exact absurd hmeta (by decide)
  · rw [hplain f hf] at hmeta
    cases hmeta
  · exact ⟨f, hf, rfl⟩

theorem readExport_declared (P : Platform) (hplain : PlainNames m) {name : String} (hname : name ∈ exportNames m.functions)
    {entry : ModuleEntry} (h : Declared m entry) : Returns (Declared m) (readExport (textEnv P) m.guest name entry) := by
  unfold readExport
  split
  · rename_i hmeta
    obtain ⟨f, hf, rfl⟩ := meta_of_export hplain hname hmeta
    refine (readMetadata_document hf).bind ?_
    rintro document (rfl | hnothing)
    · cases hbytes : utf8 f.decl.metadata with
      | nil => exact .pure h
      | cons b bs =>
        have hparse := textEnv_metadata P f.decl
        rw [hbytes] at hparse
        simp only [hparse]
        exact .pure (h.addDocument hf)
    · split
      · exact absurd rfl (hnothing _ _)
      · exact .pure h
  · exact .pure h

theorem readManifest_declared (P : Platform) (hplain : PlainNames m) {names : List String}
    (hnames : ∀ name ∈ names, name ∈ exportNames m.functions) {entry : ModuleEntry} (h : Declared m entry) :
    Returns (Declared m) (readManifest (textEnv P) m.guest names entry) := by
  induction names generalizing entry with
  | nil => exact .pure h
  | cons name names ih =>
    obtain ⟨hname, hrest⟩ := List.forall_mem_cons.mp hnames
    rw [readManifest]
    exact (readExport_declared P hplain hname h).bind fun entry₁ hentry => ih hrest hentry

theorem loadEntry_declared (P : Platform) (hplain : PlainNames m) {h h' : Host σ} {entry : ModuleEntry}
    (hload : loadEntry (textEnv P) m.guest h = (.ok entry, h')) : Declared m entry := by
  have hnames : m.guest.exports.map Prod.fst = exportNames m.functions := m.exports_names
  have hempty : Declared m ⟨exportNames m.functions, [], []⟩ := by
    constructor
    · intro name sig hlookup
      cases hlookup
    · intro doc hdoc
      cases hdoc
  rw [loadEntry, hnames] at hload
  obtain ⟨entry', h₁, hrun, hdeclared⟩ := readManifest_declared P hplain (fun _ hname => hname) hempty h
  cases hrun.symm.trans hload
  exact hdeclared

/-- The allocator has a block for the function's document when the load comes to its export. -/
def HasRoom (P : Platform) (m : RustModule σ) (f : RustFn) (h : Host σ) : Prop :=
  ∀ entry h₁, readManifest (textEnv P) m.guest (namesBefore m f) ⟨exportNames m.functions, [], []⟩ h = (.ok entry, h₁) →
    ∃ buffer st', Packed m.heap (utf8 f.decl.metadata) h₁.store buffer st'

theorem eq_of_name {f g : RustFn} (hf : f ∈ m.functions) (hg : g ∈ m.functions)
    (hname : f.decl.name.text = g.decl.name.text) : f = g := by
  have hfind := RustModule.find_of_mem hf
  rw [hname, RustModule.find_of_mem hg] at hfind
  exact (Option.some.inj hfind).symm

theorem joinModule_hasRoom : HasRoom default joinModule joinFn metadataHost := by
  intro entry h₁ hrun
  have hplain : ∀ name ∈ namesBefore joinModule joinFn, isMetaExport name = false := by
    decide +kernel
  rw [readManifest_plain _ _ hplain] at hrun
  cases hrun
  exact joinMetadata_served.packed _ _ (readManifest_plain _ _ hplain _ _)

end CrossNative.Wire
