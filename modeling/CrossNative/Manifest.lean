import CrossNative.HostLog
import CrossNative.Runtime
import CrossNative.Bridge.Callables

/-!
# One manifest, two readers

Loading fills a map of signatures for the runtime and an array of documents for the bridge.
A document is in both or in neither, and where several have one name, both readers go by
the last.
-/

namespace CrossNative

set_option autoImplicit false

open Basis Proc

variable {σ : Type}

/-! ## Loading follows its documents -/

theorem callWasmA_returns (g : Guest σ) (func : Func) (n : Nat) (args : List Val) :
    Returns (fun _ => True) (callWasmA g func n args) := by
  intro h
  obtain ⟨reply, st, hcall, _⟩ := callWasmA_run g func n args h
  exact ⟨reply, _, hcall, trivial⟩

theorem wasmFree_returns (g : Guest σ) (ptr size : Nat) :
    Returns (fun _ => True) (wasmFree g ptr size) := by
  intro h
  obtain ⟨st, _, hrun⟩ := wasmFree_log g ptr size h
  exact ⟨(), _, hrun, trivial⟩

theorem readMetadata_returns (g : Guest σ) (name : String) :
    Returns (fun _ => True) (readMetadata g name) := by
  unfold readMetadata
  split
  · exact Returns.pure trivial
  · refine (callWasmA_returns g _ 1 []).bind fun reply _ => ?_
    cases reply with
    | error exc => exact Returns.pure trivial
    | ok rets =>
      dsimp only
      split
      · exact Returns.pure trivial
      · refine Returns.bind (Q := fun _ => True) (fun h => ⟨(), _, rfl, trivial⟩) fun _ _ => ?_
        refine Returns.bind (Q := fun _ => True) (fun h => ⟨_, _, rfl, trivial⟩) fun inside _ => ?_
        cases inside with
        | false => exact Returns.pure trivial
        | true =>
          refine Returns.bind (Q := fun _ => True) (fun h => ⟨_, _, rfl, trivial⟩) fun _ _ => ?_
          exact (wasmFree_returns g _ _).bind fun _ _ => Returns.pure trivial

section Invariant

variable {I : ModuleEntry → Prop} (hadd : ∀ entry doc, I entry → I (addDocument entry doc))
include hadd

/-- One export adds a document, whatever bytes it returns, or nothing. -/
theorem readExport_invariant (env : Env) (g : Guest σ) (name : String) {entry : ModuleEntry}
    (h : I entry) : Returns I (readExport env g name entry) := by
  unfold readExport
  split
  · refine (readMetadata_returns g name).bind fun document _ => ?_
    rcases document with _ | _ | ⟨b, bs⟩
    · exact Returns.pure h
    · exact Returns.pure h
    · dsimp only
      cases env.parse (b :: bs) with
      | error what => exact Returns.pure h
      | ok doc => exact Returns.pure (hadd entry doc h)
  · exact Returns.pure h

theorem readManifest_invariant (env : Env) (g : Guest σ) (names : List String) {entry : ModuleEntry}
    (h : I entry) : Returns I (readManifest env g names entry) := by
  induction names generalizing entry with
  | nil => exact Returns.pure h
  | cons name names ih =>
    rw [readManifest]
    exact (readExport_invariant hadd env g name h).bind fun entry₁ hentry => ih hentry

end Invariant

/-! ## Reading a published document -/

namespace Json

/-- The text under a key, where there is one. -/
def text? (j : Json) (key : String) : Option String :=
  match j.find? key with
  | some (.str s) => some s
  | _ => none

theorem lookup_dumpFields (fields : List (String × Json)) (key : String) :
    (dumpFields fields).lookup key = (fields.lookup key).map dump := by
  induction fields with
  | nil => rfl
  | cons field rest ih =>
    obtain ⟨name, value⟩ := field
    rw [dumpFields, List.lookup_cons, List.lookup_cons]
    cases key == name with
    | true => rfl
    | false => exact ih

theorem find?_dump (j : Json) (key : String) : j.dump.find? key = (j.find? key).map dump := by
  cases j with
  | obj fields => simp only [dump, find?, lookup_dumpFields]
  | float x => by_cases hfinite : FloatFormat.binary64.IsFinite x.toNat <;> simp [dump, hfinite, find?]
  | null | bool _ | int _ | str _ | arr _ => simp only [dump, find?, Option.map_none]

/-- Printing changes no text. -/
theorem text?_dump (j : Json) (key : String) : j.dump.text? key = j.text? key := by
  rw [text?, find?_dump, text?]
  cases j.find? key with
  | none => rfl
  | some v =>
    cases v with
    | float x => by_cases hfinite : FloatFormat.binary64.IsFinite x.toNat <;> simp [dump, hfinite]
    | null | bool _ | int _ | str _ | arr _ | obj _ => simp only [Option.map_some, dump]

/-- What `value(key, fallback)` returns is what the document says, or the fallback. -/
theorem text_of_valueString {j : Json} {key fallback s : String}
    (h : j.valueString key fallback = .ok s) : (j.text? key).getD fallback = s := by
  cases j with
  | obj fields =>
    simp only [valueString] at h
    rw [text?, find?]
    split at h
    · rename_i v hlookup
      cases v with
      | str t =>
        cases h
        rw [hlookup]
        rfl
      | _ => cases h
    · rename_i hlookup
      cases h
      rw [hlookup]
      rfl
  | _ => cases h

end Json

/-- The name an entry goes by; without a `name` it is the empty string. -/
def nameOf (doc : Json) : String := (doc.text? "name").getD ""

def ParamDescribes (item : Json) (param : Param) : Prop :=
  parseValueType ((item.text? "type").getD "") = some param.type ∧
    (item.text? "name").getD "" = param.name

/-- A document and the signature the runtime has made of it. -/
structure Describes (doc : Json) (name : String) (sig : Signature) : Prop where
  named : nameOf doc = name
  params : ∃ items, doc.find? "params" = some (.arr items) ∧
    List.Forall₂ ParamDescribes items sig.params
  returns : parseValueType ((doc.text? "returns").getD "void") = some sig.returns

theorem parseParams_describes {items : List Json} {params : List Param}
    (h : parseParams items = .ok (some params)) : List.Forall₂ ParamDescribes items params := by
  induction items generalizing params with
  | nil =>
    cases h
    exact .nil
  | cons item items ih =>
    rw [parseParams] at h
    split at h
    · cases h
    · rename_i text htext
      split at h
      · cases h
      · rename_i type htype
        split at h
        · cases h
        · rename_i name hname
          split at h
          · cases h
          · cases h
          · rename_i rest hrest
            cases h
            refine .cons ⟨?_, Json.text_of_valueString hname⟩ (ih hrest)
            rw [Json.text_of_valueString htext]
            exact htype

theorem parseSignature_describes {doc : Json} {sig : Signature} {name : String}
    (hsig : parseSignature doc = .ok (some sig)) (hname : doc.valueString "name" "" = .ok name) :
    Describes doc name sig := by
  unfold parseSignature at hsig
  split at hsig
  · rename_i items hitems
    split at hsig
    · cases hsig
    · cases hsig
    · rename_i params hparams
      split at hsig
      · cases hsig
      · rename_i text htext
        split at hsig
        · cases hsig
        · rename_i returns hreturns
          cases hsig
          refine ⟨Json.text_of_valueString hname, ⟨items, hitems, parseParams_describes hparams⟩, ?_⟩
          rw [Json.text_of_valueString htext]
          exact hreturns
  · cases hsig

theorem Describes.dump {doc : Json} {name : String} {sig : Signature} (h : Describes doc name sig) :
    Describes doc.dump name sig where
  named := by
    rw [nameOf, Json.text?_dump]
    exact h.named
  params := by
    obtain ⟨items, hitems, hparams⟩ := h.params
    refine ⟨items.map Json.dump, ?_, ?_⟩
    · rw [Json.find?_dump, hitems, Option.map_some, Json.dump, Json.dumpItems_eq_map]
    · rw [List.forall₂_map_left_iff]
      refine hparams.imp fun item param hparam => ?_
      rw [ParamDescribes, Json.text?_dump, Json.text?_dump]
      exact hparam
  returns := by
    rw [Json.text?_dump]
    exact h.returns

/-- The documents and the signatures of an entry, both latest first. -/
def InStep (entry : ModuleEntry) : Prop :=
  List.Forall₂ (fun doc named => Describes doc named.1 named.2) entry.manifest.reverse entry.signatures

theorem addDocument_inStep (entry : ModuleEntry) (doc : Json) (h : InStep entry) :
    InStep (addDocument entry doc) := by
  unfold addDocument
  split
  · rename_i sig hsig
    split
    · rename_i name hname
      rw [InStep, List.reverse_append]
      exact .cons (parseSignature_describes hsig hname) h
    · exact h
  · exact h

section Readers

variable {docs : List Json} {signatures : List (String × Signature)}

theorem named_iff_lookup
    (h : List.Forall₂ (fun doc named => Describes doc named.1 named.2) docs signatures) (m : String) :
    (∃ doc ∈ docs, nameOf doc = m) ↔ (signatures.lookup m).isSome := by
  induction h with
  | nil => simp
  | @cons doc named docs signatures hdoc _ ih =>
    obtain ⟨name, sig⟩ := named
    rw [List.lookup_cons]
    by_cases hm : m = name
    · subst hm
      simp [hdoc.named]
    · rw [beq_eq_false_iff_ne.mpr hm, ← ih]
      simp [hdoc.named, Ne.symm hm]

/-- A lookup finds the latest document of its name. -/
theorem latest_of_lookup
    (h : List.Forall₂ (fun doc named => Describes doc named.1 named.2) docs signatures) {m : String}
    {sig : Signature} (hlookup : signatures.lookup m = some sig) :
    ∃ later doc earlier, docs = later ++ doc :: earlier ∧ Describes doc m sig ∧
      ∀ d ∈ later, nameOf d ≠ m := by
  induction h with
  | nil => cases hlookup
  | @cons doc named docs signatures hdoc _ ih =>
    obtain ⟨name, sig'⟩ := named
    rw [List.lookup_cons] at hlookup
    by_cases hm : m = name
    · subst hm
      rw [beq_self_eq_true] at hlookup
      cases hlookup
      exact ⟨[], doc, docs, rfl, hdoc, by simp⟩
    · rw [beq_eq_false_iff_ne.mpr hm] at hlookup
      obtain ⟨later, found, earlier, rfl, hfound, hother⟩ := ih hlookup
      refine ⟨doc :: later, found, earlier, rfl, hfound, List.forall_mem_cons.mpr ⟨?_, hother⟩⟩
      rw [hdoc.named]
      exact Ne.symm hm

end Readers

/-! ## The bridge -/

namespace Bridge

def readParam (item : Json) : SignatureParam :=
  ⟨(item.text? "name").getD "undefined", (item.text? "type").getD "undefined"⟩

/-- A published document as the signature it is used as; `toCamelCase` throws without a name. -/
def readSignature (doc : Json) : Option FunctionSignature :=
  (doc.text? "name").map fun name =>
    ⟨name, ((doc.find? "params").getD .null).elements.map readParam,
      (doc.text? "returns").getD "undefined"⟩

def readSignatures : List Json → Option (List FunctionSignature)
  | [] => some []
  | doc :: docs =>
    match readSignature doc, readSignatures docs with
    | some signature, some signatures => some (signature :: signatures)
    | _, _ => none

structure ModuleHandle where
  id : String
  functions : List String
  /-- Functions the module declared; a document without a name adds `undefined`. -/
  declared : List (Option String)
  callables : JsObject NativeFunction

/-- The names and functions of `createHandle`, from a published manifest. -/
def createHandle (id : String) (functions : List String) (manifest : List Json) :
    Except JsError ModuleHandle :=
  match readSignatures manifest with
  | none => .error .engineTypeError
  | some signatures =>
    match buildCallables signatures with
    | .error e => .error e
    | .ok callables => .ok ⟨id, functions, manifest.map fun doc => doc.text? "name", callables⟩

/-- Arguments for this method are not normalised. -/
def ModuleHandle.declares (handle : ModuleHandle) (method : String) : Prop :=
  some method ∈ handle.declared

instance (handle : ModuleHandle) (method : String) : Decidable (handle.declares method) :=
  inferInstanceAs (Decidable (_ ∈ _))

/-- The parameter list of the bridge and that of the runtime. -/
def SameParams (signature : FunctionSignature) (sig : Signature) : Prop :=
  List.Forall₂ (fun p q => parseValueType p.type = some q.type) signature.params sig.params

theorem readSignatures_forall {docs : List Json} {signatures : List FunctionSignature}
    (h : readSignatures docs = some signatures) :
    List.Forall₂ (fun doc signature => readSignature doc = some signature) docs signatures := by
  induction docs generalizing signatures with
  | nil =>
    cases h
    exact .nil
  | cons doc docs ih =>
    rw [readSignatures] at h
    split at h
    · rename_i signature rest hsignature hrest
      cases h
      exact .cons hsignature (ih hrest)
    · cases h

theorem readSignature_name {doc : Json} {signature : FunctionSignature}
    (h : readSignature doc = some signature) : doc.text? "name" = some signature.name := by
  obtain ⟨name, hname, rfl⟩ := Option.map_eq_some_iff.mp h
  exact hname

theorem parseValueType_empty : parseValueType "" = none := by decide

theorem readSignature_sameParams {doc : Json} {signature : FunctionSignature} {name : String}
    {sig : Signature} (h : readSignature doc = some signature) (hdoc : Describes doc name sig) :
    SameParams signature sig := by
  obtain ⟨text, _, rfl⟩ := Option.map_eq_some_iff.mp h
  obtain ⟨items, hitems, hparams⟩ := hdoc.params
  rw [SameParams, hitems, Option.getD_some, Json.elements, List.forall₂_map_left_iff]
  refine hparams.imp fun item param hparam => ?_
  have htype := hparam.1
  rw [readParam]
  cases hcase : item.text? "type" with
  | none =>
    rw [hcase, Option.getD_none, parseValueType_empty] at htype
    cases htype
  | some type =>
    rw [hcase] at htype
    exact htype

/-- Whatever function stands under a key, the runtime binds its method by the parameter list
the function validates against. -/
theorem sameParams_of_find {docs : List Json} {signatures : List (String × Signature)}
    {read : List FunctionSignature}
    (hdocs : List.Forall₂ (fun doc named => Describes doc named.1 named.2) docs signatures)
    (hread : List.Forall₂ (fun doc signature => readSignature doc = some signature) docs read)
    {key : String} {s : FunctionSignature} (hfind : read.find? (fun s => key ∈ s.keys) = some s) :
    ∃ sig, signatures.lookup s.name = some sig ∧ SameParams s sig := by
  induction hdocs generalizing read with
  | nil =>
    cases hread
    cases hfind
  | @cons doc named docs signatures hdoc _ ih =>
    obtain ⟨name, sig⟩ := named
    cases hread with
    | @cons _ s₀ _ rest hs₀ hrest =>
      have hname : nameOf doc = name := hdoc.named
      rw [nameOf, readSignature_name hs₀, Option.getD_some] at hname
      subst hname
      by_cases hkey : key ∈ s₀.keys
      · rw [List.find?_cons_of_pos (by simpa using hkey)] at hfind
        cases hfind
        exact ⟨sig, List.lookup_cons_self, readSignature_sameParams hs₀ hdoc⟩
      · rw [List.find?_cons_of_neg (by simpa using hkey)] at hfind
        obtain ⟨sig', hlookup, hsame⟩ := ih hrest hfind
        have hne : s.name ≠ s₀.name := by
          intro heq
          have hmem : key ∈ s.keys := by simpa using List.find?_some hfind
          rw [FunctionSignature.keys, heq] at hmem
          exact hkey hmem
        refine ⟨sig', ?_, hsame⟩
        rw [List.lookup_cons, beq_eq_false_iff_ne.mpr hne]
        exact hlookup

end Bridge

/-! ## Agreement -/

open Bridge

/-- What the two readers of a module's metadata agree on. -/
structure ManifestAgrees (published : List Json) (signatures : List (String × Signature)) : Prop where
  names : ∀ m, (∃ doc ∈ published, nameOf doc = m) ↔ (signatures.lookup m).isSome
  accepted : ∀ doc ∈ published, ∃ items, doc.find? "params" = some (.arr items) ∧
    (∀ item ∈ items, (parseValueType ((item.text? "type").getD "")).isSome) ∧
    (parseValueType ((doc.text? "returns").getD "void")).isSome
  /-- The last document of a name is the one the runtime binds by. -/
  latest : ∀ m sig, signatures.lookup m = some sig → ∃ before doc after,
    published = before ++ doc :: after ∧ Describes doc m sig ∧ ∀ d ∈ after, nameOf d ≠ m
  installed : ∀ id functions handle, createHandle id functions published = .ok handle →
    ∀ key fn, handle.callables.get key = some fn →
      ∃ sig, signatures.lookup fn.signature.name = some sig ∧ SameParams fn.signature sig
  /-- The bridge leaves arguments alone exactly where the runtime marshals them. -/
  marshalling : ∀ id functions handle, createHandle id functions published = .ok handle →
    ∀ method, handle.declares method ↔ (signatures.lookup method).isSome

theorem ManifestAgrees.of_inStep {entry : ModuleEntry} (h : InStep entry) :
    ManifestAgrees (entry.manifest.map Json.dump) entry.signatures := by
  have hdumped : List.Forall₂ (fun doc named => Describes doc named.1 named.2)
      (entry.manifest.map Json.dump).reverse entry.signatures := by
    rw [← List.map_reverse, List.forall₂_map_left_iff]
    exact h.imp fun _ _ => Describes.dump
  have hnames (m : String) : (∃ doc ∈ entry.manifest.map Json.dump, nameOf doc = m) ↔
      (entry.signatures.lookup m).isSome := by
    rw [← named_iff_lookup hdumped m]
    simp only [List.mem_reverse]
  refine ⟨hnames, fun doc hdoc => ?_, fun m sig hlookup => ?_, ?_, ?_⟩
  · obtain ⟨i, hi, hget⟩ := List.mem_iff_getElem.mp (List.mem_reverse.mpr hdoc)
    have hsigs : i < entry.signatures.length := by
      rw [← hdumped.length_eq]
      exact hi
    have hdescribes := hdumped.get hi hsigs
    rw [List.get_eq_getElem, hget] at hdescribes
    obtain ⟨items, hitems, hparams⟩ := hdescribes.params
    refine ⟨items, hitems, fun item hitem => ?_, by rw [hdescribes.returns]; rfl⟩
    obtain ⟨j, hj, rfl⟩ := List.mem_iff_getElem.mp hitem
    have hparam := hparams.get hj (by rw [← hparams.length_eq]; exact hj)
    rw [List.get_eq_getElem] at hparam
    rw [hparam.1]
    rfl
  · obtain ⟨later, doc, earlier, hsplit, hdoc, hother⟩ := latest_of_lookup hdumped hlookup
    refine ⟨earlier.reverse, doc, later.reverse, ?_, hdoc, fun d hd => hother d (List.mem_reverse.mp hd)⟩
    rw [← List.reverse_reverse (entry.manifest.map Json.dump), hsplit]
    simp
  · intro id functions handle hcreate key fn hget
    unfold createHandle at hcreate
    split at hcreate
    · cases hcreate
    · rename_i read hread
      split at hcreate
      · cases hcreate
      · rename_i callables hbuild
        cases hcreate
        rw [buildCallables_get hbuild] at hget
        obtain ⟨s, hfind, rfl⟩ := Option.map_eq_some_iff.mp hget
        exact sameParams_of_find hdumped (List.rel_reverse (readSignatures_forall hread)) hfind
  · intro id functions handle hcreate method
    unfold createHandle at hcreate
    split at hcreate
    · cases hcreate
    · rename_i read hread
      split at hcreate
      · cases hcreate
      · cases hcreate
        rw [← hnames, ModuleHandle.declares, List.mem_map]
        refine exists_congr fun doc => and_congr_right fun hdoc => ?_
        -- Every document has a name, or there would be no handle.
        obtain ⟨i, hi, rfl⟩ := List.mem_iff_getElem.mp hdoc
        have hforall := readSignatures_forall hread
        have hnamed := readSignature_name (hforall.get hi (by rw [← hforall.length_eq]; exact hi))
        rw [List.get_eq_getElem] at hnamed
        rw [nameOf, hnamed, Option.getD_some, Option.some.injEq]

/-- Whatever the metadata exports of a module return, loading leaves both readers in agreement. -/
theorem manifest_agrees (env : Env) (g : Guest σ) :
    Returns (fun entry => ManifestAgrees (entry.manifest.map Json.dump) entry.signatures)
      (loadEntry env g) := by
  intro h
  have hstart : InStep ⟨g.exports.map Prod.fst, [], []⟩ := .nil
  obtain ⟨entry, h', hload, hinstep⟩ :=
    readManifest_invariant addDocument_inStep env g (g.exports.map Prod.fst) hstart h
  exact ⟨entry, h', hload, ManifestAgrees.of_inStep hinstep⟩

end CrossNative
