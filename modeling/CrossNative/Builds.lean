import CrossNative.Basis.Transition
import CrossNative.Languages

/-!
# Builds that share files

Every build is a process of its own: it may generate a `Cargo.toml`, it runs a compiler, and it
reads an artifact. The paths depend on the directory alone, and the files outlive the builds.
-/

namespace CrossNative

set_option autoImplicit false

open Basis

/-! ## Requests and files -/

structure BuildRequest where
  language : LanguageId
  sourceDir : String
  entryFile : Option String

/-- Compiled code, by the source file it was compiled from. -/
structure Code where
  sourceDir : String
  entry : String
  deriving DecidableEq

/-- What a build takes from a `Cargo.toml`. -/
structure CargoToml where
  name : String
  libPath : String
  deriving DecidableEq

/-- The Rust sources of a directory. -/
structure RustSources where
  hasSrcLib : Bool
  hasLib : Bool
  rustFiles : List String

inductive BuildPhase
  | starting
  /-- Has found no `Cargo.toml`. -/
  | generating
  | compiling
  /-- Cargo has returned, and the artifact is looked for. -/
  | probing
  | reading
  | embedded (code : Code)
  | failed
  deriving DecidableEq

structure Workspace where
  manifests : String → Option CargoToml
  artifacts : String → Option Code
  phase : Nat → BuildPhase

def join (dir rest : String) : String := if dir = "/" then "/" ++ rest else dir ++ "/" ++ rest

def basename (path : String) : String :=
  String.ofList (path.toList.reverse.takeWhile fun c => c != '/').reverse

def cargoArtifact (sourceDir crateName : String) : String :=
  join sourceDir ("target/wasm32-unknown-unknown/release/" ++
    String.ofList (crateName.toList.map fun c => if c = '-' then '_' else c) ++ ".wasm")

namespace BuildRequest

def moduleName (r : BuildRequest) : String := basename r.sourceDir

def artifact (r : BuildRequest) : String :=
  match r.language with
  | .rust => cargoArtifact r.sourceDir r.moduleName
  | _ => join r.sourceDir (r.moduleName ++ ".wasm")

def defaultEntry : LanguageId → String
  | .zig => "main.zig"
  | .c => "main.c"
  | .cpp => "main.cpp"
  | .go => "main.go"
  | .rust | .assemblyscript => ""

/-- The library path of a generated manifest. -/
def findLibEntry (r : BuildRequest) (sources : RustSources) : Option String :=
  match r.entryFile.filter (· ≠ "") with
  | some entry => some entry
  | none =>
    if sources.hasSrcLib then some "src/lib.rs"
    else if sources.hasLib then some "lib.rs"
    else
      match sources.rustFiles with
      | [file] => some file
      | _ => none

/-- Where the compiler of a build writes, and what. Cargo goes by the manifest it finds. -/
def output (r : BuildRequest) (manifests : String → Option CargoToml) : Option (String × Code) :=
  match r.language with
  | .rust => (manifests r.sourceDir).map fun manifest =>
    (cargoArtifact r.sourceDir manifest.name, ⟨r.sourceDir, manifest.libPath⟩)
  | language => some (r.artifact, ⟨r.sourceDir, r.entryFile.getD (defaultEntry language)⟩)

/-- Code of the entry file the request names, if it names one. -/
def Own (r : BuildRequest) (code : Code) : Prop :=
  ∀ entry, r.entryFile = some entry → entry ≠ "" → code = ⟨r.sourceDir, entry⟩

end BuildRequest

/-! ## Steps -/

structure BuildStep where
  build : Nat
  /-- The toolchain is there and the compiler succeeds. -/
  succeeds : Bool

def Workspace.setPhase (s : Workspace) (i : Nat) (p : BuildPhase) : Workspace :=
  { s with phase := Function.update s.phase i p }

section Steps

variable (listing : String → RustSources) (requests : List BuildRequest)

/-- The next access of a build to the files. -/
def buildStep (s : Workspace) (a : BuildStep) : Option Workspace :=
  match requests[a.build]? with
  | none => none
  | some r =>
    match s.phase a.build with
    | .starting =>
      if a.succeeds && isUsable r.language.support then
        if r.language = .rust ∧ s.manifests r.sourceDir = none then some (s.setPhase a.build .generating)
        else some (s.setPhase a.build .compiling)
      else some (s.setPhase a.build .failed)
    | .generating =>
      match r.findLibEntry (listing r.sourceDir) with
      | none => some (s.setPhase a.build .failed)
      | some libPath =>
        some { s.setPhase a.build .compiling with
          manifests := Function.update s.manifests r.sourceDir (some ⟨r.moduleName, libPath⟩) }
    | .compiling =>
      match r.output s.manifests, a.succeeds with
      | some (path, code), true =>
        some { s.setPhase a.build (if r.language = .rust then .probing else .reading) with
          artifacts := Function.update s.artifacts path (some code) }
      | _, _ => some (s.setPhase a.build .failed)
    | .probing =>
      if s.artifacts r.artifact = none then some (s.setPhase a.build .failed)
      else some (s.setPhase a.build .reading)
    | .reading =>
      match s.artifacts r.artifact with
      | none => some (s.setPhase a.build .failed)
      | some code => some (s.setPhase a.build (.embedded code))
    | .embedded _ | .failed => none

/-- Every build that has succeeded embeds code of its own entry file. -/
def OwnEntries (s : Workspace) : Prop :=
  ∀ i r code, requests[i]? = some r → s.phase i = .embedded code → r.Own code

/-- Between its compiler and the read. -/
def BuildPhase.Waiting (p : BuildPhase) : Prop := p = .probing ∨ p = .reading

/-- A compiler may run: what it writes is the build's own code, or goes elsewhere with nothing
foreign at the path the build reads; and no other build waits to read that path for the code
of another entry file. -/
def Undisturbed (s : Workspace) (a : BuildStep) : Prop :=
  ∀ r path code, requests[a.build]? = some r → s.phase a.build = .compiling → a.succeeds = true →
    r.output s.manifests = some (path, code) →
    (path = r.artifact → r.Own code) ∧
    (path ≠ r.artifact → ∀ old, s.artifacts r.artifact = some old → r.Own old) ∧
    ∀ k q, k ≠ a.build → requests[k]? = some q → (s.phase k).Waiting → q.artifact = path → q.Own code

end Steps

/-! ## What a step does -/

section Preserved

variable {listing : String → RustSources} {requests : List BuildRequest} {s t : Workspace} {a : BuildStep}

/-- Neither waiting for a read nor past it. -/
def BuildPhase.Idle (p : BuildPhase) : Prop := p = .generating ∨ p = .compiling ∨ p = .failed

theorem buildStep_cases (h : buildStep listing requests s a = some t) :
    ∃ r, requests[a.build]? = some r ∧
      ((∃ p, p.Idle ∧ t.artifacts = s.artifacts ∧ t.phase = Function.update s.phase a.build p) ∨
      (s.phase a.build = .compiling ∧ a.succeeds = true ∧ ∃ path code p,
        r.output s.manifests = some (path, code) ∧ p.Waiting ∧
        t.artifacts = Function.update s.artifacts path (some code) ∧
        t.phase = Function.update s.phase a.build p) ∨
      (s.phase a.build = .probing ∧ t.artifacts = s.artifacts ∧
        t.phase = Function.update s.phase a.build .reading) ∨
      (s.phase a.build = .reading ∧ ∃ code, s.artifacts r.artifact = some code ∧
        t.artifacts = s.artifacts ∧ t.phase = Function.update s.phase a.build (.embedded code))) := by
  unfold buildStep at h
  split at h
  · cases h
  · rename_i r hr
    refine ⟨r, hr, ?_⟩
    split at h
    · split at h
      · split at h
        · cases h
          exact Or.inl ⟨_, Or.inl rfl, rfl, rfl⟩
        · cases h
          exact Or.inl ⟨_, Or.inr (Or.inl rfl), rfl, rfl⟩
      · cases h
        exact Or.inl ⟨_, Or.inr (Or.inr rfl), rfl, rfl⟩
    · split at h
      · cases h
        exact Or.inl ⟨_, Or.inr (Or.inr rfl), rfl, rfl⟩
      · cases h
        exact Or.inl ⟨_, Or.inr (Or.inl rfl), rfl, rfl⟩
    · rename_i hphase
      split at h
      · rename_i path code houtput hsucceeds
        cases h
        refine Or.inr (Or.inl ⟨hphase, hsucceeds, path, code, _, houtput, ?_, rfl, rfl⟩)
        by_cases hrust : r.language = .rust
        · rw [if_pos hrust]
          exact Or.inl rfl
        · rw [if_neg hrust]
          exact Or.inr rfl
      · cases h
        exact Or.inl ⟨_, Or.inr (Or.inr rfl), rfl, rfl⟩
    · rename_i hphase
      split at h
      · cases h
        exact Or.inl ⟨_, Or.inr (Or.inr rfl), rfl, rfl⟩
      · cases h
        exact Or.inr (Or.inr (Or.inl ⟨hphase, rfl, rfl⟩))
    · rename_i hphase
      split at h
      · cases h
        exact Or.inl ⟨_, Or.inr (Or.inr rfl), rfl, rfl⟩
      · rename_i code hcode
        cases h
        exact Or.inr (Or.inr (Or.inr ⟨hphase, code, hcode, rfl, rfl⟩))
    · cases h
    · cases h

/-- What a build will read, or has read, is code of its own entry file. -/
structure OwnArtifacts (requests : List BuildRequest) (s : Workspace) : Prop where
  waiting : ∀ i r code, requests[i]? = some r → (s.phase i).Waiting →
    s.artifacts r.artifact = some code → r.Own code
  embedded : OwnEntries requests s

theorem OwnArtifacts.start (h : ∀ i, s.phase i = .starting) : OwnArtifacts requests s where
  waiting i r code _ hwaiting := by
    rw [h i] at hwaiting
    rcases hwaiting with hp | hp <;> cases hp
  embedded i r code _ hp := by
    rw [h i] at hp
    cases hp

theorem BuildPhase.Idle.not_waiting {p : BuildPhase} (h : p.Idle) : ¬ p.Waiting := by
  rcases h with rfl | rfl | rfl <;> rintro (hp | hp) <;> cases hp

theorem BuildPhase.Idle.not_embedded {p : BuildPhase} (h : p.Idle) (code : Code) : p ≠ .embedded code := by
  rcases h with rfl | rfl | rfl <;> exact fun hp => by cases hp

theorem BuildPhase.Waiting.not_embedded {p : BuildPhase} (h : p.Waiting) (code : Code) : p ≠ .embedded code := by
  rcases h with rfl | rfl <;> exact fun hp => by cases hp

/-- A step that leaves the artifacts alone. -/
theorem OwnArtifacts.of_phase (hown : OwnArtifacts requests s) {i : Nat} {r : BuildRequest}
    (hr : requests[i]? = some r) {p : BuildPhase} (hartifacts : t.artifacts = s.artifacts)
    (hphase : t.phase = Function.update s.phase i p) (hwaiting : p.Waiting → (s.phase i).Waiting)
    (hembedded : ∀ code, p = .embedded code → r.Own code) : OwnArtifacts requests t where
  waiting k q code hq hk hcode := by
    rw [hartifacts] at hcode
    rw [hphase] at hk
    by_cases heq : k = i
    · subst heq
      rw [Function.update_self] at hk
      exact hown.waiting k q code hq (hwaiting hk) hcode
    · rw [Function.update_of_ne heq] at hk
      exact hown.waiting k q code hq hk hcode
  embedded k q code hq hk := by
    rw [hphase] at hk
    rcases update_cases hk with ⟨rfl, hp⟩ | ⟨_, hk⟩
    · cases Option.some.inj (hr.symm.trans hq)
      exact hembedded code hp
    · exact hown.embedded k q code hq hk

/-- A compiler has written, and its build waits for the read. -/
theorem OwnArtifacts.of_output (hown : OwnArtifacts requests s) {i : Nat} {r : BuildRequest}
    (hr : requests[i]? = some r) {p : BuildPhase} {path : String} {code : Code} (hp : p.Waiting)
    (hartifacts : t.artifacts = Function.update s.artifacts path (some code))
    (hphase : t.phase = Function.update s.phase i p) (hwritten : path = r.artifact → r.Own code)
    (helsewhere : path ≠ r.artifact → ∀ old, s.artifacts r.artifact = some old → r.Own old)
    (hothers : ∀ k q, k ≠ i → requests[k]? = some q → (s.phase k).Waiting → q.artifact = path → q.Own code) :
    OwnArtifacts requests t where
  waiting k q found hq hk hfound := by
    rw [hartifacts] at hfound
    rw [hphase] at hk
    by_cases heq : k = i
    · subst heq
      cases Option.some.inj (hr.symm.trans hq)
      rcases update_cases hfound with ⟨hpath, hcode⟩ | ⟨hpath, hold⟩
      · cases Option.some.inj hcode
        exact hwritten hpath.symm
      · exact helsewhere (Ne.symm hpath) found hold
    · rw [Function.update_of_ne heq] at hk
      rcases update_cases hfound with ⟨hpath, hcode⟩ | ⟨_, hold⟩
      · cases Option.some.inj hcode
        exact hothers k q heq hq hk hpath
      · exact hown.waiting k q found hq hk hold
  embedded k q found hq hk := by
    rw [hphase] at hk
    rcases update_cases hk with ⟨_, hembedded⟩ | ⟨_, hk⟩
    · exact absurd hembedded (hp.not_embedded found)
    · exact hown.embedded k q found hq hk

theorem OwnArtifacts.step (hown : OwnArtifacts requests s) (hallowed : Undisturbed requests s a)
    (h : buildStep listing requests s a = some t) : OwnArtifacts requests t := by
  obtain ⟨r, hr, ⟨p, hidle, hartifacts, hphase⟩ |
    ⟨hcompiling, hsucceeds, path, code, p, houtput, hp, hartifacts, hphase⟩ |
    ⟨hprobing, hartifacts, hphase⟩ | ⟨hreading, code, hcode, hartifacts, hphase⟩⟩ := buildStep_cases h
  · exact hown.of_phase hr hartifacts hphase (fun hp => absurd hp hidle.not_waiting)
      (fun code hp => absurd hp (hidle.not_embedded code))
  · obtain ⟨hwritten, helsewhere, hothers⟩ := hallowed r path code hr hcompiling hsucceeds houtput
    exact hown.of_output hr hp hartifacts hphase hwritten helsewhere hothers
  · refine hown.of_phase hr hartifacts hphase (fun _ => Or.inl hprobing) (fun code hp => ?_)
    cases hp
  · refine hown.of_phase hr hartifacts hphase (fun hp => ?_) (fun found hp => ?_)
    · exact absurd rfl (hp.not_embedded code)
    · cases hp
      exact hown.waiting a.build r code hr (Or.inr hreading) hcode

end Preserved

/-- In every run whose compilers are undisturbed, every build embeds its own entry file. -/
theorem builds_embed_own (listing : String → RustSources) (requests : List BuildRequest)
    (actions : List BuildStep) {s t : Workspace} (hstart : ∀ i, s.phase i = .starting)
    (hmeets : Meets (buildStep listing requests) (Undisturbed requests) s actions)
    (hrun : runAll (buildStep listing requests) s actions = some t) : OwnEntries requests t := by
  have hown := runAll_invariant (fun _ _ _ hown hallowed hstep => OwnArtifacts.step hown hallowed hstep)
    actions (OwnArtifacts.start hstart) hmeets hrun
  exact hown.embedded

/-- Nothing has been built. -/
def freshWorkspace : Workspace where
  manifests _ := none
  artifacts _ := none
  phase _ := .starting

def noListing (_ : String) : RustSources := ⟨false, false, []⟩

def succeedingSteps (builds : List Nat) : List BuildStep := builds.map fun i => ⟨i, true⟩

def sharedCrate : List BuildRequest :=
  [⟨.rust, "/native", some "sum.rs"⟩, ⟨.rust, "/native", some "product.rs"⟩]

def sharedOutput : List BuildRequest :=
  [⟨.zig, "/native", some "sum.zig"⟩, ⟨.zig, "/native", some "product.zig"⟩]

theorem undisturbed_of_phase {requests : List BuildRequest} {s : Workspace} {a : BuildStep}
    (h : s.phase a.build ≠ .compiling) : Undisturbed requests s a :=
  fun _ _ _ _ hphase => absurd hphase h

/-- A compiler that is given its entry file, while no other build waits for a read. -/
theorem undisturbed_alone {requests : List BuildRequest} {s : Workspace} {a : BuildStep}
    {r : BuildRequest} (hr : requests[a.build]? = some r) (hrust : r.language ≠ .rust)
    (halone : ∀ k q, k ≠ a.build → requests[k]? = some q → ¬ (s.phase k).Waiting) :
    Undisturbed requests s a := by
  intro r' path code hr' _ _ houtput
  cases Option.some.inj (hr.symm.trans hr')
  have hwritten : some (r.artifact, ⟨r.sourceDir, r.entryFile.getD (BuildRequest.defaultEntry r.language)⟩) =
      some (path, code) := by
    rw [← houtput, BuildRequest.output]
    split
    · rename_i hlanguage
      exact absurd hlanguage hrust
    · rfl
  cases hwritten
  refine ⟨fun _ entry hentry _ => ?_, fun hne => absurd rfl hne, fun k q hk hq hwaiting _ => ?_⟩
  · rw [hentry, Option.getD_some]
  · exact absurd hwaiting (halone k q hk hq)

theorem builds_embed_own_sequential :
    ∃ t, runAll (buildStep noListing sharedOutput) freshWorkspace (succeedingSteps [0, 0, 0, 1, 1, 1]) = some t ∧
      t.phase 1 = .embedded ⟨"/native", "product.zig"⟩ ∧ OwnEntries sharedOutput t := by
  have hmeets : Meets (buildStep noListing sharedOutput) (Undisturbed sharedOutput) freshWorkspace
      (succeedingSteps [0, 0, 0, 1, 1, 1]) := by
    refine Meets.cons (undisturbed_of_phase (by decide)) rfl (Meets.cons ?_ rfl
      (Meets.cons (undisturbed_of_phase (by decide)) rfl (Meets.cons (undisturbed_of_phase (by decide)) rfl
        (Meets.cons ?_ rfl (Meets.cons (undisturbed_of_phase (by decide)) rfl trivial)))))
    · refine undisturbed_alone rfl (by decide) fun k q hk hq hwaiting => ?_
      match k with
      | 0 => exact hk rfl
      | 1 => rcases hwaiting with hp | hp <;> cases hp
      | k + 2 => cases hq
    · refine undisturbed_alone rfl (by decide) fun k q hk hq hwaiting => ?_
      match k with
      | 0 => rcases hwaiting with hp | hp <;> cases hp
      | 1 => exact hk rfl
      | k + 2 => cases hq
  have hrun : ∃ t, runAll (buildStep noListing sharedOutput) freshWorkspace
      (succeedingSteps [0, 0, 0, 1, 1, 1]) = some t ∧ t.phase 1 = .embedded ⟨"/native", "product.zig"⟩ :=
    ⟨_, rfl, rfl⟩
  obtain ⟨t, hrun, hphase⟩ := hrun
  exact ⟨t, hrun, hphase, builds_embed_own noListing sharedOutput _ (fun _ => rfl) hmeets hrun⟩

/-- One after another, the second build compiles the manifest of the first; overlapping, the
first build reads what the second has written. -/
theorem builds_contaminate :
    (∃ t, runAll (buildStep noListing sharedCrate) freshWorkspace
        (succeedingSteps [0, 0, 0, 0, 0, 1, 1, 1, 1]) = some t ∧
      t.phase 1 = .embedded ⟨"/native", "sum.rs"⟩ ∧ ¬ OwnEntries sharedCrate t) ∧
    ∃ t, runAll (buildStep noListing sharedOutput) freshWorkspace
        (succeedingSteps [0, 1, 0, 1, 0, 1]) = some t ∧
      t.phase 0 = .embedded ⟨"/native", "product.zig"⟩ ∧ ¬ OwnEntries sharedOutput t := by
  refine ⟨⟨_, rfl, rfl, fun hown => ?_⟩, ⟨_, rfl, rfl, fun hown => ?_⟩⟩
  · have hcode := hown 1 _ _ rfl rfl "product.rs" rfl (by decide)
    revert hcode
    decide
  · have hcode := hown 0 _ _ rfl rfl "sum.zig" rfl (by decide)
    revert hcode
    decide

end CrossNative
