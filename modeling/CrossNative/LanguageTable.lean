import CrossNative.Basis.Ranking
import CrossNative.Languages
import Mathlib.Data.List.Pairwise

/-!
# Which language owns a file

`getLanguageForFile` sorts the language table by the longest extension of each language and takes
the first language with any extension that the path ends with. The order is one of languages, not
of the extensions that match, so the language of the longest matching extension is only found if it
also comes first by its own longest extension.
-/

namespace CrossNative

set_option autoImplicit false

/-- A JavaScript string: UTF-16 code units, which `length` and `endsWith` count and compare. -/
abbrev JsString := List UInt16

def JsString.ascii (text : String) : JsString := text.toList.map fun c => UInt16.ofNat c.toNat

structure LanguageDefinition where
  id : String
  extensions : List JsString
  extensions_ne : extensions ≠ []
  dotted : ∀ extension ∈ extensions, JsString.ascii "." <+: extension

def endsWith (text extension : JsString) : Bool := extension.isSuffixOf text

@[simp] theorem endsWith_iff {text extension : JsString} :
    endsWith text extension = true ↔ extension <:+ text := List.isSuffixOf_iff_suffix

def longestExtension (language : LanguageDefinition) : Nat :=
  (language.extensions.map List.length).max (by simp [language.extensions_ne])

def owns (lower : JsString) (language : LanguageDefinition) : Bool :=
  language.extensions.any fun extension => endsWith lower extension

theorem owns_iff {lower : JsString} {language : LanguageDefinition} :
    owns lower language = true ↔ ∃ extension ∈ language.extensions, extension <:+ lower := by
  simp [owns]

/-- `language` owns the longest extension of all languages that the text ends with. -/
def OwnsLongest (languages : List LanguageDefinition) (lower : JsString)
    (language : LanguageDefinition) : Prop :=
  language ∈ languages ∧ ∃ extension ∈ language.extensions, extension <:+ lower ∧
    ∀ other ∈ languages, ∀ shorter ∈ other.extensions, shorter <:+ lower →
      shorter.length ≤ extension.length

theorem OwnsLongest.owns {languages : List LanguageDefinition} {lower : JsString}
    {language : LanguageDefinition} (h : OwnsLongest languages lower language) :
    owns lower language = true := by
  obtain ⟨-, extension, hext, hsuffix, -⟩ := h
  exact owns_iff.mpr ⟨extension, hext, hsuffix⟩

theorem exists_ownsLongest {languages : List LanguageDefinition} {lower : JsString}
    {language : LanguageDefinition} (hmem : language ∈ languages)
    (howns : CrossNative.owns lower language = true) :
    ∃ owner, OwnsLongest languages lower owner := by
  let matching := (languages.flatMap LanguageDefinition.extensions).filter (endsWith lower)
  have hmatching : ∀ extension, extension ∈ matching ↔
      (∃ other ∈ languages, extension ∈ other.extensions) ∧ extension <:+ lower := by
    intro extension
    simp [matching]
  obtain ⟨extension, hext, hsuffix⟩ := owns_iff.mp howns
  have hne : matching.map List.length ≠ [] := by
    have hin := (hmatching extension).mpr ⟨⟨language, hmem, hext⟩, hsuffix⟩
    simpa using List.ne_nil_of_mem hin
  obtain ⟨longest, hlongest, hlength⟩ := List.mem_map.mp (List.max_mem hne)
  obtain ⟨⟨owner, howner, hin⟩, hends⟩ := (hmatching longest).mp hlongest
  refine ⟨owner, howner, longest, hin, hends, ?_⟩
  intro other hother shorter hshorter hshorterEnds
  rw [hlength]
  apply List.le_max_of_mem
  exact List.mem_map_of_mem ((hmatching shorter).mpr ⟨⟨other, hother, hshorter⟩, hshorterEnds⟩)

section Table

variable (toLowerCase : JsString → JsString)

def getLanguageForFile (languages : List LanguageDefinition) (path : JsString) :
    Option LanguageDefinition :=
  Basis.firstByRank longestExtension (owns (toLowerCase path)) languages

structure LanguageTable where
  languages : List LanguageDefinition
  lowercase : ∀ language ∈ languages, ∀ extension ∈ language.extensions,
    toLowerCase extension = extension
  disjoint : languages.Pairwise fun one other => one.extensions.Disjoint other.extensions

variable {toLowerCase} (table : LanguageTable toLowerCase) (path : JsString)

namespace LanguageTable

theorem eq_of_shared_extension {one other : LanguageDefinition} (hone : one ∈ table.languages)
    (hother : other ∈ table.languages) {extension : JsString}
    (h : extension ∈ one.extensions) (h' : extension ∈ other.extensions) : one = other := by
  by_contra hne
  have : Std.Symm fun one other : LanguageDefinition =>
      one.extensions.Disjoint other.extensions := ⟨fun _ _ hdisjoint _ hone hother => hdisjoint hother hone⟩
  exact table.disjoint.forall hone hother hne h h'

theorem ownsLongest_unique {lower : JsString} {one other : LanguageDefinition}
    (hone : OwnsLongest table.languages lower one)
    (hother : OwnsLongest table.languages lower other) : one = other := by
  obtain ⟨hmem, extension, hext, hsuffix, hlongest⟩ := hone
  obtain ⟨hmem', extension', hext', hsuffix', hlongest'⟩ := hother
  have hle := hlongest other hmem' extension' hext' hsuffix'
  have hge := hlongest' one hmem extension hext hsuffix
  have hends := List.suffix_of_suffix_length_le hsuffix' hsuffix hle
  have heq : extension' = extension := hends.eq_of_length (Nat.le_antisymm hle hge)
  rw [heq] at hext'
  exact table.eq_of_shared_extension hmem hmem' hext hext'

/-- The answer is the owner of the longest matching extension, in every order of the table. -/
structure LongestWins : Prop where
  owner : ∀ language, getLanguageForFile toLowerCase table.languages path = some language ↔
    OwnsLongest table.languages (toLowerCase path) language
  undefined : getLanguageForFile toLowerCase table.languages path = none ↔
    ∀ language ∈ table.languages, ∀ extension ∈ language.extensions,
      ¬ extension <:+ toLowerCase path
  order : ∀ languages : List LanguageDefinition, languages.Perm table.languages →
    getLanguageForFile toLowerCase languages path =
      getLanguageForFile toLowerCase table.languages path

/-- Every other language that claims the path has a shorter longest extension than the owner. -/
def OwnerRanksFirst : Prop :=
  ∀ owner, OwnsLongest table.languages (toLowerCase path) owner →
    ∀ other ∈ table.languages, owns (toLowerCase path) other = true → other ≠ owner →
      longestExtension other < longestExtension owner

end LanguageTable

theorem getLanguageForFile_eq_none_iff (languages : List LanguageDefinition) :
    getLanguageForFile toLowerCase languages path = none ↔
      ∀ language ∈ languages, ∀ extension ∈ language.extensions,
        ¬ extension <:+ toLowerCase path := by
  rw [getLanguageForFile, Basis.firstByRank_eq_none_iff]
  simp [owns]

/-- In every order of the table the owner is found, exactly if it ranks first. -/
theorem getLanguageForFile_perm_iff {owner : LanguageDefinition}
    (howner : OwnsLongest table.languages (toLowerCase path) owner) :
    (∀ languages : List LanguageDefinition, languages.Perm table.languages →
      getLanguageForFile toLowerCase languages path = some owner) ↔ table.OwnerRanksFirst path := by
  have hperm := Basis.forall_perm_firstByRank_iff longestExtension (owns (toLowerCase path))
    howner.1 howner.owns
  constructor
  · intro h owner' howner'
    rw [table.ownsLongest_unique howner' howner]
    exact hperm.mp h
  · intro h
    exact hperm.mpr (h owner howner)

theorem longestWins_of_eq_some {owner : LanguageDefinition}
    (howner : OwnsLongest table.languages (toLowerCase path) owner)
    (h : ∀ languages : List LanguageDefinition, languages.Perm table.languages →
      getLanguageForFile toLowerCase languages path = some owner) : table.LongestWins path where
  owner := by
    intro language
    rw [h table.languages (List.Perm.refl _), Option.some.injEq]
    constructor
    · intro heq
      rw [← heq]
      exact howner
    · exact table.ownsLongest_unique howner
  undefined := getLanguageForFile_eq_none_iff path table.languages
  order := by
    intro languages hperm
    rw [h languages hperm, h table.languages (List.Perm.refl _)]

theorem longestWins_of_eq_none
    (h : getLanguageForFile toLowerCase table.languages path = none) : table.LongestWins path where
  owner := by
    intro language
    have hnone := (getLanguageForFile_eq_none_iff path table.languages).mp h
    constructor
    · intro hsome
      simp [h] at hsome
    · intro howner
      obtain ⟨hmem, extension, hext, hsuffix, -⟩ := howner
      exact absurd hsuffix (hnone language hmem extension hext)
  undefined := getLanguageForFile_eq_none_iff path table.languages
  order := by
    intro languages hperm
    rw [h, getLanguageForFile_eq_none_iff]
    intro language hmem
    exact (getLanguageForFile_eq_none_iff path table.languages).mp h language
      (hperm.mem_iff.mp hmem)

theorem longest_wins_iff_owner_ranks_first :
    table.LongestWins path ↔ table.OwnerRanksFirst path := by
  constructor
  · intro h owner howner
    have hfound := (h.owner owner).mpr howner
    have hevery := (getLanguageForFile_perm_iff table path howner).mp (by
      intro languages hperm
      rw [h.order languages hperm, hfound])
    exact hevery owner howner
  · intro h
    cases hfound : getLanguageForFile toLowerCase table.languages path with
    | none => exact longestWins_of_eq_none table path hfound
    | some language =>
      -- Whichever language was found claims the path, so the longest extension has an owner.
      obtain ⟨owner, howner⟩ := exists_ownsLongest
        (Basis.mem_of_firstByRank _ _ hfound) (Basis.holds_of_firstByRank _ _ hfound)
      exact longestWins_of_eq_some table path howner
        ((getLanguageForFile_perm_iff table path howner).mpr h)

/-- Longest extensions are found in a table where no extension ends with another language's. -/
theorem ownerRanksFirst_of_no_shared_ending
    (h : ∀ one ∈ table.languages, ∀ other ∈ table.languages, one ≠ other →
      ∀ extension ∈ one.extensions, ∀ longer ∈ other.extensions, ¬ extension <:+ longer) :
    table.OwnerRanksFirst path := by
  intro owner howner other hother howns hne
  obtain ⟨hmem, longest, hlongest, hends, hmax⟩ := howner
  obtain ⟨extension, hext, hsuffix⟩ := owns_iff.mp howns
  have hshared := List.suffix_of_suffix_length_le hsuffix hends
    (hmax other hother extension hext hsuffix)
  exact absurd hshared (h other hother owner hmem hne extension hext longest hlongest)

end Table

def LanguageId.extensions : LanguageId → List JsString
  | .rust => [.ascii ".rs"]
  | .go => [.ascii ".go"]
  | .zig => [.ascii ".zig"]
  | .assemblyscript => [.ascii ".as.ts"]
  | .c => [.ascii ".c"]
  | .cpp => [.ascii ".cc", .ascii ".cpp", .ascii ".cxx"]

def LanguageId.definition (language : LanguageId) : LanguageDefinition where
  id := language.id
  extensions := language.extensions
  extensions_ne := by cases language <;> simp [LanguageId.extensions]
  dotted := by cases language <;> decide

theorem LanguageId.no_shared_ending : ∀ one ∈ languages, ∀ other ∈ languages, one ≠ other →
    ∀ extension ∈ one.extensions, ∀ longer ∈ other.extensions, ¬ extension <:+ longer := by
  decide

section OwnTable

variable (toLowerCase : JsString → JsString)
  (lowercase : ∀ language ∈ languages, ∀ extension ∈ language.extensions,
    toLowerCase extension = extension)

def languageTable : LanguageTable toLowerCase where
  languages := languages.map LanguageId.definition
  lowercase := by
    intro language hmem
    obtain ⟨l, hl, rfl⟩ := List.mem_map.mp hmem
    exact lowercase l hl
  disjoint := by
    rw [List.pairwise_map]
    have hnodup : languages.Nodup := by decide
    apply List.Pairwise.imp_of_mem _ hnodup
    intro one other hone hother hne extension hext hext'
    exact LanguageId.no_shared_ending one hone other hother hne extension hext extension hext'
      (List.suffix_refl extension)

/-- The table that ships is one in which the longest extension wins on every path. -/
theorem languageTable_ownerRanksFirst (path : JsString) :
    (languageTable toLowerCase lowercase).OwnerRanksFirst path := by
  apply ownerRanksFirst_of_no_shared_ending
  intro one hone other hother hne
  obtain ⟨l, hl, rfl⟩ := List.mem_map.mp hone
  obtain ⟨m, hm, rfl⟩ := List.mem_map.mp hother
  apply LanguageId.no_shared_ending l hl m hm
  intro heq
  exact hne (congrArg LanguageId.definition heq)

end OwnTable

/-! ## An extension inside another one -/

/-- `toLowerCase` as far as it changes ASCII characters. -/
def asciiLowerCase (text : JsString) : JsString :=
  text.map fun unit => if 65 ≤ unit ∧ unit ≤ 90 then unit + 32 else unit

def shortAndLonger : LanguageDefinition where
  id := "first"
  extensions := [.ascii ".b", .ascii ".longer"]
  extensions_ne := by decide
  dotted := by decide

def twoPart : LanguageDefinition where
  id := "second"
  extensions := [.ascii ".a.b"]
  extensions_ne := by decide
  dotted := by decide

def overlappingTable : LanguageTable asciiLowerCase where
  languages := [shortAndLonger, twoPart]
  lowercase := by
    simp only [List.forall_mem_cons]
    decide
  disjoint := by
    simp [shortAndLonger, twoPart]
    decide

/-- `x.a.b` goes to the language of `.b`, because that one also owns `.longer`. -/
theorem longest_extension_loses :
    getLanguageForFile asciiLowerCase overlappingTable.languages (.ascii "x.a.b") =
        some shortAndLonger ∧
      OwnsLongest overlappingTable.languages (asciiLowerCase (.ascii "x.a.b")) twoPart ∧
      ¬ overlappingTable.LongestWins (.ascii "x.a.b") := by
  have hfound : getLanguageForFile asciiLowerCase overlappingTable.languages (.ascii "x.a.b") =
      some shortAndLonger := by
    apply Basis.firstByRank_eq_some
    · exact List.mem_cons_self
    · decide
    · intro other hother _ hne
      have htwo : other = twoPart := by
        simpa [overlappingTable, hne] using hother
      rw [htwo]
      decide
  have howner : OwnsLongest overlappingTable.languages (asciiLowerCase (.ascii "x.a.b")) twoPart := by
    refine ⟨by simp [overlappingTable], .ascii ".a.b", List.mem_cons_self, by decide, ?_⟩
    simp only [overlappingTable, List.forall_mem_cons]
    decide
  refine ⟨hfound, howner, ?_⟩
  intro h
  have hid := congrArg (Option.map LanguageDefinition.id)
    (hfound.symm.trans ((h.owner twoPart).mpr howner))
  exact absurd hid (by decide)

end CrossNative
