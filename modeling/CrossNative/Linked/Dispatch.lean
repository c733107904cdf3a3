import CrossNative.Linked.Signatures
import CrossNative.Runtime

/-!
# The generated dispatcher

`generateDispatch` writes a Zig file with one branch for every signature. The file is compiled
without safety checks: to read a union by a variant that is not active, to index past the end of
an array, or to convert a float to an integer type that has no such value is not checked there,
and means nothing. Memory is taken to be available.
-/

namespace CrossNative.Linked

set_option autoImplicit false

open Basis

/-! ## What is generated -/

inductive Width
  | bits (n : Nat)
  | word

/-- The expression `readArg` writes for an argument. -/
inductive ArgReader
  | bool
  | f64
  | f32
  | int (signed : Bool) (width : Width)

/-- The integer types of `NUMERIC`. -/
def integerTypes : List (Text × Bool × Width) :=
  [("i8".toList, true, .bits 8), ("i16".toList, true, .bits 16), ("i32".toList, true, .bits 32),
    ("i64".toList, true, .bits 64), ("u8".toList, false, .bits 8), ("u16".toList, false, .bits 16),
    ("u32".toList, false, .bits 32), ("u64".toList, false, .bits 64), ("usize".toList, false, .word),
    ("isize".toList, true, .word)]

def readArg (type : Text) : Except Text ArgReader :=
  if type = "bool".toList then .ok .bool
  else if type = "f64".toList then .ok .f64
  else if type = "f32".toList then .ok .f32
  else
    match integerTypes.lookup type with
    | some (signed, width) => .ok (.int signed width)
    | none =>
      .error ("linked build supports only numeric/bool parameters; got '".toList ++ type ++
        "'. Arrays and strings are not supported on the iOS linked path yet.".toList)

inductive ReturnType
  | void
  | bool
  | f64
  | f32
  | int

def returnType (type : Text) : Except Text ReturnType :=
  if type = "void".toList then .ok .void
  else if type = "bool".toList then .ok .bool
  else if type = "f64".toList then .ok .f64
  else if type = "f32".toList then .ok .f32
  else
    match integerTypes.lookup type with
    | some _ => .ok .int
    | none => .error ("linked build supports only numeric/bool/void returns; got '".toList ++ type ++ "'".toList)

/-- `if (std.mem.eql(u8, func, "...")) ...`. -/
structure Branch where
  /-- What stands between the quotes. -/
  name : Text
  symbol : Text
  readers : List ArgReader
  returns : ReturnType

def readArgs : List Param → Except Text (List ArgReader)
  | [] => .ok []
  | param :: params => do
    let reader ← readArg param.type
    let readers ← readArgs params
    pure (reader :: readers)

def encodeResult (sig : FnSig) : Except Text Branch := do
  let readers ← readArgs sig.params
  let returns ← returnType sig.returns
  pure ⟨sig.name, sig.symbol, readers, returns⟩

/-- The branches of the file; none if an argument or a result cannot be handled. -/
def generateDispatch : List FnSig → Except Text (List Branch)
  | [] => .ok []
  | sig :: sigs => do
    let branch ← encodeResult sig
    let branches ← generateDispatch sigs
    pure (branch :: branches)

/-! ## Values of the generated program -/

/-- `std.json.Value`. -/
inductive ZigValue
  | null
  | bool (b : Bool)
  | integer (i : Int)
  | float (x : BitVec 64)
  /-- An integer that is no `i64`, kept as its digits. -/
  | numberString (n : Int)
  | string (s : String)
  | array (items : List ZigValue)
  | object (fields : List (String × ZigValue))

mutual

/-- `std.json.parseFromSlice` of the text of a document. -/
def zigParse : Json → ZigValue
  | .null => .null
  | .bool b => .bool b
  | .int n => if -2 ^ 63 ≤ n ∧ n < 2 ^ 63 then .integer n else .numberString n
  | .float x => .float x
  | .str s => .string s
  | .arr items => .array (zigParseItems items)
  | .obj fields => .object (zigParseFields fields)

def zigParseItems : List Json → List ZigValue
  | [] => []
  | j :: items => zigParse j :: zigParseItems items

def zigParseFields : List (String × Json) → List (String × ZigValue)
  | [] => []
  | (key, j) :: fields => (key, zigParse j) :: zigParseFields fields

end

/-- `argF64`. -/
def argF64 : ZigValue → BitVec 64
  | .float x => x
  | .integer i => BitVec.ofNat 64 (FloatFormat.binary64.ofInt i)
  | .numberString n => BitVec.ofNat 64 (FloatFormat.binary64.ofInt n)
  | _ => 0

inductive ZigArg
  | bool (b : Bool)
  | f64 (x : BitVec 64)
  | f32 (x : BitVec 32)
  | int (n : Int)
  deriving DecidableEq

def HoldsInt (signed : Bool) (bits : Nat) (n : Int) : Prop :=
  if signed then -2 ^ (bits - 1) ≤ n ∧ n < 2 ^ (bits - 1) else 0 ≤ n ∧ n < 2 ^ bits

instance (signed : Bool) (bits : Nat) (n : Int) : Decidable (HoldsInt signed bits n) := by
  unfold HoldsInt
  infer_instance

/-- `@intFromFloat`; none where the type has no such value. -/
def intFromFloat (signed : Bool) (bits : Nat) (x : BitVec 64) : Option Int :=
  (FloatFormat.binary64.truncate x.toNat).filter fun n => decide (HoldsInt signed bits n)

section Running

variable (wordBits : Nat)

def Width.toBits : Width → Nat
  | .bits n => n
  | .word => wordBits

def ArgReader.read (v : ZigValue) : ArgReader → Option ZigArg
  | .bool => some (.bool (FloatFormat.binary64.magnitude (argF64 v).toNat ≠ 0))
  | .f64 => some (.f64 (argF64 v))
  | .f32 => some (.f32 (BitVec.ofNat 32 (convertFloat .binary64 .binary32 (argF64 v).toNat)))
  | .int signed width => (intFromFloat signed (width.toBits wordBits) (argF64 v)).map .int

def ReturnType.Value : ReturnType → Type
  | .void => Unit
  | .bool => Bool
  | .f64 => BitVec 64
  | .f32 => BitVec 32
  | .int => Int

/-- The compiled functions, by their symbols. -/
abbrev Library : Type := Text → List ZigArg → (returns : ReturnType) → returns.Value

inductive Response
  | success (returns : ReturnType) (result : returns.Value)
  | failure (error : String)

/-- NaN and the infinities are printed as words that JSON does not know. -/
def Response.isEnvelope : Response → Bool
  | .success .f64 x => FloatFormat.binary64.IsFinite (x : BitVec 64).toNat
  | .success .f32 x => FloatFormat.binary32.IsFinite (x : BitVec 32).toNat
  | _ => true

def Response.isFailure : Response → Bool
  | .failure _ => true
  | _ => false

/-- A call of one of the functions. -/
structure LinkedCall where
  symbol : Text
  args : List ZigArg
  deriving DecidableEq

inductive Illegal
  | inactiveVariant
  | outOfBounds
  | unrepresentable

abbrev Answer : Type := Except Illegal (List LinkedCall × Response)

/-- The arguments from the one with this index on. -/
def decodeItems (items : List ZigValue) : List ArgReader → Nat → Except Illegal (List ZigArg)
  | [], _ => .ok []
  | reader :: readers, index =>
    match items[index]? with
    | none => .error .outOfBounds
    | some v =>
      match reader.read wordBits v with
      | none => .error .unrepresentable
      | some arg => (decodeItems items readers (index + 1)).map (arg :: ·)

def Branch.run (library : Library) (branch : Branch) (items : List ZigValue) : Answer :=
  match decodeItems wordBits items branch.readers 0 with
  | .error e => .error e
  | .ok args => .ok ([⟨branch.symbol, args⟩], .success branch.returns (library branch.symbol args branch.returns))

def runBranches (library : Library) (items : List ZigValue) (func : Text) : List Branch → Answer
  | [] => .ok ([], .failure "function not found")
  | branch :: branches =>
    if zigLiteral .plain branch.name = some func then branch.run wordBits library items
    else runBranches library items func branches

/-- `crossnative_call` of the generated file, on a request that is JSON. -/
def crossnativeCall (library : Library) (branches : List Branch) : ZigValue → Answer
  | .object fields =>
    match fields.lookup "function" with
    | none => .ok ([], .failure "no function")
    | some (.string func) =>
      match fields.lookup "args" with
      | none => .ok ([], .failure "no args")
      | some (.array items) => runBranches wordBits library items func.toList branches
      | some _ => .error .inactiveVariant
    | some _ => .error .inactiveVariant
  | _ => .error .inactiveVariant

end Running

/-- The request `SharedLibraryModule::call` makes of a call. -/
def linkedRequest (functionName : String) (args : Json) (zeroCopy : Bool) : Json :=
  .obj [("args", args), ("function", .str functionName), ("zeroCopy", .bool zeroCopy)]

/-! ## What a request comes to -/

section Requests

variable (wordBits : Nat)

/-- Argument `i` decoded for parameter `i`. -/
def decodeArgs : List Param → List ZigValue → Option (List ZigArg)
  | [], [] => some []
  | param :: params, v :: items =>
    match readArg param.type with
    | .error _ => none
    | .ok reader =>
      match reader.read wordBits v, decodeArgs params items with
      | some arg, some args => some (arg :: args)
      | _, _ => none
  | _, _ => none

/-- The call a request asks for, if every argument is a value of its parameter's type. -/
def callOf (sig : FnSig) (items : List ZigValue) : Option LinkedCall :=
  (decodeArgs wordBits sig.params items).map (⟨sig.symbol, ·⟩)

/-- The arguments as the generated program sees them. -/
def received (items : List Json) : List ZigValue := items.map fun j => zigParse j.dump

/-- There is a signature of this name and arity. -/
def Declared (sigs : List FnSig) (func : String) (args : Json) : Prop :=
  ∃ sig ∈ sigs, ∃ items, sig.name = func.toList ∧ args = .arr items ∧ items.length = sig.params.length

/-- The answer is an envelope, of the declared function if there is one. -/
def Total (sigs : List FnSig) (func : String) (args : Json) (answer : Answer) : Prop :=
  ∃ calls response, answer = .ok (calls, response) ∧ response.isEnvelope = true ∧
    (∀ sig ∈ sigs, ∀ items, sig.name = func.toList → args = .arr items → items.length = sig.params.length →
      response.isFailure = false ∧ ∃ call, callOf wordBits sig (received items) = some call ∧ calls = [call]) ∧
    (¬ Declared sigs func args → response.isFailure = true ∧ calls = [])

/-- The arguments are an array that fits the first function the name is read as; any other
function of the name and arity comes to the same call, and what is returned can be printed. -/
def Dispatchable (library : Library) (sigs : List FnSig) (func : String) (args : Json) : Prop :=
  ∃ items, args = .arr items ∧
    match sigs.find? (fun sig => zigLiteral .plain sig.name = some func.toList) with
    | none => ¬ Declared sigs func args
    | some sig => ∃ call, callOf wordBits sig (received items) = some call ∧ Declared sigs func args ∧
        (∀ returns, returnType sig.returns = .ok returns →
          (Response.success returns (library call.symbol call.args returns)).isEnvelope = true) ∧
        ∀ other ∈ sigs, other.name = func.toList → other.params.length = items.length →
          callOf wordBits other (received items) = some call

end Requests

section Total

variable {wordBits : Nat} {library : Library} {sigs : List FnSig} {branches : List Branch} {func : String}

theorem readArgs_cons {param : Param} {params : List Param} {readers : List ArgReader}
    (h : readArgs (param :: params) = .ok readers) :
    ∃ reader rest, readArg param.type = .ok reader ∧ readArgs params = .ok rest ∧ readers = reader :: rest := by
  rw [readArgs] at h
  cases hreader : readArg param.type with
  | error e =>
    rw [hreader] at h
    cases h
  | ok reader =>
    cases hrest : readArgs params with
    | error e =>
      rw [hreader, hrest] at h
      cases h
    | ok rest =>
      rw [hreader, hrest] at h
      cases h
      exact ⟨reader, rest, rfl, rfl, rfl⟩

/-- The arguments of a branch are read one after the other; what follows them is ignored. -/
theorem decodeItems_eq {params : List Param} {readers : List ArgReader} (h : readArgs params = .ok readers)
    (before items : List ZigValue) {args : List ZigArg} :
    decodeItems wordBits (before ++ items) readers before.length = .ok args ↔
      decodeArgs wordBits params (items.take params.length) = some args := by
  induction params generalizing readers before items args with
  | nil =>
    cases h
    simp [decodeItems, decodeArgs]
  | cons param params ih =>
    obtain ⟨reader, rest, hreader, hrest, rfl⟩ := readArgs_cons h
    cases items with
    | nil =>
      rw [decodeItems, List.append_nil, List.getElem?_eq_none (Nat.le_refl _)]
      simp [decodeArgs]
    | cons v items =>
      have hget : (before ++ v :: items)[before.length]? = some v := by
        rw [List.getElem?_append_right (Nat.le_refl _), Nat.sub_self]
        rfl
      have htail (args : List ZigArg) := @ih _ hrest (before ++ [v]) items args
      rw [List.append_assoc, List.length_append] at htail
      rw [decodeItems, hget, List.length_cons, List.take_succ_cons, decodeArgs, hreader]
      simp only
      cases hread : reader.read wordBits v with
      | none => simp
      | some arg =>
        simp only
        cases hdecoded : decodeArgs wordBits params (items.take params.length) with
        | none =>
          cases hitems : decodeItems wordBits (before ++ v :: items) rest (before.length + 1) with
          | error e => simp [Except.map]
          | ok args' =>
            have hcontra := (htail args').mp hitems
            rw [hdecoded] at hcontra
            cases hcontra
        | some args' =>
          have hitems : decodeItems wordBits (before ++ v :: items) rest (before.length + 1) = .ok args' :=
            (htail args').mpr hdecoded
          simp [hitems, Except.map]

theorem decodeArgs_length {params : List Param} {items : List ZigValue} {args : List ZigArg}
    (h : decodeArgs wordBits params items = some args) :
    params.length = items.length ∧ args.length = items.length := by
  induction params generalizing items args with
  | nil =>
    cases items with
    | nil =>
      cases h
      exact ⟨rfl, rfl⟩
    | cons v items => cases h
  | cons param params ih =>
    cases items with
    | nil => cases h
    | cons v items =>
      rw [decodeArgs] at h
      split at h
      · cases h
      · split at h
        · rename_i arg args' _ hrest
          cases h
          obtain ⟨hparams, hargs⟩ := ih hrest
          exact ⟨congrArg Nat.succ hparams, congrArg Nat.succ hargs⟩
        · cases h

theorem encodeResult_ok {sig : FnSig} {branch : Branch} (h : encodeResult sig = .ok branch) :
    branch.name = sig.name ∧ branch.symbol = sig.symbol ∧ readArgs sig.params = .ok branch.readers ∧
      returnType sig.returns = .ok branch.returns := by
  rw [encodeResult] at h
  cases hreaders : readArgs sig.params with
  | error e =>
    rw [hreaders] at h
    cases h
  | ok readers =>
    cases hreturns : returnType sig.returns with
    | error e =>
      rw [hreaders, hreturns] at h
      cases h
    | ok returns =>
      rw [hreaders, hreturns] at h
      cases h
      exact ⟨rfl, rfl, rfl, rfl⟩

theorem generateDispatch_cons {sig : FnSig} (h : generateDispatch (sig :: sigs) = .ok branches) :
    ∃ branch rest, encodeResult sig = .ok branch ∧ generateDispatch sigs = .ok rest ∧ branches = branch :: rest := by
  rw [generateDispatch] at h
  cases hbranch : encodeResult sig with
  | error e =>
    rw [hbranch] at h
    cases h
  | ok branch =>
    cases hrest : generateDispatch sigs with
    | error e =>
      rw [hbranch, hrest] at h
      cases h
    | ok rest =>
      rw [hbranch, hrest] at h
      cases h
      exact ⟨branch, rest, rfl, rfl, rfl⟩

/-- The branch that runs is that of the first signature of the name. -/
theorem runBranches_eq (h : generateDispatch sigs = .ok branches) (items : List ZigValue) (func : Text) :
    match sigs.find? (fun sig => zigLiteral .plain sig.name = some func) with
    | none => runBranches wordBits library items func branches = .ok ([], .failure "function not found")
    | some sig => ∃ branch, encodeResult sig = .ok branch ∧
        runBranches wordBits library items func branches = branch.run wordBits library items := by
  induction sigs generalizing branches with
  | nil =>
    cases h
    rfl
  | cons sig sigs ih =>
    obtain ⟨branch, rest, hbranch, hrest, rfl⟩ := generateDispatch_cons h
    obtain ⟨hname, _⟩ := encodeResult_ok hbranch
    have htail := ih hrest
    rw [List.find?_cons, runBranches, hname]
    by_cases heq : zigLiteral .plain sig.name = some func
    · simp only [heq, decide_true, if_true]
      exact ⟨branch, hbranch, rfl⟩
    · simp only [heq, decide_false, if_false]
      exact htail

theorem zigParseItems_eq_map (items : List Json) : zigParseItems items = items.map zigParse := by
  induction items with
  | nil => rfl
  | cons j items ih => rw [zigParseItems, ih, List.map_cons]

/-- The host sends an object with both members; only an array is read as one. -/
theorem crossnativeCall_request (args : Json) (zeroCopy : Bool) :
    crossnativeCall wordBits library branches (zigParse (linkedRequest func args zeroCopy).dump) =
      match args with
      | .arr items => runBranches wordBits library (received items) func.toList branches
      | _ => .error .inactiveVariant := by
  have hrequest : zigParse (linkedRequest func args zeroCopy).dump =
      .object [("args", zigParse args.dump), ("function", .string func), ("zeroCopy", .bool zeroCopy)] := by
    simp [linkedRequest, Json.dump, Json.dumpFields, zigParse, zigParseFields]
  have hfunction : ([("args", zigParse args.dump), ("function", .string func), ("zeroCopy", .bool zeroCopy)] :
      List (String × ZigValue)).lookup "function" = some (.string func) := rfl
  have hargs : ([("args", zigParse args.dump), ("function", .string func), ("zeroCopy", .bool zeroCopy)] :
      List (String × ZigValue)).lookup "args" = some (zigParse args.dump) := rfl
  rw [hrequest, crossnativeCall, hfunction]
  simp only [hargs]
  cases args with
  | arr items =>
    have hitems : zigParse (Json.arr items).dump = .array (received items) := by
      rw [Json.dump, zigParse, Json.dumpItems_eq_map, zigParseItems_eq_map, List.map_map]
      rfl
    rw [hitems]
  | int n =>
    rw [Json.dump_int, zigParse]
    split <;> rename_i heq <;> split at heq <;> cases heq <;> rfl
  | float x =>
    simp only [Json.dump]
    split <;> rename_i heq <;> split at heq <;> cases heq <;> rfl
  | null => rfl
  | bool b => rfl
  | str s => rfl
  | obj fields => rfl

theorem branch_run_ok {sig : FnSig} {branch : Branch} (h : encodeResult sig = .ok branch) {items : List ZigValue}
    {calls : List LinkedCall} {response : Response} :
    branch.run wordBits library items = .ok (calls, response) ↔
      ∃ args, decodeArgs wordBits sig.params (items.take sig.params.length) = some args ∧
        calls = [⟨sig.symbol, args⟩] ∧ response = .success branch.returns (library sig.symbol args branch.returns) := by
  obtain ⟨_, hsymbol, hreaders, _⟩ := encodeResult_ok h
  have hdecode (args : List ZigArg) := @decodeItems_eq wordBits _ _ hreaders [] items args
  rw [List.nil_append, List.length_nil] at hdecode
  rw [Branch.run, hsymbol]
  constructor
  · intro hrun
    cases hitems : decodeItems wordBits items branch.readers 0 with
    | error e =>
      rw [hitems] at hrun
      cases hrun
    | ok args =>
      rw [hitems] at hrun
      cases hrun
      exact ⟨args, (hdecode args).mp hitems, rfl, rfl⟩
  · rintro ⟨args, hargs, rfl, rfl⟩
    rw [(hdecode args).mpr hargs]

theorem callOf_eq_some {sig : FnSig} {items : List ZigValue} {call : LinkedCall} :
    callOf wordBits sig items = some call ↔
      ∃ args, decodeArgs wordBits sig.params items = some args ∧ ⟨sig.symbol, args⟩ = call :=
  Option.map_eq_some_iff

theorem total_dispatchable (hgen : generateDispatch sigs = .ok branches) {args : Json} {zeroCopy : Bool}
    (h : Total wordBits sigs func args
      (crossnativeCall wordBits library branches (zigParse (linkedRequest func args zeroCopy).dump))) :
    Dispatchable wordBits library sigs func args := by
  obtain ⟨calls, response, hanswer, henvelope, hdeclared, hundeclared⟩ := h
  rw [crossnativeCall_request] at hanswer
  cases args with
  | arr items =>
    refine ⟨items, rfl, ?_⟩
    have hrun := @runBranches_eq wordBits library _ _ hgen (received items) func.toList
    cases hfind : sigs.find? (fun sig => zigLiteral .plain sig.name = some func.toList) with
    | none =>
      rw [hfind] at hrun
      rintro ⟨sig, hmem, items', hname, heq, hlength⟩
      have hsuccess := (hdeclared sig hmem items' hname heq hlength).1
      simp only [hrun] at hanswer
      cases hanswer
      cases hsuccess
    | some sig =>
      rw [hfind] at hrun
      obtain ⟨branch, hbranch, hrun⟩ := hrun
      simp only [hrun] at hanswer
      obtain ⟨args, hargs, hcalls, hresponse⟩ := (branch_run_ok hbranch).mp hanswer
      -- A call was made, so some signature has this arity, and its call is the one made.
      have hsome : Declared sigs func (.arr items) := by
        by_contra hnone
        have hempty := (hundeclared hnone).2
        rw [hcalls] at hempty
        cases hempty
      have hcall (other : FnSig) (hmem : other ∈ sigs) (hname : other.name = func.toList)
          (harity : other.params.length = items.length) :
          callOf wordBits other (received items) = some ⟨sig.symbol, args⟩ := by
        obtain ⟨_, call, hcallOf, hsingle⟩ := hdeclared other hmem items hname rfl harity.symm
        rw [hcalls] at hsingle
        rw [hcallOf, List.singleton_inj.mp hsingle]
      have hreceived : (received items).length = items.length := List.length_map ..
      have harity : (received items).length ≤ sig.params.length := by
        obtain ⟨other, hmem, items', hname, heq, hlength⟩ := hsome
        cases heq
        obtain ⟨args', hargs', hsame⟩ := callOf_eq_some.mp (hcall other hmem hname hlength.symm)
        have hsame : args' = args := congrArg LinkedCall.args hsame
        subst hsame
        have hcount := (decodeArgs_length hargs').2
        obtain ⟨hparams, htaken⟩ := decodeArgs_length hargs
        omega
      rw [List.take_of_length_le harity] at hargs
      refine ⟨⟨sig.symbol, args⟩, callOf_eq_some.mpr ⟨args, hargs, rfl⟩, hsome, fun returns hreturns => ?_, hcall⟩
      obtain ⟨_, _, _, hbranchReturns⟩ := encodeResult_ok hbranch
      cases hreturns.symm.trans hbranchReturns
      rw [hresponse] at henvelope
      exact henvelope
  | _ => cases hanswer

theorem dispatchable_total (hgen : generateDispatch sigs = .ok branches) {args : Json} (zeroCopy : Bool)
    (h : Dispatchable wordBits library sigs func args) :
    Total wordBits sigs func args
      (crossnativeCall wordBits library branches (zigParse (linkedRequest func args zeroCopy).dump)) := by
  obtain ⟨items, rfl, hfirst⟩ := h
  rw [crossnativeCall_request]
  have hrun := @runBranches_eq wordBits library _ _ hgen (received items) func.toList
  cases hfind : sigs.find? (fun sig => zigLiteral .plain sig.name = some func.toList) with
  | none =>
    rw [hfind] at hrun hfirst
    refine ⟨[], .failure "function not found", hrun, rfl, fun sig hmem items' hname heq hlength => ?_, fun _ => ⟨rfl, rfl⟩⟩
    exact absurd ⟨sig, hmem, items', hname, heq, hlength⟩ hfirst
  | some sig =>
    rw [hfind] at hrun hfirst
    obtain ⟨branch, hbranch, hrun⟩ := hrun
    obtain ⟨call, hcall, hdeclared, hfinite, hothers⟩ := hfirst
    obtain ⟨args, hargs, rfl⟩ := callOf_eq_some.mp hcall
    obtain ⟨_, _, _, hreturns⟩ := encodeResult_ok hbranch
    have harity := (decodeArgs_length hargs).1
    have htake : (received items).take sig.params.length = received items :=
      List.take_of_length_le (by omega)
    have hanswer := (@branch_run_ok wordBits library _ _ hbranch (received items) _ _).mpr
      ⟨args, by rw [htake]; exact hargs, rfl, rfl⟩
    refine ⟨_, _, hrun.trans hanswer, hfinite _ hreturns, fun other hmem items' hname heq hlength => ?_, fun hnone => ?_⟩
    · cases heq
      exact ⟨rfl, _, hothers other hmem hname hlength.symm, rfl⟩
    · exact absurd hdeclared hnone

/-- The generated program answers a request of the host with the envelope it should, exactly when
the arguments are an array that fits the function of the name. -/
theorem crossnativeCall_total (hgen : generateDispatch sigs = .ok branches) (wordBits : Nat) (library : Library)
    (func : String) (args : Json) (zeroCopy : Bool) :
    Total wordBits sigs func args
        (crossnativeCall wordBits library branches (zigParse (linkedRequest func args zeroCopy).dump)) ↔
      Dispatchable wordBits library sigs func args :=
  ⟨total_dispatchable hgen, dispatchable_total hgen zeroCopy⟩

end Total

/-- `export fn add(a: i32, b: i32) i32`. -/
def addSignature : FnSig where
  name := "add".toList
  params := [⟨['a'], "i32".toList⟩, ⟨['b'], "i32".toList⟩]
  returns := "i32".toList
  cName := none

def addBranch : Branch where
  name := "add".toList
  symbol := "add".toList
  readers := [.int true (.bits 32), .int true (.bits 32)]
  returns := .int

def zeroes : Library := fun _ _ returns =>
  match returns with
  | .void => ()
  | .bool => false
  | .f64 => (0 : BitVec 64)
  | .f32 => (0 : BitVec 32)
  | .int => (0 : Int)

theorem crossnativeCall_total_add :
    Total 64 [addSignature] "add" (.arr [.int 1, .int 2])
        (crossnativeCall 64 zeroes [addBranch] (zigParse (linkedRequest "add" (.arr [.int 1, .int 2]) false).dump)) ↔
      Dispatchable 64 zeroes [addSignature] "add" (.arr [.int 1, .int 2]) :=
  crossnativeCall_total rfl 64 zeroes "add" (.arr [.int 1, .int 2]) false

/-- With too few arguments the program reads past the end of the array. -/
theorem crossnativeCall_not_total :
    ¬ ∀ (sigs : List FnSig) (branches : List Branch) (func : String) (args : Json) (zeroCopy : Bool),
      generateDispatch sigs = .ok branches →
      Total 64 sigs func args
        (crossnativeCall 64 zeroes branches (zigParse (linkedRequest func args zeroCopy).dump)) := by
  intro h
  obtain ⟨calls, response, hanswer, _⟩ := h [addSignature] [addBranch] "add" (.arr [.int 1]) false rfl
  rw [crossnativeCall_request] at hanswer
  cases hanswer

end CrossNative.Linked
