import CrossNative.Basis.Decimal
import CrossNative.Basis.RoundingInterval

/-!
# The digits of a floating-point number

`dtoa_impl` of the vendored JSON header: Grisu2 on 64-bit significands. A failed
assertion, and a loop that does not end in the rounds it is given here, are `none`.
-/

namespace CrossNative.Text

set_option autoImplicit false

open Basis

/-- `JSON_ASSERT`. -/
def jsonAssert (p : Prop) [Decidable p] : Option Unit := if p then some () else none

def u64 (n : Nat) : Nat := n % 2 ^ 64

/-- `f * 2 ^ e`. -/
structure Diyfp where
  f : Nat
  e : Int
  deriving DecidableEq, Repr

namespace Diyfp

def sub (x y : Diyfp) : Option Diyfp := do
  jsonAssert (x.e = y.e)
  jsonAssert (y.f ≤ x.f)
  some ⟨x.f - y.f, x.e⟩

/-- The upper half of the product, from four products of 32-bit halves. -/
def mul (x y : Diyfp) : Diyfp :=
  let uLo := x.f % 2 ^ 32
  let uHi := x.f / 2 ^ 32
  let vLo := y.f % 2 ^ 32
  let vHi := y.f / 2 ^ 32
  let p0 := u64 (uLo * vLo)
  let p1 := u64 (uLo * vHi)
  let p2 := u64 (uHi * vLo)
  let p3 := u64 (uHi * vHi)
  let p0Hi := p0 / 2 ^ 32
  let p1Lo := p1 % 2 ^ 32
  let p1Hi := p1 / 2 ^ 32
  let p2Lo := p2 % 2 ^ 32
  let p2Hi := p2 / 2 ^ 32
  let q := u64 (u64 (p0Hi + p1Lo + p2Lo) + 2 ^ (64 - 32 - 1)) -- round, ties up
  ⟨u64 (p3 + p2Hi + p1Hi + q / 2 ^ 32), x.e + y.e + 64⟩

def normalizeLoop : Nat → Diyfp → Option Diyfp
  | 0, _ => none
  | rounds + 1, x => if x.f / 2 ^ 63 = 0 then normalizeLoop rounds ⟨u64 (x.f * 2), x.e - 1⟩ else some x

def normalize (x : Diyfp) : Option Diyfp := do
  jsonAssert (x.f ≠ 0)
  normalizeLoop 64 x

def normalizeTo (x : Diyfp) (targetExponent : Int) : Option Diyfp := do
  let delta := x.e - targetExponent
  jsonAssert (0 ≤ delta)
  jsonAssert (u64 (x.f * 2 ^ delta.toNat) / 2 ^ delta.toNat = x.f)
  some ⟨u64 (x.f * 2 ^ delta.toNat), targetExponent⟩

end Diyfp

structure Boundaries where
  w : Diyfp
  minus : Diyfp
  plus : Diyfp

def kBias : Int := 1023 + 52

def kMinExp : Int := 1 - kBias

def kHiddenBit : Nat := 2 ^ 52

/-- `value` is the pattern of a double. -/
def computeBoundaries (value : Nat) : Option Boundaries := do
  jsonAssert (FloatFormat.binary64.IsFinite value)
  jsonAssert (0 < value ∧ value < FloatFormat.binary64.signBit)
  let E := value / kHiddenBit
  let F := value % kHiddenBit
  let v : Diyfp := if E = 0 then ⟨F, kMinExp⟩ else ⟨F + kHiddenBit, E - kBias⟩
  let lowerBoundaryIsCloser := F = 0 ∧ 1 < E
  let mPlus : Diyfp := ⟨2 * v.f + 1, v.e - 1⟩
  let mMinus : Diyfp := if lowerBoundaryIsCloser then ⟨4 * v.f - 1, v.e - 2⟩ else ⟨2 * v.f - 1, v.e - 1⟩
  let wPlus ← mPlus.normalize
  let wMinus ← mMinus.normalizeTo wPlus.e
  let w ← v.normalize
  some ⟨w, wMinus, wPlus⟩

def kAlpha : Int := -60

def kGamma : Int := -32

/-- `f * 2 ^ e`, near `10 ^ k`. -/
structure CachedPower where
  f : Nat
  e : Int
  k : Int
  deriving DecidableEq, Repr

def kCachedPowersMinDecExp : Int := -300

def kCachedPowersDecStep : Int := 8

def kCachedPowers : List CachedPower := [
  ⟨0xAB70FE17C79AC6CA, -1060, -300⟩, ⟨0xFF77B1FCBEBCDC4F, -1034, -292⟩, ⟨0xBE5691EF416BD60C, -1007, -284⟩,
  ⟨0x8DD01FAD907FFC3C, -980, -276⟩, ⟨0xD3515C2831559A83, -954, -268⟩, ⟨0x9D71AC8FADA6C9B5, -927, -260⟩,
  ⟨0xEA9C227723EE8BCB, -901, -252⟩, ⟨0xAECC49914078536D, -874, -244⟩, ⟨0x823C12795DB6CE57, -847, -236⟩,
  ⟨0xC21094364DFB5637, -821, -228⟩, ⟨0x9096EA6F3848984F, -794, -220⟩, ⟨0xD77485CB25823AC7, -768, -212⟩,
  ⟨0xA086CFCD97BF97F4, -741, -204⟩, ⟨0xEF340A98172AACE5, -715, -196⟩, ⟨0xB23867FB2A35B28E, -688, -188⟩,
  ⟨0x84C8D4DFD2C63F3B, -661, -180⟩, ⟨0xC5DD44271AD3CDBA, -635, -172⟩, ⟨0x936B9FCEBB25C996, -608, -164⟩,
  ⟨0xDBAC6C247D62A584, -582, -156⟩, ⟨0xA3AB66580D5FDAF6, -555, -148⟩, ⟨0xF3E2F893DEC3F126, -529, -140⟩,
  ⟨0xB5B5ADA8AAFF80B8, -502, -132⟩, ⟨0x87625F056C7C4A8B, -475, -124⟩, ⟨0xC9BCFF6034C13053, -449, -116⟩,
  ⟨0x964E858C91BA2655, -422, -108⟩, ⟨0xDFF9772470297EBD, -396, -100⟩, ⟨0xA6DFBD9FB8E5B88F, -369, -92⟩,
  ⟨0xF8A95FCF88747D94, -343, -84⟩, ⟨0xB94470938FA89BCF, -316, -76⟩, ⟨0x8A08F0F8BF0F156B, -289, -68⟩,
  ⟨0xCDB02555653131B6, -263, -60⟩, ⟨0x993FE2C6D07B7FAC, -236, -52⟩, ⟨0xE45C10C42A2B3B06, -210, -44⟩,
  ⟨0xAA242499697392D3, -183, -36⟩, ⟨0xFD87B5F28300CA0E, -157, -28⟩, ⟨0xBCE5086492111AEB, -130, -20⟩,
  ⟨0x8CBCCC096F5088CC, -103, -12⟩, ⟨0xD1B71758E219652C, -77, -4⟩, ⟨0x9C40000000000000, -50, 4⟩,
  ⟨0xE8D4A51000000000, -24, 12⟩, ⟨0xAD78EBC5AC620000, 3, 20⟩, ⟨0x813F3978F8940984, 30, 28⟩,
  ⟨0xC097CE7BC90715B3, 56, 36⟩, ⟨0x8F7E32CE7BEA5C70, 83, 44⟩, ⟨0xD5D238A4ABE98068, 109, 52⟩,
  ⟨0x9F4F2726179A2245, 136, 60⟩, ⟨0xED63A231D4C4FB27, 162, 68⟩, ⟨0xB0DE65388CC8ADA8, 189, 76⟩,
  ⟨0x83C7088E1AAB65DB, 216, 84⟩, ⟨0xC45D1DF942711D9A, 242, 92⟩, ⟨0x924D692CA61BE758, 269, 100⟩,
  ⟨0xDA01EE641A708DEA, 295, 108⟩, ⟨0xA26DA3999AEF774A, 322, 116⟩, ⟨0xF209787BB47D6B85, 348, 124⟩,
  ⟨0xB454E4A179DD1877, 375, 132⟩, ⟨0x865B86925B9BC5C2, 402, 140⟩, ⟨0xC83553C5C8965D3D, 428, 148⟩,
  ⟨0x952AB45CFA97A0B3, 455, 156⟩, ⟨0xDE469FBD99A05FE3, 481, 164⟩, ⟨0xA59BC234DB398C25, 508, 172⟩,
  ⟨0xF6C69A72A3989F5C, 534, 180⟩, ⟨0xB7DCBF5354E9BECE, 561, 188⟩, ⟨0x88FCF317F22241E2, 588, 196⟩,
  ⟨0xCC20CE9BD35C78A5, 614, 204⟩, ⟨0x98165AF37B2153DF, 641, 212⟩, ⟨0xE2A0B5DC971F303A, 667, 220⟩,
  ⟨0xA8D9D1535CE3B396, 694, 228⟩, ⟨0xFB9B7CD9A4A7443C, 720, 236⟩, ⟨0xBB764C4CA7A44410, 747, 244⟩,
  ⟨0x8BAB8EEFB6409C1A, 774, 252⟩, ⟨0xD01FEF10A657842C, 800, 260⟩, ⟨0x9B10A4E5E9913129, 827, 268⟩,
  ⟨0xE7109BFBA19C0C9D, 853, 276⟩, ⟨0xAC2820D9623BF429, 880, 284⟩, ⟨0x80444B5E7AA7CF85, 907, 292⟩,
  ⟨0xBF21E44003ACDD2D, 933, 300⟩, ⟨0x8E679C2F5E44FF8F, 960, 308⟩, ⟨0xD433179D9C8CB841, 986, 316⟩,
  ⟨0x9E19DB92B4E31BA9, 1013, 324⟩]

def getCachedPowerForBinaryExponent (e : Int) : Option CachedPower := do
  jsonAssert (-1500 ≤ e)
  jsonAssert (e ≤ 1500)
  let f := kAlpha - e - 1
  let k := (f * 78913).tdiv (2 ^ 18) + if 0 < f then 1 else 0
  let index := (-kCachedPowersMinDecExp + k + (kCachedPowersDecStep - 1)).tdiv kCachedPowersDecStep
  jsonAssert (0 ≤ index)
  jsonAssert (index.toNat < kCachedPowers.length)
  let cached ← kCachedPowers[index.toNat]?
  jsonAssert (kAlpha ≤ cached.e + e + 64)
  jsonAssert (cached.e + e + 64 ≤ kGamma)
  some cached

/-- The number of digits of `n`, and the power of ten of the first one. -/
def findLargestPow10 (n : Nat) : Nat × Nat :=
  if 1000000000 ≤ n then (10, 1000000000)
  else if 100000000 ≤ n then (9, 100000000)
  else if 10000000 ≤ n then (8, 10000000)
  else if 1000000 ≤ n then (7, 1000000)
  else if 100000 ≤ n then (6, 100000)
  else if 10000 ≤ n then (5, 10000)
  else if 1000 ≤ n then (4, 1000)
  else if 100 ≤ n then (3, 100)
  else if 10 ≤ n then (2, 10)
  else (1, 1)

/-- `buf[len - 1]--`. -/
def decrementLast (buf : List UInt8) : Option (List UInt8) := do
  let last ← buf.getLast?
  jsonAssert (last ≠ 0x30)
  some (buf.dropLast ++ [last - 1])

def roundLoop (dist delta tenK : Nat) : Nat → List UInt8 → Nat → Option (List UInt8)
  | 0, _, _ => none
  | rounds + 1, buf, rest =>
    if rest < dist ∧ tenK ≤ delta - rest ∧ (rest + tenK < dist ∨ rest + tenK - dist < dist - rest) then do
      let buf ← decrementLast buf
      roundLoop dist delta tenK rounds buf (u64 (rest + tenK))
    else some buf

def grisu2Round (buf : List UInt8) (dist delta rest tenK : Nat) : Option (List UInt8) := do
  jsonAssert (1 ≤ buf.length)
  jsonAssert (dist ≤ delta)
  jsonAssert (rest ≤ delta)
  jsonAssert (0 < tenK)
  roundLoop dist delta tenK 10 buf rest

/-- The second loop of `grisu2_digit_gen`; `one` is `2 ^ shift`. -/
def fractionalDigits (shift : Nat) (decimalExponent : Int) :
    Nat → Nat → Nat → Nat → Nat → List UInt8 → Option (List UInt8 × Int)
  | 0, _, _, _, _, _ => none
  | rounds + 1, m, p2, delta, dist, buffer => do
    jsonAssert (p2 ≤ (2 ^ 64 - 1) / 10)
    let p2 := u64 (p2 * 10)
    let d := p2 / 2 ^ shift
    let r := p2 % 2 ^ shift
    jsonAssert (d ≤ 9)
    let buffer := buffer ++ [digitChar d]
    let m := m + 1
    let delta := u64 (delta * 10)
    let dist := u64 (dist * 10)
    if r ≤ delta then do
      let buffer ← grisu2Round buffer dist delta r (u64 (2 ^ shift))
      some (buffer, decimalExponent - m)
    else fractionalDigits shift decimalExponent rounds m r delta dist buffer

/-- The first loop of `grisu2_digit_gen`, over the digits of `p1`. -/
def integralDigits (shift p2 delta dist : Nat) (decimalExponent : Int) :
    Nat → Nat → Nat → List UInt8 → Option (List UInt8 × Int)
  | 0, _, _, buffer => do
    jsonAssert (delta < p2)
    fractionalDigits shift decimalExponent 20 0 p2 delta dist buffer
  | n + 1, p1, pow10, buffer => do
    let d := p1 / pow10
    let r := p1 % pow10
    jsonAssert (d ≤ 9)
    let buffer := buffer ++ [digitChar d]
    let rest := u64 (u64 (r * 2 ^ shift) + p2)
    if rest ≤ delta then do
      let buffer ← grisu2Round buffer dist delta rest (u64 (pow10 * 2 ^ shift))
      some (buffer, decimalExponent + n)
    else integralDigits shift p2 delta dist decimalExponent n r (pow10 / 10) buffer

def grisu2DigitGen (decimalExponent : Int) (mMinus w mPlus : Diyfp) : Option (List UInt8 × Int) := do
  jsonAssert (kAlpha ≤ mPlus.e)
  jsonAssert (mPlus.e ≤ kGamma)
  let delta ← mPlus.sub mMinus
  let dist ← mPlus.sub w
  let shift := (-mPlus.e).toNat
  let p1 := mPlus.f / 2 ^ shift % 2 ^ 32
  let p2 := mPlus.f % 2 ^ shift
  jsonAssert (0 < p1)
  let (k, pow10) := findLargestPow10 p1
  integralDigits shift p2 delta.f dist.f decimalExponent k p1 pow10 []

/-- `grisu2` on a number and its boundaries. -/
def grisu2OfBoundaries (mMinus v mPlus : Diyfp) : Option (List UInt8 × Int) := do
  jsonAssert (mPlus.e = mMinus.e)
  jsonAssert (mPlus.e = v.e)
  let cached ← getCachedPowerForBinaryExponent mPlus.e
  let cMinusK : Diyfp := ⟨cached.f, cached.e⟩
  let w := v.mul cMinusK
  let wMinus := mMinus.mul cMinusK
  let wPlus := mPlus.mul cMinusK
  grisu2DigitGen (-cached.k) ⟨u64 (wMinus.f + 1), wMinus.e⟩ w ⟨u64 (wPlus.f + (2 ^ 64 - 1)), wPlus.e⟩

/-- The digits and the decimal exponent of a positive finite double. -/
def grisu2 (value : Nat) : Option (List UInt8 × Int) := do
  jsonAssert (FloatFormat.binary64.IsFinite value)
  jsonAssert (0 < value ∧ value < FloatFormat.binary64.signBit)
  let w ← computeBoundaries value
  grisu2OfBoundaries w.minus w.w w.plus

end CrossNative.Text
