/-
Numbers with binary significands of 53 bits, and the shortest decimals that stand for them.

A value is held exactly, as a natural number times a power of two.  Its decimal is the point of the
coarsest decimal grid that lies closer to it than to any other value.
-/
namespace ApiDoc

/-- The number `significand * 2 ^ exponent`. -/
structure Double where
  significand : Nat
  exponent : Int
  deriving DecidableEq, Repr, Inhabited

namespace Double

def minExponent : Int := -1074

/-- `num / den * 2 ^ k` as a fraction. -/
def shift (num den : Nat) (k : Int) : Nat × Nat :=
  if 0 ≤ k then (num * Nat.pow 2 k.toNat, den) else (num, den * Nat.pow 2 (-k).toNat)

/-- The natural number nearest to a fraction; a half goes to the even neighbour. -/
def roundEven (num den : Nat) : Nat :=
  let q := num / den
  let r := num % den
  if 2 * r < den then q else if den < 2 * r then q + 1 else q + q % 2

/-- The `k` with `2 ^ k ≤ num / den < 2 ^ (k + 1)`. -/
def binaryOrder (num den : Nat) : Int :=
  let k : Int := (num.log2 : Int) - den.log2
  let s := shift num den (-k)
  if s.1 < s.2 then k - 1 else k

/-- The number nearest to a fraction. -/
def ofRatio (num den : Nat) : Double :=
  if num == 0 then ⟨0, minExponent⟩
  else
    let q := max (binaryOrder num den - 52) minExponent
    let s := shift num den (-q)
    ⟨roundEven s.1 s.2, q⟩

/-- Whether the number is beyond all finite ones. -/
def isInfinite (x : Double) : Bool :=
  x.significand != 0 && 1024 ≤ (x.significand.log2 : Int) + x.exponent

/-- Compares `d * 10 ^ p` with `x` quarters of the last place. -/
def compareAt (d : Nat) (p : Int) (x : Nat) (exponent : Int) : Ordering :=
  let left : Nat × Nat :=
    if 0 ≤ p then (d * Nat.pow 10 p.toNat, 1) else (d, Nat.pow 10 (-p).toNat)
  let right := shift x 1 (exponent - 2)
  compare (left.1 * right.2) (right.1 * left.2)

/-- Whether reading `d * 10 ^ p` gives the number: it lies between the middles to the neighbours,
which belong to even significands.  Below a power of two the neighbour is nearer. -/
def isReadFrom (x : Double) (d : Nat) (p : Int) : Bool :=
  let low :=
    if x.significand == Nat.pow 2 52 && x.exponent != minExponent then 4 * x.significand - 1
    else 4 * x.significand - 2
  let high := 4 * x.significand + 2
  let fromLow := compareAt d p low x.exponent
  let fromHigh := compareAt d p high x.exponent
  if x.significand % 2 == 0 then fromLow != .lt && fromHigh != .gt
  else fromLow == .gt && fromHigh == .lt

def floorAt (x : Double) (p : Int) : Nat :=
  let s := shift x.significand 1 x.exponent
  if 0 ≤ p then s.1 / (s.2 * Nat.pow 10 p.toNat) else s.1 * Nat.pow 10 (-p).toNat / s.2

def nearer (x : Double) (d : Nat) (p : Int) : Nat :=
  match compareAt (2 * d + 1) p (8 * x.significand) x.exponent with
  | .lt => d + 1
  | .gt => d
  | .eq => d + d % 2

/-- The point of the grid of `10 ^ p` that stands for the number, if one does. -/
def pointAt? (x : Double) (p : Int) : Option (Nat × Int) :=
  let d := x.floorAt p
  let below := d != 0 && x.isReadFrom d p
  let above := x.isReadFrom (d + 1) p
  if below && above then some (x.nearer d p, p)
  else if below then some (d, p)
  else if above then some (d + 1, p)
  else none

/-- The shortest decimal `d * 10 ^ p` that stands for the number. -/
def shortest (x : Double) : Nat × Int :=
  ((List.range 640).findSome? fun (i : Nat) => x.pointAt? (309 - (i : Int))).getD (0, 0)

def positional (d : Nat) (p : Int) : List Char :=
  let digits := Nat.toDigits 10 d
  if 0 ≤ p then digits ++ List.replicate p.toNat '0'
  else
    let places := (-p).toNat
    let padded := List.replicate (places + 1 - digits.length) '0' ++ digits
    padded.take (padded.length - places) ++ '.' :: padded.drop (padded.length - places)

/-- The number as it is written without an exponent. -/
def text (x : Double) : String :=
  if x.significand == 0 then "0"
  else if x.isInfinite then "inf"
  else
    let s := x.shortest
    String.ofList (positional s.1 s.2)

end Double
end ApiDoc
