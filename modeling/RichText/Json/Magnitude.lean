import RichText.Json.Value

/-!
Which numbers a reader into binary64 takes. It collects as many leading digits as fit an unsigned
64-bit word, rounds them, rounds the power of ten that is left, and multiplies; a number is out of
range when that product overflows. Small numbers are never out of range.
-/
namespace RichText.Json

/-- Two to the power `n`. -/
def twoTo (n : Nat) : Nat := Nat.pow 2 n

/-- Rounds to 53 binary digits, a tie to the even neighbour. -/
def roundToDouble (n : Nat) : Nat :=
  if n < twoTo 53 then n
  else
    let unit := twoTo (n.log2 - 52)
    let lower := n / unit
    let twice := 2 * (n % unit)
    if unit < twice ∨ (twice = unit ∧ lower % 2 = 1) then (lower + 1) * unit else lower * unit

/-- Digits collected so far and the power of ten they still have to be multiplied by. -/
structure Collected where
  digits : Nat
  scale : Int
  deriving DecidableEq, Repr

namespace Collected

def fits (n : Nat) : Bool := n < twoTo 64

/-- The digits before the point. Once one does not fit, it and all later ones only scale. -/
def addWhole : List Nat → Collected → Collected
  | [], c => c
  | d :: ds, c =>
    if fits (10 * c.digits + d) then addWhole ds { c with digits := 10 * c.digits + d }
    else { c with scale := c.scale + (ds.length + 1) }

/-- The digits after the point. Once one does not fit, it and all later ones are dropped. -/
def addFraction : List Nat → Collected → Collected
  | [], c => c
  | d :: ds, c =>
    if fits (10 * c.digits + d) then addFraction ds ⟨10 * c.digits + d, c.scale - 1⟩ else c

/-- Whether the digits times their power of ten stay below overflow. -/
def inRange (c : Collected) : Bool :=
  c.digits = 0 || c.scale < 0 ||
    (c.scale ≤ 308 &&
      roundToDouble c.digits * roundToDouble (Nat.pow 10 c.scale.toNat) < twoTo 1024 - twoTo 970)

end Collected

namespace Number

def decimalDigits (n : Nat) : List Nat := (Nat.toDigits 10 n).map fun c => c.toNat - 48

/-- Whether the number can be read. An exponent beyond 31 bits is not added but decides alone. -/
def inRange (n : Number) : Bool :=
  let c := (Collected.addWhole (decimalDigits n.whole) ⟨0, 0⟩).addFraction (n.fraction.map (·.val))
  let e := n.exponent.getD 0
  if e.natAbs < twoTo 31 then { c with scale := c.scale + e }.inRange
  else c.digits = 0 || e < 0

end Number

end RichText.Json
