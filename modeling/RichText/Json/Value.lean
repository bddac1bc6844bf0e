/-!
JSON values as a reader finds them. Members keep their order and may repeat. A string whose
escapes leave half a surrogate pair alone has no text, so it is `none`; so is such a key.
-/
namespace RichText.Json

/-- A number as it is written: sign, whole part, digits after the point, exponent. -/
structure Number where
  negative : Bool
  whole : Nat
  fraction : List (Fin 10)
  exponent : Option Int
  deriving DecidableEq, Repr

inductive Value where
  | null
  | bool (b : Bool)
  | number (n : Number)
  | string (s : Option String)
  | array (items : List Value)
  | object (members : List (Option String × Value))

namespace Number

def ofInt : Int → Number
  | .ofNat n => ⟨false, n, [], none⟩
  | .negSucc n => ⟨true, n + 1, [], none⟩

/-- The integer that is written without point and exponent. Minus zero is none. -/
def toInt? : Number → Option Int
  | ⟨false, n, [], none⟩ => some n
  | ⟨true, n + 1, [], none⟩ => some (-(n + 1 : Int))
  | _ => none

@[simp] theorem toInt?_ofInt (i : Int) : (ofInt i).toInt? = some i := by
  cases i with
  | ofNat n => rfl
  | negSucc n => simp [ofInt, toInt?, Int.negSucc_eq]

end Number

namespace Value

def ofInt (i : Int) : Value := .number (.ofInt i)

def ofNat (n : Nat) : Value := ofInt n

def text (s : String) : Value := .string (some s)

/-- Nothing is written as `null`. -/
def ofOption (f : α → Value) : Option α → Value
  | none => .null
  | some a => f a

/-- An object whose keys all have a text. -/
def record (members : List (String × Value)) : Value :=
  .object (members.map fun (key, v) => (some key, v))

end Value

end RichText.Json
