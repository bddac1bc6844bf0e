import RichText.Json.Magnitude

/-!
Decoding values. Every array, object or named alternative that is decoded takes one from the room
left for nesting; what a decoder passes over takes none.
-/
namespace RichText.Json

/-- Reads a value, given the number of containers that may still be opened. -/
abbrev Decoder (α : Type) := Nat → Value → Option α

/-- Containers that a whole text may open inside each other. -/
def maxDepth : Nat := 127

namespace Value

def text? : Value → Option String
  | .string s => s
  | _ => none

def bool? : Value → Option Bool
  | .bool b => some b
  | _ => none

def int? : Value → Option Int
  | .number n => n.toInt?
  | _ => none

def int64? (v : Value) : Option Int64 := do
  let i ← v.int?
  if Int64.minValue.toInt ≤ i ∧ i ≤ Int64.maxValue.toInt then some (.ofInt i) else none

def uint32? (v : Value) : Option UInt32 := do
  let i ← v.int?
  if 0 ≤ i ∧ i < UInt32.size then some (.ofNat i.toNat) else none

def items? : Value → Option (List Value)
  | .array vs => some vs
  | _ => none

/-- What may be absent is absent as `null`. -/
def nullable? {α : Type} (read : Value → Option α) : Value → Option (Option α)
  | .null => some none
  | v => (read v).map some

/-- The named members, each at most once, in the order of the text. Every key must have a text,
and members of other names are passed over. An array gives the members in the order of the names,
and may leave out the last ones. -/
def members? (names : List String) : Value → Option (List (String × Value))
  | .object ms => do
    let ms ← ms.mapM fun (key, v) => key.map (·, v)
    let known := ms.filter fun m => m.1 ∈ names
    if (known.map Prod.fst).Nodup then some known else none
  | .array vs => if vs.length ≤ names.length then some (names.zip vs) else none
  | _ => none

/-- The member of that name, or what its absence means. -/
def field {α : Type} (ms : List (String × Value)) (name : String) (absent : α)
    (read : Value → Option α) : Option α :=
  match ms.lookup name with
  | none => some absent
  | some v => read v

end Value

namespace Decoder
variable {α : Type}

/-- A structure with the named members. -/
def record (names : List String) (read : Nat → List (String × Value) → Option α) : Decoder α
  | 0, _ => none
  | room + 1, v => (v.members? names).bind (read room)

/-- An array of values of one sort. -/
def list (item : Decoder α) : Decoder (List α)
  | 0, _ => none
  | room + 1, v => v.items?.bind fun vs => vs.mapM (item room)

/-- A choice by name: the name itself, or an object whose only key is the name, with `null`. -/
def choice (ofName? : String → Option α) : Decoder α
  | _, .string s => s.bind ofName?
  | _ + 1, .object [(key, .null)] => key.bind ofName?
  | _, _ => none

end Decoder

namespace Value

mutual
/-- Whether a reader that keeps the whole value can keep it: all strings have a text, all numbers
are in range, and the nesting fits the room. -/
def keepable (room : Nat) : Value → Bool
  | .null => true
  | .bool _ => true
  | .number n => n.inRange
  | .string s => s.isSome
  | .array vs => 0 < room && allKeepable (room - 1) vs
  | .object ms => 0 < room && allMembersKeepable (room - 1) ms
def allKeepable (room : Nat) : List Value → Bool
  | [] => true
  | v :: vs => keepable room v && allKeepable room vs
def allMembersKeepable (room : Nat) : List (Option String × Value) → Bool
  | [] => true
  | (key, v) :: ms => key.isSome && keepable room v && allMembersKeepable room ms
end

end Value

end RichText.Json
