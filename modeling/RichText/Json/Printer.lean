import RichText.Json.Value

/-!
Printing values. The two layouts differ only in blanks between tokens.
-/
namespace RichText.Json

/-- The blanks before an entry or a closing bracket at a depth, and those after a colon. -/
structure Layout where
  newline : Nat → List Char
  afterColon : List Char

namespace Layout

/-- No blanks at all. -/
def compact : Layout := ⟨fun _ => [], []⟩

/-- Each entry on a line of its own, two spaces deeper than its container. -/
def pretty : Layout := ⟨fun depth => '\n' :: List.replicate (2 * depth) ' ', [' ']⟩

end Layout

/-- Escapes what must not stand in a string, and nothing else. -/
def stringChar (c : Char) : List Char :=
  if c = '"' then ['\\', '"']
  else if c = '\\' then ['\\', '\\']
  else if c = '\x08' then ['\\', 'b']
  else if c = '\t' then ['\\', 't']
  else if c = '\n' then ['\\', 'n']
  else if c = '\x0c' then ['\\', 'f']
  else if c = '\r' then ['\\', 'r']
  else if c.toNat < 0x20 then
    "\\u00".toList ++ [Nat.digitChar (c.toNat / 16), Nat.digitChar (c.toNat % 16)]
  else [c]

/-- A string without text prints as half a surrogate pair. -/
def stringChars : Option String → List Char
  | some s => '"' :: s.toList.flatMap stringChar ++ ['"']
  | none => "\"\\ud800\"".toList

def Number.chars (n : Number) : List Char :=
  (if n.negative then ['-'] else []) ++ Nat.toDigits 10 n.whole ++
  (if n.fraction = [] then [] else '.' :: n.fraction.map fun d => Nat.digitChar d.val) ++
  match n.exponent with
  | none => []
  | some e => 'e' :: (if e < 0 then ['-'] else []) ++ Nat.toDigits 10 e.natAbs

namespace Value

mutual
/-- Writes a value that stands at a depth in front of a text. -/
def write (l : Layout) (depth : Nat) : Value → List Char → List Char
  | .null, rest => "null".toList ++ rest
  | .bool true, rest => "true".toList ++ rest
  | .bool false, rest => "false".toList ++ rest
  | .number n, rest => n.chars ++ rest
  | .string s, rest => stringChars s ++ rest
  | .array [], rest => '[' :: ']' :: rest
  | .array (v :: vs), rest =>
    '[' :: (l.newline (depth + 1) ++ write l (depth + 1) v
      (writeItems l (depth + 1) vs (l.newline depth ++ ']' :: rest)))
  | .object [], rest => '\x7b' :: '\x7d' :: rest
  | .object ((key, v) :: ms), rest =>
    '\x7b' :: (l.newline (depth + 1) ++ stringChars key ++ ':' :: (l.afterColon ++
      write l (depth + 1) v (writeMembers l (depth + 1) ms (l.newline depth ++ '\x7d' :: rest))))
/-- Writes the items after the first one. -/
def writeItems (l : Layout) (depth : Nat) : List Value → List Char → List Char
  | [], rest => rest
  | v :: vs, rest => ',' :: (l.newline depth ++ write l depth v (writeItems l depth vs rest))
/-- Writes the members after the first one. -/
def writeMembers (l : Layout) (depth : Nat) :
    List (Option String × Value) → List Char → List Char
  | [], rest => rest
  | (key, v) :: ms, rest =>
    ',' :: (l.newline depth ++ stringChars key ++ ':' :: (l.afterColon ++
      write l depth v (writeMembers l depth ms rest)))
end

/-- The text without blanks. -/
def compact (v : Value) : String := String.ofList (v.write .compact 0 [])

/-- The text over several lines. -/
def pretty (v : Value) : String := String.ofList (v.write .pretty 0 [])

end Value

end RichText.Json
