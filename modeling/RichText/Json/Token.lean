import RichText.Json.Value

/-!
The tokens of JSON text, and a scanner that takes the text one character at a time. A number or a
word is a maximal run of bare characters, read when the run ends: whatever may follow it in JSON
is no bare character.
-/
namespace RichText.Json

inductive Token where
  | openArray | closeArray | openObject | closeObject | comma | colon
  | text (s : Option String)
  | scalar (v : Value)

/-- One character of a string: itself, or half of a surrogate pair written as an escape. -/
inductive Piece where
  | char (c : Char)
  | half (unit : Nat)
  deriving DecidableEq, Repr

/-- The character of a surrogate pair. -/
def pairChar? (high low : Nat) : Option Char :=
  if 0xD800 ≤ high ∧ high < 0xDC00 ∧ 0xDC00 ≤ low ∧ low < 0xE000 then
    some (Char.ofNat (0x10000 + (high - 0xD800) * 0x400 + (low - 0xDC00)))
  else none

/-- Adds the text of the pieces, newest first, in front of what follows them. -/
def joinPieces : List Piece → List Char → Option (List Char)
  | [], cs => some cs
  | .char c :: ps, cs => joinPieces ps (c :: cs)
  | .half low :: .half high :: ps, cs =>
    match pairChar? high low with
    | some c => joinPieces ps (c :: cs)
    | none => none
  | .half _ :: _, _ => none

/-- What a four-digit escape stands for. -/
def Piece.ofUnit (unit : Nat) : Piece :=
  if 0xD800 ≤ unit ∧ unit < 0xE000 then .half unit else .char (Char.ofNat unit)

/-- What a one-letter escape stands for. -/
def escaped? : Char → Option Char
  | '"' => some '"'
  | '\\' => some '\\'
  | '/' => some '/'
  | 'b' => some '\x08'
  | 'f' => some '\x0c'
  | 'n' => some '\n'
  | 'r' => some '\r'
  | 't' => some '\t'
  | _ => none

def hexDigit? (c : Char) : Option Nat :=
  if '0' ≤ c ∧ c ≤ '9' then some (c.toNat - 48)
  else if 'a' ≤ c ∧ c ≤ 'f' then some (c.toNat - 87)
  else if 'A' ≤ c ∧ c ≤ 'F' then some (c.toNat - 55)
  else none

def digitsValue (cs : List Char) : Nat := cs.foldl (fun n c => 10 * n + (c.toNat - 48)) 0

/-- The exponent after its `e`: an optional sign and at least one digit. -/
def exponent? (cs : List Char) : Option Int :=
  let (sign, digits) : Int × List Char := match cs with
    | '+' :: rest => (1, rest)
    | '-' :: rest => (-1, rest)
    | _ => (1, cs)
  if digits ≠ [] ∧ digits.all Char.isDigit then some (sign * digitsValue digits) else none

/-- The rest of a number after its digits: nothing, or an exponent. -/
def exponentPart? : List Char → Option (Option Int)
  | [] => some none
  | 'e' :: rest => (exponent? rest).map some
  | 'E' :: rest => (exponent? rest).map some
  | _ => none

/-- The digits after the point and the exponent. -/
def fractionPart? : List Char → Option (List (Fin 10) × Option Int)
  | '.' :: rest =>
    let digits := rest.takeWhile Char.isDigit
    if digits = [] then none
    else (exponentPart? (rest.dropWhile Char.isDigit)).map fun e =>
      (digits.map fun c => Fin.ofNat 10 (c.toNat - 48), e)
  | cs => (exponentPart? cs).map ([], ·)

/-- A number: no plus sign, no leading zero, a digit on each side of the point. -/
def Number.ofChars? (cs : List Char) : Option Number :=
  let (negative, cs) := match cs with
    | '-' :: rest => (true, rest)
    | _ => (false, cs)
  let digits := cs.takeWhile Char.isDigit
  if digits = [] ∨ (digits.head? = some '0' ∧ digits ≠ ['0']) then none
  else (fractionPart? (cs.dropWhile Char.isDigit)).map fun (fraction, e) =>
    ⟨negative, digitsValue digits, fraction, e⟩

/-- The value that a run of bare characters stands for. -/
def scalar? (cs : List Char) : Option Value :=
  if cs = "null".toList then some .null
  else if cs = "true".toList then some (.bool true)
  else if cs = "false".toList then some (.bool false)
  else (Number.ofChars? cs).map .number

/-- The blanks of JSON. -/
def isSpace (c : Char) : Bool := c = ' ' || c = '\t' || c = '\n' || c = '\r'

/-- The characters of numbers and words. -/
def isBare (c : Char) : Bool := c.isAlphanum || c = '-' || c = '+' || c = '.'

def punctuation? : Char → Option Token
  | '[' => some .openArray
  | ']' => some .closeArray
  | '\x7b' => some .openObject
  | '\x7d' => some .closeObject
  | ',' => some .comma
  | ':' => some .colon
  | _ => none

/-- What the scanner is inside of, with what it has seen of it, newest first. -/
inductive Scan where
  | between
  | bare (seen : List Char)
  | string (seen : List Piece)
  | backslash (seen : List Piece)
  | unit (seen : List Piece) (digits : Nat) (value : Nat)
  deriving DecidableEq, Repr

/-- The scanner and the tokens it has found, newest first. -/
structure Scanner where
  inside : Scan
  found : List Token

namespace Scanner

def start : Scanner := ⟨.between, []⟩

/-- A character that does not continue a token. -/
def begin (found : List Token) (c : Char) : Option Scanner :=
  if isSpace c then some ⟨.between, found⟩
  else if c = '"' then some ⟨.string [], found⟩
  else match punctuation? c with
    | some t => some ⟨.between, t :: found⟩
    | none => if isBare c then some ⟨.bare [c], found⟩ else none

def step : Scanner → Char → Option Scanner
  | ⟨.between, found⟩, c => begin found c
  | ⟨.bare seen, found⟩, c =>
    if isBare c then some ⟨.bare (c :: seen), found⟩
    else match scalar? seen.reverse with
      | some v => begin (.scalar v :: found) c
      | none => none
  | ⟨.string seen, found⟩, c =>
    if c = '"' then some ⟨.between, .text ((joinPieces seen []).map String.ofList) :: found⟩
    else if c = '\\' then some ⟨.backslash seen, found⟩
    else if c.toNat < 0x20 then none
    else some ⟨.string (.char c :: seen), found⟩
  | ⟨.backslash seen, found⟩, c =>
    if c = 'u' then some ⟨.unit seen 0 0, found⟩
    else (escaped? c).map fun e => ⟨.string (.char e :: seen), found⟩
  | ⟨.unit seen digits value, found⟩, c =>
    (hexDigit? c).map fun d =>
      if digits = 3 then ⟨.string (.ofUnit (16 * value + d) :: seen), found⟩
      else ⟨.unit seen (digits + 1) (16 * value + d), found⟩

/-- The tokens of a text that ends here. -/
def finish : Scanner → Option (List Token)
  | ⟨.between, found⟩ => some found.reverse
  | ⟨.bare seen, found⟩ => (scalar? seen.reverse).map fun v => (Token.scalar v :: found).reverse
  | _ => none

end Scanner

/-- The tokens of a text. -/
def tokens? (cs : List Char) : Option (List Token) :=
  (cs.foldlM Scanner.step Scanner.start).bind Scanner.finish

end RichText.Json
