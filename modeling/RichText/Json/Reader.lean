import RichText.Json.Token

/-!
Reading a value from tokens by a stack of the containers still open, to any depth.
-/
namespace RichText.Json

/-- An open container, with its finished entries newest first. An object waits for the value of
its newest key. -/
inductive Frame where
  | items (done : List Value)
  | members (done : List (Option String × Value)) (key : Option String)

/-- What may come next. -/
inductive Expects where
  /-- A value. -/
  | value
  /-- A value, or the end of an array that is still empty. -/
  | itemOrClose
  /-- A key, or the end of an object that is still empty. -/
  | keyOrClose
  /-- A key. -/
  | key (done : List (Option String × Value))
  /-- The colon after a key. -/
  | colon (done : List (Option String × Value)) (key : Option String)
  /-- Whatever may follow a finished value. -/
  | rest (v : Value)

structure Reader where
  expects : Expects
  frames : List Frame

namespace Reader

def start : Reader := ⟨.value, []⟩

/-- A token where a value must begin. -/
def beginValue (frames : List Frame) : Token → Option Reader
  | .openArray => some ⟨.itemOrClose, .items [] :: frames⟩
  | .openObject => some ⟨.keyOrClose, frames⟩
  | .text s => some ⟨.rest (.string s), frames⟩
  | .scalar v => some ⟨.rest v, frames⟩
  | _ => none

/-- A token after a finished value. -/
def continueAfter (v : Value) : List Frame → Token → Option Reader
  | .items done :: frames, .comma => some ⟨.value, .items (v :: done) :: frames⟩
  | .items done :: frames, .closeArray => some ⟨.rest (.array (v :: done).reverse), frames⟩
  | .members done key :: frames, .comma => some ⟨.key ((key, v) :: done), frames⟩
  | .members done key :: frames, .closeObject =>
    some ⟨.rest (.object ((key, v) :: done).reverse), frames⟩
  | _, _ => none

def step : Reader → Token → Option Reader
  | ⟨.value, frames⟩, t => beginValue frames t
  | ⟨.itemOrClose, .items _ :: frames⟩, .closeArray => some ⟨.rest (.array []), frames⟩
  | ⟨.itemOrClose, frames⟩, t => beginValue frames t
  | ⟨.keyOrClose, frames⟩, .closeObject => some ⟨.rest (.object []), frames⟩
  | ⟨.keyOrClose, frames⟩, .text key => some ⟨.colon [] key, frames⟩
  | ⟨.key done, frames⟩, .text key => some ⟨.colon done key, frames⟩
  | ⟨.colon done key, frames⟩, .colon => some ⟨.value, .members done key :: frames⟩
  | ⟨.rest v, frames⟩, t => continueAfter v frames t
  | _, _ => none

/-- The value of a token list that ends here. -/
def finish : Reader → Option Value
  | ⟨.rest v, []⟩ => some v
  | _ => none

end Reader

/-- The value that the tokens spell. -/
def Value.ofTokens? (ts : List Token) : Option Value :=
  (ts.foldlM Reader.step Reader.start).bind Reader.finish

/-- The value that a text spells. -/
def Value.ofChars? (cs : List Char) : Option Value := (tokens? cs).bind ofTokens?

def Value.ofString? (s : String) : Option Value := ofChars? s.toList

end RichText.Json
