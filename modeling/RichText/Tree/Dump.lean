import RichText.Tree.Basic
import RichText.Json.Printer

/-!
Trees as JSON. What is empty or zero is left out; an address or an object id is written whenever
there is one, even if it is empty. The numbers of the nodes are not written.
-/
namespace RichText

open Json Json.Value

/-- The members that describe the node itself. -/
def Node.members (d : Node) : List (String × Value) :=
  ("kind", text d.kind.name) ::
  (if d.content = "" then [] else [("content", text d.content)]) ++
  (match d.url with
    | some url => [("url", text url)]
    | none => []) ++
  (match d.objectId with
    | some id => [("objectId", text id)]
    | none => []) ++
  (if d.level = 0 then [] else [("repeatLevel", ofNat d.level)]) ++
  (if d.number = 0 then [] else [("itemNumber", ofNat d.number)])

namespace Tree

mutual
def toValue : Tree → Value
  | node _ d [] => record d.members
  | node _ d (t :: ts) =>
    record (d.members ++ [("children", .array (toValue t :: toValues ts))])
def toValues : List Tree → List Value
  | [] => []
  | t :: ts => toValue t :: toValues ts
end

/-- The tree as JSON, on one line or indented. -/
def dump (t : Tree) (compact : Bool) : String :=
  if compact then t.toValue.compact else t.toValue.pretty

end Tree

end RichText
