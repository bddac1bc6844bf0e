import RichText.Rule
import RichText.Text.Blank
import RichText.Tree.Basic

/-!
Rendering a tree by a rule table. What surrounds a node reaches it in two ways only: whether its
parent is of the same kind, and whether some ancestor's rule leaves literal text unescaped.
-/
namespace RichText

/-- A soft line break, written as a vertical tab, becomes a blank line. -/
def softBreak (c : Char) : List Char := if c = '\x0b' then ['\n', '\n'] else [c]

/-- The literal text of a node. No text is not even escaped. -/
def Rule.literal (rule : Rule) (raw : Bool) (content : String) : List Char :=
  if content = "" then []
  else
    let text := content.toList.flatMap softBreak
    if raw then text else rule.escape text

/-- The text of a node from the text inside it. -/
def Rule.finish (rule : Rule) (nested : Bool) (d : Node) (inner : List Char) : List Char :=
  let inner := if rule.trimInside then trim inner else inner
  if rule.requiresContent && inner.isEmpty then []
  else
    let text := if d.number = 0 then inner else rule.byNumber d.number inner
    let text := if d.level = 0 then text else rule.byLevel d.level text
    let text := if rule.wraps nested then rule.after (rule.before text) else text
    match d.url with
    | some url => rule.link url.toList text
    | none => text

/-- A child's text, and what decides about a space before it. -/
structure Rendered where
  kind : Kind
  leftPad : Bool
  text : List Char

/-- Whether two words would meet. -/
def wordsMeet (last first : Option Char) : Bool :=
  last.any (fun c => !isBlank c) && first.any fun c => !isBlank c

/-- The texts of siblings one after the other, behind a text that ends in `last` and a sibling
of the kind `previous`. -/
def joinRendered (last : Option Char) (previous : Option Kind) : List Rendered → List Char
  | [] => []
  | r :: rs =>
    let pad := r.leftPad && previous.any (· ≠ r.kind) && wordsMeet last r.text.head?
    (if pad then ' ' :: r.text else r.text) ++
      joinRendered (r.text.getLast?.or last) (some r.kind) rs

namespace RuleTable

/-- An embedded object without a file is left out. -/
def renderObject (t : RuleTable) (files : Manifest) (kind : Kind) (rule : Rule) (id : String) :
    Except Error (List Char) :=
  match files.get? id, rule.file with
  | none, _ => .ok []
  | some file, some write => .ok (write file)
  | some _, none => .error (.noFileMapping t.key kind)

mutual
/-- The text of a tree, if its parent is of the same kind (`nested`) and if an ancestor leaves
text unescaped (`raw`). -/
def renderTree (t : RuleTable) (files : Manifest) (nested raw : Bool) :
    Tree → Except Error (List Char)
  | .node _ d ts => do
    let rule ← t.rule d.kind
    match d.objectId with
    | some id => t.renderObject files d.kind rule id
    | none =>
      let rendered ← renderAll t files d.kind (raw || rule.raw) ts
      let text := rule.literal (raw || rule.raw) d.content
      return rule.finish nested d (text ++ joinRendered text.getLast? none rendered)
def renderAll (t : RuleTable) (files : Manifest) (parent : Kind) (raw : Bool) :
    List Tree → Except Error (List Rendered)
  | [] => .ok []
  | c :: cs => do
    let text ← renderTree t files (c.kind = parent) raw c
    let rule ← t.rule c.kind
    let rest ← renderAll t files parent raw cs
    return ⟨c.kind, rule.leftPad, text⟩ :: rest
end

/-- Whether the rule of some node above a place leaves literal text unescaped. -/
def rawAt (t : RuleTable) (p : Tree.Place) : Bool :=
  p.above.any fun a => (t.rule? a.2.kind).any Rule.raw

/-- The text of the node of that number, if the tree has one. -/
def renderAt? (t : RuleTable) (files : Manifest) (tree : Tree) (id : Nat) :
    Option (Except Error String) :=
  (tree.locate? id).map fun p =>
    (t.renderTree files p.nested (t.rawAt p) p.subtree).map String.ofList

/-- The text of a whole tree. -/
def render (t : RuleTable) (files : Manifest) (tree : Tree) : Except Error String :=
  (t.renderTree files false false tree).map String.ofList

end RuleTable

end RichText
