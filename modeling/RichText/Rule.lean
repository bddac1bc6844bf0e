import RichText.Error
import RichText.Manifest

/-!
Rules of rendering, one for each kind of node, and tables of them. A text is a list of characters.
-/
namespace RichText

/-- When the wrapper of a node is written. -/
inductive Wrapping where
  | always
  /-- Not inside a parent of the same kind. -/
  | unlessNested
  /-- Only inside a parent of the same kind. -/
  | onlyNested
  deriving DecidableEq, Repr

/-- How a node is rendered. Whatever is not given leaves the text as it is. -/
structure Rule where
  /-- Literal text of the node and of all nodes below it is not escaped. -/
  raw : Bool := false
  wrapping : Wrapping := .always
  /-- Nothing is written when the inner text is empty. -/
  requiresContent : Bool := false
  /-- A space parts the node from a sibling of another kind where two words would meet. -/
  leftPad : Bool := false
  /-- The inner text is trimmed before it is wrapped. -/
  trimInside : Bool := false
  escape : List Char → List Char := fun text => text
  before : List Char → List Char := fun text => text
  after : List Char → List Char := fun text => text
  byLevel : Nat → List Char → List Char := fun _ text => text
  byNumber : Nat → List Char → List Char := fun _ text => text
  link : List Char → List Char → List Char := fun _ text => text
  file : Option (AssetFile → List Char) := none

instance : Inhabited Rule := ⟨{}⟩

def Rule.wraps (rule : Rule) (nested : Bool) : Bool :=
  match rule.wrapping with
  | .always => true
  | .unlessNested => !nested
  | .onlyNested => nested

/-- A format: its key, and the rules that it has. -/
structure RuleTable where
  key : String
  rule? : Kind → Option Rule

namespace RuleTable

def empty (key : String) : RuleTable := ⟨key, fun _ => none⟩

/-- The same rule for every kind. -/
def uniform (key : String) (rule : Rule) : RuleTable := ⟨key, fun _ => some rule⟩

/-- Sets the rule of a kind. -/
def withRule (t : RuleTable) (kind : Kind) (rule : Rule) : RuleTable :=
  { t with rule? := fun k => if k = kind then some rule else t.rule? k }

def rule (t : RuleTable) (kind : Kind) : Except Error Rule :=
  match t.rule? kind with
  | some rule => .ok rule
  | none => .error (.missingRule t.key kind)

/-- A table without a rule for some kind is an error, told of the first such kind. -/
def validate (t : RuleTable) : Except Error Unit :=
  match Kind.all.find? fun k => (t.rule? k).isNone with
  | some k => .error (.missingRule t.key k)
  | none => .ok ()

theorem validate_eq_ok_iff {t : RuleTable} : t.validate = .ok () ↔ ∀ k, (t.rule? k).isSome := by
  cases h : Kind.all.find? fun k => (t.rule? k).isNone with
  | none =>
    rw [List.find?_eq_none] at h
    simp only [validate, List.find?_eq_none.2 h, true_iff]
    intro k
    have hk := h k (Kind.mem_all k)
    cases hr : t.rule? k <;> simp_all
  | some k =>
    have hk := List.find?_some h
    simp only [validate, h, reduceCtorEq, false_iff]
    intro hall
    have := hall k
    cases hr : t.rule? k <;> simp_all

end RuleTable

end RichText
