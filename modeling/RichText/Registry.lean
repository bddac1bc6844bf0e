import RichText.Format.Markdown
import RichText.Format.PlainText
import RichText.Render
import RichText.Text.LowerCase

/-!
A registry of formats. A name is the key of a table or an alias, and its letter case does not
matter. Several names may stand for one table; registering a table under the key of another, or
under an alias, puts it in the place of the table that the name stands for.
-/
namespace RichText

structure Registry where
  tables : List RuleTable
  /-- The places of the tables by lower-case name, the newest entry of a name first. -/
  names : List (String × Nat)

namespace Registry

def empty : Registry := ⟨[], []⟩

/-- The place of the table that a name stands for. -/
def place? (r : Registry) (name : String) : Option Nat := r.names.lookup (lowerCase name)

/-- Lets a name stand for the table at a place. -/
def addName (r : Registry) (place : Nat) (name : String) : Registry :=
  { r with names := (lowerCase name, place) :: r.names }

/-- Puts a table at the place of its key, or at the end, and gives it its key and the aliases. -/
def add (r : Registry) (t : RuleTable) (aliases : List String) : Registry :=
  match r.place? t.key with
  | some i => (t.key :: aliases).foldl (·.addName i ·) { r with tables := r.tables.set i t }
  | none =>
    (t.key :: aliases).foldl (·.addName r.tables.length ·) { r with tables := r.tables ++ [t] }

/-- Adds a table that has a rule for every kind. -/
def register (r : Registry) (t : RuleTable) (aliases : List String) : Except Error Registry := do
  t.validate
  return r.add t aliases

/-- The table of a name. -/
def get (r : Registry) (name : String) : Except Error RuleTable :=
  match (r.place? name).bind (r.tables[·]?) with
  | some t => .ok t
  | none => .error (.unknownFormat name)

def supports (r : Registry) (name : String) : Bool := (r.place? name).isSome

/-- The tables' own keys, in the order of their places. -/
def keys (r : Registry) : List String := r.tables.map RuleTable.key

def render (r : Registry) (name : String) (files : Manifest) (tree : Tree) :
    Except Error String := do
  let t ← r.get name
  t.render files tree

/-- The three formats. -/
def standard : Registry :=
  ((empty.add Markdown.table ["markdown"]).add Html.table []).add PlainText.table ["text"]

end Registry

end RichText
