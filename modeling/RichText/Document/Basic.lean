import RichText.Catalog

/-!
The source document: a body of paragraphs and tables, and a catalog of list styles. Offsets need
not be in order, and counts and offsets are taken as they are declared.
-/
namespace RichText

/-- The named styles of paragraphs. -/
inductive NamedStyle where
  | normalText | title | subtitle
  | heading1 | heading2 | heading3 | heading4 | heading5 | heading6
  | unspecified
  deriving DecidableEq, Repr

/-- The bullet and numbering schemes of a list level. -/
inductive Glyph where
  | unspecified | none | decimal | zeroDecimal | upperAlpha | alpha | upperRoman | roman | other
  deriving DecidableEq, Repr

/-- A link target. A link inside the document has no address. -/
structure Link where
  url : Option String := none
  deriving DecidableEq, Repr

structure Font where
  family : String := ""
  weight : UInt32 := 0
  deriving DecidableEq, Repr

structure TextStyle where
  bold : Bool := false
  italic : Bool := false
  link : Option Link := none
  font : Option Font := none
  deriving DecidableEq, Repr

/-- Text in one style. -/
structure TextRun where
  content : String := ""
  style : TextStyle := {}
  deriving DecidableEq, Repr

/-- An embedded object, by its name in the manifest. -/
structure InlineObject where
  id : String := ""
  deriving DecidableEq, Repr

/-- A part of a paragraph: text, an object, both or neither. -/
structure ParagraphElement where
  startIndex : Int64 := 0
  endIndex : Int64 := 0
  textRun : Option TextRun := none
  object : Option InlineObject := none
  deriving DecidableEq

/-- Membership of a list, at a level counted from zero. -/
structure Bullet where
  listId : String := ""
  level : UInt32 := 0
  deriving DecidableEq, Repr

structure Paragraph where
  elements : List ParagraphElement := []
  style : NamedStyle := .normalText
  bullet : Option Bullet := none
  deriving DecidableEq

/-- Rows of cells, each cell a list of `α`, beside the declared counts. -/
structure Table (α : Type) where
  rows : UInt32 := 0
  columns : UInt32 := 0
  cells : List (List (List α)) := []

/-- A part of a body or of a table cell: a paragraph, a table, both or neither. -/
inductive Element where
  | mk (startIndex endIndex : Int64) (paragraph : Option Paragraph) (table : Option (Table Element))

/-- The glyphs of a list's levels, the outermost first. -/
structure ListStyle where
  levels : List (Option Glyph) := []
  deriving DecidableEq, Repr

structure Document where
  id : Option String := none
  title : Option String := none
  body : List Element := []
  lists : Catalog ListStyle := .empty

namespace NamedStyle

def all : List NamedStyle :=
  [.normalText, .title, .subtitle, .heading1, .heading2, .heading3, .heading4, .heading5, .heading6,
   .unspecified]

def name : NamedStyle → String
  | normalText => "NORMAL_TEXT"
  | title => "TITLE"
  | subtitle => "SUBTITLE"
  | heading1 => "HEADING_1"
  | heading2 => "HEADING_2"
  | heading3 => "HEADING_3"
  | heading4 => "HEADING_4"
  | heading5 => "HEADING_5"
  | heading6 => "HEADING_6"
  | unspecified => "NAMED_STYLE_TYPE_UNSPECIFIED"

/-- The style of a name, with one style for all other names. -/
def ofName (s : String) : NamedStyle := (all.find? (·.name = s)).getD .unspecified

@[simp] theorem ofName_name (s : NamedStyle) : ofName s.name = s := by cases s <;> rfl

/-- The level of a heading style, and zero for the other styles. -/
def headingLevel : NamedStyle → Nat
  | heading1 => 1
  | heading2 => 2
  | heading3 => 3
  | heading4 => 4
  | heading5 => 5
  | heading6 => 6
  | _ => 0

/-- The heading style of a level from one to six. -/
def heading : Nat → NamedStyle
  | 1 => heading1
  | 2 => heading2
  | 3 => heading3
  | 4 => heading4
  | 5 => heading5
  | 6 => heading6
  | _ => normalText

end NamedStyle

namespace Glyph

def all : List Glyph :=
  [.unspecified, .none, .decimal, .zeroDecimal, .upperAlpha, .alpha, .upperRoman, .roman, .other]

def name : Glyph → String
  | unspecified => "GLYPH_TYPE_UNSPECIFIED"
  | none => "NONE"
  | decimal => "DECIMAL"
  | zeroDecimal => "ZERO_DECIMAL"
  | upperAlpha => "UPPER_ALPHA"
  | alpha => "ALPHA"
  | upperRoman => "UPPER_ROMAN"
  | roman => "ROMAN"
  | other => "OTHER"

/-- The glyph of a name, with one glyph for all other names. -/
def ofName (s : String) : Glyph := (all.find? (·.name = s)).getD .other

@[simp] theorem ofName_name (g : Glyph) : ofName g.name = g := by cases g <;> rfl

/-- Whether the glyph counts the items. -/
def isNumeric : Glyph → Bool
  | decimal | zeroDecimal | upperAlpha | alpha | upperRoman | roman => true
  | _ => false

end Glyph

namespace ListStyle

/-- Whether items of a level are numbered, if the level is defined. -/
def isOrdered? (style : ListStyle) (level : UInt32) : Option Bool :=
  style.levels[level.toNat]?.map fun glyph => glyph.any Glyph.isNumeric

end ListStyle

namespace TextRun

def fontFamily? (run : TextRun) : Option String := run.style.font.map Font.family

/-- The address the run links to. -/
def url? (run : TextRun) : Option String := run.style.link.bind Link.url

end TextRun

namespace Paragraph

/-- The text of all runs, in the order of the elements. -/
def plainText (p : Paragraph) : String :=
  String.join (p.elements.filterMap fun e => e.textRun.map TextRun.content)

/-- The elements by their offsets, those of equal offset in their given order. -/
def sortedElements (p : Paragraph) : List ParagraphElement :=
  p.elements.mergeSort fun a b => a.startIndex ≤ b.startIndex

end Paragraph

namespace Element

def paragraph? : Element → Option Paragraph
  | mk _ _ p _ => p

def table? : Element → Option (Table Element)
  | mk _ _ _ t => t

def ofParagraph (p : Paragraph) : Element := mk 0 0 (some p) none

def ofTable (t : Table Element) : Element := mk 0 0 none (some t)

end Element

end RichText
