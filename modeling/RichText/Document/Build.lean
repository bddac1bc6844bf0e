import RichText.Document.Basic

/-!
Building documents. A new element of a paragraph begins where the last one ends, a run is as long
as it has characters, and an object has length one.
-/
namespace RichText

namespace TextRun

def ofText (content : String) : TextRun := { content }

def inFont (content family : String) : TextRun :=
  { content, style := { font := some ⟨family, 400⟩ } }

def withBold (r : TextRun) : TextRun := { r with style := { r.style with bold := true } }

def withItalic (r : TextRun) : TextRun := { r with style := { r.style with italic := true } }

def withLink (r : TextRun) (url : String) : TextRun :=
  { r with style := { r.style with link := some ⟨some url⟩ } }

end TextRun

namespace Paragraph

/-- Where the next element begins. -/
def endIndex (p : Paragraph) : Int64 := (p.elements.getLast?.map (·.endIndex)).getD 0

def addRun (p : Paragraph) (run : TextRun) : Paragraph :=
  let e : ParagraphElement :=
    { startIndex := p.endIndex, endIndex := p.endIndex + .ofNat run.content.length,
      textRun := some run }
  { p with elements := p.elements ++ [e] }

def addObject (p : Paragraph) (id : String) : Paragraph :=
  let e : ParagraphElement :=
    { startIndex := p.endIndex, endIndex := p.endIndex + 1, object := some ⟨id⟩ }
  { p with elements := p.elements ++ [e] }

def ofText (text : String) : Paragraph := addRun {} (.ofText text)

def heading (text : String) (level : Nat) : Paragraph :=
  { ofText text with style := .heading level }

def bulleted (listId : String) (level : UInt32) (text : String) : Paragraph :=
  { ofText text with bullet := some ⟨listId, level⟩ }

end Paragraph

namespace ListStyle

/-- A list whose levels all have one glyph. -/
def uniform (glyph : Glyph) (levels : Nat) : ListStyle := ⟨List.replicate levels (some glyph)⟩

def bulleted : ListStyle := uniform .unspecified 9

def numbered : ListStyle := uniform .decimal 9

end ListStyle

namespace Table

/-- Adds a row. The table declares as many rows as it has, and as many columns as its widest row. -/
def addRow {α : Type} (t : Table α) (row : List (List α)) : Table α :=
  { rows := .ofNat (t.cells.length + 1), columns := max t.columns (.ofNat row.length),
    cells := t.cells ++ [row] }

end Table

/-- A table cell with one paragraph of plain text. -/
def Element.cellOfText (text : String) : List Element := [ofParagraph (.ofText text)]

namespace Document

def add (d : Document) (e : Element) : Document := { d with body := d.body ++ [e] }

def addParagraph (d : Document) (p : Paragraph) : Document := d.add (.ofParagraph p)

def addTable (d : Document) (t : Table Element) : Document := d.add (.ofTable t)

def addList (d : Document) (id : String) (style : ListStyle) : Document :=
  { d with lists := d.lists.insert id style }

def withTitle (d : Document) (title : String) : Document := { d with title := some title }

end Document

end RichText
