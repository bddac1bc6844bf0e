import RichText.Document.Basic
import RichText.Json.Printer

/-!
Encoding documents: every member of every structure is written, in one fixed order.
-/
namespace RichText

open Json Json.Value

def Link.encode (l : Link) : Value := record [("url", ofOption text l.url)]

def Font.encode (f : Font) : Value :=
  record [("fontFamily", text f.family), ("weight", ofNat f.weight.toNat)]

def TextStyle.encode (s : TextStyle) : Value :=
  record [("bold", .bool s.bold), ("italic", .bool s.italic), ("link", ofOption Link.encode s.link),
    ("weightedFontFamily", ofOption Font.encode s.font)]

def TextRun.encode (r : TextRun) : Value :=
  record [("content", text r.content), ("textStyle", r.style.encode)]

def InlineObject.encode (o : InlineObject) : Value := record [("inlineObjectId", text o.id)]

def ParagraphElement.encode (e : ParagraphElement) : Value :=
  record [("startIndex", ofInt e.startIndex.toInt), ("endIndex", ofInt e.endIndex.toInt),
    ("textRun", ofOption TextRun.encode e.textRun),
    ("inlineObjectElement", ofOption InlineObject.encode e.object)]

def Bullet.encode (b : Bullet) : Value :=
  record [("listId", text b.listId), ("nestingLevel", ofNat b.level.toNat)]

def Paragraph.encode (p : Paragraph) : Value :=
  record [("elements", .array (p.elements.map ParagraphElement.encode)),
    ("paragraphStyle", record [("namedStyleType", text p.style.name)]),
    ("bullet", ofOption Bullet.encode p.bullet)]

namespace Element

mutual
def encode : Element → Value
  | mk startIndex endIndex paragraph none =>
    record [("startIndex", ofInt startIndex.toInt), ("endIndex", ofInt endIndex.toInt),
      ("paragraph", ofOption Paragraph.encode paragraph), ("table", .null)]
  | mk startIndex endIndex paragraph (some ⟨rows, columns, cells⟩) =>
    record [("startIndex", ofInt startIndex.toInt), ("endIndex", ofInt endIndex.toInt),
      ("paragraph", ofOption Paragraph.encode paragraph),
      ("table", record [("rows", ofNat rows.toNat), ("columns", ofNat columns.toNat),
        ("tableRows", .array (encodeRows cells))])]
def encodeRows : List (List (List Element)) → List Value
  | [] => []
  | row :: rows => record [("tableCells", .array (encodeCells row))] :: encodeRows rows
def encodeCells : List (List Element) → List Value
  | [] => []
  | cell :: cells => record [("content", .array (encodeList cell))] :: encodeCells cells
def encodeList : List Element → List Value
  | [] => []
  | e :: es => encode e :: encodeList es
end

end Element

def ListStyle.encode (l : ListStyle) : Value :=
  record [("listProperties", record [("nestingLevels",
    .array (l.levels.map fun glyph => record [("glyphType", ofOption (text ∘ Glyph.name) glyph)]))])]

namespace Document

def encode (d : Document) : Value :=
  record [("documentId", ofOption text d.id), ("title", ofOption text d.title),
    ("body", record [("content", .array (Element.encodeList d.body))]),
    ("lists", record (d.lists.entries.map fun (id, style) => (id, style.encode)))]

end Document

end RichText
