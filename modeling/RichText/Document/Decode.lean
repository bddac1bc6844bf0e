import RichText.Document.Basic
import RichText.Json.Decode
import RichText.Json.Reader

/-!
Decoding documents. Members may be left out, come in any order, and stand beside members of other
names; any structure may also be written as the array of its members.
-/
namespace RichText

open Json Json.Value

namespace NamedStyle

def decode : Decoder NamedStyle := .choice fun s => some (ofName s)

def decodeParagraphStyle : Decoder NamedStyle := .record ["namedStyleType"] fun room ms =>
  field ms "namedStyleType" .normalText (decode room)

end NamedStyle

namespace Glyph

def decode : Decoder Glyph := .choice fun s => some (ofName s)

def decodeLevel : Decoder (Option Glyph) := .record ["glyphType"] fun room ms =>
  field ms "glyphType" .none (nullable? (decode room))

end Glyph

def Link.decode : Decoder Link := .record ["url"] fun _ ms => do
  let url ← field ms "url" none (nullable? text?)
  return ⟨url⟩

def Font.decode : Decoder Font := .record ["fontFamily", "weight"] fun _ ms => do
  let family ← field ms "fontFamily" "" text?
  let weight ← field ms "weight" 0 uint32?
  return ⟨family, weight⟩

def TextStyle.decode : Decoder TextStyle :=
  .record ["bold", "italic", "link", "weightedFontFamily"] fun room ms => do
    let bold ← field ms "bold" false bool?
    let italic ← field ms "italic" false bool?
    let link ← field ms "link" none (nullable? (Link.decode room))
    let font ← field ms "weightedFontFamily" none (nullable? (Font.decode room))
    return ⟨bold, italic, link, font⟩

def TextRun.decode : Decoder TextRun := .record ["content", "textStyle"] fun room ms => do
  let content ← field ms "content" "" text?
  let style ← field ms "textStyle" {} (TextStyle.decode room)
  return ⟨content, style⟩

def InlineObject.decode : Decoder InlineObject := .record ["inlineObjectId"] fun _ ms => do
  let id ← field ms "inlineObjectId" "" text?
  return ⟨id⟩

def ParagraphElement.decode : Decoder ParagraphElement :=
  .record ["startIndex", "endIndex", "textRun", "inlineObjectElement"] fun room ms => do
    let startIndex ← field ms "startIndex" 0 int64?
    let endIndex ← field ms "endIndex" 0 int64?
    let textRun ← field ms "textRun" none (nullable? (TextRun.decode room))
    let object ← field ms "inlineObjectElement" none (nullable? (InlineObject.decode room))
    return ⟨startIndex, endIndex, textRun, object⟩

def Bullet.decode : Decoder Bullet := .record ["listId", "nestingLevel"] fun _ ms => do
  let listId ← field ms "listId" "" text?
  let level ← field ms "nestingLevel" 0 uint32?
  return ⟨listId, level⟩

def Paragraph.decode : Decoder Paragraph :=
  .record ["elements", "paragraphStyle", "bullet"] fun room ms => do
    let elements ← field ms "elements" [] (Decoder.list ParagraphElement.decode room)
    let style ← field ms "paragraphStyle" .normalText (NamedStyle.decodeParagraphStyle room)
    let bullet ← field ms "bullet" none (nullable? (Bullet.decode room))
    return ⟨elements, style, bullet⟩

namespace Element

mutual
def decode : Decoder Element
  | 0, _ => none
  | room + 1, v => do
    let ms ← v.members? ["startIndex", "endIndex", "paragraph", "table"]
    let startIndex ← field ms "startIndex" 0 int64?
    let endIndex ← field ms "endIndex" 0 int64?
    let paragraph ← field ms "paragraph" none (nullable? (Paragraph.decode room))
    let table ← field ms "table" none (nullable? (decodeTable room))
    return mk startIndex endIndex paragraph table
def decodeTable : Decoder (Table Element)
  | 0, _ => none
  | room + 1, v => do
    let ms ← v.members? ["rows", "columns", "tableRows"]
    let rows ← field ms "rows" 0 uint32?
    let columns ← field ms "columns" 0 uint32?
    let cells ← field ms "tableRows" [] (decodeRows room)
    return ⟨rows, columns, cells⟩
def decodeRows : Decoder (List (List (List Element)))
  | 0, _ => none
  | room + 1, v => v.items?.bind fun vs => vs.mapM (decodeRow room)
def decodeRow : Decoder (List (List Element))
  | 0, _ => none
  | room + 1, v => (v.members? ["tableCells"]).bind fun ms =>
    field ms "tableCells" [] (decodeCells room)
def decodeCells : Decoder (List (List Element))
  | 0, _ => none
  | room + 1, v => v.items?.bind fun vs => vs.mapM (decodeCell room)
def decodeCell : Decoder (List Element)
  | 0, _ => none
  | room + 1, v => (v.members? ["content"]).bind fun ms => field ms "content" [] (decodeList room)
def decodeList : Decoder (List Element)
  | 0, _ => none
  | room + 1, v => v.items?.bind fun vs => vs.mapM (decode room)
end

end Element

def ListStyle.decode : Decoder ListStyle := .record ["listProperties"] fun room ms => do
  let levels ← field ms "listProperties" []
    (Decoder.record ["nestingLevels"] (fun room ms =>
      field ms "nestingLevels" [] (Decoder.list Glyph.decodeLevel room)) room)
  return ⟨levels⟩

namespace Catalog

/-- Entries by their keys, of which the last of each name counts. -/
def decode {α : Type} (entry : Decoder α) : Decoder (Catalog α)
  | room + 1, .object ms =>
    (ms.mapM fun (m : Option String × Value) => do return (← m.1, ← entry room m.2)).map ofList
  | _, _ => none

end Catalog

namespace Document

def decode : Decoder Document := .record ["documentId", "title", "body", "lists"] fun room ms => do
  let id ← field ms "documentId" none (nullable? text?)
  let title ← field ms "title" none (nullable? text?)
  let body ← field ms "body" [] (Element.decodeCell room)
  let lists ← field ms "lists" .empty (Catalog.decode ListStyle.decode room)
  return ⟨id, title, body, lists⟩

/-- The document that a JSON text describes. -/
def ofJson? (s : String) : Option Document := (Value.ofString? s).bind (decode maxDepth)

end Document

end RichText
