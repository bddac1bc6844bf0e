import RichText.Document.Decode

/-!
The shapes of a document. A part of it is a structure with named fields in a fixed order, and each
field has a shape and a value for when it is left out. All decoders of the document are one decoder,
which reads the fields of a part in their order.
-/
namespace RichText.Document

open Json Json.Value

/-- Values without fields. -/
inductive Leaf where
  | bool | uint32 | int64 | string | optionalString | namedStyle | optionalGlyph

/-- The structures. Table cells are bodies. -/
inductive Part where
  | document | body | element | table | row
  | paragraph | paragraphStyle | bullet | paragraphElement | inlineObject
  | textRun | textStyle | link | font
  | list | listProperties | nestingLevel

inductive Shape where
  | leaf (l : Leaf)
  | part (p : Part)
  | optional (p : Part)
  | array (p : Part)
  | catalog (p : Part)

abbrev Leaf.type : Leaf → Type
  | bool => Bool
  | uint32 => UInt32
  | int64 => Int64
  | string => String
  | optionalString => Option String
  | namedStyle => NamedStyle
  | optionalGlyph => Option Glyph

abbrev Part.type : Part → Type
  | document => Document
  | body => List Element
  | element => Element
  | table => Table Element
  | row => List (List Element)
  | paragraph => Paragraph
  | paragraphStyle => NamedStyle
  | bullet => Bullet
  | paragraphElement => ParagraphElement
  | inlineObject => InlineObject
  | textRun => TextRun
  | textStyle => TextStyle
  | link => Link
  | font => Font
  | list => ListStyle
  | listProperties => List (Option Glyph)
  | nestingLevel => Option Glyph

abbrev Shape.type : Shape → Type
  | leaf l => l.type
  | part p => p.type
  | optional p => Option p.type
  | array p => List p.type
  | catalog p => Catalog p.type

def Leaf.decode : (l : Leaf) → Decoder l.type
  | bool => fun _ => bool?
  | uint32 => fun _ => uint32?
  | int64 => fun _ => int64?
  | string => fun _ => text?
  | optionalString => fun _ => nullable? text?
  | namedStyle => NamedStyle.decode
  | optionalGlyph => fun room => nullable? (Glyph.decode room)

def Part.decode : (p : Part) → Decoder p.type
  | document => Document.decode
  | body => Element.decodeCell
  | element => Element.decode
  | table => Element.decodeTable
  | row => Element.decodeRow
  | paragraph => Paragraph.decode
  | paragraphStyle => NamedStyle.decodeParagraphStyle
  | bullet => Bullet.decode
  | paragraphElement => ParagraphElement.decode
  | inlineObject => InlineObject.decode
  | textRun => TextRun.decode
  | textStyle => TextStyle.decode
  | link => Link.decode
  | font => Font.decode
  | list => ListStyle.decode
  | listProperties => .record ["nestingLevels"] fun room ms =>
      field ms "nestingLevels" [] (Decoder.list Glyph.decodeLevel room)
  | nestingLevel => Glyph.decodeLevel

def Shape.decode : (s : Shape) → Decoder s.type
  | leaf l => l.decode
  | part p => p.decode
  | optional p => fun room => nullable? (p.decode room)
  | array p => Decoder.list p.decode
  | catalog p => Catalog.decode p.decode

structure Field where
  name : String
  shape : Shape
  /-- What is read where the field is left out. -/
  absent : shape.type

/-- The fields of a part, in the order in which they are declared. -/
def Part.fields : Part → List Field
  | document => [⟨"documentId", .leaf .optionalString, none⟩,
      ⟨"title", .leaf .optionalString, none⟩, ⟨"body", .part .body, []⟩,
      ⟨"lists", .catalog .list, .empty⟩]
  | body => [⟨"content", .array .element, []⟩]
  | element => [⟨"startIndex", .leaf .int64, (0 : Int64)⟩, ⟨"endIndex", .leaf .int64, (0 : Int64)⟩,
      ⟨"paragraph", .optional .paragraph, none⟩, ⟨"table", .optional .table, none⟩]
  | table => [⟨"rows", .leaf .uint32, (0 : UInt32)⟩, ⟨"columns", .leaf .uint32, (0 : UInt32)⟩,
      ⟨"tableRows", .array .row, []⟩]
  | row => [⟨"tableCells", .array .body, []⟩]
  | paragraph => [⟨"elements", .array .paragraphElement, []⟩,
      ⟨"paragraphStyle", .part .paragraphStyle, NamedStyle.normalText⟩,
      ⟨"bullet", .optional .bullet, none⟩]
  | paragraphStyle => [⟨"namedStyleType", .leaf .namedStyle, NamedStyle.normalText⟩]
  | bullet => [⟨"listId", .leaf .string, ""⟩, ⟨"nestingLevel", .leaf .uint32, (0 : UInt32)⟩]
  | paragraphElement => [⟨"startIndex", .leaf .int64, (0 : Int64)⟩,
      ⟨"endIndex", .leaf .int64, (0 : Int64)⟩, ⟨"textRun", .optional .textRun, none⟩,
      ⟨"inlineObjectElement", .optional .inlineObject, none⟩]
  | inlineObject => [⟨"inlineObjectId", .leaf .string, ""⟩]
  | textRun => [⟨"content", .leaf .string, ""⟩,
      ⟨"textStyle", .part .textStyle, ({} : TextStyle)⟩]
  | textStyle => [⟨"bold", .leaf .bool, false⟩, ⟨"italic", .leaf .bool, false⟩,
      ⟨"link", .optional .link, none⟩, ⟨"weightedFontFamily", .optional .font, none⟩]
  | link => [⟨"url", .leaf .optionalString, none⟩]
  | font => [⟨"fontFamily", .leaf .string, ""⟩, ⟨"weight", .leaf .uint32, (0 : UInt32)⟩]
  | list => [⟨"listProperties", .part .listProperties, []⟩]
  | listProperties => [⟨"nestingLevels", .array .nestingLevel, []⟩]
  | nestingLevel => [⟨"glyphType", .leaf .optionalGlyph, none⟩]

def Part.names (p : Part) : List String := p.fields.map Field.name

theorem Part.nodup_names (p : Part) : p.names.Nodup := by cases p <;> simp [names, fields]

/-- A value for each of the fields. -/
abbrev Values : List Field → Type
  | [] => Unit
  | f :: fs => f.shape.type × Values fs

/-- The part with these values in its fields. -/
def Part.make : (p : Part) → Values p.fields → p.type
  | document, (id, title, content, lists, ()) => Document.mk id title content lists
  | body, (content, ()) => content
  | element, (startIndex, endIndex, p, t, ()) => Element.mk startIndex endIndex p t
  | table, (rows, columns, cells, ()) => Table.mk rows columns cells
  | row, (cells, ()) => cells
  | paragraph, (elements, style, b, ()) => Paragraph.mk elements style b
  | paragraphStyle, (style, ()) => style
  | bullet, (listId, level, ()) => Bullet.mk listId level
  | paragraphElement, (startIndex, endIndex, run, o, ()) =>
      ParagraphElement.mk startIndex endIndex run o
  | inlineObject, (id, ()) => InlineObject.mk id
  | textRun, (content, style, ()) => TextRun.mk content style
  | textStyle, (bold, italic, l, f, ()) => TextStyle.mk bold italic l f
  | link, (url, ()) => Link.mk url
  | font, (family, weight, ()) => Font.mk family weight
  | list, (levels, ()) => ListStyle.mk levels
  | listProperties, (levels, ()) => levels
  | nestingLevel, (glyph, ()) => glyph

def Field.read (f : Field) (room : Nat) (ms : List (String × Value)) : Option f.shape.type :=
  field ms f.name f.absent (f.shape.decode room)

/-- Reads the fields one after the other. -/
def readFields {α : Type} (room : Nat) (ms : List (String × Value)) :
    (fs : List Field) → (Values fs → α) → Option α
  | [], make => some (make ())
  | f :: fs, make => (f.read room ms).bind fun x => readFields room ms fs fun xs => make (x, xs)

theorem decodeList_eq (room : Nat) :
    Element.decodeList room = Decoder.list Element.decode room := by
  cases room <;> funext v <;> simp [Element.decodeList, Decoder.list]

theorem decodeCells_eq (room : Nat) :
    Element.decodeCells room = Decoder.list Element.decodeCell room := by
  cases room <;> funext v <;> simp [Element.decodeCells, Decoder.list]

theorem decodeRows_eq (room : Nat) :
    Element.decodeRows room = Decoder.list Element.decodeRow room := by
  cases room <;> funext v <;> simp [Element.decodeRows, Decoder.list]

theorem Part.decode_zero (p : Part) (v : Value) : p.decode 0 v = none := by
  cases p with
  | body => rw [decode, Element.decodeCell]
  | element => rw [decode, Element.decode]
  | table => rw [decode, Element.decodeTable]
  | row => rw [decode, Element.decodeRow]
  | _ => rfl

/-- A part is decoded by its names and its fields. -/
theorem Part.decode_succ (p : Part) (room : Nat) (v : Value) :
    p.decode (room + 1) v =
      (v.members? p.names).bind fun ms => readFields room ms p.fields p.make := by
  cases p with
  | body =>
    rw [decode, Element.decodeCell, decodeList_eq]
    simp [names, fields, readFields, Field.read, Shape.decode, decode, make]
  | element =>
    rw [decode, Element.decode]
    rfl
  | table =>
    rw [decode, Element.decodeTable, decodeRows_eq]
    rfl
  | row =>
    rw [decode, Element.decodeRow, decodeCells_eq]
    simp [names, fields, readFields, Field.read, Shape.decode, decode, make]
  | paragraphStyle =>
    simp [decode, NamedStyle.decodeParagraphStyle, Decoder.record, names, fields, readFields,
      Field.read, Shape.decode, Leaf.decode, make]
  | listProperties =>
    simp [decode, Decoder.record, names, fields, readFields, Field.read, Shape.decode, make]
  | nestingLevel =>
    simp [decode, Glyph.decodeLevel, Decoder.record, names, fields, readFields, Field.read,
      Shape.decode, Leaf.decode, make]
  | _ => rfl

/-- All values are related to their fields. -/
def Values.All (P : (f : Field) → f.shape.type → Prop) : (fs : List Field) → Values fs → Prop
  | [], () => True
  | f :: fs, (x, xs) => P f x ∧ All P fs xs

namespace Values
variable {P Q : (f : Field) → f.shape.type → Prop} {fs : List Field} {xs : Values fs}

theorem All.imp (h : All P fs xs) (hPQ : ∀ f ∈ fs, ∀ x, P f x → Q f x) : All Q fs xs := by
  induction fs with
  | nil => trivial
  | cons f fs ih =>
    rw [List.forall_mem_cons] at hPQ
    exact ⟨hPQ.1 _ h.1, ih h.2 hPQ.2⟩

theorem All.exists_of_mem (h : All P fs xs) {f : Field} (hf : f ∈ fs) : ∃ x, P f x := by
  induction fs with
  | nil => cases hf
  | cons g fs ih =>
    rcases List.mem_cons.1 hf with rfl | hf
    · exact ⟨_, h.1⟩
    · exact ih h.2 hf

end Values

theorem readFields_eq_some_iff {α : Type} {room : Nat} {ms : List (String × Value)}
    {fs : List Field} {make : Values fs → α} {a : α} :
    readFields room ms fs make = some a ↔
      ∃ xs, Values.All (fun f x => f.read room ms = some x) fs xs ∧ make xs = a := by
  induction fs with
  | nil =>
    rw [readFields, Option.some_inj]
    exact ⟨fun h => ⟨(), trivial, h⟩, fun ⟨(), _, h⟩ => h⟩
  | cons f fs ih =>
    simp only [readFields, Option.bind_eq_some_iff, ih, Values.All]
    constructor
    · rintro ⟨x, hx, xs, hxs, rfl⟩
      exact ⟨(x, xs), ⟨hx, hxs⟩, rfl⟩
    · rintro ⟨⟨x, xs⟩, ⟨hx, hxs⟩, rfl⟩
      exact ⟨x, hx, xs, hxs, rfl⟩

end RichText.Document
