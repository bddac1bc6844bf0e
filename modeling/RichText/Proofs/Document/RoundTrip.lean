import RichText.Document.Build
import RichText.Document.Decode
import RichText.Document.Encode
import RichText.Proofs.Document.Catalogs
import RichText.Proofs.Json.Decoding

/-!
Reading documents back from JSON. Each structure is decoded from its encoding if there is room for
the containers in it. An element needs room for seven of them, and for seven more with every table
that stands inside another, so the room of a text is enough for tables nested sixteen deep.
-/
namespace RichText

open Json Json.Value

@[simp] theorem Link.legible_encode (l : Link) : l.encode.legible := by simp [encode]

@[simp] theorem Font.legible_encode (f : Font) : f.encode.legible := by simp [encode]

@[simp] theorem TextStyle.legible_encode (s : TextStyle) : s.encode.legible := by
  simp [encode, legible]

@[simp] theorem TextRun.legible_encode (r : TextRun) : r.encode.legible := by simp [encode]

@[simp] theorem InlineObject.legible_encode (o : InlineObject) : o.encode.legible := by
  simp [encode]

@[simp] theorem ParagraphElement.legible_encode (e : ParagraphElement) : e.encode.legible := by
  simp [encode]

@[simp] theorem Bullet.legible_encode (b : Bullet) : b.encode.legible := by simp [encode]

@[simp] theorem Paragraph.legible_encode (p : Paragraph) : p.encode.legible := by simp [encode]

@[simp] theorem ListStyle.legible_encode (l : ListStyle) : l.encode.legible := by simp [encode]

namespace Element

mutual
theorem legible_encode : ∀ e : Element, e.encode.legible
  | mk _ _ _ none => by simp [encode, legible]
  | mk _ _ _ (some ⟨_, _, rows⟩) => by simpa [encode] using legible_encodeRows rows
theorem legible_encodeRows : ∀ rows : List (List (List Element)), ∀ v ∈ encodeRows rows, v.legible
  | [] => by simp [encodeRows]
  | row :: rows => by simpa [encodeRows] using ⟨legible_encodeCells row, legible_encodeRows rows⟩
theorem legible_encodeCells : ∀ cells : List (List Element), ∀ v ∈ encodeCells cells, v.legible
  | [] => by simp [encodeCells]
  | cell :: cells => by
    simpa [encodeCells] using ⟨legible_encodeList cell, legible_encodeCells cells⟩
theorem legible_encodeList : ∀ es : List Element, ∀ v ∈ encodeList es, v.legible
  | [] => by simp [encodeList]
  | e :: es => by simpa [encodeList] using ⟨legible_encode e, legible_encodeList es⟩
end

end Element

theorem Document.encode_eq (d : Document) : d.encode =
    record [("documentId", ofOption text d.id), ("title", ofOption text d.title),
      ("body", record [("content", .array (Element.encodeList d.body))]),
      ("lists", record (d.lists.entries.map fun e => (e.1, e.2.encode)))] := rfl

theorem Document.legible_encode (d : Document) : d.encode.legible := by
  have hlists : (record (d.lists.entries.map fun e => (e.1, e.2.encode))).legible := by
    rw [legible_record, List.forall_mem_map]
    exact fun e _ => e.2.legible_encode
  simpa [encode_eq, hlists] using Element.legible_encodeList d.body

theorem NamedStyle.decode_name (s : NamedStyle) (room : Nat) :
    NamedStyle.decode room (text s.name) = some s := by
  cases room <;> simp [NamedStyle.decode, Decoder.choice, text]

theorem Glyph.decode_name (g : Glyph) (room : Nat) :
    Glyph.decode room (text g.name) = some g := by
  cases room <;> simp [Glyph.decode, Decoder.choice, text]

theorem Link.decode_encode (l : Link) (room : Nat) : Link.decode (room + 1) l.encode = some l := by
  refine (Decoder.record_record (by rfl) (by decide) _ _).trans ?_
  simp

theorem Font.decode_encode (f : Font) (room : Nat) : Font.decode (room + 1) f.encode = some f := by
  refine (Decoder.record_record (by rfl) (by decide) _ _).trans ?_
  simp [text?, text]

theorem TextStyle.decode_encode (s : TextStyle) (room : Nat) :
    TextStyle.decode (room + 2) s.encode = some s := by
  have hlink : nullable? (Link.decode (room + 1)) (ofOption Link.encode s.link) = some s.link :=
    nullable?_ofOption (Link.decode_encode · room) (by simp [Link.encode, record]) s.link
  have hfont : nullable? (Font.decode (room + 1)) (ofOption Font.encode s.font) = some s.font :=
    nullable?_ofOption (Font.decode_encode · room) (by simp [Font.encode, record]) s.font
  refine (Decoder.record_record (by rfl) (by decide) _ _).trans ?_
  simp [bool?, hlink, hfont]

theorem TextRun.decode_encode (r : TextRun) (room : Nat) :
    TextRun.decode (room + 3) r.encode = some r := by
  refine (Decoder.record_record (by rfl) (by decide) _ _).trans ?_
  simp [text?, text, TextStyle.decode_encode]

theorem InlineObject.decode_encode (o : InlineObject) (room : Nat) :
    InlineObject.decode (room + 1) o.encode = some o := by
  refine (Decoder.record_record (by rfl) (by decide) _ _).trans ?_
  simp [text?, text]

theorem ParagraphElement.decode_encode (e : ParagraphElement) (room : Nat) :
    ParagraphElement.decode (room + 4) e.encode = some e := by
  have hrun : nullable? (TextRun.decode (room + 3)) (ofOption TextRun.encode e.textRun) =
      some e.textRun :=
    nullable?_ofOption (TextRun.decode_encode · room) (by simp [TextRun.encode, record]) e.textRun
  have hobject : nullable? (InlineObject.decode (room + 3))
      (ofOption InlineObject.encode e.object) = some e.object :=
    nullable?_ofOption (InlineObject.decode_encode · (room + 2))
      (by simp [InlineObject.encode, record]) e.object
  refine (Decoder.record_record (by rfl) (by decide) _ _).trans ?_
  simp [hrun, hobject]

theorem Bullet.decode_encode (b : Bullet) (room : Nat) :
    Bullet.decode (room + 1) b.encode = some b := by
  refine (Decoder.record_record (by rfl) (by decide) _ _).trans ?_
  simp [text?, text]

theorem NamedStyle.decodeParagraphStyle_record (s : NamedStyle) (room : Nat) :
    NamedStyle.decodeParagraphStyle (room + 1) (record [("namedStyleType", text s.name)]) =
      some s := by
  refine (Decoder.record_record (by rfl) (by decide) _ _).trans ?_
  simp [NamedStyle.decode_name]

theorem Paragraph.decode_encode (p : Paragraph) (room : Nat) :
    Paragraph.decode (room + 6) p.encode = some p := by
  have helements : Decoder.list ParagraphElement.decode (room + 5)
      (.array (p.elements.map ParagraphElement.encode)) = some p.elements :=
    Decoder.list_array fun e _ => ParagraphElement.decode_encode e room
  have hbullet : nullable? (Bullet.decode (room + 5)) (ofOption Bullet.encode p.bullet) =
      some p.bullet :=
    nullable?_ofOption (Bullet.decode_encode · (room + 4)) (by simp [Bullet.encode, record])
      p.bullet
  refine (Decoder.record_record (by rfl) (by decide) _ _).trans ?_
  simp [helements, hbullet, NamedStyle.decodeParagraphStyle_record]

theorem Glyph.decodeLevel_record (g : Option Glyph) (room : Nat) :
    Glyph.decodeLevel (room + 1) (record [("glyphType", ofOption (text ∘ Glyph.name) g)]) =
      some g := by
  have hglyph := nullable?_ofOption (f := text ∘ Glyph.name) (Glyph.decode_name · room)
    (by simp [text]) g
  refine (Decoder.record_record (by rfl) (by decide) _ _).trans ?_
  simp [hglyph]

theorem ListStyle.decode_encode (l : ListStyle) (room : Nat) :
    ListStyle.decode (room + 4) l.encode = some l := by
  have hlevels : Decoder.list Glyph.decodeLevel (room + 2) (.array (l.levels.map fun glyph =>
      record [("glyphType", ofOption (text ∘ Glyph.name) glyph)])) = some l.levels :=
    Decoder.list_array fun g _ => Glyph.decodeLevel_record g room
  refine (Decoder.record_record (by rfl) (by decide) _ _).trans ?_
  rw [field_cons, if_pos rfl, Decoder.record_record (by rfl) (by decide)]
  simp [hlevels]

namespace Element

mutual
/-- How many tables stand inside each other in an element. -/
def tableDepth : Element → Nat
  | mk _ _ _ none => 0
  | mk _ _ _ (some ⟨_, _, rows⟩) => tableDepthOfRows rows + 1
def tableDepthOfRows : List (List (List Element)) → Nat
  | [] => 0
  | row :: rows => max (tableDepthOfCells row) (tableDepthOfRows rows)
def tableDepthOfCells : List (List Element) → Nat
  | [] => 0
  | cell :: cells => max (tableDepthOfAll cell) (tableDepthOfCells cells)
def tableDepthOfAll : List Element → Nat
  | [] => 0
  | e :: es => max (tableDepth e) (tableDepthOfAll es)
end

theorem nullable?_paragraph (p : Option Paragraph) (room : Nat) :
    nullable? (Paragraph.decode (room + 6)) (ofOption Paragraph.encode p) = some p :=
  nullable?_ofOption (Paragraph.decode_encode · room) (by simp [Paragraph.encode, record]) p

theorem decode_encode_of_none (startIndex endIndex : Int64) (p : Option Paragraph) (room : Nat) :
    decode (room + 7) (mk startIndex endIndex p none).encode =
      some (mk startIndex endIndex p none) := by
  rw [encode, decode, members?_record (by rfl) (by decide)]
  simp [nullable?_paragraph]

theorem decodeTable_record {rows columns : UInt32} {cells : List (List (List Element))}
    {room : Nat} (h : (encodeRows cells).mapM (decodeRow (room + 4)) = some cells) :
    decodeTable (room + 6) (record [("rows", ofNat rows.toNat), ("columns", ofNat columns.toNat),
      ("tableRows", .array (encodeRows cells))]) = some ⟨rows, columns, cells⟩ := by
  rw [decodeTable, members?_record (by rfl) (by decide), Option.bind_eq_bind, Option.bind_some]
  simp [decodeRows, items?, h]

theorem decode_encode_of_some (startIndex endIndex : Int64) (p : Option Paragraph)
    {rows columns : UInt32} {cells : List (List (List Element))} {room : Nat}
    (h : (encodeRows cells).mapM (decodeRow (room + 4)) = some cells) :
    decode (room + 7) (mk startIndex endIndex p (some ⟨rows, columns, cells⟩)).encode =
      some (mk startIndex endIndex p (some ⟨rows, columns, cells⟩)) := by
  have htable : nullable? (decodeTable (room + 6)) (record [("rows", ofNat rows.toNat),
      ("columns", ofNat columns.toNat), ("tableRows", .array (encodeRows cells))]) =
        some (some ⟨rows, columns, cells⟩) := by
    rw [nullable?, decodeTable_record h]
    · rfl
    · simp [record]
  rw [encode, decode, members?_record (by rfl) (by decide)]
  simp [nullable?_paragraph, htable]

mutual
/-- An element is decoded where there is room for its tables and a paragraph in the innermost. -/
theorem decode_encode : ∀ (e : Element) (room : Nat), 7 * e.tableDepth ≤ room →
    decode (room + 7) e.encode = some e
  | mk startIndex endIndex p none, room, _ => decode_encode_of_none startIndex endIndex p room
  | mk startIndex endIndex p (some ⟨rows, columns, cells⟩), room, h => by
    rw [tableDepth] at h
    obtain ⟨inner, rfl⟩ : ∃ inner, room = inner + 7 := ⟨room - 7, by omega⟩
    exact decode_encode_of_some startIndex endIndex p (mapM_decodeRow cells inner (by omega))
theorem mapM_decodeRow : ∀ (rows : List (List (List Element))) (room : Nat),
    7 * tableDepthOfRows rows ≤ room →
      (encodeRows rows).mapM (decodeRow (room + 11)) = some rows
  | [], _, _ => rfl
  | row :: rows, room, h => by
    rw [tableDepthOfRows] at h
    have hcells := mapM_decodeCell row room (by omega)
    have hrow : decodeRow (room + 11) (record [("tableCells", .array (encodeCells row))]) =
        some row := by
      rw [decodeRow, members?_record (by rfl) (by decide)]
      simp [decodeCells, items?, hcells]
    simp [encodeRows, hrow, mapM_decodeRow rows room (by omega)]
theorem mapM_decodeCell : ∀ (cells : List (List Element)) (room : Nat),
    7 * tableDepthOfCells cells ≤ room →
      (encodeCells cells).mapM (decodeCell (room + 9)) = some cells
  | [], _, _ => rfl
  | cell :: cells, room, h => by
    rw [tableDepthOfCells] at h
    have hcell := decodeCell_record cell room (by omega)
    simp [encodeCells, hcell, mapM_decodeCell cells room (by omega)]
theorem decodeCell_record : ∀ (es : List Element) (room : Nat), 7 * tableDepthOfAll es ≤ room →
    decodeCell (room + 9) (record [("content", .array (encodeList es))]) = some es
  | es, room, h => by
    have hes := mapM_decode es room h
    rw [decodeCell, members?_record (by rfl) (by decide)]
    simp [decodeList, items?, hes]
theorem mapM_decode : ∀ (es : List Element) (room : Nat), 7 * tableDepthOfAll es ≤ room →
    (encodeList es).mapM (decode (room + 7)) = some es
  | [], _, _ => rfl
  | e :: es, room, h => by
    rw [tableDepthOfAll] at h
    simp [encodeList, decode_encode e room (by omega), mapM_decode es room (by omega)]
end

end Element

namespace Document

/-- How many tables stand inside each other in a document. -/
def tableDepth (d : Document) : Nat := Element.tableDepthOfAll d.body

theorem decode_encode {d : Document} (h : d.tableDepth ≤ 16) :
    decode maxDepth d.encode = some d := by
  have hbody : Element.decodeCell (117 + 9)
      (record [("content", .array (Element.encodeList d.body))]) = some d.body :=
    Element.decodeCell_record d.body 117 (by rw [tableDepth] at h; omega)
  have hlists : Catalog.decode ListStyle.decode (125 + 1)
      (record (d.lists.entries.map fun e => (e.1, e.2.encode))) = some d.lists := by
    rw [Catalog.decode_record (ListStyle.decode_encode · 121), Catalog.ofList_entries]
  rw [encode_eq]
  refine (Decoder.record_record (by rfl) (by decide) _ _).trans ?_
  simp [hbody, hlists]

/-- A document is read back from the JSON text of it, in either layout. -/
theorem ofJson?_encode {d : Document} (h : d.tableDepth ≤ 16) :
    ofJson? d.encode.compact = some d ∧ ofJson? d.encode.pretty = some d := by
  have hdecode := decode_encode h
  constructor
  · rw [ofJson?, ofString?_compact d.legible_encode, Option.bind_some, hdecode]
  · rw [ofJson?, ofString?_pretty d.legible_encode, Option.bind_some, hdecode]

/-- Options absent beside options that hold nothing, the names that stand for all others, numbers at
their ends, and a table within a table. -/
def extreme : Document where
  title := some "\"\\\n\x01é"
  body := [
    .ofParagraph { elements := [
      { startIndex := Int64.minValue, endIndex := Int64.maxValue, textRun := some {} },
      { textRun := some { style := { link := some {}, font := some {} } } },
      { textRun := some { style := { link := some ⟨some ""⟩ } }, object := some {} }] },
    .mk 0 0 (some { style := .unspecified, bullet := some ⟨"a", 4294967295⟩ }) (some
      { rows := 4294967295, cells := [[], [[], [.ofTable { cells := [[[.mk 0 0 none none]]] }]]] })]
  lists := .ofList [("a", ⟨[none, some .none, some .other, some .unspecified]⟩), ("", {})]

theorem ofJson?_encode_extreme :
    ofJson? extreme.encode.compact = some extreme ∧ ofJson? extreme.encode.pretty = some extreme :=
  ofJson?_encode (by decide)

end Document

end RichText
