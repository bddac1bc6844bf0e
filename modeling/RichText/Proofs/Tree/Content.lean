import RichText.Proofs.Tree.Reading

/-!
The text of documents and of trees. The text of the tree of a document, read in preorder, is the
text of the document, so nothing is lost, repeated or moved when the tree is made.
-/
namespace RichText

/-- The text of the run of an element, if it has one. -/
def ParagraphElement.text (e : ParagraphElement) : List Char :=
  e.textRun.elim [] fun run => run.content.toList

/-- The text of all runs, by their offsets. -/
def Paragraph.text (p : Paragraph) : List Char :=
  p.sortedElements.flatMap ParagraphElement.text

/-- The text of all paragraphs in document order. -/
def Document.text (d : Document) : List Char := d.paragraphs.flatMap Paragraph.text

/-- Where the elements stand in the order of their offsets, they are taken as they stand. -/
theorem Paragraph.sortedElements_eq_of_pairwise {p : Paragraph}
    (h : p.elements.Pairwise fun a b => a.startIndex ≤ b.startIndex) :
    p.sortedElements = p.elements :=
  List.mergeSort_of_pairwise (by simpa using h)

theorem Document.text_eq_of_pairwise {d : Document}
    (h : ∀ p ∈ d.paragraphs, p.elements.Pairwise fun a b => a.startIndex ≤ b.startIndex) :
    d.text = d.paragraphs.flatMap fun p => p.elements.flatMap ParagraphElement.text := by
  have hsorted (p : Paragraph) (hp : p ∈ d.paragraphs) :
      p.text = p.elements.flatMap ParagraphElement.text := by
    rw [Paragraph.text, Paragraph.sortedElements_eq_of_pairwise (h p hp)]
  rw [text, List.flatMap_congr hsorted]

/-- The contents of all nodes in preorder. -/
def Tree.text (t : Tree) : List Char := t.read fun s => s.data.content.toList

def Inline.content : Inline → List Char
  | .text _ _ _ content => content.toList
  | .image _ => []

/-- The text of a block that is not a table. -/
def Block.text : Block → List Char
  | .paragraph is | .heading _ is => is.flatMap Inline.content
  | .code content => content.toList
  | .item i => i.inlines.flatMap Inline.content
  | .table _ => []

theorem Paragraph.text_inlines (p : Paragraph) : p.inlines.flatMap Inline.content = p.text := by
  rw [inlines, text]
  induction p.sortedElements with
  | nil => rfl
  | cons e es ih =>
    rw [List.flatMap_cons, ← ih, List.filterMap_cons]
    cases hr : e.textRun with
    | none =>
      cases ho : e.object <;>
        simp [Inline.ofElement?, hr, ho, Inline.content, ParagraphElement.text]
    | some run =>
      by_cases hc : run.content = "" <;>
        simp [Inline.ofElement?, hr, hc, Inline.content, ParagraphElement.text]

theorem ParagraphElement.toList_join_contents (es : List ParagraphElement) :
    (String.join (es.filterMap fun e => e.textRun.map TextRun.content)).toList =
      es.flatMap text := by
  rw [String.toList_join]
  induction es with
  | nil => rfl
  | cons e es ih =>
    rw [List.flatMap_cons, ← ih, List.filterMap_cons]
    cases hr : e.textRun <;> simp [text, hr]

theorem Paragraph.toList_sortedText (p : Paragraph) : p.sortedText.toList = p.text :=
  ParagraphElement.toList_join_contents p.sortedElements

theorem Paragraph.toList_plainText (p : Paragraph) :
    p.plainText.toList = p.elements.flatMap ParagraphElement.text :=
  ParagraphElement.toList_join_contents p.elements

namespace Block
variable {o : Options} {lists : Catalog ListStyle}

theorem text_ofParagraph {seen seen' : List Bullet} {p : Paragraph} {b : Block}
    (h : ofParagraph o lists seen p = .ok (b, seen')) : b.text = p.text := by
  obtain ⟨u, ordered, -, -, -, rfl⟩ | ⟨-, -, ⟨-, rfl⟩ | ⟨-, -, rfl⟩ | ⟨-, -, rfl⟩⟩ :=
    ofParagraph_cases h
  · exact p.text_inlines
  · exact p.text_inlines
  · exact p.toList_sortedText
  · exact p.text_inlines

theorem text_ofParagraphs {seen seen' : List Bullet} {ps : List Paragraph} {bs : List Block}
    (h : ofParagraphs o lists seen ps = .ok (bs, seen')) :
    bs.flatMap text = ps.flatMap Paragraph.text := by
  induction ps generalizing seen bs with
  | nil =>
    cases h
    rfl
  | cons p ps ih =>
    obtain ⟨b, seen₁, cs, hp, hps, rfl⟩ := ofParagraphs_cons_ok h
    rw [List.flatMap_cons, List.flatMap_cons, text_ofParagraph hp, ih hps]

end Block

namespace Tree

theorem text_node (i : Nat) (d : Node) (ts : List Tree) :
    (node i d ts).text = d.content.toList ++ ts.flatMap text := by
  rw [text, read_node]
  rfl

theorem text_inline (id : Nat) (i : Inline) : (i.tree id).text = i.content := by
  cases i with
  | text bold italic url content =>
    cases bold <;> cases italic <;> cases url <;>
      simp [Inline.tree, Inline.spans, chain, text_node, Inline.content]
  | image objectId => simp [Inline.tree, text_node, Inline.content]

theorem text_inlines (id : Nat) (is : List Inline) :
    (Inline.trees id is).flatMap text = is.flatMap Inline.content := by
  induction is generalizing id with
  | nil => rfl
  | cons i is ih => rw [Inline.trees, List.flatMap_cons, text_inline, ih, List.flatMap_cons]

theorem text_line (id : Nat) (d : Node) (is : List Inline) (hd : d.content = "") :
    (node id d (Inline.trees (id + 1) is)).text = is.flatMap Inline.content := by
  rw [text_node, hd, text_inlines]
  rfl

theorem reads_text : Reads (fun t : Tree => t.data.content.toList) Block.text where
  holder _ _ _ _ _ := rfl
  blind _ _ _ _ _ := rfl
  paragraph id is := text_line id _ is rfl
  heading id level is := text_line id _ is rfl
  code id content := by simp [Block.text]
  join id d content _ := by simp [Block.text]
  item id i := text_line id _ i.inlines rfl

end Tree

/-- The text of the tree of a document is the text of the document. -/
theorem Document.text_tree {d : Document} {o : Options} {t : Tree} (h : d.tree o = .ok t) :
    t.text = d.text := by
  obtain ⟨bs, hbs, rfl⟩ := tree_eq_ok h
  obtain ⟨seen, hps⟩ := leaves_blocks hbs
  rw [Tree.text, Tree.reads_text.ofBlocks, Block.text_ofParagraphs hps, text]

end RichText
