import RichText.Document.Build
import RichText.Proofs.Tree.Reading

/-!
The lines of a tree: its paragraphs, headings and list items. In preorder they are the paragraphs
of the document that are not code, in document order, and from the nodes below a line one reads the
style, the address and the text of every run in it, and every embedded object.
-/
namespace RichText

/-- Whether nodes of the kind hold the pieces of a paragraph. -/
def Kind.isLine : Kind → Bool
  | .paragraph | .heading | .unorderedItem | .orderedItem => true
  | _ => false

theorem Kind.isLine_of_isItem {k : Kind} (h : k.isItem) : k.isLine := by
  cases k <;> simp_all [isItem, isLine]

namespace Tree

/-- The lines in preorder. -/
def lines (t : Tree) : List Tree := t.preorder.filter fun s => s.kind.isLine

/-- The only child of a node of that kind. -/
def only? (k : Kind) : Tree → Option Tree
  | node _ d [c] => if d.kind = k then some c else none
  | _ => none

/-- What a piece of a line shows: text, inside a link, inside italic, inside bold, as far as they
are there, or an image. -/
def inline? (t : Tree) : Option Inline :=
  let slanted := (t.only? .bold).getD t
  let linked := (slanted.only? .italic).getD slanted
  let last := (linked.only? .link).getD linked
  if last.kind = .plain ∧ last.children.isEmpty then
    let url := if linked.kind = .link then linked.data.url else none
    some (.text (t.kind = .bold) (slanted.kind = .italic) url last.data.content)
  else if t.kind = .image ∧ t.children.isEmpty then t.data.objectId.map .image
  else none

end Tree

namespace ParagraphElement

/-- Whether there is something to show: text that is not empty, or an object without a run. -/
def isShown (e : ParagraphElement) : Bool :=
  match e.textRun with
  | some run => run.content ≠ ""
  | none => e.object.isSome

/-- The tree shows the run of the element in its style, or its object if it has no run. -/
def IsPiece (e : ParagraphElement) (c : Tree) : Prop :=
  match e.textRun, e.object with
  | some run, _ =>
    c.inline? = some (.text run.style.bold run.style.italic run.url? run.content)
  | none, some object => c.inline? = some (.image object.id)
  | none, none => False

end ParagraphElement

namespace Paragraph

/-- Whether the paragraph is code: neither an item nor a heading, and in the font of code. -/
def isCode (o : Options) (p : Paragraph) : Bool :=
  p.bullet.isNone && p.style.headingLevel = 0 && p.isInFont o.codeFont

/-- The tree is the line of the paragraph: it is an item or a heading if that is one, and its
children are the elements that show something, by their offsets. -/
structure IsLine (p : Paragraph) (s : Tree) : Prop where
  item : s.kind.isItem ↔ p.bullet.isSome
  heading : s.kind = .heading ↔ p.bullet = none ∧ p.style.headingLevel ≠ 0
  pieces : List.Forall₂ ParagraphElement.IsPiece
    (p.sortedElements.filter ParagraphElement.isShown) s.children

/-- What a line is and shows. -/
def line (p : Paragraph) : Bool × Bool × List (Option Inline) :=
  (p.bullet.isSome, p.bullet.isNone && p.style.headingLevel ≠ 0, p.inlines.map some)

end Paragraph

namespace Tree

/-- What a line is and shows. -/
def line (s : Tree) : Bool × Bool × List (Option Inline) :=
  (s.kind.isItem, s.kind = .heading, s.children.map inline?)

/-- A chain of spans shows what it was made of. -/
theorem inline?_tree (id : Nat) (i : Inline) : (i.tree id).inline? = some i := by
  cases i with
  | text bold italic url content =>
    cases bold <;> cases italic <;> cases url <;> rfl
  | image objectId => rfl

theorem map_inline?_trees (id : Nat) (is : List Inline) :
    (Inline.trees id is).map inline? = is.map some := by
  induction is generalizing id with
  | nil => rfl
  | cons i is ih => rw [Inline.trees, List.map_cons, inline?_tree, ih, List.map_cons]

theorem isLine_of_isInline (k : Kind) (h : k.isInline) : k.isLine = false := by
  cases k <;> simp_all [Kind.isInline, Kind.isLine]

/-- A line above its pieces is read as one line. -/
theorem read_lines_node {id : Nat} {d : Node} (is : List Inline) (hd : d.kind.isLine) :
    (node id d (Inline.trees (id + 1) is)).read (fun s => if s.kind.isLine then [s.line] else []) =
      [(d.kind.isItem, decide (d.kind = .heading), is.map some)] := by
  rw [read_line isLine_of_isInline line, if_pos hd, line, children_node, map_inline?_trees]
  rfl

end Tree

namespace Block

/-- The line of a block that is one. -/
def lines : Block → List (Bool × Bool × List (Option Inline))
  | .paragraph is => [(false, false, is.map some)]
  | .heading _ is => [(false, true, is.map some)]
  | .item i => [(true, false, i.inlines.map some)]
  | .code _ | .table _ => []

theorem lines_ofParagraph {o : Options} {lists : Catalog ListStyle} {seen seen' : List Bullet}
    {p : Paragraph} {b : Block} (h : ofParagraph o lists seen p = .ok (b, seen')) :
    b.lines = if p.isCode o then [] else [p.line] := by
  obtain ⟨u, ordered, hu, -, -, rfl⟩ | ⟨hu, -, ⟨hl, rfl⟩ | ⟨hl, hc, rfl⟩ | ⟨hl, hc, rfl⟩⟩ :=
    ofParagraph_cases h
  · simp [lines, Paragraph.isCode, Paragraph.line, hu]
  · simp [lines, Paragraph.isCode, Paragraph.line, hu, hl]
  · simp [lines, Paragraph.isCode, hu, hl, hc]
  · simp [lines, Paragraph.isCode, Paragraph.line, hu, hl, hc]

theorem lines_ofParagraphs {o : Options} {lists : Catalog ListStyle} {seen seen' : List Bullet}
    {ps : List Paragraph} {bs : List Block}
    (h : ofParagraphs o lists seen ps = .ok (bs, seen')) :
    bs.flatMap lines = (ps.filter fun p => !p.isCode o).map Paragraph.line := by
  induction ps generalizing seen bs with
  | nil =>
    cases h
    rfl
  | cons p ps ih =>
    obtain ⟨b, seen₁, cs, hp, hps, rfl⟩ := ofParagraphs_cons_ok h
    rw [List.flatMap_cons, lines_ofParagraph hp, ih hps]
    cases hc : p.isCode o <;> simp [hc]

end Block

namespace Tree

theorem reads_lines :
    Reads (fun t : Tree => if t.kind.isLine then [t.line] else []) Block.lines where
  holder id kind level ts hk := by
    cases kind <;> simp_all [Kind.isHolder, Kind.isLine]
  blind id d ts us hk := by
    cases hd : d.kind <;> simp_all [Kind.isHolder, Kind.isLine]
  paragraph id is := read_lines_node is rfl
  heading id level is := read_lines_node is rfl
  code id content := by simp [Kind.isLine, Block.lines]
  join id d content hd := by simp [hd, Kind.isLine, Block.lines]
  item id i := by
    have hi : i.itemKind.isItem := i.isItem_itemKind
    have hh : i.itemKind ≠ .heading := by
      intro hk
      rw [hk] at hi
      cases hi
    rw [ListItem.tree, read_lines_node i.inlines (Kind.isLine_of_isItem hi), hi, decide_eq_false hh]
    rfl

end Tree

/-- An element that shows something becomes one piece, and any other element becomes none. -/
theorem Inline.ofElement?_cases (e : ParagraphElement) :
    (e.isShown = false ∧ ofElement? e = none) ∨
      e.isShown = true ∧
        ∃ i, ofElement? e = some i ∧ ∀ c : Tree, c.inline? = some i → e.IsPiece c := by
  unfold ParagraphElement.isShown ParagraphElement.IsPiece ofElement?
  cases hr : e.textRun with
  | none =>
    cases ho : e.object with
    | none => exact .inl ⟨rfl, rfl⟩
    | some object => exact .inr ⟨rfl, _, rfl, fun c hc => hc⟩
  | some run =>
    by_cases hc : run.content = ""
    · simp [hc]
    · refine .inr ⟨by simp [hc], _, by simp only [hc, if_false], fun c hc => hc⟩

theorem Inline.pieces_of_map_eq {es : List ParagraphElement} {cs : List Tree}
    (h : cs.map Tree.inline? = (es.filterMap ofElement?).map some) :
    List.Forall₂ ParagraphElement.IsPiece (es.filter ParagraphElement.isShown) cs := by
  induction es generalizing cs with
  | nil =>
    rw [List.map_eq_nil_iff.1 h]
    exact .nil
  | cons e es ih =>
    obtain ⟨hs, he⟩ | ⟨hs, i, he, hpiece⟩ := ofElement?_cases e
    · rw [List.filterMap_cons_none he] at h
      rw [List.filter_cons_of_neg (by simp [hs])]
      exact ih h
    · rw [List.filterMap_cons_some he, List.map_cons] at h
      obtain ⟨c, cs', rfl, hc, hcs⟩ := List.map_eq_cons_iff.1 h
      rw [List.filter_cons_of_pos hs]
      exact .cons (hpiece c hc) (ih hcs)

theorem Paragraph.isLine_of_line_eq {p : Paragraph} {s : Tree} (h : p.line = s.line) :
    p.IsLine s := by
  simp only [line, Tree.line, Prod.mk.injEq] at h
  obtain ⟨hitem, hheading, hpieces⟩ := h
  refine ⟨by rw [hitem], ?_, Inline.pieces_of_map_eq hpieces.symm⟩
  rw [← decide_eq_true_iff (p := s.kind = .heading), ← hheading]
  simp

/-- Node numbers are no part of a line, so the lines of the tree equal those of the document. -/
theorem Document.map_line_tree {d : Document} {o : Options} {t : Tree} (h : d.tree o = .ok t) :
    (d.paragraphs.filter fun p => !p.isCode o).map Paragraph.line = t.lines.map Tree.line := by
  obtain ⟨bs, hbs, rfl⟩ := tree_eq_ok h
  obtain ⟨seen, hps⟩ := leaves_blocks hbs
  rw [← Block.lines_ofParagraphs hps, ← Tree.reads_lines.ofBlocks, Tree.lines,
    Tree.map_filter_preorder]

/-- The lines of a tree in preorder are the paragraphs of the document that are not code, one by one
and in document order, and the children of a line are the elements of its paragraph that show
something, by their offsets: of a run one reads the style, the address and the text, and of an
object without a run its name. -/
theorem Document.lines_tree {d : Document} {o : Options} {t : Tree} (h : d.tree o = .ok t) :
    List.Forall₂ Paragraph.IsLine (d.paragraphs.filter fun p => !p.isCode o) t.lines := by
  have hlines := map_line_tree h
  rw [← List.forall₂_eq_eq_eq, List.forall₂_map_left_iff, List.forall₂_map_right_iff] at hlines
  exact hlines.imp fun p s => Paragraph.isLine_of_line_eq

/-- Elements out of order, two of them at one offset, some that show nothing, and a line behind code
inside a table. -/
def Document.shuffled : Document :=
  (({} : Document).addList "b" .bulleted)
    |>.addParagraph { elements := [
        { startIndex := 5, textRun := some (.withBold (.withLink (.ofText "late") "u")) },
        { startIndex := 0, textRun := some (.withItalic (.ofText "early")), object := some ⟨"x"⟩ },
        { startIndex := 5, object := some ⟨"o"⟩ },
        { startIndex := 2, textRun := some (.ofText ""), object := some ⟨"y"⟩ },
        { startIndex := -1 }] }
    |>.addTable (.addRow {} [[.ofParagraph (.addRun {} (.inFont "code" "Consolas")),
        .ofParagraph (.bulleted "b" 1 "item")]])

theorem Document.lines_shuffled : ∃ t, shuffled.tree {} = .ok t ∧
    List.Forall₂ Paragraph.IsLine (shuffled.paragraphs.filter fun p => !p.isCode {}) t.lines := by
  obtain ⟨t, ht⟩ : ∃ t, shuffled.tree {} = .ok t := ⟨_, rfl⟩
  exact ⟨t, ht, lines_tree ht⟩

end RichText
