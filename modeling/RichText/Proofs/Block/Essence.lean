import Mathlib.Data.List.Basic
import RichText.Proofs.Tree.Numbering

/-!
What the reading of a document depends on. The elements of a paragraph count by their offsets, those
of equal offset in their given order; where they end and how heavy their fonts are does not count.
Of the body only the paragraphs and the cells count, and of the catalog only what it answers to the
bullets. Documents that agree in all this are read alike, into the same tree or the same error.
-/
namespace RichText

/-! ### Elements by their offsets -/

namespace ParagraphElement

/-- The elements that begin at an offset, in their order. -/
def startingAt (start : Int64) (es : List ParagraphElement) : List ParagraphElement :=
  es.filter (·.startIndex = start)

/-- A permutation that keeps elements of equal offset in their order. -/
def Reordered (es fs : List ParagraphElement) : Prop :=
  ∀ start, startingAt start es = startingAt start fs

/-- The elements stand by their offsets. -/
def Ascending (es : List ParagraphElement) : Prop :=
  es.Pairwise fun a b => a.startIndex ≤ b.startIndex

variable {es fs : List ParagraphElement}

theorem mem_startingAt {e : ParagraphElement} {start : Int64} :
    e ∈ startingAt start es ↔ e ∈ es ∧ e.startIndex = start := by
  simp [startingAt]

theorem Reordered.perm (h : Reordered es fs) : es.Perm fs := by
  rw [List.perm_iff_count]
  intro e
  have hcount (gs : List ParagraphElement) : gs.count e = (startingAt e.startIndex gs).count e := by
    rw [startingAt, List.count_filter (by simp)]
  rw [hcount es, hcount fs, h]

theorem Ascending.head_le {e f : ParagraphElement} (h : Ascending (e :: es)) (hf : f ∈ e :: es) :
    e.startIndex ≤ f.startIndex := by
  rcases List.mem_cons.1 hf with rfl | hf
  · exact Int64.le_refl _
  · exact (List.pairwise_cons.1 h).1 f hf

/-- There is one way only to put elements by their offsets that keeps those of equal offset in their
order. -/
theorem Ascending.eq_of_reordered (hes : Ascending es) (hfs : Ascending fs)
    (h : Reordered es fs) : es = fs := by
  induction es generalizing fs with
  | nil => exact h.perm.nil_eq
  | cons e es ih =>
    cases fs with
    | nil => exact h.perm.eq_nil
    | cons f fs =>
      -- Each head is among the other elements, so neither begins before the other.
      have hle : e.startIndex ≤ f.startIndex := hes.head_le (h.perm.mem_iff.2 List.mem_cons_self)
      have hge : f.startIndex ≤ e.startIndex := hfs.head_le (h.perm.mem_iff.1 List.mem_cons_self)
      have hstart : f.startIndex = e.startIndex := Int64.le_antisymm hge hle
      have hfirst := h e.startIndex
      simp only [startingAt, List.filter_cons, hstart, decide_true, if_true] at hfirst
      obtain ⟨rfl, -⟩ := List.cons.inj hfirst
      have hrest : Reordered es fs := by
        intro start
        have hall := h start
        simp only [startingAt, List.filter_cons] at hall ⊢
        split at hall
        · exact (List.cons.inj hall).2
        · exact hall
      rw [ih (List.pairwise_cons.1 hes).2 (List.pairwise_cons.1 hfs).2 hrest]

def startsBefore (e f : ParagraphElement) : Bool := e.startIndex ≤ f.startIndex

theorem startsBefore_trans (e f g : ParagraphElement) (hef : e.startsBefore f)
    (hfg : f.startsBefore g) : e.startsBefore g := by
  simp only [startsBefore, decide_eq_true_eq] at hef hfg ⊢
  exact Int64.le_trans hef hfg

theorem startsBefore_total (e f : ParagraphElement) : e.startsBefore f || f.startsBefore e := by
  simp only [startsBefore, Bool.or_eq_true, decide_eq_true_eq]
  exact Int64.le_total _ _

theorem ascending_mergeSort (es : List ParagraphElement) :
    Ascending (es.mergeSort startsBefore) := by
  have h := List.pairwise_mergeSort startsBefore_trans startsBefore_total es
  exact h.imp fun hef => of_decide_eq_true hef

/-- Sorting keeps elements of equal offset in their order. -/
theorem reordered_mergeSort (es : List ParagraphElement) :
    Reordered (es.mergeSort startsBefore) es := by
  intro start
  have hequal : (startingAt start es).Pairwise fun e f => e.startsBefore f = true := by
    rw [List.pairwise_iff_forall_sublist]
    intro e f hsub
    have he := (mem_startingAt.1 (hsub.subset (by simp : e ∈ [e, f]))).2
    have hf := (mem_startingAt.1 (hsub.subset (by simp : f ∈ [e, f]))).2
    simp [startsBefore, he, hf]
  have hsub : List.Sublist (startingAt start es) (es.mergeSort startsBefore) :=
    List.sublist_mergeSort startsBefore_trans startsBefore_total hequal List.filter_sublist
  have hlength : (startingAt start es).length =
      (startingAt start (es.mergeSort startsBefore)).length :=
    ((List.mergeSort_perm es _).filter _).length_eq.symm
  have hfilter := hsub.filter (·.startIndex = start)
  simp only [startingAt, List.filter_filter, Bool.and_self] at hfilter
  exact (hfilter.eq_of_length hlength).symm

end ParagraphElement

/-! ### Paragraphs -/

/-- The run without the weight of its font. -/
def TextRun.bare (run : TextRun) : TextRun :=
  { run with style := { run.style with
      font := run.style.font.map fun font => { font with weight := 0 } } }

theorem TextRun.fontFamily?_bare (run : TextRun) : run.bare.fontFamily? = run.fontFamily? := by
  simp [bare, fontFamily?, Function.comp_def]

/-- What an element shows and where it begins: not where it ends, and not how heavy its font is. -/
def ParagraphElement.bare (e : ParagraphElement) : ParagraphElement :=
  { e with endIndex := 0, textRun := e.textRun.map TextRun.bare }

theorem Inline.ofElement?_bare (e : ParagraphElement) :
    Inline.ofElement? e.bare = Inline.ofElement? e := by
  obtain ⟨start, stop, run, object⟩ := e
  cases run <;> rfl

namespace Paragraph

/-- Paragraphs in the same place of a list and of the same style, whose elements are the same apart
from their ends and the weights of their fonts, and in an order that comes to the same. -/
structure Alike (p q : Paragraph) : Prop where
  style : p.style = q.style
  bullet : p.bullet = q.bullet
  elements : ParagraphElement.Reordered (p.elements.map .bare) (q.elements.map .bare)

theorem map_bare_sortedElements (p : Paragraph) :
    p.sortedElements.map .bare =
      (p.elements.map ParagraphElement.bare).mergeSort ParagraphElement.startsBefore :=
  List.map_mergeSort fun _ _ _ _ => rfl

theorem inlines_eq_bare (p : Paragraph) :
    p.inlines = (p.sortedElements.map .bare).filterMap Inline.ofElement? := by
  rw [inlines, List.filterMap_map]
  congr 1
  funext e
  exact (Inline.ofElement?_bare e).symm

theorem sortedText_eq_bare (p : Paragraph) :
    p.sortedText = String.join ((p.sortedElements.map ParagraphElement.bare).filterMap fun e =>
      e.textRun.map TextRun.content) := by
  rw [sortedText, List.filterMap_map]
  congr 2
  funext e
  cases h : e.textRun <;> simp [ParagraphElement.bare, TextRun.bare, h]

theorem isInFont_eq_bare (p : Paragraph) (font : String) :
    p.isInFont font = (!(p.elements.map ParagraphElement.bare).isEmpty &&
      (p.elements.map ParagraphElement.bare).all fun e =>
        e.textRun.bind TextRun.fontFamily? = some font) := by
  have hfamily (e : ParagraphElement) :
      e.bare.textRun.bind TextRun.fontFamily? = e.textRun.bind TextRun.fontFamily? := by
    cases h : e.textRun <;> simp [ParagraphElement.bare, h, TextRun.fontFamily?_bare]
  rw [isInFont, List.isEmpty_map, List.all_map]
  simp only [Function.comp_def, hfamily]

section
variable {p q : Paragraph} (h : p.Alike q)
include h

theorem Alike.sortedElements_eq :
    p.sortedElements.map ParagraphElement.bare = q.sortedElements.map .bare := by
  rw [map_bare_sortedElements, map_bare_sortedElements]
  refine (ParagraphElement.ascending_mergeSort _).eq_of_reordered
    (ParagraphElement.ascending_mergeSort _) fun start => ?_
  rw [ParagraphElement.reordered_mergeSort, ParagraphElement.reordered_mergeSort]
  exact h.elements start

theorem Alike.inlines_eq : p.inlines = q.inlines := by
  rw [p.inlines_eq_bare, q.inlines_eq_bare, h.sortedElements_eq]

theorem Alike.sortedText_eq : p.sortedText = q.sortedText := by
  rw [p.sortedText_eq_bare, q.sortedText_eq_bare, h.sortedElements_eq]

theorem Alike.isInFont_eq (font : String) : p.isInFont font = q.isInFont font := by
  rw [p.isInFont_eq_bare, q.isInFont_eq_bare, h.elements.perm.isEmpty_eq, h.elements.perm.all_eq]

end

end Paragraph

/-! ### Bullets -/

/-- What a catalog says of a bullet: nothing if it lacks the list, that the list lacks the level, or
whether the item is numbered. -/
def Bullet.answer? (lists : Catalog ListStyle) (b : Bullet) : Option (Option Bool) :=
  (lists.get? b.listId).map (·.isOrdered? b.level)

theorem Bullet.isOrdered_congr {lists lists' : Catalog ListStyle} {b : Bullet}
    (h : b.answer? lists = b.answer? lists') (o : Options) :
    b.isOrdered o lists = b.isOrdered o lists' := by
  unfold answer? at h
  unfold isOrdered
  cases hl : lists.get? b.listId <;> cases hl' : lists'.get? b.listId <;> simp_all

/-! ### Bodies -/

namespace Element

mutual
/-- Parts of a body that are read alike. Where they stand is of no account, and one without a
paragraph and a table may be there or not. -/
inductive AlikeAll : List Element → List Element → Prop
  | nil : AlikeAll [] []
  | left {start stop : Int64} {es fs : List Element} :
    AlikeAll es fs → AlikeAll (mk start stop none none :: es) fs
  | right {start stop : Int64} {es fs : List Element} :
    AlikeAll es fs → AlikeAll es (mk start stop none none :: fs)
  | cons {start stop start' stop' : Int64} {p p' : Option Paragraph}
    {t t' : Option (Table Element)} {es fs : List Element} :
    Option.Rel Paragraph.Alike p p' → AlikeTable t t' → AlikeAll es fs →
      AlikeAll (mk start stop p t :: es) (mk start' stop' p' t' :: fs)
/-- Tables with cells that are read alike, whatever counts they declare. -/
inductive AlikeTable : Option (Table Element) → Option (Table Element) → Prop
  | none : AlikeTable none none
  | some {m n m' n' : UInt32} {rows rows' : List (List (List Element))} :
    AlikeRows rows rows' → AlikeTable (some ⟨m, n, rows⟩) (some ⟨m', n', rows'⟩)
inductive AlikeRows : List (List (List Element)) → List (List (List Element)) → Prop
  | nil : AlikeRows [] []
  | cons {row row' : List (List Element)} {rows rows' : List (List (List Element))} :
    AlikeCells row row' → AlikeRows rows rows' → AlikeRows (row :: rows) (row' :: rows')
inductive AlikeCells : List (List Element) → List (List Element) → Prop
  | nil : AlikeCells [] []
  | cons {cell cell' : List Element} {cells cells' : List (List Element)} :
    AlikeAll cell cell' → AlikeCells cells cells' → AlikeCells (cell :: cells) (cell' :: cells')
end

end Element

namespace Block

section
variable (o : Options) (lists : Catalog ListStyle)

theorem ofParagraph_congr {p q : Paragraph} (h : p.Alike q) (seen : List Bullet) :
    ofParagraph o lists seen p = ofParagraph o lists seen q := by
  simp only [ofParagraph, h.style, h.bullet, h.inlines_eq, h.sortedText_eq, h.isInFont_eq]

theorem ofParagraph?_congr {p q : Option Paragraph} (h : Option.Rel Paragraph.Alike p q)
    (seen : List Bullet) : ofParagraph? o lists seen p = ofParagraph? o lists seen q := by
  cases h with
  | none => rfl
  | some h => rw [ofParagraph?, ofParagraph?, ofParagraph_congr o lists h]

/-- An element without a paragraph and a table adds no block. -/
theorem ofElements_cons_blank (start stop : Int64) (es : List Element) (seen : List Bullet) :
    ofElements o lists seen (.mk start stop none none :: es) = ofElements o lists seen es := by
  simp only [ofElements, ofElement, ofParagraph?, bind, Except.bind, List.nil_append]
  cases ofElements o lists seen es <;> rfl

variable {o lists}

mutual
theorem ofElements_congr : ∀ {es fs : List Element}, Element.AlikeAll es fs →
    ∀ seen, ofElements o lists seen es = ofElements o lists seen fs
  | _, _, .nil, _ => rfl
  | _, _, .left h, seen => by rw [ofElements_cons_blank, ofElements_congr h seen]
  | _, _, .right h, seen => by rw [ofElements_cons_blank, ofElements_congr h seen]
  | _, _, .cons hp ht h, seen => by
    rw [ofElements, ofElements]
    congr 1
    · exact ofElement_congr ht hp
    · simp only [ofElements_congr h]
theorem ofElement_congr : ∀ {t t' : Option (Table Element)}, Element.AlikeTable t t' →
    ∀ {start stop start' stop' : Int64} {p p' : Option Paragraph},
      Option.Rel Paragraph.Alike p p' → ∀ {seen : List Bullet},
      ofElement o lists seen (.mk start stop p t) = ofElement o lists seen (.mk start' stop' p' t')
  | _, _, .none, _, _, _, _, _, _, hp, seen => by
    rw [ofElement, ofElement, ofParagraph?_congr o lists hp]
  | _, _, .some h, _, _, _, _, _, _, hp, seen => by
    rw [ofElement, ofElement, ofParagraph?_congr o lists hp]
    simp only [ofRows_congr h]
theorem ofRows_congr : ∀ {rows rows' : List (List (List Element))}, Element.AlikeRows rows rows' →
    ∀ seen, ofRows o lists seen rows = ofRows o lists seen rows'
  | _, _, .nil, _ => rfl
  | _, _, .cons hcells h, seen => by
    rw [ofRows, ofRows, ofCells_congr hcells]
    simp only [ofRows_congr h]
theorem ofCells_congr : ∀ {cells cells' : List (List Element)}, Element.AlikeCells cells cells' →
    ∀ seen, ofCells o lists seen cells = ofCells o lists seen cells'
  | _, _, .nil, _ => rfl
  | _, _, .cons hcell h, seen => by
    rw [ofCells, ofCells, ofElements_congr hcell]
    simp only [ofCells_congr h]
end

end

section
variable (o : Options) {lists lists' : Catalog ListStyle}

/-- Paragraphs to whose bullets two catalogs give the same answers. -/
def SameAnswers (lists lists' : Catalog ListStyle) (ps : List Paragraph) : Prop :=
  ∀ p ∈ ps, ∀ b, p.bullet = some b → b.answer? lists = b.answer? lists'

theorem sameAnswers_append {ps qs : List Paragraph} :
    SameAnswers lists lists' (ps ++ qs) ↔
      SameAnswers lists lists' ps ∧ SameAnswers lists lists' qs := by
  simp [SameAnswers, or_imp, forall_and]

theorem ofParagraph?_answers {p : Option Paragraph} (h : SameAnswers lists lists' p.toList)
    (seen : List Bullet) : ofParagraph? o lists seen p = ofParagraph? o lists' seen p := by
  cases p with
  | none => rfl
  | some p =>
    cases hb : p.bullet with
    | none => simp only [ofParagraph?, ofParagraph, hb]
    | some b =>
      have hanswer := h p (by simp) b hb
      simp only [ofParagraph?, ofParagraph, hb, Bullet.isOrdered_congr hanswer]

mutual
theorem ofElement_answers : ∀ {e : Element}, SameAnswers lists lists' e.paragraphs →
    ∀ seen, ofElement o lists seen e = ofElement o lists' seen e
  | .mk _ _ p none, h, seen => by
    rw [ofElement, ofElement, ofParagraph?_answers o h]
  | .mk _ _ p (some ⟨_, _, rows⟩), h, seen => by
    rw [Element.paragraphs, sameAnswers_append] at h
    rw [ofElement, ofElement, ofParagraph?_answers o h.1]
    simp only [ofRows_answers h.2]
theorem ofElements_answers : ∀ {es : List Element},
    SameAnswers lists lists' (Element.paragraphsOfAll es) →
    ∀ seen, ofElements o lists seen es = ofElements o lists' seen es
  | [], _, _ => rfl
  | e :: es, h, seen => by
    rw [Element.paragraphsOfAll, sameAnswers_append] at h
    rw [ofElements, ofElements, ofElement_answers h.1]
    simp only [ofElements_answers h.2]
theorem ofRows_answers : ∀ {rows : List (List (List Element))},
    SameAnswers lists lists' (Element.paragraphsOfRows rows) →
    ∀ seen, ofRows o lists seen rows = ofRows o lists' seen rows
  | [], _, _ => rfl
  | row :: rows, h, seen => by
    rw [Element.paragraphsOfRows, sameAnswers_append] at h
    rw [ofRows, ofRows, ofCells_answers h.1]
    simp only [ofRows_answers h.2]
theorem ofCells_answers : ∀ {cells : List (List Element)},
    SameAnswers lists lists' (Element.paragraphsOfCells cells) →
    ∀ seen, ofCells o lists seen cells = ofCells o lists' seen cells
  | [], _, _ => rfl
  | cell :: cells, h, seen => by
    rw [Element.paragraphsOfCells, sameAnswers_append] at h
    rw [ofCells, ofCells, ofElements_answers h.1]
    simp only [ofCells_answers h.2]
end

end

end Block

/-! ### Documents -/

namespace Document

/-- Documents that differ in nothing that a reading asks for. Their names and titles are of no
account, and their catalogs may differ where no bullet asks. -/
structure Alike (d d' : Document) : Prop where
  body : Element.AlikeAll d.body d'.body
  lists : ∀ b ∈ d.bullets, b.answer? d.lists = b.answer? d'.lists

/-- Documents that are alike have the same tree, number by number, or fail with the same error. -/
theorem tree_eq_of_alike {d d' : Document} (h : d.Alike d') (o : Options) :
    d.tree o = d'.tree o := by
  have hanswers : Block.SameAnswers d.lists d'.lists (Element.paragraphsOfAll d.body) := by
    intro p hp b hb
    exact h.lists b (List.mem_filterMap.2 ⟨p, hp, hb⟩)
  rw [tree, tree, blocks, blocks, Block.ofElements_answers o hanswers,
    Block.ofElements_congr h.body]

/-- A paragraph whose second element comes first, and a table with code in two parts and, in a table
of its own, items of a list that is there and of one that is not. -/
def firstDraft : Document where
  id := some "1"
  body :=
    [.mk 0 0 none none,
     .ofParagraph { elements :=
      [{ startIndex := 5, endIndex := 9, textRun := some (.inFont "b" "Arial") },
       { startIndex := 0, endIndex := 5, textRun := some (.ofText "a") },
       { startIndex := 5, endIndex := 6, object := some ⟨"o"⟩ }] },
     .ofTable (.addRow {} [[.ofParagraph (.addRun {} (.inFont "x" "Consolas")),
      .mk 10 11 none none, .ofParagraph (.addRun {} (.inFont "y" "Consolas")),
      .ofTable (.addRow {} [[.ofParagraph (.bulleted "n" 0 "i")],
        [.ofParagraph (.bulleted "?" 2 "j")]])]])]
  lists := .ofList [("n", .numbered)]

/-- The same with other offsets, ends, weights, counts, names and gaps, in another order and with
another catalog. -/
def secondDraft : Document where
  title := some "2"
  body :=
    [.mk 7 9 (some { elements :=
      [{ startIndex := 5, endIndex := 0,
         textRun := some { content := "b", style := { font := some ⟨"Arial", 700⟩ } } },
       { startIndex := 5, object := some ⟨"o"⟩ },
       { startIndex := 0, endIndex := 1, textRun := some (.ofText "a") }] }) none,
     .mk 9 9 none (some ⟨8, 8, [[[.ofParagraph (.addRun {} (.inFont "x" "Consolas")),
      .ofParagraph (.addRun {} (.inFont "y" "Consolas")), .mk 3 2 none none,
      .mk 1 0 none (some ⟨0, 0, [[[.mk 1 1 (some (.bulleted "n" 0 "i")) none],
        [.ofParagraph (.bulleted "?" 2 "j"), .mk 0 0 none none]]]⟩)]]]⟩)]
  lists := .ofList [("m", .bulleted), ("n", .uniform .roman 3)]

theorem alike_drafts : firstDraft.Alike secondDraft where
  body := by
    have hsame (p : Paragraph) : Option.Rel Paragraph.Alike (some p) (some p) :=
      .some ⟨rfl, rfl, fun _ => rfl⟩
    refine .left (.cons (.some ⟨rfl, rfl, fun start => ?_⟩) .none
      (.cons .none (.some (.cons (.cons (.cons (hsame _) .none (.left (.cons (hsame _) .none
        (.right (.cons .none (.some (.cons (.cons (.cons (hsame _) .none .nil)
          (.cons (.cons (hsame _) .none (.right .nil)) .nil)) .nil)) .nil)))))
        .nil) .nil)) .nil))
    by_cases h : start = 5
    · subst h
      rfl
    · by_cases h' : start = 0
      · subst h'
        rfl
      · have hne : (5 : Int64) ≠ start := Ne.symm h
        have hne' : (0 : Int64) ≠ start := Ne.symm h'
        simp [ParagraphElement.startingAt, ParagraphElement.bare, hne, hne']
  lists := by decide

/-- Read leniently the drafts have one tree, and read strictly they have one error. -/
theorem tree_eq_of_alike_drafts :
    firstDraft.Alike secondDraft ∧
      firstDraft.tree { lenient := true } = secondDraft.tree { lenient := true } ∧
      firstDraft.tree {} = secondDraft.tree {} :=
  ⟨alike_drafts, tree_eq_of_alike alike_drafts _, tree_eq_of_alike alike_drafts _⟩

end Document

end RichText
