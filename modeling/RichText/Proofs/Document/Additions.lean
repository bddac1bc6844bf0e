import Mathlib.Algebra.Group.Nat.Defs
import Mathlib.Data.List.Induction
import RichText.Proofs.Tree.Content
import RichText.Proofs.Tree.Lines

/-!
Paragraphs that are built by adding runs and objects one after the other. What is added stands in
contiguous intervals of offsets, so that the order of the offsets is the order of the additions even
where empty runs share an offset, and the tree shows what was added in that order.
-/
namespace RichText

/-- What is added to a paragraph. -/
inductive Addition where
  | run (run : TextRun)
  | object (id : String)

namespace Addition

def length : Addition → Nat
  | run r => r.content.length
  | object _ => 1

/-- What an addition shows. Empty runs show nothing. -/
def inline? : Addition → Option Inline
  | run r =>
    if r.content = "" then none
    else some (.text r.style.bold r.style.italic r.url? r.content)
  | object id => some (.image id)

/-- The element holds what is added. -/
def IsIn (e : ParagraphElement) : Addition → Prop
  | run r => e.textRun = some r ∧ e.object = none
  | object id => e.textRun = none ∧ e.object = some ⟨id⟩

/-- The length of all additions. -/
def total : List Addition → Nat
  | [] => 0
  | a :: as => a.length + total as

/-- The elements hold the additions, in contiguous intervals from the offset on, each as long as
what is added. -/
inductive Laid : Nat → List Addition → List ParagraphElement → Prop where
  | nil (n : Nat) : Laid n [] []
  | cons {n : Nat} {a : Addition} {as : List Addition} {e : ParagraphElement}
      {es : List ParagraphElement} (start : e.startIndex.toInt = n)
      (stop : e.endIndex.toInt = n + a.length) (held : a.IsIn e)
      (rest : Laid (n + a.length) as es) : Laid n (a :: as) (e :: es)

end Addition

namespace Paragraph

def add (p : Paragraph) : Addition → Paragraph
  | .run r => p.addRun r
  | .object id => p.addObject id

/-- The paragraph of these additions. -/
def built (as : List Addition) : Paragraph := as.foldl add {}

theorem built_concat (as : List Addition) (a : Addition) : built (as ++ [a]) = (built as).add a :=
  List.foldl_concat ..

end Paragraph

namespace Addition

theorem total_concat (as : List Addition) (a : Addition) :
    total (as ++ [a]) = total as + a.length := by
  induction as with
  | nil => simp [total]
  | cons b as ih => rw [List.cons_append, total, total, ih, Nat.add_assoc]

theorem Laid.concat {n : Nat} {as : List Addition} {es : List ParagraphElement}
    (h : Laid n as es) {a : Addition} {e : ParagraphElement}
    (start : e.startIndex.toInt = n + total as)
    (stop : e.endIndex.toInt = n + total as + a.length) (held : a.IsIn e) :
    Laid n (as ++ [a]) (es ++ [e]) := by
  induction h with
  | nil n => exact .cons (by simpa [total] using start) (by simpa [total] using stop) held (.nil _)
  | @cons n b as f es hstart hstop hheld rest ih =>
    rw [total] at start stop
    push_cast at start stop ih
    exact .cons hstart hstop hheld (ih (by omega) (by omega))

/-- No element begins before the offset. -/
theorem Laid.le_startIndex {n : Nat} {as : List Addition} {es : List ParagraphElement}
    (h : Laid n as es) : ∀ e ∈ es, (n : Int) ≤ e.startIndex.toInt := by
  induction h with
  | nil n => simp
  | cons hstart _ _ _ ih =>
    simp only [List.mem_cons, forall_eq_or_imp]
    refine ⟨by omega, fun e he => ?_⟩
    have hle := ih e he
    push_cast at hle
    omega

theorem Laid.pairwise {n : Nat} {as : List Addition} {es : List ParagraphElement}
    (h : Laid n as es) : es.Pairwise fun a b => a.startIndex ≤ b.startIndex := by
  induction h with
  | nil n => exact .nil
  | cons hstart _ _ rest ih =>
    refine List.pairwise_cons.2 ⟨fun e he => ?_, ih⟩
    have hle := rest.le_startIndex e he
    push_cast at hle
    rw [Int64.le_iff_toInt_le]
    omega

theorem ofElement?_of_isIn {a : Addition} {e : ParagraphElement} (h : a.IsIn e) :
    Inline.ofElement? e = a.inline? := by
  cases a with
  | run r =>
    obtain ⟨hr, ho⟩ := h
    simp only [Inline.ofElement?, hr, inline?]
  | object id =>
    obtain ⟨hr, ho⟩ := h
    simp only [Inline.ofElement?, hr, ho, inline?]

theorem Laid.filterMap_ofElement? {n : Nat} {as : List Addition} {es : List ParagraphElement}
    (h : Laid n as es) : es.filterMap Inline.ofElement? = as.filterMap inline? := by
  induction h with
  | nil n => rfl
  | cons _ _ held _ ih =>
    rw [List.filterMap_cons, List.filterMap_cons, ofElement?_of_isIn held, ih]

end Addition

namespace Paragraph
open Addition

/-- What is added is the last element, and begins where the last one ended. -/
theorem exists_elements_add (p : Paragraph) (a : Addition) :
    ∃ e, (p.add a).elements = p.elements ++ [e] ∧ e.startIndex = p.endIndex ∧
      e.endIndex = p.endIndex + .ofNat a.length ∧ a.IsIn e := by
  cases a with
  | run r => exact ⟨_, rfl, rfl, rfl, rfl, rfl⟩
  | object id => exact ⟨_, rfl, rfl, rfl, rfl, rfl⟩

/-- Additions in contiguous intervals from zero, up to where the next element begins. -/
structure Holds (p : Paragraph) (as : List Addition) : Prop where
  laid : Laid 0 as p.elements
  stop : p.endIndex.toInt = total as

theorem Holds.add {p : Paragraph} {as : List Addition} (h : p.Holds as) {a : Addition}
    (hlength : total as + a.length < 2 ^ 63) : (p.add a).Holds (as ++ [a]) := by
  obtain ⟨e, helements, hstart, hstop, held⟩ := p.exists_elements_add a
  have hend : e.endIndex.toInt = total as + a.length := by
    rw [hstop, Int64.toInt_add, h.stop, Int64.toInt_ofNat_of_lt (by omega),
      Int.bmod_eq_of_le (by omega) (by omega)]
  constructor
  · rw [helements]
    refine h.laid.concat ?_ ?_ held
    · rw [hstart, h.stop]
      simp
    · rw [hend]
      simp
  · rw [endIndex, helements, List.getLast?_concat, total_concat]
    simpa using hend

theorem holds_built {as : List Addition} (h : total as < 2 ^ 63) : (built as).Holds as := by
  induction as using List.reverseRecOn with
  | nil => exact ⟨.nil 0, rfl⟩
  | append_singleton as a ih =>
    rw [total_concat] at h
    rw [built_concat]
    exact (ih (by omega)).add h

section
variable {p : Paragraph} {n : Nat} {as : List Addition} (h : Laid n as p.elements)
include h

theorem inlines_of_laid : p.inlines = as.filterMap inline? := by
  rw [inlines, sortedElements_eq_of_pairwise h.pairwise, h.filterMap_ofElement?]

theorem text_of_laid : p.text = p.plainText.toList := by
  rw [text, sortedElements_eq_of_pairwise h.pairwise, toList_plainText]

end

end Paragraph

namespace Tree

/-- The texts of the plain leaves in preorder. -/
def plainText (t : Tree) : String :=
  String.join ((t.preorder.filter fun s => s.kind = .plain).map fun s => s.data.content)

/-- The text of a node that is plain. -/
def plainContent (t : Tree) : List Char := if t.kind = .plain then t.data.content.toList else []

theorem toList_plainText (t : Tree) : t.plainText.toList = t.read plainContent := by
  rw [plainText, String.toList_join, List.flatMap_map, read]
  induction t.preorder with
  | nil => rfl
  | cons s ss ih =>
    rw [List.flatMap_cons, ← ih, plainContent]
    by_cases hs : s.kind = .plain <;> simp [hs]

/-- A span above one node has no plain text of its own. -/
theorem read_plainContent_only? {k : Kind} (hk : k ≠ .plain) (t : Tree) :
    ((t.only? k).getD t).read plainContent = t.read plainContent := by
  unfold only?
  split
  · split_ifs with hd
    · simp [plainContent, hd, hk]
    · rfl
  · rfl

theorem read_of_isEmpty {α : Type} (f : Tree → List α) {t : Tree} (h : t.children.isEmpty) :
    t.read f = f t := by
  cases t with
  | node i d ts =>
    obtain rfl := List.isEmpty_iff.1 h
    rw [read_node, List.flatMap_nil, List.append_nil]

/-- The plain text of a piece is the text that it shows. -/
theorem read_plainContent_of_inline? {t : Tree} {i : Inline} (h : t.inline? = some i) :
    t.read plainContent = i.content := by
  unfold inline? at h
  extract_lets slanted linked last at h
  have hlast : t.read plainContent = last.read plainContent := by
    rw [read_plainContent_only? (by decide), read_plainContent_only? (by decide),
      read_plainContent_only? (by decide)]
  split_ifs at h with hplain himage
  · cases h
    rw [hlast, read_of_isEmpty plainContent hplain.2, plainContent, if_pos hplain.1]
    rfl
  · obtain ⟨id, -, rfl⟩ := Option.map_eq_some_iff.1 h
    rw [read_of_isEmpty plainContent himage.2, plainContent, himage.1]
    rfl

theorem flatMap_plainContent {cs : List Tree} {is : List Inline}
    (h : cs.map inline? = is.map some) :
    cs.flatMap (read plainContent) = is.flatMap Inline.content := by
  induction is generalizing cs with
  | nil => rw [List.map_eq_nil_iff.1 h, List.flatMap_nil, List.flatMap_nil]
  | cons i is ih =>
    obtain ⟨c, cs, rfl, hc, hcs⟩ := List.map_eq_cons_iff.1 h
    rw [List.flatMap_cons, List.flatMap_cons, read_plainContent_of_inline? hc, ih hcs]

theorem map_inline?_of_line {s : Tree} {p : Paragraph} (h : s.line = p.line) :
    s.children.map inline? = p.inlines.map some :=
  congrArg (·.2.2) h

/-- A line has no plain text but that of its pieces. -/
theorem toList_plainText_of_line {s : Tree} {p : Paragraph} (hs : s.kind.isLine)
    (h : s.line = p.line) : s.plainText.toList = p.text := by
  have hne : s.kind ≠ .plain := by
    intro hk
    rw [hk] at hs
    cases hs
  rw [toList_plainText, ← p.text_inlines, ← flatMap_plainContent (map_inline?_of_line h)]
  cases s with
  | node i d ts =>
    rw [read_node, plainContent, if_neg hne]
    rfl

end Tree

/-- Every paragraph that is not code has its line in the tree. -/
theorem Document.exists_line {d : Document} {o : Options} {t : Tree} (h : d.tree o = .ok t)
    {p : Paragraph} {k : Nat} (hp : (d.paragraphs.filter fun p => !p.isCode o)[k]? = some p) :
    ∃ s, t.lines[k]? = some s ∧ s.kind.isLine ∧ s.line = p.line := by
  have hline : (t.lines.map Tree.line)[k]? = some p.line := by
    rw [← map_line_tree h, List.getElem?_map, hp]
    rfl
  rw [List.getElem?_map, Option.map_eq_some_iff] at hline
  obtain ⟨s, hs, hline⟩ := hline
  exact ⟨s, hs, (List.mem_filter.1 (List.mem_of_getElem? hs)).2, hline⟩

/-- A paragraph of additions whose length is an offset holds them in contiguous intervals from zero,
in the order in which they were added, and its elements are taken in that order. Where a
document has a line of these elements, the tree shows what was added in that order, and the texts of
the plain leaves of the line are the text of the paragraph. -/
theorem Paragraph.built_in_order {as : List Addition} (h : Addition.total as < 2 ^ 63) :
    Addition.Laid 0 as (built as).elements ∧
    (built as).sortedElements = (built as).elements ∧
    ∀ (d : Document) (o : Options) (t : Tree), d.tree o = .ok t → ∀ (p : Paragraph) (k : Nat),
      (d.paragraphs.filter fun p => !p.isCode o)[k]? = some p →
        p.elements = (built as).elements →
          ∃ s, t.lines[k]? = some s ∧
            s.children.map Tree.inline? = (as.filterMap Addition.inline?).map some ∧
            s.plainText = p.plainText := by
  have hlaid := (holds_built h).laid
  refine ⟨hlaid, sortedElements_eq_of_pairwise hlaid.pairwise, ?_⟩
  intro d o t ht p k hp helements
  rw [← helements] at hlaid
  obtain ⟨s, hs, hkind, hline⟩ := Document.exists_line ht hp
  refine ⟨s, hs, ?_, ?_⟩
  · rw [Tree.map_inline?_of_line hline, inlines_of_laid hlaid]
  · rw [← String.toList_inj, Tree.toList_plainText_of_line hkind hline, text_of_laid hlaid]

/-- Empty runs in front, beside an object and at the end, and a character beyond sixteen bits. -/
def Addition.padded : List Addition :=
  [.run (.ofText ""), .run (.withBold (.ofText "a𝄞")), .run (.ofText ""), .object "o",
    .run (.inFont "c" "Consolas"), .run (.ofText "")]

open Addition in
theorem Paragraph.built_in_order_padded : ∃ t s,
    (({} : Document).addParagraph (built padded)).tree {} = .ok t ∧ t.lines[0]? = some s ∧
    Laid 0 padded (built padded).elements ∧
    (built padded).sortedElements = (built padded).elements ∧
    s.children.map Tree.inline? =
      [some (.text true false none "a𝄞"), some (.image "o"), some (.text false false none "c")] ∧
    s.plainText = "a𝄞c" := by
  obtain ⟨hlaid, hsorted, htree⟩ := built_in_order (show total padded < 2 ^ 63 by decide)
  obtain ⟨t, ht⟩ : ∃ t, (({} : Document).addParagraph (built padded)).tree {} = .ok t := ⟨_, rfl⟩
  have hline : ((({} : Document).addParagraph (built padded)).paragraphs.filter fun p =>
      !p.isCode {})[0]? = some (built padded) := by
    decide
  obtain ⟨s, hs, hpieces, htext⟩ := htree _ {} t ht _ 0 hline rfl
  have hplain : (built padded).plainText = "a𝄞c" := by decide
  exact ⟨t, s, ht, hs, hlaid, hsorted, hpieces, htext.trans hplain⟩

end RichText
