import Mathlib.Data.List.Chain
import Mathlib.Data.List.Induction
import Mathlib.Data.List.ReduceOption
import RichText.Proofs.Tree.Cells
import RichText.Proofs.Tree.Grammar
import RichText.Proofs.Tree.Lines

/-!
The code of a tree. Whether a paragraph of code is joined to the one before is decided at the last
tree that is there, but what comes of it can be said of the document alone: the paragraphs of a body
fall into stretches of code with something else between them, and each stretch becomes one node.
-/
namespace RichText

section
variable {α : Type}

/-- The stretches of a list in which nothing is missing, each as long as it can be. -/
def stretches (xs : List (Option α)) : List (List α) :=
  ((xs.splitOnP Option.isNone).map List.reduceOption).filter fun s => !s.isEmpty

theorem stretches_append_none (xs ys : List (Option α)) :
    stretches (xs ++ none :: ys) = stretches xs ++ stretches ys := by
  rw [stretches, List.splitOnP_append_cons xs ys rfl, List.map_append, List.filter_append]
  rfl

theorem stretches_map_some (vs : List α) :
    stretches (vs.map some) = if vs.isEmpty then [] else [vs] := by
  have hsome : ∀ x ∈ vs.map some, Option.isNone x = false := by simp
  have hvs : (vs.map some).reduceOption = vs := by simp [List.reduceOption]
  rw [stretches, List.splitOnP_eq_singleton hsome, List.map_singleton, hvs]
  cases vs <;> rfl

/-- What is missing at the end changes nothing. -/
theorem stretches_concat_none (xs : List (Option α)) : stretches (xs ++ [none]) = stretches xs := by
  rw [stretches_append_none, ← List.map_nil, stretches_map_some]
  exact List.append_nil _

/-- A list ends in a stretch, which may be empty and becomes longer with what follows. -/
theorem stretches_cases (xs : List (Option α)) : ∃ ss s,
    (∀ vs, stretches (xs ++ vs.map some) = ss ++ stretches ((s ++ vs).map some)) ∧
      (s ≠ [] ↔ ∃ a, xs.getLast? = some (some a)) := by
  induction xs using List.reverseRecOn with
  | nil => exact ⟨[], [], fun vs => rfl, by simp⟩
  | append_singleton xs x ih =>
    cases x with
    | none =>
      refine ⟨stretches xs, [], fun vs => ?_, by simp⟩
      rw [List.append_assoc, List.singleton_append, stretches_append_none, List.nil_append]
    | some a =>
      obtain ⟨ss, s, hs, -⟩ := ih
      refine ⟨ss, s ++ [a], fun vs => ?_, by simp⟩
      rw [List.append_assoc, List.append_assoc]
      exact hs (a :: vs)

end

namespace Paragraph

/-- The text of a paragraph of code. -/
def code? (o : Options) (p : Paragraph) : Option String :=
  if p.isCode o then some p.sortedText else none

end Paragraph

namespace Element

/-- What an element is for the code around it: its paragraph may be code, and its table is not. -/
def code (o : Options) (e : Element) : List (Option String) :=
  (e.paragraph?.map (·.code? o)).toList ++ (e.table?.map fun _ => none).toList

/-- The texts of the code in a body or a cell: one for each stretch of paragraphs that are code. -/
def codeTexts (o : Options) (es : List Element) : List String :=
  (stretches (es.flatMap (code o))).map String.join

mutual
/-- The contents of the cells in an element, each before those of the cells in it. -/
def cells : Element → List (List Element)
  | mk _ _ _ none => []
  | mk _ _ _ (some ⟨_, _, rows⟩) => cellsOfRows rows
def cellsOfAll : List Element → List (List Element)
  | [] => []
  | e :: es => cells e ++ cellsOfAll es
def cellsOfRows : List (List (List Element)) → List (List Element)
  | [] => []
  | row :: rows => cellsOfRow row ++ cellsOfRows rows
def cellsOfRow : List (List Element) → List (List Element)
  | [] => []
  | cell :: row => cell :: cellsOfAll cell ++ cellsOfRow row
end

end Element

namespace Block

/-- The text of a block of code. -/
def code? : Block → Option String
  | code content => some content
  | _ => none

section
variable {o : Options} {lists : Catalog ListStyle}

theorem code?_ofParagraph {seen seen' : List Bullet} {p : Paragraph} {b : Block}
    (h : ofParagraph o lists seen p = .ok (b, seen')) :
    b.code? = p.code? o ∧ b.cells = [] := by
  obtain ⟨u, ordered, hu, -, -, rfl⟩ | ⟨hu, -, ⟨hl, rfl⟩ | ⟨hl, hc, rfl⟩ | ⟨hl, hc, rfl⟩⟩ :=
    ofParagraph_cases h
  · simp [code?, cells, Paragraph.code?, Paragraph.isCode, hu]
  · simp [code?, cells, Paragraph.code?, Paragraph.isCode, hu, hl]
  · simp [code?, cells, Paragraph.code?, Paragraph.isCode, hu, hl, hc]
  · simp [code?, cells, Paragraph.code?, Paragraph.isCode, hu, hl, hc]

/-- The blocks are code where the elements are. -/
def CodeOf (o : Options) (es : List Element) (bs : List Block) : Prop :=
  bs.map code? = es.flatMap (Element.code o)

theorem code?_ofParagraph? {seen seen' : List Bullet} {p : Option Paragraph} {bs : List Block}
    (h : ofParagraph? o lists seen p = .ok (bs, seen')) :
    bs.map code? = (p.map (·.code? o)).toList ∧ cellsOfAll bs = [] := by
  cases p with
  | none =>
    cases h
    exact ⟨rfl, rfl⟩
  | some p =>
    simp only [ofParagraph?, bind_eq_ok] at h
    obtain ⟨⟨b, seen₁⟩, hp, hb⟩ := h
    cases hb
    obtain ⟨hcode, hcells⟩ := code?_ofParagraph hp
    exact ⟨by simp [hcode], by simp [cellsOfAll, hcells]⟩

mutual
theorem codeOf_ofElement : ∀ (e : Element) {seen seen' : List Bullet} {bs : List Block},
    ofElement o lists seen e = .ok (bs, seen') →
      bs.map code? = e.code o ∧ List.Forall₂ (CodeOf o) e.cells (cellsOfAll bs)
  | .mk _ _ p none, seen, seen', bs, h => by
    obtain ⟨hcode, hcells⟩ := code?_ofParagraph? h
    rw [hcode, hcells]
    exact ⟨(List.append_nil _).symm, .nil⟩
  | .mk _ _ p (some ⟨_, _, rows⟩), seen, seen', bs, h => by
    simp only [ofElement, bind_eq_ok] at h
    obtain ⟨⟨cs, seen₁⟩, hp, ⟨rows', seen₂⟩, hrows, hr⟩ := h
    cases hr
    obtain ⟨hcode, hcells⟩ := code?_ofParagraph? hp
    refine ⟨by rw [List.map_append, hcode]; rfl, ?_⟩
    rw [cellsOfAll_concat, hcells, List.nil_append]
    exact codeOf_ofRows rows hrows
theorem codeOf_ofElements : ∀ (es : List Element) {seen seen' : List Bullet} {bs : List Block},
    ofElements o lists seen es = .ok (bs, seen') →
      CodeOf o es bs ∧ List.Forall₂ (CodeOf o) (Element.cellsOfAll es) (cellsOfAll bs)
  | [], seen, seen', bs, h => by
    cases h
    exact ⟨rfl, .nil⟩
  | e :: es, seen, seen', bs, h => by
    simp only [ofElements, bind_eq_ok] at h
    obtain ⟨⟨bs₁, seen₁⟩, he, ⟨bs₂, seen₂⟩, hes, hr⟩ := h
    cases hr
    obtain ⟨hcode, hcells⟩ := codeOf_ofElement e he
    obtain ⟨hcodes, hall⟩ := codeOf_ofElements es hes
    refine ⟨?_, ?_⟩
    · rw [CodeOf, List.map_append, hcode, hcodes, List.flatMap_cons]
    · rw [Element.cellsOfAll, cellsOfAll_append]
      exact List.rel_append hcells hall
theorem codeOf_ofRows : ∀ (rows : List (List (List Element))) {seen seen' : List Bullet}
    {rows' : List (List (List Block))}, ofRows o lists seen rows = .ok (rows', seen') →
      List.Forall₂ (CodeOf o) (Element.cellsOfRows rows) (cellsOfRows rows')
  | [], seen, seen', rows', h => by
    cases h
    exact .nil
  | row :: rows, seen, seen', rows', h => by
    simp only [ofRows, bind_eq_ok] at h
    obtain ⟨⟨cells', seen₁⟩, hrow, ⟨rest, seen₂⟩, hrows, hr⟩ := h
    cases hr
    exact List.rel_append (codeOf_ofCells row hrow) (codeOf_ofRows rows hrows)
theorem codeOf_ofCells : ∀ (row : List (List Element)) {seen seen' : List Bullet}
    {row' : List (List Block)}, ofCells o lists seen row = .ok (row', seen') →
      List.Forall₂ (CodeOf o) (Element.cellsOfRow row) (cellsOfRow row')
  | [], seen, seen', row', h => by
    cases h
    exact .nil
  | cell :: row, seen, seen', row', h => by
    simp only [ofCells, bind_eq_ok] at h
    obtain ⟨⟨bs, seen₁⟩, hcell, ⟨rest, seen₂⟩, hrow, hr⟩ := h
    cases hr
    obtain ⟨hcode, hcells⟩ := codeOf_ofElements cell hcell
    have hall : List.Forall₂ (CodeOf o) (cell :: Element.cellsOfAll cell) (bs :: cellsOfAll bs) :=
      .cons hcode hcells
    exact List.rel_append hall (codeOf_ofCells row hrow)
end

end

end Block

namespace Tree

/-- The texts of the code among sibling trees. -/
def codeTexts (ts : List Tree) : List String :=
  (ts.filter (·.kind = .code)).map (·.data.content)

theorem codeTexts_append (ts us : List Tree) :
    codeTexts (ts ++ us) = codeTexts ts ++ codeTexts us := by
  rw [codeTexts, List.filter_append, List.map_append]
  rfl

theorem codeTexts_concat_of_ne {t : Tree} (ht : t.kind ≠ .code) (ts : List Tree) :
    codeTexts (ts ++ [t]) = codeTexts ts := by
  have hnil : codeTexts [t] = [] := by simp [codeTexts, ht]
  rw [codeTexts_append, hnil, List.append_nil]

theorem codeTexts_concat_of_eq {t : Tree} (ht : t.kind = .code) (ts : List Tree) :
    codeTexts (ts ++ [t]) = codeTexts ts ++ [t.data.content] := by
  have hone : codeTexts [t] = [t.data.content] := by simp [codeTexts, ht]
  rw [codeTexts_append, hone]

/-- No two siblings beside each other are code. -/
def CodeApart (ts : List Tree) : Prop := ts.IsChain fun t u => ¬ (t.kind = .code ∧ u.kind = .code)

theorem codeApart_concat {ts : List Tree} {t : Tree} :
    CodeApart (ts ++ [t]) ↔
      CodeApart ts ∧ (t.kind = .code → ∀ u ∈ ts.getLast?, u.kind ≠ .code) := by
  simp only [CodeApart, List.isChain_append, List.isChain_singleton, true_and, List.head?_cons,
    Option.mem_some_iff, forall_eq', not_and, and_congr_right_iff]
  exact fun _ => ⟨fun h ht u hu hk => h u hu hk ht, fun h u hu hk ht => h ht u hu hk⟩

/-- The code among sibling trees has the texts of the stretches of code among their blocks, no two
of them side by side, and the last tree is code if the last block is. -/
structure Coded (bs : List Block) (ts : List Tree) : Prop where
  texts : codeTexts ts = (stretches (bs.map Block.code?)).map String.join
  last : (∃ t ∈ ts.getLast?, t.kind = .code) ↔ ∃ a, (bs.map Block.code?).getLast? = some (some a)
  apart : CodeApart ts

namespace Coded
variable {bs : List Block} {ts : List Tree}

theorem concat_of_none (h : Coded bs ts) {b : Block} (hb : b.code? = none) {us : List Tree}
    {u : Tree} (hu : u.kind ≠ .code) (hus : codeTexts us = codeTexts ts) (happart : CodeApart us) :
    Coded (bs ++ [b]) (us ++ [u]) where
  texts := by
    rw [codeTexts_concat_of_ne hu, hus, h.texts, List.map_append, List.map_singleton, hb,
      stretches_concat_none]
  last := by simp [hu, hb]
  apart := codeApart_concat.2 ⟨happart, fun hc => absurd hc hu⟩

theorem code (h : Coded bs ts) (content : String) (id : Nat) :
    Coded (bs ++ [.code content]) (Block.placeCode content id ts) := by
  obtain ⟨ss, s, hs, hopen⟩ := stretches_cases (bs.map Block.code?)
  have htexts : codeTexts ts = ss.map String.join ++ (stretches (s.map some)).map String.join := by
    have hbs := hs []
    rw [List.map_nil, List.append_nil, List.append_nil] at hbs
    rw [h.texts, hbs, List.map_append]
  have hnew : (stretches ((bs ++ [Block.code content]).map Block.code?)).map String.join =
      ss.map String.join ++ [String.join s ++ content] := by
    rw [List.map_append, List.map_singleton]
    change (stretches (bs.map Block.code? ++ [content].map some)).map String.join = _
    rw [hs [content], stretches_map_some, if_neg (by simp)]
    simp
  obtain ⟨us, n, d, vs, rfl, hd, hp⟩ | ⟨hne, hp⟩ := Block.placeCode_cases content id ts
  · -- The last block is code like the last tree, so there is a stretch at the end.
    have hlast : s ≠ [] := hopen.2 (h.last.1 ⟨node n d vs, by simp, hd⟩)
    have hkind : (node n d vs).kind = .code := hd
    rw [codeTexts_concat_of_eq hkind, stretches_map_some, if_neg (by simpa using hlast)] at htexts
    obtain ⟨hus, hcontent⟩ := List.append_inj' htexts rfl
    have hapart := codeApart_concat.1 h.apart
    refine ⟨?_, ?_, ?_⟩
    · have hd' : (node n { d with content := d.content ++ content } vs).kind = .code := hd
      rw [hp, hnew, codeTexts_concat_of_eq hd', hus]
      simpa using hcontent
    · simp [hp, hd, Block.code?]
    · rw [hp]
      exact codeApart_concat.2 ⟨hapart.1, fun _ => hapart.2 hd⟩
  · have hlast : s = [] := by
      by_contra hne_nil
      obtain ⟨t, ht, hk⟩ := h.last.2 (hopen.1 hne_nil)
      exact hne t ht hk
    subst hlast
    rw [stretches_map_some] at htexts
    refine ⟨?_, ?_, ?_⟩
    · rw [hp, hnew, codeTexts_concat_of_eq rfl, htexts]
      simp
    · simp [hp, Block.code?]
    · rw [hp]
      exact codeApart_concat.2 ⟨h.apart, fun _ => hne⟩

theorem place (h : Coded bs ts) (i : ListItem) (id : Nat) :
    Coded (bs ++ [.item i]) (i.place id i.depth ts) := by
  have hlist {t : Tree} (ht : t.kind = i.listKind) : t.kind ≠ .code := by
    rw [ht]
    exact Kind.ne_of_isList i.isList_listKind rfl
  obtain ⟨us, u, rfl, hu, hp⟩ | ⟨-, hp⟩ := i.place_cases id i.depth ts
  · have hu' : (i.insert id u).kind ≠ .code := hlist (by rw [ListItem.kind_insert, hu])
    rw [hp]
    exact h.concat_of_none rfl hu' (codeTexts_concat_of_ne (hlist hu) us).symm
      (codeApart_concat.1 h.apart).1
  · have hnew := hlist (ListItem.kind_newList (i := i) id (Nat.le_refl _))
    rw [hp]
    exact h.concat_of_none rfl hnew rfl h.apart

end Coded

theorem coded_keeps : Block.Keeps (fun _ => True) Coded where
  nil := ⟨by simp [codeTexts, stretches], by simp, .nil⟩
  paragraph _ _ _ _ _ h := h.concat_of_none rfl (by simp) rfl h.apart
  heading _ _ _ _ _ _ h := h.concat_of_none rfl (by simp) rfl h.apart
  code id _ _ content _ h := h.code content id
  item id _ _ i _ h := h.place i id
  table _ _ _ _ _ _ h := h.concat_of_none rfl (by simp) rfl h.apart

theorem codeApart_of_forall_ne {ts : List Tree} (h : ∀ t ∈ ts, t.kind ≠ .code) : CodeApart ts := by
  have hpairs : ts.Pairwise fun t u => ¬ (t.kind = .code ∧ u.kind = .code) :=
    List.pairwise_of_forall_mem_list fun t ht _ _ hk => h t ht hk.1
  exact hpairs.isChain

end Tree

/-- The code of a document. In the body and in every cell, each of them in document order, the nodes
of code have the texts of the stretches of paragraphs that are code, in order. No node of code
stands anywhere else or beside another one, and there is nothing below it. -/
theorem Document.code_tree {d : Document} {o : Options} {t : Tree} (h : d.tree o = .ok t) :
    (t :: t.cells).map (fun s => Tree.codeTexts s.children) =
        (d.body :: Element.cellsOfAll d.body).map (Element.codeTexts o) ∧
      (∀ s ∈ t.preorder, s.kind = .code → s.children = [] ∧ ∃ p ∈ t :: t.cells, s ∈ p.children) ∧
      ∀ s ∈ t.preorder, Tree.CodeApart s.children := by
  have hroot := kind_tree h
  have hfits := everywhere_fits h
  obtain ⟨bs, hbs, rfl⟩ := tree_eq_ok h
  -- Code stands under the root or a cell, since no other node may hold it.
  have hparent {s c : Tree} (hs : s ∈ (Tree.ofBlocks bs).preorder) (hc : c ∈ s.children)
      (hk : c.kind = .code) : s ∈ Tree.ofBlocks bs :: (Tree.ofBlocks bs).cells := by
    have hm := (hfits s hs).children c hc
    rw [hk] at hm
    cases hsk : s.kind with
    | document => exact List.mem_cons.2 (.inl (Tree.eq_of_kind_document hfits hs hsk))
    | tableCell => exact List.mem_cons.2 (.inr (Tree.mem_cells.2 ⟨hs, hsk⟩))
    | _ => simp [hsk, Kind.mayHold, Kind.isInline] at hm
  have hleaves : ∀ b ∈ Block.leavesOfAll bs, True := fun _ _ => trivial
  have hcoded := Tree.forall₂_cells_ofBlocks Tree.coded_keeps hleaves
  refine ⟨?_, fun s hs hk => ⟨(hfits s hs).grammatical.leaf (.inr (.inl hk)), ?_⟩, fun s hs => ?_⟩
  · obtain ⟨seen, hes⟩ := blocks_eq_ok hbs
    obtain ⟨hbody, hcells⟩ := Block.codeOf_ofElements d.body hes
    have hof : List.Forall₂ (Block.CodeOf o) (d.body :: Element.cellsOfAll d.body)
        (bs :: Block.cellsOfAll bs) := .cons hbody hcells
    rw [map_eq_of_forall₂ (fun cs s hcs => hcs.texts) hcoded]
    exact map_eq_of_forall₂ (fun es cs hcs => by rw [Element.codeTexts, ← hcs]) hof
  · obtain rfl | ⟨p, hp, hsp⟩ := Tree.eq_or_mem_children hs
    · rw [hroot] at hk
      cases hk
    · exact ⟨p, hparent hp hsp hk, hsp⟩
  · by_cases hcode : ∃ c ∈ s.children, c.kind = .code
    · obtain ⟨c, hc, hk⟩ := hcode
      obtain ⟨cs, -, hcs⟩ := exists_left_of_forall₂ hcoded (hparent hs hc hk)
      exact hcs.apart
    · refine Tree.codeApart_of_forall_ne fun c hc hk => hcode ⟨c, hc, hk⟩

namespace Paragraph

/-- A paragraph of code. -/
def ofCode (content : String) : Paragraph := addRun {} (.inFont content "Consolas")

/-- A paragraph of code in two runs, the second of them in front by its offset. -/
def ofCodes (first second : String) : Paragraph := { elements := [
  { startIndex := 1, textRun := some (.inFont second "Consolas") },
  { startIndex := 0, textRun := some (.inFont first "Consolas") }] }

theorem sortedText_ofCode (content : String) : (ofCode content).sortedText = content := by
  simp [sortedText, sortedElements, ofCode, addRun, TextRun.inFont]

theorem sortedText_ofCodes (first second : String) :
    (ofCodes first second).sortedText = first ++ second := by
  simp [sortedText, sortedElements, ofCodes, List.mergeSort, TextRun.inFont]

end Paragraph

/-- Code that is joined over an empty element and an empty run, code that is cut by a heading and by
the table behind it, and code in cells. -/
def Document.monospaced : Document where
  body := [
    .ofParagraph (.ofCodes "a" "b"),
    .mk 0 0 none none,
    .ofParagraph (.ofCode ""),
    .mk 0 0 (some (.ofCode "c")) (some (.addRow {} [
      [.ofParagraph (.ofCode "d"), .ofTable (.addRow {} [[.ofParagraph (.ofCode "e")]]),
        .ofParagraph (.ofCode "f"), .ofParagraph (.ofCode "g")], []])),
    .ofParagraph (.ofCode "h"),
    .ofParagraph { Paragraph.ofCode "i" with style := .heading1 },
    .ofParagraph (.ofCode "j")]

theorem Document.code_monospaced : ∃ t, monospaced.tree {} = .ok t ∧
    (t :: t.cells).map (fun s => Tree.codeTexts s.children) =
        [["abc", "h", "j"], ["d", "fg"], ["e"], []] ∧
      (∀ s ∈ t.preorder, s.kind = .code → s.children = [] ∧ ∃ p ∈ t :: t.cells, s ∈ p.children) ∧
      ∀ s ∈ t.preorder, Tree.CodeApart s.children := by
  obtain ⟨t, ht⟩ : ∃ t, monospaced.tree {} = .ok t := ⟨_, rfl⟩
  obtain ⟨htexts, hcode⟩ := code_tree ht
  have hstretches : (monospaced.body :: Element.cellsOfAll monospaced.body).map (fun es =>
        stretches (es.flatMap (Element.code {}))) =
      [[[(Paragraph.ofCodes "a" "b").sortedText, (Paragraph.ofCode "").sortedText,
            (Paragraph.ofCode "c").sortedText],
          [(Paragraph.ofCode "h").sortedText], [(Paragraph.ofCode "j").sortedText]],
        [[(Paragraph.ofCode "d").sortedText],
          [(Paragraph.ofCode "f").sortedText, (Paragraph.ofCode "g").sortedText]],
        [[(Paragraph.ofCode "e").sortedText]], []] := rfl
  have hvalue : (monospaced.body :: Element.cellsOfAll monospaced.body).map
      (Element.codeTexts {}) = [["abc", "h", "j"], ["d", "fg"], ["e"], []] := by
    simp only [Paragraph.sortedText_ofCode, Paragraph.sortedText_ofCodes] at hstretches
    have hjoin := congrArg (List.map (List.map String.join)) hstretches
    rw [List.map_map] at hjoin
    exact hjoin
  exact ⟨t, ht, htexts.trans hvalue, hcode⟩

end RichText
