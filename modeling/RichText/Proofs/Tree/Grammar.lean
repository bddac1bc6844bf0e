import Mathlib.Tactic.MkIffOfInductiveProp
import RichText.Proofs.Tree.Placing

/-!
The grammar of document trees: what a node of each kind holds, and which kinds may stand below it.
Every node of the tree of a document fits the grammar.
-/
namespace RichText

namespace Kind

/-- Whether nodes of the kind stand in a body or in a table cell. -/
def isBlock : Kind → Bool
  | .paragraph | .heading | .code | .unorderedList | .orderedList | .table => true
  | _ => false

/-- The kind of the items in a list. -/
def itemKind : Kind → Kind
  | .orderedList => .orderedItem
  | _ => .unorderedItem

/-- Whether a node of the second kind may stand under one of the first. -/
def mayHold : Kind → Kind → Bool
  | .document, c | .tableCell, c => c.isBlock
  | .table, c => c = .tableRow
  | .tableRow, c => c = .tableCell
  | .unorderedList, c => c = .unorderedList || c = .unorderedItem
  | .orderedList, c => c = .orderedList || c = .orderedItem
  | .paragraph, c | .heading, c | .unorderedItem, c | .orderedItem, c => c.isInline
  | .bold, c => c = .italic || c = .link || c = .plain
  | .italic, c => c = .link || c = .plain
  | .link, c => c = .plain
  | .plain, _ | .code, _ | .image, _ => false

/-- Whether nodes of the kind are put around one node. -/
def isSpan : Kind → Bool
  | .bold | .italic | .link => true
  | _ => false

theorem isItem_itemKind (k : Kind) : k.itemKind.isItem := by cases k <;> decide

theorem mayHold_list_iff {k c : Kind} (hk : k.isList) :
    k.mayHold c ↔ c = k.itemKind ∨ c = k := by
  cases k <;> simp_all [isList, mayHold, itemKind, or_comm]

theorem mayHold_document (k : Kind) : k.mayHold .document = false := by cases k <;> rfl

/-- What holds nodes has no text of its own. -/
theorem ne_of_mayHold {k c : Kind} (h : k.mayHold c) : k ≠ .plain ∧ k ≠ .code := by
  constructor <;> rintro rfl <;> cases h

end Kind

/-- What a node of its kind holds. -/
@[mk_iff] structure Node.Fits (d : Node) : Prop where
  content : d.content ≠ "" → d.kind = .plain ∨ d.kind = .code
  plain : d.kind = .plain → d.content ≠ ""
  url : d.url.isSome ↔ d.kind = .link
  object : d.objectId.isSome ↔ d.kind = .image
  heading : d.kind = .heading → 1 ≤ d.level ∧ d.level ≤ 6
  level : d.level ≠ 0 → d.kind = .heading ∨ d.kind.isList ∨ d.kind.isItem
  number : d.number ≠ 0 ↔ d.kind.isItem

theorem Node.Fits.url_eq_none {d : Node} (h : d.Fits) (hk : d.kind ≠ .link) : d.url = none := by
  simpa [hk] using h.url

theorem Node.Fits.content_eq_empty {d : Node} (h : d.Fits) (hk : d.kind ≠ .plain ∧ d.kind ≠ .code) :
    d.content = "" := by
  simpa [hk] using h.content

/-- A node that holds what its kind holds, above nodes that may stand there. -/
structure Tree.Fits (t : Tree) : Prop where
  data : t.data.Fits
  children : ∀ c ∈ t.children, t.kind.mayHold c.kind
  single : t.kind.isSpan → t.children.length = 1

/-- The pieces of a line are not empty. -/
def Inline.Fits : Inline → Prop
  | text _ _ _ content => content ≠ ""
  | image _ => True

/-- Headings have a level from one to six, and items are counted from one. -/
def Block.Fits : Block → Prop
  | .paragraph is => ∀ i ∈ is, i.Fits
  | .heading level is => (1 ≤ level ∧ level ≤ 6) ∧ ∀ i ∈ is, i.Fits
  | .item i => i.number ≠ 0 ∧ ∀ j ∈ i.inlines, j.Fits
  | .code _ | .table _ => True

theorem NamedStyle.headingLevel_le (s : NamedStyle) : s.headingLevel ≤ 6 := by cases s <;> decide

theorem Paragraph.fits_inlines (p : Paragraph) : ∀ i ∈ p.inlines, i.Fits := by
  intro i hi
  obtain ⟨e, -, he⟩ := List.mem_filterMap.1 hi
  unfold Inline.ofElement? at he
  split at he
  · split at he
    · cases he
    · cases he
      assumption
  · cases he
    trivial
  · cases he

theorem Block.fits_ofParagraph {o : Options} {lists : Catalog ListStyle}
    {seen seen' : List Bullet} {p : Paragraph} {b : Block}
    (h : ofParagraph o lists seen p = .ok (b, seen')) : b.Fits := by
  obtain ⟨u, ordered, -, -, -, rfl⟩ | ⟨-, -, ⟨hl, rfl⟩ | ⟨-, -, rfl⟩ | ⟨-, -, rfl⟩⟩ :=
    ofParagraph_cases h
  · exact ⟨Nat.succ_ne_zero _, p.fits_inlines⟩
  · exact ⟨⟨Nat.pos_of_ne_zero hl, p.style.headingLevel_le⟩, p.fits_inlines⟩
  · trivial
  · exact p.fits_inlines

theorem Document.fits_blocks {d : Document} {o : Options} {bs : List Block}
    (h : d.blocks o = .ok bs) : ∀ b ∈ Block.leavesOfAll bs, b.Fits := by
  intro b hb
  obtain ⟨seen, hps⟩ := leaves_blocks h
  obtain ⟨p, -, before, upTo, hp⟩ := Block.exists_of_mem_ofParagraphs hps hb
  exact Block.fits_ofParagraph hp

namespace Tree

theorem fits_node {i : Nat} {d : Node} {ts : List Tree} :
    (node i d ts).Fits ↔ d.Fits ∧ (∀ c ∈ ts, d.kind.mayHold c.kind) ∧
      (d.kind.isSpan → ts.length = 1) :=
  ⟨fun h => ⟨h.data, h.children, h.single⟩, fun h => ⟨h.1, h.2.1, h.2.2⟩⟩

/-- Only the root is a document. -/
theorem eq_of_kind_document {s t : Tree} (h : t.Everywhere Fits) (hs : s ∈ t.preorder)
    (hk : s.kind = .document) : s = t := by
  obtain rfl | ⟨p, hp, hsp⟩ := eq_or_mem_children hs
  · rfl
  · have hm := (h p hp).children s hsp
    rw [hk, Kind.mayHold_document] at hm
    cases hm

theorem fits_inline (id : Nat) {i : Inline} (h : i.Fits) : (i.tree id).Everywhere Fits := by
  cases i with
  | text bold italic url content =>
    cases bold <;> cases italic <;> cases url <;>
      simp_all [Inline.Fits, Inline.tree, Inline.spans, chain, everywhere_node, fits_node,
        Node.fits_iff, Kind.mayHold, Kind.isSpan, Kind.isList, Kind.isItem]
  | image objectId =>
    simp [Inline.tree, everywhere_node, fits_node, Node.fits_iff, Kind.isSpan, Kind.isList,
      Kind.isItem]

theorem fits_inlines (id : Nat) {is : List Inline} (h : ∀ i ∈ is, i.Fits) :
    ∀ t ∈ Inline.trees id is, t.kind.isInline ∧ t.Everywhere Fits := by
  induction is generalizing id with
  | nil => simp [Inline.trees]
  | cons i is ih =>
    simp only [Inline.trees, List.mem_cons, forall_eq_or_imp] at h ⊢
    exact ⟨⟨(Inline.everywhere_tree id i).self, fits_inline id h.1⟩, ih _ h.2⟩

/-- A node above the pieces of a line. -/
theorem fits_line {id : Nat} {d : Node} {is : List Inline} (hd : d.Fits)
    (hk : ∀ c : Kind, c.isInline → d.kind.mayHold c) (hs : d.kind.isSpan = false)
    (h : ∀ i ∈ is, i.Fits) : (node id d (Inline.trees (id + 1) is)).Everywhere Fits := by
  have hts := fits_inlines (id + 1) h
  rw [everywhere_node, fits_node]
  refine ⟨⟨hd, fun c hc => hk _ (hts c hc).1, by simp [hs]⟩, fun t ht => (hts t ht).2⟩

theorem fits_item (id : Nat) {i : ListItem} (h : (Block.item i).Fits) :
    (i.tree id).Everywhere Fits := by
  obtain ⟨hn, his⟩ := h
  cases ho : i.ordered <;>
    exact fits_line (by simp [Node.fits_iff, ListItem.itemKind, ho, hn, Kind.isItem])
      (by simp [ListItem.itemKind, ho, Kind.mayHold]) (by simp [ListItem.itemKind, ho, Kind.isSpan])
      his

theorem mayHold_newList (i : ListItem) (id level : Nat) :
    i.listKind.mayHold (i.newList id level).kind := by
  by_cases hle : level ≤ i.depth
  · rw [ListItem.kind_newList id hle]
    cases ho : i.ordered <;> simp [ListItem.listKind, ho, Kind.mayHold]
  · rw [ListItem.newList_of_lt id (by omega), ListItem.tree]
    cases ho : i.ordered <;> simp [ListItem.listKind, ListItem.itemKind, ho, Kind.mayHold]

theorem fits_newList {i : ListItem} (h : (Block.item i).Fits) (id level : Nat) :
    (i.newList id level).Everywhere Fits := by
  by_cases hle : level ≤ i.depth
  · have hd : Node.Fits { kind := i.listKind, level } := by
      cases ho : i.ordered <;>
        simp [Node.fits_iff, ListItem.listKind, ho, Kind.isList, Kind.isItem]
    have hs : i.listKind.isSpan = false := by
      cases ho : i.ordered <;> simp [ListItem.listKind, ho, Kind.isSpan]
    rw [ListItem.newList_of_le id hle, everywhere_node, fits_node]
    simp only [List.mem_singleton, forall_eq, hs]
    exact ⟨⟨hd, mayHold_newList i _ _, by simp⟩, fits_newList h (id + 1) (level + 1)⟩
  · rw [ListItem.newList_of_lt id (by omega)]
    exact fits_item id h
termination_by i.depth + 1 - level

theorem fits_insert {i : ListItem} (h : (Block.item i).Fits) (id : Nat) {t : Tree}
    (ht : t.Everywhere Fits) (hk : t.kind = i.listKind) : (i.insert id t).Everywhere Fits := by
  induction t with
  | node n d ts ih =>
    rw [kind_node] at hk
    have hs : d.kind.isSpan = false := by
      cases ho : i.ordered <;> simp [hk, ListItem.listKind, ho, Kind.isSpan]
    rw [everywhere_node, fits_node] at ht
    obtain ⟨⟨hd, hts, -⟩, hall⟩ := ht
    rw [ListItem.insert]
    split
    · obtain ⟨us, u, rfl, hu, hp⟩ | ⟨-, hp⟩ := i.place_cases id (d.level + 1) ts
      · rw [hp, everywhere_node, fits_node, hs]
        simp only [List.mem_append, List.mem_singleton, or_imp, forall_and, forall_eq,
          ListItem.kind_insert] at hts hall ⊢
        exact ⟨⟨hd, hts, by simp⟩, hall.1, ih u (by simp) hall.2 hu⟩
      · rw [hp, everywhere_node, fits_node, hs]
        simp only [List.mem_append, List.mem_singleton, or_imp, forall_and, forall_eq]
        exact ⟨⟨hd, ⟨hts, hk ▸ mayHold_newList i _ _⟩, by simp⟩, hall,
          fits_newList h id (d.level + 1)⟩
    · have hm : d.kind.mayHold i.itemKind := by
        cases ho : i.ordered <;>
          simp [hk, ListItem.listKind, ListItem.itemKind, ho, Kind.mayHold]
      rw [everywhere_node, fits_node, hs]
      simp only [List.mem_append, List.mem_singleton, or_imp, forall_and, forall_eq]
      exact ⟨⟨hd, ⟨hts, hm⟩, by simp⟩, hall, fits_item id h⟩

/-- Trees in a body or a cell that fit the grammar. -/
def FitsBody (ts : List Tree) : Prop := ∀ t ∈ ts, t.kind.isBlock ∧ t.Everywhere Fits

theorem fitsBody_concat {ts : List Tree} {t : Tree} :
    FitsBody (ts ++ [t]) ↔ FitsBody ts ∧ t.kind.isBlock ∧ t.Everywhere Fits := by
  simp [FitsBody, or_imp, forall_and, and_and_and_comm]

/-- A node above the trees of a body or a cell. -/
theorem FitsBody.node {i : Nat} {d : Node} {ts : List Tree} (hts : FitsBody ts)
    (hk : d.kind = .document ∨ d.kind = .tableCell) (hd : d.Fits) :
    (Tree.node i d ts).Everywhere Fits := by
  rw [everywhere_node, fits_node]
  refine ⟨⟨hd, fun c hc => ?_, fun hs => ?_⟩, fun t ht => (hts t ht).2⟩
  · have := (hts c hc).1
    rcases hk with hk | hk <;> simpa [hk, Kind.mayHold] using this
  · rcases hk with hk | hk <;> simp [hk, Kind.isSpan] at hs

theorem fits_table {id : Nat} {rows : List (List (List Block))} {us : List Tree}
    (hus : List.Forall₂ (Block.IsRow fun _ => FitsBody) rows us) :
    (Tree.node id { kind := .table } us).Everywhere Fits := by
  have hrows := Block.rows_of_forall₂ hus
  rw [everywhere_node, fits_node]
  refine ⟨⟨by simp [Node.fits_iff, Kind.isList, Kind.isItem], fun row hrow => ?_,
    by simp [Kind.isSpan]⟩, fun row hrow => ?_⟩
  · obtain ⟨n, cells, rfl, -⟩ := hrows row hrow
    rfl
  · obtain ⟨n, cells, rfl, hcells⟩ := hrows row hrow
    rw [everywhere_node, fits_node]
    refine ⟨⟨by simp [Node.fits_iff, Kind.isList, Kind.isItem], fun cell hcell => ?_,
      by simp [Kind.isSpan]⟩, fun cell hcell => ?_⟩
    · obtain ⟨m, ts, rfl, -⟩ := hcells cell hcell
      rfl
    · obtain ⟨m, ts, rfl, hts⟩ := hcells cell hcell
      exact hts.node (.inr rfl) (by simp [Node.fits_iff, Kind.isList, Kind.isItem])

theorem fitsBody_keeps : Block.Keeps Block.Fits fun _ => FitsBody where
  nil := by simp [FitsBody]
  paragraph id bs ts is h hts := by
    refine fitsBody_concat.2 ⟨hts, rfl, fits_line ?_ (fun c hc => hc) rfl h⟩
    simp [Node.fits_iff, Kind.isList, Kind.isItem]
  heading id bs ts level is h hts := by
    refine fitsBody_concat.2 ⟨hts, rfl, fits_line ?_ (fun c hc => hc) rfl h.2⟩
    simp [Node.fits_iff, Kind.isItem, h.1]
  code id bs ts content _ hts := by
    obtain ⟨us, n, d, vs, rfl, hd, hp⟩ | ⟨-, hp⟩ := Block.placeCode_cases content id ts
    · obtain ⟨hus, hk, ht⟩ := fitsBody_concat.1 hts
      rw [everywhere_node, fits_node] at ht
      obtain ⟨⟨hf, hvs, hs⟩, hall⟩ := ht
      rw [hp, fitsBody_concat, everywhere_node, fits_node]
      refine ⟨hus, hk, ⟨?_, hvs, hs⟩, hall⟩
      exact { hf with content := fun _ => .inr hd, plain := by simp [hd] }
    · rw [hp]
      refine fitsBody_concat.2 ⟨hts, rfl, ?_⟩
      simp [everywhere_node, fits_node, Node.fits_iff, Kind.isList, Kind.isItem, Kind.isSpan]
  item id bs ts i h hts := by
    obtain ⟨us, u, rfl, hu, hp⟩ | ⟨-, hp⟩ := i.place_cases id i.depth ts
    · obtain ⟨hus, hk, ht⟩ := fitsBody_concat.1 hts
      rw [hp]
      exact fitsBody_concat.2 ⟨hus, by simpa using hk, fits_insert h id ht hu⟩
    · rw [hp]
      refine fitsBody_concat.2 ⟨hts, ?_, fits_newList h id i.depth⟩
      rw [ListItem.kind_newList id (Nat.le_refl _)]
      cases ho : i.ordered <;> simp [ListItem.listKind, ho, Kind.isBlock]
  table id bs ts rows us hus hts := fitsBody_concat.2 ⟨hts, rfl, fits_table hus⟩

theorem fitsBody_placeAll {d : Document} {o : Options} {bs : List Block}
    (h : d.blocks o = .ok bs) : FitsBody (Block.placeAll 1 [] bs) :=
  fitsBody_keeps.placeAll_nil 1 (Document.fits_blocks h)

end Tree

/-- Every node of the tree of a document fits the grammar. -/
theorem Document.everywhere_fits {d : Document} {o : Options} {t : Tree} (h : d.tree o = .ok t) :
    t.Everywhere Tree.Fits := by
  obtain ⟨bs, hbs, rfl⟩ := tree_eq_ok h
  refine (Tree.fitsBody_placeAll hbs).node (.inl rfl) ?_
  simp [Node.fits_iff, Kind.isList, Kind.isItem]

theorem Document.kind_tree {d : Document} {o : Options} {t : Tree} (h : d.tree o = .ok t) :
    t.kind = .document := by
  obtain ⟨bs, -, rfl⟩ := tree_eq_ok h
  rfl

namespace Tree

theorem Fits.exists_child {t : Tree} (h : t.Fits) (hs : t.kind.isSpan) :
    ∃ c, t.children = [c] ∧ t.kind.mayHold c.kind := by
  obtain ⟨c, hc⟩ := List.length_eq_one_iff.1 (h.single hs)
  have hmem : c ∈ t.children := by rw [hc]; exact List.mem_cons_self
  exact ⟨c, hc, h.children c hmem⟩

theorem Fits.children_eq_nil {t : Tree} (h : t.Fits) (hk : ∀ c, t.kind.mayHold c = false) :
    t.children = [] := by
  rw [List.eq_nil_iff_forall_not_mem]
  intro c hc
  have hm := h.children c hc
  rw [hk] at hm
  cases hm

/-- A node by the rules of its kind. -/
structure Grammatical (s : Tree) : Prop where
  blocks : s.kind = .document ∨ s.kind = .tableCell → ∀ c ∈ s.children,
    c.kind = .paragraph ∨ c.kind = .heading ∨ c.kind = .code ∨ c.kind.isList ∨ c.kind = .table
  rows : s.kind = .table → ∀ c ∈ s.children, c.kind = .tableRow
  cells : s.kind = .tableRow → ∀ c ∈ s.children, c.kind = .tableCell
  line : s.kind = .paragraph ∨ s.kind = .heading ∨ s.kind.isItem → ∀ c ∈ s.children,
    c.kind = .bold ∨ c.kind = .italic ∨ c.kind = .link ∨ c.kind = .plain ∨ c.kind = .image
  bold : s.kind = .bold → ∃ c, s.children = [c] ∧
    (c.kind = .italic ∨ c.kind = .link ∨ c.kind = .plain)
  italic : s.kind = .italic → ∃ c, s.children = [c] ∧ (c.kind = .link ∨ c.kind = .plain)
  link : s.kind = .link → ∃ c, s.children = [c] ∧ c.kind = .plain
  leaf : s.kind = .plain ∨ s.kind = .code ∨ s.kind = .image → s.children = []
  plain : s.kind = .plain → s.data.content ≠ ""
  content : s.data.content ≠ "" → s.kind = .plain ∨ s.kind = .code
  url : s.data.url.isSome ↔ s.kind = .link
  object : s.data.objectId.isSome ↔ s.kind = .image
  heading : s.kind = .heading → 1 ≤ s.data.level ∧ s.data.level ≤ 6
  flat : s.kind ≠ .heading → ¬ s.kind.isList → ¬ s.kind.isItem → s.data.level = 0
  counted : s.kind.isItem → 1 ≤ s.data.number
  uncounted : ¬ s.kind.isItem → s.data.number = 0

/-- What the kinds allow below a node, one kind at a time. -/
theorem Fits.grammatical {s : Tree} (h : s.Fits) : s.Grammatical where
  blocks hk c hc := by
    have hm := h.children c hc
    have hblock : c.kind.isBlock := by rcases hk with hk | hk <;> simpa [hk, Kind.mayHold] using hm
    cases hck : c.kind <;> simp_all [Kind.isBlock, Kind.isList]
  rows hk c hc := by simpa [hk, Kind.mayHold] using h.children c hc
  cells hk c hc := by simpa [hk, Kind.mayHold] using h.children c hc
  line hk c hc := by
    have hm := h.children c hc
    have hinline : c.kind.isInline := by
      cases hsk : s.kind <;> simp_all [Kind.mayHold, Kind.isItem]
    cases hck : c.kind <;> simp_all [Kind.isInline]
  bold hk := by
    obtain ⟨c, hc, hm⟩ := h.exists_child (by rw [hk]; rfl)
    exact ⟨c, hc, by simpa [hk, Kind.mayHold, or_assoc] using hm⟩
  italic hk := by
    obtain ⟨c, hc, hm⟩ := h.exists_child (by rw [hk]; rfl)
    exact ⟨c, hc, by simpa [hk, Kind.mayHold] using hm⟩
  link hk := by
    obtain ⟨c, hc, hm⟩ := h.exists_child (by rw [hk]; rfl)
    exact ⟨c, hc, by simpa [hk, Kind.mayHold] using hm⟩
  leaf hk := h.children_eq_nil fun c => by rcases hk with hk | hk | hk <;> rw [hk] <;> rfl
  plain := h.data.plain
  content := h.data.content
  url := h.data.url
  object := h.data.object
  heading := h.data.heading
  flat hheading hlist hitem := by
    by_contra hl
    exact (h.data.level hl).elim hheading fun hk => hk.elim hlist hitem
  counted hk := Nat.pos_of_ne_zero (h.data.number.2 hk)
  uncounted hk := by
    by_contra hn
    exact hk (h.data.number.1 hn)

end Tree

end RichText
