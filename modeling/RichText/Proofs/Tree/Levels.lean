import RichText.Proofs.Tree.Containers
import RichText.Proofs.Tree.Numbering

/-!
The levels of list items and containers. An item stands at the depth of its bullet, and a container
at the level of the container around it or of the item it opens with. So all levels are at least one
as long as no bullet is so deep that its depth wraps around, and with this the nodes of a tree keep
all the rules of their kinds.
-/
namespace RichText

namespace Tree

theorem forall_mem_items {t : Tree} {P : Node → Prop} :
    (∀ d ∈ t.items, P d) ↔ ∀ s ∈ t.preorder, s.kind.isItem → P s.data := by
  simp only [items, List.mem_filter, List.mem_map, and_imp, forall_exists_index,
    forall_apply_eq_imp_iff₂]
  rfl

/-- Containers go down from an item one level at a time. -/
theorem one_le_level_of_isList {t : Tree} (hroot : t.kind = .document)
    (h : t.Everywhere Disciplined) (hitems : ∀ s ∈ t.preorder, s.kind.isItem → 1 ≤ s.data.level)
    {c : Tree} (hc : c ∈ t.preorder) (hk : c.kind.isList) : 1 ≤ c.data.level := by
  obtain rfl | ⟨s, hs, hcs⟩ := eq_or_mem_children hc
  · rw [hroot] at hk
    cases hk
  · by_cases hl : s.kind.isList
    · rw [((h s hs).nested hl c hcs hk).1]
      exact Nat.le_add_left 1 _
    · obtain ⟨-, i, rest, hrest, hi, hlevel⟩ := (h s hs).outermost hl c hcs hk
      rw [← hlevel]
      have hi' : i ∈ c.children := by
        rw [hrest]
        exact List.mem_cons_self
      exact hitems i (mem_preorder_of_mem_children hc hi') hi

end Tree

/-- The levels of containers and items begin at one, except in documents with a bullet so deep that
its depth wraps around. -/
theorem Document.one_le_level_iff {d : Document} {o : Options} {t : Tree} (h : d.tree o = .ok t) :
    (∀ s ∈ t.preorder, s.kind.isList ∨ s.kind.isItem → 1 ≤ s.data.level) ↔
      ∀ b ∈ d.bullets, b.level.toNat < 4294967295 := by
  have hitems : (∀ s ∈ t.preorder, s.kind.isItem → 1 ≤ s.data.level) ↔
      ∀ b ∈ d.bullets, b.level.toNat < 4294967295 := by
    rw [← Tree.forall_mem_items (P := fun i => 1 ≤ i.level), ← List.forall_mem_map,
      levels_items h, List.forall_mem_map]
    simp only [Bullet.one_le_depth_iff]
  rw [← hitems]
  constructor
  · exact fun hall s hs hk => hall s hs (.inr hk)
  · rintro hall s hs (hk | hk)
    · exact Tree.one_le_level_of_isList (kind_tree h) (Tree.everywhere_disciplined h) hall hs hk
    · exact hall s hs hk

/-- Every node of the tree of a document keeps the rules of its kind, and the root and no other node
is a document. Containers and items have levels from one on, unless the depth of a bullet wraps
around. -/
theorem Document.grammatical_tree {d : Document} {o : Options} {t : Tree} (h : d.tree o = .ok t) :
    t.Everywhere Tree.Grammatical ∧ t.kind = .document ∧
      (∀ s ∈ t.preorder, ∀ c ∈ s.children, c.kind ≠ .document) ∧
      ((∀ s ∈ t.preorder, s.kind.isList ∨ s.kind.isItem → 1 ≤ s.data.level) ↔
        ∀ b ∈ d.bullets, b.level.toNat < 4294967295) := by
  have hfits := everywhere_fits h
  refine ⟨hfits.mono fun s hs => hs.grammatical, kind_tree h, ?_, one_le_level_iff h⟩
  intro s hs c hc hk
  have hm := (hfits s hs).children c hc
  rw [hk, Kind.mayHold_document] at hm
  cases hm

/-- A heading in all styles at once, an image, code that is joined, and lists in a table. -/
def Document.mixed : Document :=
  (({} : Document).addList "n" .numbered)
    |>.addParagraph { Paragraph.addRun {} (.withBold (.withItalic (.withLink (.ofText "a") "u")))
      with style := .heading2 }
    |>.addParagraph (.addObject (.ofText "b") "o")
    |>.addParagraph (.addRun {} (.inFont "" "Consolas"))
    |>.addParagraph (.addRun {} (.inFont "c" "Consolas"))
    |>.addTable (.addRow {} [[], [.ofParagraph (.bulleted "n" 2 "d"),
      .ofParagraph (.bulleted "n" 4 "e")]])

theorem Document.grammatical_mixed : ∃ t, mixed.tree {} = .ok t ∧
    t.Everywhere Tree.Grammatical ∧ t.kind = .document ∧
      (∀ s ∈ t.preorder, ∀ c ∈ s.children, c.kind ≠ .document) ∧
      ∀ s ∈ t.preorder, s.kind.isList ∨ s.kind.isItem → 1 ≤ s.data.level := by
  obtain ⟨t, ht⟩ : ∃ t, mixed.tree {} = .ok t := ⟨_, rfl⟩
  obtain ⟨hall, hroot, hothers, hlevels⟩ := grammatical_tree ht
  exact ⟨t, ht, hall, hroot, hothers, hlevels.2 (by decide)⟩

end RichText
