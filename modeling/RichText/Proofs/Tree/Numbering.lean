import RichText.Document.Build
import RichText.Proofs.Tree.Reading

/-!
The numbers of list items. The items of a tree in preorder are the bullets of the document in
their order, and the items of one list and level are numbered one, two, three and so on over the
whole document, whatever stands between them and whatever containers they are in.
-/
namespace RichText

/-- The bullets in document order. -/
def Document.bullets (d : Document) : List Bullet := d.paragraphs.filterMap Paragraph.bullet

/-- The list items in preorder. -/
def Tree.items (t : Tree) : List Node := (t.preorder.map data).filter fun d => d.kind.isItem

namespace Bullet

/-- Whether the list and the level are defined, with a glyph that counts. -/
def isNumbered (lists : Catalog ListStyle) (b : Bullet) : Bool :=
  ((lists.get? b.listId).bind fun style => style.isOrdered? b.level).getD false

/-- The item of a bullet, as the one of that number in its list and level. -/
def item (lists : Catalog ListStyle) (b : Bullet) (number : Nat) : Node :=
  { kind := if b.isNumbered lists then .orderedItem else .unorderedItem
    level := b.depth
    number }

theorem depth_eq_succ {b : Bullet} (h : b.level.toNat < 4294967295) :
    b.depth = b.level.toNat + 1 := by
  rw [depth, UInt32.toNat_add]
  exact Nat.mod_eq_of_lt (Nat.succ_lt_succ h)

/-- The depth of the deepest bullet is zero. -/
theorem one_le_depth_iff {b : Bullet} : 1 ≤ b.depth ↔ b.level.toNat < 4294967295 := by
  constructor
  · intro h
    have hlt : b.level.toNat < 4294967296 := b.level.toNat_lt
    have hne : b.level.toNat ≠ 4294967295 := by
      intro hlast
      simp [depth, UInt32.toNat_add, hlast] at h
    omega
  · intro h
    rw [depth_eq_succ h]
    exact Nat.succ_pos _

theorem eq_isNumbered {o : Options} {lists : Catalog ListStyle} {b : Bullet} {ordered : Bool}
    (h : b.isOrdered o lists = .ok ordered) : ordered = b.isNumbered lists := by
  unfold isOrdered at h
  unfold isNumbered
  cases hl : lists.get? b.listId with
  | none =>
    simp only [hl] at h
    split at h <;> simp_all
  | some style =>
    simp only [hl] at h
    cases hs : style.isOrdered? b.level with
    | none =>
      simp only [hs] at h
      split at h <;> simp_all
    | some x =>
      simp only [hs, Except.ok.injEq] at h
      simp [hs, h]

variable (lists : Catalog ListStyle)

/-- The items of bullets, given the bullets before them. -/
def itemsAfter (seen : List Bullet) : List Bullet → List Node
  | [] => []
  | b :: bs => b.item lists (seen.count b + 1) :: itemsAfter (b :: seen) bs

theorem itemsAfter_eq_mapIdx (seen bs : List Bullet) :
    itemsAfter lists seen bs =
      bs.mapIdx fun k b => b.item lists (seen.count b + (bs.take (k + 1)).count b) := by
  induction bs generalizing seen with
  | nil => rfl
  | cons b bs ih =>
    have hcount (k : Nat) (c : Bullet) :
        (b :: seen).count c + (bs.take (k + 1)).count c =
          seen.count c + ((b :: bs).take (k + 1 + 1)).count c := by
      simp only [List.take_succ_cons, List.count_cons]
      omega
    rw [itemsAfter, ih, List.mapIdx_cons]
    simp [hcount]

theorem map_level_itemsAfter (seen bs : List Bullet) :
    (itemsAfter lists seen bs).map Node.level = bs.map depth := by
  induction bs generalizing seen with
  | nil => rfl
  | cons b bs ih => rw [itemsAfter, List.map_cons, ih, List.map_cons, item]

/-- The items of one list and level go on counting from the bullets before them. -/
theorem numbers_itemsAfter (seen bs : List Bullet) (b : Bullet) :
    ((bs.zip (itemsAfter lists seen bs)).filter fun e => e.1 = b).map (fun e => e.2.number) =
      List.range' (seen.count b + 1) (bs.count b) := by
  induction bs generalizing seen with
  | nil => rfl
  | cons c bs ih =>
    rw [itemsAfter, List.zip_cons_cons, List.filter_cons]
    by_cases hc : c = b
    · subst hc
      simp [ih, item, List.range'_succ]
    · simp [hc, ih, List.count_cons_of_ne hc]

end Bullet

namespace Block

/-- The items that a block becomes. -/
def items : Block → List Node
  | .item i => [{ kind := i.itemKind, level := i.depth, number := i.number }]
  | _ => []

theorem items_ofParagraphs {o : Options} {lists : Catalog ListStyle} {seen seen' : List Bullet}
    {ps : List Paragraph} {bs : List Block}
    (h : ofParagraphs o lists seen ps = .ok (bs, seen')) :
    bs.flatMap items = Bullet.itemsAfter lists seen (ps.filterMap Paragraph.bullet) := by
  induction ps generalizing seen bs with
  | nil =>
    cases h
    rfl
  | cons p ps ih =>
    obtain ⟨b, seen₁, cs, hp, hps, rfl⟩ := ofParagraphs_cons_ok h
    obtain ⟨u, ordered, hu, ho, rfl, rfl⟩ | ⟨hu, rfl, hb⟩ := ofParagraph_cases hp
    · have hk : ListItem.itemKind ⟨ordered, u.depth, seen.count u + 1, p.inlines⟩ =
          if u.isNumbered lists then .orderedItem else .unorderedItem := by
        rw [ListItem.itemKind, Bullet.eq_isNumbered ho]
      simp [hu, Bullet.itemsAfter, items, Bullet.item, hk, ih hps]
    · have hb' : b.items = [] := by
        obtain ⟨-, rfl⟩ | ⟨-, -, rfl⟩ | ⟨-, -, rfl⟩ := hb <;> rfl
      simp [hu, hb', ih hps]

end Block

namespace Tree

theorem isItem_of_isInline (k : Kind) (h : k.isInline) : k.isItem = false := by
  cases k <;> simp_all [Kind.isInline, Kind.isItem]

theorem reads_items :
    Reads (fun t : Tree => if t.kind.isItem then [t.data] else []) Block.items where
  holder id kind level ts hk := by
    cases kind <;> simp_all [Kind.isHolder, Kind.isItem]
  blind _ _ _ _ _ := rfl
  paragraph id is := read_line isItem_of_isInline data id _ is
  heading id level is := read_line isItem_of_isInline data id _ is
  code id content := by simp [Kind.isItem, Block.items]
  join id d content hd := by simp [hd, Kind.isItem, Block.items]
  item id i := by
    rw [ListItem.tree, read_line isItem_of_isInline data, if_pos i.isItem_itemKind]
    rfl

theorem items_eq_read (t : Tree) :
    t.items = t.read fun s => if s.kind.isItem then [s.data] else [] := by
  rw [items, List.filter_map, map_filter_preorder]
  rfl

end Tree

namespace Document
variable {d : Document} {o : Options} {t : Tree}

theorem items_eq (h : d.tree o = .ok t) : t.items = Bullet.itemsAfter d.lists [] d.bullets := by
  obtain ⟨bs, hbs, rfl⟩ := tree_eq_ok h
  obtain ⟨seen, hps⟩ := leaves_blocks hbs
  rw [Tree.items_eq_read, Tree.reads_items.ofBlocks, Block.items_ofParagraphs hps, bullets]

theorem levels_items (h : d.tree o = .ok t) :
    t.items.map Node.level = d.bullets.map Bullet.depth := by
  rw [items_eq h, Bullet.map_level_itemsAfter]

/-- The list items of a tree in preorder are the bullets of the document in their order. The item
of a bullet is one level deeper than the bullet, it is ordered if the list and the level are
defined with a glyph that counts, and its number is that of the bullets of the same list and level
up to it. So the items of one list and level are numbered one, two, three and so on, by numbers
that never exceed the number of bullets. -/
theorem items_tree (h : d.tree o = .ok t) :
    (t.items = d.bullets.mapIdx fun k b => b.item d.lists ((d.bullets.take (k + 1)).count b)) ∧
    (∀ b, ((d.bullets.zip t.items).filter fun e => e.1 = b).map (fun e => e.2.number) =
      List.range' 1 (d.bullets.count b)) ∧
    ((∀ b ∈ d.bullets, b.level.toNat < 4294967295) →
      t.items.map Node.level = d.bullets.map fun b => b.level.toNat + 1) ∧
    ∀ i ∈ t.items, i.number ≤ d.bullets.length := by
  have hitems : t.items =
      d.bullets.mapIdx fun k b => b.item d.lists ((d.bullets.take (k + 1)).count b) := by
    rw [items_eq h, Bullet.itemsAfter_eq_mapIdx]
    simp
  refine ⟨hitems, fun b => ?_, fun hlevels => ?_, fun i hi => ?_⟩
  · rw [items_eq h]
    simpa using Bullet.numbers_itemsAfter d.lists [] d.bullets b
  · rw [levels_items h]
    exact List.map_congr_left fun b hb => Bullet.depth_eq_succ (hlevels b hb)
  · rw [hitems, List.mem_mapIdx] at hi
    obtain ⟨k, hk, rfl⟩ := hi
    exact Nat.le_trans List.count_le_length (List.length_take_le' _ _)

end Document

/-- Two lists whose items alternate, in the body and in a table, with a list that is not defined. -/
def Document.interleaved : Document :=
  ((({} : Document).addList "n" .numbered).addList "b" .bulleted)
    |>.addParagraph (.bulleted "n" 0 "one")
    |>.addParagraph (.bulleted "b" 2 "dot")
    |>.addParagraph (.bulleted "n" 1 "below")
    |>.addTable (.addRow {} [[.ofParagraph (.bulleted "n" 0 "two")], [.ofParagraph (.ofText "")]])
    |>.addParagraph (.bulleted "?" 0 "lost")
    |>.addParagraph (.bulleted "n" 0 "three")

theorem Document.items_interleaved :
    ∃ t, interleaved.tree { lenient := true } = .ok t ∧
      t.items.map (fun d => (d.kind, d.level, d.number)) =
        [(.orderedItem, 1, 1), (.unorderedItem, 3, 1), (.orderedItem, 2, 1), (.orderedItem, 1, 2),
          (.unorderedItem, 1, 1), (.orderedItem, 1, 3)] ∧
      t.items.map Node.level = interleaved.bullets.map fun b => b.level.toNat + 1 := by
  obtain ⟨t, ht⟩ : ∃ t, interleaved.tree { lenient := true } = .ok t := ⟨_, rfl⟩
  obtain ⟨hitems, -, hlevels, -⟩ := items_tree ht
  refine ⟨t, ht, ?_, hlevels (by decide)⟩
  rw [hitems]
  decide

end RichText
