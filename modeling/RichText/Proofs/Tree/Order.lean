import RichText.Proofs.Tree.Numbers

/-!
Numbers follow the order of the document. A new node is always put behind all nodes that are there,
so the numbers of a tree in preorder are zero, one, two and so on, and no number is given twice.
-/
namespace RichText

namespace Tree

/-- The numbers in preorder go up by one from the first. -/
def Consecutive (first : Nat) (t : Tree) : Prop := t.ids = List.range' first t.size

/-- Siblings whose numbers together go up by one from the first. -/
def ConsecutiveAll (first : Nat) (ts : List Tree) : Prop :=
  ts.flatMap ids = List.range' first (sizeAll ts)

section
variable {first : Nat} {ts us : List Tree} {t : Tree}

theorem size_node (i : Nat) (d : Node) (ts : List Tree) : (node i d ts).size = sizeAll ts + 1 := by
  rw [size]

theorem sizeAll_singleton (t : Tree) : sizeAll [t] = t.size := by
  rw [sizeAll, sizeAll, Nat.add_zero]

theorem sizeAll_concat (ts : List Tree) (t : Tree) : sizeAll (ts ++ [t]) = sizeAll ts + t.size := by
  rw [sizeAll_append, sizeAll_singleton]

theorem consecutive_node {i : Nat} {d : Node} :
    (node i d ts).Consecutive first ↔ i = first ∧ ConsecutiveAll (first + 1) ts := by
  rw [Consecutive, ids_node, size_node, List.range'_succ, List.cons.injEq, ConsecutiveAll]

theorem ConsecutiveAll.nil : ConsecutiveAll first [] := rfl

theorem ConsecutiveAll.node {id : Nat} (h : ConsecutiveAll (id + 1) ts) (d : Node) :
    (node id d ts).Consecutive id := consecutive_node.2 ⟨rfl, h⟩

theorem consecutiveAll_append : ConsecutiveAll first (ts ++ us) ↔
    ConsecutiveAll first ts ∧ ConsecutiveAll (first + sizeAll ts) us := by
  have hlength : (ts.flatMap ids).length = (List.range' first (sizeAll ts)).length := by
    rw [List.length_flatMap, List.length_range']
    induction ts with
    | nil => rfl
    | cons t ts ih => rw [List.map_cons, List.sum_cons, ih, length_ids, sizeAll]
  rw [ConsecutiveAll, List.flatMap_append, sizeAll_append, ← List.range'_append_1]
  exact ⟨fun h => List.append_inj h hlength, fun h => by rw [h.1, h.2]⟩

theorem consecutiveAll_singleton : ConsecutiveAll first [t] ↔ t.Consecutive first := by
  rw [ConsecutiveAll, List.flatMap_singleton, sizeAll_singleton, Consecutive]

theorem consecutiveAll_cons : ConsecutiveAll first (t :: ts) ↔
    t.Consecutive first ∧ ConsecutiveAll (first + t.size) ts := by
  rw [← List.singleton_append, consecutiveAll_append, consecutiveAll_singleton, sizeAll_singleton]

theorem consecutiveAll_concat : ConsecutiveAll first (ts ++ [t]) ↔
    ConsecutiveAll first ts ∧ t.Consecutive (first + sizeAll ts) := by
  rw [consecutiveAll_append, consecutiveAll_singleton]

theorem consecutive_leaf (id : Nat) (d : Node) : (leaf id d).Consecutive id :=
  ConsecutiveAll.nil.node d

theorem consecutive_chain {last : Nat → Tree} (h : ∀ id, (last id).Consecutive id) (id : Nat)
    (ds : List Node) : (chain last id ds).Consecutive id := by
  induction ds generalizing id with
  | nil => exact h id
  | cons d ds ih => exact (consecutiveAll_singleton.2 (ih (id + 1))).node d

end

theorem consecutive_inline (id : Nat) (i : Inline) : (i.tree id).Consecutive id := by
  cases i with
  | text bold italic url content => exact consecutive_chain (fun _ => consecutive_leaf _ _) id _
  | image objectId => exact consecutive_leaf id _

theorem consecutiveAll_inlines (id : Nat) (is : List Inline) :
    ConsecutiveAll id (Inline.trees id is) := by
  induction is generalizing id with
  | nil => exact .nil
  | cons i is ih => exact consecutiveAll_cons.2 ⟨consecutive_inline id i, ih _⟩

theorem consecutive_line (id : Nat) (d : Node) (is : List Inline) :
    (node id d (Inline.trees (id + 1) is)).Consecutive id :=
  (consecutiveAll_inlines (id + 1) is).node d

theorem consecutive_newList (i : ListItem) (id level : Nat) :
    (i.newList id level).Consecutive id :=
  consecutive_chain (fun id => consecutive_line id _ _) id _

/-- An item is put behind all nodes of the container. -/
theorem Consecutive.insert {first : Nat} {t : Tree} (h : t.Consecutive first) (i : ListItem) :
    (i.insert (first + t.size) t).Consecutive first := by
  induction t generalizing first with
  | node n d ts ih =>
    obtain ⟨rfl, hts⟩ := consecutive_node.1 h
    have hid : n + (node n d ts).size = n + 1 + sizeAll ts := by
      rw [size_node]
      omega
    rw [hid, ListItem.insert]
    split
    · obtain ⟨us, u, rfl, -, hp⟩ | ⟨-, hp⟩ := i.place_cases (n + 1 + sizeAll ts) (d.level + 1) ts
      · obtain ⟨hus, hu⟩ := consecutiveAll_concat.1 hts
        rw [hp, sizeAll_concat, ← Nat.add_assoc]
        exact (consecutiveAll_concat.2 ⟨hus, ih u (by simp) hu⟩).node d
      · rw [hp]
        exact (consecutiveAll_concat.2 ⟨hts, consecutive_newList i _ _⟩).node d
    · exact (consecutiveAll_concat.2 ⟨hts, consecutive_line _ _ _⟩).node d

namespace ConsecutiveAll

theorem placeItem {first : Nat} {ts : List Tree} (h : ConsecutiveAll first ts) (i : ListItem)
    (level : Nat) : ConsecutiveAll first (i.place (first + sizeAll ts) level ts) := by
  obtain ⟨us, u, rfl, -, hp⟩ | ⟨-, hp⟩ := i.place_cases (first + sizeAll ts) level ts
  · obtain ⟨hus, hu⟩ := consecutiveAll_concat.1 h
    rw [hp, sizeAll_concat, ← Nat.add_assoc]
    exact consecutiveAll_concat.2 ⟨hus, hu.insert i⟩
  · rw [hp]
    exact consecutiveAll_concat.2 ⟨h, consecutive_newList i _ _⟩

theorem placeCode {first : Nat} {ts : List Tree} (h : ConsecutiveAll first ts) (content : String) :
    ConsecutiveAll first (Block.placeCode content (first + sizeAll ts) ts) := by
  obtain ⟨us, n, d, vs, rfl, -, hp⟩ | ⟨-, hp⟩ :=
    Block.placeCode_cases content (first + sizeAll ts) ts
  · obtain ⟨hus, hu⟩ := consecutiveAll_concat.1 h
    rw [hp]
    exact consecutiveAll_concat.2 ⟨hus, consecutive_node.2 (consecutive_node.1 hu)⟩
  · rw [hp]
    exact consecutiveAll_concat.2 ⟨h, consecutive_leaf _ _⟩

mutual
theorem place {first : Nat} {ts : List Tree} (h : ConsecutiveAll first ts) :
    ∀ b : Block, ConsecutiveAll first (b.place (first + sizeAll ts) ts)
  | .paragraph is => consecutiveAll_concat.2 ⟨h, consecutive_line _ _ is⟩
  | .heading _ is => consecutiveAll_concat.2 ⟨h, consecutive_line _ _ is⟩
  | .code content => h.placeCode content
  | .item i => h.placeItem i i.depth
  | .table rows => consecutiveAll_concat.2 ⟨h, (nil.placeRows rows).node _⟩
theorem placeAll {first : Nat} {ts : List Tree} (h : ConsecutiveAll first ts) :
    ∀ bs : List Block, ConsecutiveAll first (Block.placeAll first ts bs)
  | [] => h
  | b :: bs => (h.place b).placeAll bs
theorem placeRows {first : Nat} {ts : List Tree} (h : ConsecutiveAll first ts) :
    ∀ rows : List (List (List Block)), ConsecutiveAll first (Block.placeRows first ts rows)
  | [] => h
  | row :: rows => (consecutiveAll_concat.2 ⟨h, (nil.placeCells row).node _⟩).placeRows rows
theorem placeCells {first : Nat} {ts : List Tree} (h : ConsecutiveAll first ts) :
    ∀ cells : List (List Block), ConsecutiveAll first (Block.placeCells first ts cells)
  | [] => h
  | cell :: cells => (consecutiveAll_concat.2 ⟨h, (nil.placeAll cell).node _⟩).placeCells cells
end

end ConsecutiveAll

/-- The numbers of the tree of a body in preorder are those below its size. -/
theorem ids_ofBlocks (bs : List Block) : (ofBlocks bs).ids = List.range (ofBlocks bs).size := by
  rw [List.range_eq_range']
  exact (ConsecutiveAll.nil.placeAll bs).node _

end Tree

theorem Document.nodup_ids_tree {d : Document} {o : Options} {t : Tree} (h : d.tree o = .ok t) :
    t.ids.Nodup := by
  obtain ⟨bs, -, rfl⟩ := tree_eq_ok h
  rw [Tree.ids_ofBlocks]
  exact List.nodup_range

end RichText
