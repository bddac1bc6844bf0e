import RichText.Proofs.Tree.Edits

/-!
Making the tree of a document by edits of one tree. What an edit depends on is asked of the tree
that is there by then: how many nodes it has, and what stands last below a node. Every edit takes
place on the way down from the root along the last children, so that the nodes come to be in
document order.
-/
namespace RichText

namespace Tree

/-- The trees below the node of that number. -/
def childrenAt (t : Tree) (n : Nat) : List Tree := ((t.get? n).map children).getD []

end Tree

open RichText.Tree

namespace ListItem

mutual
/-- Puts the item into a container, or into the containers nested last in it if it is deeper, when
the next new node gets the number `next`. -/
def edits (i : ListItem) (next : Nat) : Tree → List Edit
  | node n d ts =>
    if d.level < i.depth then i.editsAmong next n (d.level + 1) ts
    else (i.tree next).appends n
/-- Puts the item into the last tree below a node if that is a container of its kind, and into a
new container of the given level otherwise. -/
def editsAmong (i : ListItem) (next parent level : Nat) : List Tree → List Edit
  | [] => (i.newList next level).appends parent
  | [t] =>
    if t.kind = i.listKind then i.edits next t else (i.newList next level).appends parent
  | _ :: t :: ts => i.editsAmong next parent level (t :: ts)
end

end ListItem

namespace Block

/-- The changes that add a line below a node. -/
def lineEdits (parent : Nat) (t : Tree) (d : Node) (is : List Inline) : List Edit :=
  (node t.size d (Inline.trees (t.size + 1) is)).appends parent

mutual
/-- The changes to a tree that place a block below the node of a number. -/
def edits (parent : Nat) (t : Tree) : Block → List Edit
  | .paragraph is => lineEdits parent t { kind := .paragraph } is
  | .heading level is => lineEdits parent t { kind := .heading, level } is
  | .code content =>
    match (t.childrenAt parent).getLast?.filter fun c => c.kind = .code with
    | some c => [.extend c.id content]
    | none => [.append parent { kind := .code }, .extend t.size content]
  | .item i => i.editsAmong t.size parent i.depth (t.childrenAt parent)
  | .table rows =>
    .append parent { kind := .table } ::
      editsOfRows t.size (t.append parent { kind := .table }) rows
/-- Blocks are placed one after the other, each in the tree that those before it leave. -/
def editsOfAll (parent : Nat) (t : Tree) : List Block → List Edit
  | [] => []
  | b :: bs =>
    let es := b.edits parent t
    es ++ editsOfAll parent (es.foldl edit t) bs
def editsOfRows (parent : Nat) (t : Tree) : List (List (List Block)) → List Edit
  | [] => []
  | row :: rows =>
    let es := .append parent { kind := .tableRow } ::
      editsOfCells t.size (t.append parent { kind := .tableRow }) row
    es ++ editsOfRows parent (es.foldl edit t) rows
def editsOfCells (parent : Nat) (t : Tree) : List (List Block) → List Edit
  | [] => []
  | cell :: cells =>
    let es := .append parent { kind := .tableCell } ::
      editsOfAll t.size (t.append parent { kind := .tableCell }) cell
    es ++ editsOfCells parent (es.foldl edit t) cells
end

end Block

/-- The changes that make the tree of a document from a root. -/
def Document.edits (d : Document) (o : Options) : Except Error (List Edit) :=
  (d.blocks o).map (Block.editsOfAll 0 .empty)

namespace Tree

theorem exists_place_hang (l : List Ancestor) (c : Tree) :
    ∃ p ∈ (c.hang l).places, p.subtree = c := by
  have hmem := mem_preorder_hang l c
  rw [← map_subtree_placesBelow [], List.mem_map] at hmem
  exact hmem

/-- The tree at the end of the chain is found by its number. -/
theorem get?_hang {l : List Ancestor} {c : Tree} (h : (c.hang l).Consecutive 0) :
    (c.hang l).get? c.id = some c := by
  obtain ⟨p, hp, hsubtree⟩ := exists_place_hang l c
  have hget := get?_of_mem_places h.nodup_ids hp
  rwa [hsubtree] at hget

theorem childrenAt_hang {l : List Ancestor} {n : Nat} {d : Node} {ts : List Tree}
    (h : ((node n d ts).hang l).Consecutive 0) :
    ((node n d ts).hang l).childrenAt n = ts := by
  have hget : ((node n d ts).hang l).get? n = some (node n d ts) := get?_hang h
  rw [childrenAt, hget]
  rfl

theorem editsAmong_concat (i : ListItem) (next parent level : Nat) (ts : List Tree) (t : Tree) :
    i.editsAmong next parent level (ts ++ [t]) =
      if t.kind = i.listKind then i.edits next t else (i.newList next level).appends parent := by
  induction ts with
  | nil => rw [List.nil_append, ListItem.editsAmong]
  | cons u us ih =>
    obtain ⟨v, vs, hv⟩ := List.exists_cons_of_ne_nil (List.concat_ne_nil t us)
    rw [List.cons_append, hv, ListItem.editsAmong, ← hv, ih]

/-- An item is put below the node at the end of the chain, into the last tree there if it can be. -/
theorem writes_editsAmong (i : ListItem) (level : Nat) {l : List Ancestor} {n : Nat} {d : Node}
    {ts : List Tree} (h : ((node n d ts).hang l).Consecutive 0)
    (hlast : ∀ us t, ts = us ++ [t] →
      Writes ((node n d ts).hang l) (i.edits ((node n d ts).hang l).size t)
        ((node n d (us ++ [i.insert ((node n d ts).hang l).size t])).hang l)) :
    Writes ((node n d ts).hang l) (i.editsAmong ((node n d ts).hang l).size n level ts)
      ((node n d (i.place ((node n d ts).hang l).size level ts)).hang l) := by
  have hnew := writes_appends _ h (consecutive_newList i ((node n d ts).hang l).size level)
  rcases List.eq_nil_or_concat ts with rfl | ⟨us, t, rfl⟩
  · rw [ListItem.editsAmong, ListItem.place]
    exact hnew
  · rw [List.concat_eq_append] at h hlast hnew ⊢
    rw [editsAmong_concat, ListItem.place_concat]
    split
    · exact hlast us t rfl
    · rw [List.append_assoc] at hnew
      exact hnew

theorem writes_edits (i : ListItem) {l : List Ancestor} {c : Tree} (h : (c.hang l).Consecutive 0) :
    Writes (c.hang l) (i.edits (c.hang l).size c) ((i.insert (c.hang l).size c).hang l) := by
  induction c generalizing l with
  | node m e us ih =>
    rw [ListItem.edits, ListItem.insert]
    split
    · refine writes_editsAmong i _ h fun vs t hvs => ?_
      subst hvs
      exact ih t (by simp) (l := ⟨m, e, vs⟩ :: l) h
    · exact writes_appends _ h (consecutive_line _ _ _)

/-- Code joins the code at the end of the chain, or begins behind what is there. -/
theorem writes_code (content : String) {l : List Ancestor} {n : Nat} {d : Node} {ts : List Tree}
    (h : ((node n d ts).hang l).Consecutive 0) :
    Writes ((node n d ts).hang l) (Block.edits n ((node n d ts).hang l) (.code content))
      ((node n d (Block.placeCode content ((node n d ts).hang l).size ts)).hang l) := by
  rw [Block.edits, childrenAt_hang h]
  obtain ⟨us, m, e, vs, rfl, he, hp⟩ | ⟨hlast, hp⟩ :=
    Block.placeCode_cases content ((node n d ts).hang l).size ts
  · have hfound : (us ++ [node m e vs]).getLast?.filter (fun c => c.kind = .code) =
        some (node m e vs) := by simp [he]
    rw [hp, hfound]
    exact writes_extend (l := ⟨n, d, us⟩ :: l) h content
  · have hfound : ts.getLast?.filter (fun c => c.kind = .code) = none := by
      rw [Option.filter_eq_none_iff]
      intro t ht
      simpa using hlast t ht
    rw [hp, hfound]
    have hleaf := consecutive_hang_append h
      (consecutiveAll_singleton.2 (consecutive_leaf _ { kind := .code }))
    have hextend := writes_extend (l := ⟨n, d, ts⟩ :: l) hleaf content
    rw [String.empty_append] at hextend
    exact (writes_append h { kind := .code }).append hextend

/-- A new node at the end of the chain, with what is written below it. -/
theorem writes_holder {l : List Ancestor} {n : Nat} {d : Node} {ts us : List Tree}
    (h : ((node n d ts).hang l).Consecutive 0) (data : Node) {f : Tree → List Edit}
    (hf : ∀ t, t = (leaf ((node n d ts).hang l).size data).hang (⟨n, d, ts⟩ :: l) →
      t.Consecutive 0 →
      Writes t (f t) ((node ((node n d ts).hang l).size data us).hang (⟨n, d, ts⟩ :: l))) :
    Writes ((node n d ts).hang l)
      (.append n data :: f (((node n d ts).hang l).append n data))
      ((node n d (ts ++ [node ((node n d ts).hang l).size data us])).hang l) := by
  have hleaf := consecutive_hang_append h (consecutiveAll_singleton.2 (consecutive_leaf _ data))
  have happend := writes_append h data
  have hnew : ((node n d ts).hang l).append n data = _ := happend.foldl_eq
  rw [hnew]
  exact happend.append (hf _ rfl hleaf)

mutual
theorem writes_block : ∀ (b : Block) {l : List Ancestor} {n : Nat} {d : Node} {ts : List Tree},
    ((node n d ts).hang l).Consecutive 0 →
    Writes ((node n d ts).hang l) (b.edits n ((node n d ts).hang l))
      ((node n d (b.place ((node n d ts).hang l).size ts)).hang l)
  | .paragraph is, _, _, _, _, h => writes_appends _ h (consecutive_line _ _ is)
  | .heading _ is, _, _, _, _, h => writes_appends _ h (consecutive_line _ _ is)
  | .code content, _, _, _, _, h => writes_code content h
  | .item i, l, n, d, ts, h => by
    rw [Block.edits, childrenAt_hang h]
    refine writes_editsAmong i _ h fun us t hts => ?_
    subst hts
    exact writes_edits i (l := ⟨n, d, us⟩ :: l) h
  | .table rows, l, n, d, ts, h => by
    rw [Block.edits, Block.place]
    exact writes_holder h { kind := .table } (f := fun t => Block.editsOfRows _ t rows)
      fun t ht hleaf => ht ▸ writes_rows rows (ht ▸ hleaf)
theorem writes_blocks : ∀ (bs : List Block) {l : List Ancestor} {n : Nat} {d : Node}
    {ts : List Tree}, ((node n d ts).hang l).Consecutive 0 →
    Writes ((node n d ts).hang l) (Block.editsOfAll n ((node n d ts).hang l) bs)
      ((node n d (Block.placeAll (n + 1) ts bs)).hang l)
  | [], _, _, _, _, _ => .nil _
  | b :: bs, l, n, d, ts, h => by
    have hb := writes_block b h
    have hnext := h.hang (((consecutiveAll_of_hang h).place b).node d)
    rw [size_hang h] at hb
    rw [Block.editsOfAll, Block.placeAll, hb.foldl_eq]
    exact hb.append (writes_blocks bs hnext)
theorem writes_rows : ∀ (rows : List (List (List Block))) {l : List Ancestor} {n : Nat} {d : Node}
    {ts : List Tree}, ((node n d ts).hang l).Consecutive 0 →
    Writes ((node n d ts).hang l) (Block.editsOfRows n ((node n d ts).hang l) rows)
      ((node n d (Block.placeRows (n + 1) ts rows)).hang l)
  | [], _, _, _, _, _ => .nil _
  | row :: rows, l, n, d, ts, h => by
    have hrow := writes_holder h { kind := .tableRow } (f := fun t => Block.editsOfCells _ t row)
      fun t ht hleaf => ht ▸ writes_cells row (ht ▸ hleaf)
    have hnext := consecutive_hang_append h (consecutiveAll_singleton.2
      ((ConsecutiveAll.nil.placeCells row).node { kind := .tableRow }))
    rw [Block.editsOfRows, Block.placeRows, hrow.foldl_eq, ← size_hang h]
    exact hrow.append (writes_rows rows hnext)
theorem writes_cells : ∀ (cells : List (List Block)) {l : List Ancestor} {n : Nat} {d : Node}
    {ts : List Tree}, ((node n d ts).hang l).Consecutive 0 →
    Writes ((node n d ts).hang l) (Block.editsOfCells n ((node n d ts).hang l) cells)
      ((node n d (Block.placeCells (n + 1) ts cells)).hang l)
  | [], _, _, _, _, _ => .nil _
  | cell :: cells, l, n, d, ts, h => by
    have hcell := writes_holder h { kind := .tableCell } (f := fun t => Block.editsOfAll _ t cell)
      fun t ht hleaf => ht ▸ writes_blocks cell (ht ▸ hleaf)
    have hnext := consecutive_hang_append h (consecutiveAll_singleton.2
      ((ConsecutiveAll.nil.placeAll cell).node { kind := .tableCell }))
    rw [Block.editsOfCells, Block.placeCells, hcell.foldl_eq, ← size_hang h]
    exact hcell.append (writes_cells cells hnext)
end

/-- The edits of a body make its tree. -/
theorem writes_ofBlocks (bs : List Block) :
    Writes empty (Block.editsOfAll 0 empty bs) (ofBlocks bs) :=
  writes_blocks bs (l := []) (consecutive_leaf 0 { kind := .document })

end Tree

/-- The nodes of the tree of a document are numbered in document order. The tree is made from its
root by edits one after the other, each at a node on the way from the root of what is there by then
to its last child, the last child of that, and so on. -/
theorem Document.tree_made_in_order {d : Document} {o : Options} {t : Tree}
    (h : d.tree o = .ok t) :
    t.descendants 0 = List.range t.size ∧
      ∃ es, d.edits o = .ok es ∧ es.foldl Tree.edit .empty = t ∧
        ∀ before e after, es = before ++ e :: after →
          e.target ∈ (before.foldl Tree.edit .empty).lastChain.map Tree.id := by
  obtain ⟨bs, hbs, rfl⟩ := tree_eq_ok h
  have hwrites := Tree.writes_ofBlocks bs
  constructor
  · have hroot : (Tree.ofBlocks bs).get? 0 = some (Tree.ofBlocks bs) := by
      rw [Tree.get?, Tree.locate?, Tree.ofBlocks, Tree.locateBelow?, if_pos rfl, Option.map_some]
    rw [Tree.descendants, hroot]
    exact Tree.ids_ofBlocks bs
  · refine ⟨Block.editsOfAll 0 .empty bs, ?_, hwrites.foldl_eq, fun before e after hes => ?_⟩
    · rw [edits, hbs, Except.map]
    · exact hwrites.target_mem hes

/-- A list that is left and taken up again at two depths, and code that is joined in a cell. -/
def Document.revisited : Document :=
  (({} : Document).addList "n" .numbered)
    |>.addParagraph (.bulleted "n" 0 "a")
    |>.addParagraph (.bulleted "n" 2 "b")
    |>.addParagraph (.bulleted "n" 1 "c")
    |>.addTable (.addRow {} [[.ofParagraph (.addRun {} (.inFont "x" "Consolas")),
        .ofParagraph (.addRun {} (.inFont "y" "Consolas"))]])
    |>.addParagraph (.bulleted "n" 0 "d")

theorem Document.tree_made_in_order_revisited :
    ∃ t es, revisited.tree {} = .ok t ∧ revisited.edits {} = .ok es ∧
      t.descendants 0 = List.range t.size ∧ es.foldl Tree.edit .empty = t ∧
      (∀ before e after, es = before ++ e :: after →
        e.target ∈ (before.foldl Tree.edit .empty).lastChain.map Tree.id) ∧
      es.map Edit.target = [0, 1, 2, 1, 4, 5, 6, 4, 8, 0, 10, 11, 12, 13, 13, 0, 14, 15] := by
  obtain ⟨t, ht⟩ : ∃ t, revisited.tree {} = .ok t := ⟨_, rfl⟩
  obtain ⟨hids, es, hes, hmade, hchain⟩ := tree_made_in_order ht
  have htargets : (revisited.edits {}).map (List.map Edit.target) =
      .ok [0, 1, 2, 1, 4, 5, 6, 4, 8, 0, 10, 11, 12, 13, 13, 0, 14, 15] := by decide +kernel
  rw [hes, Except.map, Except.ok.injEq] at htargets
  exact ⟨t, es, ht, hes, hids, hmade, hchain, htargets⟩

end RichText
