import Mathlib.Logic.Relation
import RichText.Proofs.Tree.Descent

/-!
The states in which a document is read, and the loop for list items in all of them. A document is
read with one tree, below the root or below a cell that is the last one by then. In every such state
the containers below the node keep their discipline, so that the loop ends for every item.
-/
namespace RichText

open RichText.Tree

/-- What is still to be read below a node. -/
inductive Pending where
  | elements (es : List Element)
  | rows (rows : List (List (List Element)))
  | cells (cells : List (List Element))

/-- A state of reading: the tree and the node that is added to, the bullets so far, and what is
pending. -/
structure Progress where
  cursor : Cursor
  seen : List Bullet
  pending : Pending

namespace Progress

/-- Reading goes past an element, a paragraph, a row or a cell that can be read, or into a table,
a row or a cell. -/
inductive Step (o : Options) (lists : Catalog ListStyle) : Progress → Progress → Prop
  | element {t : Tree} {n : Nat} {seen seen' : List Bullet} {e : Element} {es : List Element}
    {bs : List Block} (h : Block.ofElement o lists seen e = .ok (bs, seen')) :
    Step o lists ⟨⟨t, n⟩, seen, .elements (e :: es)⟩
      ⟨⟨(Block.editsOfAll n t bs).foldl edit t, n⟩, seen', .elements es⟩
  | paragraph {t : Tree} {n : Nat} {seen seen' : List Bullet} {start stop : Int64} {p : Paragraph}
    {table : Option (Table Element)} {es : List Element} {b : Block}
    (h : Block.ofParagraph o lists seen p = .ok (b, seen')) :
    Step o lists ⟨⟨t, n⟩, seen, .elements (.mk start stop (some p) table :: es)⟩
      ⟨⟨(b.edits n t).foldl edit t, n⟩, seen', .elements (.mk start stop none table :: es)⟩
  | intoTable {t : Tree} {n : Nat} {seen : List Bullet} {start stop : Int64} {table : Table Element}
    {es : List Element} :
    Step o lists ⟨⟨t, n⟩, seen, .elements (.mk start stop none (some table) :: es)⟩
      ⟨⟨t.append n { kind := .table }, t.size⟩, seen, .rows table.cells⟩
  | row {t : Tree} {n : Nat} {seen seen' : List Bullet} {row : List (List Element)}
    {rows : List (List (List Element))} {cells : List (List Block)}
    (h : Block.ofCells o lists seen row = .ok (cells, seen')) :
    Step o lists ⟨⟨t, n⟩, seen, .rows (row :: rows)⟩
      ⟨⟨(Block.editsOfRows n t [cells]).foldl edit t, n⟩, seen', .rows rows⟩
  | intoRow {t : Tree} {n : Nat} {seen : List Bullet} {row : List (List Element)}
    {rows : List (List (List Element))} :
    Step o lists ⟨⟨t, n⟩, seen, .rows (row :: rows)⟩
      ⟨⟨t.append n { kind := .tableRow }, t.size⟩, seen, .cells row⟩
  | cell {t : Tree} {n : Nat} {seen seen' : List Bullet} {cell : List Element}
    {cells : List (List Element)} {bs : List Block}
    (h : Block.ofElements o lists seen cell = .ok (bs, seen')) :
    Step o lists ⟨⟨t, n⟩, seen, .cells (cell :: cells)⟩
      ⟨⟨(Block.editsOfCells n t [bs]).foldl edit t, n⟩, seen', .cells cells⟩
  | intoCell {t : Tree} {n : Nat} {seen : List Bullet} {cell : List Element}
    {cells : List (List Element)} :
    Step o lists ⟨⟨t, n⟩, seen, .cells (cell :: cells)⟩
      ⟨⟨t.append n { kind := .tableCell }, t.size⟩, seen, .elements cell⟩

/-- The start of reading. -/
def start (d : Document) : Progress := ⟨⟨.empty, 0⟩, [], .elements d.body⟩

/-- The node that is added to is the end of the chain of last children, in a tree that is numbered
in preorder, and below it the containers keep their discipline. -/
def Ready (r : Progress) : Prop :=
  ∃ l n d ts, r.cursor = ⟨(node n d ts).hang l, n⟩ ∧ ((node n d ts).hang l).Consecutive 0 ∧
    ∀ es, r.pending = .elements es → DisciplinedBody ts

/-- A new node is ready, whatever is pending below it. -/
theorem ready_append {l : List Ancestor} {n : Nat} {d : Node} {ts : List Tree}
    (h : ((node n d ts).hang l).Consecutive 0) (data : Node) (seen : List Bullet)
    (pending : Pending) :
    Ready ⟨⟨((node n d ts).hang l).append n data, ((node n d ts).hang l).size⟩, seen, pending⟩ := by
  have hleaf := consecutive_hang_append h (consecutiveAll_singleton.2 (consecutive_leaf _ data))
  have happend : ((node n d ts).hang l).append n data = _ := (writes_append h data).foldl_eq
  refine ⟨⟨n, d, ts⟩ :: l, ((node n d ts).hang l).size, data, [], ?_, hleaf, fun _ _ => ?_⟩
  · rw [happend]
    rfl
  · exact disciplinedBody_keeps.nil

/-- The node is ready after edits that write other trees below it. -/
theorem ready_of_writes {l : List Ancestor} {n : Nat} {d : Node} {ts us : List Tree}
    (h : ((node n d ts).hang l).Consecutive 0) {es : List Edit}
    (hwrites : Writes ((node n d ts).hang l) es ((node n d us).hang l))
    (hus : ConsecutiveAll (n + 1) us) (seen : List Bullet) {pending : Pending}
    (hbody : ∀ es, pending = .elements es → DisciplinedBody us) :
    Ready ⟨⟨es.foldl edit ((node n d ts).hang l), n⟩, seen, pending⟩ := by
  refine ⟨l, n, d, us, ?_, h.hang (hus.node d), hbody⟩
  rw [hwrites.foldl_eq]

/-- A step leads from a ready node to a ready node. -/
theorem Step.ready {o : Options} {lists : Catalog ListStyle} {r r' : Progress}
    (h : Step o lists r r') (hr : r.Ready) : r'.Ready := by
  obtain ⟨l, n, d, ts, hcursor, hids, hbody⟩ := hr
  have hts := consecutiveAll_of_hang hids
  cases h with
  | @element _ _ _ _ _ _ bs _ =>
    cases hcursor
    refine ready_of_writes hids (writes_blocks bs hids) (hts.placeAll bs) _ fun _ _ => ?_
    exact @Block.Keeps.placeAll _ _ disciplinedBody_keeps (n + 1) [] ts (hbody _ rfl) bs
      fun _ _ => trivial
  | @paragraph _ _ _ _ _ _ _ _ _ b _ =>
    cases hcursor
    have hwrites := writes_block b hids
    rw [size_hang hids] at hwrites
    refine ready_of_writes hids hwrites (hts.place b) _ fun _ _ => ?_
    exact @Block.Keeps.place _ _ disciplinedBody_keeps (n + 1 + sizeAll ts) [] ts (hbody _ rfl) b
      fun _ _ => trivial
  | intoTable =>
    cases hcursor
    exact ready_append hids _ _ _
  | @row _ _ _ _ _ _ cells _ =>
    cases hcursor
    exact ready_of_writes hids (writes_rows [cells] hids) (hts.placeRows [cells]) _ nofun
  | intoRow =>
    cases hcursor
    exact ready_append hids _ _ _
  | @cell _ _ _ _ _ _ bs _ =>
    cases hcursor
    exact ready_of_writes hids (writes_cells [bs] hids) (hts.placeCells [bs]) _ nofun
  | intoCell =>
    cases hcursor
    exact ready_append hids _ _ _

theorem ready_start (d : Document) : (start d).Ready :=
  ⟨[], 0, { kind := .document }, [], rfl, consecutive_leaf 0 { kind := .document },
    fun _ _ => disciplinedBody_keeps.nil⟩

theorem ready_of_reflTransGen {o : Options} {lists : Catalog ListStyle} {r r' : Progress}
    (h : Relation.ReflTransGen (Step o lists) r r') (hr : r.Ready) : r'.Ready := by
  induction h with
  | refl => exact hr
  | tail _ hstep ih => exact hstep.ready ih

/-- Blocks one after the other are placed below a node by the edits of the first ones and those of
the others. -/
theorem foldl_editsOfAll_append (n : Nat) (t : Tree) (bs cs : List Block) :
    (Block.editsOfAll n t (bs ++ cs)).foldl edit t =
      (Block.editsOfAll n ((Block.editsOfAll n t bs).foldl edit t) cs).foldl edit
        ((Block.editsOfAll n t bs).foldl edit t) := by
  induction bs generalizing t with
  | nil => rfl
  | cons b bs ih =>
    rw [List.cons_append, Block.editsOfAll, Block.editsOfAll, List.foldl_append, List.foldl_append,
      ih]

/-- Reading goes past elements that can be read. -/
theorem reflTransGen_elements {o : Options} {lists : Catalog ListStyle} {t : Tree} {n : Nat}
    {seen seen' : List Bullet} {es : List Element} {bs : List Block}
    (h : Block.ofElements o lists seen es = .ok (bs, seen')) :
    Relation.ReflTransGen (Step o lists) ⟨⟨t, n⟩, seen, .elements es⟩
      ⟨⟨(Block.editsOfAll n t bs).foldl edit t, n⟩, seen', .elements []⟩ := by
  induction es generalizing t seen bs with
  | nil =>
    cases h
    exact .refl
  | cons e es ih =>
    rw [Block.ofElements] at h
    obtain ⟨⟨bs₁, seen₁⟩, he, h⟩ := bind_eq_ok.1 h
    obtain ⟨⟨bs₂, seen₂⟩, hes, h⟩ := bind_eq_ok.1 h
    cases h
    rw [foldl_editsOfAll_append]
    exact .head (.element he) (ih hes)

end Progress

/-- The cursor is where elements are read below a node, in a state that reading the document comes
to, whether the document can be read to its end or not. -/
def Document.Reaches (d : Document) (o : Options) (s : Cursor) : Prop :=
  ∃ seen es, Relation.ReflTransGen (Progress.Step o d.lists) (.start d) ⟨s, seen, .elements es⟩

/-- Reading comes to the tree of the document. -/
theorem Document.reaches_tree {d : Document} {o : Options} {t : Tree} (h : d.tree o = .ok t) :
    d.Reaches o ⟨t, 0⟩ := by
  obtain ⟨bs, hbs, rfl⟩ := tree_eq_ok h
  obtain ⟨seen, hes⟩ := blocks_eq_ok hbs
  have hmade := (writes_ofBlocks bs).foldl_eq
  rw [← hmade]
  exact ⟨seen, [], Progress.reflTransGen_elements hes⟩

/-- The loop for an item, from the outermost container below the node of a cursor. -/
structure ListItem.Descent (i : ListItem) (s outer last : Cursor) (steps : List Cursor) : Prop where
  /-- The outermost container is the last child of the node if that is one of its kind, and a new
  one at the depth of the item otherwise. -/
  outer_eq : outer = s.enter i.listKind i.depth
  kind : outer.kind? = some i.listKind
  /-- The loop ends, after these iterations and no others. -/
  runs : ∀ ss, Cursor.Runs i.listKind i.depth outer ss ↔ ss = steps
  length : steps.length = i.depth - outer.level
  /-- Every iteration goes to a container of the kind that is one level deeper. -/
  deeper : (outer :: steps).IsChain (Cursor.Deeper i.listKind)
  last_eq : last = steps.getLastD outer
  level : last.level = max outer.level i.depth
  /-- From the last container upward every node is the last child of its parent. -/
  lastChildren : ((steps.map Cursor.number).reverse ++ [outer.number, s.number]).IsChain
    last.tree.IsLastChild
  /-- The item below the last container makes the tree that the item is placed in. -/
  placed : ((i.tree last.tree.size).appends last.number).foldl edit last.tree =
    ((Block.item i).edits s.number s.tree).foldl edit s.tree

/-- Wherever a document is read, and whatever item comes next there, the loop that looks for the
container of the item ends. It makes as many iterations as the item is deeper than the outermost
container, each to a container of the same kind that is one level deeper, and the containers it ends
with are each the last child of the one above. -/
theorem Document.descent_of_reaches {d : Document} {o : Options} {s : Cursor}
    (h : d.Reaches o s) (i : ListItem) : ∃ outer last steps, i.Descent s outer last steps := by
  obtain ⟨seen, es, hreach⟩ := h
  obtain ⟨l, n, e, ts, hs, hids, hbody⟩ :=
    Progress.ready_of_reflTransGen hreach (Progress.ready_start d)
  obtain rfl : s = _ := hs
  have hdeep : ∀ c ∈ ts, c.Everywhere Deepening := fun c hc =>
    ((hbody es rfl).2 c hc).1.mono fun _ => Disciplined.deepening
  obtain ⟨us, c, hc, -, hplace⟩ := Cursor.exists_stands_enter i (Nat.le_refl _) hids hdeep
  generalize houter : Cursor.enter i.listKind i.depth ⟨(node n e ts).hang l, n⟩ = outer at hc
  have hnumber : outer.number = c.id := congrArg Cursor.number hc.eq
  obtain ⟨steps, hsteps⟩ := hc.exists_runs
  refine ⟨outer, _, steps, {
    outer_eq := houter.symm
    kind := hc.kind?_eq
    runs := fun ss => ⟨fun hss => hss.unique hsteps, fun hss => hss ▸ hsteps⟩
    length := hsteps.length_eq hc
    deeper := hsteps.isChain hc
    last_eq := rfl
    level := hsteps.level_last hc
    lastChildren := ?_
    placed := ?_ }⟩
  · have hchain : (((steps.map Cursor.number).reverse ++ [outer.number, n]) ++
        l.map Ancestor.id).IsChain (steps.getLastD outer).tree.IsLastChild := by
      rw [List.append_assoc, hnumber]
      exact hsteps.isChain_last hc
    exact hchain.left_of_append
  · have hmade := (writes_block (.item i) hids).foldl_eq
    rw [hsteps.foldl_appends hc, ← hplace]
    exact hmade.symm

/-- A list that skips a level, with a table in front of it. -/
def Document.skipping : Document :=
  (({} : Document).addList "b" .bulleted)
    |>.addTable (.addRow {} [[.ofParagraph (.bulleted "b" 1 "inside")]])
    |>.addParagraph (.bulleted "b" 0 "first")
    |>.addParagraph (.bulleted "b" 2 "deeper")

/-- Two levels below the first container there is one, and the third one is new. -/
theorem Document.descent_skipping : ∃ t outer last steps, skipping.Reaches {} ⟨t, 0⟩ ∧
    ListItem.Descent ⟨false, 4, 1, []⟩ ⟨t, 0⟩ outer last steps ∧
    outer.level = 1 ∧ steps.length = 3 ∧ last.level = 4 := by
  have hlevel : (skipping.tree {}).map (fun t =>
      (Cursor.enter .unorderedList 4 ⟨t, 0⟩).level) = .ok 1 := by
    decide +kernel
  obtain ⟨t, ht⟩ : ∃ t, skipping.tree {} = .ok t := ⟨_, rfl⟩
  rw [ht, Except.map, Except.ok.injEq] at hlevel
  have hreach := reaches_tree ht
  obtain ⟨outer, last, steps, hdescent⟩ := descent_of_reaches hreach ⟨false, 4, 1, []⟩
  have houter : outer.level = 1 := (congrArg Cursor.level hdescent.outer_eq).trans hlevel
  refine ⟨t, outer, last, steps, hreach, hdescent, houter, ?_, ?_⟩
  · rw [hdescent.length, houter]
    rfl
  · rw [hdescent.level, houter]
    rfl

end RichText
