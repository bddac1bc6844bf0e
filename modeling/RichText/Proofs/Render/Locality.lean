import RichText.Proofs.Render.Writing
import RichText.Proofs.Tree.Numbers
import RichText.Proofs.Tree.Reading

/-!
Rendering is local. A renderer that asks the whole tree, by the number of each node it comes to,
what the parent of the node is and what stands above it, writes the same as the recursion over the
subtree that hands down only two answers. So numbers do not matter, nor does anything outside a
subtree but those two answers, nor any file but those of the objects in it.
-/
namespace RichText

namespace Tree

mutual
/-- The tree with its numbers forgotten. -/
def unnumbered : Tree → Tree
  | node _ d ts => node 0 d (unnumberedAll ts)
def unnumberedAll : List Tree → List Tree
  | [] => []
  | t :: ts => unnumbered t :: unnumberedAll ts
end

@[simp] theorem kind_unnumbered (t : Tree) : t.unnumbered.kind = t.kind := by
  cases t
  rfl

/-- The objects of all nodes. -/
def objectIds (t : Tree) : List String := t.read fun s => s.data.objectId.toList

theorem objectIds_node (i : Nat) (d : Node) (ts : List Tree) :
    (node i d ts).objectIds = d.objectId.toList ++ ts.flatMap objectIds := read_node _ i d ts

/-- Whether the node of that number has a parent, and the parent is of its kind. -/
def parentHasSameKind (t : Tree) (n : Nat) : Bool :=
  (t.parent? n).any fun m => (t.get? m).map kind = (t.get? n).map kind

section
variable {t : Tree} (ht : t.ids.Nodup) {p : Place} (hp : p ∈ t.places)
include ht hp

theorem parentHasSameKind_eq : t.parentHasSameKind p.subtree.id = p.nested := by
  rw [parentHasSameKind, parent?, ancestors_of_mem_places ht hp, get?_of_mem_places ht hp,
    Place.nested]
  cases habove : p.above with
  | nil => rfl
  | cons a above =>
    obtain ⟨s, hs, hdata⟩ := exists_get?_of_mem_above ht hp (a := a) (by simp [habove])
    simp [hs, kind, ← hdata]

end

end Tree

namespace RuleTable

/-- Whether the rule of a node with one of these numbers leaves literal text unescaped. -/
def rawAmong (t : RuleTable) (whole : Tree) (ns : List Nat) : Bool :=
  ns.any fun n => (whole.get? n).any fun s => (t.rule? s.kind).any Rule.raw

mutual
/-- The text of a node, with what the whole tree tells of its number: whether its parent is of its
kind, and whether its rule or that of an ancestor leaves literal text unescaped. -/
def renderIn (t : RuleTable) (files : Manifest) (whole : Tree) : Tree → Except Error (List Char)
  | .node n d ts => do
    let rule ← t.rule d.kind
    match d.objectId with
    | some id => t.renderObject files d.kind rule id
    | none =>
      let rendered ← renderAllIn t files whole ts
      let text := rule.literal (t.rawAmong whole (n :: whole.ancestors n)) d.content
      return rule.finish (whole.parentHasSameKind n) d
        (text ++ joinRendered text.getLast? none rendered)
def renderAllIn (t : RuleTable) (files : Manifest) (whole : Tree) :
    List Tree → Except Error (List Rendered)
  | [] => .ok []
  | c :: cs => do
    let text ← renderIn t files whole c
    let rule ← t.rule c.kind
    let rest ← renderAllIn t files whole cs
    return ⟨c.kind, rule.leftPad, text⟩ :: rest
end

/-- The text of the node of that number, if the tree has one. -/
def renderNumber? (t : RuleTable) (files : Manifest) (whole : Tree) (n : Nat) :
    Option (Except Error String) :=
  (whole.get? n).map fun s => (t.renderIn files whole s).map String.ofList

section
variable (t : RuleTable) (files : Manifest) {whole : Tree} (hids : whole.ids.Nodup)
include hids

theorem rawAmong_ancestors {p : Tree.Place} (hp : p ∈ whole.places) :
    t.rawAmong whole (whole.ancestors p.subtree.id) = t.rawAt p := by
  rw [rawAmong, rawAt, Tree.ancestors_of_mem_places hids hp, List.any_map, Bool.eq_iff_iff,
    List.any_eq_true, List.any_eq_true]
  refine exists_congr fun a => and_congr_right fun ha => ?_
  obtain ⟨s, hs, hdata⟩ := Tree.exists_get?_of_mem_above hids hp ha
  simp [hs, Tree.kind, hdata]

/-- What the whole tree tells of a number is what the recursion hands down to its node. -/
theorem renderIn_eq {p : Tree.Place} (hp : p ∈ whole.places) :
    t.renderIn files whole p.subtree = t.renderTree files p.nested (t.rawAt p) p.subtree := by
  obtain ⟨above, s⟩ := p
  induction s generalizing above with
  | node n d ts ih =>
    have hnested := Tree.parentHasSameKind_eq hids hp
    have hraw := rawAmong_ancestors t hids hp
    have hget := Tree.get?_of_mem_places hids hp
    simp only [Tree.id_node] at hnested hraw hget
    cases hrule : t.rule? d.kind with
    | none => simp only [renderIn, renderTree, rule, hrule, bind, Except.bind]
    | some r =>
      have hself : t.rawAmong whole (n :: whole.ancestors n) =
          (t.rawAt ⟨above, .node n d ts⟩ || r.raw) := by
        rw [← hraw]
        simp [rawAmong, hget, hrule, Bool.or_comm]
      have hall (us : List Tree) (hus : ∀ u ∈ us, u ∈ ts) :
          t.renderAllIn files whole us =
            t.renderAll files d.kind (t.rawAt ⟨above, .node n d ts⟩ || r.raw) us := by
        induction us with
        | nil => rfl
        | cons u us ihus =>
          simp only [List.mem_cons, forall_eq_or_imp] at hus
          have hu := ih u hus.1 ((n, d) :: above) (Tree.mem_placesBelow_child hp hus.1)
          have hbelow : t.rawAt ⟨(n, d) :: above, u⟩ =
              (t.rawAt ⟨above, .node n d ts⟩ || r.raw) := by
            simp [rawAt, hrule, Bool.or_comm]
          have hkind : (Tree.Place.mk ((n, d) :: above) u).nested = decide (u.kind = d.kind) := by
            simp [Tree.Place.nested, eq_comm]
          rw [hbelow, hkind] at hu
          rw [renderAllIn, renderAll, hu, ihus hus.2]
      simp only [renderIn, renderTree, rule, hrule, hself, hnested, hall ts fun _ hu => hu]
      rfl

end

mutual
theorem renderTree_unnumbered (t : RuleTable) (files : Manifest) (nested raw : Bool) :
    ∀ s : Tree, t.renderTree files nested raw s.unnumbered = t.renderTree files nested raw s
  | .node n d ts => by
    simp only [Tree.unnumbered, renderTree, renderAll_unnumbered t files d.kind _ ts]
theorem renderAll_unnumbered (t : RuleTable) (files : Manifest) (parent : Kind) (raw : Bool) :
    ∀ ss : List Tree, t.renderAll files parent raw (Tree.unnumberedAll ss) =
      t.renderAll files parent raw ss
  | [] => rfl
  | s :: ss => by
    simp only [Tree.unnumberedAll, renderAll, Tree.kind_unnumbered,
      renderTree_unnumbered t files _ raw s, renderAll_unnumbered t files parent raw ss]
end

/-- Of the files only those of the objects in the tree matter. -/
theorem renderTree_congr (t : RuleTable) {files files' : Manifest} {s : Tree}
    (h : ∀ id ∈ s.objectIds, files.get? id = files'.get? id) (nested raw : Bool) :
    t.renderTree files nested raw s = t.renderTree files' nested raw s := by
  induction s generalizing nested raw with
  | node n d ts ih =>
    rw [Tree.objectIds_node] at h
    have hall (parent : Kind) (raw : Bool) (us : List Tree) (hus : ∀ u ∈ us, u ∈ ts) :
        t.renderAll files parent raw us = t.renderAll files' parent raw us := by
      induction us with
      | nil => rfl
      | cons u us ihus =>
        simp only [List.mem_cons, forall_eq_or_imp] at hus
        have hu (nested : Bool) := ih u hus.1
          (fun id hid => h id (List.mem_append_right _ (List.mem_flatMap.2 ⟨u, hus.1, hid⟩)))
          nested raw
        simp only [renderAll, hu, ihus hus.2]
    have hobject (rule : Rule) (id : String) (hid : d.objectId = some id) :
        t.renderObject files d.kind rule id = t.renderObject files' d.kind rule id := by
      rw [renderObject, renderObject, h id (by simp [hid])]
    simp only [renderTree, hall _ _ ts fun _ hu => hu]
    cases hid : d.objectId with
    | none => rfl
    | some id => simp only [hobject _ id hid]

/-- The renderer that asks the whole tree by number writes what the recursion over the subtree
writes, given two answers about the number; what the numbers in the subtree are does not matter. -/
theorem renderNumber?_eq (t : RuleTable) (files : Manifest) {whole s : Tree}
    (hids : whole.ids.Nodup) {n : Nat} (hs : whole.get? n = some s) :
    t.renderNumber? files whole n =
      some ((t.renderTree files (whole.parentHasSameKind n) (t.rawAmong whole (whole.ancestors n))
        s.unnumbered).map String.ofList) ∧
    t.renderAt? files whole n = t.renderNumber? files whole n := by
  obtain ⟨p, hp, rfl⟩ := Option.map_eq_some_iff.1 hs
  obtain ⟨hmem, rfl⟩ := Tree.mem_places_of_locate? hp
  have hnumber : t.renderNumber? files whole p.subtree.id =
      some ((t.renderTree files p.nested (t.rawAt p) p.subtree).map String.ofList) := by
    rw [renderNumber?, hs, Option.map_some, renderIn_eq t files hids hmem]
  constructor
  · rw [hnumber, Tree.parentHasSameKind_eq hids hmem, rawAmong_ancestors t hids hmem,
      renderTree_unnumbered]
  · rw [hnumber, renderAt?, hp, Option.map_some]

end RuleTable

/-- A list nested in a list, with an image in its item. -/
def Tree.nestedList : Tree := empty.grow [(0, { kind := .unorderedList, level := 1 }),
  (1, { kind := .unorderedList, level := 2 }),
  (2, { kind := .unorderedItem, level := 2, number := 1 }),
  (3, { kind := .plain, content := "a_b" }), (3, { kind := .image, objectId := some "o" })]

/-- The same nested list behind other nodes. -/
def Tree.nestedListLater : Tree := empty.grow [(0, { kind := .paragraph }),
  (0, { kind := .unorderedList, level := 1 }), (1, { kind := .plain, content := "x" }),
  (2, { kind := .unorderedList, level := 2 }),
  (4, { kind := .unorderedItem, level := 2, number := 1 }),
  (5, { kind := .plain, content := "a_b" }), (1, { kind := .image, objectId := some "p" }),
  (5, { kind := .image, objectId := some "o" })]

namespace RuleTable

/-- The same is written for two nodes of trees that grew by appending if what hangs from them
differs in its numbers only, the whole trees give the same two answers, whether the parent is of
the same kind and whether the rule of an ancestor leaves text unescaped, and the same files are
known for the objects below. It is written by a recursion that is handed only these answers. -/
theorem render_local (t : RuleTable) {T U : Tree} (hT : T.Built) (hU : U.Built) {n m : Nat}
    {s u : Tree} (hs : T.get? n = some s) (hu : U.get? m = some u)
    (hsame : s.unnumbered = u.unnumbered)
    (hnested : T.parentHasSameKind n = U.parentHasSameKind m)
    (hraw : t.rawAmong T (T.ancestors n) = t.rawAmong U (U.ancestors m)) {files files' : Manifest}
    (hfiles : ∀ id ∈ s.objectIds, files.get? id = files'.get? id) :
    t.renderNumber? files T n = t.renderNumber? files' U m ∧
      t.renderAt? files T n = t.renderAt? files' U m ∧
      t.renderNumber? files T n =
        some ((t.renderTree files (T.parentHasSameKind n) (t.rawAmong T (T.ancestors n))
          s.unnumbered).map String.ofList) := by
  obtain ⟨hTn, hTat⟩ := renderNumber?_eq t files hT.nodup_ids hs
  obtain ⟨hUm, hUat⟩ := renderNumber?_eq t files' hU.nodup_ids hu
  have hboth : t.renderNumber? files T n = t.renderNumber? files' U m := by
    rw [hTn, hUm, ← hsame, ← hnested, ← hraw, renderTree_unnumbered, renderTree_unnumbered,
      renderTree_congr t hfiles]
  exact ⟨hboth, by rw [hTat, hUat, hboth], hTn⟩

theorem render_local_moved :
    Markdown.table.renderAt? (.ofList [("o", ⟨"o.png", 1, 2⟩)]) Tree.nestedList 2 =
        Markdown.table.renderAt? (.ofList [("p", ⟨"p.png", 0, 0⟩), ("o", ⟨"o.png", 1, 2⟩)])
          Tree.nestedListLater 4 ∧
      Markdown.table.renderAt? (.ofList [("o", ⟨"o.png", 1, 2⟩)]) Tree.nestedList 2 =
        some (.ok "  * a\\_b<img src=\"o.png\" height=2 width=1 />\n") := by
  have hfirst : Tree.nestedList.Built := .grow .empty (by decide)
  have hlater : Tree.nestedListLater.Built := .grow .empty (by decide)
  refine ⟨(render_local Markdown.table hfirst hlater (n := 2) (m := 4) rfl rfl rfl (by decide)
    (by decide) ?_).2.1, ?_⟩
  · decide
  · rfl

end RuleTable

end RichText
