import RichText.Proofs.Tree.Numbers
import RichText.Render

/-!
When rendering fails. Rendering comes to every node in preorder but to none below an object, and it
stops at the first node that the table cannot write: one whose kind has no rule, or one with a file
for its object and a rule that shows no files. What is trimmed or left out on the way saves no node
from being visited.
-/
namespace RichText

namespace Tree

mutual
/-- The tree without what stands below objects. -/
def pruned : Tree → Tree
  | node i d ts => node i d (if d.objectId.isSome then [] else prunedAll ts)
def prunedAll : List Tree → List Tree
  | [] => []
  | t :: ts => pruned t :: prunedAll ts
end

/-- What the nodes hold in preorder, nothing below objects among it. -/
def visited (t : Tree) : List Node := t.pruned.preorder.map data

theorem map_data_prunedAll (ts : List Tree) :
    (preorderAll (prunedAll ts)).map data = ts.flatMap visited := by
  induction ts with
  | nil => rfl
  | cons t ts ih => rw [prunedAll, preorderAll, List.map_append, ih, List.flatMap_cons, visited]

theorem visited_of_object {i : Nat} {d : Node} {ts : List Tree} {id : String}
    (h : d.objectId = some id) : (node i d ts).visited = [d] := by
  simp [visited, pruned, preorder, preorderAll, h]

theorem visited_of_no_object {i : Nat} {d : Node} {ts : List Tree} (h : d.objectId = none) :
    (node i d ts).visited = d :: ts.flatMap visited := by
  simp [visited, pruned, preorder, h, map_data_prunedAll]

end Tree

/-- The error of a computation that fails. -/
def failure? {α : Type} : Except Error α → Option Error
  | .ok _ => none
  | .error e => some e

section failure?
variable {α β : Type}

@[simp] theorem failure?_ok (a : α) : failure? (.ok a) = none := rfl

@[simp] theorem failure?_error (e : Error) : failure? (.error e : Except Error α) = some e := rfl

theorem failure?_eq_some_iff {x : Except Error α} {e : Error} :
    failure? x = some e ↔ x = .error e := by
  cases x <;> simp

theorem failure?_eq_none_iff {x : Except Error α} : failure? x = none ↔ ∃ a, x = .ok a := by
  cases x <;> simp

@[simp] theorem failure?_map (f : α → β) (x : Except Error α) :
    failure? (x.map f) = failure? x := by
  cases x <;> rfl

end failure?

namespace RuleTable

/-- What is wrong with a node, by the error that it gives. -/
inductive Defect (t : RuleTable) (files : Manifest) (d : Node) : Error → Prop
  | rule (h : t.rule? d.kind = none) : Defect t files d (.missingRule t.key d.kind)
  | mapping {rule : Rule} {id : String} (hrule : t.rule? d.kind = some rule)
    (hid : d.objectId = some id) (hfile : (files.get? id).isSome) (hwrite : rule.file = none) :
    Defect t files d (.noFileMapping t.key d.kind)

/-- The error that a node gives. -/
def defect? (t : RuleTable) (files : Manifest) (d : Node) : Option Error :=
  match t.rule? d.kind with
  | none => some (.missingRule t.key d.kind)
  | some rule => d.objectId.bind fun id =>
      if (files.get? id).isSome && rule.file.isNone then some (.noFileMapping t.key d.kind)
      else none

section
variable {t : RuleTable} {files : Manifest} {d : Node}

theorem defect?_eq_some_iff {e : Error} : t.defect? files d = some e ↔ t.Defect files d e := by
  constructor
  · intro h
    cases hrule : t.rule? d.kind with
    | none =>
      obtain rfl : Error.missingRule t.key d.kind = e := by simpa [defect?, hrule] using h
      exact .rule hrule
    | some rule =>
      simp only [defect?, hrule, Option.bind_eq_some_iff, Option.ite_none_right_eq_some,
        Bool.and_eq_true, Option.isNone_iff_eq_none, Option.some.injEq] at h
      obtain ⟨id, hid, ⟨hfile, hwrite⟩, rfl⟩ := h
      exact .mapping hrule hid hfile hwrite
  · rintro (hrule | ⟨hrule, hid, hfile, hwrite⟩)
    · simp [defect?, hrule]
    · simp [defect?, hrule, hid, hfile, hwrite]

theorem defect?_eq_none_iff : t.defect? files d = none ↔ ∀ e, ¬ t.Defect files d e := by
  simp only [← defect?_eq_some_iff, Option.eq_none_iff_forall_not_mem, Option.mem_def]

theorem failure?_renderObject {rule : Rule} {id : String} (hrule : t.rule? d.kind = some rule)
    (hid : d.objectId = some id) :
    failure? (t.renderObject files d.kind rule id) = t.defect? files d := by
  cases hfile : files.get? id <;> cases hwrite : rule.file <;>
    simp [renderObject, defect?, hrule, hid, hfile, hwrite]

end

theorem exists_rule_of_renderTree {t : RuleTable} {files : Manifest} {nested raw : Bool} {s : Tree}
    {text : List Char} (h : t.renderTree files nested raw s = .ok text) :
    ∃ rule, t.rule? s.kind = some rule := by
  obtain ⟨i, d, ts⟩ := s
  cases hrule : t.rule? d.kind with
  | none => simp [renderTree, RuleTable.rule, hrule, bind, Except.bind] at h
  | some rule => exact ⟨rule, hrule⟩

/-- Rendering fails with the error of the first visited node that gives one. -/
theorem failure?_renderTree (t : RuleTable) (files : Manifest) (nested raw : Bool) (s : Tree) :
    failure? (t.renderTree files nested raw s) = s.visited.findSome? (t.defect? files) := by
  induction s generalizing nested raw with
  | node i d ts ih =>
    have hall (parent : Kind) (raw : Bool) (us : List Tree) (hus : ∀ u ∈ us, u ∈ ts) :
        failure? (t.renderAll files parent raw us) =
          (us.flatMap Tree.visited).findSome? (t.defect? files) := by
      induction us with
      | nil => rfl
      | cons u us ihus =>
        simp only [List.mem_cons, forall_eq_or_imp] at hus
        rw [List.flatMap_cons, List.findSome?_append, ← ih u hus.1 (u.kind = parent) raw,
          ← ihus hus.2, renderAll]
        cases hu : t.renderTree files (u.kind = parent) raw u with
        | error e => rfl
        | ok text =>
          -- The rule of a child that was written is there when it is looked up for the padding.
          obtain ⟨rule, hrule⟩ := exists_rule_of_renderTree hu
          cases hrest : t.renderAll files parent raw us <;>
            simp [RuleTable.rule, hrule, bind, Except.bind, pure, Except.pure]
    cases hrule : t.rule? d.kind with
    | none =>
      cases hid : d.objectId <;>
        simp [renderTree, RuleTable.rule, hrule, defect?, bind, Except.bind, hid,
          Tree.visited_of_object, Tree.visited_of_no_object]
    | some rule =>
      cases hid : d.objectId with
      | some id =>
        simp only [renderTree, RuleTable.rule, hrule, hid, bind, Except.bind,
          Tree.visited_of_object hid, failure?_renderObject hrule hid, List.findSome?_singleton]
      | none =>
        have hself : t.defect? files d = none := by simp [defect?, hrule, hid]
        rw [Tree.visited_of_no_object hid, List.findSome?_cons, hself,
          ← hall d.kind (raw || rule.raw) ts fun _ hu => hu]
        simp only [renderTree, RuleTable.rule, hrule, hid, bind, Except.bind, pure, Except.pure]
        cases t.renderAll files d.kind (raw || rule.raw) ts <;> rfl

/-- At every node of a tree that grew by appending, rendering fails exactly if some visited node of
its subtree gives an error, and it fails with the error of the first such node in preorder. -/
theorem renderAt?_eq_error_iff (t : RuleTable) (files : Manifest) {T : Tree} (hT : T.Built)
    {n : Nat} (hn : n < T.size) :
    ∃ s result, T.get? n = some s ∧ t.renderAt? files T n = some result ∧
      (∀ e, result = .error e ↔ ∃ before d after, s.visited = before ++ d :: after ∧
        (∀ c ∈ before, ∀ e', ¬ t.Defect files c e') ∧ t.Defect files d e) ∧
      ((∃ text, result = .ok text) ↔ ∀ d ∈ s.visited, ∀ e, ¬ t.Defect files d e) := by
  obtain ⟨p, hp⟩ := hT.exists_locate? hn
  have hresult := failure?_renderTree t files p.nested (t.rawAt p) p.subtree
  rw [← failure?_map String.ofList] at hresult
  refine ⟨p.subtree, _, by rw [Tree.get?, hp, Option.map_some],
    by rw [renderAt?, hp, Option.map_some], fun e => ?_, ?_⟩
  · rw [← failure?_eq_some_iff, hresult, List.findSome?_eq_some_iff]
    constructor
    · rintro ⟨before, d, after, hvisited, hd, hbefore⟩
      exact ⟨before, d, after, hvisited, fun c hc => defect?_eq_none_iff.1 (hbefore c hc),
        defect?_eq_some_iff.1 hd⟩
    · rintro ⟨before, d, after, hvisited, hbefore, hd⟩
      exact ⟨before, d, after, hvisited, defect?_eq_some_iff.2 hd,
        fun c hc => defect?_eq_none_iff.2 (hbefore c hc)⟩
  · rw [← failure?_eq_none_iff, hresult, List.findSome?_eq_none_iff]
    exact forall₂_congr fun _ _ => defect?_eq_none_iff

/-- A table without rules for tables and rows, which leaves out what is blank and shows no files. -/
def lacking : RuleTable := ⟨"lacking", fun kind =>
  if kind = .table ∨ kind = .tableRow then none
  else some { requiresContent := true, trimInside := true }⟩

end RuleTable

/-- A table below an object without a file, and behind it an object with one and a row. -/
def Tree.objects : Tree := empty.grow [(0, { kind := .bold }),
  (1, { kind := .plain, content := " " }), (0, { kind := .image, objectId := some "gone" }),
  (3, { kind := .table }), (0, { kind := .image, objectId := some "o" }), (0, { kind := .tableRow })]

theorem RuleTable.renderAt?_eq_error_iff_objects :
    lacking.renderAt? (.ofList [("o", ⟨"o.png", 1, 2⟩)]) Tree.objects 0 =
      some (.error (.noFileMapping "lacking" .image)) := by
  have hbuilt : Tree.objects.Built := .grow .empty (by decide)
  obtain ⟨s, result, hs, hresult, herror, -⟩ := renderAt?_eq_error_iff lacking
    (.ofList [("o", ⟨"o.png", 1, 2⟩)]) hbuilt (n := 0) (by decide)
  obtain rfl : Tree.objects = s := Option.some.inj hs
  rw [hresult, Option.some.injEq, herror]
  refine ⟨[{ kind := .document }, { kind := .bold }, { kind := .plain, content := " " },
    { kind := .image, objectId := some "gone" }], { kind := .image, objectId := some "o" },
    [{ kind := .tableRow }], by rfl, fun c hc => defect?_eq_none_iff.1 ?_,
    .mapping rfl rfl (by decide) rfl⟩
  revert c
  decide

end RichText
