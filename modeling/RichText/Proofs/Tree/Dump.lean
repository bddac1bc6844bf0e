import RichText.Proofs.Json.Decoding
import RichText.Proofs.Render.Locality
import RichText.Tree.Dump

/-!
Reading dumps of trees. A dump leaves out what is empty or zero and the numbers of the nodes. All
else of a tree is rebuilt from the value that either layout of its dump is read as, so trees with
the same dump differ in their numbers only.
-/
namespace RichText

open Json Json.Value

namespace Json.Value
variable {α : Type}

/-- A whole number that is not negative. -/
def nat? (v : Value) : Option Nat := do
  let i ← v.int?
  if 0 ≤ i then some i.toNat else none

@[simp] theorem nat?_ofNat (n : Nat) : (ofNat n).nat? = some n := by
  simp [nat?, ofNat, ofInt, int?]

/-- A member that is left out if it has no value. -/
def member (name : String) (v : Option Value) : List (String × Value) :=
  (v.map fun v => (name, v)).toList

theorem map_fst_member (name : String) (v : Option Value) :
    ((member name v).map Prod.fst).Sublist [name] := by
  cases v with
  | none => exact List.nil_sublist _
  | some v => exact List.Sublist.refl _

theorem legible_of_mem_member {name : String} {v : Option Value} (hv : ∀ u ∈ v, u.legible)
    {m : String × Value} (hm : m ∈ member name v) : m.2.legible := by
  cases v with
  | none => simp [member] at hm
  | some u =>
    rw [List.mem_singleton.1 hm]
    exact hv u rfl

theorem field_member_append (name : String) (v : Option Value) (ms : List (String × Value))
    (absent : α) (read : Value → Option α) :
    field (member name v ++ ms) name absent read = v.elim (field ms name absent read) read := by
  cases v with
  | none => rfl
  | some v => simp [member]

/-- Members of other names do not count. -/
theorem field_member_append_of_ne {key name : String} (h : name ≠ key) (v : Option Value)
    (ms : List (String × Value)) (absent : α) (read : Value → Option α) :
    field (member key v ++ ms) name absent read = field ms name absent read := by
  cases v with
  | none => rfl
  | some v => simp [member, h]

end Json.Value

namespace Node

/-- The node that members describe. What is not there is empty or zero. -/
def ofMembers? (ms : List (String × Value)) : Option Node := do
  let kind ← (← ms.lookup "kind").text?
  return {
    kind := ← Kind.ofName? kind
    content := ← field ms "content" "" text?
    url := ← field ms "url" none fun v => v.text?.map some
    objectId := ← field ms "objectId" none fun v => v.text?.map some
    level := ← field ms "repeatLevel" 0 nat?
    number := ← field ms "itemNumber" 0 nat? }

theorem members_eq (d : Node) : d.members = ("kind", text d.kind.name) ::
    (member "content" (if d.content = "" then none else text d.content) ++
    (member "url" (d.url.map text) ++ (member "objectId" (d.objectId.map text) ++
    (member "repeatLevel" (if d.level = 0 then none else ofNat d.level) ++
    member "itemNumber" (if d.number = 0 then none else ofNat d.number))))) := by
  have hif (name : String) (v : Value) (p : Prop) [Decidable p] :
      member name (if p then none else some v) = if p then [] else [(name, v)] := by
    split <;> rfl
  rw [hif, hif, hif, members]
  cases d.url <;> cases d.objectId <;> simp [member]

/-- A node is read back from its members, with or without children beside them. -/
theorem ofMembers?_members (d : Node) (children : Option Value) :
    ofMembers? (d.members ++ member "children" children) = some d := by
  have hchildren {α : Type} (name : String) (hname : name ≠ "children") (absent : α)
      (read : Value → Option α) :
      field (member "children" children) name absent read = some absent := by
    rw [← List.append_nil (member "children" children), field_member_append_of_ne hname]
    rfl
  have hkind {ms : List (String × Value)} :
      (("kind", text d.kind.name) :: ms).lookup "kind" = some (text d.kind.name) := rfl
  have htext (s : String) : (text s).text? = some s := rfl
  have hcontent : (if d.content = "" then none else some (text d.content)).elim (some "") text? =
      some d.content := by
    split <;> simp_all
  have hlevel (n : Nat) : (if n = 0 then none else some (ofNat n)).elim (some 0) nat? =
      some n := by
    split <;> simp_all
  have hoption (o : Option String) :
      (o.map text).elim (some none) (fun v => v.text?.map some) = some o := by
    cases o <;> rfl
  simp [ofMembers?, members_eq, hkind, htext, field_member_append, field_member_append_of_ne,
    hchildren, hcontent, hlevel, hoption]

/-- The names of the members that describe the node itself. -/
def ownNames : List String := ["kind", "content", "url", "objectId", "repeatLevel", "itemNumber"]

/-- The names of the members of a node, its children among them. -/
def memberNames : List String := ownNames ++ ["children"]

theorem map_fst_members (d : Node) : (d.members.map Prod.fst).Sublist ownNames := by
  rw [members_eq]
  simp only [List.map_cons, List.map_append]
  exact .cons_cons _ ((map_fst_member _ _).append ((map_fst_member _ _).append
    ((map_fst_member _ _).append ((map_fst_member _ _).append (map_fst_member _ _)))))

theorem members?_members (d : Node) (children : Option Value) :
    members? memberNames (record (d.members ++ member "children" children)) =
      some (d.members ++ member "children" children) := by
  refine members?_record_of_sublist ?_ (by decide)
  rw [List.map_append]
  exact d.map_fst_members.append (map_fst_member _ _)

theorem ne_children_of_mem_members {d : Node} {m : String × Value} (hm : m ∈ d.members) :
    m.1 ≠ "children" := by
  intro heq
  have hmem : m.1 ∈ ownNames := d.map_fst_members.subset (List.mem_map_of_mem hm)
  rw [heq] at hmem
  exact absurd hmem (by decide)

theorem legible_of_mem_members {d : Node} {m : String × Value} (hm : m ∈ d.members) :
    m.2.legible := by
  have hif {p : Prop} [Decidable p] {v u : Value} (hv : v.legible)
      (hu : u ∈ (if p then none else some v)) : u.legible := by
    split at hu
    · cases hu
    · cases hu
      exact hv
  have hmap {o : Option String} {u : Value} (hu : u ∈ o.map text) : u.legible := by
    obtain ⟨s, -, rfl⟩ := Option.map_eq_some_iff.1 hu
    exact legible_text s
  rw [members_eq] at hm
  simp only [List.mem_cons, List.mem_append] at hm
  obtain rfl | hm | hm | hm | hm | hm := hm
  · exact legible_text _
  · exact legible_of_mem_member (fun u hu => hif (legible_text _) hu) hm
  · exact legible_of_mem_member (fun u hu => hmap hu) hm
  · exact legible_of_mem_member (fun u hu => hmap hu) hm
  · exact legible_of_mem_member (fun u hu => hif (legible_ofNat _) hu) hm
  · exact legible_of_mem_member (fun u hu => hif (legible_ofNat _) hu) hm

end Node

namespace Tree

theorem toValues_eq_map (ts : List Tree) : toValues ts = ts.map toValue := by
  induction ts with
  | nil => rfl
  | cons t ts ih => rw [toValues, ih, List.map_cons]

theorem toValue_node (i : Nat) (d : Node) (ts : List Tree) :
    (node i d ts).toValue = record (d.members ++
      member "children" (if ts = [] then none else some (.array (toValues ts)))) := by
  cases ts with
  | nil => simp [toValue, member]
  | cons t ts => simp [toValue, toValues, member]

theorem unnumberedAll_eq_map (ts : List Tree) : unnumberedAll ts = ts.map unnumbered := by
  induction ts with
  | nil => rfl
  | cons t ts ih => rw [unnumberedAll, ih, List.map_cons]

/-- All strings of a dump have a text. -/
theorem legible_toValue (t : Tree) : t.toValue.legible := by
  induction t with
  | node i d ts ih =>
    rw [toValue_node, legible_record]
    intro m hm
    obtain hm | hm := List.mem_append.1 hm
    · exact Node.legible_of_mem_members hm
    · refine legible_of_mem_member (fun u hu => ?_) hm
      split at hu
      · cases hu
      · cases hu
        rw [legible_array, toValues_eq_map]
        exact List.forall_mem_map.2 ih

/-- The numbers of the nodes are not written. -/
theorem toValue_unnumbered (t : Tree) : t.unnumbered.toValue = t.toValue := by
  induction t with
  | node i d ts ih =>
    have hts : toValues (unnumberedAll ts) = toValues ts := by
      rw [unnumberedAll_eq_map, toValues_eq_map, toValues_eq_map, List.map_map]
      exact List.map_congr_left ih
    have hnil : unnumberedAll ts = [] ↔ ts = [] := by simp [unnumberedAll_eq_map]
    simp only [unnumbered, toValue_node, hts, hnil]

mutual
/-- The tree that a value describes, all its numbers zero. -/
def ofValue? : Value → Option Tree
  | .object ms => do
    let known ← members? Node.memberNames (.object ms)
    let d ← Node.ofMembers? known
    let ts ← childrenOf? ms
    return node 0 d ts
  | _ => none
/-- The trees under the name of the children. -/
def childrenOf? : List (Option String × Value) → Option (List Tree)
  | [] => some []
  | (key, v) :: ms => if key = some "children" then ofArray? v else childrenOf? ms
def ofArray? : Value → Option (List Tree)
  | .array vs => ofValues? vs
  | _ => none
def ofValues? : List Value → Option (List Tree)
  | [] => some []
  | v :: vs => do
    let t ← ofValue? v
    let ts ← ofValues? vs
    return t :: ts
end

theorem childrenOf?_append_of_ne {ms : List (String × Value)}
    (hms : ∀ m ∈ ms, m.1 ≠ "children") (rest : List (Option String × Value)) :
    childrenOf? (ms.map (fun (key, v) => (some key, v)) ++ rest) = childrenOf? rest := by
  induction ms with
  | nil => rfl
  | cons m ms ih =>
    simp only [List.mem_cons, forall_eq_or_imp] at hms
    rw [List.map_cons, List.cons_append, childrenOf?, if_neg (by simpa using hms.1), ih hms.2]

theorem ofValues?_map {ts : List Tree} (h : ∀ t ∈ ts, ofValue? t.toValue = some t.unnumbered) :
    ofValues? (ts.map toValue) = some (ts.map unnumbered) := by
  induction ts with
  | nil => rfl
  | cons t ts ih =>
    simp only [List.mem_cons, forall_eq_or_imp] at h
    simp [ofValues?, h.1, ih h.2]

/-- A tree is rebuilt from its dump, but for the numbers of its nodes. -/
theorem ofValue?_toValue (t : Tree) : ofValue? t.toValue = some t.unnumbered := by
  induction t with
  | node i d ts ih =>
    let children := if ts = [] then none else some (Value.array (toValues ts))
    have hvalue : (node i d ts).toValue = record (d.members ++ member "children" children) :=
      toValue_node i d ts
    have hchildren : childrenOf? ((member "children" children).map
        fun (key, v) => (some key, v)) = some (unnumberedAll ts) := by
      by_cases hts : ts = []
      · simp [children, hts, member, childrenOf?, unnumberedAll]
      · simp [children, hts, member, childrenOf?, ofArray?, toValues_eq_map, ofValues?_map ih,
          unnumberedAll_eq_map]
    have hms : childrenOf? ((d.members ++ member "children" children).map
        fun (key, v) => (some key, v)) = some (unnumberedAll ts) := by
      rw [List.map_append, childrenOf?_append_of_ne fun _ => Node.ne_children_of_mem_members,
        hchildren]
    have hnode : members? Node.memberNames (record (d.members ++ member "children" children)) =
        some (d.members ++ member "children" children) := d.members?_members children
    rw [record] at hnode hvalue
    simp only [hvalue, ofValue?, hnode, Option.bind_eq_bind, Option.bind_some,
      Node.ofMembers?_members, hms]
    rfl

theorem toValue_eq_iff {t u : Tree} : t.toValue = u.toValue ↔ t.unnumbered = u.unnumbered := by
  constructor
  · intro h
    have hread : some t.unnumbered = some u.unnumbered := by
      rw [← ofValue?_toValue, ← ofValue?_toValue, h]
    exact Option.some.inj hread
  · intro h
    rw [← toValue_unnumbered, h, toValue_unnumbered]

theorem ofString?_dump (t : Tree) (compact : Bool) :
    Value.ofString? (t.dump compact) = some t.toValue := by
  cases compact with
  | false => exact ofString?_pretty t.legible_toValue
  | true => exact ofString?_compact t.legible_toValue

/-- Both layouts are read as the same value, the tree but for its numbers is rebuilt from that, and
so two trees have the same dump exactly if they differ in their numbers only. -/
theorem dump_loses_only_numbers (t : Tree) :
    (∀ compact, Value.ofString? (t.dump compact) = some t.toValue) ∧
      ofValue? t.toValue = some t.unnumbered ∧
      ∀ (u : Tree) (compact : Bool),
        t.dump compact = u.dump compact ↔ t.unnumbered = u.unnumbered := by
  refine ⟨t.ofString?_dump, t.ofValue?_toValue, fun u compact => ?_⟩
  rw [← toValue_eq_iff]
  constructor
  · intro h
    have hread : some t.toValue = some u.toValue := by
      rw [← ofString?_dump t compact, ← ofString?_dump u compact, h]
    exact Option.some.inj hread
  · intro h
    rw [dump, dump, h]

end Tree

end RichText
