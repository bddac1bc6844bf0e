import Mathlib.Data.List.Forall2

/-!
Lists that are related item by item, lists in which one item is replaced, and lists that are put
together from what is written for each item of another.
-/
namespace RichText

section related
variable {α β : Type} {R S : α → β → Prop} {as : List α} {bs : List β}

theorem mapM_eq_some_iff {f : α → Option β} :
    as.mapM f = some bs ↔ List.Forall₂ (fun a b => f a = some b) as bs := by
  induction as generalizing bs with
  | nil => simp [eq_comm]
  | cons a as ih =>
    simp only [List.mapM_cons, Option.bind_eq_bind, Option.pure_def, Option.bind_eq_some_iff, ih,
      Option.some.injEq, List.forall₂_cons_left_iff]
    constructor
    · rintro ⟨b, hb, rest, hrest, rfl⟩
      exact ⟨b, rest, hb, hrest, rfl⟩
    · rintro ⟨b, rest, hb, hrest, rfl⟩
      exact ⟨b, hb, rest, hrest, rfl⟩

theorem forall₂_imp_of_mem (h : List.Forall₂ R as bs) (hRS : ∀ a ∈ as, ∀ b, R a b → S a b) :
    List.Forall₂ S as bs :=
  ((List.forall₂_and_left as bs).2 ⟨fun _ => id, h⟩).imp fun a b hab => hRS a hab.1 b hab.2

theorem exists_getElem?_of_forall₂ (h : List.Forall₂ R as bs) {a : α} (ha : a ∈ as) :
    ∃ (i : Nat) (b : β), as[i]? = some a ∧ bs[i]? = some b ∧ R a b := by
  induction h with
  | nil => cases ha
  | @cons c b as bs hab _ ih =>
    rcases List.mem_cons.1 ha with rfl | ha
    · exact ⟨0, b, rfl, rfl, hab⟩
    · obtain ⟨i, b', hi, hb', h'⟩ := ih ha
      exact ⟨i + 1, b', hi, hb', h'⟩

theorem exists_right_of_forall₂ (h : List.Forall₂ R as bs) {a : α} (ha : a ∈ as) :
    ∃ b ∈ bs, R a b := by
  obtain ⟨i, b, -, hb, hab⟩ := exists_getElem?_of_forall₂ h ha
  exact ⟨b, List.mem_of_getElem? hb, hab⟩

theorem exists_left_of_forall₂ (h : List.Forall₂ R as bs) {b : β} (hb : b ∈ bs) :
    ∃ a ∈ as, R a b := exists_right_of_forall₂ h.flip hb

theorem map_eq_of_forall₂ {γ : Type} {f : α → γ} {g : β → γ} (hR : ∀ a b, R a b → g b = f a)
    (h : List.Forall₂ R as bs) : bs.map g = as.map f := by
  induction h with
  | nil => rfl
  | cons hab _ ih => rw [List.map_cons, List.map_cons, hR _ _ hab, ih]

end related

section replaced
variable {α β : Type} {pre post : List α} {a a' : α}

theorem getElem?_length_append : (pre ++ a :: post)[pre.length]? = some a := by simp

theorem getElem?_replaced {i : Nat} (h : i ≠ pre.length) :
    (pre ++ a' :: post)[i]? = (pre ++ a :: post)[i]? := by
  rcases Nat.lt_or_gt_of_ne h with hlt | hgt
  · rw [List.getElem?_append_left hlt, List.getElem?_append_left hlt]
  · have hle : pre.length ≤ i := Nat.le_of_lt hgt
    rw [List.getElem?_append_right hle, List.getElem?_append_right hle]
    obtain ⟨k, hk⟩ := Nat.exists_eq_add_of_lt hgt
    rw [hk, Nat.add_assoc, Nat.add_sub_cancel_left]
    rfl

theorem forall₂_replaced {R : α → β → Prop} {bs : List β} (h : List.Forall₂ R (pre ++ a :: post) bs)
    (hR : ∀ b, R a b → R a' b) : List.Forall₂ R (pre ++ a' :: post) bs := by
  induction pre generalizing bs with
  | nil =>
    obtain ⟨b, rest, hb, hrest, rfl⟩ := List.forall₂_cons_left_iff.1 h
    exact .cons (hR b hb) hrest
  | cons c pre ih =>
    obtain ⟨b, rest, hb, hrest, rfl⟩ := List.forall₂_cons_left_iff.1 h
    exact .cons hb (ih hrest)

end replaced

section written
variable {α β : Type}

theorem append_eq_append_iff_of_sublist {as bs cs ds : List α} (h : as.Sublist cs)
    (h' : bs.Sublist ds) : as ++ bs = cs ++ ds ↔ as = cs ∧ bs = ds := by
  constructor
  · intro heq
    have hlength := congrArg List.length heq
    rw [List.length_append, List.length_append] at hlength
    have hle := h.length_le
    have hle' := h'.length_le
    exact ⟨h.eq_of_length (by omega), h'.eq_of_length (by omega)⟩
  · rintro ⟨rfl, rfl⟩
    rfl

/-- Where less is written for each item, the same is written for all exactly if it is for each. -/
theorem flatMap_sublist {f g : α → List β} {as : List α} (h : ∀ a ∈ as, (f a).Sublist (g a)) :
    (as.flatMap f).Sublist (as.flatMap g) ∧
      (as.flatMap f = as.flatMap g ↔ ∀ a ∈ as, f a = g a) := by
  induction as with
  | nil => simp
  | cons a as ih =>
    rw [List.forall_mem_cons] at h
    obtain ⟨hsub, heq⟩ := ih h.2
    rw [List.flatMap_cons, List.flatMap_cons, append_eq_append_iff_of_sublist h.1 hsub, heq,
      List.forall_mem_cons]
    exact ⟨h.1.append hsub, Iff.rfl⟩

/-- What stands in the whole stands in what is written for one of the items. -/
theorem exists_of_flatMap_eq {f : α → List β} {as : List α} {before after : List β} {b : β}
    (h : as.flatMap f = before ++ b :: after) :
    ∃ xs a ys lead tail, as = xs ++ a :: ys ∧ f a = lead ++ b :: tail ∧
      before = xs.flatMap f ++ lead ∧ after = tail ++ ys.flatMap f := by
  induction as generalizing before with
  | nil => simp at h
  | cons a as ih =>
    rw [List.flatMap_cons, List.append_eq_append_iff] at h
    obtain ⟨mid, rfl, has⟩ | ⟨mid, ha, hafter⟩ := h
    · obtain ⟨xs, x, ys, lead, tail, rfl, hx, rfl, rfl⟩ := ih has
      exact ⟨a :: xs, x, ys, lead, tail, rfl, hx, by simp, rfl⟩
    · cases mid with
      | nil =>
        -- The item ends right before the one looked for, which begins the rest.
        have has : as.flatMap f = [] ++ b :: after := hafter.symm
        obtain ⟨xs, x, ys, lead, tail, rfl, hx, hlead, rfl⟩ := ih has
        refine ⟨a :: xs, x, ys, lead, tail, rfl, hx, ?_, rfl⟩
        rw [List.flatMap_cons, List.append_assoc, ← hlead, ha, List.append_nil, List.append_nil]
      | cons c mid =>
        obtain ⟨rfl, rfl⟩ := List.cons.inj hafter
        exact ⟨[], a, as, before, mid, rfl, ha, rfl, rfl⟩

end written

end RichText
