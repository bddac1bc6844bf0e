import RichText.Proofs.Document.Catalogs
import RichText.Proofs.Document.Shapes

/-!
What is read from a value under a shape. It is put together from what is read from the values at
known places inside, and does not depend on the room as long as the nesting of known places fits.
-/
namespace RichText.Document

open Json Json.Value

/-- The shape of what stands under a key. -/
def Shape.member : Shape → Option String → Option Shape
  | part p, key | optional p, key => (p.fields.find? fun f => key = some f.name).map Field.shape
  | catalog p, _ => some (.part p)
  | _, _ => none

/-- The shape of what stands at a position. -/
def Shape.item : Shape → Nat → Option Shape
  | part p, i | optional p, i => p.fields[i]?.map Field.shape
  | array p, _ => some (.part p)
  | _, _ => none

mutual
/-- How many containers stand inside each other at known places. -/
def Shape.depth (s : Shape) : Value → Nat
  | .array vs => s.depthOfItems 0 vs + 1
  | .object ms => s.depthOfMembers ms + 1
  | _ => 0
def Shape.depthOfItems (s : Shape) (i : Nat) : List Value → Nat
  | [] => 0
  | v :: vs => max ((s.item i).elim 0 fun t => t.depth v) (s.depthOfItems (i + 1) vs)
def Shape.depthOfMembers (s : Shape) : List (Option String × Value) → Nat
  | [] => 0
  | (key, v) :: ms => max ((s.member key).elim 0 fun t => t.depth v) (s.depthOfMembers ms)
end

/-- A value at a known place directly inside another. -/
inductive Shape.Child (s : Shape) : Value → Shape → Value → Prop
  | item {vs : List Value} {i : Nat} {t : Shape} {v : Value} :
      vs[i]? = some v → s.item i = some t → Child s (.array vs) t v
  | member {ms : List (Option String × Value)} {key : Option String} {t : Shape} {v : Value} :
      (key, v) ∈ ms → s.member key = some t → Child s (.object ms) t v

namespace Shape

theorem depthOfItems_le_iff {s : Shape} {vs : List Value} {i n : Nat} :
    s.depthOfItems i vs ≤ n ↔
      ∀ j v t, vs[j]? = some v → s.item (i + j) = some t → t.depth v ≤ n := by
  induction vs generalizing i with
  | nil => simp [depthOfItems]
  | cons v vs ih =>
    have hhead : (s.item i).elim 0 (fun t => t.depth v) ≤ n ↔
        ∀ t, s.item i = some t → t.depth v ≤ n := by
      cases s.item i <;> simp
    rw [depthOfItems, Nat.max_le, hhead, ih]
    constructor
    · rintro ⟨h, hs⟩ (_ | j) w t hw ht
      · obtain rfl := Option.some.inj hw
        exact h t ht
      · exact hs j w t hw (by rwa [Nat.add_right_comm])
    · intro h
      refine ⟨fun t => h 0 v t rfl, fun j w t hw ht => h (j + 1) w t hw ?_⟩
      rwa [Nat.add_right_comm] at ht

theorem depthOfMembers_le_iff {s : Shape} {ms : List (Option String × Value)} {n : Nat} :
    s.depthOfMembers ms ≤ n ↔
      ∀ key v t, (key, v) ∈ ms → s.member key = some t → t.depth v ≤ n := by
  induction ms with
  | nil => simp [depthOfMembers]
  | cons m ms ih =>
    have hhead : (s.member m.1).elim 0 (fun t => t.depth m.2) ≤ n ↔
        ∀ t, s.member m.1 = some t → t.depth m.2 ≤ n := by
      cases s.member m.1 <;> simp
    rw [depthOfMembers, Nat.max_le, hhead, ih]
    constructor
    · rintro ⟨h, hs⟩ key v t hmem ht
      rcases List.mem_cons.1 hmem with rfl | hmem
      · exact h t ht
      · exact hs key v t hmem ht
    · intro h
      exact ⟨fun t => h m.1 m.2 t List.mem_cons_self,
        fun key v t hmem => h key v t (List.mem_cons_of_mem m hmem)⟩

theorem depth_le_succ_iff {s : Shape} {v : Value} {n : Nat} :
    s.depth v ≤ n + 1 ↔ ∀ t w, s.Child v t w → t.depth w ≤ n := by
  constructor
  · rintro h t w (⟨hw, ht⟩ | ⟨hmem, ht⟩)
    · rw [depth, Nat.add_le_add_iff_right, depthOfItems_le_iff] at h
      exact h _ w t hw (by rwa [Nat.zero_add])
    · rw [depth, Nat.add_le_add_iff_right, depthOfMembers_le_iff] at h
      exact h _ w t hmem ht
  · intro h
    cases v with
    | array vs =>
      rw [depth, Nat.add_le_add_iff_right, depthOfItems_le_iff]
      exact fun j w t hw ht => h t w (.item hw (by rwa [Nat.zero_add] at ht))
    | object ms =>
      rw [depth, Nat.add_le_add_iff_right, depthOfMembers_le_iff]
      exact fun key w t hmem ht => h t w (.member hmem ht)
    | _ => exact Nat.zero_le _

end Shape

section children
variable {p : Part} {v w : Value} {ms : List (String × Value)} {s : Shape}

theorem Part.eq_of_name_eq {f g : Field} (hf : f ∈ p.fields) (hg : g ∈ p.fields)
    (h : f.name = g.name) : f = g :=
  List.inj_on_of_nodup_map p.nodup_names hf hg h

theorem Part.member_eq_some_iff {key : Option String} :
    (Shape.part p).member key = some s ↔ ∃ f ∈ p.fields, key = some f.name ∧ f.shape = s := by
  rw [Shape.member, Option.map_eq_some_iff]
  constructor
  · rintro ⟨f, hfind, rfl⟩
    exact ⟨f, List.mem_of_find?_eq_some hfind, by simpa using List.find?_some hfind, rfl⟩
  · rintro ⟨f, hf, rfl, rfl⟩
    refine ⟨f, ?_, rfl⟩
    obtain ⟨g, hg⟩ : ∃ g, (p.fields.find? fun g => some f.name = some g.name) = some g := by
      rw [← Option.isSome_iff_exists, List.find?_isSome]
      exact ⟨f, hf, by simp⟩
    have hname : f.name = g.name := by simpa using List.find?_some hg
    rw [hg, Part.eq_of_name_eq hf (List.mem_of_find?_eq_some hg) hname]

theorem Part.lookup_array {vs : List Value} (h : members? p.names (.array vs) = some ms) {f : Field}
    (hf : f ∈ p.fields) :
    ms.lookup f.name = some w ↔ ∃ i : Nat, p.fields[i]? = some f ∧ vs[i]? = some w := by
  obtain ⟨-, rfl⟩ := members?_array_eq_some_iff.1 h
  rw [lookup_zip_eq_some_iff p.nodup_names]
  refine exists_congr fun i => and_congr_left fun _ => ?_
  rw [names, List.getElem?_map, Option.map_eq_some_iff]
  constructor
  · rintro ⟨g, hg, hname⟩
    rw [← Part.eq_of_name_eq (List.mem_of_getElem? hg) hf hname, hg]
  · exact fun hi => ⟨f, hi, rfl⟩

theorem Part.lookup_object {oms : List (Option String × Value)}
    (h : members? p.names (.object oms) = some ms) {f : Field} (hf : f ∈ p.fields) :
    ms.lookup f.name = some w ↔ (some f.name, w) ∈ oms :=
  lookup_of_members?_object h (List.mem_map_of_mem hf)

/-- The values at known places in a part are those of its fields. -/
theorem Part.child_iff (h : v.members? p.names = some ms) :
    (Shape.part p).Child v s w ↔ ∃ f ∈ p.fields, f.shape = s ∧ ms.lookup f.name = some w := by
  cases v with
  | array vs =>
    constructor
    · rintro ⟨hw, ht⟩
      obtain ⟨f, hf, rfl⟩ := Option.map_eq_some_iff.1 ht
      exact ⟨f, List.mem_of_getElem? hf, rfl,
        (Part.lookup_array h (List.mem_of_getElem? hf)).2 ⟨_, hf, hw⟩⟩
    · rintro ⟨f, hf, rfl, hw⟩
      obtain ⟨i, hi, hw⟩ := (Part.lookup_array h hf).1 hw
      exact .item hw (Option.map_eq_some_iff.2 ⟨f, hi, rfl⟩)
  | object oms =>
    constructor
    · rintro (_ | ⟨hmem, ht⟩)
      obtain ⟨f, hf, rfl, rfl⟩ := Part.member_eq_some_iff.1 ht
      exact ⟨f, hf, rfl, (Part.lookup_object h hf).2 hmem⟩
    · rintro ⟨f, hf, rfl, hw⟩
      exact .member ((Part.lookup_object h hf).1 hw) (Part.member_eq_some_iff.2 ⟨f, hf, rfl, rfl⟩)
  | _ => cases h

end children

/-- A relation between values and what is read from them, shape by shape. -/
abbrev Reading := (s : Shape) → Value → s.type → Prop

/-- What a field is read as. -/
def Reading.field (P : Reading) (ms : List (String × Value)) (f : Field) (x : f.shape.type) :
    Prop :=
  match ms.lookup f.name with
  | none => x = f.absent
  | some v => P f.shape v x

/-- What a part is read as. -/
def Reading.part (P : Reading) (p : Part) (v : Value) (a : p.type) : Prop :=
  ∃ ms xs, v.members? p.names = some ms ∧ Values.All (P.field ms) p.fields xs ∧ p.make xs = a

/-- What is read from a value if the values at known places in it are read by a relation. -/
def Reading.step (P : Reading) : Reading
  | .leaf l, v, a => l.decode 1 v = some a
  | .part p, v, a => P.part p v a
  | .optional p, v, a => v = .null ∧ a = none ∨ v ≠ .null ∧ ∃ b, P.part p v b ∧ a = some b
  | .array p, v, as => ∃ vs, v = .array vs ∧ List.Forall₂ (P (.part p)) vs as
  | .catalog p, v, c => ∃ ms entries, v = .object ms ∧
      List.Forall₂ (fun m e => m.1 = some e.1 ∧ P (.part p) m.2 e.2) ms entries ∧
        Catalog.ofList entries = c

/-- What is decoded with some room. -/
def Shape.reading (room : Nat) : Reading := fun s v a => s.decode room v = some a

section step
variable {P Q : Reading} {s : Shape} {v : Value} {a : s.type}

theorem Field.read_eq_some_iff {f : Field} {room : Nat} {ms : List (String × Value)}
    {x : f.shape.type} : f.read room ms = some x ↔ (Shape.reading room).field ms f x := by
  rw [Field.read, Json.Value.field, Reading.field]
  cases ms.lookup f.name with
  | none => exact Option.some_inj.trans eq_comm
  | some v => rfl

theorem Part.decode_succ_iff {p : Part} {room : Nat} {v : Value} {a : p.type} :
    p.decode (room + 1) v = some a ↔ (Shape.reading room).part p v a := by
  rw [Part.decode_succ, Option.bind_eq_some_iff, Reading.part]
  simp only [readFields_eq_some_iff, Field.read_eq_some_iff, exists_and_left]

/-- Only the object form of a name takes from the room, and takes one. -/
theorem choice_succ {α : Type} (ofName? : String → Option α) (room : Nat) (v : Value) :
    Decoder.choice ofName? (room + 1) v = Decoder.choice ofName? 1 v := by
  cases v with
  | object ms =>
    rcases ms with _ | ⟨⟨key, w⟩, _ | ⟨m, ms⟩⟩
    · rfl
    · cases w <;> rfl
    · cases w <;> rfl
  | _ => rfl

theorem choice_zero {α : Type} (ofName? : String → Option α) (ms : List (Option String × Value)) :
    Decoder.choice ofName? 0 (.object ms) = none := by
  rcases ms with _ | ⟨⟨key, w⟩, _ | ⟨m, ms⟩⟩
  · rfl
  · cases w <;> rfl
  · cases w <;> rfl

theorem Leaf.decode_succ (l : Leaf) (room : Nat) (v : Value) :
    l.decode (room + 1) v = l.decode 1 v := by
  cases l with
  | namedStyle => exact choice_succ _ room v
  | optionalGlyph => exact congrArg (nullable? · v) (funext (choice_succ _ room))
  | _ => rfl

/-- One layer of a value is decoded at a time. -/
theorem Shape.decode_succ_iff {room : Nat} :
    s.decode (room + 1) v = some a ↔ (Shape.reading room).step s v a := by
  cases s with
  | leaf l => rw [Shape.decode, Leaf.decode_succ, Reading.step]
  | part p => exact Part.decode_succ_iff
  | optional p =>
    simp only [Shape.decode, nullable?_eq_some_iff, Part.decode_succ_iff, Reading.step]
  | array p =>
    rw [Shape.decode, Decoder.list, Option.bind_eq_some_iff]
    simp only [mapM_eq_some_iff]
    refine exists_congr fun vs => and_congr_left fun _ => ?_
    cases v <;> simp [items?]
  | catalog p =>
    cases v with
    | object ms =>
      rw [Shape.decode, Catalog.decode_object_eq_some_iff, Reading.step]
      simp [Shape.reading, Shape.decode]
    | _ => simp [Shape.decode, Catalog.decode, Reading.step]

theorem Shape.depth_eq_zero (h : s.depth v = 0) :
    (∀ vs, v ≠ .array vs) ∧ ∀ ms, v ≠ .object ms := by
  constructor <;> rintro _ rfl <;> simp [Shape.depth] at h

theorem Reading.not_part_of_depth_eq_zero {p : Part} {b : p.type} (h : s.depth v = 0) :
    ¬ P.part p v b := by
  rintro ⟨ms, xs, hms, -⟩
  cases v with
  | array vs => exact (Shape.depth_eq_zero h).1 vs rfl
  | object oms => exact (Shape.depth_eq_zero h).2 oms rfl
  | _ => cases hms

theorem Leaf.decode_zero_iff {l : Leaf} {a : l.type} :
    l.decode 0 v = some a ↔ (Shape.leaf l).depth v = 0 ∧ l.decode 1 v = some a := by
  cases v with
  | array vs =>
    refine iff_of_false ?_ fun h => (Shape.depth_eq_zero h.1).1 vs rfl
    cases l <;> rintro ⟨⟩
  | object ms =>
    refine iff_of_false ?_ fun h => (Shape.depth_eq_zero h.1).2 ms rfl
    cases l with
    | namedStyle => simp [decode, NamedStyle.decode, choice_zero]
    | optionalGlyph => simp [decode, Glyph.decode, nullable?, choice_zero]
    | _ => rintro ⟨⟩
  | _ =>
    refine .trans ?_ (and_iff_right rfl).symm
    cases l <;> rfl

/-- Without room, only scalars are decoded. -/
theorem Shape.decode_zero_iff (P : Reading) :
    s.decode 0 v = some a ↔ s.depth v = 0 ∧ P.step s v a := by
  cases s with
  | leaf l => exact Leaf.decode_zero_iff
  | part p =>
    refine iff_of_false ?_ fun h => Reading.not_part_of_depth_eq_zero h.1 h.2
    simp [Shape.decode, Part.decode_zero]
  | optional p =>
    simp only [Shape.decode, nullable?_eq_some_iff, Part.decode_zero, Reading.step]
    constructor
    · rintro (⟨rfl, rfl⟩ | ⟨-, b, ⟨⟩, -⟩)
      exact ⟨rfl, .inl ⟨rfl, rfl⟩⟩
    · rintro ⟨hdepth, h | ⟨-, b, hb, -⟩⟩
      · exact .inl h
      · exact absurd hb (Reading.not_part_of_depth_eq_zero hdepth)
  | array p =>
    refine iff_of_false (by rintro ⟨⟩) ?_
    rintro ⟨h, vs, rfl, -⟩
    exact (Shape.depth_eq_zero h).1 vs rfl
  | catalog p =>
    refine iff_of_false (by rintro ⟨⟩) ?_
    rintro ⟨h, ms, entries, rfl, -⟩
    exact (Shape.depth_eq_zero h).2 ms rfl

theorem Reading.field_of_none {ms : List (String × Value)} {f : Field} {x : f.shape.type}
    (h : ms.lookup f.name = none) : P.field ms f x ↔ x = f.absent := by
  rw [Reading.field, h]

theorem Reading.field_of_some {ms : List (String × Value)} {f : Field} {x : f.shape.type}
    {w : Value} (h : ms.lookup f.name = some w) : P.field ms f x ↔ P f.shape w x := by
  rw [Reading.field, h]

theorem Reading.field.imp {ms : List (String × Value)} {f : Field} {x : f.shape.type}
    (h : P.field ms f x) (hPQ : ∀ w, ms.lookup f.name = some w → P f.shape w x → Q f.shape w x) :
    Q.field ms f x := by
  cases hw : ms.lookup f.name with
  | none => exact (Reading.field_of_none hw).2 ((Reading.field_of_none hw).1 h)
  | some w => exact (Reading.field_of_some hw).2 (hPQ w hw ((Reading.field_of_some hw).1 h))

theorem Shape.child_optional_iff {p : Part} {t : Shape} {w : Value} :
    (Shape.optional p).Child v t w ↔ (Shape.part p).Child v t w := by
  constructor <;> rintro (⟨hw, ht⟩ | ⟨hmem, ht⟩)
  · exact .item hw ht
  · exact .member hmem ht
  · exact .item hw ht
  · exact .member hmem ht

theorem Reading.part.imp {p : Part} {b : p.type} (h : P.part p v b)
    (hPQ : ∀ t w, (Shape.part p).Child v t w → ∀ x, P t w x → Q t w x) : Q.part p v b := by
  obtain ⟨ms, xs, hms, hxs, rfl⟩ := h
  refine ⟨ms, xs, hms, hxs.imp fun f hf x hx => hx.imp fun w hw => ?_, rfl⟩
  exact hPQ f.shape w ((Part.child_iff hms).2 ⟨f, hf, rfl, hw⟩) x

theorem Reading.part.child {p : Part} {b : p.type} (h : P.part p v b) {t : Shape} {w : Value}
    (hchild : (Shape.part p).Child v t w) : ∃ x, P t w x := by
  obtain ⟨ms, xs, hms, hxs, rfl⟩ := h
  obtain ⟨f, hf, rfl, hw⟩ := (Part.child_iff hms).1 hchild
  obtain ⟨x, hx⟩ := hxs.exists_of_mem hf
  exact ⟨x, (Reading.field_of_some hw).1 hx⟩

/-- Only what is read from the values at known places matters. -/
theorem Reading.step.imp (h : P.step s v a)
    (hPQ : ∀ t w, s.Child v t w → ∀ x, P t w x → Q t w x) : Q.step s v a := by
  cases s with
  | leaf l => exact h
  | part p => exact Reading.part.imp h hPQ
  | optional p =>
    refine h.imp_right fun ⟨hne, b, hb, ha⟩ => ⟨hne, b, ?_, ha⟩
    exact hb.imp fun t w hchild => hPQ t w (Shape.child_optional_iff.2 hchild)
  | array p =>
    obtain ⟨vs, rfl, hvs⟩ := h
    refine ⟨vs, rfl, forall₂_imp_of_mem hvs fun w hw x => hPQ _ w ?_ x⟩
    obtain ⟨i, hi⟩ := List.mem_iff_getElem?.1 hw
    exact .item hi rfl
  | catalog p =>
    obtain ⟨ms, entries, rfl, hms, hc⟩ := h
    refine ⟨ms, entries, rfl, forall₂_imp_of_mem hms fun m hm e ⟨hkey, he⟩ => ⟨hkey, ?_⟩, hc⟩
    exact hPQ _ m.2 (.member hm rfl) e.2 he

/-- Something is read from each value at a known place. -/
theorem Reading.step.child (h : P.step s v a) {t : Shape} {w : Value} (hchild : s.Child v t w) :
    ∃ x, P t w x := by
  cases s with
  | leaf l =>
    obtain ⟨-, ht⟩ | ⟨-, ht⟩ := hchild
    · cases ht
    · cases ht
  | part p => exact Reading.part.child h hchild
  | optional p =>
    obtain ⟨rfl, -⟩ | ⟨-, b, hb, -⟩ := h
    · cases hchild
    · exact hb.child (Shape.child_optional_iff.1 hchild)
  | array p =>
    obtain ⟨vs, rfl, hvs⟩ := h
    obtain ⟨hw, ht⟩ | ⟨⟩ := hchild
    obtain rfl := Option.some.inj ht
    obtain ⟨x, -, hx⟩ := exists_right_of_forall₂ hvs (List.mem_of_getElem? hw)
    exact ⟨x, hx⟩
  | catalog p =>
    obtain ⟨ms, entries, rfl, hms, -⟩ := h
    obtain ⟨⟩ | ⟨hmem, ht⟩ := hchild
    obtain rfl := Option.some.inj ht
    obtain ⟨e, -, -, he⟩ := exists_right_of_forall₂ hms hmem
    exact ⟨e.2, he⟩

end step

namespace Shape

/-- The room is enough for the nesting of what is decoded. -/
theorem depth_le_of_decode {s : Shape} {v : Value} {a : s.type} {room : Nat}
    (h : s.decode room v = some a) : s.depth v ≤ room := by
  induction room generalizing s v with
  | zero => exact Nat.le_of_eq ((decode_zero_iff (Shape.reading 0)).1 h).1
  | succ room ih =>
    refine depth_le_succ_iff.2 fun t w hchild => ?_
    obtain ⟨x, hx⟩ := (decode_succ_iff.1 h).child hchild
    exact ih hx

/-- What is decoded with some room is decoded with any room that is enough for the nesting. -/
theorem decode_of_depth_le {s : Shape} {v : Value} {a : s.type} {room room' : Nat}
    (h : s.decode room v = some a) (hdepth : s.depth v ≤ room') : s.decode room' v = some a := by
  -- on the room that it was decoded with; the other room shrinks along with it
  induction room generalizing s v room' with
  | zero =>
    obtain ⟨hzero, hstep⟩ := (decode_zero_iff (Shape.reading (room' - 1))).1 h
    cases room' with
    | zero => exact h
    | succ room' => exact decode_succ_iff.2 hstep
  | succ room ih =>
    have hstep := decode_succ_iff.1 h
    cases room' with
    | zero => exact (decode_zero_iff _).2 ⟨Nat.le_zero.1 hdepth, hstep⟩
    | succ room' =>
      refine decode_succ_iff.2 (hstep.imp fun t w hchild x hx => ?_)
      exact ih hx (depth_le_succ_iff.1 hdepth t w hchild)

/-- What is read from a value where there is room enough. -/
def Reads : Reading := fun s v a => ∃ room, s.decode room v = some a

/-- Apart from the nesting, what is decoded does not depend on the room. -/
theorem decode_eq_some_iff {s : Shape} {v : Value} {a : s.type} {room : Nat} :
    s.decode room v = some a ↔ Reads s v a ∧ s.depth v ≤ room :=
  ⟨fun h => ⟨⟨room, h⟩, depth_le_of_decode h⟩,
    fun ⟨⟨_, h⟩, hdepth⟩ => decode_of_depth_le h hdepth⟩

theorem reads_iff {s : Shape} {v : Value} {a : s.type} : Reads s v a ↔ Reads.step s v a := by
  constructor
  · rintro ⟨room, h⟩
    have hsucc := decode_of_depth_le h (Nat.le_succ_of_le (depth_le_of_decode h))
    exact (decode_succ_iff.1 hsucc).imp fun _ _ _ _ hx => ⟨room, hx⟩
  · intro h
    refine ⟨s.depth v + 1, decode_succ_iff.2 (h.imp fun t w hchild x ⟨room, hx⟩ => ?_)⟩
    exact decode_of_depth_le hx (depth_le_succ_iff.1 (Nat.le_succ _) t w hchild)

theorem Reads.unique {s : Shape} {v : Value} {a b : s.type} (ha : Reads s v a) (hb : Reads s v b) :
    a = b := by
  have ha' := decode_eq_some_iff.2 ⟨ha, Nat.le_refl _⟩
  have hb' := decode_eq_some_iff.2 ⟨hb, Nat.le_refl _⟩
  exact Option.some.inj (ha'.symm.trans hb')

end Shape

end RichText.Document
