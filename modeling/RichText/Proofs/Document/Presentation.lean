import Mathlib.Logic.Relation
import RichText.Proofs.Document.Readings

/-!
Presentations of a document. The members of a part may stand in any order and among others, with or
without those that say what their absence would, and without their names if in the order of the
fields. The document is the same. A known member that repeats and an item too many are refused.
-/
namespace RichText.Document

open Json Json.Value

/-- A part is presented in another way: its members in another order, beside another member whose
name is not known, with a member that says what its absence would, or without names. An array has
the members in the order of the fields, and leaves out last ones that say what their absence would.
-/
inductive Restyled (p : Part) : Value → Value → Prop
  | reordered {ms ns : List (Option String × Value)} :
      ms.Perm ns → Restyled p (.object ms) (.object ns)
  | unknown {pre post : List (Option String × Value)} {name : String} (v : Value) :
      name ∉ p.names → Restyled p (.object (pre ++ post)) (.object (pre ++ (some name, v) :: post))
  | defaulted {pre post : List (Option String × Value)} {f : Field} {v : Value} :
      f ∈ p.fields → some f.name ∉ (pre ++ post).map Prod.fst → Shape.Reads f.shape v f.absent →
      Restyled p (.object (pre ++ post)) (.object (pre ++ (some f.name, v) :: post))
  | array {ms : List (Option String × Value)} {given left : List Field} {vs : List Value} :
      p.fields = given ++ left →
      List.Forall₂ (fun f v => (some f.name, v) ∈ ms ∨
        some f.name ∉ ms.map Prod.fst ∧ Shape.Reads f.shape v f.absent) given vs →
      (∀ f ∈ left, ∀ v, (some f.name, v) ∈ ms → Shape.Reads f.shape v f.absent) →
      Restyled p (.object ms) (.array vs)

/-- A known member of a part is given again, or it is an array with more items than fields. -/
inductive Spoilt (p : Part) : Value → Value → Prop
  | repeated {pre post : List (Option String × Value)} {name : String} (v : Value) :
      name ∈ p.names → some name ∈ (pre ++ post).map Prod.fst →
      Spoilt p (.object (pre ++ post)) (.object (pre ++ (some name, v) :: post))
  | long {vs : List Value} (v : Value) : p.fields.length < vs.length → Spoilt p v (.array vs)

/-- A part at a known place is changed. -/
inductive Inside (R : Part → Value → Value → Prop) : Shape → Value → Value → Prop
  | here {p : Part} {v v' : Value} : R p v v' → Inside R (.part p) v v'
  | optional {p : Part} {v v' : Value} : R p v v' → Inside R (.optional p) v v'
  | item {s t : Shape} {pre post : List Value} {v v' : Value} :
      s.item pre.length = some t → Inside R t v v' →
      Inside R s (.array (pre ++ v :: post)) (.array (pre ++ v' :: post))
  | member {s t : Shape} {pre post : List (Option String × Value)} {key : Option String}
      {v v' : Value} : s.member key = some t → Inside R t v v' →
      Inside R s (.object (pre ++ (key, v) :: post)) (.object (pre ++ (key, v') :: post))

section parts
variable {p : Part} {v v' : Value} {ms ns : List (String × Value)} {a : p.type} {f : Field}

theorem Part.reads_iff : Shape.Reads (.part p) v a ↔ Shape.Reads.part p v a := Shape.reads_iff

/-- A part is read as before if each of its fields is. -/
theorem Part.reads_of_fields (h : Shape.Reads (.part p) v a) (hms : v.members? p.names = some ms)
    (hns : v'.members? p.names = some ns)
    (hfields : ∀ f ∈ p.fields, ∀ x, Shape.Reads.field ms f x → Shape.Reads.field ns f x) :
    Shape.Reads (.part p) v' a := by
  obtain ⟨ms', xs, hms', hxs, ha⟩ := Part.reads_iff.1 h
  obtain rfl := Option.some.inj (hms'.symm.trans hms)
  exact Part.reads_iff.2 ⟨ns, xs, hns, hxs.imp hfields, ha⟩

theorem Field.reads_of_lookup_eq (h : ns.lookup f.name = ms.lookup f.name) {x : f.shape.type}
    (hx : Shape.Reads.field ms f x) : Shape.Reads.field ns f x := by
  rwa [Reading.field, h]

/-- A part is read as before if one of its fields is and the others are left as they were. -/
theorem Part.reads_of_field (h : Shape.Reads (.part p) v a) (hms : v.members? p.names = some ms)
    (hns : v'.members? p.names = some ns) (hf : f ∈ p.fields)
    (hfield : ∀ x, Shape.Reads.field ms f x → Shape.Reads.field ns f x)
    (hothers : ∀ g ∈ p.fields, g.name ≠ f.name → ns.lookup g.name = ms.lookup g.name) :
    Shape.Reads (.part p) v' a := by
  refine Part.reads_of_fields h hms hns fun g hg x hx => ?_
  by_cases hname : g.name = f.name
  · obtain rfl := Part.eq_of_name_eq hg hf hname
    exact hfield x hx
  · exact Field.reads_of_lookup_eq (hothers g hg hname) hx

theorem Part.lookup_object_none {oms : List (Option String × Value)}
    (h : members? p.names (.object oms) = some ms) (hf : f ∈ p.fields) :
    ms.lookup f.name = none ↔ some f.name ∉ oms.map Prod.fst := by
  rw [Option.eq_none_iff_forall_ne_some]
  simp only [ne_eq, Part.lookup_object h hf, List.mem_map, Prod.exists, exists_and_right,
    exists_eq_right, not_exists]

end parts

section restyling
variable {p : Part} {a : p.type} {pre post oms : List (Option String × Value)}

theorem reads_reordered {ons : List (Option String × Value)} (hperm : oms.Perm ons)
    (h : Shape.Reads (.part p) (.object oms) a) : Shape.Reads (.part p) (.object ons) a := by
  obtain ⟨ms, xs, hms, -⟩ := Part.reads_iff.1 h
  obtain ⟨hkeys, hnamed, hnodup⟩ := members?_object_eq_some_iff.1 hms
  have hnamed' : (named p.names ons).Perm ms := hnamed ▸ (hperm.filterMap _).symm
  have hns : members? p.names (.object ons) = some (named p.names ons) :=
    members?_object_eq_some_iff.2 ⟨fun m hm => hkeys m (hperm.mem_iff.2 hm), rfl,
      (hnamed'.map Prod.fst).nodup_iff.2 hnodup⟩
  exact Part.reads_of_fields h hms hns fun f _ x =>
    Field.reads_of_lookup_eq (lookup_perm hnamed' hnodup f.name)

theorem reads_unknown {name : String} (hname : name ∉ p.names) (v : Value)
    (h : Shape.Reads (.part p) (.object (pre ++ post)) a) :
    Shape.Reads (.part p) (.object (pre ++ (some name, v) :: post)) a := by
  obtain ⟨ms, xs, hms, -⟩ := Part.reads_iff.1 h
  exact Part.reads_of_fields h hms ((members?_insert_of_not_mem hname).trans hms)
    fun _ _ _ hx => hx

theorem reads_defaulted {f : Field} {v : Value} (hf : f ∈ p.fields)
    (hnot : some f.name ∉ (pre ++ post).map Prod.fst) (hv : Shape.Reads f.shape v f.absent)
    (h : Shape.Reads (.part p) (.object (pre ++ post)) a) :
    Shape.Reads (.part p) (.object (pre ++ (some f.name, v) :: post)) a := by
  obtain ⟨ms, xs, hms, -⟩ := Part.reads_iff.1 h
  obtain ⟨ns, hns⟩ := Option.isSome_iff_exists.1 <|
    (isSome_members?_insert (List.mem_map_of_mem hf)).2 ⟨hnot, Option.isSome_iff_exists.2 ⟨ms, hms⟩⟩
  refine Part.reads_of_field h hms hns hf (fun x hx => ?_) fun g hg hname => ?_
  · have hnone := (Part.lookup_object_none hms hf).2 hnot
    have hsome := (Part.lookup_object hns hf).2 (List.mem_append_right pre List.mem_cons_self)
    rw [Reading.field_of_some hsome, (Reading.field_of_none hnone).1 hx]
    exact hv
  · refine Option.ext fun w => ?_
    rw [Part.lookup_object hns hg, Part.lookup_object hms hg]
    simp [hname]

/-- Fields behind the end of an array are left out. -/
theorem Part.lookup_left {given left : List Field} {vs : List Value} {ns : List (String × Value)}
    {f : Field} (hfields : p.fields = given ++ left) (hlength : given.length = vs.length)
    (hns : members? p.names (.array vs) = some ns) (hf : f ∈ left) : ns.lookup f.name = none := by
  have hdisjoint : given.Disjoint left :=
    List.disjoint_of_nodup_append (hfields ▸ p.nodup_names.of_map)
  refine Option.eq_none_iff_forall_ne_some.2 fun w hw => ?_
  obtain ⟨i, hi, hwi⟩ := (Part.lookup_array hns (hfields ▸ List.mem_append_right given hf)).1 hw
  have hlt : i < given.length := hlength ▸ (List.getElem?_eq_some_iff.1 hwi).1
  rw [hfields, List.getElem?_append_left hlt] at hi
  exact hdisjoint (List.mem_of_getElem? hi) hf

theorem reads_array {given left : List Field} {vs : List Value} (hfields : p.fields = given ++ left)
    (hgiven : List.Forall₂ (fun f v => (some f.name, v) ∈ oms ∨
      some f.name ∉ oms.map Prod.fst ∧ Shape.Reads f.shape v f.absent) given vs)
    (hleft : ∀ f ∈ left, ∀ v, (some f.name, v) ∈ oms → Shape.Reads f.shape v f.absent)
    (h : Shape.Reads (.part p) (.object oms) a) : Shape.Reads (.part p) (.array vs) a := by
  obtain ⟨ms, xs, hms, -⟩ := Part.reads_iff.1 h
  have hlength : vs.length ≤ p.names.length := by
    simp [Part.names, hfields, hgiven.length_eq]
  have hns : members? p.names (.array vs) = some (p.names.zip vs) :=
    members?_array_eq_some_iff.2 ⟨hlength, rfl⟩
  refine Part.reads_of_fields h hms hns fun f hf x hx => ?_
  rcases List.mem_append.1 (hfields ▸ hf) with hmem | hmem
  · obtain ⟨i, v, hi, hv, hspelled⟩ := exists_getElem?_of_forall₂ hgiven hmem
    have hfield : p.fields[i]? = some f := by
      rw [hfields, List.getElem?_append_left (List.getElem?_eq_some_iff.1 hi).1, hi]
    rw [Reading.field_of_some ((Part.lookup_array hns hf).2 ⟨i, hfield, hv⟩)]
    obtain hmember | ⟨hnot, habsent⟩ := hspelled
    · exact (Reading.field_of_some ((Part.lookup_object hms hf).2 hmember)).1 hx
    · rwa [(Reading.field_of_none ((Part.lookup_object_none hms hf).2 hnot)).1 hx]
  · rw [Reading.field_of_none (Part.lookup_left hfields hgiven.length_eq hns hmem)]
    cases hlookup : ms.lookup f.name with
    | none => exact (Reading.field_of_none hlookup).1 hx
    | some w =>
      have hw := hleft f hmem w ((Part.lookup_object hms hf).1 hlookup)
      exact ((Reading.field_of_some hlookup).1 hx).unique hw

end restyling

/-- A restyled part is read as before. -/
theorem Restyled.reads {p : Part} {v v' : Value} {a : p.type} (h : Restyled p v v')
    (ha : Shape.Reads (.part p) v a) : Shape.Reads (.part p) v' a := by
  cases h with
  | reordered hperm => exact reads_reordered hperm ha
  | unknown w hname => exact reads_unknown hname w ha
  | defaulted hf hnot hw => exact reads_defaulted hf hnot hw ha
  | array hfields hgiven hleft => exact reads_array hfields hgiven hleft ha

theorem Restyled.ne_null {p : Part} {v v' : Value} (h : Restyled p v v') :
    v ≠ .null ∧ v' ≠ .null := by
  cases h <;> exact ⟨Value.noConfusion, Value.noConfusion⟩

theorem Spoilt.ne_null {p : Part} {v v' : Value} (h : Spoilt p v v') : v' ≠ .null := by
  cases h <;> exact Value.noConfusion

/-- Nothing is read from a spoilt part. -/
theorem Spoilt.not_reads {p : Part} {v v' : Value} (h : Spoilt p v v') (a : p.type) :
    ¬ Shape.Reads (.part p) v' a := by
  rw [Part.reads_iff]
  rintro ⟨ms, xs, hms, -⟩
  cases h with
  | repeated w hname hmem =>
    exact ((isSome_members?_insert hname).1 (Option.isSome_iff_exists.2 ⟨ms, hms⟩)).1 hmem
  | long _ hlong =>
    rw [members?_array_eq_some_iff, Part.names, List.length_map] at hms
    exact Nat.not_le_of_gt hlong hms.1

theorem Shape.reads_optional_iff {p : Part} {v : Value} {a : Option p.type} (h : v ≠ .null) :
    Reads (.optional p) v a ↔ ∃ b, Reads (.part p) v b ∧ a = some b := by
  rw [Shape.reads_iff]
  simp only [Part.reads_iff]
  exact ⟨fun ha => ha.elim (fun hnull => absurd hnull.1 h) And.right, fun ha => .inr ⟨h, ha⟩⟩

section places
variable {t : Shape} {v v' : Value}

theorem Part.reads_item {p : Part} {a : p.type} {pre post : List Value}
    (ht : (Shape.part p).item pre.length = some t)
    (hv : ∀ x, Shape.Reads t v x → Shape.Reads t v' x)
    (h : Shape.Reads (.part p) (.array (pre ++ v :: post)) a) :
    Shape.Reads (.part p) (.array (pre ++ v' :: post)) a := by
  obtain ⟨f, hi, rfl⟩ := Option.map_eq_some_iff.1 ht
  obtain ⟨ms, xs, hms, -⟩ := Part.reads_iff.1 h
  have hns : members? p.names (.array (pre ++ v' :: post)) =
      some (p.names.zip (pre ++ v' :: post)) :=
    members?_array_eq_some_iff.2 ⟨by simpa using (members?_array_eq_some_iff.1 hms).1, rfl⟩
  have hf : f ∈ p.fields := List.mem_of_getElem? hi
  refine Part.reads_of_field h hms hns hf (fun x hx => ?_) fun g hg hname => ?_
  · have hold := (Part.lookup_array hms hf).2 ⟨pre.length, hi, getElem?_length_append⟩
    have hnew := (Part.lookup_array hns hf).2 ⟨pre.length, hi, getElem?_length_append⟩
    exact (Reading.field_of_some hnew).2 (hv x ((Reading.field_of_some hold).1 hx))
  · refine Option.ext fun w => ?_
    rw [Part.lookup_array hns hg, Part.lookup_array hms hg]
    refine exists_congr fun i => and_congr_right fun hg' => ?_
    have hne : i ≠ pre.length := by
      rintro rfl
      exact hname (congrArg Field.name (Option.some.inj (hg'.symm.trans hi)))
    rw [getElem?_replaced hne]

theorem Part.reads_member {p : Part} {a : p.type} {pre post : List (Option String × Value)}
    {key : Option String} (ht : (Shape.part p).member key = some t)
    (hv : ∀ x, Shape.Reads t v x → Shape.Reads t v' x)
    (h : Shape.Reads (.part p) (.object (pre ++ (key, v) :: post)) a) :
    Shape.Reads (.part p) (.object (pre ++ (key, v') :: post)) a := by
  obtain ⟨f, hf, rfl, rfl⟩ := Part.member_eq_some_iff.1 ht
  obtain ⟨ms, xs, hms, -⟩ := Part.reads_iff.1 h
  have hname : f.name ∈ p.names := List.mem_map_of_mem hf
  have hread := (isSome_members?_insert hname).1 (Option.isSome_iff_exists.2 ⟨ms, hms⟩)
  obtain ⟨ns, hns⟩ := Option.isSome_iff_exists.1 ((isSome_members?_insert hname).2 hread)
  refine Part.reads_of_field h hms hns hf (fun x hx => ?_) fun g hg hname => ?_
  · have hold := (Part.lookup_object hms hf).2 (List.mem_append_right pre List.mem_cons_self)
    have hnew := (Part.lookup_object hns hf).2 (List.mem_append_right pre List.mem_cons_self)
    exact (Reading.field_of_some hnew).2 (hv x ((Reading.field_of_some hold).1 hx))
  · refine Option.ext fun w => ?_
    rw [Part.lookup_object hns hg, Part.lookup_object hms hg]
    simp [hname]

theorem Shape.reads_item {s : Shape} {a : s.type} {pre post : List Value}
    (ht : s.item pre.length = some t) (hv : ∀ x, Reads t v x → Reads t v' x)
    (h : Reads s (.array (pre ++ v :: post)) a) : Reads s (.array (pre ++ v' :: post)) a := by
  cases s with
  | leaf l => cases ht
  | part p => exact Part.reads_item ht hv h
  | optional p =>
    rw [reads_optional_iff Value.noConfusion] at h ⊢
    obtain ⟨b, hb, ha⟩ := h
    exact ⟨b, Part.reads_item ht hv hb, ha⟩
  | array p =>
    obtain rfl := Option.some.inj ht
    rw [reads_iff] at h ⊢
    obtain ⟨vs, hvs, hread⟩ := h
    obtain rfl := Value.array.inj hvs
    exact ⟨_, rfl, forall₂_replaced hread hv⟩
  | catalog p => cases ht

theorem Shape.reads_member {s : Shape} {a : s.type} {pre post : List (Option String × Value)}
    {key : Option String} (ht : s.member key = some t) (hv : ∀ x, Reads t v x → Reads t v' x)
    (h : Reads s (.object (pre ++ (key, v) :: post)) a) :
    Reads s (.object (pre ++ (key, v') :: post)) a := by
  cases s with
  | leaf l => cases ht
  | part p => exact Part.reads_member ht hv h
  | optional p =>
    rw [reads_optional_iff Value.noConfusion] at h ⊢
    obtain ⟨b, hb, ha⟩ := h
    exact ⟨b, Part.reads_member ht hv hb, ha⟩
  | array p => cases ht
  | catalog p =>
    obtain rfl := Option.some.inj ht
    rw [reads_iff] at h ⊢
    obtain ⟨ms, entries, hms, hread, hc⟩ := h
    obtain rfl := Value.object.inj hms
    exact ⟨_, entries, rfl, forall₂_replaced hread fun e he => ⟨he.1, hv e.2 he.2⟩, hc⟩

end places

/-- A value is read as before if a part at a known place in it is restyled. -/
theorem Inside.reads {s : Shape} {v v' : Value} (h : Inside Restyled s v v') :
    ∀ a, Shape.Reads s v a → Shape.Reads s v' a := by
  induction h with
  | here h => exact fun _ => h.reads
  | optional h =>
    intro a ha
    obtain ⟨b, hb, rfl⟩ := (Shape.reads_optional_iff h.ne_null.1).1 ha
    exact (Shape.reads_optional_iff h.ne_null.2).2 ⟨b, h.reads hb, rfl⟩
  | item ht _ ih => exact fun _ => Shape.reads_item ht ih
  | member ht _ ih => exact fun _ => Shape.reads_member ht ih

/-- Nothing is read from a value if a part at a known place in it is spoilt. -/
theorem Inside.not_reads {s : Shape} {v v' : Value} (h : Inside Spoilt s v v') :
    ∀ a, ¬ Shape.Reads s v' a := by
  induction h with
  | here h => exact h.not_reads
  | optional h =>
    intro a ha
    obtain ⟨b, hb, -⟩ := (Shape.reads_optional_iff h.ne_null).1 ha
    exact h.not_reads b hb
  | @item s t pre post v v' ht _ ih =>
    intro a ha
    have hchild : s.Child (.array (pre ++ v' :: post)) t v' := .item getElem?_length_append ht
    obtain ⟨x, hx⟩ := (Shape.reads_iff.1 ha).child hchild
    exact ih x hx
  | @member s t pre post key v v' ht _ ih =>
    intro a ha
    have hchild : s.Child (.object (pre ++ (key, v') :: post)) t v' :=
      .member (List.mem_append_right pre List.mem_cons_self) ht
    obtain ⟨x, hx⟩ := (Shape.reads_iff.1 ha).child hchild
    exact ih x hx

theorem ofJson?_eq_some_iff {s : String} {v : Value} {d : Document}
    (h : Value.ofString? s = some v) :
    ofJson? s = some d ↔
      Shape.Reads (.part .document) v d ∧ (Shape.part .document).depth v ≤ maxDepth := by
  rw [ofJson?, h, Option.bind_some, ← Shape.decode_eq_some_iff]
  rfl

/-- A text with parts restyled at known places gives the same document, if the known places do not
nest too deep in it. A text with a part spoilt gives none. -/
theorem ofJson?_presented {s s' : String} {v v' : Value} {d : Document}
    (hv : Value.ofString? s = some v) (hv' : Value.ofString? s' = some v')
    (hd : ofJson? s = some d) :
    (Relation.ReflTransGen (Inside Restyled (.part .document)) v v' →
      (Shape.part .document).depth v' ≤ maxDepth → ofJson? s' = some d) ∧
    (Inside Spoilt (.part .document) v v' → ofJson? s' = none) := by
  obtain ⟨hread, -⟩ := (ofJson?_eq_some_iff hv).1 hd
  constructor
  · intro hsteps hdepth
    refine (ofJson?_eq_some_iff hv').2 ⟨?_, hdepth⟩
    clear hv' hdepth
    induction hsteps with
    | refl => exact hread
    | tail _ hstep ih => exact hstep.reads d ih
  · intro h
    rw [Option.eq_none_iff_forall_ne_some]
    exact fun d' hd' => h.not_reads d' ((ofJson?_eq_some_iff hv').1 hd').1

/-- A bulleted paragraph with what is needed, and the same with more around it. -/
def terse : String :=
  "\x7b\"title\": \"T\", " ++
  "\"body\": [[\x7b\"paragraph\": \x7b\"bullet\": \x7b\"listId\": \"a\"\x7d\x7d\x7d]]\x7d"

def wordy : String :=
  "\x7b\"body\": [[\x7b\"x\": [\x7b\x7d], " ++
  "\"paragraph\": \x7b\"elements\": [], \"bullet\": [\"a\"]\x7d\x7d]], \"title\": \"T\"\x7d"

def crowded : String :=
  "\x7b\"title\": \"T\", \"body\": [[\x7b\"paragraph\": \x7b\"bullet\": [\"a\", 0, 1]\x7d\x7d]]\x7d"

theorem ofJson?_presented_terse :
    (∃ d, ofJson? terse = some d ∧ ofJson? wordy = some d) ∧ ofJson? crowded = none := by
  let element (bullet : Value) : Value :=
    .object [(some "paragraph", .object [(some "bullet", bullet)])]
  let listed : Value := .object [(some "listId", text "a")]
  have hterse : Value.ofString? terse = some (.object
      [(some "title", text "T"), (some "body", .array [.array [element listed]])]) := by rfl
  have hwordy : Value.ofString? wordy = some (.object
      [(some "body", .array [.array [.object [(some "x", .array [.object []]),
        (some "paragraph", .object [(some "elements", .array []),
          (some "bullet", .array [text "a"])])]]]), (some "title", text "T")]) := by rfl
  have hcrowded : Value.ofString? crowded = some (.object [(some "title", text "T"),
      (some "body", .array [.array [element (.array [text "a", ofNat 0, ofNat 1])]])]) := by rfl
  have hd : ofJson? terse =
      some { title := some "T", body := [.ofParagraph { bullet := some { listId := "a" } }] } :=
    (ofJson?_eq_some_iff hterse).2 ⟨⟨8, by rfl⟩, by decide⟩
  have inBody {R : Part → Value → Value → Prop} (pre post : List (Option String × Value))
      {e e' : Value} (h : Inside R (.part .element) e e') : Inside R (.part .document)
        (.object (pre ++ (some "body", .array [.array [e]]) :: post))
        (.object (pre ++ (some "body", .array [.array [e']]) :: post)) := by
    refine .member rfl (@Inside.item _ (.part .body) _ [] [] _ _ rfl ?_)
    exact @Inside.item _ (.array .element) _ [] [] _ _ rfl h
  refine ⟨⟨_, hd, (ofJson?_presented hterse hwordy hd).1 ?_ (by decide)⟩,
    (ofJson?_presented hterse hcrowded hd).2 ?_⟩
  · have inParagraph (pre : List (Option String × Value)) {v v' : Value}
        (h : Inside Restyled (.optional .paragraph) v v') : Inside Restyled (.part .element)
          (.object (pre ++ [(some "paragraph", v)])) (.object (pre ++ [(some "paragraph", v')])) :=
      .member rfl h
    have hunknown := @Restyled.unknown .element [] [(some "paragraph", .object
      [(some "bullet", listed)])] "x" (.array [.object []]) (by decide)
    have hdefault := @Restyled.defaulted .paragraph [] [(some "bullet", listed)]
      ⟨"elements", .array .paragraphElement, []⟩ (.array []) (by simp [Part.fields]) (by decide)
      ⟨1, rfl⟩
    have harray := @Restyled.array .bullet [(some "listId", text "a")]
      [⟨"listId", .leaf .string, ""⟩] [⟨"nestingLevel", .leaf .uint32, (0 : UInt32)⟩] [text "a"]
      rfl (.cons (.inl List.mem_cons_self) .nil) (by simp)
    refine .head (.here (.reordered (.swap _ _ _))) ?_
    refine .head (inBody [] _ (.here hunknown)) ?_
    refine .head (inBody [] _ (inParagraph [_] (.optional hdefault))) ?_
    refine .single (inBody [] _ (inParagraph [_] ?_))
    exact @Inside.member _ (.optional .paragraph) _ [_] [] _ _ _ rfl (.optional harray)
  · refine inBody [_] [] (@Inside.member _ _ _ [] [] _ _ _ rfl ?_)
    refine @Inside.member _ (.optional .paragraph) _ [] [] _ _ _ rfl (.optional ?_)
    exact .long _ (by decide)

end RichText.Document
