import RichText.Manifest
import RichText.Proofs.Document.Catalogs
import RichText.Proofs.Json.Members
import RichText.Proofs.Json.Nesting

/-!
The entries of a manifest. An entry is a bare file name, or a structure with the name and the sizes
in any order and among other members. A manifest is read exactly if all its entries are of one of
these forms, also those that a later entry of the same name replaces, and it is read as the map of
the last entries.
-/
namespace RichText

open Json Json.Value

namespace AssetFile

/-- The members of an entry. -/
def names : List String := ["filename", "width", "height"]

/-- A size as a member, which may be left out. -/
def sizeMember (name : String) (size : Option UInt32) : List (String × Value) :=
  (size.map fun n => (name, ofNat n.toNat)).toList

/-- The known members of an entry. -/
def knownMembers (name : String) (width height : Option UInt32) : List (String × Value) :=
  ("filename", text name) :: (sizeMember "width" width ++ sizeMember "height" height)

/-- An entry and the file it describes. What stands beside the known members must be strictly valid,
and with the two containers around it must not nest deeper than a whole text may. -/
inductive Form : Value → AssetFile → Prop
  | bare (name : String) : Form (text name) { name }
  | full {ms others : List (String × Value)} (name : String) (width height : Option UInt32) :
      ms.Perm (knownMembers name width height ++ others) →
      (∀ m ∈ others, m.1 ∉ names ∧ m.2.Strict ∧ m.2.nesting + 2 ≤ maxDepth) →
      Form (record ms) ⟨name, width.getD 0, height.getD 0⟩

theorem nodup_names_knownMembers (name : String) (width height : Option UInt32) :
    ((knownMembers name width height).map Prod.fst).Nodup := by
  cases width <;> cases height <;> simp [knownMembers, sizeMember]

theorem mem_names_of_mem_knownMembers {name : String} {width height : Option UInt32}
    {m : String × Value} (h : m ∈ knownMembers name width height) : m.1 ∈ names := by
  cases width <;> cases height <;> revert m <;> simp [knownMembers, sizeMember, names]

theorem ofValue?_object_eq_some_iff {ms : List (Option String × Value)} {f : AssetFile} :
    ofValue? (.object ms) = some f ↔ ∃ known, members? names (.object ms) = some known ∧
      known.lookup "filename" = some (text f.name) ∧ field known "width" 0 uint32? = some f.width ∧
        field known "height" 0 uint32? = some f.height := by
  simp only [ofValue?, names, Option.bind_eq_bind, Option.bind_eq_some_iff]
  constructor
  · rintro ⟨known, hknown, v, hv, name, hname, width, hwidth, height, hheight, h⟩
    obtain rfl := Option.some.inj h
    exact ⟨known, hknown, by rw [hv, text?_eq_some_iff.1 hname], hwidth, hheight⟩
  · rintro ⟨known, hknown, hname, hwidth, hheight⟩
    exact ⟨known, hknown, _, hname, _, rfl, _, hwidth, _, hheight, rfl⟩

/-- A size is read from a member exactly if it is one or is left out. -/
theorem field_uint32?_eq_some_iff {known : List (String × Value)} {name : String} {n : UInt32} :
    field known name 0 uint32? = some n ↔ ∃ size : Option UInt32, n = size.getD 0 ∧
      known.lookup name = size.map fun k => ofNat k.toNat := by
  rw [field]
  cases known.lookup name with
  | none =>
    constructor
    · intro h
      exact ⟨none, (Option.some.inj h).symm, rfl⟩
    · rintro ⟨_ | size, rfl, h⟩
      · rfl
      · cases h
  | some v =>
    constructor
    · intro h
      exact ⟨some n, rfl, congrArg some (uint32?_eq_some_iff.1 h)⟩
    · rintro ⟨_ | size, rfl, h⟩
      · cases h
      · exact uint32?_eq_some_iff.2 (Option.some.inj h)

theorem lookup_knownMembers (name : String) (width height : Option UInt32) :
    (knownMembers name width height).lookup "filename" = some (text name) ∧
      (knownMembers name width height).lookup "width" = width.map (fun k => ofNat k.toNat) ∧
      (knownMembers name width height).lookup "height" = height.map fun k => ofNat k.toNat := by
  cases width <;> cases height <;> refine ⟨rfl, rfl, rfl⟩

theorem lookup_eq_none_of_not_mem_names {ms : List (String × Value)} (h : ∀ m ∈ ms, m.1 ∈ names)
    {key : String} (hkey : key ∉ names) : ms.lookup key = none := by
  refine lookup_eq_none_iff_not_mem.2 fun hmem => hkey ?_
  obtain ⟨m, hm, rfl⟩ := List.mem_map.1 hmem
  exact h m hm

/-- What an entry is read as says what its known members are. -/
theorem ofValue?_record_eq_some_iff {ms : List (String × Value)} {f : AssetFile} :
    ofValue? (record ms) = some f ↔ ∃ width height : Option UInt32,
      f = ⟨f.name, width.getD 0, height.getD 0⟩ ∧
        (ms.filter (·.1 ∈ names)).Perm (knownMembers f.name width height) := by
  have hkeys : ∀ m ∈ ms.map keyed, m.1.isSome := by
    rw [List.forall_mem_map]
    exact fun _ _ => rfl
  have hnames : ∀ m ∈ ms.filter (·.1 ∈ names), m.1 ∈ names := by simp
  rw [record_eq, ofValue?_object_eq_some_iff]
  simp only [members?_object_eq_some_iff, named_map_keyed, field_uint32?_eq_some_iff]
  constructor
  · rintro ⟨known, ⟨-, rfl, hnodup⟩, hname, ⟨width, hwidth, hw⟩, height, hheight, hh⟩
    obtain ⟨hname', hw', hh'⟩ := lookup_knownMembers f.name width height
    refine ⟨width, height, by rw [← hwidth, ← hheight], perm_of_lookup hnodup
      (nodup_names_knownMembers _ _ _) fun key => ?_⟩
    by_cases hkey : key ∈ names
    · simp only [names, List.mem_cons, List.not_mem_nil, or_false] at hkey
      rcases hkey with rfl | rfl | rfl
      · rw [hname, hname']
      · rw [hw, hw']
      · rw [hh, hh']
    · rw [lookup_eq_none_of_not_mem_names hnames hkey,
        lookup_eq_none_of_not_mem_names (fun _ => mem_names_of_mem_knownMembers) hkey]
  · rintro ⟨width, height, hf, hperm⟩
    have hnodup := nodup_names_knownMembers f.name width height
    obtain ⟨hname, hw, hh⟩ := lookup_knownMembers f.name width height
    refine ⟨_, ⟨hkeys, rfl, (hperm.map Prod.fst).nodup_iff.2 hnodup⟩, ?_, ⟨width, ?_, ?_⟩, height,
      ?_, ?_⟩
    · rw [lookup_perm hperm hnodup, hname]
    · exact congrArg AssetFile.width hf
    · rw [lookup_perm hperm hnodup, hw]
    · exact congrArg AssetFile.height hf
    · rw [lookup_perm hperm hnodup, hh]

theorem strict_knownMembers (name : String) (width height : Option UInt32) :
    ∀ m ∈ knownMembers name width height, m.2.Strict ∧ m.2.nesting = 0 := by
  have hsize (n : UInt32) : (ofNat n.toNat).Strict ∧ (ofNat n.toNat).nesting = 0 :=
    ⟨strict_ofNat (Nat.lt_trans n.toNat_lt_size (by decide)), rfl⟩
  have hname : (text name).Strict ∧ (text name).nesting = 0 := ⟨.text name, rfl⟩
  cases width <;> cases height <;> simp [knownMembers, sizeMember, hsize, hname]

theorem filter_mem_names {ms others : List (String × Value)} {name : String}
    {width height : Option UInt32} (h : ms.Perm (knownMembers name width height ++ others))
    (hothers : ∀ m ∈ others, m.1 ∉ names) :
    (ms.filter (·.1 ∈ names)).Perm (knownMembers name width height) := by
  have hself : (knownMembers name width height).filter (·.1 ∈ names) =
      knownMembers name width height :=
    List.filter_eq_self.2 fun m hm => decide_eq_true (mem_names_of_mem_knownMembers hm)
  have hnil : others.filter (·.1 ∈ names) = [] :=
    List.filter_eq_nil_iff.2 fun m hm => by simpa using hothers m hm
  have hfilter := h.filter (·.1 ∈ names)
  rwa [List.filter_append, hself, hnil, List.append_nil] at hfilter

/-- What stands in an entry is inside two containers. -/
theorem nesting_record_lt_iff {ms : List (String × Value)} :
    (record ms).nesting < maxDepth ↔ ∀ m ∈ ms, m.2.nesting + 2 ≤ maxDepth := by
  have hnesting : (record ms).nesting < maxDepth ↔ nestingOfMembers (ms.map keyed) ≤ 125 := by
    rw [record_eq, nesting, maxDepth]
    omega
  have hroom {n : Nat} : n ≤ 125 ↔ n + 2 ≤ maxDepth := by
    rw [maxDepth]
    omega
  rw [hnesting, nestingOfMembers_le_iff, List.forall_mem_map]
  exact forall₂_congr fun _ _ => hroom

theorem strict_record {ms : List (String × Value)} :
    (record ms).Strict ↔ ∀ m ∈ ms, m.2.Strict := by
  rw [record_eq, strict_object, List.forall_mem_map, List.forall_mem_map]
  exact and_iff_right fun _ _ => rfl

theorem Form.strict {v : Value} {f : AssetFile} (h : Form v f) :
    v.Strict ∧ v.nesting < maxDepth := by
  obtain ⟨name⟩ | @⟨ms, others, name, width, height, hperm, hothers⟩ := h
  · exact ⟨.text name, Nat.succ_pos 126⟩
  · have hmember : ∀ m ∈ ms, m.2.Strict ∧ m.2.nesting + 2 ≤ maxDepth := by
      intro m hm
      rcases List.mem_append.1 (hperm.mem_iff.1 hm) with hknown | hother
      · obtain ⟨hstrict, hnesting⟩ := strict_knownMembers name width height m hknown
        exact ⟨hstrict, by rw [hnesting]; decide⟩
      · exact (hothers m hother).2
    exact ⟨strict_record.2 fun m hm => (hmember m hm).1,
      nesting_record_lt_iff.2 fun m hm => (hmember m hm).2⟩

theorem Form.ofValue?_eq {v : Value} {f : AssetFile} (h : Form v f) : ofValue? v = some f := by
  obtain ⟨name⟩ | ⟨name, width, height, hperm, hothers⟩ := h
  · rfl
  · exact ofValue?_record_eq_some_iff.2
      ⟨width, height, rfl, filter_mem_names hperm fun m hm => (hothers m hm).1⟩

theorem form_of_ofValue? {v : Value} {f : AssetFile} (hstrict : v.Strict)
    (hnesting : v.nesting < maxDepth) (h : ofValue? v = some f) : Form v f := by
  cases v with
  | string s =>
    obtain ⟨name, rfl, rfl⟩ := Option.map_eq_some_iff.1 h
    exact .bare name
  | object oms =>
    obtain ⟨ms, rfl⟩ := exists_map_keyed (strict_object.1 hstrict).1
    obtain ⟨width, height, hf, hperm⟩ := ofValue?_record_eq_some_iff.1 h
    have hall : ms.Perm (knownMembers f.name width height ++ ms.filter (·.1 ∉ names)) := by
      refine .trans ?_ (hperm.append_right _)
      simpa using (List.filter_append_perm (fun m => decide (m.1 ∈ names)) ms).symm
    rw [hf]
    refine .full f.name width height hall fun m hm => ?_
    rw [List.mem_filter, decide_eq_true_eq] at hm
    exact ⟨hm.2, strict_record.1 hstrict m hm.1, nesting_record_lt_iff.1 hnesting m hm.1⟩
  | _ => cases h

/-- An entry inside a manifest is read exactly if it is of one of the two forms. -/
theorem decode_eq_some_iff {v : Value} {f : AssetFile} :
    AssetFile.decode (maxDepth - 1) v = some f ↔ Form v f := by
  have hroom : v.nesting ≤ maxDepth - 1 ↔ v.nesting < maxDepth := Nat.le_sub_one_iff_lt (by decide)
  rw [AssetFile.decode, Option.ite_none_right_eq_some, keepable_iff, hroom]
  exact ⟨fun ⟨⟨hstrict, hnesting⟩, h⟩ => form_of_ofValue? hstrict hnesting h,
    fun h => ⟨h.strict, h.ofValue?_eq⟩⟩

end AssetFile

namespace AssetFile

theorem legible_encode (f : AssetFile) : f.encode.legible := by simp [encode]

theorem form_encode (f : AssetFile) : Form f.encode f := by
  have hperm : [("filename", text f.name), ("width", ofNat f.width.toNat),
      ("height", ofNat f.height.toNat)].Perm
        (knownMembers f.name (some f.width) (some f.height) ++ []) := .refl _
  exact .full f.name (some f.width) (some f.height) hperm (by simp)

end AssetFile

namespace Manifest

theorem decode_object_eq_some_iff {ms : List (Option String × Value)} {m : Manifest} :
    decode maxDepth (.object ms) = some m ↔ ∃ files : List (String × AssetFile),
      List.Forall₂ (fun e file => e.1 = some file.1 ∧ AssetFile.Form e.2 file.2) ms files ∧
        Catalog.ofList files = m := by
  have hdecode (v : Value) (f : AssetFile) :
      AssetFile.decode 126 v = some f ↔ AssetFile.Form v f := AssetFile.decode_eq_some_iff
  rw [decode, maxDepth, Catalog.decode_object_eq_some_iff]
  simp only [hdecode]

theorem legible_files (files : List (String × AssetFile)) :
    (record (files.map fun e => (e.1, e.2.encode))).legible := by
  rw [legible_record, List.forall_mem_map]
  exact fun e _ => e.2.legible_encode

theorem decode_files (files : List (String × AssetFile)) :
    decode maxDepth (record (files.map fun e => (e.1, e.2.encode))) =
      some (Catalog.ofList files) :=
  Catalog.decode_record (fun f => AssetFile.decode_eq_some_iff.2 f.form_encode) files

/-- A manifest is read exactly if each of its entries is of one of the two forms, and is read as the
map that keeps the last entry of each name. What is written from a manifest is read back as it, and
with its entries in another order as the same map. -/
theorem ofJson?_entries :
    (∀ {s : String} {ms : List (Option String × Value)} {files : List (String × AssetFile)},
      Value.ofString? s = some (.object ms) →
      List.Forall₂ (fun e file => e.1 = some file.1 ∧ AssetFile.Form e.2 file.2) ms files →
        ∃ m, ofJson? s = some m ∧ ∀ name f, m.get? name = some f ↔
          ∃ before after, files = before ++ (name, f) :: after ∧ name ∉ after.map Prod.fst) ∧
    (∀ {s : String} {ms : List (Option String × Value)}, Value.ofString? s = some (.object ms) →
      (∃ e ∈ ms, ∀ f, ¬ AssetFile.Form e.2 f) → ofJson? s = none) ∧
    ∀ m : Manifest,
      (ofJson? m.encode.compact = some m ∧ ofJson? m.encode.pretty = some m) ∧
      ∀ files : List (String × AssetFile), files.Perm m.entries →
        ∃ m' : Manifest, (∀ name, m'.get? name = m.get? name) ∧
          ofJson? (record (files.map fun e => (e.1, e.2.encode))).compact = some m' ∧
          ofJson? (record (files.map fun e => (e.1, e.2.encode))).pretty = some m' := by
  have hwritten (files : List (String × AssetFile)) :
      ofJson? (record (files.map fun e => (e.1, e.2.encode))).compact =
          some (Catalog.ofList files) ∧
        ofJson? (record (files.map fun e => (e.1, e.2.encode))).pretty =
          some (Catalog.ofList files) := by
    rw [ofJson?, ofString?_compact (legible_files files), ofJson?,
      ofString?_pretty (legible_files files), Option.bind_some, decode_files]
    exact ⟨rfl, rfl⟩
  refine ⟨fun {s ms files} hs hfiles => ?_, fun {s ms} hs ⟨e, he, hform⟩ => ?_, fun m => ⟨?_, ?_⟩⟩
  · refine ⟨Catalog.ofList files, ?_, fun _ _ => Catalog.get?_ofList_eq_some_iff⟩
    rw [ofJson?, hs]
    exact decode_object_eq_some_iff.2 ⟨files, hfiles, rfl⟩
  · rw [ofJson?, hs, Option.bind_some, Option.eq_none_iff_forall_ne_some]
    intro m hm
    obtain ⟨files, hfiles, -⟩ := decode_object_eq_some_iff.1 hm
    obtain ⟨file, -, -, hfile⟩ := exists_right_of_forall₂ hfiles he
    exact hform file.2 hfile
  · have h := hwritten m.entries
    rwa [Catalog.ofList_entries] at h
  · exact fun files hperm => ⟨_, Catalog.get?_ofList_perm hperm, hwritten files⟩

/-- A bare name under a name that comes again, sizes in another order, and members that are not
known. -/
def legacy : String :=
  "\x7b\"a\": \"old.png\", " ++
  "\"b\": \x7b\"height\": 4, \"x\": [null], \"filename\": \"b.png\"\x7d, \"a\": \"a.png\"\x7d"

theorem ofJson?_entries_legacy :
    (∃ m, ofJson? legacy = some m ∧ m.get? "a" = some { name := "a.png" } ∧
      m.get? "b" = some { name := "b.png", height := 4 } ∧ m.get? "c" = none) ∧
    ofJson? "\x7b\"a\": 42, \"a\": \"a.png\"\x7d" = none ∧
    ∃ m' : Manifest, m'.get? "a" = some { name := "a.png" } ∧
      ofJson? (record (([("b", { name := "b.png" }), ("a", { name := "a.png" })] :
        List (String × AssetFile)).map fun e => (e.1, e.2.encode))).compact = some m' := by
  obtain ⟨hread, hrefused, hwritten⟩ := ofJson?_entries
  have hb : AssetFile.Form (record [("height", ofNat 4), ("x", .array [.null]),
      ("filename", text "b.png")]) { name := "b.png", height := 4 } := by
    have hother : ∀ m ∈ [("x", Value.array [.null])],
        m.1 ∉ AssetFile.names ∧ m.2.Strict ∧ m.2.nesting + 2 ≤ maxDepth := by
      simp only [List.mem_singleton, forall_eq]
      exact ⟨by decide, .array (by simp [Strict.null]), by decide⟩
    exact .full "b.png" none (some 4) (((List.Perm.swap _ _ _).cons _).trans (.swap _ _ _)) hother
  refine ⟨?_, ?_, ?_⟩
  · obtain ⟨m, hm, hget⟩ := @hread legacy
      [(some "a", text "old.png"), (some "b", _), (some "a", text "a.png")]
      [("a", { name := "old.png" }), ("b", { name := "b.png", height := 4 }),
        ("a", { name := "a.png" })]
      (by rfl) (.cons ⟨rfl, .bare _⟩ (.cons ⟨rfl, hb⟩ (.cons ⟨rfl, .bare _⟩ .nil)))
    refine ⟨m, hm, ?_, ?_, ?_⟩
    · exact (hget _ _).2 ⟨[_, _], [], rfl, by simp⟩
    · exact (hget _ _).2 ⟨[_], [_], rfl, by simp⟩
    · refine Option.eq_none_iff_forall_ne_some.2 fun f hf => ?_
      obtain ⟨before, after, h, -⟩ := (hget _ _).1 hf
      have hmem : ("c", f) ∈ before ++ ("c", f) :: after := by simp
      rw [← h] at hmem
      simp at hmem
  · refine @hrefused _ [(some "a", ofNat 42), (some "a", text "a.png")] (by rfl)
      ⟨_, List.mem_cons_self, ?_⟩
    rintro f ⟨⟩
  · obtain ⟨-, h⟩ := hwritten (.ofList [("a", { name := "a.png" }), ("b", { name := "b.png" })])
    obtain ⟨m', hget, hm', -⟩ := h [("b", { name := "b.png" }), ("a", { name := "a.png" })]
      (by exact .swap _ _ _)
    exact ⟨m', hget "a", hm'⟩

end Manifest

end RichText
