import RichText.Proofs.Render.Writing
import RichText.Proofs.Tree.Containers
import RichText.Proofs.Tree.Numbering
import RichText.Proofs.Tree.Numbers
import RichText.Proofs.Tree.Order

/-!
List containers in the formats of lines. A container nested in another one is written as its items
one after the other, so that however containers are nested nothing is seen of them: an outermost one
is written as all items below it, with one line break at the end.
-/
namespace RichText

namespace Kind

/-- Under items, and inside what is under them, there are only the pieces of lines. -/
theorem isInline_of_mayHold {k c : Kind} (hk : k.isInline ∨ k.isItem) (h : k.mayHold c) :
    c.isInline := by
  cases k <;> cases c <;> simp_all [isInline, isItem, mayHold]

/-- Items stand in lists alone. -/
theorem isList_of_mayHold_item {k c : Kind} (hc : c.isItem) (h : k.mayHold c) : k.isList := by
  cases k <;> cases c <;> simp_all [isItem, isList, isInline, isBlock, mayHold]

end Kind

namespace Tree

/-- The list items in preorder. -/
def listItems (t : Tree) : List Tree := t.preorder.filter fun s => s.kind.isItem

theorem listItems_eq_read : listItems = read fun s => if s.kind.isItem then [s] else [] := by
  funext t
  rw [← map_filter_preorder, List.map_id']
  rfl

theorem listItems_node (i : Nat) (d : Node) (ts : List Tree) :
    (node i d ts).listItems =
      (if d.kind.isItem then [node i d ts] else []) ++ ts.flatMap listItems := by
  rw [listItems_eq_read, read_node, kind_node]

theorem listItems_of_isInline {t : Tree} (h : t.Everywhere Fits) (hk : t.kind.isInline) :
    t.listItems = [] := by
  induction t with
  | node i d ts ih =>
    have hitem : ¬ d.kind.isItem := by simp [isItem_of_isInline d.kind hk]
    rw [everywhere_node] at h
    rw [listItems_node, if_neg hitem, List.nil_append, List.flatMap_eq_nil_iff]
    intro c hc
    exact ih c hc (h.2 c hc) (Kind.isInline_of_mayHold (.inl hk) (h.1.children c hc))

/-- There are no items below an item. -/
theorem listItems_of_isItem {t : Tree} (h : t.Everywhere Fits) (hk : t.kind.isItem) :
    t.listItems = [t] := by
  cases t with
  | node i d ts =>
    rw [kind_node] at hk
    rw [everywhere_node] at h
    have hts : ts.flatMap listItems = [] := by
      rw [List.flatMap_eq_nil_iff]
      intro c hc
      have hinline := Kind.isInline_of_mayHold (.inr hk) (h.1.children c hc)
      exact listItems_of_isInline (h.2 c hc) hinline
    rw [listItems_node, if_pos hk, hts, List.append_nil]

/-- Outside lines there are no addresses and no objects, and texts in code alone. -/
theorem Fits.of_not_isInline {t : Tree} (h : t.Fits) (hk : t.kind.isInline = false)
    (hcode : t.kind ≠ .code) :
    t.data.url = none ∧ t.data.objectId = none ∧ t.data.content = "" := by
  have hne : ∀ k : Kind, k.isInline → t.kind ≠ k := by
    intro k hi heq
    rw [heq, hi] at hk
    cases hk
  have hd : t.data.Fits := h.data
  have himage : t.data.kind ≠ .image := hne .image rfl
  exact ⟨hd.url_eq_none (hne .link rfl), by simpa [himage] using hd.object,
    hd.content_eq_empty ⟨hne .plain rfl, hcode⟩⟩

/-- Lists have no address, no object and no text. -/
theorem Fits.of_isList {t : Tree} (h : t.Fits) (hk : t.kind.isList) :
    t.data.url = none ∧ t.data.objectId = none ∧ t.data.content = "" := by
  refine h.of_not_isInline ?_ (Kind.ne_of_isList hk rfl)
  cases hkind : t.kind <;> first | rfl | (rw [hkind] at hk; cases hk)

end Tree

theorem joinRendered_of_leftPad {rs : List Rendered} (h : ∀ r ∈ rs, r.leftPad = false)
    (last : Option Char) (previous : Option Kind) :
    joinRendered last previous rs = rs.flatMap Rendered.text := by
  induction rs generalizing last previous with
  | nil => rfl
  | cons r rs ih =>
    simp only [List.mem_cons, forall_eq_or_imp] at h
    rw [joinRendered_cons, ih h.2, Rendered.pad, h.1]
    rfl

/-- Nested in its kind a list is what is inside it, and elsewhere there is a line break after that,
unless it is empty. -/
theorem Rule.finish_list (nested : Bool) {d : Node} (hurl : d.url = none) (inner : List Char) :
    list.finish nested d inner =
      if inner.isEmpty then [] else if nested then inner else inner ++ ['\n'] := by
  have haround : list.around nested d inner = if nested then inner else inner ++ ['\n'] := by
    rw [around_eq_of_plain (fun _ _ => rfl) (fun _ _ => rfl) hurl]
    cases nested <;> rfl
  rw [finish_eq, ← haround]
  rfl

theorem Rule.finish_list_nested {d : Node} (hurl : d.url = none) (inner : List Char) :
    list.finish true d inner = inner := by
  rw [finish_list true hurl]
  cases inner <;> rfl

/-- Rules that write lists as lists of lines, where items are not padded and text is left unescaped
in code only. -/
structure ListRules (rules : Kind → Rule) : Prop where
  list : ∀ k, k.isList → rules k = Rule.list
  item : ∀ k, k.isItem → (rules k).leftPad = false
  raw : ∀ k, (rules k).raw → k = .code
  image : (rules .image).file.isSome

theorem Markdown.listRules : ListRules rule where
  list k hk := by cases k <;> first | rfl | cases hk
  item k hk := by cases k <;> first | rfl | cases hk
  raw k hk := by cases k <;> first | rfl | cases hk
  image := rfl

theorem PlainText.listRules : ListRules rule where
  list k hk := by cases k <;> first | rfl | cases hk
  item k hk := by cases k <;> first | rfl | cases hk
  raw k hk := by cases k <;> first | rfl | cases hk
  image := rfl

open RichText.Tree

/-- The texts of several nodes as one text. -/
theorem join_map_ofList {α : Type} (write : α → List Char) (as : List α) :
    String.join (as.map fun a => String.ofList (write a)) = String.ofList (as.flatMap write) := by
  rw [← String.toList_inj, String.toList_join, List.flatMap_map, String.toList_ofList]
  simp only [String.toList_ofList]

/-- Without text of its own, and above nodes that are not padded, a node is written as the texts of
what stands under it. -/
theorem writeTree_of_leftPad {rules : Kind → Rule} (files : Manifest) {t : Tree}
    (hobject : t.data.objectId = none) (hcontent : t.data.content = "")
    (hpad : ∀ c ∈ t.children, (rules c.kind).leftPad = false) (nested raw : Bool) :
    writeTree rules files nested raw t =
      (rules t.kind).finish nested t.data (t.children.flatMap fun c =>
        writeTree rules files (c.kind = t.kind) (raw || (rules t.kind).raw) c) := by
  cases t with
  | node i d ts =>
    simp only [data_node, children_node] at hobject hcontent hpad
    have hpads : ∀ r ∈ writeAll rules files d.kind (raw || (rules d.kind).raw) ts,
        r.leftPad = false := by
      intro r hr
      rw [writeAll_eq_map] at hr
      obtain ⟨c, hc, rfl⟩ := List.mem_map.1 hr
      exact hpad c hc
    have hliteral : (rules d.kind).literal (raw || (rules d.kind).raw) d.content = [] := by
      rw [hcontent]
      rfl
    simp only [writeTree, hobject, hliteral]
    rw [List.nil_append, List.getLast?_nil, joinRendered_of_leftPad hpads, writeAll_eq_map,
      List.flatMap_map]
    rfl

section
variable {rules : Kind → Rule} (hrules : ListRules rules) (files : Manifest)
include hrules

/-- Inside a list there are the texts of what stands under it, without spaces between them. -/
theorem writeTree_container {i : Nat} {d : Node} {ts : List Tree} (hk : d.kind.isList)
    (h : (node i d ts).Fits) (nested raw : Bool) :
    writeTree rules files nested raw (node i d ts) =
      Rule.list.finish nested d
        (ts.flatMap fun c => writeTree rules files (c.kind = d.kind) raw c) := by
  obtain ⟨-, hobject, hcontent⟩ := h.of_isList hk
  have hpad : ∀ c ∈ ts, (rules c.kind).leftPad = false := by
    intro c hc
    rcases (Kind.mayHold_list_iff hk).1 (h.children c hc) with hck | hck
    · exact hrules.item c.kind (by rw [hck]; exact d.kind.isItem_itemKind)
    · rw [hck, hrules.list d.kind hk]
      rfl
  have hraw : (raw || Rule.list.raw) = raw := Bool.or_false raw
  rw [writeTree_of_leftPad files hobject hcontent hpad, kind_node, hrules.list d.kind hk, hraw]
  rfl

/-- A list is written as the items below it. -/
theorem writeTree_list {t : Tree} (h : t.Everywhere Fits) (hk : t.kind.isList)
    (nested raw : Bool) :
    writeTree rules files nested raw t =
      Rule.list.finish nested t.data (t.listItems.flatMap (writeTree rules files false raw)) := by
  induction t generalizing nested with
  | node i d ts ih =>
    rw [kind_node] at hk
    rw [everywhere_node] at h
    have hitem : ¬ d.kind.isItem := fun hi => not_isList_of_isItem hi hk
    have hchild : ∀ c ∈ ts, writeTree rules files (c.kind = d.kind) raw c =
        c.listItems.flatMap (writeTree rules files false raw) := by
      intro c hc
      rcases (Kind.mayHold_list_iff hk).1 (h.1.children c hc) with hck | hck
      · -- An item is written as it is.
        have hcitem : c.kind.isItem := by
          rw [hck]
          exact d.kind.isItem_itemKind
        have hne : c.kind ≠ d.kind := by
          intro heq
          rw [heq] at hcitem
          exact hitem hcitem
        rw [listItems_of_isItem (h.2 c hc) hcitem, decide_eq_false hne, List.flatMap_singleton]
      · -- A nested list has the same kind, so that nothing is put around it.
        have hcl : c.kind.isList := by
          rw [hck]
          exact hk
        rw [ih c hc (h.2 c hc) hcl, decide_eq_true hck,
          Rule.finish_list_nested ((h.2 c hc).self.of_isList hcl).1]
    rw [writeTree_container hrules files hk h.1, listItems_node, if_neg hitem, List.nil_append,
      List.flatMap_assoc, List.flatMap_congr hchild]
    rfl

/-- A node under one of another kind is written as it is by itself. -/
theorem renderAt?_child (key : String) {t : Tree} (h : t.Everywhere Fits) (hids : t.ids.Nodup)
    {s c : Tree} (hs : s ∈ t.preorder) (hc : c ∈ s.children) (hne : s.kind ≠ c.kind) :
    (RuleTable.mk key fun k => some (rules k)).renderAt? files t c.id =
      some (.ok (String.ofList (writeTree rules files false false c))) := by
  have hcfits := h.of_mem (mem_preorder_of_mem_children hs hc)
  obtain ⟨q, hq, rfl⟩ := exists_mem_places_of_mem_preorder hs
  let p : Place := ⟨(q.subtree.id, q.subtree.data) :: q.above, c⟩
  have hp : p ∈ t.places := mem_placesBelow_child hq hc
  have hlocate : t.locate? c.id = some p := (locate?_eq_some_iff hids).2 ⟨hp, rfl⟩
  have hnested : p.nested = false := decide_eq_false hne
  have hraw : (RuleTable.mk key fun k => some (rules k)).rawAt p = false := by
    rw [RuleTable.rawAt, List.any_eq_false]
    intro a ha hrule
    obtain ⟨r, hr, rfl, hchildren⟩ := exists_place_of_mem_above hp ha
    have hcode : r.subtree.kind = .code := hrules.raw r.subtree.kind hrule
    have hfits := h r.subtree (mem_preorder_of_mem_places hr)
    exact hchildren (hfits.children_eq_nil fun k => by rw [hcode]; rfl)
  rw [RuleTable.renderAt?, hlocate, Option.map_some, hnested, hraw,
    renderTree_eq_ok files key hrules.image hcfits]
  rfl

/-- An outermost list is written as the items below it, with a line break after them if there is
anything before it. -/
theorem renderAt?_outermost (key : String) {t : Tree} (h : t.Everywhere Fits)
    (hids : t.ids.Nodup) (hroot : t.kind = .document) {s c : Tree} (hs : s ∈ t.preorder)
    (hsl : ¬ s.kind.isList) (hc : c ∈ s.children) (hcl : c.kind.isList) :
    ∃ texts : List String,
      c.listItems.map (fun i =>
          (RuleTable.mk key fun k => some (rules k)).renderAt? files t i.id) =
        texts.map (fun text => some (.ok text)) ∧
      (RuleTable.mk key fun k => some (rules k)).renderAt? files t c.id =
        some (.ok (if String.join texts = "" then "" else String.join texts ++ "\n")) := by
  have hcmem := mem_preorder_of_mem_children hs hc
  refine ⟨c.listItems.map fun i => String.ofList (writeTree rules files false false i), ?_, ?_⟩
  · rw [List.map_map]
    refine List.map_congr_left fun i hi => ?_
    obtain ⟨himem, hitem⟩ := List.mem_filter.1 hi
    have himem : i ∈ t.preorder := mem_preorder_trans hcmem himem
    obtain rfl | ⟨u, hu, hiu⟩ := eq_or_mem_children himem
    · rw [hroot] at hitem
      cases hitem
    · have hul := Kind.isList_of_mayHold_item hitem ((h u hu).children i hiu)
      have hne : u.kind ≠ i.kind := by
        intro heq
        rw [heq] at hul
        exact not_isList_of_isItem hitem hul
      rw [renderAt?_child hrules files key h hids hu hiu hne]
      rfl
  · have hne : s.kind ≠ c.kind := by
      intro heq
      rw [heq] at hsl
      exact hsl hcl
    rw [renderAt?_child hrules files key h hids hs hc hne, writeTree_list hrules files
      (h.of_mem hcmem) hcl, Rule.finish_list false ((h c hcmem).of_isList hcl).1,
      join_map_ofList]
    cases c.listItems.flatMap (writeTree rules files false false) with
    | nil => rfl
    | cons a as => simp [String.append_assoc]

end

/-- In the formats of lines an outermost list of a document is written as all items below it in
preorder, one after the other, with one line break at the end if anything is written at all, however
lists are nested in it and whatever files there are. -/
theorem Document.render_container {d : Document} {o : Options} {t : Tree} (h : d.tree o = .ok t)
    {s c : Tree} (hs : s ∈ t.preorder) (hsl : ¬ s.kind.isList) (hc : c ∈ s.children)
    (hcl : c.kind.isList) (files : Manifest) {table : RuleTable}
    (htable : Registry.standard.get "md" = .ok table ∨ Registry.standard.get "txt" = .ok table) :
    ∃ texts : List String,
      c.listItems.map (fun i => table.renderAt? files t i.id) =
        texts.map (fun text => some (.ok text)) ∧
      table.renderAt? files t c.id =
        some (.ok (if String.join texts = "" then "" else String.join texts ++ "\n")) := by
  have hfits := everywhere_fits h
  have hids := nodup_ids_tree h
  have hroot := kind_tree h
  rcases htable with htable | htable
  · obtain rfl : Markdown.table = table := Except.ok.inj htable
    exact renderAt?_outermost Markdown.listRules files "md" hfits hids hroot hs hsl hc hcl
  · obtain rfl : PlainText.table = table := Except.ok.inj htable
    exact renderAt?_outermost PlainText.listRules files "txt" hfits hids hroot hs hsl hc hcl

/-- A list that skips levels, has an item without text, and ends above its first item. -/
def Document.hollow : Document :=
  (({} : Document).addList "n" .numbered)
    |>.addParagraph (.bulleted "n" 1 "a")
    |>.addParagraph (.bulleted "n" 4 "b")
    |>.addParagraph (.bulleted "n" 2 "")
    |>.addParagraph (.bulleted "n" 0 "c")

theorem Document.render_container_hollow : ∃ t c, hollow.tree {} = .ok t ∧ t.children = [c] ∧
    c.kind.isList ∧
    c.listItems.map (fun i => Markdown.table.renderAt? .empty t i.id) =
      ["   1. a\n", "            1. b\n", "", "1. c\n"].map (fun text => some (.ok text)) ∧
    Markdown.table.renderAt? .empty t c.id =
      some (.ok "   1. a\n            1. b\n1. c\n\n") := by
  have hkinds : (hollow.tree {}).map (fun t => (t.kind.isList, t.children.map fun c =>
      c.kind.isList)) = .ok (false, [true]) := by
    decide +kernel
  have hvalues : (hollow.tree {}).map (fun t => t.children.flatMap fun c =>
      c.listItems.map fun i => Markdown.table.renderAt? .empty t i.id) =
        .ok (["   1. a\n", "            1. b\n", "", "1. c\n"].map
          fun text => some (.ok text)) := by
    decide +kernel
  obtain ⟨t, ht⟩ : ∃ t, hollow.tree {} = .ok t := ⟨_, rfl⟩
  rw [ht, Except.map, Except.ok.injEq, Prod.mk.injEq, List.map_eq_singleton_iff] at hkinds
  obtain ⟨hroot, c, hc, hcl⟩ := hkinds
  rw [ht, Except.map, Except.ok.injEq, hc, List.flatMap_singleton] at hvalues
  have hmem : c ∈ t.children := by
    rw [hc]
    exact List.mem_singleton_self c
  obtain ⟨texts, htexts, hlist⟩ := render_container ht t.self_mem_preorder
    (by rw [hroot]; exact Bool.false_ne_true) hmem hcl .empty (.inl rfl)
  have hinj : Function.Injective fun text : String =>
      (some (.ok text) : Option (Except Error String)) := by
    intro a b hab
    cases hab
    rfl
  obtain rfl := List.map_injective_iff.2 hinj (htexts.symm.trans hvalues)
  exact ⟨t, c, ht, hc, hcl, hvalues, hlist⟩

end RichText
