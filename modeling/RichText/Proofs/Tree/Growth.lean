import Mathlib.Tactic.MkIffOfInductiveProp
import RichText.Document.Build
import RichText.Proofs.Tree.Grammar
import RichText.Proofs.Tree.Order
import RichText.Proofs.Tree.Reading

/-!
How a tree grows as more of a body is read. What comes later is put behind all that is there: into
list containers on the way down along the last children, behind the text of code that ends the body,
or under the root. Nothing else of the nodes changes, nor does an error go away.
-/
namespace RichText

namespace Tree

/-- Siblings that grew at their end: the last of them may have changed, and more may follow. -/
@[mk_iff] inductive Extended (R : Tree → Tree → Prop) : List Tree → List Tree → Prop
  | more (ts us : List Tree) : Extended R ts (ts ++ us)
  | last (ts us : List Tree) {t t' : Tree} (h : R t t') : Extended R (ts ++ [t]) (ts ++ t' :: us)

namespace Extended
variable {R : Tree → Tree → Prop} {ts us vs : List Tree}

theorem refl (ts : List Tree) : Extended R ts ts := by
  simpa using more (R := R) ts []

/-- The last of two sequences is in the second one, or ends the first one. -/
theorem concat_cases {t : Tree} (h : ts ++ us = vs ++ [t]) :
    us = [] ∧ ts = vs ++ [t] ∨ ∃ ws, us = ws ++ [t] ∧ vs = ts ++ ws := by
  rcases List.eq_nil_or_concat us with rfl | ⟨ws, u, rfl⟩
  · exact .inl ⟨rfl, by simpa using h⟩
  · rw [List.concat_eq_append, ← List.append_assoc] at h
    obtain ⟨hts, hu⟩ := List.append_inj' h rfl
    obtain rfl := List.singleton_inj.1 hu
    exact .inr ⟨ws, List.concat_eq_append, hts.symm⟩

theorem trans (hR : ∀ t ∈ ts, ∀ u v, R t u → R u v → R t v) (h : Extended R ts us)
    (h' : Extended R us vs) : Extended R ts vs := by
  rw [extended_iff] at h'
  cases h with
  | more _ us =>
    obtain ⟨ws, rfl⟩ | ⟨init, ws, t, t', ht, hsplit, rfl⟩ := h'
    · rw [List.append_assoc]
      exact .more ts _
    · obtain ⟨-, rfl⟩ | ⟨us, -, rfl⟩ := concat_cases hsplit
      · exact .last init ws ht
      · rw [List.append_assoc]
        exact .more ts _
  | @last init us t u htu =>
    obtain ⟨ws, rfl⟩ | ⟨init', ws, v, v', hv, hsplit, rfl⟩ := h'
    · rw [List.append_assoc, List.cons_append]
      exact .last init _ htu
    · rw [List.append_cons] at hsplit
      obtain ⟨-, hlast⟩ | ⟨us, -, rfl⟩ := concat_cases hsplit
      · obtain ⟨rfl, hu⟩ := List.append_inj' hlast rfl
        obtain rfl := List.singleton_inj.1 hu
        exact .last init ws (hR t (by simp) u v' htu hv)
      · rw [← List.append_cons, List.append_assoc, List.cons_append]
        exact .last init _ htu

end Extended

/-- A list container, later: it took in more, or the last container in it did. -/
inductive Filled : Tree → Tree → Prop
  | refl (t : Tree) : Filled t t
  | list (id : Nat) {d : Node} {ts us : List Tree} (hd : d.kind.isList)
      (h : Extended Filled ts us) : Filled (node id d ts) (node id d us)

/-- A block, later: more was put into it if it is a list, or joined to it if it is code. -/
inductive Grown : Tree → Tree → Prop
  | filled {t t' : Tree} (h : Filled t t') : Grown t t'
  | joined (id : Nat) {d : Node} (ts : List Tree) (more : String) (hd : d.kind = .code) :
      Grown (node id d ts) (node id { d with content := d.content ++ more } ts)

theorem Filled.trans {t u v : Tree} (h : Filled t u) (h' : Filled u v) : Filled t v := by
  induction t generalizing u v with
  | node i d ts ih =>
    cases h with
    | refl => exact h'
    | list _ hd h =>
      cases h' with
      | refl => exact .list i hd h
      | list _ _ h' => exact .list i hd (h.trans (fun t ht u v => ih t ht) h')

theorem Grown.trans {t u v : Tree} (h : Grown t u) (h' : Grown u v) : Grown t v := by
  have hcode {k : Kind} (hk : k = .code) : ¬ k.isList := by simp [hk, Kind.isList]
  cases h with
  | filled h =>
    cases h' with
    | filled h' => exact .filled (h.trans h')
    | joined i ts more hd =>
      cases h with
      | refl => exact .joined i ts more hd
      | list _ hlist => exact absurd hlist (hcode hd)
  | joined i ts more hd =>
    cases h' with
    | filled h' =>
      cases h' with
      | refl => exact .joined i ts more hd
      | list _ hlist => exact absurd hlist (hcode hd)
    | joined _ _ more' =>
      rw [String.append_assoc]
      exact .joined i ts _ hd

theorem filled_insert (i : ListItem) (id : Nat) {t : Tree} (ht : t.kind.isList) :
    Filled t (i.insert id t) := by
  induction t with
  | node n d ts ih =>
    rw [ListItem.insert]
    split
    · obtain ⟨us, u, rfl, hu, hp⟩ | ⟨-, hp⟩ := i.place_cases id (d.level + 1) ts
      · rw [hp]
        exact .list n ht (.last us [] (ih u (by simp) (hu ▸ i.isList_listKind)))
      · rw [hp]
        exact .list n ht (.more ts _)
    · exact .list n ht (.more ts _)

/-- What a single block does to the blocks before it. -/
theorem extended_place (id : Nat) (ts : List Tree) (b : Block) :
    Extended Grown ts (b.place id ts) := by
  cases b with
  | paragraph is => exact .more ts _
  | heading level is => exact .more ts _
  | code content =>
    rw [Block.place]
    obtain ⟨us, n, d, vs, rfl, hd, hp⟩ | ⟨-, hp⟩ := Block.placeCode_cases content id ts
    · rw [hp]
      exact .last us [] (.joined n vs content hd)
    · rw [hp]
      exact .more ts _
  | item i =>
    rw [Block.place]
    obtain ⟨us, u, rfl, hu, hp⟩ | ⟨-, hp⟩ := i.place_cases id i.depth ts
    · rw [hp]
      exact .last us [] (.filled (filled_insert i id (hu ▸ i.isList_listKind)))
    · rw [hp]
      exact .more ts _
  | table rows => exact .more ts _

theorem extended_placeAll (first : Nat) (ts : List Tree) (bs : List Block) :
    Extended Grown ts (Block.placeAll first ts bs) := by
  induction bs generalizing ts with
  | nil => exact .refl ts
  | cons b bs ih =>
    rw [Block.placeAll]
    exact (extended_place _ ts b).trans (fun _ _ _ _ => Grown.trans) (ih _)

end Tree

theorem Block.placeAll_append (first : Nat) (ts : List Tree) (bs cs : List Block) :
    placeAll first ts (bs ++ cs) = placeAll first (placeAll first ts bs) cs := by
  induction bs generalizing ts with
  | nil => rfl
  | cons b bs ih => rw [List.cons_append, placeAll, ih, placeAll]

namespace Tree

/-- More blocks of a body leave the blocks before them as they are, but for the last one. -/
theorem extended_ofBlocks (bs cs : List Block) :
    Extended Grown (ofBlocks bs).children (ofBlocks (bs ++ cs)).children := by
  rw [ofBlocks, ofBlocks, children_node, children_node, Block.placeAll_append]
  exact extended_placeAll 1 _ cs

mutual
/-- The tree, its last child, the last child of that, and so on. -/
def lastChain : Tree → List Tree
  | node i d ts => node i d ts :: lastChainAll ts
def lastChainAll : List Tree → List Tree
  | [] => []
  | [t] => lastChain t
  | _ :: t :: ts => lastChainAll (t :: ts)
end

theorem self_mem_lastChain (t : Tree) : t ∈ t.lastChain := by
  cases t
  rw [lastChain]
  exact List.mem_cons_self

theorem lastChainAll_of_getLast? {ts : List Tree} {t : Tree} (h : ts.getLast? = some t) :
    lastChainAll ts = t.lastChain := by
  induction ts with
  | nil => simp at h
  | cons u us ih =>
    cases us with
    | nil =>
      obtain rfl : u = t := by simpa using h
      rw [lastChainAll]
    | cons v vs => rw [lastChainAll, ih (by simpa using h)]

/-- The place of a node, and later: nothing is put before the children, and nothing behind them
unless the node is a list on the chain. -/
structure Place.Fills (chain : List Tree) (p p' : Place) : Prop where
  above : p'.above = p.above
  id : p'.subtree.id = p.subtree.id
  children : p.subtree.children.map Tree.id <+: p'.subtree.children.map Tree.id
  gained : p'.subtree.children.map Tree.id ≠ p.subtree.children.map Tree.id →
    p.subtree.kind.isList ∧ p.subtree ∈ chain

theorem Place.Fills.refl (chain : List Tree) (p : Place) : p.Fills chain p :=
  ⟨rfl, rfl, List.prefix_refl _, fun h => absurd rfl h⟩

theorem Place.Fills.mono {chain chain' : List Tree} {p p' : Place} (h : p.Fills chain p')
    (hchain : chain ⊆ chain') : p.Fills chain' p' :=
  { h with gained := fun hne => (h.gained hne).imp_right fun hmem => hchain hmem }

namespace Extended
variable {R : Tree → Tree → Prop} {ts us : List Tree}

theorem map_id (h : Extended R ts us) (hR : ∀ t t', R t t' → t'.id = t.id) :
    ts.map Tree.id <+: us.map Tree.id := by
  cases h with
  | more ts us =>
    rw [List.map_append]
    exact List.prefix_append _ _
  | @last ts us t t' h =>
    have hids : (ts ++ t' :: us).map Tree.id = (ts ++ [t]).map Tree.id ++ us.map Tree.id := by
      simp [hR t t' h]
    rw [hids]
    exact List.prefix_append _ _

/-- Places in siblings that grew are where they were, but for those in the last tree. -/
theorem exists_place (h : Extended R ts us) (above : List (Nat × Node))
    (Q : Place → Place → Prop) (hrefl : ∀ p, Q p p)
    (hR : ∀ t t', ts.getLast? = some t → R t t' →
      ∀ p ∈ t.placesBelow above, ∃ p' ∈ t'.placesBelow above, Q p p') :
    ∀ p ∈ placesAmong above ts, ∃ p' ∈ placesAmong above us, Q p p' := by
  intro p hp
  obtain ⟨u, hu, hpu⟩ := mem_placesAmong.1 hp
  cases h with
  | more ts us => exact ⟨p, mem_placesAmong.2 ⟨u, List.mem_append_left _ hu, hpu⟩, hrefl p⟩
  | @last ts us t t' ht =>
    obtain hu | hu := List.mem_append.1 hu
    · exact ⟨p, mem_placesAmong.2 ⟨u, List.mem_append_left _ hu, hpu⟩, hrefl p⟩
    · obtain rfl := List.mem_singleton.1 hu
      obtain ⟨p', hp', hQ⟩ := hR u t' (by simp) ht p hpu
      exact ⟨p', mem_placesAmong.2 ⟨t', by simp, hp'⟩, hQ⟩

end Extended

theorem Filled.id_eq {t t' : Tree} (h : Filled t t') : t'.id = t.id := by
  cases h <;> rfl

theorem Grown.id_eq {t t' : Tree} (h : Grown t t') : t'.id = t.id := by
  cases h with
  | filled h => exact h.id_eq
  | joined => rfl

/-- Every node of a list is still there, with the same data. -/
theorem Filled.exists_place {t t' : Tree} (h : Filled t t') (above : List (Nat × Node)) :
    ∀ p ∈ t.placesBelow above, ∃ p' ∈ t'.placesBelow above,
      p.Fills t.lastChain p' ∧ p'.subtree.data = p.subtree.data := by
  -- By induction on the older tree: the relation is nested in that of siblings, so it has no
  -- induction of its own that reaches the last child.
  induction t generalizing t' above with
  | node i d ts ih =>
    cases h with
    | refl => exact fun p hp => ⟨p, hp, .refl _ p, rfl⟩
    | @list _ _ _ us hd h =>
      intro p hp
      rw [placesBelow, List.mem_cons] at hp
      obtain rfl | hp := hp
      · refine ⟨⟨above, node i d us⟩, mem_placesBelow_self _, ⟨rfl, rfl, ?_, fun _ => ?_⟩, rfl⟩
        · exact h.map_id fun _ _ h => h.id_eq
        · exact ⟨hd, self_mem_lastChain _⟩
      · let Q (p p' : Place) : Prop :=
          p.Fills (lastChainAll ts) p' ∧ p'.subtree.data = p.subtree.data
        have hlast (t t' : Tree) (ht : ts.getLast? = some t) (h : Filled t t') :
            ∀ p ∈ t.placesBelow ((i, d) :: above),
              ∃ p' ∈ t'.placesBelow ((i, d) :: above), Q p p' := by
          unfold Q
          rw [lastChainAll_of_getLast? ht]
          exact ih t (List.mem_of_getLast? ht) h _
        obtain ⟨p', hp', hfills, hdata⟩ :=
          h.exists_place _ Q (fun p => ⟨.refl _ p, rfl⟩) hlast p hp
        refine ⟨p', ?_, hfills.mono ?_, hdata⟩
        · rw [placesBelow]
          exact List.mem_cons_of_mem _ hp'
        · rw [lastChain]
          exact List.subset_cons_self _ _

/-- Every node of a block is still there. Its content is what it was, or goes on if it is code. -/
theorem Grown.exists_place {t t' : Tree} (h : Grown t t')
    (hcode : t.kind = .code → t.children = []) (above : List (Nat × Node)) :
    ∀ p ∈ t.placesBelow above, ∃ p' ∈ t'.placesBelow above, p.Fills t.lastChain p' ∧
      (p'.subtree.data = p.subtree.data ∨ p.subtree = t ∧ t.kind = .code ∧ ∃ more,
        p'.subtree.data = { t.data with content := t.data.content ++ more }) := by
  intro p hp
  cases h with
  | filled h =>
    obtain ⟨p', hp', hfills, hdata⟩ := h.exists_place above p hp
    exact ⟨p', hp', hfills, .inl hdata⟩
  | @joined i d ts more hd =>
    obtain rfl : ts = [] := hcode hd
    rw [placesBelow, placesAmong, List.mem_singleton] at hp
    subst hp
    refine ⟨_, mem_placesBelow_self _, ?_, .inr ⟨rfl, hd, more, rfl⟩⟩
    exact ⟨rfl, rfl, List.prefix_refl _, fun h => absurd rfl h⟩

/-- What becomes of a node `s` as the tree `t` grows to `t'`. -/
structure GrowsTo (t t' s s' : Tree) : Prop where
  before : t.get? s.id = some s
  after : t'.get? s.id = some s'
  parent : t'.parent? s.id = t.parent? s.id
  data : s'.data = { s.data with content := s'.data.content }
  children : s.children.map id <+: s'.children.map id
  /-- Children are added at the root, and to lists on the way down along the last children. -/
  gained : s'.children.map id ≠ s.children.map id →
    s = t ∨ s.kind.isList ∧ s ∈ lastChainAll t.children
  /-- Text is added to code that is the last child of the root. -/
  content : s'.data.content = s.data.content ∨ s.kind = .code ∧ t.children.getLast? = some s ∧
    ∃ more, s'.data.content = s.data.content ++ more

/-- Where no number is given twice, a node is found in both trees by its number. -/
theorem find_of_places {t t' : Tree} (ht : t.ids.Nodup) (ht' : t'.ids.Nodup) {p p' : Place}
    (hp : p ∈ t.places) (hp' : p' ∈ t'.places) (habove : p'.above = p.above)
    (hid : p'.subtree.id = p.subtree.id) :
    t.get? p.subtree.id = some p.subtree ∧ t'.get? p.subtree.id = some p'.subtree ∧
      t'.parent? p.subtree.id = t.parent? p.subtree.id := by
  refine ⟨get?_of_mem_places ht hp, hid ▸ get?_of_mem_places ht' hp', ?_⟩
  rw [parent?, parent?, ancestors_of_mem_places ht hp, ← habove, ← hid,
    ancestors_of_mem_places ht' hp']

theorem exists_growsTo {i : Nat} {d : Node} {ts us : List Tree} (h : Extended Grown ts us)
    (hcode : CodeIsLeaf ts) (ht : (node i d ts).ids.Nodup) (ht' : (node i d us).ids.Nodup)
    {n : Nat} (hn : n ∈ (node i d ts).ids) :
    ∃ s s', s.id = n ∧ (node i d ts).GrowsTo (node i d us) s s' := by
  obtain ⟨p, hp, rfl⟩ := exists_mem_places hn
  have hp' := hp
  rw [places, placesBelow, List.mem_cons] at hp'
  obtain rfl | hbelow := hp'
  · have hroot : ⟨[], node i d us⟩ ∈ (node i d us).places := mem_placesBelow_self _
    obtain ⟨hbefore, hafter, hparent⟩ := find_of_places ht ht' hp hroot rfl rfl
    exact ⟨_, _, rfl, hbefore, hafter, hparent, rfl, h.map_id fun _ _ h => h.id_eq,
      fun _ => .inl rfl, .inl rfl⟩
  · let Q (p p' : Place) : Prop := p.Fills (lastChainAll ts) p' ∧
      (p'.subtree.data = p.subtree.data ∨ ts.getLast? = some p.subtree ∧ p.subtree.kind = .code ∧
        ∃ more, p'.subtree.data =
          { p.subtree.data with content := p.subtree.data.content ++ more })
    have hlast (t t' : Tree) (ht : ts.getLast? = some t) (h : Grown t t') :
        ∀ p ∈ t.placesBelow [(i, d)], ∃ p' ∈ t'.placesBelow [(i, d)], Q p p' := by
      intro p hp
      obtain ⟨p', hp', hfills, hdata⟩ :=
        h.exists_place (hcode t (List.mem_of_getLast? ht)) [(i, d)] p hp
      rw [← lastChainAll_of_getLast? ht] at hfills
      refine ⟨p', hp', hfills, hdata.imp_right ?_⟩
      rintro ⟨rfl, hk, hmore⟩
      exact ⟨ht, hk, hmore⟩
    obtain ⟨p', hp', hfills, hdata⟩ :=
      h.exists_place [(i, d)] Q (fun p => ⟨.refl _ p, .inl rfl⟩) hlast p hbelow
    have hmem : p' ∈ (node i d us).places := by
      rw [places, placesBelow]
      exact List.mem_cons_of_mem _ hp'
    obtain ⟨hbefore, hafter, hparent⟩ :=
      find_of_places ht ht' hp hmem hfills.above hfills.id
    refine ⟨_, _, rfl, hbefore, hafter, hparent, ?_, hfills.children,
      fun hne => .inr (hfills.gained hne), ?_⟩
    · obtain hdata | ⟨-, -, more, hdata⟩ := hdata <;> rw [hdata]
    · obtain hdata | ⟨hl, hk, more, hdata⟩ := hdata
      · exact .inl (by rw [hdata])
      · exact .inr ⟨hk, hl, more, by rw [hdata]⟩

end Tree

theorem Tree.FitsBody.codeIsLeaf {ts : List Tree} (h : FitsBody ts) : CodeIsLeaf ts :=
  fun t ht hk => (h t ht).2.self.children_eq_nil fun c => by rw [hk]; rfl

/-- A body that goes on. An error in the beginning of it is the error of the whole. If there is none
in the whole, there is none in the beginning, and every node of its tree is found again in the tree
of the whole, where it may have more children or text at its end. -/
theorem Document.tree_of_longer_body {d d' : Document} (hbody : d.body <+: d'.body)
    (hlists : d'.lists = d.lists) (o : Options) :
    (∀ e, d.tree o = .error e → d'.tree o = .error e) ∧
      ∀ t', d'.tree o = .ok t' → ∃ t, d.tree o = .ok t ∧
        ∀ n ∈ t.ids, ∃ s s', s.id = n ∧ t.GrowsTo t' s s' := by
  obtain ⟨herror, hok⟩ := blocks_of_longer_body hbody hlists o
  constructor
  · intro e he
    rw [tree] at he ⊢
    cases hb : d.blocks o with
    | ok bs => simp [hb, Except.map] at he
    | error e' =>
      rw [hb] at he
      rw [herror e' hb]
      exact he
  · intro t' ht'
    obtain ⟨bs', hbs', rfl⟩ := tree_eq_ok ht'
    obtain ⟨bs, cs, hbs, rfl⟩ := hok bs' hbs'
    have ht : d.tree o = .ok (Tree.ofBlocks bs) := by
      rw [tree, hbs]
      rfl
    refine ⟨_, ht, fun n hn => ?_⟩
    exact Tree.exists_growsTo (Tree.extended_ofBlocks bs cs) (Tree.fitsBody_placeAll hbs).codeIsLeaf
      (nodup_ids_tree ht) (nodup_ids_tree ht') hn

/-- A list that ends in a list inside it. -/
def Document.listed : Document :=
  (({} : Document).addList "n" .numbered)
    |>.addParagraph (.bulleted "n" 0 "a")
    |>.addParagraph (.bulleted "n" 1 "b")

/-- Both lists go on, the inner one first. -/
def Document.listedOn : Document :=
  listed
    |>.addParagraph (.bulleted "n" 1 "c")
    |>.addParagraph (.bulleted "n" 0 "d")

theorem Document.tree_of_longer_body_listed :
    ∃ t t', listed.tree {} = .ok t ∧ listedOn.tree {} = .ok t' ∧
      (∀ n ∈ t.ids, ∃ s s', s.id = n ∧ t.GrowsTo t' s s') ∧
      t.descendants 0 = [0, 1, 2, 3, 4, 5, 6] ∧
      (t.get? 1).map (fun s => s.children.map Tree.id) = some [2, 4] ∧
      (t'.get? 1).map (fun s => s.children.map Tree.id) = some [2, 4, 9] ∧
      (t.get? 4).map (fun s => s.children.map Tree.id) = some [5] ∧
      (t'.get? 4).map (fun s => s.children.map Tree.id) = some [5, 7] := by
  obtain ⟨t', ht'⟩ : ∃ t', listedOn.tree {} = .ok t' := ⟨_, rfl⟩
  have hbody : listed.body <+: listedOn.body :=
    (List.prefix_append _ _).trans (List.prefix_append _ _)
  obtain ⟨t, ht, hgrows⟩ := (tree_of_longer_body hbody rfl {}).2 t' ht'
  have hlists : (listed.tree {}).map (fun t => (t.descendants 0,
      [1, 4].map fun n => (t.get? n).map fun s => s.children.map Tree.id)) =
        .ok ([0, 1, 2, 3, 4, 5, 6], [some [2, 4], some [5]]) := by decide +kernel
  have hlists' : (listedOn.tree {}).map (fun t =>
      [1, 4].map fun n => (t.get? n).map fun s => s.children.map Tree.id) =
        .ok [some [2, 4, 9], some [5, 7]] := by decide +kernel
  rw [ht] at hlists
  rw [ht'] at hlists'
  simp only [Except.map, Except.ok.injEq, Prod.mk.injEq, List.map_cons, List.map_nil,
    List.cons.injEq, and_true] at hlists hlists'
  exact ⟨t, t', ht, ht', hgrows, hlists.1, hlists.2.1, hlists'.1, hlists.2.2, hlists'.2⟩

end RichText
