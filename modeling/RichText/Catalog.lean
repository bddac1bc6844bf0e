/-!
Entries by name, in the order in which their names first came. A second entry of a name takes the
place of the first.
-/
namespace RichText

/-- Replaces the entry of the name, or adds one at the end. -/
def putEntry {α : Type} (name : String) (a : α) : List (String × α) → List (String × α)
  | [] => [(name, a)]
  | (n, b) :: rest => if n = name then (name, a) :: rest else (n, b) :: putEntry name a rest

section putEntry
variable {α : Type}

theorem mem_keys_putEntry {name n : String} {a : α} {entries : List (String × α)} :
    n ∈ (putEntry name a entries).map Prod.fst ↔ n = name ∨ n ∈ entries.map Prod.fst := by
  induction entries with
  | nil => simp [putEntry]
  | cons e rest ih =>
    obtain ⟨m, b⟩ := e
    by_cases h : m = name
    · subst h
      simp [putEntry]
    · simp only [putEntry, if_neg h, List.map_cons, List.mem_cons, ih]
      exact or_left_comm

theorem nodup_keys_putEntry {name : String} {a : α} {entries : List (String × α)}
    (h : (entries.map Prod.fst).Nodup) : ((putEntry name a entries).map Prod.fst).Nodup := by
  induction entries with
  | nil => simp [putEntry]
  | cons e rest ih =>
    obtain ⟨m, b⟩ := e
    simp only [List.map_cons, List.nodup_cons] at h
    by_cases hm : m = name
    · subst hm
      simpa [putEntry] using h
    · simp only [putEntry, if_neg hm, List.map_cons, List.nodup_cons, mem_keys_putEntry]
      exact ⟨fun hmem => hmem.elim hm h.1, ih h.2⟩

theorem lookup_putEntry (name n : String) (a : α) (entries : List (String × α)) :
    (putEntry name a entries).lookup n = if n = name then some a else entries.lookup n := by
  induction entries with
  | nil =>
    by_cases h : n = name
    · simp [putEntry, h]
    · simp [putEntry, h, List.lookup_cons, beq_eq_false_iff_ne.2 h]
  | cons e rest ih =>
    obtain ⟨m, b⟩ := e
    by_cases hm : m = name
    · subst hm
      by_cases hn : n = m
      · simp [putEntry, hn]
      · simp [putEntry, hn, List.lookup_cons, beq_eq_false_iff_ne.2 hn]
    · by_cases hn : n = m
      · subst hn
        simp [putEntry, hm]
      · simp [putEntry, hm, List.lookup_cons, beq_eq_false_iff_ne.2 hn, ih]

theorem putEntry_of_not_mem {name : String} {a : α} {entries : List (String × α)}
    (h : name ∉ entries.map Prod.fst) : putEntry name a entries = entries ++ [(name, a)] := by
  induction entries with
  | nil => rfl
  | cons e rest ih =>
    obtain ⟨m, b⟩ := e
    simp only [List.map_cons, List.mem_cons, not_or] at h
    simp [putEntry, Ne.symm h.1, ih h.2]

end putEntry

/-- Entries by name. -/
structure Catalog (α : Type) where
  entries : List (String × α)
  nodup : (entries.map Prod.fst).Nodup

namespace Catalog
variable {α : Type}

@[ext] theorem ext {c d : Catalog α} (h : c.entries = d.entries) : c = d := by
  cases c
  cases d
  cases h
  rfl

def empty : Catalog α := ⟨[], by simp⟩

instance : Inhabited (Catalog α) := ⟨empty⟩

def insert (c : Catalog α) (name : String) (a : α) : Catalog α :=
  ⟨putEntry name a c.entries, nodup_keys_putEntry c.nodup⟩

def get? (c : Catalog α) (name : String) : Option α := c.entries.lookup name

def size (c : Catalog α) : Nat := c.entries.length

@[simp] theorem get?_insert (c : Catalog α) (name n : String) (a : α) :
    (c.insert name a).get? n = if n = name then some a else c.get? n :=
  lookup_putEntry name n a c.entries

theorem entries_insert_of_not_mem {c : Catalog α} {name : String} (a : α)
    (h : name ∉ c.entries.map Prod.fst) : (c.insert name a).entries = c.entries ++ [(name, a)] :=
  putEntry_of_not_mem h

/-- The entries of a list, later ones winning. -/
def ofList (entries : List (String × α)) : Catalog α :=
  entries.foldl (fun c e => c.insert e.1 e.2) empty

end Catalog

end RichText
