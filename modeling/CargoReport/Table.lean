import CargoReport.Text.Basic

namespace CargoReport

/-- Values under keys, each key once. -/
structure Table (κ α : Type) where
  entries : List (κ × α)
  nodup : (entries.map Prod.fst).Nodup := by simp

namespace Table

variable {κ α : Type}

def empty : Table κ α where
  entries := []

def keys (t : Table κ α) : List κ := t.entries.map Prod.fst

def size (t : Table κ α) : Nat := t.entries.length

@[simp] theorem entries_empty : (empty : Table κ α).entries = [] := rfl

variable [DecidableEq κ]

def get? (t : Table κ α) (k : κ) : Option α := t.entries.lookup k

def contains (t : Table κ α) (k : κ) : Bool := t.keys.contains k

/-- The entries with a new value under a key, which comes last if it is new. -/
def write (k : κ) (a : α) : List (κ × α) → List (κ × α)
  | [] => [(k, a)]
  | (key, value) :: rest =>
    if key = k then (k, a) :: rest else (key, value) :: write k a rest

theorem map_fst_write (k : κ) (a : α) (entries : List (κ × α)) :
    (write k a entries).map Prod.fst =
      if k ∈ entries.map Prod.fst then entries.map Prod.fst else entries.map Prod.fst ++ [k] := by
  induction entries with
  | nil => simp [write]
  | cons entry rest ih =>
    obtain ⟨key, value⟩ := entry
    by_cases h : key = k
    · simp [write, h]
    · simp only [write, h, if_false, List.map_cons, ih, List.mem_cons]
      have h' : ¬k = key := fun hk => h hk.symm
      by_cases hm : k ∈ rest.map Prod.fst <;> simp [h', hm]

theorem nodup_map_fst_write (k : κ) (a : α) {entries : List (κ × α)}
    (h : (entries.map Prod.fst).Nodup) : ((write k a entries).map Prod.fst).Nodup := by
  rw [map_fst_write]
  split
  · exact h
  · rename_i hk
    rw [List.nodup_append]
    refine ⟨h, by simp, ?_⟩
    intro x hx y hy
    rw [List.mem_singleton] at hy
    subst hy
    exact fun hxy => hk (hxy ▸ hx)

def insert (t : Table κ α) (k : κ) (a : α) : Table κ α where
  entries := write k a t.entries
  nodup := nodup_map_fst_write k a t.nodup

def erase (t : Table κ α) (k : κ) : Table κ α where
  entries := t.entries.filter fun entry => entry.1 ≠ k
  nodup := t.nodup.sublist ((List.filter_sublist).map Prod.fst)

/-- The last value of each key, at the key's first place. -/
def ofList (entries : List (κ × α)) : Table κ α :=
  entries.foldl (fun t entry => t.insert entry.1 entry.2) empty

theorem keys_insert (t : Table κ α) (k : κ) (a : α) :
    (t.insert k a).keys = if k ∈ t.keys then t.keys else t.keys ++ [k] :=
  map_fst_write k a t.entries

theorem lookup_write (k l : κ) (a : α) (entries : List (κ × α)) :
    (write k a entries).lookup l = if l = k then some a else entries.lookup l := by
  induction entries with
  | nil => by_cases h : l = k <;> simp [write, List.lookup_cons, h, beq_eq_false_iff_ne.mpr]
  | cons entry rest ih =>
    obtain ⟨key, value⟩ := entry
    by_cases hk : key = k
    · subst hk
      by_cases h : l = key <;> simp [write, List.lookup_cons, h, beq_eq_false_iff_ne.mpr]
    · by_cases h : l = key
      · subst h
        simp [write, hk]
      · simp [write, hk, List.lookup_cons, beq_eq_false_iff_ne.mpr h, ih]

theorem get?_insert (t : Table κ α) (k l : κ) (a : α) :
    (t.insert k a).get? l = if l = k then some a else t.get? l :=
  lookup_write k l a t.entries

end Table
end CargoReport
