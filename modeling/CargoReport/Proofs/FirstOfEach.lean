import Mathlib.Data.List.Nodup

namespace CargoReport

variable {α κ : Type} [DecidableEq κ]

def firstOfEach (key : α → κ) : List α → List α
  | [] => []
  | a :: rest => a :: (firstOfEach key rest).filter fun b => key b ≠ key a

theorem mem_map_filter_ne (key : α → κ) (l : List α) (k k' : κ) :
    k ∈ (l.filter fun b => key b ≠ k').map key ↔ k ≠ k' ∧ k ∈ l.map key := by
  simp only [List.mem_map, List.mem_filter, decide_eq_true_eq]
  constructor
  · rintro ⟨b, ⟨hb, hne⟩, rfl⟩
    exact ⟨hne, b, hb, rfl⟩
  · rintro ⟨hne, b, hb, rfl⟩
    exact ⟨b, ⟨hb, hne⟩, rfl⟩

theorem mem_map_firstOfEach (key : α → κ) (l : List α) (k : κ) :
    k ∈ (firstOfEach key l).map key ↔ k ∈ l.map key := by
  induction l with
  | nil => simp [firstOfEach]
  | cons a rest ih =>
    rw [firstOfEach, List.map_cons, List.mem_cons, mem_map_filter_ne, ih, List.map_cons,
      List.mem_cons]
    by_cases hk : k = key a <;> simp [hk]

theorem nodup_map_firstOfEach (key : α → κ) (l : List α) :
    ((firstOfEach key l).map key).Nodup := by
  induction l with
  | nil => simp [firstOfEach]
  | cons a rest ih =>
    rw [firstOfEach, List.map_cons, List.nodup_cons]
    constructor
    · intro h
      exact ((mem_map_filter_ne key _ _ _).mp h).1 rfl
    · exact ih.sublist (List.filter_sublist.map key)

/-- What comes later stays out where its key was there before. -/
theorem firstOfEach_append (key : α → κ) (l m : List α) :
    firstOfEach key (l ++ m) =
      firstOfEach key l ++ (firstOfEach key m).filter fun b => key b ∉ l.map key := by
  induction l with
  | nil => simp [firstOfEach]
  | cons a rest ih =>
    rw [List.cons_append, firstOfEach, ih, List.filter_append, List.filter_filter, firstOfEach,
      List.cons_append]
    congr 2
    apply List.filter_congr
    intro b _
    simp

theorem firstOfEach_append_singleton (key : α → κ) (l : List α) (a : α) :
    firstOfEach key (l ++ [a]) =
      if key a ∈ l.map key then firstOfEach key l else firstOfEach key l ++ [a] := by
  rw [firstOfEach_append, firstOfEach, firstOfEach, List.filter_nil, List.filter_singleton]
  by_cases h : key a ∈ l.map key <;> simp [h]

theorem firstOfEach_isPrefix (key : α → κ) (l m : List α) :
    firstOfEach key l <+: firstOfEach key (l ++ m) := by
  rw [firstOfEach_append]
  exact List.prefix_append _ _

theorem mem_of_mem_firstOfEach {key : α → κ} {l : List α} {a : α} (h : a ∈ firstOfEach key l) :
    a ∈ l := by
  induction l with
  | nil => exact h
  | cons b rest ih =>
    rw [firstOfEach, List.mem_cons, List.mem_filter] at h
    rcases h with rfl | h
    · exact List.mem_cons_self
    · exact List.mem_cons_of_mem b (ih h.1)

theorem nodup_firstOfEach (key : α → κ) (l : List α) : (firstOfEach key l).Nodup :=
  (nodup_map_firstOfEach key l).of_map key

theorem mem_firstOfEach_iff {key : α → κ} {l : List α}
    (hinj : ∀ a ∈ l, ∀ b ∈ l, key a = key b → a = b) (a : α) : a ∈ firstOfEach key l ↔ a ∈ l := by
  constructor
  · exact mem_of_mem_firstOfEach
  · intro ha
    have hkey : key a ∈ (firstOfEach key l).map key :=
      (mem_map_firstOfEach key l (key a)).mpr (List.mem_map_of_mem ha)
    obtain ⟨b, hb, hba⟩ := List.mem_map.mp hkey
    have hsame : b = a := hinj b (mem_of_mem_firstOfEach hb) a ha hba
    rwa [hsame] at hb

/-- Then it does not matter which of an element comes first. -/
theorem perm_firstOfEach {key : α → κ} {l m : List α} (h : l.Perm m)
    (hinj : ∀ a ∈ l, ∀ b ∈ l, key a = key b → a = b) :
    (firstOfEach key l).Perm (firstOfEach key m) := by
  have hinj' : ∀ a ∈ m, ∀ b ∈ m, key a = key b → a = b := by
    intro a ha b hb
    exact hinj a (h.mem_iff.mpr ha) b (h.mem_iff.mpr hb)
  rw [List.perm_ext_iff_of_nodup (nodup_firstOfEach key l) (nodup_firstOfEach key m)]
  intro a
  rw [mem_firstOfEach_iff hinj, mem_firstOfEach_iff hinj', h.mem_iff]

@[simp] theorem mem_firstOfEach_id (l : List κ) (k : κ) : k ∈ firstOfEach id l ↔ k ∈ l := by
  simpa using mem_map_firstOfEach id l k

theorem nodup_firstOfEach_id (l : List κ) : (firstOfEach id l).Nodup := by
  simpa using nodup_map_firstOfEach id l

theorem firstOfEach_id_append_singleton (l : List κ) (k : κ) :
    firstOfEach id (l ++ [k]) =
      if k ∈ firstOfEach id l then firstOfEach id l else firstOfEach id l ++ [k] := by
  simpa using firstOfEach_append_singleton id l k

theorem firstOfEach_id_filter (p : κ → Bool) (l : List κ) :
    firstOfEach id (l.filter p) = (firstOfEach id l).filter p := by
  induction l with
  | nil => rfl
  | cons k rest ih =>
    rw [firstOfEach]
    cases hk : p k with
    | true =>
      rw [List.filter_cons_of_pos hk, firstOfEach, ih, List.filter_cons_of_pos hk,
        List.filter_comm]
    | false =>
      -- What `filter` leaves out of the rest as equal to `k` does not satisfy `p` anyway.
      have hsame : (firstOfEach id rest).filter p =
          ((firstOfEach id rest).filter fun l => id l ≠ id k).filter p := by
        rw [List.filter_filter]
        apply List.filter_congr
        intro l _
        by_cases hl : l = k
        · simp [hl, hk]
        · simp [hl]
      rw [List.filter_cons_of_neg (by simp [hk]), List.filter_cons_of_neg (by simp [hk]), ih, hsame]

end CargoReport
