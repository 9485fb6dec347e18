import CargoReport.Table

namespace CargoReport.Table

variable {κ α : Type}

theorem ext_entries {t u : Table κ α} (h : t.entries = u.entries) : t = u := by
  obtain ⟨entries, _⟩ := t
  obtain ⟨entries', _⟩ := u
  cases h
  rfl

theorem map_fst_filter (p : κ → Bool) (entries : List (κ × α)) :
    (entries.filter fun entry => p entry.1).map Prod.fst = (entries.map Prod.fst).filter p := by
  rw [List.filter_map]
  rfl

variable [DecidableEq κ]

/-- The table after all entries were written to it. -/
def override (t : Table κ α) (entries : List (κ × α)) : Table κ α :=
  entries.foldl (fun t entry => t.insert entry.1 entry.2) t

@[simp] theorem override_nil (t : Table κ α) : t.override [] = t := rfl

@[simp] theorem override_cons (t : Table κ α) (entry : κ × α) (entries : List (κ × α)) :
    t.override (entry :: entries) = (t.insert entry.1 entry.2).override entries := rfl

theorem write_of_notMem {k : κ} {entries : List (κ × α)} (h : k ∉ entries.map Prod.fst) (a : α) :
    write k a entries = entries ++ [(k, a)] := by
  induction entries with
  | nil => rfl
  | cons entry rest ih =>
    obtain ⟨key, value⟩ := entry
    simp only [List.map_cons, List.mem_cons, not_or] at h
    have hne : key ≠ k := Ne.symm h.1
    simp [write, hne, ih h.2]

/-- New keys go to the end in their own order. -/
theorem entries_override {t : Table κ α} {entries : List (κ × α)}
    (h : ((t.entries ++ entries).map Prod.fst).Nodup) :
    (t.override entries).entries = t.entries ++ entries := by
  induction entries generalizing t with
  | nil => simp
  | cons entry entries ih =>
    obtain ⟨k, a⟩ := entry
    have hk : k ∉ t.entries.map Prod.fst := by
      intro hm
      rw [List.map_append, List.nodup_append] at h
      exact h.2.2 k hm k (by simp) rfl
    have hinsert : (t.insert k a).entries = t.entries ++ [(k, a)] := write_of_notMem hk a
    rw [override_cons, ih, hinsert]
    · simp
    · rw [hinsert]
      simpa using h

theorem override_empty (t : Table κ α) : empty.override t.entries = t := by
  apply ext_entries
  rw [entries_override (by simpa using t.nodup)]
  simp

theorem lookup_filter_fst (p : κ → Bool) (k : κ) (entries : List (κ × α)) :
    (entries.filter fun entry => p entry.1).lookup k =
      if p k then entries.lookup k else none := by
  induction entries with
  | nil => simp
  | cons entry rest ih =>
    obtain ⟨key, value⟩ := entry
    by_cases hk : k = key
    · subst hk
      cases hp : p k with
      | true => simp [hp]
      | false =>
        rw [List.filter_cons_of_neg (by simp [hp]), ih, hp]
        rfl
    · have hbeq : (k == key) = false := beq_eq_false_iff_ne.mpr hk
      cases hkey : p key <;> simp [hkey, List.lookup_cons, hbeq, ih]

theorem lookup_map_pair (f : κ → α) (keys : List κ) (k : κ) :
    (keys.map fun key => (key, f key)).lookup k = if k ∈ keys then some (f k) else none := by
  induction keys with
  | nil => simp
  | cons key rest ih =>
    by_cases h : k = key
    · simp [h]
    · simp [List.lookup_cons, beq_eq_false_iff_ne.mpr h, ih, h]

theorem write_map_pair (f : κ → α) (keys : List κ)
    (hn : keys.Nodup) (k : κ) (a : α) :
    write k a (keys.map fun key => (key, f key)) =
      (if k ∈ keys then keys else keys ++ [k]).map fun key =>
        (key, if key = k then a else f key) := by
  induction keys with
  | nil => simp [Table.write]
  | cons key rest ih =>
    obtain ⟨hkey, hrest⟩ := List.nodup_cons.mp hn
    by_cases h : key = k
    · subst h
      have hf : ∀ l ∈ rest, (l, f l) = (l, if l = key then a else f l) := by
        intro l hl
        have hne : l ≠ key := fun he => hkey (he ▸ hl)
        rw [if_neg hne]
      simp [write, List.map_congr_left hf]
    · have h' : k ≠ key := Ne.symm h
      by_cases hm : k ∈ rest <;> simp [write, h, h', hm, ih hrest]

theorem lookup_eq_none_iff (entries : List (κ × α)) (k : κ) :
    entries.lookup k = none ↔ k ∉ entries.map Prod.fst := by
  rw [List.lookup_eq_none_iff, List.mem_map]
  constructor
  · rintro h ⟨entry, he, rfl⟩
    simpa using h entry he
  · intro h entry he
    simpa using fun hk => h ⟨entry, he, hk.symm⟩

theorem get?_eq_none_iff (t : Table κ α) (k : κ) : t.get? k = none ↔ k ∉ t.keys :=
  lookup_eq_none_iff t.entries k

theorem lookup_map_value (f : κ → α → α) (entries : List (κ × α)) (k : κ) :
    (entries.map fun entry => (entry.1, f entry.1 entry.2)).lookup k =
      (entries.lookup k).map (f k) := by
  induction entries with
  | nil => rfl
  | cons entry rest ih =>
    obtain ⟨key, value⟩ := entry
    by_cases h : k = key
    · simp [h]
    · simp [List.lookup_cons, beq_eq_false_iff_ne.mpr h, ih]

theorem entries_eq_of_lookup {entries entries' : List (κ × α)}
    (hn : (entries.map Prod.fst).Nodup) (hkeys : entries.map Prod.fst = entries'.map Prod.fst)
    (hlookup : ∀ k, entries.lookup k = entries'.lookup k) : entries = entries' := by
  induction entries generalizing entries' with
  | nil => exact (List.map_eq_nil_iff.mp hkeys.symm).symm
  | cons entry rest ih =>
    obtain ⟨k, a⟩ := entry
    rcases entries' with _ | ⟨⟨k', a'⟩, rest'⟩
    · cases hkeys
    · obtain ⟨hk, hrest⟩ := List.cons.inj hkeys
      cases hk
      obtain ⟨hnew, hn⟩ := List.nodup_cons.mp hn
      have hnew' : k ∉ rest'.map Prod.fst := hrest ▸ hnew
      have ha : some a = some a' := by simpa using hlookup k
      cases ha
      rw [ih hn hrest]
      intro l
      by_cases hl : l = k
      · rw [hl, (lookup_eq_none_iff _ _).mpr hnew, (lookup_eq_none_iff _ _).mpr hnew']
      · simpa [List.lookup_cons, beq_eq_false_iff_ne.mpr hl] using hlookup l

theorem ext_get? {t u : Table κ α} (hkeys : t.keys = u.keys) (hget : ∀ k, t.get? k = u.get? k) :
    t = u :=
  ext_entries (entries_eq_of_lookup t.nodup hkeys hget)

theorem keys_override {t : Table κ α} {entries : List (κ × α)}
    (hn : (entries.map Prod.fst).Nodup) :
    (t.override entries).keys = t.keys ++ (entries.map Prod.fst).filter (· ∉ t.keys) := by
  induction entries generalizing t with
  | nil => simp
  | cons entry rest ih =>
    obtain ⟨k, a⟩ := entry
    obtain ⟨hk, hn⟩ := List.nodup_cons.mp hn
    rw [override_cons, ih hn, keys_insert, List.map_cons]
    by_cases hmem : k ∈ t.keys
    · rw [if_pos hmem, List.filter_cons_of_neg (by simpa using hmem)]
    · -- The key is at the end now, and does not come again in the rest.
      have hrest : (rest.map Prod.fst).filter (· ∉ t.keys ++ [k]) =
          (rest.map Prod.fst).filter (· ∉ t.keys) := by
        apply List.filter_congr
        intro l hl
        have hne : l ≠ k := fun he => hk (he ▸ hl)
        simp [hne]
      rw [if_neg hmem, hrest, List.filter_cons_of_pos (by simpa using hmem)]
      simp

theorem get?_override {t : Table κ α} {entries : List (κ × α)}
    (hn : (entries.map Prod.fst).Nodup) (k : κ) :
    (t.override entries).get? k = (entries.lookup k).or (t.get? k) := by
  induction entries generalizing t with
  | nil => rfl
  | cons entry rest ih =>
    obtain ⟨l, a⟩ := entry
    obtain ⟨hl, hn⟩ := List.nodup_cons.mp hn
    rw [override_cons, ih hn, get?_insert]
    by_cases hk : k = l
    · subst hk
      simp [(lookup_eq_none_iff rest k).mpr hl]
    · simp [hk, List.lookup_cons, beq_eq_false_iff_ne.mpr hk]

/-- Both tables: a key keeps its first place and its last value. -/
def merge (t u : Table κ α) : Table κ α where
  entries := (t.entries.map fun entry => (entry.1, (u.get? entry.1).getD entry.2)) ++
    u.entries.filter fun entry => entry.1 ∉ t.keys
  nodup := by
    rw [List.map_append, List.map_map, map_fst_filter (fun k => k ∉ t.keys)]
    refine List.nodup_append.mpr ⟨t.nodup, u.nodup.filter _, ?_⟩
    rintro k hk l hl rfl
    exact of_decide_eq_true (List.mem_filter.mp hl).2 hk

theorem keys_merge (t u : Table κ α) :
    (t.merge u).keys = t.keys ++ u.keys.filter (· ∉ t.keys) := by
  rw [keys, merge, List.map_append, List.map_map, map_fst_filter (fun k => k ∉ t.keys)]
  rfl

theorem get?_merge (t u : Table κ α) (k : κ) :
    (t.merge u).get? k = (u.get? k).or (t.get? k) := by
  have hfirst := lookup_map_value (fun k a => (u.get? k).getD a) t.entries k
  have hsecond := lookup_filter_fst (fun k => k ∉ t.keys) k u.entries
  rw [get?, merge, List.lookup_append, hfirst, hsecond]
  by_cases hk : k ∈ t.keys
  · obtain ⟨a, ha⟩ := Option.ne_none_iff_exists'.mp fun h => (get?_eq_none_iff t k).mp h hk
    have ha' : t.entries.lookup k = some a := ha
    cases u.get? k <;> simp [ha, ha']
  · have hnone : t.entries.lookup k = none := (lookup_eq_none_iff t.entries k).mpr hk
    simp [hk, hnone, get?]

theorem entries_merge_eq_nil_iff (t u : Table κ α) :
    (t.merge u).entries = [] ↔ t.entries = [] ∧ u.entries = [] := by
  have hkeys : ∀ t : Table κ α, t.entries = [] ↔ t.keys = [] := fun t => List.map_eq_nil_iff.symm
  rw [hkeys, hkeys, hkeys, keys_merge, List.append_eq_nil_iff]
  apply and_congr_right
  intro ht
  have hall : u.keys.filter (· ∉ t.keys) = u.keys := by simp [ht]
  rw [hall]

theorem override_eq_merge (t u : Table κ α) : t.override u.entries = t.merge u := by
  apply ext_get?
  · rw [keys_override u.nodup, keys_merge]
    rfl
  · intro k
    rw [get?_override u.nodup, get?_merge]
    rfl

theorem merge_merge_self (t u : Table κ α) : (t.merge u).merge u = t.merge u := by
  apply ext_get?
  · have hnone : u.keys.filter (· ∉ (t.merge u).keys) = [] := by
      rw [List.filter_eq_nil_iff]
      intro k hk
      by_cases hkt : k ∈ t.keys <;> simp [keys_merge, hk, hkt]
    rw [keys_merge (t.merge u) u, hnone, List.append_nil]
  · intro k
    rw [get?_merge, get?_merge, ← Option.or_assoc, Option.or_self]

theorem merge_assoc (t u v : Table κ α) : (t.merge u).merge v = t.merge (u.merge v) := by
  apply ext_get?
  · have hnew : v.keys.filter (· ∉ t.keys ++ u.keys.filter (· ∉ t.keys)) =
        (v.keys.filter (· ∉ u.keys)).filter (· ∉ t.keys) := by
      rw [List.filter_filter]
      apply List.filter_congr
      intro k _
      by_cases hk : k ∈ t.keys <;> simp [hk]
    simp only [keys_merge, hnew, List.filter_append, List.append_assoc]
  · intro k
    simp only [get?_merge, Option.or_assoc]

end CargoReport.Table
