import CargoReport.Json.Basic
import Mathlib.Data.List.Forall2
import Mathlib.Data.List.Nodup
import Mathlib.Data.List.Perm.Basic

namespace CargoReport.Json

/-- Values that are the same if objects are maps. Numbers are told apart by their kind: an integer
is taken at any size, a double that is the same number only short of 64 bits. -/
inductive Same : Json → Json → Prop
  | null : Same .null .null
  | bool (b : Bool) : Same (.bool b) (.bool b)
  | int (z : Int) : Same (.int z) (.int z)
  | float (x : Double) : Same (.float x) (.float x)
  | str (t : Text) : Same (.str t) (.str t)
  | arr {vs ws : List Json} : List.Forall₂ Same vs ws → Same (.arr vs) (.arr ws)
  | obj {o p : List (Text × Json)} :
      (∀ name, Option.Rel Same (get? o name) (get? p name)) → Same (.obj o) (.obj p)

theorem Same.eq_null_iff {v w : Json} (h : Same v w) : v = .null ↔ w = .null := by
  cases h <;> simp

theorem rel_of_rel_map {f : Json → Json} {a b : Option Json}
    (h : Option.Rel Same (a.map f) (b.map f)) :
    Option.Rel (fun v w => Same (f v) (f w)) a b := by
  cases a with
  | none =>
    cases b with
    | none => exact .none
    | some w => cases h
  | some v =>
    cases b with
    | none => cases h
    | some w =>
      cases h with
      | some hvw => exact .some hvw

theorem get?_of_notMem {members : List (Text × Json)} {name : Text}
    (h : name ∉ members.map Prod.fst) : get? members name = none := by
  induction members with
  | nil => rfl
  | cons m rest ih =>
    obtain ⟨key, w⟩ := m
    rw [List.map_cons, List.mem_cons, not_or] at h
    rw [get?, ih h.2]
    exact if_neg (Ne.symm h.1)

theorem get?_of_mem {members : List (Text × Json)} (hn : (members.map Prod.fst).Nodup)
    {name : Text} {v : Json} (h : (name, v) ∈ members) : get? members name = some v := by
  induction members with
  | nil => cases h
  | cons m rest ih =>
    obtain ⟨key, w⟩ := m
    rw [List.map_cons, List.nodup_cons] at hn
    rw [get?]
    rcases List.mem_cons.mp h with heq | h
    · cases heq
      rw [get?_of_notMem hn.1]
      exact if_pos rfl
    · rw [ih hn.2 h]

theorem get?_of_perm {o p : List (Text × Json)} (hn : (o.map Prod.fst).Nodup) (h : o.Perm p)
    (name : Text) : get? o name = get? p name := by
  by_cases hname : name ∈ o.map Prod.fst
  · obtain ⟨⟨_, v⟩, hmem, rfl⟩ := List.mem_map.mp hname
    have hn' : (p.map Prod.fst).Nodup := (h.map Prod.fst).nodup_iff.mp hn
    rw [get?_of_mem hn hmem, get?_of_mem hn' (h.mem_iff.mp hmem)]
  · have hname' : name ∉ p.map Prod.fst := mt (h.map Prod.fst).mem_iff.mpr hname
    rw [get?_of_notMem hname, get?_of_notMem hname']

theorem rel_get?_of_forall₂ {o p : List (Text × Json)}
    (h : List.Forall₂ (fun m n => m.1 = n.1 ∧ Same m.2 n.2) o p) (name : Text) :
    Option.Rel Same (get? o name) (get? p name) := by
  induction h with
  | nil => exact .none
  | @cons m n o p hmn _ ih =>
    obtain ⟨key, v⟩ := m
    obtain ⟨_, w⟩ := n
    obtain ⟨rfl, hvw⟩ := hmn
    rw [get?, get?]
    generalize get? o name = a at ih
    generalize get? p name = b at ih
    cases ih with
    | some hlater => exact .some hlater
    | none =>
      by_cases hkey : key = name
      · simpa only [if_pos hkey] using .some hvw
      · simpa only [if_neg hkey] using .none

/-- Members that are the same may stand in any order, as long as no two have one name. -/
theorem same_of_perm {o p q : List (Text × Json)}
    (h : List.Forall₂ (fun m n => m.1 = n.1 ∧ Same m.2 n.2) o p) (hperm : p.Perm q)
    (hn : (p.map Prod.fst).Nodup) : Same (.obj o) (.obj q) := by
  refine .obj fun name => ?_
  rw [← get?_of_perm hn hperm]
  exact rel_get?_of_forall₂ h name

/-- An object with its members changed. -/
def inObject (f : List (Text × Json) → List (Text × Json)) : Json → Json
  | .obj members => .obj (f members)
  | v => v

/-- An array with each element changed. -/
def inArray (f : Json → Json) : Json → Json
  | .arr vs => .arr (vs.map f)
  | v => v

/-- The members with some names. -/
def pick (names : List Text) (members : List (Text × Json)) : List (Text × Json) :=
  members.filter fun m => names.contains m.1

/-- An object without the members of other names. -/
def only (names : List Text) : Json → Json := inObject (pick names)

theorem get?_pick {names : List Text} {name : Text} (h : name ∈ names)
    (members : List (Text × Json)) : get? (pick names members) name = get? members name := by
  induction members with
  | nil => rfl
  | cons m rest ih =>
    obtain ⟨key, v⟩ := m
    rw [pick] at ih ⊢
    by_cases hkey : key ∈ names
    · rw [List.filter_cons_of_pos (by simpa using hkey), get?, get?, ih]
    · have hne : key ≠ name := fun heq => hkey (heq ▸ h)
      rw [List.filter_cons_of_neg (by simpa using hkey), ih, get?, if_neg hne]
      cases get? rest name <;> rfl

theorem get?_pick_of_notMem {names : List Text} {name : Text} (h : name ∉ names)
    (members : List (Text × Json)) : get? (pick names members) name = none := by
  refine get?_of_notMem fun hmem => h ?_
  obtain ⟨m, hm, rfl⟩ := List.mem_map.mp hmem
  simpa using (List.mem_filter.mp hm).2

theorem Same.get?_of_pick {o p : List (Text × Json)} {names : List Text}
    (h : Same (.obj (pick names o)) (.obj (pick names p))) {name : Text} (hname : name ∈ names) :
    Option.Rel Same (get? o name) (get? p name) := by
  cases h with
  | obj hget =>
    have hname' := hget name
    rwa [get?_pick hname, get?_pick hname] at hname'

/-- Arrays are the same if their elements are, and other values are the same as no array. -/
theorem Same.inArray_cases {f : Json → Json} {v w : Json} (h : Same (inArray f v) (inArray f w)) :
    (∃ vs ws, v = .arr vs ∧ w = .arr ws ∧ List.Forall₂ (fun a b => Same (f a) (f b)) vs ws) ∨
      (∀ vs, v ≠ .arr vs) ∧ ∀ ws, w ≠ .arr ws := by
  cases v with
  | arr vs =>
    cases w with
    | arr ws =>
      cases h with
      | arr hall =>
        rw [List.forall₂_map_left_iff, List.forall₂_map_right_iff] at hall
        exact .inl ⟨vs, ws, rfl, rfl, hall⟩
    | _ => cases h
  | _ =>
    cases w with
    | arr ws => cases h
    | _ => exact .inr ⟨by simp, by simp⟩

end CargoReport.Json
