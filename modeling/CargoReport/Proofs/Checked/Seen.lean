import CargoReport.Checked
import CargoReport.Proofs.Json.Same

namespace CargoReport.Checked

open Json (Same inObject inArray get?)

variable {α : Type}

/-- A check that finds the same in values of which `left` leaves the same. -/
def Sees (left : Json → Json) (check : Json → Checked α) : Prop :=
  ∀ ⦃v w⦄, Same (left v) (left w) → check v = check w

/-- A check that finds the same in all arrays, and in all objects. -/
theorem sees_of_scalar {check : Json → Checked α}
    (harr : ∀ vs ws, check (.arr vs) = check (.arr ws))
    (hobj : ∀ o p, check (.obj o) = check (.obj p)) : Sees id check := by
  intro v w h
  change Same v w at h
  cases h with
  | arr _ => exact harr _ _
  | obj _ => exact hobj _ _
  | _ => rfl

theorem sees_text : Sees id text := sees_of_scalar (fun _ _ => rfl) fun _ _ => rfl

theorem sees_integer : Sees id integer := sees_of_scalar (fun _ _ => rfl) fun _ _ => rfl

theorem sees_flag : Sees id flag := sees_of_scalar (fun _ _ => rfl) fun _ _ => rfl

section Parts

variable {left : Json → Json} {check : Json → Checked α}

theorem optional_of_ne_null (check : Json → Checked α) {v : Json} (h : v ≠ .null) :
    optional check v = (check v).map some := by
  cases v with
  | null => exact absurd rfl h
  | _ => rfl

theorem Sees.optional (h : Sees left check) (hnull : ∀ v, left v = .null ↔ v = .null) :
    Sees left (optional check) := by
  intro v w hsame
  have hiff : v = .null ↔ w = .null := by
    rw [← hnull v, ← hnull w]
    exact hsame.eq_null_iff
  by_cases hv : v = .null
  · rw [hv, hiff.mp hv]
  · rw [optional_of_ne_null check hv, optional_of_ne_null check (mt hiff.mpr hv), h hsame]

theorem map_eq_of_forall₂ {R : Json → Json → Prop} {vs ws : List Json}
    (h : ∀ v ∈ vs, ∀ w, R v w → check v = check w) (hall : List.Forall₂ R vs ws) :
    vs.map check = ws.map check := by
  induction hall with
  | nil => rfl
  | cons hvw _ ih =>
    rw [List.forall_mem_cons] at h
    rw [List.map_cons, List.map_cons, h.1 _ hvw, ih h.2]

theorem list_of_ne_arr (check : Json → Checked α) {v : Json} (h : ∀ vs, v ≠ .arr vs) :
    list check v = reject .notList := by
  cases v with
  | arr vs => exact absurd rfl (h vs)
  | _ => rfl

theorem Sees.list (h : Sees left check) : Sees (inArray left) (list check) := by
  intro v w hsame
  rcases hsame.inArray_cases with ⟨vs, ws, rfl, rfl, hall⟩ | ⟨hv, hw⟩
  · rw [Checked.list, Checked.list, map_eq_of_forall₂ (fun _ _ _ hvw => h hvw) hall]
  · rw [list_of_ne_arr check hv, list_of_ne_arr check hw]

theorem Sees.object {f : List (Text × Json) → List (Text × Json)}
    {check : List (Text × Json) → Checked α}
    (h : ∀ o p, Same (.obj (f o)) (.obj (f p)) → check o = check p) :
    Sees (inObject f) (object check) := by
  intro v w hsame
  cases v with
  | obj o =>
    cases w with
    | obj p => exact h o p hsame
    | _ => cases hsame
  | _ => cases w with
    | obj p => cases hsame
    | _ => rfl

variable {o p : List (Text × Json)} {name : Text}

theorem Sees.required (h : Sees left check)
    (hsame : Option.Rel (fun v w => Same (left v) (left w)) (get? o name) (get? p name)) :
    required o name check = required p name check := by
  unfold Checked.required
  generalize get? o name = a at hsame
  generalize get? p name = b at hsame
  cases hsame with
  | some hvw => simp only [h hvw]
  | none => rfl

theorem Sees.withDefault (h : Sees left check) (default : α)
    (hsame : Option.Rel (fun v w => Same (left v) (left w)) (get? o name) (get? p name)) :
    withDefault o name default check = withDefault p name default check := by
  unfold Checked.withDefault
  generalize get? o name = a at hsame
  generalize get? p name = b at hsame
  cases hsame with
  | some hvw => simp only [h hvw]
  | none => rfl

theorem Sees.possible (h : Sees left check) (hnull : ∀ v, left v = .null ↔ v = .null)
    (hsame : Option.Rel (fun v w => Same (left v) (left w)) (get? o name) (get? p name)) :
    possible o name check = possible p name check :=
  Sees.withDefault (h.optional hnull) none hsame

end Parts

end CargoReport.Checked
