import CargoReport.Message.Basic

namespace CargoReport

/-- All values, or the issues of the first part that has any. -/
def Checked.allOrFirst {α : Type} : List (Checked α) → Checked (List α)
  | [] => .valid []
  | .invalid issues :: _ => .invalid issues
  | .valid a :: rest => (allOrFirst rest).map (a :: ·)

namespace Message

open Json.size (sizeElements sizeMembers)

/-- The children that a value names, if it names any. -/
def childValues : Json → List Json
  | .obj members =>
    match Json.get? members "children" with
    | some (.arr vs) => vs
    | _ => []
  | _ => []

theorem size_le_of_get? {members : List (Text × Json)} {name : Text} {v : Json}
    (h : Json.get? members name = some v) : v.size ≤ sizeMembers members := by
  induction members with
  | nil => cases h
  | cons m rest ih =>
    obtain ⟨key, w⟩ := m
    rw [Json.get?] at h
    rw [sizeMembers]
    rcases hr : Json.get? rest name with _ | later
    · simp only [hr] at h
      split at h
      · cases h
        exact Nat.le_add_right _ _
      · cases h
    · simp only [hr] at h
      cases h
      exact Nat.le_trans (ih hr) (Nat.le_add_left _ _)

theorem size_pos (v : Json) : 0 < v.size := by
  cases v with
  | arr vs => exact Nat.lt_add_right _ Nat.zero_lt_one
  | obj members => exact Nat.lt_add_right _ Nat.zero_lt_one
  | _ => exact Nat.zero_lt_one

/-- The children of a value weigh less than the value. -/
theorem sizeElements_childValues_lt (v : Json) : sizeElements (childValues v) < v.size := by
  cases v with
  | obj members =>
    rw [childValues]
    split
    · rename_i vs hvs
      have hle := size_le_of_get? hvs
      rw [Json.size] at hle
      rw [Json.size]
      omega
    · exact size_pos _
  | _ => exact size_pos _

theorem sizeElements_append (vs ws : List Json) :
    sizeElements (vs ++ ws) = sizeElements vs + sizeElements ws := by
  induction vs with
  | nil => exact (Nat.zero_add _).symm
  | cons v vs ih => rw [List.cons_append, sizeElements, sizeElements, ih, Nat.add_assoc]

theorem sizeElements_reverse (vs : List Json) : sizeElements vs.reverse = sizeElements vs := by
  induction vs with
  | nil => rfl
  | cons v vs ih =>
    rw [List.reverse_cons, sizeElements_append, ih, Nat.add_comm, sizeElements, sizeElements,
      sizeElements, Nat.add_zero]

theorem size_le_sizeElements {v : Json} {vs : List Json} (h : v ∈ vs) :
    v.size ≤ sizeElements vs := by
  induction vs with
  | nil => cases h
  | cons w vs ih =>
    rw [sizeElements]
    rcases List.mem_cons.mp h with rfl | h
    · exact Nat.le_add_right _ _
    · exact Nat.le_trans (ih h) (Nat.le_add_left _ _)

theorem size_lt_of_mem {v w : Json} (h : w ∈ childValues v) : w.size < v.size :=
  Nat.lt_of_le_of_lt (size_le_sizeElements h) (sizeElements_childValues_lt v)

/-- The values of a tree, each after its children. -/
def upward (v : Json) : List Json :=
  (childValues v).attach.flatMap (fun w => upward w.val) ++ [v]
termination_by v.size
decreasing_by exact size_lt_of_mem w.property

theorem upward_eq (v : Json) : upward v = (childValues v).flatMap upward ++ [v] := by
  rw [upward]
  simp

/-- The check of a value whose children are messages already. -/
def checkNode (children : List Message) : Json → Checked Message :=
  Checked.object fun o =>
    ofMembers o fun
      | .arr _ => .valid children
      | _ => Checked.reject .notList

/-- The check of a tree: of the children in order, and then of the value itself. -/
def checkTree (v : Json) : Checked Message :=
  match Checked.allOrFirst ((childValues v).attach.map fun w => checkTree w.val) with
  | .valid children => checkNode children v
  | .invalid issues => .invalid issues
termination_by v.size
decreasing_by exact size_lt_of_mem w.property

theorem checkTree_eq (v : Json) :
    checkTree v =
      match Checked.allOrFirst ((childValues v).map checkTree) with
      | .valid children => checkNode children v
      | .invalid issues => .invalid issues := by
  rw [checkTree]
  simp

/-- The issues of a value as if its children, if it lists any, were messages. -/
def ownFault? (v : Json) : Option (List Issue) := (checkNode [] v).fault?

/-- What the children are makes no difference to the issues of a value. -/
theorem fault?_checkNode (children : List Message) (v : Json) :
    (checkNode children v).fault? = ownFault? v := by
  cases v with
  | obj o =>
    simp only [ownFault?, checkNode, Checked.object, ofMembers]
    refine Checked.fault?_seq rfl ?_
    rcases hc : Json.get? o "children" with _ | w
    · simp only [Checked.withDefault, hc]
    · cases w <;> simp [Checked.withDefault, hc, Checked.reject, Checked.within]
  | _ => rfl

theorem fault?_allOrFirst {α : Type} (parts : List (Checked α)) :
    (Checked.allOrFirst parts).fault? = parts.findSome? Checked.fault? := by
  induction parts with
  | nil => rfl
  | cons part rest ih =>
    cases part with
    | invalid issues => rfl
    | valid a =>
      rw [Checked.allOrFirst, List.findSome?_cons, Checked.fault?_valid, ← ih]
      exact Checked.fault?_map (a :: ·) (Checked.allOrFirst rest)

theorem findSome?_flatMap_upward {vs : List Json}
    (h : ∀ w ∈ vs, (upward w).findSome? ownFault? = (checkTree w).fault?) :
    (vs.flatMap upward).findSome? ownFault? =
      (Checked.allOrFirst (vs.map checkTree)).fault? := by
  induction vs with
  | nil => rfl
  | cons w vs ih =>
    have hrest := ih fun x hx => h x (List.mem_cons_of_mem w hx)
    rw [fault?_allOrFirst] at hrest ⊢
    rw [List.flatMap_cons, List.findSome?_append, h w List.mem_cons_self, hrest, List.map_cons,
      List.findSome?_cons]
    cases (checkTree w).fault? with
    | none => rfl
    | some issues => rfl

theorem findSome?_upward (v : Json) : (upward v).findSome? ownFault? = (checkTree v).fault? := by
  have hchildren := findSome?_flatMap_upward fun w (_ : w ∈ childValues v) => findSome?_upward w
  rw [upward_eq, List.findSome?_append, hchildren, checkTree_eq]
  rcases Checked.allOrFirst ((childValues v).map checkTree) with ms | issues
  · rw [Checked.fault?_valid, Option.none_or, List.findSome?_singleton, fault?_checkNode]
  · rfl
termination_by v.size
decreasing_by exact size_lt_of_mem ‹_›

end Message
end CargoReport
