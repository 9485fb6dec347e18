import CargoReport.Message.Tree

namespace CargoReport.Message

open Json.size (sizeElements)

/-- A value of a tree and its place: the index of the child at each step down, the last step
first. Equal values at two places are two values. -/
structure Placed where
  place : List Nat
  value : Json

namespace Placed

def root (v : Json) : Placed := ⟨[], v⟩

def children (n : Placed) : List Placed :=
  (childValues n.value).mapIdx fun i v => ⟨i :: n.place, v⟩

end Placed

/-- Takes values from a stack, pushes the children of each with the last on top, and puts the
value in front of those taken before. -/
def unstack : (fuel : Nat) → (stack listed : List Placed) → List Placed
  | 0, _, listed => listed
  | _, [], listed => listed
  | fuel + 1, n :: stack, listed => unstack fuel (n.children.reverse ++ stack) (n :: listed)

/-- A value and all children below it, each after its own children and these in order. -/
def postorder (v : Json) : List Placed := unstack v.size [.root v] []

section Built

variable {κ : Type} [DecidableEq κ] (identity : Placed → κ)

/-- Checks values in their order. `built` has the messages of those before, each under the identity
of its value and the last one first; a child that is not found there gives `none`. -/
def build : List Placed → (built : List (κ × Message)) → Option (Checked (List (κ × Message)))
  | [], built => some (.valid built)
  | n :: rest, built =>
    match n.children.mapM fun c => built.lookup (identity c) with
    | none => none
    | some children =>
      match checkNode children n.value with
      | .valid m => build rest ((identity n, m) :: built)
      | .invalid issues => some (.invalid issues)

/-- The message that a value holds, or the issues of the first value in it that is none; the
values are told apart by some identity. -/
def ofJsonBy? (v : Json) : Option (Checked Message) :=
  match build identity (postorder v) [] with
  | none => none
  | some (.invalid issues) => some (.invalid issues)
  | some (.valid built) => (built.lookup (identity (.root v))).map .valid

end Built

/-- The message that a value holds, or the issues of the first value in it that is none. -/
def ofJson? (v : Json) : Option (Checked Message) := ofJsonBy? Placed.place v

namespace Placed

theorem map_value_children (n : Placed) : n.children.map value = childValues n.value := by
  apply List.ext_getElem?
  intro i
  rw [children, List.getElem?_map, List.getElem?_mapIdx, Option.map_map]
  exact Option.map_id_apply

theorem size_lt_of_mem_children {n c : Placed} (h : c ∈ n.children) :
    c.value.size < n.value.size := by
  apply size_lt_of_mem
  rw [← map_value_children]
  exact List.mem_map_of_mem h

/-- The values of a tree, each after its children. -/
def upward (n : Placed) : List Placed :=
  n.children.attach.flatMap (fun c => upward c.val) ++ [n]
termination_by n.value.size
decreasing_by exact size_lt_of_mem_children c.property

theorem upward_eq (n : Placed) : n.upward = n.children.flatMap upward ++ [n] := by
  rw [upward]
  simp

theorem mem_upward (n : Placed) : n ∈ n.upward := by
  rw [upward_eq]
  exact List.mem_append_right _ List.mem_cons_self

theorem map_value_upward (n : Placed) : n.upward.map value = Message.upward n.value := by
  have hchildren : ∀ c ∈ n.children, c.upward.map value = Message.upward c.value :=
    fun c _ => map_value_upward c
  have hflat : (n.children.flatMap upward).map value =
      (childValues n.value).flatMap Message.upward := by
    rw [← map_value_children, List.flatMap_map, List.map_flatMap, List.flatMap_def,
      List.flatMap_def, List.map_congr_left hchildren]
  rw [upward_eq, Message.upward_eq, List.map_append, hflat]
  rfl
termination_by n.value.size
decreasing_by exact size_lt_of_mem_children ‹_›

/-- The value at a place below a value. -/
def at? (v : Json) : (place : List Nat) → Option Json
  | [] => some v
  | i :: place => (at? v place).bind fun w => (childValues w)[i]?

/-- A property of a value that its children inherit holds of all values of its tree. -/
theorem forall_mem_upward (p : Placed → Prop) (hchild : ∀ n, p n → ∀ c ∈ n.children, p c)
    (n : Placed) (hn : p n) : ∀ u ∈ n.upward, p u := by
  intro u hu
  rw [upward_eq, List.mem_append, List.mem_flatMap, List.mem_singleton] at hu
  rcases hu with ⟨c, hc, hu⟩ | rfl
  · exact forall_mem_upward p hchild c (hchild n hn c hc) u hu
  · exact hn
termination_by n.value.size
decreasing_by exact size_lt_of_mem_children hc

theorem at?_place {v : Json} {n : Placed} (h : n ∈ (root v).upward) :
    at? v n.place = some n.value := by
  refine forall_mem_upward (fun n => at? v n.place = some n.value) ?_ (root v) rfl n h
  intro n hn c hc
  obtain ⟨i, hi, rfl⟩ := List.mem_mapIdx.mp hc
  rw [at?, hn, Option.bind_some, List.getElem?_eq_getElem hi]

end Placed

/-- The stack holds the trees that are still to be listed, and the last of them is on top. -/
theorem unstack_eq (fuel : Nat) (stack listed : List Placed)
    (h : sizeElements (stack.map Placed.value) ≤ fuel) :
    unstack fuel stack listed = stack.reverse.flatMap Placed.upward ++ listed := by
  induction fuel generalizing stack listed with
  | zero =>
    cases stack with
    | nil => rfl
    | cons n stack =>
      have hn := size_pos n.value
      rw [List.map_cons, sizeElements] at h
      omega
  | succ fuel ih =>
    cases stack with
    | nil => rfl
    | cons n stack =>
      have hn := sizeElements_childValues_lt n.value
      -- The children weigh less than `n`, and are listed before it since they are popped after it.
      have hfuel : sizeElements ((n.children.reverse ++ stack).map Placed.value) ≤ fuel := by
        rw [List.map_cons, sizeElements] at h
        rw [List.map_append, List.map_reverse, Placed.map_value_children, sizeElements_append,
          sizeElements_reverse]
        omega
      rw [unstack, ih _ _ hfuel, List.reverse_append, List.reverse_reverse, List.flatMap_append,
        List.reverse_cons, List.flatMap_append, List.flatMap_singleton, Placed.upward_eq n]
      simp only [List.append_assoc, List.singleton_append]

theorem postorder_eq (v : Json) : postorder v = (Placed.root v).upward := by
  have hsize : sizeElements ([Placed.root v].map Placed.value) ≤ v.size := Nat.le_refl _
  rw [postorder, unstack_eq _ _ _ hsize]
  simp

/-- Values of which each comes after its children, these being listed or done before. -/
def ChildrenFirst (done : List Placed) : List Placed → Prop
  | [] => True
  | n :: rest => (∀ c ∈ n.children, c ∈ done) ∧ ChildrenFirst (done ++ [n]) rest

theorem childrenFirst_append {done xs ys : List Placed} :
    ChildrenFirst done (xs ++ ys) ↔ ChildrenFirst done xs ∧ ChildrenFirst (done ++ xs) ys := by
  induction xs generalizing done with
  | nil => simp [ChildrenFirst]
  | cons n xs ih => simp [ChildrenFirst, ih, and_assoc]

theorem childrenFirst_flatMap {ns : List Placed}
    (h : ∀ n ∈ ns, ∀ done, ChildrenFirst done n.upward) (done : List Placed) :
    ChildrenFirst done (ns.flatMap Placed.upward) := by
  induction ns generalizing done with
  | nil => trivial
  | cons n ns ih =>
    rw [List.flatMap_cons, childrenFirst_append]
    exact ⟨h n List.mem_cons_self done, ih (fun x hx => h x (List.mem_cons_of_mem n hx)) _⟩

theorem childrenFirst_upward (n : Placed) (done : List Placed) : ChildrenFirst done n.upward := by
  have hchildren : ∀ c ∈ n.children, ∀ done, ChildrenFirst done c.upward :=
    fun c _ done => childrenFirst_upward c done
  rw [Placed.upward_eq, childrenFirst_append]
  refine ⟨childrenFirst_flatMap hchildren done, ?_, trivial⟩
  intro c hc
  exact List.mem_append_right _ (List.mem_flatMap.mpr ⟨c, hc, c.mem_upward⟩)
termination_by n.value.size
decreasing_by exact Placed.size_lt_of_mem_children ‹_›

section Identity

variable {κ : Type} [DecidableEq κ] (identity : Placed → κ)

/-- No two objects among some values have one identity. Other values may share one. -/
def TellsApart (ns : List Placed) : Prop :=
  ∀ n ∈ ns, ∀ n' ∈ ns, (∃ o, n.value = .obj o) → (∃ o, n'.value = .obj o) →
    identity n = identity n' → n = n'

theorem tellsApart_place (v : Json) : TellsApart Placed.place (postorder v) := by
  intro n hn n' hn' _ _ hplace
  rw [postorder_eq] at hn hn'
  have hvalue : n.value = n'.value := by
    have hn := Placed.at?_place hn
    rw [hplace, Placed.at?_place hn'] at hn
    exact (Option.some.inj hn).symm
  obtain ⟨place, w⟩ := n
  cases hplace
  cases hvalue
  rfl

variable {identity}

/-- The message of a value is found under its identity. -/
def Kept (identity : Placed → κ) (built : List (κ × Message)) (n : Placed) : Prop :=
  ∃ m, checkTree n.value = .valid m ∧ built.lookup (identity n) = some m

theorem exists_obj_of_valid {v : Json} {m : Message} (h : checkTree v = .valid m) :
    ∃ o, v = .obj o := by
  cases v with
  | obj o => exact ⟨o, rfl⟩
  | _ =>
    rw [checkTree_eq] at h
    cases h

theorem mapM_lookup_of_kept {built : List (κ × Message)} {ns : List Placed}
    (h : ∀ n ∈ ns, Kept identity built n) :
    ∃ ms, (ns.mapM fun n => built.lookup (identity n)) = some ms ∧
      Checked.allOrFirst (ns.map fun n => checkTree n.value) = .valid ms := by
  induction ns with
  | nil => exact ⟨[], rfl, rfl⟩
  | cons n ns ih =>
    obtain ⟨m, hm, hlookup⟩ := h n List.mem_cons_self
    obtain ⟨ms, hms, hall⟩ := ih fun x hx => h x (List.mem_cons_of_mem n hx)
    refine ⟨m :: ms, ?_, ?_⟩
    · rw [List.mapM_cons, hlookup, hms]
      rfl
    · rw [List.map_cons, hm, Checked.allOrFirst, hall]
      rfl

/-- A value whose children are kept is checked from their messages, and its issues are its own. -/
theorem build_cons {built : List (κ × Message)} {n : Placed}
    (h : ∀ c ∈ n.children, Kept identity built c) (rest : List Placed) :
    (build identity (n :: rest) built =
        match checkTree n.value with
        | .valid m => build identity rest ((identity n, m) :: built)
        | .invalid issues => some (.invalid issues)) ∧
      (checkTree n.value).fault? = ownFault? n.value := by
  obtain ⟨ms, hms, hall⟩ := mapM_lookup_of_kept h
  have hvalues : n.children.map (fun c => checkTree c.value) =
      (childValues n.value).map checkTree := by
    rw [← Placed.map_value_children, List.map_map]
    rfl
  rw [hvalues] at hall
  rw [checkTree_eq, hall]
  refine ⟨?_, fault?_checkNode ms n.value⟩
  cases hcheck : checkNode ms n.value <;> simp only [build, hms, hcheck]

theorem Kept.cons {built : List (κ × Message)} {n n' : Placed} {m : Message}
    (h : Kept identity built n') (hm : checkTree n.value = .valid m)
    (hn : (∃ o, n'.value = .obj o) → (∃ o, n.value = .obj o) → identity n' = identity n → n' = n) :
    Kept identity ((identity n, m) :: built) n' := by
  obtain ⟨m', hm', hlookup⟩ := h
  by_cases hk : identity n' = identity n
  · obtain rfl := hn (exists_obj_of_valid hm') (exists_obj_of_valid hm) hk
    exact ⟨m, hm, List.lookup_cons_self⟩
  · refine ⟨m', hm', ?_⟩
    rw [List.lookup_cons, beq_eq_false_iff_ne.mpr hk]
    exact hlookup

/-- What is done stays kept until the first value that fails ends the check, or all are kept. -/
theorem build_of_childrenFirst {done rest : List Placed} {built : List (κ × Message)}
    (hapart : TellsApart identity (done ++ rest)) (hfirst : ChildrenFirst done rest)
    (hkept : ∀ n ∈ done, Kept identity built n) :
    (∃ issues, build identity rest built = some (.invalid issues) ∧
        (rest.map Placed.value).findSome? ownFault? = some issues) ∨
      ∃ built', build identity rest built = some (.valid built') ∧
        ∀ n ∈ done ++ rest, Kept identity built' n := by
  induction rest generalizing done built with
  | nil => exact .inr ⟨built, rfl, by simpa using hkept⟩
  | cons n rest ih =>
    obtain ⟨hbuild, hown⟩ := build_cons (fun c hc => hkept c (hfirst.1 c hc)) rest
    rw [hbuild, List.map_cons, List.findSome?_cons, ← hown]
    rcases hn : checkTree n.value with m | issues
    · -- The message of `n` is put under its identity, where no other object has one.
      have hsplit : done ++ n :: rest = done ++ [n] ++ rest := by simp
      have hkept' : ∀ n' ∈ done ++ [n], Kept identity ((identity n, m) :: built) n' := by
        intro n' hn'
        rcases List.mem_append.mp hn' with hdone | hself
        · exact (hkept n' hdone).cons hn (hapart n' (by simp [hdone]) n (by simp))
        · rw [List.mem_singleton.mp hself]
          exact ⟨m, hn, List.lookup_cons_self⟩
      rw [hsplit] at hapart ⊢
      exact ih hapart hfirst.2 hkept'
    · exact .inl ⟨issues, rfl, rfl⟩

/-- The worklist finds what the recursion finds, and never misses a child. -/
theorem ofJsonBy?_eq {v : Json} (h : TellsApart identity (postorder v)) :
    ofJsonBy? identity v = some (checkTree v) := by
  rw [postorder_eq] at h
  rw [ofJsonBy?, postorder_eq]
  have hnone : ∀ n ∈ ([] : List Placed), Kept identity [] n := by simp
  rcases build_of_childrenFirst h (childrenFirst_upward _ []) hnone with
    ⟨issues, hbuild, hfault⟩ | ⟨built, hbuild, hkept⟩
  · rw [Placed.map_value_upward, findSome?_upward, Checked.fault?_eq_some_iff] at hfault
    rw [hbuild]
    exact congrArg some hfault.symm
  · obtain ⟨m, hm, hlookup⟩ := hkept (.root v) (Placed.mem_upward _)
    rw [hbuild]
    simp only [hlookup]
    exact congrArg some hm.symm

end Identity

theorem ofJson?_eq (v : Json) : ofJson? v = some (checkTree v) :=
  ofJsonBy?_eq (tellsApart_place v)

theorem isSome_ofJson? (v : Json) : (ofJson? v).isSome = true := by
  rw [ofJson?_eq]
  rfl

/-- What the worklist finds: it never misses a child, so there is something in the end. -/
def ofJson (v : Json) : Checked Message := (ofJson? v).get (isSome_ofJson? v)

theorem ofJson?_eq_some (v : Json) : ofJson? v = some (ofJson v) :=
  (Option.some_get (isSome_ofJson? v)).symm

theorem ofJson_eq (v : Json) : ofJson v = checkTree v :=
  Option.some_inj.mp ((ofJson?_eq_some v).symm.trans (ofJson?_eq v))

end CargoReport.Message
