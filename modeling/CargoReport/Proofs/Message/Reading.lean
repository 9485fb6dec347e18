import CargoReport.Report
import Mathlib.Data.List.Forall2

namespace CargoReport.Message

/-- The members of an object make up a message, which leaves open what its children are. -/
structure HasFields (o : List (Text × Json)) (m : Message) : Prop where
  level : Checked.required o "level" Checked.text = .valid m.level
  message : Checked.required o "message" Checked.text = .valid m.message
  rendered : Checked.possible o "rendered" Checked.text = .valid m.rendered
  code : Checked.possible o "code" Code.check = .valid m.code
  spans : Checked.withDefault o "spans" [] (Checked.list Span.check) = .valid m.spans
  children : ∀ v, Json.get? o "children" = some v → ∃ vs, v = .arr vs

/-- A value is a message, and so is every value below it. -/
inductive IsMessage : Json → Prop
  | mk {o : List (Text × Json)} {m : Message} (fields : HasFields o m)
      (children : ∀ w ∈ childValues (.obj o), IsMessage w) : IsMessage (.obj o)

/-- A value says what a message is, and the children of the one are those of the other, in order. -/
inductive Reads : Json → Message → Prop
  | mk {o : List (Text × Json)} {m : Message} (fields : HasFields o m)
      (children : List.Forall₂ Reads (childValues (.obj o)) m.children) : Reads (.obj o) m

/-- Children that are messages are taken as they are where an array of them is named. -/
theorem children_eq_valid_iff {children : List Message} {o : List (Text × Json)}
    (h : children.length = (childValues (.obj o)).length) (cs : List Message) :
    Checked.withDefault o "children" [] (fun
        | .arr _ => .valid children
        | _ => Checked.reject .notList) = .valid cs ↔
      (∀ v, Json.get? o "children" = some v → ∃ vs, v = .arr vs) ∧ cs = children := by
  rcases hc : Json.get? o "children" with _ | w
  · have hnil : children = [] := by
      apply List.eq_nil_of_length_eq_zero
      rw [h, childValues, hc]
      rfl
    simp [Checked.withDefault, hc, hnil, eq_comm]
  · cases w <;> simp [Checked.withDefault, hc, Checked.reject, Checked.within, eq_comm]

theorem checkNode_eq_valid_iff {children : List Message} {o : List (Text × Json)} {m : Message}
    (h : children.length = (childValues (.obj o)).length) :
    checkNode children (.obj o) = .valid m ↔ HasFields o m ∧ m.children = children := by
  obtain ⟨level, message, rendered, code, spans, cs⟩ := m
  simp only [checkNode, Checked.object, ofMembers, Checked.seq_eq_valid_iff,
    Checked.map_eq_valid_iff]
  constructor
  · rintro ⟨_, cs', ⟨_, _, ⟨_, _, ⟨_, _, ⟨_, _, ⟨_, hlevel, rfl⟩, hmessage, rfl⟩, hrendered, rfl⟩,
      hcode, rfl⟩, hspans, rfl⟩, hchildren, hm⟩
    obtain ⟨hlist, rfl⟩ := (children_eq_valid_iff h cs').mp hchildren
    cases hm
    exact ⟨⟨hlevel, hmessage, hrendered, hcode, hspans, hlist⟩, rfl⟩
  · rintro ⟨⟨hlevel, hmessage, hrendered, hcode, hspans, hlist⟩, hm⟩
    have hchildren := (children_eq_valid_iff h cs).mpr ⟨hlist, hm⟩
    exact ⟨_, cs, ⟨_, _, ⟨_, _, ⟨_, _, ⟨_, _, ⟨_, hlevel, rfl⟩, hmessage, rfl⟩, hrendered, rfl⟩,
      hcode, rfl⟩, hspans, rfl⟩, hchildren, rfl⟩

theorem allOrFirst_map_eq_valid_iff {f : Json → Checked Message} {vs : List Json}
    {ms : List Message} :
    Checked.allOrFirst (vs.map f) = .valid ms ↔
      List.Forall₂ (fun v m => f v = .valid m) vs ms := by
  induction vs generalizing ms with
  | nil =>
    rw [List.forall₂_nil_left_iff]
    simp [Checked.allOrFirst, eq_comm]
  | cons v vs ih =>
    rw [List.map_cons, List.forall₂_cons_left_iff]
    rcases hv : f v with m | issues
    · rw [Checked.allOrFirst]
      simp only [← ih]
      rcases Checked.allOrFirst (vs.map f) with as | issues
      · simp [eq_comm]
      · simp
    · simp [Checked.allOrFirst]

theorem forall₂_congr_left {R S : Json → Message → Prop} {vs : List Json} {ms : List Message}
    (h : ∀ v ∈ vs, ∀ m, R v m ↔ S v m) : List.Forall₂ R vs ms ↔ List.Forall₂ S vs ms := by
  induction vs generalizing ms with
  | nil => simp
  | cons v vs ih =>
    rw [List.forall₂_cons_left_iff, List.forall₂_cons_left_iff]
    simp only [h v List.mem_cons_self, ih fun w hw => h w (List.mem_cons_of_mem v hw)]

/-- The recursion succeeds with a message exactly where a value says that message. -/
theorem checkTree_eq_valid_iff (v : Json) (m : Message) : checkTree v = .valid m ↔ Reads v m := by
  have hchildren : ∀ w ∈ childValues v, ∀ m, checkTree w = .valid m ↔ Reads w m :=
    fun w _ m => checkTree_eq_valid_iff w m
  cases v with
  | obj o =>
    have hlen : ∀ ms, Checked.allOrFirst ((childValues (.obj o)).map checkTree) = .valid ms →
        ms.length = (childValues (.obj o)).length := by
      intro ms hms
      exact (allOrFirst_map_eq_valid_iff.mp hms).length_eq.symm
    rw [checkTree_eq]
    constructor
    · intro hm
      rcases hall : Checked.allOrFirst ((childValues (.obj o)).map checkTree) with ms | issues
      · rw [hall] at hm
        obtain ⟨hfields, rfl⟩ := (checkNode_eq_valid_iff (hlen ms hall)).mp hm
        exact .mk hfields ((forall₂_congr_left hchildren).mp (allOrFirst_map_eq_valid_iff.mp hall))
      · rw [hall] at hm
        cases hm
    · rintro ⟨hfields, hall⟩
      have hall := allOrFirst_map_eq_valid_iff.mpr ((forall₂_congr_left hchildren).mpr hall)
      rw [hall]
      exact (checkNode_eq_valid_iff (hlen _ hall)).mpr ⟨hfields, rfl⟩
  | _ =>
    constructor
    · intro hm
      obtain ⟨o, ho⟩ := exists_obj_of_valid hm
      cases ho
    · rintro ⟨⟩
termination_by v.size
decreasing_by exact size_lt_of_mem ‹_›

theorem exists_reads_of_mem {vs : List Json} {ms : List Message} (h : List.Forall₂ Reads vs ms)
    {w : Json} (hw : w ∈ vs) : ∃ m, Reads w m := by
  induction h with
  | nil => cases hw
  | cons hr _ ih =>
    rcases List.mem_cons.mp hw with rfl | hw
    · exact ⟨_, hr⟩
    · exact ih hw

theorem exists_forall₂_reads {vs : List Json} (h : ∀ w ∈ vs, ∃ m, Reads w m) :
    ∃ ms, List.Forall₂ Reads vs ms := by
  induction vs with
  | nil => exact ⟨[], .nil⟩
  | cons w vs ih =>
    obtain ⟨m, hm⟩ := h w List.mem_cons_self
    obtain ⟨ms, hms⟩ := ih fun x hx => h x (List.mem_cons_of_mem w hx)
    exact ⟨m :: ms, .cons hm hms⟩

theorem isMessage_of_reads {v : Json} {m : Message} (h : Reads v m) : IsMessage v := by
  obtain ⟨hfields, hall⟩ := h
  refine .mk hfields fun w hw => ?_
  obtain ⟨m, hm⟩ := exists_reads_of_mem hall hw
  exact isMessage_of_reads hm
termination_by v.size
decreasing_by exact size_lt_of_mem ‹_›

theorem isMessage_iff_exists_reads (v : Json) : IsMessage v ↔ ∃ m, Reads v m := by
  constructor
  · intro h
    induction h with
    | @mk o m fields _ ih =>
      obtain ⟨ms, hms⟩ := exists_forall₂_reads ih
      obtain ⟨level, message, rendered, code, spans, children⟩ := fields
      have hfields : HasFields o { m with children := ms } :=
        ⟨level, message, rendered, code, spans, children⟩
      exact ⟨_, .mk hfields hms⟩
  · rintro ⟨m, hm⟩
    exact isMessage_of_reads hm

/-- A value is read as the message that it says. It is read if and only if it is a message, at
every depth; of any other value, the issues are those of the first value that fails by itself, and
a line that brings it says how many they are. What tells the values of the tree apart makes no
difference, and the message of a child is always there. -/
theorem ofJson?_reads_or_reports_first (v : Json) :
    (∀ m, ofJson? v = some (.valid m) ↔ Reads v m) ∧
    ((∃ m, ofJson? v = some (.valid m)) ↔ IsMessage v) ∧
    (∀ issues, ofJson? v = some (.invalid issues) ↔
      ∃ before u after, upward v = before ++ u :: after ∧ ownFault? u = some issues ∧
        ∀ w ∈ before, ownFault? w = none) ∧
    (∀ line members issues, Json.ofText line.strip = .ok (.obj members) →
      Json.get? members "message" = some v → ofJson? v = some (.invalid issues) →
      Line.read line = .ok (.skipped (.badMessage issues.length))) ∧
    ∀ (κ : Type) [DecidableEq κ] (identity : Placed → κ), TellsApart identity (postorder v) →
      ofJsonBy? identity v = ofJson? v ∧ ofJsonBy? identity v ≠ none := by
  have hreads : ∀ m, ofJson? v = some (.valid m) ↔ Reads v m := by
    intro m
    rw [ofJson?_eq, Option.some_inj, checkTree_eq_valid_iff]
  refine ⟨hreads, ?_, ?_, ?_, ?_⟩
  · rw [isMessage_iff_exists_reads]
    exact exists_congr hreads
  · intro issues
    rw [ofJson?_eq, Option.some_inj, ← Checked.fault?_eq_some_iff, ← findSome?_upward,
      List.findSome?_eq_some_iff]
  · intro line members issues hline hmember hissues
    rw [ofJson?_eq_some, Option.some_inj] at hissues
    rw [Line.read_of_ofText hline]
    simp only [Line.ofMembers, hmember, hissues]
  · intro κ _ identity hapart
    rw [ofJsonBy?_eq hapart, ofJson?_eq]
    exact ⟨rfl, Option.some_ne_none _⟩

end CargoReport.Message
