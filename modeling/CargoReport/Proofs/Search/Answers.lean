import CargoReport.Proofs.Action
import CargoReport.Proofs.Json.Depth
import CargoReport.Search
import Mathlib.Data.List.Forall2
import Mathlib.Data.List.TakeWhile

namespace CargoReport.Search

/-- What a document gives as its crates. -/
def listed? : Json → Option Json
  | .obj members => Json.get? members "crates"
  | _ => none

/-- A value that has no parts to go through. -/
def Atomic (v : Json) : Prop := v.kind ∈ ([.null, .bool, .int, .float] : List Json.Kind)

/-- The faults that an answer ends a search with without the search saying that it failed. -/
inductive Escapes (bytes : List UInt8) : Fault → Prop where
  | undecodable (ht : documentText? bytes = none) : Escapes bytes .undecodable
  | tooDeep {t : Text} (ht : documentText? bytes = some t)
    (hread : Json.read .lenient t = .error .tooDeep) : Escapes bytes .tooDeep
  | overlong {t : Text} {n : Nat} (ht : documentText? bytes = some t)
    (hread : Json.read .lenient t = .error (.overlong n)) : Escapes bytes (.overlong ⟨n⟩)
  | notIterable {t : Text} {document v : Json} (ht : documentText? bytes = some t)
    (hread : Json.read .lenient t = .ok document) (hv : listed? document = some v)
    (hatomic : Atomic v) : Escapes bytes (.notIterable v.kind)

/-- The crates that a document lists. A text or an object in the place of the list has to be empty,
as none of its parts is a crate. -/
inductive Lists (limits : Json.Limits) : Json → List Crate → Prop where
  | absent {members : List (Text × Json)} (h : Json.get? members "crates" = none) :
    Lists limits (.obj members) []
  | emptyText {members : List (Text × Json)} (h : Json.get? members "crates" = some (.str [])) :
    Lists limits (.obj members) []
  | emptyObject {members : List (Text × Json)} (h : Json.get? members "crates" = some (.obj [])) :
    Lists limits (.obj members) []
  | array {members : List (Text × Json)} {vs : List Json} {found : List Crate}
    (h : Json.get? members "crates" = some (.arr vs))
    (hcheck : List.Forall₂ (fun v crate => Crate.check limits v = .valid crate) vs found) :
    Lists limits (.obj members) found

variable {limits : Json.Limits}

theorem crates_cons_of_invalid {v : Json} {issues : List Issue}
    (hv : Crate.check limits v = .invalid issues) (rest : List Json) :
    crates limits (v :: rest) = .error issues := by
  rw [crates, hv]
  rfl

theorem crates_cons_of_valid {v : Json} {crate : Crate} (hv : Crate.check limits v = .valid crate)
    (rest : List Json) : crates limits (v :: rest) = (crates limits rest).map (crate :: ·) := by
  rw [crates, hv]
  cases crates limits rest <;> rfl

theorem crates_eq_ok_iff {vs : List Json} {listed : List Crate} : crates limits vs = .ok listed ↔
    List.Forall₂ (fun v crate => Crate.check limits v = .valid crate) vs listed := by
  induction vs generalizing listed with
  | nil =>
    rw [crates, List.forall₂_nil_left_iff, Except.ok.injEq, eq_comm]
  | cons v rest ih =>
    constructor
    · intro h
      cases hv : Crate.check limits v with
      | invalid issues =>
        rw [crates_cons_of_invalid hv] at h
        cases h
      | valid crate =>
        rw [crates_cons_of_valid hv] at h
        cases hrest : crates limits rest with
        | error issues =>
          rw [hrest] at h
          cases h
        | ok others =>
          rw [hrest] at h
          cases h
          exact .cons hv (ih.mp hrest)
    · intro h
      cases h with
      | cons hv hrest =>
        rw [crates_cons_of_valid hv, ih.mpr hrest]
        rfl

theorem crates_texts_eq_ok_iff {ts : List Text} {listed : List Crate} :
    crates limits (ts.map .str) = .ok listed ↔ ts = [] ∧ listed = [] := by
  cases ts with
  | nil => simp [crates, eq_comm]
  | cons t rest =>
    obtain ⟨issues, hv⟩ : ∃ issues, Crate.check limits (.str t) = .invalid issues := ⟨_, rfl⟩
    rw [List.map_cons, crates_cons_of_invalid hv]
    simp

theorem names_eq_nil_iff (members : List (Text × Json)) :
    Json.names members = [] ↔ members = [] := by
  cases members <;> simp [Json.names]

theorem found_of_atomic {v : Json} (h : Atomic v) : found v = .error (.notIterable v.kind) := by
  cases v with
  | str | arr | obj => simp [Atomic, Json.kind] at h
  | _ => rfl

theorem found_eq_error {v : Json} {fault : Fault} (h : found v = .error fault) :
    Atomic v ∧ fault = .notIterable v.kind := by
  cases v with
  | str | arr | obj => cases h
  | _ =>
    cases h
    exact ⟨by simp [Atomic, Json.kind], rfl⟩

variable (s : Search)

/-- What the search makes of the bytes of an answer. -/
def answer (limits : Json.Limits) (bytes : List UInt8) : Except Fault (List Crate) :=
  s.document bytes >>= s.cratesOf limits

/-- What a search ends with where the reader gives up. -/
def unread : Json.Failure → Fault
  | .malformed problem place => .searchFailed s.name (.notJson problem place)
  | .tooDeep => .tooDeep
  | .overlong n => .overlong ⟨n⟩

/-- The search gives crates, or it says that it failed. -/
def Answered (r : Except Fault (List Crate)) : Prop :=
  (∃ crates, r = .ok crates) ∨ ∃ why, r = .error (.searchFailed s.name why)

variable {s} {bytes : List UInt8} {t : Text}

theorem answer_of_read_error (ht : documentText? bytes = some t) {failure : Json.Failure}
    (hread : Json.read .lenient t = .error failure) :
    s.answer limits bytes = .error (s.unread failure) := by
  simp only [answer, document, ht, hread, Except.mapError]
  cases failure <;> rfl

theorem answer_of_read_ok (ht : documentText? bytes = some t) {v : Json}
    (hread : Json.read .lenient t = .ok v) : s.answer limits bytes = s.cratesOf limits v := by
  simp only [answer, document, ht, hread, Except.mapError]
  rfl

theorem cratesOf_of_atomic {document v : Json} (hv : listed? document = some v)
    (hatomic : Atomic v) : s.cratesOf limits document = .error (.notIterable v.kind) := by
  cases document with
  | obj members =>
    rw [listed?] at hv
    rw [cratesOf, hv, Option.getD_some, found_of_atomic hatomic]
    rfl
  | _ => cases hv

theorem answer_of_escapes {fault : Fault} (h : Escapes bytes fault) :
    s.answer limits bytes = .error fault := by
  cases h with
  | undecodable ht =>
    rw [answer, document, ht]
    rfl
  | tooDeep ht hread => exact answer_of_read_error ht hread
  | overlong ht hread => exact answer_of_read_error ht hread
  | notIterable ht hread hv hatomic =>
    rw [answer_of_read_ok ht hread]
    exact cratesOf_of_atomic hv hatomic

theorem answered_cratesOf {document : Json} (h : ∀ v, listed? document = some v → ¬Atomic v) :
    s.Answered (s.cratesOf limits document) := by
  cases document with
  | obj members =>
    rw [cratesOf]
    rcases hfound : found ((Json.get? members "crates").getD (.arr [])) with fault | values
    · -- Only a member without parts cannot be gone through; where there is none, nothing is.
      obtain ⟨hatomic, -⟩ := found_eq_error hfound
      cases hv : Json.get? members "crates" with
      | none =>
        rw [hv] at hfound
        cases hfound
      | some v =>
        rw [hv, Option.getD_some] at hatomic
        exact absurd hatomic (h v hv)
    · cases hcrates : crates limits values with
      | error issues =>
        right
        refine ⟨.badCrate issues, ?_⟩
        simp [bind, Except.bind, hcrates, Except.mapError]
      | ok found =>
        left
        refine ⟨found, ?_⟩
        simp [bind, Except.bind, hcrates, Except.mapError]
  | _ => exact .inr ⟨_, rfl⟩

theorem cratesOf_obj_eq_ok_iff {members : List (Text × Json)} {listed : List Crate} :
    s.cratesOf limits (.obj members) = .ok listed ↔ ∃ values,
      found ((Json.get? members "crates").getD (.arr [])) = .ok values ∧
        crates limits values = .ok listed := by
  rw [cratesOf]
  cases found ((Json.get? members "crates").getD (.arr [])) with
  | error fault => simp [bind, Except.bind]
  | ok values =>
    cases hcrates : crates limits values <;> simp [bind, Except.bind, Except.mapError, hcrates]

theorem lists_of_cratesOf {document : Json} {listed : List Crate}
    (h : s.cratesOf limits document = .ok listed) : Lists limits document listed := by
  cases document with
  | obj members =>
    obtain ⟨values, hfound, hcrates⟩ := cratesOf_obj_eq_ok_iff.mp h
    cases hv : Json.get? members "crates" with
    | none =>
      rw [hv] at hfound
      cases hfound
      cases hcrates
      exact .absent hv
    | some v =>
      rw [hv, Option.getD_some] at hfound
      cases v with
      | arr vs =>
        cases hfound
        exact .array hv (crates_eq_ok_iff.mp hcrates)
      | str t =>
        cases hfound
        have htexts : crates limits ((t.map fun c => [c]).map .str) = .ok listed := by
          rwa [List.map_map]
        obtain ⟨ht, rfl⟩ := crates_texts_eq_ok_iff.mp htexts
        rw [List.map_eq_nil_iff] at ht
        subst ht
        exact .emptyText hv
      | obj inner =>
        cases hfound
        obtain ⟨hnames, rfl⟩ := crates_texts_eq_ok_iff.mp hcrates
        rw [names_eq_nil_iff] at hnames
        subst hnames
        exact .emptyObject hv
      | _ => cases hfound
  | _ => cases h

theorem cratesOf_of_lists {document : Json} {listed : List Crate}
    (h : Lists limits document listed) : s.cratesOf limits document = .ok listed := by
  cases h with
  | absent h => exact cratesOf_obj_eq_ok_iff.mpr ⟨[], by rw [h]; rfl, rfl⟩
  | emptyText h => exact cratesOf_obj_eq_ok_iff.mpr ⟨[], by rw [h]; rfl, rfl⟩
  | emptyObject h => exact cratesOf_obj_eq_ok_iff.mpr ⟨[], by rw [h]; rfl, rfl⟩
  | array h hcheck =>
    exact cratesOf_obj_eq_ok_iff.mpr ⟨_, by rw [h]; rfl, crates_eq_ok_iff.mpr hcheck⟩

theorem answer_eq_ok_iff {listed : List Crate} : s.answer limits bytes = .ok listed ↔
    ∃ t document, documentText? bytes = some t ∧ Json.read .lenient t = .ok document ∧
      Lists limits document listed := by
  constructor
  · intro h
    cases ht : documentText? bytes with
    | none =>
      rw [answer_of_escapes (.undecodable ht)] at h
      cases h
    | some t =>
      cases hread : Json.read .lenient t with
      | error failure =>
        rw [answer_of_read_error ht hread] at h
        cases h
      | ok document =>
        rw [answer_of_read_ok ht hread] at h
        exact ⟨t, document, rfl, hread, lists_of_cratesOf h⟩
  · rintro ⟨t, document, ht, hread, hlists⟩
    rw [answer_of_read_ok ht hread]
    exact cratesOf_of_lists hlists

theorem answered_of_not_escapes (h : ∀ fault, ¬Escapes bytes fault) :
    s.Answered (s.answer limits bytes) := by
  cases ht : documentText? bytes with
  | none => exact absurd (.undecodable ht) (h _)
  | some t =>
    cases hread : Json.read .lenient t with
    | ok document =>
      rw [answer_of_read_ok ht hread]
      apply answered_cratesOf
      intro v hv hatomic
      exact h _ (.notIterable ht hread hv hatomic)
    | error failure =>
      cases failure with
      | malformed problem place => exact .inr ⟨_, answer_of_read_error ht hread⟩
      | tooDeep => exact absurd (.tooDeep ht hread) (h _)
      | overlong n => exact absurd (.overlong ht hread) (h _)

theorem longRun_of_escapes {n : Nat} (h : Escapes bytes (.overlong ⟨n⟩)) :
    ∃ t, documentText? bytes = some t ∧ Json.LongRun n t := by
  cases h with
  | overlong ht hread => exact ⟨_, ht, Json.longRun_of_read hread⟩

theorem lt_openings_of_escapes (h : Escapes bytes .tooDeep) :
    ∃ t, documentText? bytes = some t ∧ Json.Limits.lenient.depth < Json.openings t := by
  cases h with
  | tooDeep ht hread => exact ⟨_, ht, Json.lt_openings_of_read rfl hread⟩

/-- Only surrogates have no bytes. -/
theorem unencodable?_eq_none_iff (t : Text) :
    unencodable? t = none ↔ ∀ c ∈ t, Text.isSurrogate c = false := by
  rw [unencodable?]
  rcases hdrop : t.dropWhile (!Text.isSurrogate ·) with _ | ⟨c, rest⟩
  · have hall := List.dropWhile_eq_nil_iff.mp hdrop
    simpa using hall
  · -- What is left begins with a surrogate, and is told of.
    have hc : Text.isSurrogate c = true := by
      have hhead := List.head?_dropWhile_not (!Text.isSurrogate ·) t
      rw [hdrop] at hhead
      simpa using hhead
    have hmem : c ∈ t := (List.dropWhile_sublist _).subset (hdrop ▸ List.mem_cons_self)
    rw [List.takeWhile_cons, if_pos hc]
    constructor
    · intro hnone
      split at hnone <;> simp_all
    · intro hall
      exact absurd hc (by simp [hall c hmem])

theorem unwritable?_eq_none_iff (s : Search) : s.unwritable? = none ↔
    Decimal.Printable s.perPage ∧ ∀ c ∈ s.name, Text.isSurrogate c = false := by
  rw [unwritable?, ← unencodable?_eq_none_iff]
  split
  · rename_i hprintable
    simp [hprintable]
  · rename_i hlong
    simp [hlong]

section Sent

variable (s) {h : Host} {earlier : List Call}

theorem run_call (h : Host) (earlier : List Call) :
    (Action.call (.request s.request) (h.fetch · s.request)).run earlier () =
      ⟨.ok (h.fetch earlier s.request), (), [], [.request s.request]⟩ := rfl

theorem run_send_of_ok (hfetch : h.fetch earlier s.request = .ok bytes) :
    (s.send h).run earlier () = ⟨s.answer h.limits bytes, (), [], [.request s.request]⟩ := by
  have hcall := s.run_call h earlier
  rw [hfetch] at hcall
  rw [send, Action.run_bind_of_ok (congrArg Outcome.result hcall)]
  simp only [Action.run_ofExcept]
  rfl

theorem run_send_of_system {cause : Raised} (hfetch : h.fetch earlier s.request = .error cause)
    (hsystem : cause.isSystem = true) : (s.send h).run earlier () =
      ⟨.error (.searchFailed s.name (.unreachable cause)), (), [], [.request s.request]⟩ := by
  have hcall := s.run_call h earlier
  rw [hfetch] at hcall
  rw [send, Action.run_bind_of_ok (congrArg Outcome.result hcall)]
  simp only [hsystem, if_true]
  rfl

end Sent

/-- A search whose address can be written sends one request. It gives crates where the answer lists
them, and says that it failed where the request did and where the answer is neither such a list nor
one of four kinds; these four end it with faults of their own. Only an answer with so many opening
brackets is too deep, and an integer too long to be read has its digits there. -/
theorem run_answered_or_escapes (s : Search) (h : Host) (earlier : List Call) :
    let done := (s.run h).run earlier ()
    (s.unwritable? = none ↔
      Decimal.Printable s.perPage ∧ ∀ c ∈ s.name, Text.isSurrogate c = false) ∧
    (∀ fault, s.unwritable? = some fault → done = ⟨.error fault, (), [], []⟩) ∧
    (s.unwritable? = none →
      (∀ cause, h.fetch earlier s.request = .error cause → cause.isSystem = true →
        done = ⟨.error (.searchFailed s.name (.unreachable cause)), (), [],
          [.request s.request]⟩) ∧
      ∀ bytes, h.fetch earlier s.request = .ok bytes →
        done.calls = [.request s.request] ∧
        (∀ listed, done.result = .ok listed ↔ ∃ t document, documentText? bytes = some t ∧
          Json.read .lenient t = .ok document ∧ Lists h.limits document listed) ∧
        ((∀ fault, ¬Escapes bytes fault) → s.Answered done.result) ∧
        (∀ fault, Escapes bytes fault → done.result = .error fault) ∧
        (Escapes bytes .tooDeep → ∃ t, documentText? bytes = some t ∧
          Json.Limits.lenient.depth < Json.openings t) ∧
        ∀ n, Escapes bytes (.overlong ⟨n⟩) → ∃ t, documentText? bytes = some t ∧
          Json.LongRun n t) := by
  intro done
  refine ⟨s.unwritable?_eq_none_iff, ?_, ?_⟩
  · intro fault hfault
    simp only [done, run, hfault, Action.run_stop]
  · intro hwritable
    have hdone : done = (s.send h).run earlier () := by
      simp only [done, run, hwritable]
    rw [hdone]
    constructor
    · intro cause hfetch hsystem
      exact s.run_send_of_system hfetch hsystem
    · intro bytes hfetch
      rw [s.run_send_of_ok hfetch]
      exact ⟨rfl, fun _ => answer_eq_ok_iff, answered_of_not_escapes, fun _ => answer_of_escapes,
        lt_openings_of_escapes, fun _ => longRun_of_escapes⟩

/-- Surroundings in which the registry gives this answer. -/
def answering (t : Text) : Host where
  environment := []
  cargo? := none
  directory := .ofText "/"
  limits := .strict
  launch := fun _ _ => .ok ⟨0, [], []⟩
  fetch := fun _ _ => .ok (Utf8.encode t)

def nullCrates : Text := "\x7b\"crates\": null\x7d"

theorem run_answered_or_escapes_null :
    ((⟨"serde", defaultPerPage, defaultTimeout⟩ : Search).run (answering nullCrates) [] ()).result =
      .error (.notIterable .null) := by
  have hwritable : (⟨"serde", defaultPerPage, defaultTimeout⟩ : Search).unwritable? = none := by
    decide +kernel
  have htext : documentText? (Utf8.encode nullCrates) = some nullCrates := by decide +kernel
  have hkind : ((Json.read .lenient nullCrates).toOption.bind listed?).map Json.kind =
      some .null := by decide +kernel
  have hescapes : Escapes (Utf8.encode nullCrates) (.notIterable .null) := by
    cases hread : Json.read .lenient nullCrates with
    | error failure => simp [hread, Except.toOption] at hkind
    | ok document =>
      obtain ⟨v, hv, hnull⟩ : ∃ v, listed? document = some v ∧ v.kind = .null := by
        simpa [hread, Except.toOption] using hkind
      rw [← hnull]
      exact .notIterable htext hread hv (by simp [Atomic, hnull])
  obtain ⟨-, -, hsent⟩ := run_answered_or_escapes ⟨"serde", defaultPerPage, defaultTimeout⟩
    (answering nullCrates) []
  exact ((hsent hwritable).2 _ rfl).2.2.2.1 _ hescapes

end CargoReport.Search
