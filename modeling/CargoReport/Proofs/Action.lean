import CargoReport.Action

namespace CargoReport.Action

variable {σ τ α β : Type}

theorem run_ofExcept (r : Except Fault α) (earlier : List Call) (s : σ) :
    (ofExcept r).run earlier s = ⟨r, s, [], []⟩ := by
  cases r <;> rfl

theorem run_map (f : α → β) (x : Action σ α) (earlier : List Call) (s : σ) :
    (f <$> x).run earlier s =
      let done := x.run earlier s
      ⟨done.result.map f, done.state, done.notices, done.calls⟩ := by
  rw [map_eq_pure_bind]
  cases hr : (x.run earlier s).result with
  | error fault =>
    rw [run_bind_of_error hr]
    simp [hr, Except.map]
  | ok a =>
    rw [run_bind_of_ok hr]
    simp [hr, Except.map]

theorem run_map_of_error (f : α → β) {x : Action σ α} {earlier calls : List Call} {s s' : σ}
    {fault : Fault} {notices : List Notice}
    (h : x.run earlier s = ⟨.error fault, s', notices, calls⟩) :
    (f <$> x).run earlier s = ⟨.error fault, s', notices, calls⟩ := by
  rw [run_map, h]
  rfl

theorem bind_of_ok {x : Action σ α} {f : α → Action σ β} {earlier calls : List Call} {s s' : σ}
    {a : α} (hr : (x.run earlier s).result = .ok a) (hs : (x.run earlier s).state = s')
    (hc : (x.run earlier s).calls = calls) :
    let rest := (f a).run (earlier ++ calls) s'
    let done := (x >>= f).run earlier s
    done.result = rest.result ∧ done.state = rest.state ∧ done.calls = calls ++ rest.calls := by
  subst hs hc
  rw [run_bind_of_ok hr]
  exact ⟨rfl, rfl, rfl⟩

theorem bind_of_error {x : Action σ α} {f : α → Action σ β} {earlier calls : List Call} {s s' : σ}
    {fault : Fault} (hr : (x.run earlier s).result = .error fault)
    (hs : (x.run earlier s).state = s') (hc : (x.run earlier s).calls = calls) :
    let done := (x >>= f).run earlier s
    done.result = .error fault ∧ done.state = s' ∧ done.calls = calls := by
  subst hs hc
  rw [run_bind_of_error hr]
  exact ⟨rfl, rfl, rfl⟩

/-- An action that makes no calls leaves the ones before the next action as they were. -/
theorem run_bind_of_no_calls {x : Action σ α} {f : α → Action σ β} {earlier : List Call} {s s' : σ}
    {a : α} {notices : List Notice} {rest : Outcome σ β}
    (hx : x.run earlier s = ⟨.ok a, s', notices, []⟩) (hf : (f a).run earlier s' = rest) :
    (x >>= f).run earlier s = ⟨rest.result, rest.state, notices ++ rest.notices, rest.calls⟩ := by
  rw [run_bind_of_ok (a := a) (by rw [hx])]
  simp only [hx, hf, List.append_nil, List.nil_append]

theorem run_forM_note (f : α → Notice) (as : List α) (earlier : List Call) (s : σ) :
    (forM as fun a => note (f a)).run earlier s = ⟨.ok (), s, as.map f, []⟩ := by
  induction as with
  | nil => rfl
  | cons a as ih =>
    rw [List.forM_cons, run_bind_of_no_calls (run_note (f a) earlier s) ih]
    rfl

def Quiet (x : Action σ α) : Prop :=
  ∀ (earlier : List Call) (s : σ), x.run earlier s = x.run [] s ∧ (x.run [] s).calls = []

theorem quiet_pure (a : α) : (pure a : Action σ α).Quiet := fun _ _ => ⟨rfl, rfl⟩

theorem quiet_stop (fault : Fault) : (stop fault : Action σ α).Quiet := fun _ _ => ⟨rfl, rfl⟩

theorem quiet_ofExcept (r : Except Fault α) : (ofExcept r : Action σ α).Quiet :=
  fun _ _ => ⟨by rw [run_ofExcept, run_ofExcept], by rw [run_ofExcept]⟩

theorem quiet_note (notice : Notice) : (note notice : Action σ Unit).Quiet :=
  fun _ _ => ⟨rfl, rfl⟩

theorem quiet_state : (state : Action σ σ).Quiet := fun _ _ => ⟨rfl, rfl⟩

theorem quiet_put (s : σ) : (put s).Quiet := fun _ _ => ⟨rfl, rfl⟩

theorem Quiet.bind {x : Action σ α} {f : α → Action σ β} (hx : x.Quiet) (hf : ∀ a, (f a).Quiet) :
    (x >>= f).Quiet := by
  intro earlier s
  obtain ⟨hsame, hnone⟩ := hx earlier s
  cases hr : (x.run [] s).result with
  | error fault =>
    have hstop : (x.run earlier s).result = .error fault := by rw [hsame, hr]
    rw [run_bind_of_error hstop, run_bind_of_error hr, hsame]
    exact ⟨rfl, hnone⟩
  | ok a =>
    obtain ⟨hsame', hnone'⟩ := hf a earlier (x.run [] s).state
    rw [run_bind_of_ok (a := a) (by rw [hsame, hr]), run_bind_of_ok hr, hsame]
    simp only [hnone, List.append_nil, List.nil_append]
    rw [hsame']
    exact ⟨rfl, hnone'⟩

theorem Quiet.forM {f : α → Action σ Unit} (hf : ∀ a, (f a).Quiet) (as : List α) :
    (as.forM f).Quiet := by
  induction as with
  | nil => exact quiet_pure ()
  | cons a as ih =>
    rw [List.forM_eq_forM, List.forM_cons]
    exact (hf a).bind (fun _ => ih)

theorem Quiet.zoom {x : Action τ α} (hx : x.Quiet) (view : σ → τ) (update : σ → τ → σ) :
    (x.zoom view update).Quiet := by
  intro earlier s
  obtain ⟨hsame, hnone⟩ := hx earlier (view s)
  simp only [run] at hsame hnone
  simp only [run, Action.zoom, hsame, hnone, and_self]

/-- What follows quietly adds no call. -/
theorem calls_bind_of_quiet (x : Action σ α) {f : α → Action σ β} (hf : ∀ a, (f a).Quiet)
    (earlier : List Call) (s : σ) :
    ((x >>= f).run earlier s).calls = (x.run earlier s).calls := by
  cases hr : (x.run earlier s).result with
  | error fault => rw [run_bind_of_error hr]
  | ok a =>
    obtain ⟨hsame, hnone⟩ := hf a (earlier ++ (x.run earlier s).calls) (x.run earlier s).state
    rw [run_bind_of_ok hr]
    simp only [hsame, hnone, List.append_nil]

variable {R : σ → σ → Prop}

def Moves (R : σ → σ → Prop) (x : Action σ α) : Prop :=
  ∀ (earlier : List Call) (s : σ), R s (x.run earlier s).state

section Reflexive

variable (hrefl : ∀ s, R s s)
include hrefl

theorem moves_pure (a : α) : (pure a : Action σ α).Moves R := fun _ s => hrefl s

theorem moves_stop (fault : Fault) : (stop fault : Action σ α).Moves R := fun _ s => hrefl s

theorem moves_note (notice : Notice) : (note notice : Action σ Unit).Moves R := fun _ s => hrefl s

theorem moves_state : (state : Action σ σ).Moves R := fun _ s => hrefl s

end Reflexive

theorem Moves.bind (htrans : ∀ ⦃s t u⦄, R s t → R t u → R s u) {x : Action σ α}
    {f : α → Action σ β} (hx : x.Moves R) (hf : ∀ a, (f a).Moves R) : (x >>= f).Moves R := by
  intro earlier s
  have hfirst := hx earlier s
  cases hr : (x.run earlier s).result with
  | error fault =>
    rw [run_bind_of_error hr]
    exact hfirst
  | ok a =>
    rw [run_bind_of_ok hr]
    exact htrans hfirst (hf a _ _)

theorem Moves.forM (hrefl : ∀ s, R s s) (htrans : ∀ ⦃s t u⦄, R s t → R t u → R s u)
    {f : α → Action σ Unit} (hf : ∀ a, (f a).Moves R) (as : List α) : (forM as f).Moves R := by
  induction as with
  | nil => exact moves_pure hrefl ()
  | cons a as ih =>
    rw [List.forM_cons]
    exact (hf a).bind htrans (fun _ => ih)

theorem Moves.attempt {x : Action σ α} (hx : x.Moves R) : (attempt x).Moves R := hx

/-- Work on a part of a larger state moves the whole as it moves the part. -/
theorem Moves.zoom {S : τ → τ → Prop} {x : Action τ α} (hx : x.Moves S) {view : σ → τ}
    {update : σ → τ → σ} (h : ∀ s t, S (view s) t → R s (update s t)) :
    (x.zoom view update).Moves R :=
  fun earlier s => h s _ (hx earlier (view s))

end CargoReport.Action
