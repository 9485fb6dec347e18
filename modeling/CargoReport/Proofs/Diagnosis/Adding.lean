import CargoReport.Diagnosis
import CargoReport.Proofs.Action
import CargoReport.Proofs.Text

namespace CargoReport

/-- Lines and columns one digit shorter than what can be printed: counted from zero, they can. -/
def Span.Short (s : Span) : Prop :=
  ∀ z ∈ [s.lineStart, s.lineEnd, s.columnStart, s.columnEnd],
    Decimal.digitCount z < Decimal.maxDigits

instance (s : Span) : Decidable s.Short := inferInstanceAs (Decidable (∀ _ ∈ _, _))

def Record.Short : Record → Prop
  | .other _ => True
  | .message m => ∀ s ∈ m.spans, s.Short

instance : (r : Record) → Decidable r.Short
  | .other _ => isTrue trivial
  | .message m => inferInstanceAs (Decidable (∀ s ∈ m.spans, s.Short))

namespace Diagnosis

section Quiet

open CargoReport.Action

theorem quiet_add (x : Diagnostic) : (add x).Quiet := by
  apply quiet_state.bind
  intro d
  split
  · split
    · exact (quiet_note _).bind (fun _ => quiet_pure _)
    · exact quiet_stop _
  · exact (quiet_put _).bind (fun _ => quiet_pure _)

theorem quiet_addRecord (base : Base) (r : Record) : (addRecord base r).Quiet := by
  cases r with
  | other reason => exact quiet_pure ()
  | message m =>
    apply Quiet.forM
    intro span
    apply Quiet.forM
    intro node
    exact (quiet_add _).bind (fun _ => quiet_pure ())

theorem quiet_aggregate (base : Base) (records : List Record) :
    (aggregate base records).Quiet := by
  unfold aggregate found
  apply Quiet.zoom
  apply (Quiet.forM (quiet_addRecord base) records).bind
  intro _
  exact quiet_state.bind (fun _ => quiet_pure _)

end Quiet

/-- A message of a tree at a span of the root of the tree. -/
def placement (base : Base) (span : Span) (node : Message) : Diagnostic where
  path := base.resolve span.fileName
  range := ⟨⟨span.lineStart - 1, span.columnStart - 1⟩, ⟨span.lineEnd - 1, span.columnEnd - 1⟩⟩
  message := Diagnostic.shownText node span
  severity := .ofLevel node.level
  code := node.code.map (·.code)
  source := "cargo"

def placementsOf (base : Base) : Record → List Diagnostic
  | .other _ => []
  | .message root => root.spans.flatMap fun span => root.preorder.map (placement base span)

/-- What a pass over records tries to add, in order. -/
def placements (base : Base) (records : List Record) : List Diagnostic :=
  records.flatMap (placementsOf base)

theorem placements_append (base : Base) (rs rs' : List Record) :
    placements base (rs ++ rs') = placements base rs ++ placements base rs' :=
  List.flatMap_append

/-- Adds diagnostics in order, however each addition comes out. -/
def addAll (ds : List Diagnostic) : Action Diagnosis Unit :=
  forM ds fun x => do
    let _ ← add x

@[simp] theorem addAll_nil : addAll [] = pure () := rfl

theorem addAll_cons (x : Diagnostic) (ds : List Diagnostic) :
    addAll (x :: ds) = (add x >>= fun _ => addAll ds) := by
  simp [addAll]

theorem addAll_append (ds es : List Diagnostic) :
    addAll (ds ++ es) = (addAll ds >>= fun _ => addAll es) := by
  induction ds with
  | nil => simp
  | cons x ds ih => simp [addAll_cons, ih]

/-- Additions that come in groups are the additions of all groups in a row. -/
theorem forM_addAll {α : Type} (f : α → List Diagnostic) (as : List α) :
    (forM as fun a => addAll (f a)) = addAll (as.flatMap f) := by
  induction as with
  | nil => rfl
  | cons a as ih =>
    rw [List.flatMap_cons, addAll_append, ← ih]
    simp

/-- The walk through a tree adds its messages in preorder, whatever the file, range and span. -/
theorem place_eq_addAll (path : Path) (range : Range) (span : Span) (m : Message) :
    place path range span m = addAll (m.preorder.map (.ofMessage path range span)) := by
  rw [place, Message.walk_eq_preorder, addAll, List.forM_map]

theorem place_eq (base : Base) (span : Span) (m : Message) :
    place (base.resolve span.fileName) (.ofSpan span) span m =
      addAll (m.preorder.map (placement base span)) :=
  place_eq_addAll _ _ span m

theorem addRecord_eq (base : Base) (r : Record) :
    addRecord base r = addAll (placementsOf base r) := by
  cases r with
  | other reason => rfl
  | message m =>
    rw [addRecord, placementsOf, ← forM_addAll]
    simp only [place_eq]

theorem addRecords_eq (base : Base) (records : List Record) :
    addRecords base records = addAll (placements base records) := by
  have h : addRecord base = fun r => addAll (placementsOf base r) :=
    funext (addRecord_eq base)
  rw [addRecords, h, forM_addAll, placements]

/-- The diagnosis after a diagnostic was added or dropped. -/
def keep (d : Diagnosis) (x : Diagnostic) : Diagnosis := if d.Seen x then d else d.insert x

/-- The notices of those that are dropped. -/
def dropped (d : Diagnosis) : List Diagnostic → List Notice
  | [] => []
  | x :: ds =>
    (if d.Seen x then [.duplicate x.path x.range] else []) ++ dropped (d.keep x) ds

theorem run_add_of_not_seen {d : Diagnosis} {x : Diagnostic} (h : ¬d.Seen x)
    (earlier : List Call) : (add x).run earlier d = ⟨.ok true, d.insert x, [], []⟩ := by
  simp [add, Action.run, Action.state, Action.put, bind, pure, h]

theorem run_add_of_seen {d : Diagnosis} {x : Diagnostic} (h : d.Seen x)
    (hp : x.range.Printable) (earlier : List Call) :
    (add x).run earlier d = ⟨.ok false, d, [.duplicate x.path x.range], []⟩ := by
  simp [add, Action.run, Action.state, Action.note, bind, pure, h, hp]

/-- Adding diagnostics with printable ranges never stops. -/
theorem run_addAll (d : Diagnosis) (ds : List Diagnostic)
    (h : ∀ x ∈ ds, x.range.Printable) (earlier : List Call) :
    (addAll ds).run earlier d = ⟨.ok (), ds.foldl keep d, dropped d ds, []⟩ := by
  induction ds generalizing d with
  | nil => rfl
  | cons x ds ih =>
    have hx : x.range.Printable := h x (by simp)
    have hds := ih (d.keep x) (fun y hy => h y (List.mem_cons_of_mem x hy))
    rw [addAll_cons, List.foldl_cons, dropped]
    by_cases hs : d.Seen x
    · have hk : d.keep x = d := if_pos hs
      have hadd := run_add_of_seen hs hx earlier
      rw [Action.run_bind_of_ok (a := false) (by rw [hadd])]
      rw [hk] at hds ⊢
      simp [hadd, hds, hs]
    · have hk : d.keep x = d.insert x := if_neg hs
      have hadd := run_add_of_not_seen hs earlier
      rw [Action.run_bind_of_ok (a := true) (by rw [hadd])]
      rw [hk] at hds ⊢
      simp [hadd, hds, hs]

theorem run_found {x : Action Diagnosis Unit} {earlier : List Call} {d : Diagnosis}
    {notices : List Notice} {calls : List Call}
    (h : x.run earlier empty = ⟨.ok (), d, notices, calls⟩) :
    (found x).run earlier () = ⟨.ok d.files, (), notices, calls⟩ := by
  have hx : x earlier empty = ⟨.ok (), d, notices, calls⟩ := h
  simp [found, Action.run, Action.zoom, Action.state, bind, pure, hx]

theorem printable_of_short {s : Span} (h : s.Short) (base : Base) (node : Message) :
    (placement base s node).range.Printable := by
  have hz : ∀ z : Int, Decimal.digitCount z < Decimal.maxDigits → Decimal.Printable (z - 1) := by
    intro z hz
    exact Nat.le_trans (Decimal.digitCount_sub_one_le z) hz
  intro z hmem
  simp only [placement, Range.coordinates, List.mem_cons, List.not_mem_nil, or_false] at hmem
  rcases hmem with rfl | rfl | rfl | rfl
  all_goals exact hz _ (h _ (by simp))

theorem printable_of_mem_placements {records : List Record} (h : ∀ r ∈ records, r.Short)
    (base : Base) : ∀ x ∈ placements base records, x.range.Printable := by
  intro x hx
  obtain ⟨r, hr, hx⟩ := List.mem_flatMap.mp hx
  have hshort := h r hr
  cases r with
  | other reason => simp [placementsOf] at hx
  | message m =>
    obtain ⟨s, hs, hx⟩ := List.mem_flatMap.mp hx
    obtain ⟨node, -, rfl⟩ := List.mem_map.mp hx
    exact printable_of_short (hshort s hs) base node

end Diagnosis
end CargoReport
