import CargoReport.Proofs.Diagnosis.Growing
import CargoReport.Proofs.Path

namespace CargoReport

/-- The spans at which the message of a record is placed. -/
def Record.spans : Record → List Span
  | .other _ => []
  | .message m => m.spans

section SameFirsts

variable {α κ : Type} [DecidableEq κ]

theorem firstOfEach_append_congr {l l' m m' : List κ}
    (hl : firstOfEach id l = firstOfEach id l') (hm : firstOfEach id m = firstOfEach id m') :
    firstOfEach id (l ++ m) = firstOfEach id (l' ++ m') := by
  have hmem : ∀ k, k ∈ l ↔ k ∈ l' := by
    intro k
    rw [← mem_firstOfEach_id, hl, mem_firstOfEach_id]
  rw [firstOfEach_append, firstOfEach_append, hl, hm]
  simp only [List.map_id, id_eq, hmem]

theorem firstOfEach_flatMap_congr {f g : α → List κ} (l : List α)
    (h : ∀ a ∈ l, firstOfEach id (f a) = firstOfEach id (g a)) :
    firstOfEach id (l.flatMap f) = firstOfEach id (l.flatMap g) := by
  induction l with
  | nil => rfl
  | cons a rest ih =>
    obtain ⟨ha, hrest⟩ := List.forall_mem_cons.mp h
    exact firstOfEach_append_congr ha (ih hrest)

/-- An element that is repeated counts once. -/
theorem firstOfEach_map_const {l : List α} (hl : l ≠ []) (k : κ) :
    firstOfEach id (l.map fun _ => k) = [k] := by
  obtain ⟨a, rest, rfl⟩ := List.exists_cons_of_ne_nil hl
  rw [List.map_cons, firstOfEach]
  congr 1
  rw [List.filter_eq_nil_iff]
  intro l hl
  obtain ⟨_, -, rfl⟩ := List.mem_map.mp (mem_of_mem_firstOfEach hl)
  simp

end SameFirsts

theorem Message.preorder_ne_nil (m : Message) : m.preorder ≠ [] := by
  obtain ⟨_, _, _, _, _, _⟩ := m
  simp [Message.preorder]

namespace Diagnosis

theorem state_addAll_of_ok {ds : List Diagnostic} {earlier : List Call} {d : Diagnosis}
    (h : ((addAll ds).run earlier d).result = .ok ()) :
    ((addAll ds).run earlier d).state = ds.foldl keep d := by
  induction ds generalizing earlier d with
  | nil => rfl
  | cons x ds ih =>
    rw [addAll_cons] at h ⊢
    cases hx : ((add x).run earlier d).result with
    | error fault =>
      rw [Action.run_bind_of_error hx] at h
      cases h
    | ok b =>
      rw [Action.run_bind_of_ok hx] at h ⊢
      simp only [(run_add x earlier d).2] at h ⊢
      exact ih h

theorem result_found_eq_ok {x : Action Diagnosis Unit} {earlier : List Call} {files : Files}
    (h : ((found x).run earlier ()).result = .ok files) :
    (x.run earlier empty).result = .ok () ∧ (x.run earlier empty).state.files = files := by
  rcases hx : x earlier empty with ⟨fault | _, d, notices, calls⟩
  · simp [found, Action.run, Action.zoom, bind, hx] at h
  · have hfiles : d.files = files := by
      simpa [found, Action.run, Action.zoom, Action.state, bind, pure, hx] using h
    simp [Action.run, hx, hfiles]

theorem holds_of_result_aggregate {base : Base} {records : List Record} {earlier : List Call}
    {files : Files} (h : ((aggregate base records).run earlier ()).result = .ok files) :
    ∃ d : Diagnosis, d.Holds (placements base records) ∧ d.files = files := by
  rw [aggregate, addRecords_eq] at h
  obtain ⟨hok, hfiles⟩ := result_found_eq_ok h
  rw [state_addAll_of_ok hok] at hfiles
  exact ⟨_, holds_foldl_keep _, hfiles⟩

theorem firsts_paths_placements (base : Base) (records : List Record) :
    firstOfEach id ((placements base records).map (·.path)) =
      firstOfEach id ((records.flatMap Record.spans).map fun s => base.resolve s.fileName) := by
  rw [placements, List.map_flatMap, List.map_flatMap]
  apply firstOfEach_flatMap_congr
  intro r _
  cases r with
  | other reason => rfl
  | message m =>
    rw [placementsOf, List.map_flatMap, Record.spans, List.map_eq_flatMap]
    apply firstOfEach_flatMap_congr
    intro s _
    -- All messages of a tree are placed in the file of the span.
    have hpaths : (m.preorder.map (placement base s)).map (·.path) =
        m.preorder.map fun _ => base.resolve s.fileName := List.map_map
    rw [hpaths, firstOfEach_map_const m.preorder_ne_nil]
    rfl

theorem keys_of_result_aggregate {current : Text} (h : Path.Rooted current) {root : Text}
    {records : List Record} {earlier : List Call} {files : Files}
    (hfiles : ((aggregate ⟨.ofText current, .ofText root⟩ records).run earlier ()).result =
      .ok files) :
    files.keys = firstOfEach id
      ((records.flatMap Record.spans).map fun s => Path.lexical current root s.fileName) := by
  obtain ⟨d, hd, rfl⟩ := holds_of_result_aggregate hfiles
  rw [hd.keys, firsts_paths_placements]
  simp only [Base.resolve, Path.resolve_ofText h]

/-- File names are resolved as their texts are read: the names in them one after the other, up and
down from the root. What comes out is canonical, starts with one slash unless its root was two, and
is what its own text leads to from anywhere. So the files that a pass answers for are canonical, and
each place that a span names is one file, however its name is spelled. -/
theorem files_located_lexically (current root : Text) (h : Path.Rooted current) :
    (∀ fileName : Text,
      let p := Path.resolve (.ofText current) (.ofText root) fileName
      let first := (Path.route current root fileName).headD []
      p = Path.lexical current root fileName ∧ p.Canonical ∧
      p.text = p.root.text ++ List.intercalate [Path.slash] p.names ∧
      (p.text.takeWhile (· = Path.slash)).length =
        (if (first.takeWhile (· = Path.slash)).length = 2 then 2 else 1) ∧
      ∀ current' root' : Path, Path.resolve current' root' p.text = p) ∧
    ∀ (records : List Record) (earlier : List Call) (files : Files),
      ((aggregate ⟨.ofText current, .ofText root⟩ records).run earlier ()).result = .ok files →
      let places := (records.flatMap Record.spans).map fun s =>
        Path.lexical current root s.fileName
      (∀ path ∈ files.keys, path.Canonical) ∧ files.keys = firstOfEach id places ∧
      ∀ place ∈ places, ∃! entry, entry ∈ files.entries ∧ entry.1.text = place.text := by
  constructor
  · intro fileName p first
    have hp : p = Path.lexical current root fileName := Path.resolve_ofText h root fileName
    have hcanonical : p.Canonical := hp ▸ Path.canonical_lexical current root fileName
    refine ⟨hp, hcanonical, hcanonical.text_eq, ?_, hcanonical.resolve_text⟩
    rw [hcanonical.takeWhile_text, hp, Path.lexical, Path.leading]
    split <;> rfl
  · intro records earlier files hfiles places
    have hkeys : files.keys = firstOfEach id places := keys_of_result_aggregate h hfiles
    have hcanonical : ∀ path ∈ files.keys, path.Canonical := by
      intro path hpath
      rw [hkeys, mem_firstOfEach_id] at hpath
      obtain ⟨s, -, rfl⟩ := List.mem_map.mp hpath
      exact Path.canonical_lexical current root s.fileName
    refine ⟨hcanonical, hkeys, ?_⟩
    intro place hplace
    have hmem : place ∈ files.keys := by
      rw [hkeys, mem_firstOfEach_id]
      exact hplace
    obtain ⟨entry, hentry, rfl⟩ := List.mem_map.mp hmem
    refine ⟨entry, ⟨hentry, rfl⟩, ?_⟩
    rintro other ⟨hother, htext⟩
    -- The text of a canonical path leads back to it, so the paths are the same.
    have hpath : other.1 = entry.1 := by
      rw [← (hcanonical _ (List.mem_map_of_mem hother)).ofText_text, htext,
        (hcanonical _ hmem).ofText_text]
    exact List.inj_on_of_nodup_map files.nodup hother hentry hpath

theorem files_located_lexically_unusedImport :
    Path.Rooted "//home/u" ∧
      (Path.resolve (.ofText "//home/u") (.ofText "../ws") "./src/../../../../a//b/").text =
        ("//a/b" : Text) ∧
      ∃ files, ((aggregate ⟨.ofText "//home/u", .ofText "../ws"⟩
          [.message unusedImport]).run [] ()).result = .ok files ∧
        files.keys.map Path.text = ["//home/ws/src/lib.rs", "/std/vec.rs"] := by
  have hrooted : Path.Rooted "//home/u" := by decide
  obtain ⟨hresolve, hkeys⟩ := files_located_lexically "//home/u" "../ws" hrooted
  have hshort : ∀ r ∈ [Record.message unusedImport], r.Short := by decide +kernel
  obtain ⟨d, -, hfinds⟩ := exists_finds ⟨.ofText "//home/u", .ofText "../ws"⟩ hshort
  obtain ⟨notices, hrun⟩ := hfinds []
  have hok := congrArg Outcome.result hrun
  refine ⟨hrooted, ?_, d.files, hok, ?_⟩
  · rw [(hresolve _).1]
    decide +kernel
  · rw [(hkeys _ _ _ hok).2.1]
    decide +kernel

end Diagnosis
end CargoReport
