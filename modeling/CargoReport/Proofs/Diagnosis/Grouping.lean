import CargoReport.Proofs.Diagnosis.Adding
import CargoReport.Proofs.FirstOfEach
import CargoReport.Proofs.Table

namespace CargoReport

namespace Diagnosis

/-- The diagnostics of a file: the first of each key. -/
def firsts (ds : List Diagnostic) (path : Path) : List Diagnostic :=
  firstOfEach Diagnostic.key (ds.filter fun x => x.path = path)

/-- The files in the order in which they come first, each with its diagnostics. -/
def grouped (ds : List Diagnostic) : List (Path × List Diagnostic) :=
  (firstOfEach id (ds.map (·.path))).map fun path => (path, firsts ds path)

/-- What a diagnosis holds after diagnostics were added to the empty one. -/
structure Holds (d : Diagnosis) (ds : List Diagnostic) : Prop where
  entries : d.files.entries = grouped ds
  seen : ∀ x : Diagnostic, d.Seen x ↔ ∃ y ∈ ds, y.path = x.path ∧ y.key = x.key

theorem key_mem_filter (ds : List Diagnostic) (path : Path) (k : Diagnostic.Key) :
    k ∈ (ds.filter fun x => x.path = path).map Diagnostic.key ↔
      ∃ y ∈ ds, y.path = path ∧ y.key = k := by
  simp [List.mem_map, List.mem_filter, and_assoc]

theorem firsts_append_singleton (ds : List Diagnostic) (x : Diagnostic) (path : Path) :
    firsts (ds ++ [x]) path =
      if x.path = path ∧ ¬∃ y ∈ ds, y.path = path ∧ y.key = x.key
      then firsts ds path ++ [x] else firsts ds path := by
  by_cases hp : x.path = path
  · have hf : [x].filter (fun y => y.path = path) = [x] := by simp [hp]
    have hm := key_mem_filter ds path x.key
    rw [firsts, List.filter_append, hf, firstOfEach_append_singleton]
    by_cases hs : ∃ y ∈ ds, y.path = path ∧ y.key = x.key
    · rw [if_pos (hm.mpr hs), if_neg (fun h => h.2 hs), firsts]
    · rw [if_neg (fun h => hs (hm.mp h)), if_pos ⟨hp, hs⟩, firsts]
  · have hf : [x].filter (fun y => y.path = path) = [] := by simp [hp]
    rw [firsts, List.filter_append, hf, List.append_nil, if_neg (fun h => hp h.1), firsts]

theorem firsts_eq_nil {ds : List Diagnostic} {path : Path} (h : path ∉ ds.map (·.path)) :
    firsts ds path = [] := by
  have hf : ds.filter (fun x => x.path = path) = [] := by
    rw [List.filter_eq_nil_iff]
    intro x hx hp
    exact h (List.mem_map.mpr ⟨x, hx, of_decide_eq_true hp⟩)
  rw [firsts, hf, firstOfEach]

theorem Holds.get? {d : Diagnosis} {ds : List Diagnostic} (h : d.Holds ds) (path : Path) :
    d.files.get? path = if path ∈ ds.map (·.path) then some (firsts ds path) else none := by
  rw [Table.get?, h.entries, grouped, Table.lookup_map_pair]
  by_cases hm : path ∈ ds.map (·.path)
  · rw [if_pos hm, if_pos ((mem_firstOfEach_id _ _).mpr hm)]
  · rw [if_neg hm, if_neg (mt (mem_firstOfEach_id _ _).mp hm)]

theorem Holds.get {d : Diagnosis} {ds : List Diagnostic} (h : d.Holds ds) (path : Path) :
    d.get path = firsts ds path := by
  rw [Diagnosis.get, h.get?]
  by_cases hm : path ∈ ds.map (·.path)
  · rw [if_pos hm, Option.getD_some]
  · rw [if_neg hm, Option.getD_none, firsts_eq_nil hm]

theorem holds_empty : empty.Holds [] := by
  refine ⟨rfl, ?_⟩
  intro x
  simp [Seen, empty]

/-- A diagnostic whose key is there already changes nothing. -/
theorem Holds.append_of_seen {d : Diagnosis} {ds : List Diagnostic} (h : d.Holds ds)
    {x : Diagnostic} (hs : d.Seen x) : d.Holds (ds ++ [x]) := by
  obtain ⟨y, hy, hp, hk⟩ := (h.seen x).mp hs
  have hmem : x.path ∈ firstOfEach id (ds.map (·.path)) := by
    rw [mem_firstOfEach_id, ← hp]
    exact List.mem_map_of_mem hy
  have hfirsts : ∀ path, firsts (ds ++ [x]) path = firsts ds path := by
    intro path
    rw [firsts_append_singleton, if_neg]
    rintro ⟨rfl, hno⟩
    exact hno ⟨y, hy, hp, hk⟩
  constructor
  · rw [h.entries, grouped, grouped, List.map_append, List.map_singleton,
      firstOfEach_id_append_singleton, if_pos hmem]
    simp only [hfirsts]
  · intro z
    rw [h.seen z]
    constructor
    · rintro ⟨w, hw, hz⟩
      exact ⟨w, List.mem_append_left _ hw, hz⟩
    · rintro ⟨w, hw, hz⟩
      rcases List.mem_append.mp hw with hw | hw
      · exact ⟨w, hw, hz⟩
      · rw [List.mem_singleton] at hw
        subst hw
        exact ⟨y, hy, hp.trans hz.1, hk.trans hz.2⟩

theorem Holds.insert {d : Diagnosis} {ds : List Diagnostic} (h : d.Holds ds) {x : Diagnostic}
    (hs : ¬ d.Seen x) : (d.insert x).Holds (ds ++ [x]) := by
  have hfirsts : ∀ path, firsts (ds ++ [x]) path =
      if path = x.path then firsts ds x.path ++ [x] else firsts ds path := by
    intro path
    rw [firsts_append_singleton]
    by_cases hp : path = x.path
    · subst hp
      rw [if_pos rfl, if_pos ⟨rfl, fun hy => hs ((h.seen x).mpr hy)⟩]
    · rw [if_neg hp, if_neg (fun hx => hp hx.1.symm)]
  constructor
  · -- The table writes at the place of the file, or at the end: where `grouped` has it.
    change Table.write x.path (d.get x.path ++ [x]) d.files.entries = _
    rw [h.get, h.entries, grouped, Table.write_map_pair _ _ (nodup_firstOfEach_id _), grouped,
      List.map_append, List.map_singleton, firstOfEach_id_append_singleton]
    simp only [hfirsts]
  · intro z
    rw [seen_insert, h.seen z]
    simp only [List.mem_append, List.mem_singleton, or_and_right, exists_or, exists_eq_left]
    rw [or_comm]
    simp only [eq_comm]

theorem Holds.keep {d : Diagnosis} {ds : List Diagnostic} (h : d.Holds ds) (x : Diagnostic) :
    (d.keep x).Holds (ds ++ [x]) := by
  by_cases hs : d.Seen x
  · rw [Diagnosis.keep, if_pos hs]
    exact h.append_of_seen hs
  · rw [Diagnosis.keep, if_neg hs]
    exact h.insert hs

theorem Holds.foldl_keep {d : Diagnosis} {ds : List Diagnostic} (h : d.Holds ds)
    (es : List Diagnostic) : (es.foldl Diagnosis.keep d).Holds (ds ++ es) := by
  -- What was added before moves from the list into the diagnosis, so both vary in the induction.
  induction es generalizing d ds with
  | nil => simpa using h
  | cons x es ih =>
    have hx := ih (h.keep x)
    simpa using hx

theorem holds_foldl_keep (ds : List Diagnostic) : (ds.foldl Diagnosis.keep empty).Holds ds :=
  holds_empty.foldl_keep ds

/-- A pass over records gives its placements grouped by file, the first of each key. It makes no
calls and cannot fail. -/
theorem aggregate_eq_grouped (base : Base) (records : List Record)
    (h : ∀ r ∈ records, r.Short) (earlier : List Call) :
    ∃ files notices,
      (aggregate base records).run earlier () = ⟨.ok files, (), notices, []⟩ ∧
        files.entries = grouped (placements base records) := by
  have hrun := run_addAll empty (placements base records)
    (printable_of_mem_placements h base) earlier
  refine ⟨((placements base records).foldl Diagnosis.keep empty).files,
    dropped empty (placements base records), ?_, (holds_foldl_keep _).entries⟩
  rw [aggregate, addRecords_eq]
  exact run_found hrun

/-- A warning at two files, of which one is named in two ways, with a help below it. -/
def unusedImport : Message where
  level := "warning"
  message := "unused import"
  rendered := none
  code := some ⟨"unused_imports", none⟩
  spans := [spanIn "src/lib.rs", spanIn "/std/vec.rs", spanIn "./src/../src/lib.rs"]
  children := [⟨"help", "remove it", none, none, [spanIn "src/main.rs"], []⟩]
where
  spanIn (fileName : Text) : Span := ⟨fileName, 3, 3, 5, 10, 40, 45, true, none⟩

theorem aggregate_eq_grouped_unusedImport :
    (∀ r ∈ [Record.message unusedImport, .other none, .message unusedImport], r.Short) ∧
      ∃ files notices,
        (aggregate ⟨.ofText "/", .ofText "/ws"⟩
          [.message unusedImport, .other none, .message unusedImport]).run [] () =
            ⟨.ok files, (), notices, []⟩ ∧
        files.entries.map (fun entry => (entry.1.text, entry.2.map (·.message))) =
          ([("/ws/src/lib.rs", ["warning: unused import", "help: remove it"]),
            ("/std/vec.rs", ["warning: unused import", "help: remove it"])] :
              List (Text × List Text)) := by
  have hshort : ∀ r ∈ [Record.message unusedImport, .other none, .message unusedImport],
      r.Short := by decide +kernel
  obtain ⟨files, notices, hrun, hfiles⟩ :=
    aggregate_eq_grouped ⟨.ofText "/", .ofText "/ws"⟩ _ hshort []
  refine ⟨hshort, files, notices, hrun, ?_⟩
  rw [hfiles]
  decide +kernel

end Diagnosis
end CargoReport
