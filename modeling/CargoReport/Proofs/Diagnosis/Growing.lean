import CargoReport.Proofs.Diagnosis.Grouping
import CargoReport.Proofs.Message.Alike

namespace CargoReport.Diagnosis

theorem mem_firsts {ds : List Diagnostic} {path : Path} {x : Diagnostic} (h : x ∈ firsts ds path) :
    x.path = path := by
  have hx := mem_of_mem_firstOfEach h
  exact of_decide_eq_true (List.mem_filter.mp hx).2

theorem key_mem_firsts (ds : List Diagnostic) (path : Path) (k : Diagnostic.Key) :
    k ∈ (firsts ds path).map Diagnostic.key ↔ ∃ y ∈ ds, y.path = path ∧ y.key = k := by
  rw [firsts, mem_map_firstOfEach, key_mem_filter]

theorem firsts_ne_nil {ds : List Diagnostic} {path : Path} (h : path ∈ ds.map (·.path)) :
    firsts ds path ≠ [] := by
  obtain ⟨y, hy, hp⟩ := List.mem_map.mp h
  intro hnil
  have hkey := (key_mem_firsts ds path y.key).mpr ⟨y, hy, hp, rfl⟩
  rw [hnil] at hkey
  exact List.not_mem_nil hkey

theorem firsts_isPrefix (ds es : List Diagnostic) (path : Path) :
    firsts ds path <+: firsts (ds ++ es) path := by
  rw [firsts, firsts, List.filter_append]
  exact firstOfEach_isPrefix _ _ _

section Holds

variable {d : Diagnosis} {ds : List Diagnostic} (h : d.Holds ds)
include h

theorem Holds.keys : d.files.keys = firstOfEach id (ds.map (·.path)) := by
  rw [Table.keys, h.entries, grouped, List.map_map]
  exact List.map_id _

theorem Holds.mem_entries {path : Path} {l : List Diagnostic} (hm : (path, l) ∈ d.files.entries) :
    path ∈ ds.map (·.path) ∧ l = firsts ds path := by
  rw [h.entries, grouped, List.mem_map] at hm
  obtain ⟨p, hp, heq⟩ := hm
  cases heq
  exact ⟨(mem_firstOfEach_id _ _).mp hp, rfl⟩

theorem Holds.mem_seen (path : Path) (k : Diagnostic.Key) :
    (path, k) ∈ d.seen ↔ k ∈ (d.get path).map Diagnostic.key := by
  rw [h.get, key_mem_firsts]
  exact h.seen ⟨path, k.range, k.message, k.severity, k.code, []⟩

end Holds

/-- One diagnosis after another: it holds what the other does, and what was added since. -/
def Grows (d d' : Diagnosis) : Prop := ∀ ds, d.Holds ds → ∃ es, d'.Holds (ds ++ es)

theorem grows_refl (d : Diagnosis) : Grows d d := by
  intro ds h
  refine ⟨[], ?_⟩
  rwa [List.append_nil]

theorem Grows.trans ⦃d d' d'' : Diagnosis⦄ (h : Grows d d') (h' : Grows d' d'') :
    Grows d d'' := by
  intro ds hd
  obtain ⟨es, hd'⟩ := h ds hd
  obtain ⟨fs, hd''⟩ := h' _ hd'
  refine ⟨es ++ fs, ?_⟩
  rwa [← List.append_assoc]

/-- An addition always comes to the same, but it can only tell of a dropped diagnostic whose range
can be printed. -/
theorem run_add (x : Diagnostic) (earlier : List Call) (d : Diagnosis) :
    let done := (add x).run earlier d
    done.result = (if ¬d.Seen x then .ok true
      else if x.range.Printable then .ok false else .error .unprintable) ∧
    done.state = d.keep x := by
  intro done
  by_cases hs : d.Seen x
  · rw [if_neg (not_not_intro hs), keep, if_pos hs]
    by_cases hp : x.range.Printable
    · rw [if_pos hp, show done = _ from run_add_of_seen hs hp earlier]
      exact ⟨rfl, rfl⟩
    · rw [if_neg hp]
      simp [done, add, Action.run, Action.state, Action.stop, bind, hs, hp]
  · rw [if_pos hs, keep, if_neg hs, show done = _ from run_add_of_not_seen hs earlier]
    exact ⟨rfl, rfl⟩

theorem moves_add (x : Diagnostic) : (add x).Moves Grows := by
  intro earlier d ds h
  rw [(run_add x earlier d).2]
  exact ⟨[x], h.keep x⟩

theorem moves_place (path : Path) (range : Range) (span : Span) (m : Message) :
    (place path range span m).Moves Grows := by
  apply Action.Moves.forM grows_refl Grows.trans
  intro node
  exact (moves_add _).bind Grows.trans (fun _ => Action.moves_pure grows_refl ())

theorem moves_addRecord (base : Base) (r : Record) : (addRecord base r).Moves Grows := by
  cases r with
  | other reason => exact Action.moves_pure grows_refl ()
  | message m =>
    apply Action.Moves.forM grows_refl Grows.trans
    intro span
    exact moves_place _ _ span m

theorem moves_addRecords (base : Base) (records : List Record) :
    (addRecords base records).Moves Grows :=
  Action.Moves.forM grows_refl Grows.trans (moves_addRecord base) records

theorem moves_addReport (base : Base) (report : Report) : (addReport base report).Moves Grows := by
  apply Action.Moves.bind Grows.trans
  · apply Action.Moves.forM grows_refl Grows.trans
    intro line
    cases line with
    | blank => exact Action.moves_pure grows_refl ()
    | skipped why => exact Action.moves_note grows_refl _
    | record r => exact moves_addRecord base r
  · intro _
    cases report.stop with
    | none => exact Action.moves_pure grows_refl ()
    | some overlong => exact Action.moves_stop grows_refl _

/-- What can be done with a diagnosis. -/
inductive Operation where
  | add (x : Diagnostic)
  | addRecords (base : Base) (records : List Record)
  | addReport (base : Base) (report : Report)
  | addMessage (base : Base) (range : Range) (span : Span) (m : Message)
  | finish (c : Collection)

def Operation.perform : Operation → Action Diagnosis Unit
  | add x => do
    let _ ← Diagnosis.add x
  | addRecords base records => Diagnosis.addRecords base records
  | addReport base report => Diagnosis.addReport base report
  | addMessage base range span m => place (base.resolve span.fileName) range span m
  | finish c => do
    let d ← Action.state
    (Diagnosis.finish d).zoom (fun _ => c) (fun d _ => d)

/-- Operations in a row, each of them whatever the one before came to. -/
def performAll (ops : List Operation) : Action Diagnosis Unit :=
  forM ops fun op => do
    let _ ← Action.attempt op.perform

theorem moves_perform (op : Operation) : op.perform.Moves Grows := by
  cases op with
  | add x => exact (moves_add x).bind Grows.trans (fun _ => Action.moves_pure grows_refl ())
  | addRecords base records => exact moves_addRecords base records
  | addReport base report => exact moves_addReport base report
  | addMessage base range span m => exact moves_place _ range span m
  | finish c =>
    apply (Action.moves_state grows_refl).bind Grows.trans
    intro d
    have hany : (Diagnosis.finish d).Moves fun _ _ => True := fun _ _ => trivial
    exact hany.zoom (fun d _ _ => grows_refl d)

theorem moves_performAll (ops : List Operation) : (performAll ops).Moves Grows := by
  apply Action.Moves.forM grows_refl Grows.trans
  intro op
  exact (moves_perform op).attempt.bind Grows.trans (fun _ => Action.moves_pure grows_refl ())

/-- A new diagnosis after any operations, of which some may have stopped: no file is without
diagnostics, each has its own ones and no key twice, and the keys that were seen are those that are
there. Further operations put files after the files and diagnostics after the diagnostics of each.
An addition goes through if the file has no diagnostic with the key, and changes nothing else. -/
theorem performAll_only_appends (ops more : List Operation) (earlier later : List Call) :
    let d := ((performAll ops).run earlier empty).state
    let d' := ((performAll more).run later d).state
    (∀ path ds, (path, ds) ∈ d.files.entries →
      ds ≠ [] ∧ (∀ x ∈ ds, x.path = path) ∧ (ds.map Diagnostic.key).Nodup) ∧
    (∀ path k, (path, k) ∈ d.seen ↔ k ∈ (d.get path).map Diagnostic.key) ∧
    (d.files.keys <+: d'.files.keys ∧ ∀ path, d.get path <+: d'.get path) ∧
    ∀ x earlier,
      let done := (add x).run earlier d
      (done.result = .ok true ↔ ∀ y ∈ d.get x.path, y.key ≠ x.key) ∧
      (done.result = .ok true → done.state = d.insert x) ∧
      (done.result ≠ .ok true → done.state = d ∧
        done.result = if x.range.Printable then .ok false else .error .unprintable) := by
  intro d d'
  -- All is read off what was added: `ds` by the first operations, and `es` by those after them.
  obtain ⟨ds, hd⟩ : ∃ ds, d.Holds ds := moves_performAll ops earlier empty [] holds_empty
  obtain ⟨es, hd'⟩ : ∃ es, d'.Holds (ds ++ es) := moves_performAll more later d ds hd
  refine ⟨?_, hd.mem_seen, ⟨?_, ?_⟩, ?_⟩
  · intro path l hl
    obtain ⟨hpath, rfl⟩ := hd.mem_entries hl
    exact ⟨firsts_ne_nil hpath, fun x hx => mem_firsts hx, nodup_map_firstOfEach _ _⟩
  · rw [hd.keys, hd'.keys, List.map_append]
    exact firstOfEach_isPrefix _ _ _
  · intro path
    rw [hd.get, hd'.get]
    exact firsts_isPrefix ds es path
  · intro x earlier done
    obtain ⟨hresult, hstate⟩ := run_add x earlier d
    have hseen : ¬d.Seen x ↔ ∀ y ∈ d.get x.path, y.key ≠ x.key := by
      rw [Seen, hd.mem_seen]
      simp
    by_cases hs : d.Seen x
    · rw [if_neg (not_not_intro hs)] at hresult
      rw [keep, if_pos hs] at hstate
      have hno : done.result ≠ .ok true := by
        rw [show done.result = _ from hresult]
        split <;> simp
      exact ⟨iff_of_false hno (fun hall => hseen.mpr hall hs), fun hyes => absurd hyes hno,
        fun _ => ⟨hstate, hresult⟩⟩
    · rw [if_pos hs] at hresult
      rw [keep, if_neg hs] at hstate
      exact ⟨iff_of_true hresult (hseen.mp hs), fun _ => hstate, fun hno => absurd hresult hno⟩

end CargoReport.Diagnosis

namespace CargoReport

/-- Records of which the messages are related, or that have none and are the same. -/
inductive Record.Alike (R : Message → Message → Prop) : Record → Record → Prop
  | other (reason : Option Text) : Alike R (.other reason) (.other reason)
  | message {m m' : Message} : R m m' → Alike R (.message m) (.message m')

theorem Record.Alike.refl {R : Message → Message → Prop} (hR : ∀ m, R m m) (r : Record) :
    r.Alike R r := by
  cases r with
  | other reason => exact .other reason
  | message m => exact .message (hR m)

theorem Record.Alike.short {R : Message → Message → Prop}
    (hR : ∀ m m', R m m' → m'.spans ⊆ m.spans) {r r' : Record} (h : Alike R r r')
    (hr : r.Short) : r'.Short := by
  cases h with
  | other reason => exact hr
  | message hm => exact fun s hs => hr s (hR _ _ hm hs)

namespace Diagnosis

theorem run_addRecords (base : Base) {records : List Record} (h : ∀ r ∈ records, r.Short)
    (earlier : List Call) (d : Diagnosis) :
    (addRecords base records).run earlier d =
      ⟨.ok (), (placements base records).foldl keep d, dropped d (placements base records),
        []⟩ := by
  rw [addRecords_eq]
  exact run_addAll d _ (printable_of_mem_placements h base) earlier

/-- A pass over records comes to these files, whatever was called before it. -/
def Finds (base : Base) (records : List Record) (files : Files) : Prop :=
  ∀ earlier, ∃ notices, (aggregate base records).run earlier () = ⟨.ok files, (), notices, []⟩

theorem exists_finds (base : Base) {records : List Record} (h : ∀ r ∈ records, r.Short) :
    ∃ d : Diagnosis, d.Holds (placements base records) ∧ Finds base records d.files := by
  refine ⟨_, holds_foldl_keep (placements base records), ?_⟩
  intro earlier
  exact ⟨_, run_found (run_addRecords base h earlier empty)⟩

/-- What is placed of a message is read off the message alone. -/
theorem own_placement (base : Base) (s : Span) : Message.Own (placement base s) := fun _ _ _ => rfl

/-- The placements in a file. -/
def placementsAt (base : Base) (path : Path) (records : List Record) : List Diagnostic :=
  (placements base records).filter fun x => x.path = path

theorem mem_paths_iff_filter_ne_nil (ds : List Diagnostic) (path : Path) :
    path ∈ ds.map (·.path) ↔ ds.filter (fun x => x.path = path) ≠ [] := by
  rw [Ne, List.filter_eq_nil_iff, List.mem_map]
  push Not
  simp only [decide_eq_true_eq]

/-- A file is told by the diagnostics that were tried in it. -/
theorem Holds.get?_congr {d d' : Diagnosis} {ds ds' : List Diagnostic} (h : d.Holds ds)
    (h' : d'.Holds ds') {path : Path}
    (hsame : ds.filter (fun x => x.path = path) = ds'.filter fun x => x.path = path) :
    d.files.get? path = d'.files.get? path := by
  have hmem : path ∈ ds.map (·.path) ↔ path ∈ ds'.map (·.path) := by
    rw [mem_paths_iff_filter_ne_nil, mem_paths_iff_filter_ne_nil, hsame]
  have hfirsts : firsts ds path = firsts ds' path := by rw [firsts, firsts, hsame]
  rw [h.get?, h'.get?, hfirsts]
  simp only [hmem]

end Diagnosis
end CargoReport
