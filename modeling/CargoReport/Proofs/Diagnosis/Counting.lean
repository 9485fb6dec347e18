import CargoReport.Proofs.Diagnosis.Growing
import Mathlib.Algebra.Ring.Nat

namespace CargoReport

/-- How many diagnostics a record stands for: each message of its tree at each span of the root. -/
def Record.weight : Record → Nat
  | .other _ => 0
  | .message m => m.spans.length * m.size

namespace Diagnosis

/-- How many diagnostics are stored in all files. -/
def total (d : Diagnosis) : Nat := (d.files.entries.map fun entry => entry.2.length).sum

theorem length_placementsOf (base : Base) (r : Record) :
    (placementsOf base r).length = r.weight := by
  cases r with
  | other reason => rfl
  | message m =>
    simp [placementsOf, Record.weight, List.length_flatMap, Message.length_preorder]

theorem length_placements (base : Base) (records : List Record) :
    (placements base records).length = (records.map Record.weight).sum := by
  have hweight : (fun r => (placementsOf base r).length) = Record.weight :=
    funext (length_placementsOf base)
  rw [placements, List.length_flatMap, hweight]

theorem sum_length_write (path : Path) (x : Diagnostic) (entries : List (Path × List Diagnostic)) :
    ((Table.write path ((entries.lookup path).getD [] ++ [x]) entries).map
        fun entry => entry.2.length).sum =
      (entries.map fun entry => entry.2.length).sum + 1 := by
  induction entries with
  | nil => simp [Table.write]
  | cons entry rest ih =>
    obtain ⟨p, ds⟩ := entry
    by_cases hp : p = path
    · subst hp
      simp [Table.write]
      omega
    · have hbeq : (path == p) = false := beq_eq_false_iff_ne.mpr (Ne.symm hp)
      rw [Table.write, if_neg hp, List.lookup_cons, hbeq]
      simp only [List.map_cons, List.sum_cons, ih]
      omega

theorem total_insert (d : Diagnosis) (x : Diagnostic) : (d.insert x).total = d.total + 1 :=
  sum_length_write x.path x d.files.entries

/-- Each diagnostic is either stored or told of. -/
theorem total_foldl_keep (d : Diagnosis) (ds : List Diagnostic) :
    (ds.foldl keep d).total + (dropped d ds).length = d.total + ds.length := by
  induction ds generalizing d with
  | nil => rfl
  | cons x ds ih =>
    have hrest := ih (d.keep x)
    rw [List.foldl_cons, dropped, List.length_append, List.length_cons]
    by_cases hx : d.Seen x
    · rw [keep, if_pos hx] at hrest ⊢
      rw [if_pos hx, List.length_singleton]
      omega
    · rw [keep, if_neg hx, total_insert] at hrest
      rw [keep, if_neg hx, if_neg hx, List.length_nil]
      omega

/-- Each notice tells of a diagnostic that was seen among those before it. -/
theorem exists_of_dropped_eq {d : Diagnosis} {ds : List Diagnostic} {front back : List Notice}
    {notice : Notice} (h : dropped d ds = front ++ notice :: back) :
    ∃ tried x rest, ds = tried ++ x :: rest ∧ dropped d tried = front ∧
      (tried.foldl keep d).Seen x ∧ notice = .duplicate x.path x.range := by
  induction ds generalizing d front with
  | nil => simp [dropped] at h
  | cons y ds ih =>
    rw [dropped] at h
    by_cases hy : d.Seen y
    · rw [if_pos hy, List.singleton_append] at h
      -- The notice is the one for this diagnostic, or one for the rest.
      cases front with
      | nil =>
        obtain ⟨rfl, -⟩ := List.cons.inj h
        exact ⟨[], y, ds, rfl, rfl, hy, rfl⟩
      | cons first front =>
        obtain ⟨rfl, hrest⟩ := List.cons.inj h
        obtain ⟨tried, x, rest, rfl, hfront, hx, hnotice⟩ := ih hrest
        refine ⟨y :: tried, x, rest, rfl, ?_, hx, hnotice⟩
        rw [dropped, if_pos hy, hfront, List.singleton_append]
    · rw [if_neg hy, List.nil_append] at h
      obtain ⟨tried, x, rest, rfl, hfront, hx, hnotice⟩ := ih h
      refine ⟨y :: tried, x, rest, rfl, ?_, hx, hnotice⟩
      rw [dropped, if_neg hy, hfront, List.nil_append]

/-- What was seen is stored in its file. -/
theorem Holds.exists_of_seen {d : Diagnosis} {ds : List Diagnostic} (h : d.Holds ds)
    {x : Diagnostic} (hx : d.Seen x) : ∃ y ∈ d.get x.path, y.path = x.path ∧ y.key = x.key := by
  obtain ⟨y, hy, hkey⟩ := List.mem_map.mp ((h.mem_seen x.path x.key).mp hx)
  have hpath : y.path = x.path := by
    rw [h.get] at hy
    exact mem_firsts hy
  exact ⟨y, hy, hpath, hkey⟩

/-- After any operations, a pass over records never stops, and of all messages at all spans each is
stored or told of once. A notice names the file and the range of a diagnostic with the same key
that the file had when the notice was written. -/
theorem addRecords_stores_or_tells (base : Base) {records : List Record}
    (hshort : ∀ r ∈ records, r.Short) (ops : List Operation) (before earlier : List Call) :
    let d := ((performAll ops).run before empty).state
    let done := (addRecords base records).run earlier d
    done.result = .ok () ∧
    done.state.total + done.notices.length = d.total + (records.map Record.weight).sum ∧
    ∀ front notice back, done.notices = front ++ notice :: back →
      ∃ tried x rest, placements base records = tried ++ x :: rest ∧
        let sofar := (addAll tried).run earlier d
        sofar.notices = front ∧ ∃ y ∈ sofar.state.get x.path,
          y.path = x.path ∧ y.key = x.key ∧ notice = .duplicate y.path y.range := by
  intro d done
  obtain ⟨ds, hd⟩ : ∃ ds, d.Holds ds := moves_performAll ops before empty [] holds_empty
  have hrun : done = _ := run_addRecords base hshort earlier d
  rw [hrun]
  refine ⟨rfl, ?_, ?_⟩
  · rw [← length_placements base]
    exact total_foldl_keep d _
  · intro front notice back hnotices
    obtain ⟨tried, x, rest, hplacements, hfront, hx, rfl⟩ := exists_of_dropped_eq hnotices
    have hprintable : ∀ y ∈ tried, y.range.Printable := by
      intro y hy
      apply printable_of_mem_placements hshort base y
      rw [hplacements]
      exact List.mem_append_left _ hy
    obtain ⟨y, hy, hpath, hkey⟩ := (hd.foldl_keep tried).exists_of_seen hx
    have hrange : y.range = x.range := congrArg Diagnostic.Key.range hkey
    refine ⟨tried, x, rest, hplacements, ?_⟩
    rw [run_addAll d tried hprintable]
    exact ⟨hfront, y, hy, hpath, hkey, by rw [hpath, hrange]⟩

theorem addRecords_stores_or_tells_unusedImport :
    let base : Base := ⟨.ofText "/", .ofText "/ws"⟩
    let records := [Record.message unusedImport, .other none, .message unusedImport]
    let done := (addRecords base records).run [] empty
    (∀ r ∈ records, r.Short) ∧ done.result = .ok () ∧ done.notices.length = 8 ∧
      done.state.total = 4 := by
  intro base records done
  have hshort : ∀ r ∈ records, r.Short := by decide +kernel
  obtain ⟨hresult, hcount, -⟩ := addRecords_stores_or_tells base hshort [] [] []
  have hdropped : done.notices.length = 8 := by decide +kernel
  have hweight : (records.map Record.weight).sum = 12 := by decide
  have hsum : done.state.total + done.notices.length = 0 + (records.map Record.weight).sum := hcount
  exact ⟨hshort, hresult, hdropped, by omega⟩

end Diagnosis
end CargoReport
