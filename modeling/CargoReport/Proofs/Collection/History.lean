import CargoReport.Proofs.Collection.Publishing
import CargoReport.Proofs.FirstOfEach
import Mathlib.Data.List.Induction

namespace CargoReport.Collection

/-- A single change to a collection. -/
inductive Write where
  | set (path : Path) (diagnostics : List Diagnostic)
  | delete (path : Path)
  | clear
  | dispose
  deriving DecidableEq

namespace Write

/-- Whether a file is gone after a write. -/
def removes (path : Path) : Write → Bool
  | set _ _ => false
  | delete p => p = path
  | clear | dispose => true

/-- Whether a write sets or removes a file. -/
def concerns (path : Path) : Write → Bool
  | set p _ | delete p => p = path
  | clear | dispose => true

end Write

/-- The lists set for files that nothing later removes, in order. -/
def standing : List Write → List (Path × List Diagnostic)
  | [] => []
  | .set path ds :: later =>
    if later.any (Write.removes path) then standing later else (path, ds) :: standing later
  | _ :: later => standing later

/-- The files of lists that were set in this order: each at its first place, with its last list. -/
def lastSets (sets : List (Path × List Diagnostic)) : List (Path × List Diagnostic) :=
  (firstOfEach id (sets.map Prod.fst)).map fun path => (path, (sets.reverse.lookup path).getD [])

/-- The files that a history leaves. -/
def lastWrites (log : List Write) : List (Path × List Diagnostic) :=
  if .dispose ∈ log then [] else lastSets (standing log)

theorem standing_append_singleton (log : List Write) (w : Write) :
    standing (log ++ [w]) =
      (standing log).filter (fun entry => !w.removes entry.1) ++ standing [w] := by
  induction log with
  | nil => rfl
  | cons v log ih =>
    cases v with
    | set path ds =>
      rw [List.cons_append, standing, standing, List.any_append, ih]
      cases hlog : log.any (Write.removes path) <;> cases hw : w.removes path <;>
        simp [hw]
    | _ => exact ih

theorem lastSets_append_singleton (sets : List (Path × List Diagnostic)) (path : Path)
    (ds : List Diagnostic) :
    lastSets (sets ++ [(path, ds)]) = Table.write path ds (lastSets sets) := by
  rw [lastSets, lastSets, Table.write_map_pair _ _ (nodup_firstOfEach_id _), List.map_append,
    List.map_singleton, firstOfEach_id_append_singleton]
  apply List.map_congr_left
  intro p _
  by_cases hp : p = path
  · simp [hp]
  · simp [List.lookup_cons, hp, beq_eq_false_iff_ne.mpr hp]

theorem lookup_lastSets (sets : List (Path × List Diagnostic)) (path : Path) :
    (lastSets sets).lookup path = sets.reverse.lookup path := by
  have hsome : (sets.reverse.lookup path).isSome ↔ path ∈ sets.map Prod.fst := by
    rw [List.lookup_isSome_iff, List.mem_map]
    simp only [List.mem_reverse, beq_iff_eq, eq_comm (a := path)]
  rw [lastSets, Table.lookup_map_pair]
  by_cases hmem : path ∈ sets.map Prod.fst
  · obtain ⟨ds, hds⟩ := Option.isSome_iff_exists.mp (hsome.mpr hmem)
    rw [if_pos ((mem_firstOfEach_id _ _).mpr hmem), hds, Option.getD_some]
  · rw [if_neg (fun h => hmem ((mem_firstOfEach_id _ _).mp h))]
    exact (Option.not_isSome_iff_eq_none.mp fun h => hmem (hsome.mp h)).symm

theorem lastSets_filter (sets : List (Path × List Diagnostic)) (p : Path → Bool) :
    lastSets (sets.filter fun entry => p entry.1) =
      (lastSets sets).filter fun entry => p entry.1 := by
  have hmap : (sets.filter fun entry => p entry.1).map Prod.fst = (sets.map Prod.fst).filter p := by
    rw [List.filter_map]
    rfl
  rw [lastSets, lastSets, hmap, firstOfEach_id_filter, List.filter_map]
  apply List.map_congr_left
  intro path hpath
  have hp : p path = true := (List.mem_filter.mp hpath).2
  rw [← List.filter_reverse, Table.lookup_filter_fst, if_pos hp]

theorem lastWrites_of_mem {log : List Write} (h : .dispose ∈ log) : lastWrites log = [] :=
  if_pos h

theorem lastWrites_set {log : List Write} (h : .dispose ∉ log) (path : Path)
    (ds : List Diagnostic) :
    lastWrites (log ++ [.set path ds]) = Table.write path ds (lastWrites log) := by
  have hall : (standing log).filter (fun entry => !Write.removes entry.1 (.set path ds)) =
      standing log := List.filter_eq_self.mpr fun _ _ => rfl
  rw [lastWrites, lastWrites, if_neg h, if_neg (by simp [h]), standing_append_singleton, hall]
  exact lastSets_append_singleton _ path ds

theorem lastWrites_of_standing_nil {log : List Write} (h : .dispose ∉ log) {w : Write}
    (hw : w ≠ .dispose) (hnil : standing [w] = []) :
    lastWrites (log ++ [w]) = (lastWrites log).filter fun entry => !w.removes entry.1 := by
  have hlog : .dispose ∉ log ++ [w] := by simp [h, hw.symm]
  rw [lastWrites, lastWrites, if_neg h, if_neg hlog, standing_append_singleton, hnil,
    List.append_nil]
  exact lastSets_filter _ fun path => !w.removes path

/-- The collection after a write, which is none if the collection was disposed of. -/
def Write.after (c : Collection) : Write → Collection
  | set path ds => if c.disposed then c else c.withFiles (c.files.insert path ds)
  | delete path => if c.disposed then c else c.withFiles (c.files.erase path)
  | clear => if c.disposed then c else c.withFiles .empty
  | dispose => { c with files := .empty, disposed := true }

/-- A collection is as a history leaves it. -/
structure Reflects (c : Collection) (log : List Write) : Prop where
  disposed : c.disposed = true ↔ .dispose ∈ log
  entries : c.files.entries = lastWrites log

theorem reflects_new (name : Text) : (new name).Reflects [] :=
  ⟨by simp [new], rfl⟩

theorem Reflects.after {c : Collection} {log : List Write} (h : c.Reflects log) (w : Write) :
    (w.after c).Reflects (log ++ [w]) := by
  by_cases hlog : .dispose ∈ log
  · -- Neither the collection nor what the history leaves changes any more.
    have hdisposed := h.disposed.mpr hlog
    have hmem : .dispose ∈ log ++ [w] := List.mem_append_left _ hlog
    have hnone : c.files.entries = lastWrites (log ++ [w]) := by
      rw [h.entries, lastWrites_of_mem hlog, lastWrites_of_mem hmem]
    have hsame : c.Reflects (log ++ [w]) := ⟨iff_of_true hdisposed hmem, hnone⟩
    cases w with
    | dispose => exact ⟨iff_of_true rfl hmem, (lastWrites_of_mem hmem).symm⟩
    | set path ds => rwa [Write.after, if_pos hdisposed]
    | delete path => rwa [Write.after, if_pos hdisposed]
    | clear => rwa [Write.after, if_pos hdisposed]
  · have hopen : ¬c.disposed = true := fun hd => hlog (h.disposed.mp hd)
    cases w with
    | dispose => exact ⟨by simp [Write.after], (lastWrites_of_mem (by simp)).symm⟩
    | set path ds =>
      rw [Write.after, if_neg hopen]
      refine ⟨by simp [hopen, hlog], ?_⟩
      rw [lastWrites_set hlog, ← h.entries]
      rfl
    | delete path =>
      rw [Write.after, if_neg hopen]
      refine ⟨by simp [hopen, hlog], ?_⟩
      rw [lastWrites_of_standing_nil hlog (by simp) rfl, ← h.entries, files_withFiles]
      simp [Table.erase, Write.removes, eq_comm]
    | clear =>
      rw [Write.after, if_neg hopen]
      refine ⟨by simp [hopen, hlog], ?_⟩
      rw [lastWrites_of_standing_nil hlog (by simp) rfl]
      simp [Write.removes]

theorem Reflects.foldl_after {c : Collection} {log : List Write} (h : c.Reflects log)
    (ws : List Write) : (ws.foldl Write.after c).Reflects (log ++ ws) := by
  induction ws generalizing c log with
  | nil => simpa using h
  | cons w ws ih => simpa using ih (h.after w)

theorem exists_append_singleton_iff {log : List Write} {w x : Write} {p : Write → Prop} :
    (∃ before after, log ++ [w] = before ++ x :: after ∧ ∀ v ∈ after, p v) ↔
      w = x ∨ p w ∧ ∃ before after, log = before ++ x :: after ∧ ∀ v ∈ after, p v := by
  constructor
  · -- What comes after `x` is nothing, and `w` is `x` then, or it ends in `w`.
    rintro ⟨before, after, heq, hp⟩
    rcases List.eq_nil_or_concat after with rfl | ⟨after, v, rfl⟩
    · exact .inl (List.append_inj_right' heq rfl |> List.singleton_inj.mp)
    · rw [List.concat_eq_append] at heq hp
      have hsplit : log ++ [w] = (before ++ x :: after) ++ [v] := by simpa using heq
      obtain ⟨hlog, hw⟩ := List.append_inj' hsplit rfl
      obtain rfl := List.singleton_inj.mp hw
      exact .inr ⟨hp w (by simp), before, after, hlog, fun v hv => hp v (by simp [hv])⟩
  · rintro (rfl | ⟨hw, before, after, rfl, hp⟩)
    · exact ⟨log, [], rfl, by simp⟩
    · refine ⟨before, after ++ [w], by simp, ?_⟩
      simpa [or_imp, forall_and] using ⟨hp, hw⟩

theorem mem_standing_iff (log : List Write) (path : Path) (ds : List Diagnostic) :
    (path, ds) ∈ standing log ↔
      ∃ before after, log = before ++ .set path ds :: after ∧
        ∀ w ∈ after, w.removes path = false := by
  induction log using List.reverseRecOn with
  | nil => simp [standing]
  | append_singleton log w ih =>
    rw [exists_append_singleton_iff, ← ih, standing_append_singleton, List.mem_append,
      List.mem_filter, or_comm, and_comm]
    cases w with
    | set p ds' =>
      have hone : standing [.set p ds'] = [(p, ds')] := rfl
      rw [hone]
      simp [Write.removes, eq_comm]
    | delete p => simp [standing, Write.removes]
    | clear => simp [standing, Write.removes]
    | dispose => simp [standing, Write.removes]

theorem lookup_standing_iff (log : List Write) (path : Path) (ds : List Diagnostic) :
    (standing log).reverse.lookup path = some ds ↔
      ∃ before after, log = before ++ .set path ds :: after ∧
        ∀ w ∈ after, w.concerns path = false := by
  induction log using List.reverseRecOn with
  | nil => simp [standing]
  | append_singleton log w ih =>
    -- Seen from the end, `w` comes first: it decides about its own file and leaves the others.
    rw [exists_append_singleton_iff, ← ih, standing_append_singleton, List.reverse_append,
      ← List.filter_reverse, List.lookup_append,
      Table.lookup_filter_fst (fun path => !w.removes path)]
    cases w with
    | set p ds' =>
      have hone : standing [.set p ds'] = [(p, ds')] := rfl
      rw [hone]
      by_cases hp : path = p
      · simp [hp, Write.concerns]
      · simp [List.lookup_cons, beq_eq_false_iff_ne.mpr hp, Write.removes, Write.concerns,
          Ne.symm hp]
    | delete p => simp [standing, Write.removes, Write.concerns]
    | clear => simp [standing, Write.removes, Write.concerns]
    | dispose => simp [standing, Write.removes, Write.concerns]

theorem mem_lastWrites_iff (log : List Write) (path : Path) :
    path ∈ (lastWrites log).map Prod.fst ↔ .dispose ∉ log ∧
      ∃ before ds after, log = before ++ .set path ds :: after ∧
        ∀ w ∈ after, w.removes path = false := by
  by_cases hlog : .dispose ∈ log
  · simp [lastWrites_of_mem hlog, hlog]
  · have hmem : path ∈ (lastSets (standing log)).map Prod.fst ↔
        ∃ ds, (path, ds) ∈ standing log := by
      simp [lastSets]
    rw [lastWrites, if_neg hlog, hmem, exists_comm]
    simp only [mem_standing_iff, hlog, not_false_eq_true, true_and]

theorem lookup_lastWrites_iff (log : List Write) (path : Path) (ds : List Diagnostic) :
    (lastWrites log).lookup path = some ds ↔ .dispose ∉ log ∧
      ∃ before after, log = before ++ .set path ds :: after ∧
        ∀ w ∈ after, w.concerns path = false := by
  by_cases hlog : .dispose ∈ log
  · simp [lastWrites_of_mem hlog, hlog]
  · rw [lastWrites, if_neg hlog, lookup_lastSets, lookup_standing_iff]
    simp only [hlog, not_false_eq_true, true_and]

end CargoReport.Collection
