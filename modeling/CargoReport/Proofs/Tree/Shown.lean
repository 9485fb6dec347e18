import CargoReport.Proofs.Tree.Operations
import Mathlib.Data.List.Forall2
import Mathlib.Data.List.Induction

namespace CargoReport

/-- The last of some packages with an id. -/
def Package.IsLast (p : Package) (id : Text) (packages : List Package) : Prop :=
  ∃ before after, packages = before ++ p :: after ∧ p.id = id ∧ ∀ q ∈ after, q.id ≠ id

namespace Metadata

/-- The members of the workspace that there is a package for. -/
def known (m : Metadata) : List Text :=
  m.workspaceMembers.filter fun id => (m.packages.map Package.id).contains id

/-- The members of the workspace that there is no package for. -/
def unknown (m : Metadata) : List Text :=
  m.workspaceMembers.filter fun id => !(m.packages.map Package.id).contains id

theorem length_known_add_length_unknown (m : Metadata) :
    m.known.length + m.unknown.length = m.workspaceMembers.length := by
  rw [known, unknown, ← List.length_eq_length_filter_add]

end Metadata

namespace Tree

theorem index_append_singleton (packages : List Package) (p : Package) :
    index (packages ++ [p]) = (index packages).insert p.id p := by
  simp [index, Table.ofList]

theorem get?_index (packages : List Package) (id : Text) :
    (index packages).get? id = packages.reverse.find? fun p => p.id = id := by
  induction packages using List.reverseRecOn with
  | nil => rfl
  | append_singleton packages p ih =>
    rw [index_append_singleton, Table.get?_insert, ih, List.reverse_append, List.reverse_singleton,
      List.singleton_append, List.find?_cons]
    by_cases h : p.id = id
    · simp [h]
    · simp [h, Ne.symm h]

theorem get?_index_eq_some_iff (packages : List Package) (id : Text) (p : Package) :
    (index packages).get? id = some p ↔ p.IsLast id packages := by
  rw [get?_index, List.find?_eq_some_iff_append]
  constructor
  · rintro ⟨hid, after, before, hsplit, hafter⟩
    refine ⟨before.reverse, after.reverse, ?_, by simpa using hid, by simpa using hafter⟩
    simpa using congrArg List.reverse hsplit
  · rintro ⟨before, after, rfl, hid, hafter⟩
    refine ⟨by simpa using hid, after.reverse, before.reverse, by simp, by simpa using hafter⟩

theorem get?_index_eq_none_iff (packages : List Package) (id : Text) :
    (index packages).get? id = none ↔ id ∉ packages.map Package.id := by
  simp [get?_index]

theorem missed_of (m : Metadata) (ls : List Listener) : (of m ls).missed none = m.unknown := by
  simp only [missed, of, Metadata.unknown, get?_index_eq_none_iff, List.contains_eq_mem, decide_not]

/-- Every member that there is a package for is shown as the last one. -/
theorem forall₂_shown_of (m : Metadata) (ls : List Listener) :
    List.Forall₂ (fun id item => ∃ p : Package, item = .package p ∧ p.IsLast id m.packages)
      m.known ((of m ls).shown none) := by
  rw [shown, of, Metadata.known]
  induction m.workspaceMembers with
  | nil => exact .nil
  | cons id rest ih =>
    cases hp : (index m.packages).get? id with
    | some p =>
      have hmem : id ∈ m.packages.map Package.id := by
        by_contra hmem
        rw [(get?_index_eq_none_iff _ _).mpr hmem] at hp
        cases hp
      rw [List.filter_cons_of_pos (by simpa using hmem), List.filterMap_cons, hp]
      exact .cons ⟨p, rfl, (get?_index_eq_some_iff _ _ _).mp hp⟩ ih
    | none =>
      have hmem := (get?_index_eq_none_iff _ _).mp hp
      rw [List.filter_cons_of_neg (by simpa using hmem), List.filterMap_cons, hp]
      exact ih

/-- A tree shows a workspace. -/
structure Shows (t : Tree) (m : Metadata) : Prop where
  roots : ∀ earlier : List Call, ∃ items notices,
    (children none).run earlier t = ⟨.ok items, t, notices, []⟩ ∧
    List.Forall₂ (fun id item => ∃ p : Package, item = .package p ∧ p.IsLast id m.packages)
      m.known items ∧
    notices = m.unknown.map .memberMissing ∧ (∀ notice ∈ notices, notice.level = .warning) ∧
    items.length + notices.length = m.workspaceMembers.length
  package : ∀ (p q : Package) (earlier : List Call), q.IsLast p.id m.packages →
    (children (some (.package p))).run earlier t = ⟨.ok (q.dependencies.map .dependency), t, [], []⟩
  gone : ∀ (p : Package) (earlier : List Call), p.id ∉ m.packages.map Package.id →
    (children (some (.package p))).run earlier t = ⟨.ok (p.dependencies.map .dependency), t, [], []⟩
  dependency : ∀ (d : Dependency) (earlier : List Call),
    (children (some (.dependency d))).run earlier t = ⟨.ok [], t, [], []⟩

theorem shows_of (m : Metadata) (ls : List Listener) : (of m ls).Shows m where
  roots := by
    intro earlier
    have hitems := forall₂_shown_of m ls
    refine ⟨_, _, run_children none earlier _, hitems, by rw [missed_of], ?_, ?_⟩
    · intro notice hnotice
      obtain ⟨id, -, rfl⟩ := List.mem_map.mp hnotice
      rfl
    · rw [List.length_map, missed_of, ← hitems.length_eq, m.length_known_add_length_unknown]
  package := by
    intro p q earlier hq
    have hget := (get?_index_eq_some_iff m.packages p.id q).mpr hq
    rw [run_children, shown, of, hget]
    rfl
  gone := by
    intro p earlier hp
    have hget := (get?_index_eq_none_iff m.packages p.id).mpr hp
    rw [run_children, shown, of, hget]
    rfl
  dependency := fun d earlier => run_children (some (.dependency d)) earlier _

/-- Whatever was asked of a tree, and whichever listeners failed meanwhile, it shows the metadata
that came last, also below items from the time before. What it answers is the same after any other
operations that end with these metadata. -/
theorem performAll_shows_current (m : Metadata) (ops : List Operation) (earlier : List Call) :
    let t := ((performAll ops).run earlier (new m)).state
    t.Shows (current m ops) ∧
    ∀ (m' : Metadata) (ops' : List Operation) (earlier' : List Call),
      current m' ops' = current m ops →
      let t' := ((performAll ops').run earlier' (new m')).state
      ∀ (item : Option TreeItem) (later later' : List Call),
        let seen := (children item).run later t
        let seen' := (children item).run later' t'
        seen.result = seen'.result ∧ seen.notices = seen'.notices := by
  intro t
  have ht : t = of (current m ops) (registered ops) := state_performAll_new ops earlier m
  refine ⟨ht ▸ shows_of _ _, ?_⟩
  intro m' ops' earlier' hcurrent t' item later later' seen seen'
  have ht' : t' = of (current m ops) (registered ops') :=
    hcurrent ▸ state_performAll_new ops' earlier' m'
  -- The listeners are the only difference, and no answer reads them.
  have hsame : t.shown item = t'.shown item ∧ t.missed item = t'.missed item := by
    rw [ht, ht']
    cases item with
    | none => exact ⟨rfl, rfl⟩
    | some item => cases item <;> exact ⟨rfl, rfl⟩
  simp only [seen, seen', run_children, hsame, and_self]

end Tree
end CargoReport
