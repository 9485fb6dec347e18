import CargoReport.Proofs.Diagnosis.Growing

namespace CargoReport

theorem Message.Shuffled.spans_subset (m m' : Message) (h : m.Shuffled m') :
    m'.spans ⊆ m.spans :=
  fun _ hs => h.spans.mem_iff.mpr hs

theorem Diagnostic.eq_of_key_eq {x y : Diagnostic} (hpath : x.path = y.path)
    (hkey : x.key = y.key) (hsource : x.source = y.source) : x = y := by
  obtain ⟨path, range, message, severity, code, source⟩ := x
  simp only [key, Key.mk.injEq] at hpath hkey hsource
  obtain ⟨rfl, rfl, rfl, rfl⟩ := hkey
  rw [hpath, hsource]

namespace Diagnosis

variable (base : Base)

theorem perm_placementsOf {r r' : Record} (h : r.Alike Message.Shuffled r') :
    (placementsOf base r).Perm (placementsOf base r') := by
  cases h with
  | other reason => exact .refl _
  | @message m m' hm =>
    have hnodes : ∀ s ∈ m.spans,
        (m.preorder.map (placement base s)).Perm (m'.preorder.map (placement base s)) :=
      fun s _ => hm.perm_map_preorder (own_placement base s)
    exact hm.spans.flatMap hnodes

theorem perm_placements {records records' : List Record}
    (h : Reordered (Record.Alike Message.Shuffled) records records') :
    (placements base records).Perm (placements base records') := by
  rw [placements, placements]
  exact h.perm_flatMap fun _ _ hr => perm_placementsOf base hr

theorem source_of_mem_placements {records : List Record} {x : Diagnostic}
    (hx : x ∈ placements base records) : x.source = "cargo" := by
  obtain ⟨r, -, hx⟩ := List.mem_flatMap.mp hx
  cases r with
  | other reason => cases hx
  | message m =>
    obtain ⟨s, -, hx⟩ := List.mem_flatMap.mp hx
    obtain ⟨node, -, rfl⟩ := List.mem_map.mp hx
    rfl

theorem perm_firsts {ds ds' : List Diagnostic} (h : ds.Perm ds')
    (hsource : ∀ x ∈ ds, x.source = "cargo") (path : Path) :
    (firsts ds path).Perm (firsts ds' path) := by
  apply perm_firstOfEach (h.filter _)
  intro x hx y hy hkey
  rw [List.mem_filter, decide_eq_true_eq] at hx hy
  have hpath : x.path = y.path := hx.2.trans hy.2.symm
  exact Diagnostic.eq_of_key_eq hpath hkey ((hsource x hx.1).trans (hsource y hy.1).symm)

/-- Records in another order, with the spans and the children of each message in another order, give
the same files and in each file the same diagnostics the same number of times. -/
theorem aggregate_ignores_order {records records' : List Record} (hs : ∀ r ∈ records, r.Short)
    (h : Reordered (Record.Alike Message.Shuffled) records records') :
    ∃ files files', Finds base records files ∧ Finds base records' files' ∧
      files.keys.Perm files'.keys ∧
      ∀ path, Option.Rel List.Perm (files.get? path) (files'.get? path) := by
  have hs' : ∀ r ∈ records', r.Short :=
    h.forall_mem (fun _ _ hr => hr.short Message.Shuffled.spans_subset) hs
  obtain ⟨d, hd, hfinds⟩ := exists_finds base hs
  obtain ⟨d', hd', hfinds'⟩ := exists_finds base hs'
  have hperm := perm_placements base h
  have hpaths := hperm.map (·.path)
  refine ⟨d.files, d'.files, hfinds, hfinds', ?_, ?_⟩
  · rw [hd.keys, hd'.keys]
    exact perm_firstOfEach hpaths fun _ _ _ _ heq => heq
  · intro path
    rw [hd.get?, hd'.get?]
    by_cases hp : path ∈ (placements base records).map (·.path)
    · rw [if_pos hp, if_pos (hpaths.mem_iff.mp hp)]
      exact .some (perm_firsts hperm (fun _ => source_of_mem_placements base) path)
    · rw [if_neg hp, if_neg (mt hpaths.mem_iff.mpr hp)]
      exact .none

/-- An error at two places with two notes below it, and the same with all of these the other way
round. -/
def mismatch (backwards : Bool) : Message where
  level := "error"
  message := "mismatched types"
  rendered := none
  code := some ⟨"E0308", none⟩
  spans := turned [⟨"a.rs", 1, 1, 5, 9, 4, 8, true, none⟩, ⟨"b.rs", 2, 2, 1, 3, 0, 2, false, none⟩]
  children :=
    turned [⟨"note", "expected", none, none, [], []⟩, ⟨"note", "found", none, none, [], []⟩]
where
  turned {α : Type} (l : List α) : List α := if backwards then l.reverse else l

theorem aggregate_ignores_order_mismatch :
    let base : Base := ⟨.ofText "/", .ofText "/ws"⟩
    let records := [.message (mismatch false), .other none]
    let records' := [.other none, .message (mismatch true)]
    (∀ r ∈ records, r.Short) ∧ Reordered (Record.Alike Message.Shuffled) records records' ∧
      ∃ files files', Finds base records files ∧ Finds base records' files' ∧
        files.keys.Perm files'.keys ∧
        ∀ path, Option.Rel List.Perm (files.get? path) (files'.get? path) := by
  intro base records records'
  have hs : ∀ r ∈ records, r.Short := by decide +kernel
  have hmessage : (mismatch false).Shuffled (mismatch true) :=
    .node (.swap _ _ _) (.swap _ _ _)
  have hrecords : Reordered (Record.Alike Message.Shuffled) records records' :=
    .trans (.cons (.message hmessage) (.cons (.other none) .nil))
      (.of_perm (Record.Alike.refl Message.Shuffled.refl) (.swap _ _ _))
  exact ⟨hs, hrecords, aggregate_ignores_order base hs hrecords⟩

end Diagnosis
end CargoReport
