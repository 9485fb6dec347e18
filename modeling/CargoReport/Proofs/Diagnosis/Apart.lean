import CargoReport.Proofs.Diagnosis.Growing

namespace CargoReport

/-- A list that two others were put together to, each in its own order. -/
inductive Interleaved {α : Type} : List α → List α → List α → Prop
  | nil : Interleaved [] [] []
  | left {a : α} {l m n : List α} : Interleaved l m n → Interleaved (a :: l) m (a :: n)
  | right {a : α} {l m n : List α} : Interleaved l m n → Interleaved l (a :: m) (a :: n)

theorem Interleaved.symm {α : Type} {l m n : List α} (h : Interleaved l m n) :
    Interleaved m l n := by
  induction h with
  | nil => exact .nil
  | left _ ih => exact .right ih
  | right _ ih => exact .left ih

theorem Interleaved.forall_mem {α : Type} {p : α → Prop} {l m n : List α}
    (h : Interleaved l m n) (hl : ∀ a ∈ l, p a) (hm : ∀ a ∈ m, p a) : ∀ a ∈ n, p a := by
  induction h with
  | nil => exact hl
  | left _ ih =>
    rw [List.forall_mem_cons] at hl ⊢
    exact ⟨hl.1, ih hl.2 hm⟩
  | right _ ih =>
    rw [List.forall_mem_cons] at hm ⊢
    exact ⟨hm.1, ih hl hm.2⟩

/-- The second message is the first one without the spans in other files than one. Of the messages
below, which are placed at the spans of the first, any spans may be left. -/
def Message.TrimmedTo (base : Diagnosis.Base) (path : Path) (m m' : Message) : Prop :=
  m'.bare = m.bare ∧ m'.spans = m.spans.filter fun s => base.resolve s.fileName = path

theorem Message.TrimmedTo.spans_subset {base : Diagnosis.Base} {path : Path} (m m' : Message)
    (h : m.TrimmedTo base path m') : m'.spans ⊆ m.spans := by
  intro s hs
  rw [h.2] at hs
  exact (List.mem_filter.mp hs).1

theorem Record.forall_short_of_trimmed {base : Diagnosis.Base} {path : Path}
    {records records' : List Record}
    (h : List.Forall₂ (Alike (Message.TrimmedTo base path)) records records')
    (hs : ∀ r ∈ records, r.Short) : ∀ r ∈ records', r.Short := by
  induction h with
  | nil => exact hs
  | cons hr _ ih =>
    rw [List.forall_mem_cons] at hs ⊢
    exact ⟨hr.short Message.TrimmedTo.spans_subset hs.1, ih hs.2⟩

namespace Diagnosis

variable {base : Base} {path : Path}

theorem placementsAt_cons (r : Record) (records : List Record) :
    placementsAt base path (r :: records) =
      (placementsOf base r).filter (fun x => x.path = path) ++ placementsAt base path records := by
  rw [placementsAt, placements, List.flatMap_cons, List.filter_append]
  rfl

/-- All that is placed at a span is in the file of the span. -/
theorem filter_placementsOf_message (m : Message) :
    (placementsOf base (.message m)).filter (fun x => x.path = path) =
      (m.spans.filter fun s => base.resolve s.fileName = path).flatMap fun s =>
        m.preorder.map (placement base s) := by
  rw [placementsOf]
  induction m.spans with
  | nil => rfl
  | cons s spans ih =>
    rw [List.flatMap_cons, List.filter_append, ih]
    by_cases hs : base.resolve s.fileName = path
    · have hall : (m.preorder.map (placement base s)).filter (fun x => x.path = path) =
          m.preorder.map (placement base s) := by
        rw [List.filter_eq_self]
        intro x hx
        obtain ⟨node, -, rfl⟩ := List.mem_map.mp hx
        exact decide_eq_true hs
      rw [hall, List.filter_cons_of_pos (by simpa using hs), List.flatMap_cons]
    · have hnone : (m.preorder.map (placement base s)).filter (fun x => x.path = path) = [] := by
        rw [List.filter_eq_nil_iff]
        intro x hx hp
        obtain ⟨node, -, rfl⟩ := List.mem_map.mp hx
        exact hs (of_decide_eq_true hp)
      rw [hnone, List.filter_cons_of_neg (by simpa using hs), List.nil_append]

theorem filter_placementsOf_trimmed {r r' : Record}
    (h : r.Alike (Message.TrimmedTo base path) r') :
    (placementsOf base r').filter (fun x => x.path = path) =
      (placementsOf base r).filter fun x => x.path = path := by
  cases h with
  | other reason => rfl
  | @message m m' hm =>
    obtain ⟨hbare, hspans⟩ := hm
    have hnodes : ∀ s, m'.preorder.map (placement base s) = m.preorder.map (placement base s) :=
      fun s => Message.map_preorder_of_bare_eq (own_placement base s) hbare
    rw [filter_placementsOf_message, filter_placementsOf_message, hspans, List.filter_filter]
    simp only [hnodes, Bool.and_self]

theorem placementsAt_trimmed {records records' : List Record}
    (h : List.Forall₂ (Record.Alike (Message.TrimmedTo base path)) records records') :
    placementsAt base path records' = placementsAt base path records := by
  induction h with
  | nil => rfl
  | cons hr _ ih => rw [placementsAt_cons, placementsAt_cons, filter_placementsOf_trimmed hr, ih]

theorem placementsAt_eq_nil {records : List Record}
    (h : path ∉ (placements base records).map (·.path)) : placementsAt base path records = [] := by
  by_contra hne
  exact h ((mem_paths_iff_filter_ne_nil _ _).mpr hne)

theorem placementsAt_interleaved {records₁ records₂ records : List Record}
    (h : Interleaved records₁ records₂ records)
    (hp : path ∉ (placements base records₂).map (·.path)) :
    placementsAt base path records = placementsAt base path records₁ := by
  have hnone := placementsAt_eq_nil hp
  clear hp
  induction h with
  | nil => rfl
  | left _ ih => rw [placementsAt_cons, placementsAt_cons, ih hnone]
  | right _ ih =>
    rw [placementsAt_cons, List.append_eq_nil_iff] at hnone
    rw [placementsAt_cons, hnone.1, List.nil_append, ih hnone.2]

theorem exists_finds_same {records records' : List Record} (h : ∀ r ∈ records, r.Short)
    (h' : ∀ r ∈ records', r.Short)
    (hsame : placementsAt base path records = placementsAt base path records') :
    ∃ files files', Finds base records files ∧ Finds base records' files' ∧
      files.get? path = files'.get? path := by
  obtain ⟨d, hd, hfinds⟩ := exists_finds base h
  obtain ⟨d', hd', hfinds'⟩ := exists_finds base h'
  exact ⟨d.files, d'.files, hfinds, hfinds', hd.get?_congr hd' hsame⟩

theorem exists_finds_interleaved {records₁ records₂ records : List Record}
    (h₁ : ∀ r ∈ records₁, r.Short) (h₂ : ∀ r ∈ records₂, r.Short)
    (h : Interleaved records₁ records₂ records)
    (hne : ∀ x ∈ placements base records₁, ∀ y ∈ placements base records₂, x.path ≠ y.path) :
    ∃ files₁ files₂ files,
      Finds base records₁ files₁ ∧ Finds base records₂ files₂ ∧ Finds base records files ∧
      ∀ path, files.get? path = (files₁.get? path).or (files₂.get? path) ∧
        (files₁.get? path = none ∨ files₂.get? path = none) := by
  obtain ⟨d₁, hd₁, hfinds₁⟩ := exists_finds base h₁
  obtain ⟨d₂, hd₂, hfinds₂⟩ := exists_finds base h₂
  obtain ⟨d, hd, hfinds⟩ := exists_finds base (h.forall_mem h₁ h₂)
  refine ⟨d₁.files, d₂.files, d.files, hfinds₁, hfinds₂, hfinds, ?_⟩
  intro path
  by_cases hp : path ∈ (placements base records₂).map (·.path)
  · have hp₁ : path ∉ (placements base records₁).map (·.path) := by
      intro hp₁
      obtain ⟨x, hx, rfl⟩ := List.mem_map.mp hp₁
      obtain ⟨y, hy, hxy⟩ := List.mem_map.mp hp
      exact hne x hx y hy hxy.symm
    have hnone : d₁.files.get? path = none := by rw [hd₁.get?, if_neg hp₁]
    have hsame := hd.get?_congr hd₂ (placementsAt_interleaved h.symm hp₁)
    rw [hsame, hnone, Option.none_or]
    exact ⟨rfl, .inl rfl⟩
  · have hnone : d₂.files.get? path = none := by rw [hd₂.get?, if_neg hp]
    have hsame := hd.get?_congr hd₁ (placementsAt_interleaved h hp)
    rw [hsame, hnone, Option.or_none]
    exact ⟨rfl, .inr rfl⟩

/-- A file has the same list after any two passes that place the same in it, wherever else they
place how much. So it has after a pass over the records without their spans in other files; and
after a pass over two streams for different files, however they come together, each file has the
list that it has after a pass over its own stream. -/
theorem aggregate_keeps_files_apart (base : Base) :
    (∀ path records records', (∀ r ∈ records, r.Short) → (∀ r ∈ records', r.Short) →
      placementsAt base path records = placementsAt base path records' →
      ∃ files files', Finds base records files ∧ Finds base records' files' ∧
        files.get? path = files'.get? path) ∧
    (∀ path records records', (∀ r ∈ records, r.Short) →
      List.Forall₂ (Record.Alike (Message.TrimmedTo base path)) records records' →
      ∃ files files', Finds base records files ∧ Finds base records' files' ∧
        files.get? path = files'.get? path) ∧
    (∀ records₁ records₂ records, (∀ r ∈ records₁, r.Short) → (∀ r ∈ records₂, r.Short) →
      Interleaved records₁ records₂ records →
      (∀ x ∈ placements base records₁, ∀ y ∈ placements base records₂, x.path ≠ y.path) →
      ∃ files₁ files₂ files,
        Finds base records₁ files₁ ∧ Finds base records₂ files₂ ∧ Finds base records files ∧
        ∀ path, files.get? path = (files₁.get? path).or (files₂.get? path) ∧
          (files₁.get? path = none ∨ files₂.get? path = none)) := by
  refine ⟨?_, ?_, ?_⟩
  · intro path records records' h h' hsame
    exact exists_finds_same h h' hsame
  · intro path records records' h htrim
    exact exists_finds_same h (Record.forall_short_of_trimmed htrim h)
      (placementsAt_trimmed htrim).symm
  · intro records₁ records₂ records h₁ h₂ hmix hne
    exact exists_finds_interleaved h₁ h₂ hmix hne

def unusedImportIn (names : List Text) : Record :=
  .message { unusedImport with spans := names.map unusedImport.spanIn }

theorem aggregate_keeps_files_apart_unusedImport :
    let base : Base := ⟨.ofText "/", .ofText "/ws"⟩
    let path : Path := .ofText "/ws/src/lib.rs"
    let own := [unusedImportIn ["src/lib.rs", "./src/../src/lib.rs"]]
    let other := [unusedImportIn ["/std/vec.rs"]]
    ((∀ r ∈ [Record.message unusedImport], r.Short) ∧ (∀ r ∈ own, r.Short) ∧
        placementsAt base path [.message unusedImport] = placementsAt base path own ∧
        ∃ files files', Finds base [.message unusedImport] files ∧ Finds base own files' ∧
          files.get? path = files'.get? path) ∧
      (List.Forall₂ (Record.Alike (Message.TrimmedTo base path)) [.message unusedImport] own ∧
        ∃ files files', Finds base [.message unusedImport] files ∧ Finds base own files' ∧
          files.get? path = files'.get? path) ∧
      ((∀ r ∈ other, r.Short) ∧ Interleaved own other (other ++ own) ∧
        (∀ x ∈ placements base own, ∀ y ∈ placements base other, x.path ≠ y.path) ∧
        ∃ files₁ files₂ files,
          Finds base own files₁ ∧ Finds base other files₂ ∧ Finds base (other ++ own) files ∧
          ∀ path, files.get? path = (files₁.get? path).or (files₂.get? path) ∧
            (files₁.get? path = none ∨ files₂.get? path = none)) := by
  intro base path own other
  obtain ⟨hsame, htrim, hmix⟩ := aggregate_keeps_files_apart base
  have h : ∀ r ∈ [Record.message unusedImport], r.Short := by decide +kernel
  have hown : ∀ r ∈ own, r.Short := by decide +kernel
  have hother : ∀ r ∈ other, r.Short := by decide +kernel
  have hplaced : placementsAt base path [.message unusedImport] = placementsAt base path own := by
    decide +kernel
  have htrimmed : List.Forall₂ (Record.Alike (Message.TrimmedTo base path))
      [.message unusedImport] own :=
    .cons (.message ⟨rfl, by decide +kernel⟩) .nil
  have hmixed : Interleaved own other (other ++ own) := .right (.left .nil)
  have hne : ∀ x ∈ placements base own, ∀ y ∈ placements base other, x.path ≠ y.path := by
    decide +kernel
  exact ⟨⟨h, hown, hplaced, hsame path _ _ h hown hplaced⟩,
    ⟨htrimmed, htrim path _ _ h htrimmed⟩, hother, hmixed, hne, hmix _ _ _ hown hother hmixed hne⟩

end Diagnosis
end CargoReport
