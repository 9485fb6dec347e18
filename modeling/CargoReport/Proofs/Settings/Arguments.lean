import CargoReport.Proofs.Workspace.Published

namespace CargoReport

open CargoReport.Action

namespace Settings

/-- A text that can stand between commas and is taken from there as it is. -/
structure IsArgument (t : Text) : Prop where
  ne_nil : t ≠ []
  comma_notMem : ','.toNat ∉ t
  head : Text.isBlank (t.head ne_nil) = false
  getLast : Text.isBlank (t.getLast ne_nil) = false

variable {t v : Text}

theorem IsArgument.strip_eq (h : IsArgument t) : Text.strip t = t :=
  Text.strip_eq_self (List.cons_head_tail h.ne_nil).symm
    (List.dropLast_concat_getLast h.ne_nil).symm h.head h.getLast

theorem mem_splitArgs : t ∈ splitArgs v ↔
    ∃ piece ∈ v.splitOn ','.toNat, Text.strip piece = t ∧ t ≠ [] := by
  simp only [splitArgs, List.mem_filter, List.mem_map, decide_eq_true_eq]
  constructor
  · rintro ⟨⟨piece, hpiece, rfl⟩, hne⟩
    exact ⟨piece, hpiece, rfl, hne⟩
  · rintro ⟨piece, hpiece, rfl, hne⟩
    exact ⟨⟨piece, hpiece, rfl⟩, hne⟩

theorem isArgument_of_mem_splitArgs (h : t ∈ splitArgs v) : IsArgument t := by
  obtain ⟨piece, hpiece, rfl, hne⟩ := mem_splitArgs.mp h
  refine ⟨hne, fun hcomma => ?_, Text.isBlank_head_strip hne, Text.isBlank_getLast_strip hne⟩
  exact Text.notMem_of_mem_splitOn hpiece ((Text.infix_strip piece).subset hcomma)

theorem splitArgs_append (v w : Text) :
    splitArgs (v ++ ','.toNat :: w) = splitArgs v ++ splitArgs w := by
  rw [splitArgs, Text.splitOn_append_cons, List.map_append, List.filter_append]
  rfl

theorem splitArgs_intercalate {args : List Text} (h : ∀ a ∈ args, IsArgument a) :
    splitArgs (List.intercalate [','.toNat] args) = args := by
  by_cases hne : args = []
  · -- No arguments give the empty text, which still has one piece, and that is left out.
    rw [hne]
    rfl
  · have hstrip : args.map Text.strip = args.map id :=
      List.map_congr_left fun a ha => (h a ha).strip_eq
    rw [splitArgs, Text.splitOn_intercalate hne fun a ha => (h a ha).comma_notMem, hstrip,
      List.map_id, List.filter_eq_self]
    exact fun a ha => decide_eq_true (h a ha).ne_nil

theorem splitArgs_eq_nil_iff :
    splitArgs v = [] ↔ ∀ c ∈ v, c = ','.toNat ∨ Text.isBlank c = true := by
  rw [← Text.forall_mem_splitOn, List.eq_nil_iff_forall_not_mem]
  constructor
  · intro hnone piece hpiece
    by_contra hblank
    exact hnone _ (mem_splitArgs.mpr ⟨piece, hpiece, rfl, mt Text.strip_eq_nil_iff.mp hblank⟩)
  · intro hblank t ht
    obtain ⟨piece, hpiece, rfl, hne⟩ := mem_splitArgs.mp ht
    exact hne (Text.strip_eq_nil_iff.mpr (hblank piece hpiece))

/-- An environment with nothing but the variable for the arguments of a check. -/
def listing (v : Text) : Environment := [("CARGODIAG_CHECK_ARGS", .str v)]

theorem overrides_listing (v : Text) :
    overrides (listing v) =
      ([("check_args", .arr ((splitArgs v).map .str))] : List (Text × Json)) := rfl

theorem check_of_args (args : List Text) :
    check (.obj [("check_args", .arr (args.map .str))]) = .valid ⟨true, none, args, "cargo"⟩ := by
  have hlist : Checked.list Checked.text (.arr (args.map .str)) = .valid args := by
    rw [Checked.list, List.map_map]
    exact Checked.collect_map_valid 0 args
  have hargs : Checked.withDefault [("check_args", .arr (args.map .str))] "check_args"
      defaultCheckArgs (Checked.list Checked.text) = .valid args := by
    rw [Checked.withDefault, Json.get?, Json.get?]
    simp only [if_true, hlist, Checked.within_valid]
  rw [check, Checked.object, hargs]
  rfl

theorem run_load_listing (v : Text) (earlier : List Call) :
    (load (listing v)).run earlier () = ⟨.ok ⟨true, none, splitArgs v, "cargo"⟩, (),
      [.overridden "check_args" (Json.arr ((splitArgs v).map .str)).shown], []⟩ := by
  rw [load, overrides_listing, check_of_args]
  rfl

end Settings

namespace Cargo

theorem find_of_metadata {c : Cargo} {earlier : List Call} {m : Metadata}
    (h : (c.metadata.run earlier ()).result = .ok m) : ∃ binary, c.find = .ok binary := by
  cases hfind : c.find with
  | ok binary => exact ⟨binary, rfl⟩
  | error fault =>
    have hlaunched : c.launched metadataWords earlier = .error fault := by
      rw [launched, hfind]
      rfl
    rw [metadata, run_start_bind_of_error hlaunched] at h
    cases h

end Cargo

namespace Workspace

variable {w : Workspace} {earlier : List Call} {c : Collection}

theorem calls_check_of_ok (hopen : c.disposed = false) {m : Metadata}
    (hm : (w.cargo.metadata.run earlier ()).result = .ok m) :
    ∃ binary, w.cargo.find = .ok binary ∧ ((w.perform w.check).run earlier c).calls =
      [.command ⟨binary :: Cargo.metadataWords, w.directory.text⟩,
        .command ⟨binary :: "check" :: "--message-format=json" :: w.settings.checkArgs,
          w.directory.text⟩] := by
  obtain ⟨binary, hfind⟩ := Cargo.find_of_metadata hm
  refine ⟨binary, hfind, ?_⟩
  rw [check, perform, (w.run_of_open w.checkPass hopen earlier).2.2, w.calls_find_of_ok _ hm,
    w.cargo.calls_metadata, checkPass, Cargo.check, w.cargo.calls_report,
    Cargo.processes_of_found hfind, Cargo.processes_of_found hfind]
  rfl

theorem calls_check_of_error (hopen : c.disposed = false) {fault : Fault}
    (hm : (w.cargo.metadata.run earlier ()).result = .error fault) :
    ((w.perform w.check).run earlier c).calls = w.cargo.processes Cargo.metadataWords := by
  rw [check, perform, (w.run_of_open w.checkPass hopen earlier).2.2, w.calls_find_of_error _ hm,
    w.cargo.calls_metadata]

end Workspace

namespace Settings

/-- For every value of the variable, the settings have the arguments that it lists: each of them can
stand between commas, what is on both sides of a comma is listed one after the other, and arguments
with commas between them are listed as they are. A check that gets past the metadata starts cargo
with these after its own words; with none, if the value is blank but for commas. -/
theorem load_lists_args (v : Text) :
    (∀ earlier, ∃ notices, (load (listing v)).run earlier () =
      ⟨.ok ⟨true, none, splitArgs v, "cargo"⟩, (), notices, []⟩) ∧
    (∀ a ∈ splitArgs v, IsArgument a) ∧
    (∀ w, splitArgs (v ++ ','.toNat :: w) = splitArgs v ++ splitArgs w) ∧
    (∀ args, (∀ a ∈ args, IsArgument a) →
      splitArgs (List.intercalate [','.toNat] args) = args) ∧
    splitArgs (List.intercalate [','.toNat] (splitArgs v)) = splitArgs v ∧
    (splitArgs v = [] ↔ ∀ c ∈ v, c = ','.toNat ∨ Text.isBlank c = true) ∧
    ∀ (settings : Settings) (before : List Call),
      ((load (listing v)).run before ()).result = .ok settings →
      ∀ (h : Host) (directory : Path) (earlier : List Call) (c : Collection),
        let w : Workspace := ⟨h, directory, settings⟩
        let done := (w.perform w.check).run earlier c
        c.disposed = false →
        (∀ m, (w.cargo.metadata.run earlier ()).result = .ok m →
          ∃ binary, w.cargo.find = .ok binary ∧ done.calls =
            [.command ⟨binary :: Cargo.metadataWords, directory.text⟩,
              .command ⟨binary :: "check" :: "--message-format=json" :: splitArgs v,
                directory.text⟩]) ∧
        ∀ fault, (w.cargo.metadata.run earlier ()).result = .error fault →
          done.calls = w.cargo.processes Cargo.metadataWords := by
  refine ⟨fun earlier => ⟨_, run_load_listing v earlier⟩, fun _ => isArgument_of_mem_splitArgs,
    splitArgs_append v, fun _ => splitArgs_intercalate,
    splitArgs_intercalate fun _ => isArgument_of_mem_splitArgs, splitArgs_eq_nil_iff, ?_⟩
  intro settings before hload h directory earlier c w done hopen
  rw [run_load_listing] at hload
  cases hload
  exact ⟨fun _ => Workspace.calls_check_of_ok hopen, fun _ => Workspace.calls_check_of_error hopen⟩

/-- A value with blanks of several kinds, and nothing between its commas. -/
def blanks : Text := [0x20, ','.toNat, 0x09, ','.toNat, 0x3000, 0x1F]

/-- Blanks leave out the argument of a check that nothing was said against, and arguments with a
blank inside stay whole. -/
theorem load_lists_args_blanks :
    splitArgs "--all-targets,-p a" = [("--all-targets" : Text), ("-p a" : Text)] ∧
    splitArgs blanks = [] ∧ ∃ settings,
      ((load (listing blanks)).run [] ()).result = .ok settings ∧
      let w : Workspace := ⟨Workspace.reporting, .ofText "/ws", settings⟩
      ((w.perform w.check).run [] (.new settings.collectionName)).calls =
        [.command ⟨("cargo" : Text) :: Cargo.metadataWords, "/ws"⟩,
          .command ⟨["cargo", "check", "--message-format=json"], "/ws"⟩] := by
  obtain ⟨hload, -, -, hlist, -, hnone, hcheck⟩ := load_lists_args blanks
  obtain ⟨notices, hload⟩ := hload []
  have hargs : ∀ a ∈ [("--all-targets" : Text), ("-p a" : Text)], IsArgument a := by
    intro a ha
    simp only [List.mem_cons, List.not_mem_nil, or_false] at ha
    rcases ha with rfl | rfl
    · exact ⟨by decide, by decide, by decide, by decide⟩
    · exact ⟨by decide, by decide, by decide, by decide⟩
  have hblank : splitArgs blanks = [] := hnone.mpr (by decide)
  refine ⟨hlist _ hargs, hblank, _, by rw [hload], ?_⟩
  intro w
  have hmetadata : (w.cargo.metadata.run [] ()).result.toOption.isSome = true := by
    rw [show w = ⟨Workspace.reporting, .ofText "/ws", ⟨true, none, [], "cargo"⟩⟩ by
      simp only [w, hblank]]
    decide +kernel
  cases hm : (w.cargo.metadata.run [] ()).result with
  | error fault =>
    rw [hm] at hmetadata
    cases hmetadata
  | ok m =>
    obtain ⟨binary, hfind, hcalls⟩ :=
      (hcheck _ [] (by rw [hload]) _ _ [] (.new "cargo") rfl).1 m hm
    have hbinary : binary = "cargo" := by
      cases hfind
      rfl
    rw [hcalls, hblank, hbinary]
    decide

end Settings
end CargoReport
