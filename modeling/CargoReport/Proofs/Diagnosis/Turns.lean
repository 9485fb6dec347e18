import CargoReport.Proofs.Diagnosis.Grouping
import CargoReport.Proofs.Message.Alike
import Mathlib.Logic.Function.Iterate

namespace CargoReport

namespace Message

/-- A turn takes one message away, although the stack may grow by it. -/
theorem sizeAll_turn (m : Message) (stack : List Message) :
    sizeAll (turn (m :: stack)) + 1 = sizeAll (m :: stack) := by
  rw [← length_preorderAll, ← length_preorderAll, preorderAll_cons, List.length_cons]

theorem sizeAll_eq_zero_iff (stack : List Message) : sizeAll stack = 0 ↔ stack = [] := by
  cases stack with
  | nil => simp [sizeAll]
  | cons m stack =>
    have hpos : sizeAll (m :: stack) ≠ 0 := by
      rw [← sizeAll_turn]
      exact Nat.succ_ne_zero _
    simp [hpos]

/-- The message on top is the next one, and the turn leaves those after it. -/
theorem preorderAll_turn (stack : List Message) :
    preorderAll (turn stack) = (preorderAll stack).tail := by
  cases stack with
  | nil => rfl
  | cons m stack => rw [preorderAll_cons, List.tail_cons]

theorem preorderAll_iterate_turn (n : Nat) (stack : List Message) :
    preorderAll (turn^[n] stack) = (preorderAll stack).drop n := by
  induction n generalizing stack with
  | zero => rfl
  | succ n ih => rw [Function.iterate_succ_apply, ih, preorderAll_turn, List.drop_tail]

theorem iterate_turn_eq_nil_iff (n : Nat) (stack : List Message) :
    turn^[n] stack = [] ↔ sizeAll stack ≤ n := by
  rw [← sizeAll_eq_zero_iff, ← length_preorderAll, preorderAll_iterate_turn, List.length_drop,
    length_preorderAll]
  exact Nat.sub_eq_zero_iff_le

end Message

namespace Diagnosis

open Message

variable (path : Path) (range : Range) (span : Span)

/-- Adds the message on top of the stack and puts its children in its place, until the stack is
empty, and says how many turns that took. -/
def loop : List Message → Action Diagnosis Nat
  | [] => return 0
  | m :: stack => do
    let _ ← add (.ofMessage path range span m)
    return (← loop (turn (m :: stack))) + 1
termination_by stack => sizeAll stack
decreasing_by
  -- The stack itself may grow: what gets less is the number of messages in its trees.
  rw [← sizeAll_turn]
  exact Nat.lt_succ_self _

/-- After some turns, the messages that came first were added, and the loop goes on from the stack
of that time. -/
theorem loop_eq_addAll_take (n : Nat) {stack : List Message} (hn : n ≤ sizeAll stack) :
    loop path range span stack = (do
      addAll (((preorderAll stack).take n).map (.ofMessage path range span))
      return (← loop path range span (turn^[n] stack)) + n) := by
  induction n generalizing stack with
  | zero => simp
  | succ n ih =>
    cases stack with
    | nil => exact absurd hn (Nat.not_succ_le_zero n)
    | cons m stack =>
      have hturn := sizeAll_turn m stack
      rw [loop, ih (by omega), preorderAll_cons, List.take_succ_cons, List.map_cons, addAll_cons,
        Function.iterate_succ_apply]
      simp only [bind_assoc, pure_bind, Nat.add_assoc]

theorem loop_eq_addAll (stack : List Message) :
    loop path range span stack = (do
      addAll ((preorderAll stack).map (.ofMessage path range span))
      return sizeAll stack) := by
  have hempty : turn^[sizeAll stack] stack = [] := (iterate_turn_eq_nil_iff _ _).mpr (Nat.le_refl _)
  rw [loop_eq_addAll_take path range span (sizeAll stack) (Nat.le_refl _), hempty, loop,
    ← length_preorderAll, List.take_length]
  simp

/-- In a range that can be printed, the loop comes to its end. -/
theorem run_loop {range : Range} (hrange : range.Printable) (stack : List Message)
    (earlier : List Call) (d : Diagnosis) :
    let placed := (preorderAll stack).map (Diagnostic.ofMessage path range span)
    (loop path range span stack).run earlier d =
      ⟨.ok (sizeAll stack), placed.foldl keep d, dropped d placed, []⟩ := by
  intro placed
  have hprintable : ∀ x ∈ placed, x.range.Printable := by
    intro x hx
    obtain ⟨node, -, rfl⟩ := List.mem_map.mp hx
    exact hrange
  have hadded := run_addAll d placed hprintable earlier
  have hend := Action.run_pure (sizeAll stack) earlier (placed.foldl keep d)
  rw [loop_eq_addAll, Action.run_bind_of_no_calls hadded hend, List.append_nil]

theorem place_eq_loop (m : Message) :
    place path range span m = (do let _ ← loop path range span [m]) := by
  rw [place_eq_addAll, loop_eq_addAll, preorderAll, preorderAll, List.append_nil]
  simp

theorem place_eq_of_bare_eq {m m' : Message} (h : m'.bare = m.bare) :
    place path range span m' = place path range span m := by
  have hown : Own (Diagnostic.ofMessage path range span) := fun _ _ _ => rfl
  rw [place_eq_addAll, place_eq_addAll, map_preorder_of_bare_eq hown h]

/-- Placing a tree is the loop from a stack with this tree alone. In a range that can be printed the
loop comes to its end, after as many turns as there are messages, and what it did is the additions
of these in preorder, one after the other. From any stack, after any number of turns that it can
take, those that came first were added and the stack holds the others, the ones of each tree after
those of the trees above it. Spans in the tree are not looked at. -/
theorem place_takes_size_turns (path : Path) {range : Range} (hrange : range.Printable)
    (span : Span) (m : Message) (earlier : List Call) (d : Diagnosis) :
    let placed := m.preorder.map (.ofMessage path range span)
    place path range span m = (do let _ ← loop path range span [m]) ∧
    ((loop path range span [m]).run earlier d).result = .ok m.size ∧
    place path range span m = addAll placed ∧
    (∀ (stack : List Message) (n : Nat), n ≤ sizeAll stack →
      loop path range span stack = (do
        addAll (((preorderAll stack).take n).map (.ofMessage path range span))
        return (← loop path range span (turn^[n] stack)) + n) ∧
      preorderAll (turn^[n] stack) = (preorderAll stack).drop n ∧
      (turn^[n] stack = [] ↔ n = sizeAll stack)) ∧
    ∀ m' : Message, m'.bare = m.bare → place path range span m' = place path range span m := by
  intro placed
  refine ⟨place_eq_loop path range span m, ?_, place_eq_addAll path range span m, ?_,
    fun m' => place_eq_of_bare_eq path range span⟩
  · exact congrArg Outcome.result (run_loop path span hrange [m] earlier d)
  · intro stack n hn
    refine ⟨loop_eq_addAll_take path range span n hn, preorderAll_iterate_turn n stack, ?_⟩
    rw [iterate_turn_eq_nil_iff]
    exact ⟨Nat.le_antisymm hn, fun he => he ▸ Nat.le_refl _⟩

/-- An error with a note and a help below it, and a note below the former. -/
def nested (spans : List Span) : Message :=
  ⟨"error", "a", none, none, spans,
    [⟨"note", "b", none, none, spans, [⟨"note", "c", none, none, [], []⟩]⟩,
      ⟨"help", "d", none, none, spans, []⟩]⟩

theorem place_takes_size_turns_nested :
    let path : Path := .ofText "/a"
    let range : Range := ⟨⟨-1, 0⟩, ⟨7, 7⟩⟩
    let span := unusedImport.spanIn "/b"
    range.Printable ∧
      ((loop path range span [nested [span]]).run [] empty).result = .ok 4 ∧
      preorderAll (turn^[2] [nested [span]]) = (nested [span]).preorder.drop 2 ∧
      place path range span (nested []) = place path range span (nested [span]) := by
  intro path range span
  have hrange : range.Printable := by decide +kernel
  obtain ⟨-, hresult, -, hturns, hspans⟩ :=
    place_takes_size_turns path hrange span (nested [span]) [] empty
  exact ⟨hrange, hresult, (hturns [nested [span]] 2 (by decide)).2.1, hspans _ rfl⟩

end Diagnosis
end CargoReport
