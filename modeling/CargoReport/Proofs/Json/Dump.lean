import CargoReport.Proofs.Json.Written

namespace CargoReport.Json

def dumpOne (c : CodePoint) : Text :=
  match letter? c with
  | some e => [Text.backslash, e]
  | none => if 0x20 ≤ c then [c] else escape c

def dumpText (s : Text) : Text :=
  Text.doubleQuote :: s.flatMap dumpOne ++ [Text.doubleQuote]

mutual

def dump : Json → Text
  | .null => "null"
  | .bool b => if b then "true" else "false"
  | .int z => Decimal.ofInt z
  | .float _ => []
  | .str s => dumpText s
  | .arr vs => '['.toNat :: List.intercalate ", " (dumpElements vs) ++ [']'.toNat]
  | .obj members =>
    readValue.openBrace :: List.intercalate ", " (dumpMembers members) ++ [readMembers.closeBrace]

def dumpElements : List Json → List Text
  | [] => []
  | v :: vs => dump v :: dumpElements vs

def dumpMembers : List (Text × Json) → List Text
  | [] => []
  | (name, v) :: members => (dumpText name ++ ':'.toNat :: 0x20 :: dump v) :: dumpMembers members

end

mutual

/-- A value without doubles, overlong integers and surrogates. -/
def writable : Json → Bool
  | .int z => decide (Decimal.Printable z)
  | .float _ => false
  | .str s => s.all fun c => decide (Text.IsScalar c)
  | .arr vs => writableElements vs
  | .obj members => writableMembers members
  | _ => true

def writableElements : List Json → Bool
  | [] => true
  | v :: vs => writable v && writableElements vs

def writableMembers : List (Text × Json) → Bool
  | [] => true
  | (name, v) :: members =>
    (name.all fun c => decide (Text.IsScalar c)) && writable v && writableMembers members

end

theorem spelledOne_dumpOne {c : CodePoint} (h : Text.IsScalar c) : SpelledOne c (dumpOne c) := by
  refine ⟨h, ?_⟩
  unfold dumpOne
  cases letter? c with
  | some e => rfl
  | none =>
    dsimp only
    split
    · rename_i hc
      exact .inr ⟨hc, rfl⟩
    · exact .inl rfl

theorem inQuotes_dumpText {s : Text} (h : (s.all fun c => decide (Text.IsScalar c)) = true) :
    InQuotes s (dumpText s) := by
  refine ⟨_, rfl, ?_⟩
  induction s with
  | nil => rfl
  | cons c s ih =>
    obtain ⟨hc, hs⟩ := Bool.and_eq_true_iff.mp h
    exact ⟨dumpOne c, _, rfl, spelledOne_dumpOne (of_decide_eq_true hc), ih hs⟩

mutual

theorem written_dump : ∀ {v : Json}, v.writable = true → Written v v.dump
  | .null, _ => by
    rw [Written, dump]
  | .bool b, _ => by
    rw [Written, dump]
  | .int z, h => by
    rw [writable] at h
    rw [Written, dump]
    exact ⟨of_decide_eq_true h, rfl⟩
  | .float x, h => by
    rw [writable] at h
    cases h
  | .str s, h => by
    rw [writable] at h
    rw [Written, dump]
    exact inQuotes_dumpText h
  | .arr vs, h => by
    rw [writable] at h
    rw [Written, dump]
    exact ⟨_, rfl, writtenElements_dump h⟩
  | .obj members, h => by
    rw [writable] at h
    rw [Written, dump]
    exact ⟨_, rfl, writtenMembers_dump h⟩

theorem writtenElements_dump : ∀ {vs : List Json}, writableElements vs = true →
    WrittenElements vs (dumpElements vs)
  | [], _ => by
    rw [WrittenElements, dumpElements]
  | v :: vs, h => by
    rw [writableElements] at h
    obtain ⟨hv, hvs⟩ := Bool.and_eq_true_iff.mp h
    rw [WrittenElements, dumpElements]
    exact ⟨_, _, rfl, written_dump hv, writtenElements_dump hvs⟩

theorem writtenMembers_dump : ∀ {members : List (Text × Json)}, writableMembers members = true →
    WrittenMembers members (dumpMembers members)
  | [], _ => by
    rw [WrittenMembers, dumpMembers]
  | (name, v) :: members, h => by
    rw [writableMembers] at h
    obtain ⟨h, hmembers⟩ := Bool.and_eq_true_iff.mp h
    obtain ⟨hname, hv⟩ := Bool.and_eq_true_iff.mp h
    rw [WrittenMembers, dumpMembers]
    exact ⟨_, _, _, rfl, inQuotes_dumpText hname, written_dump hv, writtenMembers_dump hmembers⟩

end

end CargoReport.Json
