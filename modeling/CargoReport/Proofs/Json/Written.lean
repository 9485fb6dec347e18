import CargoReport.Proofs.Json.Numeral

namespace CargoReport.Json

def numbered (u : Nat) : Text := Text.backslash :: 'u'.toNat :: Text.hex 4 u

/-- A code point by number, as a surrogate pair if it has more than 16 bits. -/
def escape (c : CodePoint) : Text :=
  if c < 0x10000 then numbered c
  else numbered (0xD800 + (c - 0x10000) / 0x400) ++ numbered (0xDC00 + (c - 0x10000) % 0x400)

/-- The letter after a backslash that is always written for a code point. -/
def letter? (c : CodePoint) : Option CodePoint :=
  if c = Text.doubleQuote ∨ c = Text.backslash then some c
  else if c = 0x08 then some 'b'.toNat
  else if c = 0x0C then some 'f'.toNat
  else if c = 0x0A then some 'n'.toNat
  else if c = 0x0D then some 'r'.toNat
  else if c = 0x09 then some 't'.toNat
  else none

def SpelledOne (c : CodePoint) (t : Text) : Prop :=
  Text.IsScalar c ∧
    match letter? c with
    | some e => t = [Text.backslash, e]
    | none => t = escape c ∨ 0x20 ≤ c ∧ t = [c]

def Spelled : Text → Text → Prop
  | [], t => t = []
  | c :: s, t => ∃ front back, t = front ++ back ∧ SpelledOne c front ∧ Spelled s back

def InQuotes (s t : Text) : Prop :=
  ∃ inner, t = Text.doubleQuote :: inner ++ [Text.doubleQuote] ∧ Spelled s inner

mutual

/-- The ways to write a value without a double in it. -/
def Written : Json → Text → Prop
  | .null, t => t = ("null" : Text)
  | .bool b, t => t = if b then ("true" : Text) else ("false" : Text)
  | .int z, t => Decimal.Printable z ∧ t = Decimal.ofInt z
  | .float _, _ => False
  | .str s, t => InQuotes s t
  | .arr vs, t =>
    ∃ ts, t = '['.toNat :: List.intercalate ", " ts ++ [']'.toNat] ∧ WrittenElements vs ts
  | .obj members, t =>
    ∃ ts, t = readValue.openBrace :: List.intercalate ", " ts ++ [readMembers.closeBrace] ∧
      WrittenMembers members ts

def WrittenElements : List Json → List Text → Prop
  | [], ts => ts = []
  | v :: vs, ts => ∃ t more, ts = t :: more ∧ Written v t ∧ WrittenElements vs more

def WrittenMembers : List (Text × Json) → List Text → Prop
  | [], ts => ts = []
  | (name, v) :: members, ts =>
    ∃ a b more, ts = (a ++ ':'.toNat :: 0x20 :: b) :: more ∧ InQuotes name a ∧ Written v b ∧
      WrittenMembers members more

end

/-- How deep arrays and objects stand in one another. -/
def depth : Json → Nat
  | .arr elements => depthElements elements + 1
  | .obj members => depthMembers members + 1
  | _ => 0
where
  depthElements : List Json → Nat
    | [] => 0
    | v :: rest => max (depth v) (depthElements rest)
  depthMembers : List (Text × Json) → Nat
    | [] => 0
    | (_, v) :: rest => max (depth v) (depthMembers rest)

/-- A value begins with what neither stands between values nor closes an array. -/
theorem Written.exists_cons {v : Json} {t : Text} (h : Written v t) :
    ∃ c s, t = c :: s ∧ isGap c = false ∧ c ≠ ']'.toNat := by
  cases v with
  | null =>
    rw [Written] at h
    exact ⟨_, _, h, rfl, by decide⟩
  | bool b =>
    rw [Written] at h
    cases b with
    | false => exact ⟨_, _, h, rfl, by decide⟩
    | true => exact ⟨_, _, h, rfl, by decide⟩
  | int z =>
    rw [Written] at h
    obtain ⟨-, rfl⟩ := h
    rw [ofInt_eq]
    cases decide (z < 0) with
    | false =>
      obtain ⟨d, tail, hd, hdd⟩ := (Decimal.plain_ofNat z.natAbs).exists_cons
      exact ⟨d, tail, hd, isGap_of_isDigit hdd, Decimal.ne_of_isDigit hdd rfl⟩
    | true => exact ⟨_, _, rfl, rfl, by decide⟩
  | float x =>
    rw [Written] at h
    cases h
  | str s =>
    rw [Written] at h
    obtain ⟨inner, rfl, -⟩ := h
    exact ⟨_, _, rfl, rfl, by decide⟩
  | arr vs =>
    rw [Written] at h
    obtain ⟨ts, rfl, -⟩ := h
    exact ⟨_, _, rfl, rfl, by decide⟩
  | obj members =>
    rw [Written] at h
    obtain ⟨ts, rfl, -⟩ := h
    exact ⟨_, _, rfl, rfl, by decide⟩

/-- A text without control characters. -/
def OneLine (t : Text) : Prop := ∀ c ∈ t, 0x20 ≤ c

instance (t : Text) : Decidable (OneLine t) := inferInstanceAs (Decidable (∀ c ∈ t, 0x20 ≤ c))

theorem OneLine.append {s t : Text} (hs : OneLine s) (ht : OneLine t) : OneLine (s ++ t) := by
  intro c hc
  rcases List.mem_append.mp hc with hc | hc
  · exact hs c hc
  · exact ht c hc

theorem OneLine.cons {c : CodePoint} {t : Text} (hc : 0x20 ≤ c) (ht : OneLine t) :
    OneLine (c :: t) :=
  List.forall_mem_cons.mpr ⟨hc, ht⟩

theorem oneLine_intercalate {sep : Text} (hsep : OneLine sep) {ts : List Text}
    (h : ∀ t ∈ ts, OneLine t) : OneLine (List.intercalate sep ts) := by
  induction ts with
  | nil => exact fun c hc => by cases hc
  | cons t rest ih =>
    have hrest := ih fun s hs => h s (List.mem_cons_of_mem t hs)
    have ht := h t List.mem_cons_self
    cases rest with
    | nil => simpa using ht
    | cons next more =>
      rw [List.intercalate_cons_cons]
      exact (ht.append hsep).append hrest

theorem oneLine_ofNat (n : Nat) : OneLine (Decimal.ofNat n) := by
  intro c hc
  have hd := List.all_eq_true.mp (Decimal.plain_ofNat n).1 c hc
  simp only [Decimal.isDigit, Bool.and_eq_true, decide_eq_true_eq] at hd
  exact Nat.le_trans (by decide) hd.1

theorem oneLine_hex (width n : Nat) : OneLine (Text.hex width n) := by
  have hdigit : ∀ d < 16, 0x20 ≤ Text.hexDigit d := by decide
  induction width generalizing n with
  | zero => exact fun c hc => by cases hc
  | succ width ih =>
    refine (ih (n / 16)).append (OneLine.cons (hdigit _ ?_) fun c hc => by cases hc)
    exact Nat.mod_lt n (by decide)

theorem oneLine_numbered (u : Nat) : OneLine (numbered u) :=
  OneLine.cons (by decide) (OneLine.cons (by decide) (oneLine_hex 4 u))

theorem oneLine_escape (c : CodePoint) : OneLine (escape c) := by
  unfold escape
  split
  · exact oneLine_numbered c
  · exact (oneLine_numbered _).append (oneLine_numbered _)

theorem le_letter {c e : CodePoint} (h : letter? c = some e) : 0x20 ≤ e := by
  unfold letter? at h
  split at h
  · rename_i hc
    cases h
    rcases hc with rfl | rfl
    · decide
    · decide
  · repeat' split at h
    all_goals cases h
    all_goals decide

theorem SpelledOne.oneLine {c : CodePoint} {t : Text} (h : SpelledOne c t) : OneLine t := by
  obtain ⟨-, h⟩ := h
  split at h
  · rename_i e he
    subst h
    exact OneLine.cons (by decide) (OneLine.cons (le_letter he) fun c hc => by cases hc)
  · rcases h with rfl | ⟨hc, rfl⟩
    · exact oneLine_escape c
    · exact OneLine.cons hc fun c hc => by cases hc

theorem Spelled.oneLine {s t : Text} (h : Spelled s t) : OneLine t := by
  induction s generalizing t with
  | nil =>
    rw [h]
    exact fun c hc => by cases hc
  | cons c s ih =>
    obtain ⟨front, back, rfl, hfront, hback⟩ := h
    exact hfront.oneLine.append (ih hback)

theorem InQuotes.oneLine {s t : Text} (h : InQuotes s t) : OneLine t := by
  obtain ⟨inner, rfl, hinner⟩ := h
  exact OneLine.cons (by decide) (hinner.oneLine.append (by decide))

mutual

theorem Written.oneLine : ∀ {v : Json} {t : Text}, Written v t → OneLine t
  | .null, t, h => by
    rw [Written] at h
    rw [h]
    decide
  | .bool b, t, h => by
    rw [Written] at h
    rw [h]
    cases b <;> decide
  | .int z, t, h => by
    rw [Written] at h
    rw [h.2, ofInt_eq]
    refine OneLine.append ?_ (oneLine_ofNat _)
    cases decide (z < 0) <;> decide
  | .float x, t, h => by
    rw [Written] at h
    cases h
  | .str s, t, h => by
    rw [Written] at h
    exact InQuotes.oneLine h
  | .arr vs, t, h => by
    rw [Written] at h
    obtain ⟨ts, rfl, hts⟩ := h
    have hinner := oneLine_intercalate (by decide : OneLine ", ") (WrittenElements.oneLine hts)
    exact OneLine.cons (by decide) (hinner.append (by decide))
  | .obj members, t, h => by
    rw [Written] at h
    obtain ⟨ts, rfl, hts⟩ := h
    have hinner := oneLine_intercalate (by decide : OneLine ", ") (WrittenMembers.oneLine hts)
    exact OneLine.cons (by decide) (hinner.append (by decide))

theorem WrittenElements.oneLine :
    ∀ {vs : List Json} {ts : List Text}, WrittenElements vs ts → ∀ t ∈ ts, OneLine t
  | [], ts, h => by
    rw [WrittenElements] at h
    rw [h]
    exact fun t ht => by cases ht
  | v :: vs, ts, h => by
    rw [WrittenElements] at h
    obtain ⟨t, more, rfl, ht, hmore⟩ := h
    exact List.forall_mem_cons.mpr ⟨Written.oneLine ht, WrittenElements.oneLine hmore⟩

theorem WrittenMembers.oneLine :
    ∀ {members : List (Text × Json)} {ts : List Text}, WrittenMembers members ts →
      ∀ t ∈ ts, OneLine t
  | [], ts, h => by
    rw [WrittenMembers] at h
    rw [h]
    exact fun t ht => by cases ht
  | (name, v) :: members, ts, h => by
    rw [WrittenMembers] at h
    obtain ⟨a, b, more, rfl, ha, hb, hmore⟩ := h
    have hmember : OneLine (a ++ ':'.toNat :: 0x20 :: b) := by
      have hsep : OneLine [':'.toNat, 0x20] := by decide
      exact ha.oneLine.append (hsep.append (Written.oneLine hb))
    exact List.forall_mem_cons.mpr ⟨hmember, WrittenMembers.oneLine hmore⟩

end

end CargoReport.Json
