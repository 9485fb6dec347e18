import CargoReport.Json.Reader
import CargoReport.Proofs.Text

namespace CargoReport.Json

/-- A text that begins with nothing that a number goes on with. -/
def EndsNumber : Text → Prop
  | [] => True
  | c :: _ => Decimal.isDigit c = false ∧ c ≠ '.'.toNat ∧ c ≠ 'e'.toNat ∧ c ≠ 'E'.toNat

theorem EndsNumber.takeWhile {rest : Text} (h : EndsNumber rest) :
    rest.takeWhile Decimal.isDigit = [] := by
  cases rest with
  | nil => rfl
  | cons c rest => simp [h.1]

theorem EndsNumber.dropWhile {rest : Text} (h : EndsNumber rest) :
    rest.dropWhile Decimal.isDigit = rest := by
  cases rest with
  | nil => rfl
  | cons c rest => simp [h.1]

theorem EndsNumber.readFraction {rest : Text} (h : EndsNumber rest) :
    readFraction rest = (none, rest) := by
  cases rest with
  | nil => rfl
  | cons c rest =>
    have hc : ¬ c = '.'.toNat := h.2.1
    simp only [Json.readFraction, hc, false_and, if_false]

theorem EndsNumber.readExponent {rest : Text} (h : EndsNumber rest) :
    readExponent rest = (none, rest) := by
  cases rest with
  | nil => rfl
  | cons c rest =>
    have hc : ¬ (c = 'e'.toNat ∨ c = 'E'.toNat) := not_or.mpr ⟨h.2.2.1, h.2.2.2⟩
    simp only [Json.readExponent, hc, false_and, if_false]

theorem readLeading_plain {digits rest : Text} (h : Decimal.Plain digits) (hr : EndsNumber rest) :
    readLeading (digits ++ rest) = some (digits, rest) := by
  obtain ⟨hall, hlead | rfl⟩ := h
  · cases digits with
    | nil => cases hlead
    | cons d digits =>
      have hd : ¬ d = '0'.toNat := by
        rintro rfl
        cases hlead
      have hdigits : ∀ c ∈ d :: digits, Decimal.isDigit c = true := List.all_eq_true.mp hall
      have htail : ∀ c ∈ digits, Decimal.isDigit c = true :=
        fun c hc => hdigits c (List.mem_cons_of_mem d hc)
      rw [List.cons_append, readLeading, if_neg hd, if_pos (hdigits d List.mem_cons_self),
        List.takeWhile_append_of_pos htail, List.dropWhile_append_of_pos htail, hr.takeWhile,
        hr.dropWhile, List.append_nil]
  · rfl

/-- The sign before a number, if it is negative. -/
def sign (negative : Bool) : Text := if negative then ['-'.toNat] else []

theorem ofInt_eq (z : Int) :
    Decimal.ofInt z = sign (decide (z < 0)) ++ Decimal.ofNat z.natAbs := by
  cases z with
  | ofNat n =>
    have hz : ¬ Int.ofNat n < 0 := Int.not_lt.mpr (Int.natCast_nonneg n)
    rw [decide_eq_false hz]
    rfl
  | negSucc n =>
    rw [decide_eq_true (Int.negSucc_lt_zero n)]
    rfl

theorem readNumeral_plain {digits rest : Text} (h : Decimal.Plain digits) (hr : EndsNumber rest)
    (negative : Bool) : readNumeral (sign negative ++ digits ++ rest) =
      some (⟨negative, digits, none, none⟩, rest) := by
  have hl := readLeading_plain h hr
  have hf := hr.readFraction
  have he := hr.readExponent
  unfold readNumeral
  cases negative with
  | false =>
    obtain ⟨d, tail, rfl, hd⟩ := h.exists_cons
    have hminus : d ≠ 0x2D := Decimal.ne_of_isDigit hd (by decide)
    rw [List.cons_append] at hl
    simp [sign, hminus, hl, hf, he]
  | true =>
    simp [sign, hl, hf, he]

theorem readAtom_plain {digits rest : Text} (limits : Limits) (h : Decimal.Plain digits)
    (hr : EndsNumber rest) (negative : Bool) :
    readAtom limits (sign negative ++ digits ++ rest) =
      (Numeral.toJson limits ⟨negative, digits, none, none⟩).map (·, rest) := by
  have hwords : ∀ w ∈ words, Text.after? w.1 (sign negative ++ digits ++ rest) = none := by
    obtain ⟨d, tail, rfl, hd⟩ := h.exists_cons
    -- Each word begins with a letter or with a minus before one.
    have hne : ∀ c, Decimal.isDigit c = false → c ≠ d :=
      fun c hc => (Decimal.ne_of_isDigit hd hc).symm
    have hn := hne 0x6E rfl
    have ht := hne 0x74 rfl
    have hf := hne 0x66 rfl
    have hN := hne 0x4E rfl
    have hI := hne 0x49 rfl
    have hm := hne 0x2D rfl
    cases negative with
    | false => simp [words, sign, Text.after?, Text.ofString, hn, ht, hf, hN, hI, hm]
    | true => simp [words, sign, Text.after?, Text.ofString, hI]
  unfold readAtom
  split
  · rename_i found hfound
    obtain ⟨w, hw, hsome⟩ := List.exists_of_findSome?_eq_some hfound
    obtain ⟨tail, htail, -⟩ := Option.map_eq_some_iff.mp hsome
    rw [hwords w hw] at htail
    cases htail
  · rw [readNumeral_plain h hr]

theorem readValue_of_ne {c : CodePoint} {rest : Text} (limits : Limits) (depth : Nat)
    (hq : c ≠ Text.doubleQuote) (ha : c ≠ '['.toNat) (ho : c ≠ readValue.openBrace) :
    readValue limits depth (c :: rest) = readAtom limits (c :: rest) := by
  rw [readValue.eq_def]
  simp only [hq, ha, ho, if_false]

theorem readValue_plain {digits rest : Text} (limits : Limits) (depth : Nat)
    (h : Decimal.Plain digits) (hr : EndsNumber rest) (negative : Bool) :
    readValue limits depth (sign negative ++ digits ++ rest) =
      (Numeral.toJson limits ⟨negative, digits, none, none⟩).map (·, rest) := by
  rw [← readAtom_plain limits h hr]
  cases negative with
  | false =>
    obtain ⟨d, tail, rfl, hd⟩ := h.exists_cons
    exact readValue_of_ne limits depth (Decimal.ne_of_isDigit hd rfl)
      (Decimal.ne_of_isDigit hd rfl) (Decimal.ne_of_isDigit hd rfl)
  | true => exact readValue_of_ne limits depth (by decide) (by decide) (by decide)

theorem isGap_of_isDigit {c : CodePoint} (h : Decimal.isDigit c = true) : isGap c = false := by
  have hne : ∀ d, Decimal.isDigit d = false → c ≠ d := fun d hd => Decimal.ne_of_isDigit h hd
  simp [isGap, hne 0x20 rfl, hne 0x09 rfl, hne 0x0A rfl, hne 0x0D rfl]

theorem skipGap_cons {c : CodePoint} (h : isGap c = false) (s : Text) :
    skipGap (c :: s) = c :: s := by
  rw [skipGap, List.dropWhile_cons, h]
  rfl

/-- A text of too many digits is refused as a whole. -/
theorem ofText_overlong {digits : Text} (h : Decimal.Plain digits)
    (hl : Decimal.maxDigits < digits.length) :
    ofText digits = .error (.overlong digits.length) := by
  have hend : EndsNumber [] := trivial
  have hread := readValue_plain .lenient Limits.lenient.depth h hend false
  obtain ⟨d, tail, rfl, hd⟩ := h.exists_cons
  have hmark : d ≠ 0xFEFF := Decimal.ne_of_isDigit hd rfl
  have hskip := skipGap_cons (isGap_of_isDigit hd) tail
  have hint : Numeral.toJson .lenient ⟨false, d :: tail, none, none⟩ =
      .error (.overlong (d :: tail).length) := if_pos ⟨hl, .inl rfl⟩
  rw [List.append_nil, hint] at hread
  have hfront : sign false ++ d :: tail = d :: tail := rfl
  rw [hfront] at hread
  rw [ofText, if_neg (by simpa using hmark), read, readAlone, hskip, hread]
  rfl

end CargoReport.Json
