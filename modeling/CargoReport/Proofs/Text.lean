import CargoReport.Text.Decimal
import Mathlib.Data.List.DropRight

namespace CargoReport.Text

theorem splitOn_of_notMem {sep : CodePoint} {t : Text} (h : sep ∉ t) : splitOn sep t = [t] := by
  induction t with
  | nil => rfl
  | cons c rest ih =>
    have hc : c ≠ sep := fun he => h (he ▸ List.mem_cons_self)
    have hrest : sep ∉ rest := fun hm => h (List.mem_cons_of_mem c hm)
    rw [splitOn, if_neg hc, ih hrest]

theorem notMem_of_mem_splitOn {sep : CodePoint} {t piece : Text} (h : piece ∈ splitOn sep t) :
    sep ∉ piece := by
  induction t generalizing piece with
  | nil =>
    rw [List.mem_singleton.mp h]
    exact List.not_mem_nil
  | cons c rest ih =>
    rw [splitOn] at h
    split at h
    · rcases List.mem_cons.mp h with rfl | h
      · exact List.not_mem_nil
      · exact ih h
    · rename_i hc
      rcases hrest : splitOn sep rest with _ | ⟨first, more⟩
      · exact absurd hrest (splitOn_ne_nil sep rest)
      · rw [hrest] at h ih
        rcases List.mem_cons.mp h with rfl | h
        · have hfirst := ih List.mem_cons_self
          simpa [hfirst] using Ne.symm hc
        · exact ih (List.mem_cons_of_mem first h)

theorem splitOn_intercalate {sep : CodePoint} {lines : List Text} (hne : lines ≠ [])
    (h : ∀ line ∈ lines, sep ∉ line) : splitOn sep (List.intercalate [sep] lines) = lines := by
  induction lines with
  | nil => exact absurd rfl hne
  | cons line rest ih =>
    have hline : sep ∉ line := h line List.mem_cons_self
    cases rest with
    | nil => simpa using splitOn_of_notMem hline
    | cons next more =>
      have hrest : ∀ line ∈ next :: more, sep ∉ line := fun l hl => h l (List.mem_cons_of_mem _ hl)
      rw [List.intercalate_cons_cons, List.append_assoc, List.singleton_append,
        splitOn_append_cons, splitOn_of_notMem hline, ih (by simp) hrest]
      rfl

/-- The pieces have all code points but the separators. -/
theorem forall_mem_splitOn {sep : CodePoint} {P : CodePoint → Prop} {t : Text} :
    (∀ piece ∈ splitOn sep t, ∀ c ∈ piece, P c) ↔ ∀ c ∈ t, c = sep ∨ P c := by
  induction t with
  | nil => simp
  | cons c rest ih =>
    rw [splitOn]
    split
    · rename_i hc
      simp [hc, ih]
    · rename_i hc
      rcases hrest : splitOn sep rest with _ | ⟨piece, pieces⟩
      · exact absurd hrest (splitOn_ne_nil sep rest)
      · rw [hrest] at ih
        simp [hc, ← ih, and_assoc]

theorem mem_of_mem_intercalate {sep c : CodePoint} {lines : List Text}
    (h : c ∈ List.intercalate [sep] lines) : c = sep ∨ ∃ line ∈ lines, c ∈ line := by
  induction lines with
  | nil => cases h
  | cons line rest ih =>
    cases rest with
    | nil => exact .inr ⟨line, List.mem_cons_self, by simpa using h⟩
    | cons next more =>
      rw [List.intercalate_cons_cons, List.append_assoc] at h
      rcases List.mem_append.mp h with h | h
      · exact .inr ⟨line, List.mem_cons_self, h⟩
      · rcases List.mem_cons.mp h with h | h
        · exact .inl h
        · obtain hsep | ⟨found, hfound, hc⟩ := ih h
          · exact .inl hsep
          · exact .inr ⟨found, List.mem_cons_of_mem line hfound, hc⟩

variable {t : Text}

theorem strip_eq (t : Text) : strip t = (t.dropWhile isBlank).rdropWhile isBlank := rfl

theorem strip_isPrefix (t : Text) : strip t <+: t.dropWhile isBlank :=
  List.rdropWhile_prefix isBlank _

theorem infix_strip (t : Text) : strip t <:+: t :=
  (strip_isPrefix t).isInfix.trans (List.dropWhile_suffix isBlank).isInfix

theorem dropWhile_isBlank_of_head {c : CodePoint} {s : Text} (h : isBlank c = false) :
    (c :: s).dropWhile isBlank = c :: s := by
  rw [List.dropWhile_cons, h]
  rfl

/-- A text between two code points that are no blanks stays as it is. -/
theorem strip_eq_self {a b : CodePoint} {s s' : Text} (ha : t = a :: s) (hb : t = s' ++ [b])
    (hab : isBlank a = false) (hbb : isBlank b = false) : strip t = t := by
  have hfront : t.dropWhile isBlank = t := by
    rw [ha]
    exact dropWhile_isBlank_of_head hab
  have hback : t.reverse.dropWhile isBlank = t.reverse := by
    rw [hb, List.reverse_append]
    exact dropWhile_isBlank_of_head hbb
  rw [strip, trim, hfront, hback, List.reverse_reverse]

theorem strip_append_blank {c : CodePoint} (hc : isBlank c = true) (t : Text) :
    strip (t ++ [c]) = strip t := by
  rw [strip, strip, trim, trim, List.dropWhile_append]
  split
  · rename_i h
    rw [List.isEmpty_iff.mp h]
    simp [hc]
  · simp [hc]

theorem strip_eq_nil_iff : strip t = [] ↔ ∀ c ∈ t, isBlank c = true := by
  rw [strip_eq, List.rdropWhile_eq_nil_iff, ← List.dropWhile_eq_nil_iff, List.dropWhile_idempotent,
    List.dropWhile_eq_nil_iff]

/-- No blank is left at the end. -/
theorem isBlank_getLast_strip (h : strip t ≠ []) : isBlank ((strip t).getLast h) = false :=
  Bool.eq_false_iff.mpr (List.rdropWhile_last_not isBlank _ h)

/-- No blank is left at the start, as what is cut at the end comes after what is left. -/
theorem isBlank_head_strip (h : strip t ≠ []) : isBlank ((strip t).head h) = false := by
  have hne : t.dropWhile isBlank ≠ [] := fun hnil => h (by rw [strip_eq, hnil]; rfl)
  rw [(strip_isPrefix t).head h]
  exact Bool.eq_false_iff.mpr (by simpa using List.head_dropWhile_not isBlank hne)

theorem isBlank_of_isDigit {c : CodePoint} (h : Decimal.isDigit c = true) : isBlank c = false := by
  simp only [Decimal.isDigit, Bool.and_eq_true, decide_eq_true_eq] at h
  have hten : ∀ d < 10, isBlank ('0'.toNat + d) = false := by decide
  rw [← Nat.add_sub_of_le h.1]
  exact hten _ (Nat.sub_lt_left_of_lt_add h.1 (Nat.lt_succ_of_le h.2))

/-- A code point that is no surrogate. -/
def IsScalar (c : CodePoint) : Prop := c < 0xD800 ∨ 0xE000 ≤ c ∧ c < 0x110000

instance (c : CodePoint) : Decidable (IsScalar c) :=
  inferInstanceAs (Decidable (c < 0xD800 ∨ 0xE000 ≤ c ∧ c < 0x110000))

theorem isScalar_iff {n : Nat} : IsScalar n ↔ n < 0xD800 ∨ 0xE000 ≤ n ∧ n < 0x110000 := Iff.rfl

theorem IsScalar.not_isSurrogate {c : CodePoint} (h : IsScalar c) : isSurrogate c = false := by
  refine Bool.eq_false_iff.mpr fun hs => ?_
  obtain ⟨h₁, h₂⟩ := Bool.and_eq_true_iff.mp hs
  have h₁ : 0xD800 ≤ c := of_decide_eq_true h₁
  have h₂ : c ≤ 0xDFFF := of_decide_eq_true h₂
  rcases h with h | ⟨h, -⟩
  · exact absurd h (Nat.not_lt.mpr h₁)
  · exact absurd (Nat.le_trans h h₂) (by decide)

end CargoReport.Text

namespace CargoReport.Decimal

theorem length_ofNat (n : Nat) : (ofNat n).length = (Nat.toDigits 10 n).length :=
  List.length_map _

theorem digitCount_pos (z : Int) : 0 < digitCount z :=
  List.length_pos_iff.mpr (ofNat_ne_nil z.natAbs)

/-- Going down by one adds a digit at most. -/
theorem digitCount_sub_one_le (z : Int) : digitCount (z - 1) ≤ digitCount z + 1 := by
  have hiff : ∀ (n : Nat) {k : Nat}, 0 < k → ((ofNat n).length ≤ k ↔ n < 10 ^ k) := by
    intro n k hk
    rw [length_ofNat]
    exact Nat.length_toDigits_le_iff (by decide) hk
  have hz : z.natAbs < 10 ^ digitCount z :=
    (hiff z.natAbs (digitCount_pos z)).mp (Nat.le_refl _)
  have hs : (z - 1).natAbs ≤ z.natAbs + 1 := by omega
  have hp : 0 < 10 ^ digitCount z := Nat.pow_pos (by decide)
  apply (hiff _ (Nat.succ_pos _)).mpr
  rw [Nat.pow_succ]
  omega

theorem ofNat_of_lt {n : Nat} (h : n < 10) : ofNat n = ['0'.toNat + n] := by
  rw [ofNat, Nat.toDigits_of_lt_base h]
  exact congrArg (fun c => [c]) (Nat.toNat_digitChar_of_lt_ten h)

theorem ofNat_of_le {n : Nat} (h : 10 ≤ n) :
    ofNat n = ofNat (n / 10) ++ ['0'.toNat + n % 10] := by
  have hd : n % 10 < 10 := Nat.mod_lt n (by decide)
  rw [ofNat, ofNat, Nat.toDigits_of_base_le (by decide) h, List.map_append]
  exact congrArg (fun c => _ ++ [c]) (Nat.toNat_digitChar_of_lt_ten hd)

theorem isDigit_add {d : Nat} (h : d < 10) : isDigit ('0'.toNat + d) = true := by
  simp only [isDigit, Bool.and_eq_true, decide_eq_true_eq]
  exact ⟨Nat.le_add_right _ _, Nat.add_le_add_left (Nat.le_of_lt_succ h) '0'.toNat⟩

theorem toNat_append (digits more : Text) :
    toNat (digits ++ more) = more.foldl (fun n c => 10 * n + (c - '0'.toNat)) (toNat digits) :=
  List.foldl_append

theorem toNat_ofNat (n : Nat) : toNat (ofNat n) = n := by
  induction n using Nat.strongRecOn with
  | ind n ih =>
    by_cases h : n < 10
    · rw [ofNat_of_lt h]
      simp [toNat]
    · have hlt : n / 10 < n := Nat.div_lt_self (by omega) (by decide)
      rw [ofNat_of_le (by omega), toNat_append, ih (n / 10) hlt]
      simp
      omega

/-- Digits as an integer is written: no zero before another one. -/
def Plain (digits : Text) : Prop :=
  digits.all isDigit = true ∧ (digits.head?.any isLeadingDigit = true ∨ digits = ("0" : Text))

theorem plain_ofNat (n : Nat) : Plain (ofNat n) := by
  induction n using Nat.strongRecOn with
  | ind n ih =>
    by_cases h : n < 10
    · rw [ofNat_of_lt h]
      refine ⟨by simpa using isDigit_add h, ?_⟩
      rcases Nat.eq_zero_or_pos n with rfl | hn
      · exact .inr (by decide)
      · refine .inl ?_
        simp only [isLeadingDigit, List.head?_cons, Option.any_some, Bool.and_eq_true,
          decide_eq_true_eq]
        exact ⟨Nat.add_le_add_left hn '0'.toNat,
          Nat.add_le_add_left (Nat.le_of_lt_succ h) '0'.toNat⟩
    · have hlt : n / 10 < n := Nat.div_lt_self (by omega) (by decide)
      obtain ⟨hall, hlead⟩ := ih (n / 10) hlt
      rw [ofNat_of_le (by omega)]
      refine ⟨?_, .inl ?_⟩
      · simpa [hall] using isDigit_add (Nat.mod_lt n (by decide))
      · rcases hlead with hlead | hzero
        · rcases he : ofNat (n / 10) with _ | ⟨d, tail⟩
          · exact absurd he (ofNat_ne_nil _)
          · rw [he] at hlead
            exact hlead
        · have := congrArg toNat hzero
          rw [toNat_ofNat] at this
          have hz : n / 10 = 0 := this
          omega

theorem Plain.exists_cons {digits : Text} (h : Plain digits) :
    ∃ d tail, digits = d :: tail ∧ isDigit d = true := by
  obtain ⟨hall, hlead | rfl⟩ := h
  · cases digits with
    | nil => cases hlead
    | cons d tail => exact ⟨d, tail, rfl, List.all_eq_true.mp hall d List.mem_cons_self⟩
  · exact ⟨'0'.toNat, [], rfl, by decide⟩

theorem ne_of_isDigit {c : CodePoint} (h : isDigit c = true) {other : CodePoint}
    (ho : isDigit other = false) : c ≠ other := by
  rintro rfl
  rw [h] at ho
  cases ho

theorem Plain.newline_notMem {digits : Text} (h : Plain digits) : Text.newline ∉ digits :=
  fun hmem => ne_of_isDigit (List.all_eq_true.mp h.1 _ hmem) rfl rfl

theorem plain_ones (n : Nat) : Plain (List.replicate (n + 1) '1'.toNat) := by
  refine ⟨?_, .inl rfl⟩
  rw [List.all_replicate]
  rfl

end CargoReport.Decimal
