import CargoReport.Bytes
import CargoReport.Proofs.Text
import Mathlib.Algebra.Group.Nat.Defs

namespace CargoReport.Utf8

/-- The last bytes of a number, as many as are asked for. -/
def tails (n : Nat) : Nat → List UInt8
  | 0 => []
  | count + 1 => .ofNat (0x80 + n / 0x40 ^ count % 0x40) :: tails n count

/-- What was begun goes on to a number: it has the first bits of it, and takes the byte with the
next ones. -/
structure Begun.Awaits (begun : Begun) (n : Nat) : Prop where
  bits : begun.bits = n / 0x40 ^ (begun.later + 1)
  least : begun.least ≤ 0x80 + n / 0x40 ^ begun.later % 0x40
  greatest : 0x80 + n / 0x40 ^ begun.later % 0x40 ≤ begun.greatest

/-- With the usual bounds any six bits may come next. -/
theorem awaits_of_bits {n bits later : Nat} (h : bits = n / 0x40 ^ (later + 1)) :
    Begun.Awaits { bits, later } n := by
  have hd : n / 0x40 ^ later % 0x40 < 0x40 := Nat.mod_lt _ (by decide)
  exact ⟨h, Nat.le_add_right _ _, Nat.add_le_add_left (Nat.le_of_lt_succ hd) 0x80⟩

theorem toNat_tail (n : Nat) : (UInt8.ofNat (0x80 + n % 0x40)).toNat = 0x80 + n % 0x40 := by
  rw [UInt8.toNat_ofNat']
  omega

/-- The awaited byte adds its six bits. -/
theorem step_tail (surrogates : Bool) {begun : Begun} {n : Nat} (h : begun.Awaits n) :
    step surrogates (some begun) (0x80 + n / 0x40 ^ begun.later % 0x40) =
      match begun.later with
      | 0 => ([some n], none)
      | later + 1 => ([], some { bits := n / 0x40 ^ (later + 1), later }) := by
  have hbits : begun.bits * 0x40 + (0x80 + n / 0x40 ^ begun.later % 0x40) % 0x40 =
      n / 0x40 ^ begun.later := by
    rw [h.bits, Nat.pow_succ, ← Nat.div_div_eq_div_mul]
    omega
  simp only [step, if_pos (And.intro h.least h.greatest), hbits]
  cases begun.later with
  | zero => rw [Nat.pow_zero, Nat.div_one]
  | succ later => rfl

theorem scan_tails (surrogates : Bool) {begun : Begun} {n : Nat} (h : begun.Awaits n)
    (rest : List UInt8) :
    scan surrogates (some begun) (tails n (begun.later + 1) ++ rest) =
      some n :: scan surrogates none rest := by
  have hstep := step_tail surrogates h
  induction hlater : begun.later generalizing begun with
  | zero =>
    rw [hlater] at hstep
    rw [tails, List.cons_append, scan, toNat_tail, hstep]
    rfl
  | succ later ih =>
    have hnext : Begun.Awaits { bits := n / 0x40 ^ (later + 1), later } n := awaits_of_bits rfl
    rw [hlater] at hstep
    rw [tails, List.cons_append, scan, toNat_tail, hstep]
    exact ih hnext (step_tail surrogates hnext) rfl

/-- A number that a first byte goes on to, and that is written as this byte and what it awaits. -/
def Leads (surrogates : Bool) (lead n : Nat) : Prop :=
  ∃ begun, first surrogates lead = .begun begun ∧ begun.Awaits n ∧ lead < 0x100 ∧
    encodePoint n = .ofNat lead :: tails n (begun.later + 1)

theorem leads_two (surrogates : Bool) {n : Nat} (h : 0x80 ≤ n) (hn : n < 0x800) :
    Leads surrogates (0xC0 + n / 0x40) n := by
  refine ⟨{ bits := n / 0x40, later := 0 }, ?_, awaits_of_bits rfl, by omega, ?_⟩
  · rw [first, if_neg (by omega), if_neg (by omega), if_pos (by omega), Nat.add_sub_cancel_left]
  · rw [encodePoint, if_neg (Nat.not_lt.mpr h), if_pos hn]
    simp [tails]

/-- What two bytes can write is not written with three, and surrogates are not written. -/
theorem leads_three (surrogates : Bool) {n : Nat} (hs : Text.IsScalar n) (h : 0x800 ≤ n)
    (hn : n < 0x10000) : Leads surrogates (0xE0 + n / 0x1000) n := by
  have hs := Text.isScalar_iff.mp hs
  have hbytes : encodePoint n = .ofNat (0xE0 + n / 0x1000) :: tails n 2 := by
    rw [encodePoint, if_neg (Nat.not_lt.mpr (Nat.le_trans (by decide) h)),
      if_neg (Nat.not_lt.mpr h), if_pos hn]
    simp [tails]
  -- The bytes 0xE0 and 0xED narrow what may come next; the other first bytes do not.
  by_cases hlow : n / 0x1000 = 0
  · refine ⟨{ bits := 0, later := 1, least := 0xA0 }, ?_, ⟨hlow.symm, ?_, ?_⟩, by omega, hbytes⟩
    · rw [hlow]
      rfl
    all_goals
      dsimp only
      omega
  · by_cases hhigh : n / 0x1000 = 0xD ∧ surrogates = false
    · obtain ⟨hd, rfl⟩ := hhigh
      refine ⟨{ bits := 0xD, later := 1, greatest := 0x9F }, ?_, ⟨hd.symm, ?_, ?_⟩, by omega,
        hbytes⟩
      · rw [hd]
        rfl
      all_goals
      dsimp only
      omega
    · refine ⟨{ bits := n / 0x1000, later := 1 }, ?_, awaits_of_bits rfl, by omega, hbytes⟩
      rw [first, if_neg (by omega), if_neg (by omega), if_neg (by omega), if_neg (by omega),
        if_neg (fun hd => hhigh ⟨by omega, hd.2⟩), if_pos (by omega), Nat.add_sub_cancel_left]

/-- What three bytes can write is not written with four. -/
theorem leads_four (surrogates : Bool) {n : Nat} (h : 0x10000 ≤ n) (hn : n < 0x110000) :
    Leads surrogates (0xF0 + n / 0x40000) n := by
  have hbytes : encodePoint n = .ofNat (0xF0 + n / 0x40000) :: tails n 3 := by
    rw [encodePoint, if_neg (Nat.not_lt.mpr (Nat.le_trans (by decide) h)),
      if_neg (Nat.not_lt.mpr (Nat.le_trans (by decide) h)), if_neg (Nat.not_lt.mpr h)]
    simp [tails]
  -- Here 0xF0 and 0xF4 narrow it, the last one to what is a code point at all.
  by_cases hlow : n / 0x40000 = 0
  · refine ⟨{ bits := 0, later := 2, least := 0x90 }, ?_, ⟨hlow.symm, ?_, ?_⟩, by omega, hbytes⟩
    · rw [hlow]
      rfl
    all_goals
      dsimp only
      omega
  · by_cases hhigh : n / 0x40000 = 4
    · refine ⟨{ bits := 4, later := 2, greatest := 0x8F }, ?_, ⟨hhigh.symm, ?_, ?_⟩, by omega,
        hbytes⟩
      · rw [hhigh]
        rfl
      all_goals
      dsimp only
      omega
    · refine ⟨{ bits := n / 0x40000, later := 2 }, ?_, awaits_of_bits rfl, by omega, hbytes⟩
      rw [first, if_neg (by omega), if_neg (by omega), if_neg (by omega), if_neg (by omega),
        if_neg (by omega), if_neg (by omega), if_neg (by omega), if_pos (by omega),
        Nat.add_sub_cancel_left]

theorem exists_leads (surrogates : Bool) {n : Nat} (hs : Text.IsScalar n) (h : 0x80 ≤ n) :
    ∃ lead, Leads surrogates lead n := by
  by_cases htwo : n < 0x800
  · exact ⟨_, leads_two surrogates h htwo⟩
  · by_cases hthree : n < 0x10000
    · exact ⟨_, leads_three surrogates hs (Nat.le_of_not_lt htwo) hthree⟩
    · have hn : n < 0x110000 := by
        have := Text.isScalar_iff.mp hs
        omega
      exact ⟨_, leads_four surrogates (Nat.le_of_not_lt hthree) hn⟩

variable (surrogates : Bool)

theorem scan_encodePoint {c : CodePoint} (h : Text.IsScalar c) (rest : List UInt8) :
    scan surrogates none (encodePoint c ++ rest) = some c :: scan surrogates none rest := by
  by_cases hc : c < 0x80
  · have hbyte : (UInt8.ofNat c).toNat = c :=
      UInt8.toNat_ofNat_of_lt' (Nat.lt_trans hc (by decide))
    rw [encodePoint, if_pos hc, List.singleton_append, scan, hbyte, step, start_ascii _ hc]
    rfl
  · obtain ⟨lead, begun, hfirst, hawaits, hlead, hbytes⟩ :=
      exists_leads surrogates h (Nat.le_of_not_lt hc)
    have hbyte : (UInt8.ofNat lead).toNat = lead := UInt8.toNat_ofNat_of_lt' hlead
    rw [hbytes, List.cons_append, scan, hbyte, step, start, hfirst]
    exact scan_tails surrogates hawaits rest

theorem scan_encode {t : Text} (h : ∀ c ∈ t, Text.IsScalar c) :
    scan surrogates none (encode t) = t.map some := by
  induction t with
  | nil => rfl
  | cons c t ih =>
    rw [encode, List.flatMap_cons, scan_encodePoint surrogates (h c List.mem_cons_self),
      List.map_cons]
    exact congrArg _ (ih fun c' hc' => h c' (List.mem_cons_of_mem c hc'))

theorem decodeLossy_append_ascii (xs ys : List UInt8) {b : UInt8} (h : b.toNat < 0x80) :
    decodeLossy (xs ++ b :: ys) = decodeLossy xs ++ b.toNat :: decodeLossy ys := by
  simp [decodeLossy, scan_append_ascii false none xs ys h]

end CargoReport.Utf8

namespace CargoReport.Capture

/-- A cut that no line end stands across does not change what the line ends become. -/
theorem foldLineEnds_append {s t : Text} (h : s.getLast? = some 0x0D → t.head? ≠ some 0x0A) :
    foldLineEnds (s ++ t) = foldLineEnds s ++ foldLineEnds t := by
  fun_induction foldLineEnds s with
  | case1 => rfl
  | case2 c =>
    cases t with
    | nil => simp [foldLineEnds]
    | cons d t =>
      by_cases hc : c = 0x0D
      · have hd : d ≠ 0x0A := by simpa [hc] using h
        simp [foldLineEnds, hc, hd]
      · simp [foldLineEnds, hc]
  | case3 rest ih =>
    have hrest : rest.getLast? = some 0x0D → t.head? ≠ some 0x0A := by
      intro hl
      apply h
      simp [List.getLast?_cons, hl]
    simp [foldLineEnds, ih hrest]
  | case4 d rest hd ih =>
    rw [List.getLast?_cons_cons] at h
    have hih := ih h
    rw [List.cons_append] at hih
    simp [foldLineEnds, hd, hih]
  | case5 c d rest hc ih =>
    rw [List.getLast?_cons_cons] at h
    have hih := ih h
    rw [List.cons_append] at hih
    simp [foldLineEnds, hc, hih]

theorem foldLineEnds_newline_cons (t : Text) :
    foldLineEnds (Text.newline :: t) = Text.newline :: foldLineEnds t := by
  cases t with
  | nil => rfl
  | cons d t => simp [foldLineEnds, Text.newline]

theorem foldLineEnds_append_newline (s t : Text) :
    ∃ front, foldLineEnds (s ++ Text.newline :: t) = front ++ Text.newline :: foldLineEnds t ∧
      (foldLineEnds s = front ∨ foldLineEnds s = front ++ [Text.newline]) := by
  by_cases hs : s.getLast? = some 0x0D
  · -- The carriage return and the line feed are one line end together, and one each apart.
    obtain ⟨front, rfl⟩ := List.getLast?_eq_some_iff.mp hs
    refine ⟨foldLineEnds front, ?_, .inr ?_⟩
    · have hcut : foldLineEnds (front ++ 0x0D :: Text.newline :: t) =
          foldLineEnds front ++ foldLineEnds (0x0D :: Text.newline :: t) :=
        foldLineEnds_append (by simp)
      have hone : foldLineEnds (0x0D :: Text.newline :: t) = Text.newline :: foldLineEnds t := by
        simp [foldLineEnds, Text.newline]
      rw [List.append_assoc, List.singleton_append, hcut, hone]
    · rw [foldLineEnds_append (by simp)]
      rfl
  · refine ⟨foldLineEnds s, ?_, .inl rfl⟩
    rw [foldLineEnds_append (fun h => absurd h hs), foldLineEnds_newline_cons]

/-- A character that the cut leaves unfinished takes nothing of the second part with it. -/
theorem text_append_newline (xs ys : List UInt8) :
    ∃ front, text (xs ++ 0x0A :: ys) = front ++ Text.newline :: text ys ∧
      (text xs = front ∨ text xs = front ++ [Text.newline]) := by
  have hdecode := Utf8.decodeLossy_append_ascii xs ys (b := 0x0A) (by decide)
  have hnewline : (0x0A : UInt8).toNat = Text.newline := rfl
  rw [text, hdecode, hnewline]
  exact foldLineEnds_append_newline _ _

end CargoReport.Capture
