import CargoReport.Proofs.Json.Written

namespace CargoReport.Json

theorem codeUnit_hex {u : Nat} (h : u < 0x10000) :
    codeUnit? (Text.hexDigit (u / 16 / 16 / 16 % 16)) (Text.hexDigit (u / 16 / 16 % 16))
      (Text.hexDigit (u / 16 % 16)) (Text.hexDigit (u % 16)) = some u := by
  have hdigit : ∀ d < 16, hexValue? (Text.hexDigit d) = some d := by decide
  have hmod : ∀ n : Nat, n % 16 < 16 := fun n => Nat.mod_lt n (by decide)
  unfold codeUnit?
  rw [hdigit _ (hmod _), hdigit _ (hmod _), hdigit _ (hmod _), hdigit _ (hmod _)]
  have hsum : ((u / 16 / 16 / 16 % 16 * 16 + u / 16 / 16 % 16) * 16 + u / 16 % 16) * 16 + u % 16
      = u := by omega
  exact congrArg some hsum

theorem readPieces_numbered (opening : Text) {u : Nat} (h : u < 0x10000) {rest : Text}
    (hr : rest ≠ []) :
    readPieces opening (numbered u ++ rest) =
      (readPieces opening rest).map fun r => (.unit u :: r.1, r.2) :=
  readPieces_unit opening (codeUnit_hex h) hr

theorem joinPieces_unit {u : Nat} (h : Text.isHighSurrogate u = false) (more : List Piece) :
    joinPieces (.unit u :: more) = u :: joinPieces more := by
  cases more with
  | nil => rfl
  | cons p more =>
    cases p with
    | plain c => rfl
    | unit low => simp [joinPieces, h]

theorem joinPieces_pair {k : Nat} (h : k < 0x100000) (more : List Piece) :
    joinPieces (.unit (0xD800 + k / 0x400) :: .unit (0xDC00 + k % 0x400) :: more) =
      (0x10000 + k) :: joinPieces more := by
  have h₁ : 0xD800 ≤ 0xD800 + k / 0x400 ∧ 0xD800 + k / 0x400 ≤ 0xDBFF := by omega
  have h₂ : 0xDC00 ≤ 0xDC00 + k % 0x400 ∧ 0xDC00 + k % 0x400 ≤ 0xDFFF := by omega
  have hhigh : Text.isHighSurrogate (0xD800 + k / 0x400) = true :=
    Bool.and_eq_true_iff.mpr ⟨decide_eq_true h₁.1, decide_eq_true h₁.2⟩
  have hlow : Text.isLowSurrogate (0xDC00 + k % 0x400) = true :=
    Bool.and_eq_true_iff.mpr ⟨decide_eq_true h₂.1, decide_eq_true h₂.2⟩
  have hsum : Text.joinSurrogates (0xD800 + k / 0x400) (0xDC00 + k % 0x400) = 0x10000 + k := by
    have hk : 0x10000 + (0xD800 + k / 0x400 - 0xD800) * 0x400 + (0xDC00 + k % 0x400 - 0xDC00) =
        0x10000 + k := by omega
    exact hk
  rw [joinPieces, if_pos ⟨hhigh, hlow⟩, hsum]

theorem shortEscape_of_letter {c e : CodePoint} (h : letter? c = some e) :
    e ≠ 'u'.toNat ∧ shortEscape? e = some c := by
  unfold letter? at h
  split at h
  · rename_i hc
    cases h
    rcases hc with rfl | rfl
    · decide
    · decide
  · repeat' split at h
    all_goals cases h
    all_goals subst_vars
    all_goals decide

theorem not_isHighSurrogate {c : CodePoint} (h : Text.IsScalar c) :
    Text.isHighSurrogate c = false := by
  refine Bool.eq_false_iff.mpr fun hhigh => ?_
  obtain ⟨hleast, hgreatest⟩ := Bool.and_eq_true_iff.mp hhigh
  have hgreatest : c ≤ 0xDFFF := Nat.le_trans (of_decide_eq_true hgreatest) (by decide)
  have hs : Text.isSurrogate c = true := Bool.and_eq_true_iff.mpr ⟨hleast, decide_eq_true hgreatest⟩
  rw [h.not_isSurrogate] at hs
  cases hs

/-- The parts that one code point is read as become that code point again. -/
theorem readPieces_one {c : CodePoint} {front : Text} (h : SpelledOne c front) (opening : Text)
    {rest : Text} (hr : rest ≠ []) :
    ∃ ps, readPieces opening (front ++ rest) =
        (readPieces opening rest).map (fun r => (ps ++ r.1, r.2)) ∧
      ∀ more, joinPieces (ps ++ more) = c :: joinPieces more := by
  obtain ⟨hscalar, h⟩ := h
  split at h
  · rename_i e he
    obtain ⟨hu, hshort⟩ := shortEscape_of_letter he
    subst h
    exact ⟨[.plain c], readPieces_short opening rest hu hshort, fun _ => rfl⟩
  · rename_i hletter
    rcases h with rfl | ⟨hc, rfl⟩
    · unfold escape
      split
      · rename_i hsmall
        exact ⟨[.unit c], readPieces_numbered opening hsmall hr,
          fun more => joinPieces_unit (not_isHighSurrogate hscalar) more⟩
      · rename_i hlarge
        have hle : 0x10000 ≤ c := Nat.le_of_not_lt hlarge
        -- The two halves are read as parts of their own, and joined afterwards.
        obtain ⟨k, rfl⟩ := Nat.exists_eq_add_of_le hle
        have hk : k < 0x100000 := by
          rcases hscalar with hc | ⟨-, hc⟩
          · exact absurd (Nat.le_trans hle (Nat.le_of_lt hc)) (by decide)
          · exact Nat.lt_of_add_lt_add_left hc
        have hhigh : 0xD800 + k / 0x400 < 0x10000 := by omega
        have hlow : 0xDC00 + k % 0x400 < 0x10000 := by omega
        rw [Nat.add_sub_cancel_left]
        refine ⟨[.unit (0xD800 + k / 0x400), .unit (0xDC00 + k % 0x400)], ?_, joinPieces_pair hk⟩
        rw [List.append_assoc, readPieces_numbered opening hhigh (by simp [numbered]),
          readPieces_numbered opening hlow hr]
        cases readPieces opening rest with
        | error stop => rfl
        | ok r => rfl
    · have hne : ¬ (c = Text.doubleQuote ∨ c = Text.backslash) := by
        intro hq
        rw [letter?, if_pos hq] at hletter
        cases hletter
      obtain ⟨hq, hb⟩ := not_or.mp hne
      exact ⟨[.plain c], readPieces_plain opening rest hq hb hc, fun _ => rfl⟩

theorem readPieces_spelled {s t : Text} (h : Spelled s t) (opening rest : Text) :
    ∃ pieces, readPieces opening (t ++ Text.doubleQuote :: rest) = .ok (pieces, rest) ∧
      joinPieces pieces = s := by
  induction s generalizing t with
  | nil =>
    rw [h]
    exact ⟨[], readPieces_quote opening rest, rfl⟩
  | cons c s ih =>
    obtain ⟨front, back, rfl, hfront, hback⟩ := h
    obtain ⟨pieces, hread, hjoin⟩ := ih hback
    have hmore : back ++ Text.doubleQuote :: rest ≠ [] := by simp
    obtain ⟨ps, hone, hfirst⟩ := readPieces_one hfront opening hmore
    refine ⟨ps ++ pieces, ?_, ?_⟩
    · rw [List.append_assoc, hone, hread]
      rfl
    · rw [hfirst, hjoin]

theorem readString_spelled {s inner : Text} (h : Spelled s inner) (opening rest : Text) :
    readString .lenient opening (inner ++ Text.doubleQuote :: rest) = .ok (s, rest) := by
  obtain ⟨pieces, hread, rfl⟩ := readPieces_spelled h opening rest
  unfold readString
  rw [hread]
  rfl

theorem readValue_inQuotes {s t : Text} (h : InQuotes s t) (depth : Nat) (rest : Text) :
    readValue .lenient depth (t ++ rest) = .ok (.str s, rest) := by
  obtain ⟨inner, rfl, hinner⟩ := h
  have hstring := readString_spelled hinner
    (Text.doubleQuote :: inner ++ [Text.doubleQuote] ++ rest) rest
  rw [List.cons_append, List.cons_append, List.append_assoc, List.singleton_append] at hstring ⊢
  rw [readValue.eq_def]
  simp only [if_true, hstring]
  rfl

theorem after?_append (word rest : Text) : Text.after? word (word ++ rest) = some rest := by
  simp [Text.after?]

theorem readValue_null (depth : Nat) (rest : Text) :
    readValue .lenient depth (("null" : Text) ++ rest) = .ok (.null, rest) := by
  have hatom : readValue .lenient depth (("null" : Text) ++ rest) =
      readAtom .lenient (("null" : Text) ++ rest) :=
    readValue_of_ne .lenient depth (by decide) (by decide) (by decide)
  rw [hatom]
  simp [readAtom, words, Text.after?, Text.ofString]

theorem readValue_bool (depth : Nat) (b : Bool) (rest : Text) :
    readValue .lenient depth ((if b then ("true" : Text) else ("false" : Text)) ++ rest) =
      .ok (.bool b, rest) := by
  have hatom : readValue .lenient depth ((if b then ("true" : Text) else ("false" : Text)) ++ rest)
      = readAtom .lenient ((if b then ("true" : Text) else ("false" : Text)) ++ rest) := by
    cases b with
    | false => exact readValue_of_ne .lenient depth (by decide) (by decide) (by decide)
    | true => exact readValue_of_ne .lenient depth (by decide) (by decide) (by decide)
  rw [hatom]
  cases b with
  | false => simp [readAtom, words, Text.after?, Text.ofString]
  | true => simp [readAtom, words, Text.after?, Text.ofString]

theorem readValue_int {z : Int} (h : Decimal.Printable z) (depth : Nat) {rest : Text}
    (hr : EndsNumber rest) :
    readValue .lenient depth (Decimal.ofInt z ++ rest) = .ok (.int z, rest) := by
  rw [ofInt_eq, readValue_plain .lenient depth (Decimal.plain_ofNat _) hr]
  have hlen : ¬ Decimal.maxDigits < (Decimal.ofNat z.natAbs).length := Nat.not_lt.mpr h
  have hval : (if decide (z < 0) then -(z.natAbs : Int) else (z.natAbs : Int)) = z := by
    by_cases hz : z < 0
    · simp only [hz, decide_true, if_true]
      omega
    · simp only [hz, decide_false, Bool.false_eq_true, if_false]
      omega
  simp only [Numeral.toJson, Numeral.wholeLength_lenient, hlen, false_and, if_false,
    Numeral.isInteger, Option.isNone_none, Bool.and_self, if_true, Decimal.toNat_ofNat, hval]
  rfl

theorem skipGap_space {c : CodePoint} (h : isGap c = false) (s : Text) :
    skipGap (0x20 :: c :: s) = c :: s :=
  skipGap_cons h s

theorem endsNumber_cons {c : CodePoint}
    (h : c = ','.toNat ∨ c = ']'.toNat ∨ c = readMembers.closeBrace) (s : Text) :
    EndsNumber (c :: s) := by
  rcases h with rfl | rfl | rfl
  · exact ⟨rfl, by decide, by decide, by decide⟩
  · exact ⟨rfl, by decide, by decide, by decide⟩
  · exact ⟨rfl, by decide, by decide, by decide⟩

theorem length_le_intercalate (ts : List Text) :
    ts.length ≤ (List.intercalate (", " : Text) ts).length + 1 := by
  induction ts with
  | nil => simp
  | cons t rest ih =>
    cases rest with
    | nil => simp
    | cons next more =>
      have hsep : (Text.ofString ", ").length = 2 := rfl
      rw [List.intercalate_cons_cons]
      simp only [List.length_cons, List.length_append, hsep] at ih ⊢
      omega

theorem WrittenElements.length_eq {vs : List Json} {ts : List Text}
    (h : WrittenElements vs ts) : ts.length = vs.length := by
  induction vs generalizing ts with
  | nil =>
    rw [WrittenElements] at h
    rw [h]
    rfl
  | cons v vs ih =>
    rw [WrittenElements] at h
    obtain ⟨t, more, rfl, -, hmore⟩ := h
    rw [List.length_cons, List.length_cons, ih hmore]

theorem WrittenMembers.length_eq {members : List (Text × Json)} {ts : List Text}
    (h : WrittenMembers members ts) : ts.length = members.length := by
  induction members generalizing ts with
  | nil =>
    rw [WrittenMembers] at h
    rw [h]
    rfl
  | cons m members ih =>
    rw [WrittenMembers] at h
    obtain ⟨a, b, more, rfl, -, -, hmore⟩ := h
    rw [List.length_cons, List.length_cons, ih hmore]

theorem intercalate_cons_exists {c : CodePoint} {s : Text} (sep : Text) (more : List Text) :
    ∃ tail, List.intercalate sep ((c :: s) :: more) = c :: tail := by
  cases more with
  | nil => exact ⟨s, by simp⟩
  | cons next more =>
    rw [List.intercalate_cons_cons]
    exact ⟨_, rfl⟩

theorem WrittenElements.exists_cons {v : Json} {vs : List Json} {ts : List Text}
    (h : WrittenElements (v :: vs) ts) :
    ∃ c tail, List.intercalate ", " ts = c :: tail ∧ isGap c = false ∧ c ≠ ']'.toNat := by
  rw [WrittenElements] at h
  obtain ⟨t, more, rfl, ht, -⟩ := h
  obtain ⟨c, s, rfl, hc⟩ := ht.exists_cons
  obtain ⟨tail, htail⟩ := intercalate_cons_exists (c := c) (s := s) (", " : Text) more
  exact ⟨c, tail, htail, hc⟩

theorem WrittenMembers.exists_cons {m : Text × Json} {members : List (Text × Json)}
    {ts : List Text} (h : WrittenMembers (m :: members) ts) :
    ∃ tail, List.intercalate ", " ts = Text.doubleQuote :: tail := by
  obtain ⟨name, v⟩ := m
  rw [WrittenMembers] at h
  obtain ⟨a, b, more, rfl, ⟨inner, rfl, -⟩, -, -⟩ := h
  exact intercalate_cons_exists (", " : Text) more

/-- The bound of the readers is never met. -/
theorem lt_length_intercalate {ts : List Text} {n : Nat} (h : ts.length = n + 1) (rest : Text) :
    n < (List.intercalate (", " : Text) ts ++ rest).length + 1 := by
  have hbound := length_le_intercalate ts
  rw [List.length_append]
  omega

theorem append_comma (s t rest : Text) :
    s ++ Text.ofString ", " ++ t ++ rest = s ++ ','.toNat :: 0x20 :: (t ++ rest) := by
  rw [List.append_assoc, List.append_assoc]
  rfl

/-- A reader that reads a value back from what it was written as. -/
def Reads (item : Text → Except Stop (Json × Text)) (v : Json) : Prop :=
  ∀ t rest, Written v t → EndsNumber rest → item (t ++ rest) = .ok (v, rest)

theorem readElements_written {item : Text → Except Stop (Json × Text)} {v : Json}
    {vs : List Json} {ts : List Text} (h : WrittenElements (v :: vs) ts)
    (hitem : ∀ w ∈ v :: vs, Reads item w) {fuel : Nat} (hfuel : vs.length < fuel) (rest : Text) :
    readElements item fuel (List.intercalate ", " ts ++ ']'.toNat :: rest) =
      .ok (v :: vs, rest) := by
  induction vs generalizing v ts fuel with
  | nil =>
    rw [WrittenElements] at h
    obtain ⟨t, more, rfl, ht, hmore⟩ := h
    rw [WrittenElements] at hmore
    subst hmore
    obtain ⟨fuel, rfl⟩ := Nat.exists_eq_succ_of_ne_zero (Nat.ne_zero_of_lt hfuel)
    have hv := hitem v List.mem_cons_self t (']'.toNat :: rest) ht
      (endsNumber_cons (.inr (.inl rfl)) rest)
    have hgap : skipGap (']'.toNat :: rest) = ']'.toNat :: rest := skipGap_cons rfl rest
    rw [List.intercalate_singleton, readElements, hv]
    simp only [bind, Except.bind, hgap, if_true]
    rfl
  | cons w ws ih =>
    rw [WrittenElements] at h
    obtain ⟨t, more, rfl, ht, hmore⟩ := h
    obtain ⟨fuel, rfl⟩ := Nat.exists_eq_succ_of_ne_zero (Nat.ne_zero_of_lt hfuel)
    have hrest := ih hmore (fun x hx => hitem x (List.mem_cons_of_mem v hx))
      (Nat.lt_of_succ_lt_succ hfuel)
    -- The blank after the comma is skipped, and nothing of the next element with it.
    obtain ⟨c, tail, htail, hc, -⟩ := hmore.exists_cons
    have hv := hitem v List.mem_cons_self t
      (','.toNat :: 0x20 :: (c :: tail ++ ']'.toNat :: rest)) ht (endsNumber_cons (.inl rfl) _)
    have hcomma : skipGap (','.toNat :: 0x20 :: (c :: tail ++ ']'.toNat :: rest)) =
        ','.toNat :: 0x20 :: (c :: tail ++ ']'.toNat :: rest) := skipGap_cons rfl _
    have hspace : skipGap (0x20 :: (c :: tail ++ ']'.toNat :: rest)) =
        c :: tail ++ ']'.toNat :: rest := skipGap_space hc _
    have hne : ¬ ','.toNat = ']'.toNat := by decide
    rw [htail] at hrest
    have hnext : more ≠ [] := List.ne_nil_of_length_eq_add_one hmore.length_eq
    rw [List.intercalate_cons_of_ne_nil hnext, htail, append_comma, readElements, hv]
    simp only [bind, Except.bind, hcomma, hne, if_false, if_true, hspace, hrest]
    rfl

theorem readArray_written {item : Text → Except Stop (Json × Text)} {vs : List Json}
    {ts : List Text} (h : WrittenElements vs ts) (hitem : ∀ w ∈ vs, Reads item w) (rest : Text) :
    readArray item (List.intercalate ", " ts ++ ']'.toNat :: rest) = .ok (.arr vs, rest) := by
  cases vs with
  | nil =>
    rw [WrittenElements] at h
    subst h
    have hgap : skipGap (']'.toNat :: rest) = ']'.toNat :: rest := skipGap_cons rfl rest
    have hclose : Text.after? "]" (']'.toNat :: rest) = some rest := after?_append "]" rest
    rw [List.intercalate_nil, List.nil_append, readArray, hgap, hclose]
  | cons v vs =>
    have hfuel := lt_length_intercalate h.length_eq (']'.toNat :: rest)
    have hread := readElements_written h hitem hfuel rest
    obtain ⟨c, tail, htail, hc, hne⟩ := h.exists_cons
    rw [htail, List.cons_append] at hread ⊢
    have hopen : Text.after? "]" (c :: (tail ++ ']'.toNat :: rest)) = none := by
      simp [Text.after?, Text.ofString]
      exact hne.symm
    rw [readArray, skipGap_cons hc, hopen]
    simp only [bind, Except.bind, hread]
    rfl

theorem readName_written {name a b : Text} {v : Json} (ha : InQuotes name a) (hb : Written v b)
    (rest : Text) :
    readName .lenient (a ++ ':'.toNat :: 0x20 :: b ++ rest) = .ok (name, b ++ rest) := by
  obtain ⟨inner, rfl, hinner⟩ := ha
  obtain ⟨c, s, rfl, hc, -⟩ := hb.exists_cons
  have happend : Text.doubleQuote :: inner ++ [Text.doubleQuote] ++ ':'.toNat :: 0x20 :: (c :: s) ++
      rest = Text.doubleQuote :: (inner ++ Text.doubleQuote :: ':'.toNat :: 0x20 :: c ::
        (s ++ rest)) := by
    rw [List.append_assoc, List.append_assoc]
    rfl
  have hstring := readString_spelled hinner
    (Text.doubleQuote :: (inner ++ Text.doubleQuote :: ':'.toNat :: 0x20 :: c :: (s ++ rest)))
    (':'.toNat :: 0x20 :: c :: (s ++ rest))
  have hcolon : skipGap (':'.toNat :: 0x20 :: c :: (s ++ rest)) =
      ':'.toNat :: 0x20 :: c :: (s ++ rest) := skipGap_cons rfl _
  have hspace : skipGap (0x20 :: c :: (s ++ rest)) = c :: (s ++ rest) := skipGap_space hc _
  rw [happend, readName]
  simp only [bind, Except.bind, ne_eq, not_true_eq_false, if_false, hstring, hcolon, if_true,
    hspace]
  rfl

theorem readMembers_written {item : Text → Except Stop (Json × Text)} {m : Text × Json}
    {members : List (Text × Json)} {ts : List Text} (h : WrittenMembers (m :: members) ts)
    (hitem : ∀ n ∈ m :: members, Reads item n.2) {fuel : Nat} (hfuel : members.length < fuel)
    (rest : Text) :
    readMembers .lenient item fuel
        (List.intercalate ", " ts ++ readMembers.closeBrace :: rest) =
      .ok (m :: members, rest) := by
  induction members generalizing m ts fuel with
  | nil =>
    obtain ⟨name, v⟩ := m
    rw [WrittenMembers] at h
    obtain ⟨a, b, more, rfl, ha, hb, hmore⟩ := h
    rw [WrittenMembers] at hmore
    subst hmore
    obtain ⟨fuel, rfl⟩ := Nat.exists_eq_succ_of_ne_zero (Nat.ne_zero_of_lt hfuel)
    have hname := readName_written ha hb (readMembers.closeBrace :: rest)
    have hv := hitem (name, v) List.mem_cons_self b (readMembers.closeBrace :: rest) hb
      (endsNumber_cons (.inr (.inr rfl)) rest)
    have hgap : skipGap (readMembers.closeBrace :: rest) = readMembers.closeBrace :: rest :=
      skipGap_cons rfl rest
    rw [List.intercalate_singleton, readMembers]
    simp only [bind, Except.bind, hname, hv, hgap, if_true]
    rfl
  | cons n members ih =>
    obtain ⟨name, v⟩ := m
    rw [WrittenMembers] at h
    obtain ⟨a, b, more, rfl, ha, hb, hmore⟩ := h
    obtain ⟨fuel, rfl⟩ := Nat.exists_eq_succ_of_ne_zero (Nat.ne_zero_of_lt hfuel)
    have hrest := ih hmore (fun x hx => hitem x (List.mem_cons_of_mem (name, v) hx))
      (Nat.lt_of_succ_lt_succ hfuel)
    obtain ⟨tail, htail⟩ := hmore.exists_cons
    rw [htail] at hrest
    have hname := readName_written ha hb
      (','.toNat :: 0x20 :: (Text.doubleQuote :: tail ++ readMembers.closeBrace :: rest))
    have hv := hitem (name, v) List.mem_cons_self b
      (','.toNat :: 0x20 :: (Text.doubleQuote :: tail ++ readMembers.closeBrace :: rest)) hb
      (endsNumber_cons (.inl rfl) _)
    have hcomma : skipGap (','.toNat :: 0x20 ::
          (Text.doubleQuote :: tail ++ readMembers.closeBrace :: rest)) =
        ','.toNat :: 0x20 :: (Text.doubleQuote :: tail ++ readMembers.closeBrace :: rest) :=
      skipGap_cons rfl _
    have hspace : skipGap (0x20 :: (Text.doubleQuote :: tail ++ readMembers.closeBrace :: rest)) =
        Text.doubleQuote :: tail ++ readMembers.closeBrace :: rest := skipGap_space rfl _
    have hne : ¬ ','.toNat = readMembers.closeBrace := by decide
    have hnext : more ≠ [] := List.ne_nil_of_length_eq_add_one hmore.length_eq
    rw [List.intercalate_cons_of_ne_nil hnext, htail, append_comma, readMembers]
    simp only [bind, Except.bind, hname, hv, hcomma, hne, if_false, if_true, hspace, hrest]
    rfl

theorem readObject_written {item : Text → Except Stop (Json × Text)}
    {members : List (Text × Json)} {ts : List Text} (h : WrittenMembers members ts)
    (hitem : ∀ m ∈ members, Reads item m.2) (rest : Text) :
    readObject .lenient item (List.intercalate ", " ts ++ readMembers.closeBrace :: rest) =
      .ok (.obj members, rest) := by
  cases members with
  | nil =>
    rw [WrittenMembers] at h
    subst h
    have hgap : skipGap (readMembers.closeBrace :: rest) = readMembers.closeBrace :: rest :=
      skipGap_cons rfl rest
    have hclose : Text.after? "\x7d" (readMembers.closeBrace :: rest) = some rest :=
      after?_append "\x7d" rest
    rw [List.intercalate_nil, List.nil_append, readObject, hgap, hclose]
  | cons m members =>
    have hfuel := lt_length_intercalate h.length_eq (readMembers.closeBrace :: rest)
    have hread := readMembers_written h hitem hfuel rest
    obtain ⟨tail, htail⟩ := h.exists_cons
    rw [htail, List.cons_append] at hread ⊢
    have hopen : Text.after? "\x7d" (Text.doubleQuote :: (tail ++ readMembers.closeBrace :: rest)) =
        none := by
      simp [Text.after?, Text.ofString, Text.doubleQuote]
    rw [readObject, skipGap_cons rfl, hopen]
    simp only [bind, Except.bind, hread]
    rfl

theorem depth_le_depthElements {v : Json} {vs : List Json} (h : v ∈ vs) :
    v.depth ≤ depth.depthElements vs := by
  induction vs with
  | nil => cases h
  | cons w vs ih =>
    rw [depth.depthElements]
    rcases List.mem_cons.mp h with rfl | h
    · exact Nat.le_max_left _ _
    · exact Nat.le_trans (ih h) (Nat.le_max_right _ _)

theorem depth_le_depthMembers {m : Text × Json} {members : List (Text × Json)}
    (h : m ∈ members) : m.2.depth ≤ depth.depthMembers members := by
  induction members with
  | nil => cases h
  | cons n members ih =>
    obtain ⟨name, w⟩ := n
    rw [depth.depthMembers]
    rcases List.mem_cons.mp h with rfl | h
    · exact Nat.le_max_left _ _
    · exact Nat.le_trans (ih h) (Nat.le_max_right _ _)

theorem enclosed_append (first last : CodePoint) (inner rest : Text) :
    first :: inner ++ [last] ++ rest = first :: (inner ++ last :: rest) := by
  rw [List.append_assoc]
  rfl

/-- A value that is not too deep is read back from what it was written as. -/
theorem reads_readValue {depth : Nat} {v : Json} (h : v.depth ≤ depth) :
    Reads (readValue .lenient depth) v := by
  induction depth using Nat.strongRecOn generalizing v with
  | ind depth ih =>
    intro t rest ht hr
    cases v with
    | null =>
      rw [Written] at ht
      rw [ht, readValue_null]
    | bool b =>
      rw [Written] at ht
      rw [ht, readValue_bool]
    | int z =>
      rw [Written] at ht
      rw [ht.2, readValue_int ht.1 _ hr]
    | float x =>
      rw [Written] at ht
      cases ht
    | str s =>
      rw [Written] at ht
      exact readValue_inQuotes ht _ rest
    | arr vs =>
      rw [Written] at ht
      obtain ⟨ts, rfl, hts⟩ := ht
      rw [Json.depth] at h
      obtain ⟨depth, rfl⟩ := Nat.exists_eq_succ_of_ne_zero (Nat.ne_zero_of_lt h)
      have hitem : ∀ w ∈ vs, Reads (readValue .lenient depth) w := fun w hw =>
        ih depth (Nat.lt_succ_self depth)
          (Nat.le_trans (depth_le_depthElements hw) (Nat.le_of_succ_le_succ h))
      have hread := readArray_written hts hitem rest
      have hquote : ¬ '['.toNat = Text.doubleQuote := by decide
      rw [enclosed_append, readValue.eq_def]
      simp only [hquote, if_false, if_true, hread]
    | obj members =>
      rw [Written] at ht
      obtain ⟨ts, rfl, hts⟩ := ht
      rw [Json.depth] at h
      obtain ⟨depth, rfl⟩ := Nat.exists_eq_succ_of_ne_zero (Nat.ne_zero_of_lt h)
      have hitem : ∀ m ∈ members, Reads (readValue .lenient depth) m.2 := fun m hm =>
        ih depth (Nat.lt_succ_self depth)
          (Nat.le_trans (depth_le_depthMembers hm) (Nat.le_of_succ_le_succ h))
      have hread := readObject_written hts hitem rest
      have hquote : ¬ readValue.openBrace = Text.doubleQuote := by decide
      have hbracket : ¬ readValue.openBrace = '['.toNat := by decide
      rw [enclosed_append, readValue.eq_def]
      simp only [hquote, hbracket, if_false, if_true, hread]

theorem strip_written {members : List (Text × Json)} {t : Text} (h : Written (.obj members) t) :
    t.strip = t := by
  rw [Written] at h
  obtain ⟨ts, rfl, -⟩ := h
  exact Text.strip_eq_self rfl rfl (by decide) (by decide)

theorem ofText_written {members : List (Text × Json)} {t : Text} (h : Written (.obj members) t)
    (hd : (obj members).depth ≤ Limits.lenient.depth) : ofText t = .ok (.obj members) := by
  have hread := reads_readValue hd t [] h trivial
  obtain ⟨c, s, hc, hgap, -⟩ := h.exists_cons
  have hskip : skipGap t = t := hc ▸ skipGap_cons hgap s
  rw [Written] at h
  obtain ⟨ts, hts, -⟩ := h
  have hmark : ¬ t.head? = some 0xFEFF := by
    rw [hts]
    exact fun hm => absurd (Option.some.inj hm) (by decide)
  rw [List.append_nil] at hread
  rw [ofText, if_neg hmark, read, readAlone, hskip, hread]
  rfl

end CargoReport.Json
