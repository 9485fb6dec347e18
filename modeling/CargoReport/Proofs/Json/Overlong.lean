import CargoReport.Json.Reader
import Mathlib.Data.List.Basic

namespace CargoReport.Json

variable {α β : Type}

/-- More digits in a row than an integer may have. -/
def LongRun (n : Nat) (s : Text) : Prop :=
  ∃ digits, digits <:+: s ∧ digits.length = n ∧ Decimal.maxDigits < n ∧
    ∀ c ∈ digits, Decimal.isDigit c = true

/-- What a reader may come to: a value with the end of its text, or a fault; the one for too many
digits only if they are there. -/
def Tracked (s : Text) : Except Stop (α × Text) → Prop
  | .ok (_, rest) => rest <:+ s
  | .error (.overlong n) => LongRun n s
  | .error _ => True

theorem LongRun.mono {n : Nat} {s t : Text} (h : LongRun n s) (hs : s <:+: t) :
    LongRun n t := by
  obtain ⟨digits, hin, hlen, hmax, hall⟩ := h
  exact ⟨digits, hin.trans hs, hlen, hmax, hall⟩

theorem Tracked.of_suffix {s t : Text} {r : Except Stop (α × Text)} (h : Tracked s r)
    (hs : s <:+ t) : Tracked t r := by
  rcases r with (_ | _ | n) | ⟨a, rest⟩
  · trivial
  · trivial
  · exact LongRun.mono h hs.isInfix
  · exact List.IsSuffix.trans h hs

theorem Tracked.bind {s : Text} {x : Except Stop (α × Text)}
    {f : α × Text → Except Stop (β × Text)} (hx : Tracked s x)
    (hf : ∀ a rest, rest <:+ s → Tracked rest (f (a, rest))) : Tracked s (x >>= f) := by
  rcases x with (_ | _ | n) | ⟨a, rest⟩
  · trivial
  · trivial
  · exact hx
  · exact (hf a rest hx).of_suffix hx

theorem Tracked.map {s : Text} {x : Except Stop (α × Text)} (hx : Tracked s x) (f : α → β) :
    Tracked s (x.map fun (a, rest) => (f a, rest)) := by
  rcases x with (_ | _ | n) | ⟨a, rest⟩
  · trivial
  · trivial
  · exact hx
  · exact hx

theorem suffix_skipGap (s : Text) : skipGap s <:+ s := List.dropWhile_suffix _

theorem suffix_of_after? {word s rest : Text} (h : Text.after? word s = some rest) :
    rest <:+ s := by
  unfold Text.after? at h
  split at h
  · cases h
    exact List.drop_suffix _ _
  · cases h

theorem tracked_readPieces (opening s : Text) : Tracked s (readPieces opening s) := by
  fun_induction readPieces opening s with
  | case1 => trivial
  | case2 rest => exact List.suffix_cons _ _
  | case3 => trivial
  | case4 h₁ h₂ h₃ h₄ next tail u hu hne ih =>
    refine Tracked.of_suffix (ih.bind fun pieces s hs => ?_) ?_
    · exact List.suffix_rfl
    · exact ⟨[Text.backslash, 'u'.toNat, h₁, h₂, h₃, h₄], rfl⟩
  | case5 => trivial
  | case6 => trivial
  | case7 e tail he plain hplain hne ih =>
    refine Tracked.of_suffix (ih.bind fun pieces s hs => ?_) ?_
    · exact List.suffix_rfl
    · exact ⟨[Text.backslash, e], rfl⟩
  | case8 => trivial
  | case9 => trivial
  | case10 c rest hq hb hc ih =>
    refine Tracked.of_suffix (ih.bind fun pieces s hs => ?_) (List.suffix_cons c rest)
    exact List.suffix_rfl

theorem tracked_readString (limits : Limits) (opening s : Text) :
    Tracked s (readString limits opening s) := by
  unfold readString
  refine (tracked_readPieces opening s).bind fun pieces rest hs => ?_
  dsimp only
  split
  · trivial
  · exact List.suffix_rfl

theorem readLeading_eq {s whole rest : Text} (h : readLeading s = some (whole, rest)) :
    s = whole ++ rest ∧ ∀ c ∈ whole, Decimal.isDigit c = true := by
  cases s with
  | nil => cases h
  | cons c s =>
    rw [readLeading] at h
    split at h
    · rename_i hc
      cases h
      subst hc
      exact ⟨rfl, by decide⟩
    · split at h
      · rename_i hc
        cases h
        refine ⟨by simp, ?_⟩
        intro d hd
        rcases List.mem_cons.mp hd with rfl | hd
        · exact hc
        · exact List.all_eq_true.mp List.all_takeWhile d hd
      · cases h

theorem suffix_readFraction (s : Text) : (readFraction s).2 <:+ s := by
  cases s with
  | nil => exact List.suffix_rfl
  | cons c s =>
    dsimp only [readFraction]
    split
    · exact (List.dropWhile_suffix _).trans (List.suffix_cons c s)
    · exact List.suffix_rfl

theorem suffix_readSign (s : Text) : (readSign s).2 <:+ s := by
  cases s with
  | nil => exact List.suffix_rfl
  | cons c s =>
    dsimp only [readSign]
    split
    · exact List.suffix_cons c s
    · split
      · exact List.suffix_cons c s
      · exact List.suffix_rfl

theorem suffix_readExponent (s : Text) : (readExponent s).2 <:+ s := by
  cases s with
  | nil => exact List.suffix_rfl
  | cons c s =>
    dsimp only [readExponent]
    split
    · exact ((List.dropWhile_suffix _).trans (suffix_readSign s)).trans (List.suffix_cons c s)
    · exact List.suffix_rfl

/-- The digits before the point of a number stand in its text, and the rest after them. -/
theorem readNumeral_eq {s rest : Text} {n : Numeral} (h : readNumeral s = some (n, rest)) :
    rest <:+ s ∧ n.whole <:+: s ∧ ∀ c ∈ n.whole, Decimal.isDigit c = true := by
  have hfront : ∀ b : Prop, [Decidable b] → (if b then s.drop 1 else s) <:+ s := by
    intro b _
    split
    · exact List.drop_suffix _ _
    · exact List.suffix_rfl
  obtain ⟨⟨whole, tail⟩, hl, h⟩ := Option.bind_eq_some_iff.mp h
  cases h
  obtain ⟨heq, hall⟩ := readLeading_eq hl
  have hs : whole ++ tail <:+ s := heq ▸ hfront _
  refine ⟨?_, ?_, hall⟩
  · exact ((suffix_readExponent _).trans (suffix_readFraction tail)).trans
      ((List.suffix_append whole tail).trans hs)
  · exact (List.prefix_append whole tail).isInfix.trans hs.isInfix

/-- The digits alone are too many where a sign is not counted among them. -/
theorem tracked_readAtom (limits : Limits) (hsign : limits.signCounts = false) (s : Text) :
    Tracked s (readAtom limits s) := by
  unfold readAtom
  split
  · rename_i found hfound
    obtain ⟨⟨word, value⟩, -, hw⟩ := List.exists_of_findSome?_eq_some hfound
    obtain ⟨rest, ha, rfl⟩ := Option.map_eq_some_iff.mp hw
    exact suffix_of_after? ha
  · split
    · rename_i numeral rest hn
      obtain ⟨hrest, hwhole, hall⟩ := readNumeral_eq hn
      have hlength : numeral.wholeLength limits = numeral.whole.length := by
        rw [Numeral.wholeLength, hsign, Decimal.counted_false]
      unfold Numeral.toJson
      rw [hlength]
      split
      · rename_i hlong
        exact ⟨numeral.whole, hwhole, rfl, hlong.1, hall⟩
      · split
        · exact hrest
        · exact hrest
    · trivial

section Nested

variable {item : Text → Except Stop (Json × Text)} (hitem : ∀ s, Tracked s (item s))
include hitem

theorem tracked_readElements (fuel : Nat) (s : Text) : Tracked s (readElements item fuel s) := by
  induction fuel generalizing s with
  | zero => trivial
  | succ fuel ih =>
    refine (hitem s).bind fun value s hs => ?_
    dsimp only
    have hgap := suffix_skipGap s
    split
    · trivial
    · rename_i c rest hc
      -- All that follows is read from a suffix of what the item left.
      have hrest : rest <:+ s := (List.suffix_cons c rest).trans (hc ▸ hgap)
      split
      · exact hrest
      · split
        · refine (((ih (skipGap rest)).of_suffix (suffix_skipGap rest)).of_suffix hrest).bind ?_
          intro values tail _
          exact List.suffix_rfl
        · trivial

theorem tracked_readArray (s : Text) : Tracked s (readArray item s) := by
  unfold readArray
  split
  · rename_i rest h
    exact (suffix_of_after? h).trans (suffix_skipGap s)
  · refine ((tracked_readElements hitem _ _).of_suffix (suffix_skipGap s)).bind ?_
    intro values rest _
    exact List.suffix_rfl

end Nested

theorem tracked_readName (limits : Limits) (s : Text) : Tracked s (readName limits s) := by
  cases s with
  | nil => trivial
  | cons c rest =>
    by_cases hc : c = Text.doubleQuote
    · simp only [readName, hc, ne_eq, not_true_eq_false, if_false]
      refine ((tracked_readString limits _ rest).of_suffix
        (List.suffix_cons _ rest)).bind fun name s hs => ?_
      dsimp only
      have hgap := suffix_skipGap s
      split
      · trivial
      · rename_i d tail hd
        split
        · exact (suffix_skipGap tail).trans ((List.suffix_cons d tail).trans (hd ▸ hgap))
        · trivial
    · simp only [readName, hc, ne_eq, not_false_eq_true, if_true]
      trivial

section Nested

variable {item : Text → Except Stop (Json × Text)} (hitem : ∀ s, Tracked s (item s))
include hitem

theorem tracked_readMembers (limits : Limits) (fuel : Nat) (s : Text) :
    Tracked s (readMembers limits item fuel s) := by
  induction fuel generalizing s with
  | zero => trivial
  | succ fuel ih =>
    refine (tracked_readName limits s).bind fun name s hs => ?_
    refine (hitem s).bind fun value s hs => ?_
    dsimp only
    have hgap := suffix_skipGap s
    split
    · trivial
    · rename_i c rest hc
      have hrest : rest <:+ s := (List.suffix_cons c rest).trans (hc ▸ hgap)
      split
      · exact hrest
      · split
        · refine (((ih (skipGap rest)).of_suffix (suffix_skipGap rest)).of_suffix hrest).bind ?_
          intro members tail _
          exact List.suffix_rfl
        · trivial

theorem tracked_readObject (limits : Limits) (s : Text) :
    Tracked s (readObject limits item s) := by
  unfold readObject
  split
  · rename_i rest h
    exact (suffix_of_after? h).trans (suffix_skipGap s)
  · refine ((tracked_readMembers hitem limits _ _).of_suffix (suffix_skipGap s)).bind ?_
    intro members rest _
    exact List.suffix_rfl

end Nested

theorem tracked_noItem (s : Text) : Tracked s (noItem s) := trivial

theorem tracked_readValue (limits : Limits) (hsign : limits.signCounts = false) (depth : Nat)
    (s : Text) : Tracked s (readValue limits depth s) := by
  -- Elements and members are read with one level less, whatever text they stand in.
  induction depth generalizing s with
  | zero =>
    cases s with
    | nil => trivial
    | cons c rest =>
      simp only [readValue]
      split
      · exact ((tracked_readString limits (c :: rest) rest).map Json.str).of_suffix
          (List.suffix_cons c rest)
      · split
        · split
          · trivial
          · exact (tracked_readArray tracked_noItem rest).of_suffix (List.suffix_cons c rest)
        · split
          · split
            · trivial
            · exact (tracked_readObject tracked_noItem limits rest).of_suffix
                (List.suffix_cons c rest)
          · exact tracked_readAtom limits hsign (c :: rest)
  | succ depth ih =>
    cases s with
    | nil => trivial
    | cons c rest =>
      unfold readValue
      split
      · exact ((tracked_readString limits (c :: rest) rest).map Json.str).of_suffix
          (List.suffix_cons c rest)
      · split
        · exact (tracked_readArray ih rest).of_suffix (List.suffix_cons c rest)
        · split
          · exact (tracked_readObject ih limits rest).of_suffix (List.suffix_cons c rest)
          · exact tracked_readAtom limits hsign (c :: rest)

/-- Digits that a document is refused for stand in it. -/
theorem longRun_of_read {s : Text} {n : Nat} (h : read .lenient s = .error (.overlong n)) :
    LongRun n s := by
  have ht := (tracked_readValue .lenient rfl Limits.lenient.depth (skipGap s)).of_suffix
    (suffix_skipGap s)
  unfold read readAlone at h
  rcases hv : readValue .lenient Limits.lenient.depth (skipGap s) with stop | ⟨value, rest⟩
  · rw [hv] at h ht
    cases stop with
    | malformed => cases h
    | tooDeep => cases h
    | overlong m =>
      cases h
      exact ht
  · simp only [hv, bind, Except.bind] at h
    split at h
    · cases h
    · cases h

theorem longRun_of_ofText {s : Text} {n : Nat} (h : ofText s = .error (.overlong n)) :
    LongRun n s := by
  unfold ofText at h
  split at h
  · cases h
  · exact longRun_of_read h

end CargoReport.Json
