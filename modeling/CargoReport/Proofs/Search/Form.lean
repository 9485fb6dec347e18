import CargoReport.Proofs.Bytes
import CargoReport.Proofs.Search.Answers

namespace CargoReport.Search

/-- The byte that a character of a form stands for by itself. A plus is a space. -/
def plain? (c : CodePoint) : Option UInt8 :=
  if c = '+'.toNat then some 0x20 else if c < 0x80 then some (.ofNat c) else none

/-- The bytes that a part of a form stands for. A percent sign takes two hexadecimal digits. -/
def unescape? : Text → Option (List UInt8)
  | [] => some []
  | c :: rest =>
    if c = '%'.toNat then
      match rest with
      | high :: low :: rest => do
        let high ← Json.hexValue? high
        let low ← Json.hexValue? low
        return .ofNat (high * 16 + low) :: (← unescape? rest)
      | _ => none
    else do return (← plain? c) :: (← unescape? rest)

/-- The text that a part of a form stands for, if its bytes are all characters. -/
def part? (t : Text) : Option Text := do
  (Utf8.scan false none (← unescape? t)).mapM id

/-- A name and a value with the first equals sign between them. -/
def field? (t : Text) : Option (Text × Text) :=
  match t.dropWhile (· ≠ '='.toNat) with
  | [] => none
  | _ :: value => do return (← part? (t.takeWhile (· ≠ '='.toNat)), ← part? value)

/-- The names and values of a form. -/
def form? (t : Text) : Option (List (Text × Text)) := (t.splitOn '&'.toNat).mapM field?

/-- The characters of a query: ASCII letters and digits, and eight others. -/
def InQuery (c : CodePoint) : Prop :=
  'A'.toNat ≤ c ∧ c ≤ 'Z'.toNat ∨ 'a'.toNat ≤ c ∧ c ≤ 'z'.toNat ∨ '0'.toNat ≤ c ∧ c ≤ '9'.toNat ∨
    c ∈ ("_.-~%+&=" : Text)

instance (c : CodePoint) : Decidable (InQuery c) := inferInstanceAs (Decidable (_ ∨ _))

theorem isUnreserved_hexDigit {d : Nat} (h : d < 16) : isUnreserved (hexDigit d) = true := by
  have hall : ∀ d < 16, isUnreserved (hexDigit d) = true := by decide
  exact hall d h

theorem hexValue?_hexDigit {d : Nat} (h : d < 16) : Json.hexValue? (hexDigit d) = some d := by
  have hall : ∀ d < 16, Json.hexValue? (hexDigit d) = some d := by decide
  exact hall d h

theorem inQuery_of_isUnreserved {c : CodePoint} (h : isUnreserved c = true) : InQuery c := by
  simp only [isUnreserved, Bool.or_eq_true, Bool.and_eq_true, decide_eq_true_eq, beq_iff_eq] at h
  rcases h with (((((h | h) | h) | rfl) | rfl) | rfl) | rfl
  · exact .inl h
  · exact .inr (.inl h)
  · exact .inr (.inr (.inl h))
  all_goals exact .inr (.inr (.inr (by decide)))

theorem InQuery.printing {c : CodePoint} (h : InQuery c) : 0x20 < c ∧ c < 0x7F := by
  have hrange : ∀ {least greatest : Nat}, 0x20 < least → greatest < 0x7F →
      least ≤ c ∧ c ≤ greatest → 0x20 < c ∧ c < 0x7F := fun hleast hgreatest hc =>
    ⟨Nat.lt_of_lt_of_le hleast hc.1, Nat.lt_of_le_of_lt hc.2 hgreatest⟩
  rcases h with h | h | h | h
  · exact hrange (by decide) (by decide) h
  · exact hrange (by decide) (by decide) h
  · exact hrange (by decide) (by decide) h
  · have hall : ∀ c ∈ ("_.-~%+&=" : Text), 0x20 < c ∧ c < 0x7F := by decide
    exact hall c h

theorem ne_of_isUnreserved {n other : Nat} (h : isUnreserved n = true)
    (ho : isUnreserved other = false) : n ≠ other := by
  rintro rfl
  rw [h] at ho
  cases ho

/-- The three ways to write a byte. -/
theorem encodeByte_cases (b : UInt8) :
    (isUnreserved b.toNat = true ∧ encodeByte b = [b.toNat]) ∨
    (b = 0x20 ∧ encodeByte b = ['+'.toNat]) ∨
    encodeByte b = ['%'.toNat, hexDigit (b.toNat / 16), hexDigit (b.toNat % 16)] := by
  simp only [encodeByte]
  split
  · rename_i hself
    exact .inl ⟨hself, rfl⟩
  · split
    · rename_i hspace
      exact .inr (.inl ⟨UInt8.toNat_inj.mp hspace, rfl⟩)
    · exact .inr (.inr rfl)

theorem mem_encodeByte {b : UInt8} {c : CodePoint} (h : c ∈ encodeByte b) :
    isUnreserved c = true ∨ c = '+'.toNat ∨ c = '%'.toNat := by
  have hb : b.toNat < 256 := b.toNat_lt
  obtain ⟨hself, hbyte⟩ | ⟨-, hbyte⟩ | hbyte := encodeByte_cases b
  · rw [hbyte, List.mem_singleton] at h
    exact .inl (h ▸ hself)
  · rw [hbyte, List.mem_singleton] at h
    exact .inr (.inl h)
  · simp only [hbyte, List.mem_cons, List.not_mem_nil, or_false] at h
    rcases h with rfl | rfl | rfl
    · exact .inr (.inr rfl)
    · exact .inl (isUnreserved_hexDigit (by omega))
    · exact .inl (isUnreserved_hexDigit (by omega))

theorem unescape?_cons {c : CodePoint} (hc : c ≠ '%'.toNat) (rest : Text) :
    unescape? (c :: rest) = do return (← plain? c) :: (← unescape? rest) := by
  rw [unescape?.eq_def]
  exact if_neg hc

theorem plain?_of_isUnreserved {c : CodePoint} (h : isUnreserved c = true) :
    plain? c = some (.ofNat c) := by
  have hc := (inQuery_of_isUnreserved h).printing
  rw [plain?, if_neg (ne_of_isUnreserved h rfl), if_pos (Nat.lt_trans hc.2 (by decide))]

/-- An encoded byte is read back. -/
theorem unescape?_encodeByte (b : UInt8) (rest : Text) :
    unescape? (encodeByte b ++ rest) = (unescape? rest).map (b :: ·) := by
  obtain ⟨hself, hbyte⟩ | ⟨rfl, hbyte⟩ | hbyte := encodeByte_cases b
  · rw [hbyte, List.singleton_append, unescape?_cons (ne_of_isUnreserved hself rfl),
      plain?_of_isUnreserved hself, UInt8.ofNat_toNat]
    cases unescape? rest <;> rfl
  · rw [hbyte, List.singleton_append, unescape?_cons (by decide)]
    cases unescape? rest <;> rfl
  · have hb : b.toNat < 256 := b.toNat_lt
    have hhigh := hexValue?_hexDigit (show b.toNat / 16 < 16 by omega)
    have hlow := hexValue?_hexDigit (show b.toNat % 16 < 16 by omega)
    have hjoin : UInt8.ofNat (b.toNat / 16 * 16 + b.toNat % 16) = b := by
      rw [Nat.div_add_mod']
      exact UInt8.ofNat_toNat
    simp only [hbyte, List.cons_append, List.nil_append, unescape?, if_true, hhigh, hlow, bind,
      Option.bind, hjoin]
    cases unescape? rest <;> rfl

theorem unescape?_flatMap (bytes : List UInt8) :
    unescape? (bytes.flatMap encodeByte) = some bytes := by
  induction bytes with
  | nil => rfl
  | cons b bytes ih =>
    rw [List.flatMap_cons, unescape?_encodeByte, ih]
    rfl

/-- What was written element by element is read back element by element. -/
theorem mapM_map_of_reads {α β : Type} {read : β → Option α} {write : α → β} {as : List α}
    (h : ∀ a ∈ as, read (write a) = some a) : (as.map write).mapM read = some as := by
  induction as with
  | nil => rfl
  | cons a as ih =>
    have hrest := ih fun a' ha' => h a' (List.mem_cons_of_mem a ha')
    rw [List.map_cons, List.mapM_cons, h a List.mem_cons_self, hrest]
    rfl

theorem part?_encode {t : Text} (h : ∀ c ∈ t, Text.IsScalar c) : part? (encode t) = some t := by
  rw [part?, encode, unescape?_flatMap, Option.bind_eq_bind, Option.bind_some,
    Utf8.scan_encode false h]
  exact mapM_map_of_reads fun _ _ => rfl

theorem mem_encode {t : Text} {c : CodePoint} (h : c ∈ encode t) :
    isUnreserved c = true ∨ c = '+'.toNat ∨ c = '%'.toNat := by
  obtain ⟨b, -, hc⟩ := List.mem_flatMap.mp h
  exact mem_encodeByte hc

/-- No character that has a meaning in a form is in an encoded text, but for plus and percent. -/
theorem notMem_encode (t : Text) {c : CodePoint} (hc : isUnreserved c = false)
    (hplus : c ≠ '+'.toNat) (hpercent : c ≠ '%'.toNat) : c ∉ encode t := by
  intro h
  rcases mem_encode h with h | h | h
  · exact ne_of_isUnreserved h hc rfl
  · exact hplus h
  · exact hpercent h

/-- A name and its value in a query. -/
def escapeField (field : Text × Text) : Text := encode field.1 ++ '='.toNat :: encode field.2

theorem query_eq (fields : List (Text × Text)) :
    query fields = List.intercalate ['&'.toNat] (fields.map escapeField) := rfl

/-- A field that is made of characters. -/
def IsScalarField (field : Text × Text) : Prop :=
  (∀ c ∈ field.1, Text.IsScalar c) ∧ ∀ c ∈ field.2, Text.IsScalar c

theorem field?_escapeField {field : Text × Text} (h : IsScalarField field) :
    field? (escapeField field) = some field := by
  have hkeep : ∀ c ∈ encode field.1, decide (c ≠ '='.toNat) = true := by
    intro c hc
    refine decide_eq_true fun he => ?_
    exact notMem_encode field.1 rfl (by decide) (by decide) (he ▸ hc)
  rw [field?, escapeField, List.dropWhile_append_of_pos hkeep, List.takeWhile_append_of_pos hkeep]
  simp [part?_encode h.1, part?_encode h.2]

theorem ampersand_notMem_escapeField (field : Text × Text) : '&'.toNat ∉ escapeField field := by
  intro h
  rcases List.mem_append.mp h with h | h
  · exact notMem_encode field.1 rfl (by decide) (by decide) h
  · rcases List.mem_cons.mp h with h | h
    · exact absurd h (by decide)
    · exact notMem_encode field.2 rfl (by decide) (by decide) h

/-- A form is read back, if it has a field. -/
theorem form?_query {fields : List (Text × Text)} (hne : fields ≠ [])
    (h : ∀ field ∈ fields, IsScalarField field) : form? (query fields) = some fields := by
  have hsplit : (query fields).splitOn '&'.toNat = fields.map escapeField := by
    rw [query_eq, Text.splitOn_intercalate (by simpa using hne)]
    intro piece hpiece
    obtain ⟨field, -, rfl⟩ := List.mem_map.mp hpiece
    exact ampersand_notMem_escapeField field
  rw [form?, hsplit]
  exact mapM_map_of_reads fun field hfield => field?_escapeField (h field hfield)

theorem inQuery_of_mem_query {fields : List (Text × Text)} {c : CodePoint}
    (h : c ∈ query fields) : InQuery c := by
  have hencode : ∀ {t : Text}, c ∈ encode t → InQuery c := by
    intro t hc
    rcases mem_encode hc with hc | rfl | rfl
    · exact inQuery_of_isUnreserved hc
    all_goals decide
  rw [query_eq] at h
  obtain rfl | ⟨piece, hpiece, hc⟩ := Text.mem_of_mem_intercalate h
  · decide
  · obtain ⟨field, -, rfl⟩ := List.mem_map.mp hpiece
    rcases List.mem_append.mp hc with hc | hc
    · exact hencode hc
    · rcases List.mem_cons.mp hc with rfl | hc
      · decide
      · exact hencode hc

theorem isScalar_of_mem_ofInt {z : Int} {c : CodePoint} (h : c ∈ Decimal.ofInt z) :
    Text.IsScalar c := by
  have hdigits : ∀ n, c ∈ Decimal.ofNat n → Text.IsScalar c := by
    intro n hc
    have hdigit := List.all_eq_true.mp (Decimal.plain_ofNat n).1 c hc
    simp only [Decimal.isDigit, Bool.and_eq_true, decide_eq_true_eq] at hdigit
    exact .inl (Nat.lt_of_le_of_lt hdigit.2 (by decide))
  cases z with
  | ofNat n => exact hdigits n h
  | negSucc n =>
    rcases List.mem_cons.mp h with rfl | h
    · decide
    · exact hdigits (n + 1) h

variable {s : Search}

/-- What a search asks for, as the fields of a form. -/
def fields (s : Search) : List (Text × Text) :=
  [("per_page", Decimal.ofInt s.perPage), ("q", s.name)]

theorem form?_query_fields (hname : ∀ c ∈ s.name, Text.IsScalar c) :
    form? (query s.fields) = some s.fields := by
  refine form?_query (by simp [fields]) fun field hfield => ?_
  have hnames : ∀ c ∈ ("per_page" : Text) ++ ("q" : Text), Text.IsScalar c := by decide
  simp only [fields, List.mem_cons, List.not_mem_nil, or_false] at hfield
  rcases hfield with rfl | rfl
  · exact ⟨fun c hc => hnames c (List.mem_append_left _ hc), fun _ => isScalar_of_mem_ofInt⟩
  · exact ⟨fun c hc => hnames c (List.mem_append_right _ hc), hname⟩

theorem mem_url {c : CodePoint} (h : c ∈ s.url) : 0x20 < c ∧ c < 0x7F ∧ c ≠ '#'.toNat := by
  have hfixed : ∀ c ∈ endpoint ++ ['?'.toNat], 0x20 < c ∧ c < 0x7F ∧ c ≠ '#'.toNat := by
    decide +kernel
  rw [url, ← List.singleton_append, ← List.append_assoc] at h
  rcases List.mem_append.mp h with h | h
  · exact hfixed c h
  · have hc := inQuery_of_mem_query h
    refine ⟨hc.printing.1, hc.printing.2, ?_⟩
    rintro rfl
    exact absurd hc (by decide)

theorem calls_run (hname : ∀ c ∈ s.name, Text.IsScalar c) (h : Host) (earlier : List Call) :
    ((s.run h).run earlier ()).calls =
      if Decimal.Printable s.perPage then [.request s.request] else [] := by
  have hwritable : s.unwritable? = none ↔ Decimal.Printable s.perPage := by
    rw [unwritable?_eq_none_iff]
    exact and_iff_left fun c hc => (hname c hc).not_isSurrogate
  rw [run]
  split
  · rename_i fault hfault
    have hlong : ¬Decimal.Printable s.perPage := by
      rw [← hwritable, hfault]
      exact Option.some_ne_none fault
    rw [if_neg hlong]
    rfl
  · rename_i hnone
    rw [if_pos (hwritable.mp hnone), send, Action.calls_bind_of_quiet _ (fun answer => ?_)]
    · rfl
    · cases answer with
      | ok bytes => exact Action.quiet_ofExcept _
      | error cause =>
        dsimp only
        split
        · exact Action.quiet_stop _
        · exact Action.quiet_stop _

/-- A search by any name asks for one address, if its page size can be written: the endpoint with a
query of plain characters that reads back as the two fields of the search. So a name has an address
of its own, and no name ends the query, begins a line or adds a field. -/
theorem run_requests_form (s : Search) (hname : ∀ c ∈ s.name, Text.IsScalar c) :
    (∀ (h : Host) (earlier : List Call), ((s.run h).run earlier ()).calls =
      if Decimal.Printable s.perPage then [.request s.request] else []) ∧
    (∃ query, s.request.url = endpoint ++ '?'.toNat :: query ∧ (∀ c ∈ query, InQuery c) ∧
      form? query =
        some [(("per_page" : Text), Decimal.ofInt s.perPage), (("q" : Text), s.name)]) ∧
    (∀ c ∈ s.request.url, 0x20 < c ∧ c < 0x7F ∧ c ≠ '#'.toNat) ∧
    ∀ other : Search, (∀ c ∈ other.name, Text.IsScalar c) → other.request.url = s.request.url →
      other.name = s.name := by
  refine ⟨calls_run hname, ⟨query s.fields, rfl, fun _ => inQuery_of_mem_query,
    form?_query_fields hname⟩, fun _ => mem_url, ?_⟩
  intro other hother hurl
  have hquery : query other.fields = query s.fields :=
    (List.cons.inj (List.append_cancel_left hurl)).2
  have hfields : some other.fields = some s.fields := by
    rw [← form?_query_fields hother, ← form?_query_fields hname, hquery]
  simp only [fields, Option.some.injEq, List.cons.injEq, Prod.mk.injEq] at hfields
  exact hfields.2.1.2

/-- A name with the characters of a form, of an address and of lines, and with letters of two and
four bytes. -/
def reserved : Search := ⟨"a&q=c d%+#é\n😀", defaultPerPage, defaultTimeout⟩

theorem run_requests_form_reserved :
    (∀ c ∈ reserved.name, Text.IsScalar c) ∧
    reserved.request.url = Text.ofString
      "https://crates.io/api/v1/crates?per_page=20&q=a%26q%3Dc+d%25%2B%23%C3%A9%0A%F0%9F%98%80" ∧
    (∀ h : Host, ((reserved.run h).run [] ()).calls = [.request reserved.request]) ∧
    ∃ query, reserved.request.url = endpoint ++ '?'.toNat :: query ∧
      form? query = some [(("per_page" : Text), ("20" : Text)), (("q" : Text), reserved.name)] := by
  have hname : ∀ c ∈ reserved.name, Text.IsScalar c := by decide
  have hprintable : Decimal.Printable reserved.perPage := by decide
  have htext : Decimal.ofInt reserved.perPage = ("20" : Text) := by decide
  obtain ⟨hcalls, ⟨query, hurl, -, hform⟩, -⟩ := run_requests_form reserved hname
  refine ⟨hname, by decide +kernel, fun h => ?_, query, hurl, ?_⟩
  · rw [hcalls, if_pos hprintable]
  · rw [hform, htext]

end CargoReport.Search
