import CargoReport.Message.Tree
import CargoReport.Proofs.Json.Same
import Mathlib.Data.List.Nodup

namespace CargoReport

/-- An object with just these members. -/
def Json.Holds (v : Json) (fields : List (Text × Json)) : Prop :=
  ∃ members, v = .obj members ∧ members.Perm fields

theorem Json.Holds.get? {v : Json} {fields : List (Text × Json)} (h : v.Holds fields)
    (hn : (fields.map Prod.fst).Nodup) :
    ∃ members, v = .obj members ∧ ∀ f ∈ fields, Json.get? members f.1 = some f.2 := by
  obtain ⟨members, rfl, hperm⟩ := h
  refine ⟨members, rfl, fun f hf => ?_⟩
  exact Json.get?_of_mem ((hperm.map Prod.fst).nodup_iff.mpr hn) (hperm.mem_iff.mpr hf)

/-- A text, or null for none. -/
def Json.ofText? : Option Text → Json
  | some t => .str t
  | none => .null

def Code.Encoded (c : Code) (v : Json) : Prop :=
  v.Holds [("code", .str c.code), ("explanation", .ofText? c.explanation)]

def Span.Encoded (s : Span) (v : Json) : Prop :=
  v.Holds [("file_name", .str s.fileName), ("line_start", .int s.lineStart),
    ("line_end", .int s.lineEnd), ("column_start", .int s.columnStart),
    ("column_end", .int s.columnEnd), ("byte_start", .int s.byteStart),
    ("byte_end", .int s.byteEnd), ("is_primary", .bool s.isPrimary), ("label", .ofText? s.label)]

/-- A code, or null for none. -/
def Code.Encoded? : Option Code → Json → Prop
  | some c, v => c.Encoded v
  | none, v => v = .null

namespace Message

mutual

def Encoded : Message → Json → Prop
  | ⟨level, message, rendered, code, spans, children⟩, v =>
    ∃ c ss vs, Code.Encoded? code c ∧ List.Forall₂ Span.Encoded spans ss ∧
      EncodedAll children vs ∧
      v.Holds [("level", .str level), ("message", .str message), ("rendered", .ofText? rendered),
        ("code", c), ("spans", .arr ss), ("children", .arr vs)]

def EncodedAll : List Message → List Json → Prop
  | [], vs => vs = []
  | m :: ms, vs => ∃ v more, vs = v :: more ∧ Encoded m v ∧ EncodedAll ms more

end

end Message

namespace Checked

variable {α : Type} {members : List (Text × Json)} {name : Text} {v : Json} {a : α}

theorem required_of_valid {check : Json → Checked α} (h : Json.get? members name = some v)
    (hv : check v = .valid a) : required members name check = .valid a := by
  rw [required_eq h, hv, within_valid]

theorem required_text {t : Text} (h : Json.get? members name = some (.str t)) :
    required members name text = .valid t :=
  required_of_valid h rfl

theorem required_integer {z : Int} (h : Json.get? members name = some (.int z)) :
    required members name integer = .valid z :=
  required_of_valid h rfl

theorem required_flag {b : Bool} (h : Json.get? members name = some (.bool b)) :
    required members name flag = .valid b :=
  required_of_valid h rfl

theorem withDefault_of_valid {check : Json → Checked α} {default : α}
    (h : Json.get? members name = some v) (hv : check v = .valid a) :
    withDefault members name default check = .valid a := by
  rw [withDefault, h]
  simp only [hv, within_valid]

theorem optional_ofText? (t : Option Text) : optional text (.ofText? t) = .valid t := by
  cases t with
  | none => rfl
  | some t => rfl

theorem possible_ofText? {t : Option Text} (h : Json.get? members name = some (.ofText? t)) :
    possible members name text = .valid t :=
  withDefault_of_valid h (optional_ofText? t)

theorem list_of_forall₂ {Encodes : α → Json → Prop} {check : Json → Checked α}
    (hcheck : ∀ a v, Encodes a v → check v = .valid a) {as : List α} {vs : List Json}
    (h : List.Forall₂ Encodes as vs) : list check (.arr vs) = .valid as := by
  have hmap : vs.map check = as.map .valid := by
    induction h with
    | nil => rfl
    | cons hav _ ih => rw [List.map_cons, List.map_cons, hcheck _ _ hav, ih]
  rw [list, hmap, collect_map_valid]

end Checked

theorem Code.check_of_encoded {c : Code} {v : Json} (h : c.Encoded v) :
    Code.check v = .valid c := by
  have hnames : ([("code" : Text), "explanation"] : List Text).Nodup := by decide
  obtain ⟨members, rfl, hget⟩ := h.get? hnames
  simp only [List.forall_mem_cons] at hget
  obtain ⟨hcode, hexplanation, -⟩ := hget
  simp only [Code.check, Checked.object, Checked.required_text hcode,
    Checked.possible_ofText? hexplanation]
  rfl

theorem Code.optional_of_encoded {c : Option Code} {v : Json} (h : Code.Encoded? c v) :
    Checked.optional Code.check v = .valid c := by
  cases c with
  | none =>
    rw [h]
    rfl
  | some c =>
    have hc : Code.check v = .valid c := Code.check_of_encoded h
    obtain ⟨members, rfl, -⟩ := h
    rw [Checked.optional, hc]
    · rfl
    · exact fun hnull => by cases hnull

theorem Span.check_of_encoded {s : Span} {v : Json} (h : s.Encoded v) :
    Span.check v = .valid s := by
  have hnames : ([("file_name" : Text), "line_start", "line_end", "column_start", "column_end",
      "byte_start", "byte_end", "is_primary", "label"] : List Text).Nodup := by decide
  obtain ⟨members, rfl, hget⟩ := h.get? hnames
  simp only [List.forall_mem_cons] at hget
  obtain ⟨hfile, hline, hlineEnd, hcolumn, hcolumnEnd, hbyte, hbyteEnd, hprimary, hlabel, -⟩ := hget
  simp only [Span.check, Checked.object, Checked.required_text hfile,
    Checked.required_integer hline, Checked.required_integer hlineEnd,
    Checked.required_integer hcolumn, Checked.required_integer hcolumnEnd,
    Checked.required_integer hbyte, Checked.required_integer hbyteEnd,
    Checked.required_flag hprimary, Checked.possible_ofText? hlabel]
  rfl

namespace Message

mutual

/-- What a message is written as is checked to be that message. -/
theorem checkTree_of_encoded : ∀ {m : Message} {v : Json}, Encoded m v → checkTree v = .valid m
  | ⟨level, message, rendered, code, spans, children⟩, v, h => by
    rw [Encoded] at h
    obtain ⟨c, ss, vs, hc, hss, hvs, h⟩ := h
    have hnames : ([("level" : Text), "message", "rendered", "code", "spans", "children"] :
        List Text).Nodup := by decide
    obtain ⟨members, rfl, hget⟩ := h.get? hnames
    simp only [List.forall_mem_cons] at hget
    obtain ⟨hlevel, hmessage, hrendered, hcode, hspans, hchildren, -⟩ := hget
    have hvalues : childValues (.obj members) = vs := by
      simp only [childValues, hchildren]
    have hcode : Checked.possible members "code" Code.check = .valid code :=
      Checked.withDefault_of_valid hcode (Code.optional_of_encoded hc)
    have hlist : Checked.list Span.check (.arr ss) = .valid spans :=
      Checked.list_of_forall₂ (fun _ _ h => Span.check_of_encoded h) hss
    have hspans : Checked.withDefault members "spans" [] (Checked.list Span.check) =
        .valid spans := Checked.withDefault_of_valid hspans hlist
    rw [checkTree_eq, hvalues, allOrFirst_of_encoded hvs]
    simp only [checkNode, Checked.object, ofMembers, Checked.required_text hlevel,
      Checked.required_text hmessage, Checked.possible_ofText? hrendered, hcode, hspans]
    rw [Checked.withDefault_of_valid (a := children) hchildren]
    · rfl
    · rfl

theorem allOrFirst_of_encoded : ∀ {ms : List Message} {vs : List Json}, EncodedAll ms vs →
    Checked.allOrFirst (vs.map checkTree) = .valid ms
  | [], vs, h => by
    rw [EncodedAll] at h
    rw [h]
    rfl
  | m :: ms, vs, h => by
    rw [EncodedAll] at h
    obtain ⟨v, more, rfl, hv, hmore⟩ := h
    rw [List.map_cons, checkTree_of_encoded hv, Checked.allOrFirst, allOrFirst_of_encoded hmore]
    rfl

end

end Message

def Code.toJson? : Option Code → Json
  | some c => .obj [("code", .str c.code), ("explanation", .ofText? c.explanation)]
  | none => .null

def Span.toJson (s : Span) : Json :=
  .obj [("file_name", .str s.fileName), ("line_start", .int s.lineStart),
    ("line_end", .int s.lineEnd), ("column_start", .int s.columnStart),
    ("column_end", .int s.columnEnd), ("byte_start", .int s.byteStart),
    ("byte_end", .int s.byteEnd), ("is_primary", .bool s.isPrimary), ("label", .ofText? s.label)]

namespace Message

mutual

def toJson : Message → Json
  | ⟨level, message, rendered, code, spans, children⟩ =>
    .obj [("level", .str level), ("message", .str message), ("rendered", .ofText? rendered),
      ("code", Code.toJson? code), ("spans", .arr (spans.map Span.toJson)),
      ("children", .arr (toJsonAll children))]

def toJsonAll : List Message → List Json
  | [] => []
  | m :: ms => toJson m :: toJsonAll ms

end

mutual

theorem encoded_toJson : ∀ m : Message, Encoded m m.toJson
  | ⟨level, message, rendered, code, spans, children⟩ => by
    have hcode : Code.Encoded? code (Code.toJson? code) := by
      cases code with
      | none => rfl
      | some c => exact ⟨_, rfl, .refl _⟩
    have hspans : List.Forall₂ Span.Encoded spans (spans.map Span.toJson) := by
      rw [List.forall₂_map_right_iff, List.forall₂_same]
      exact fun s _ => ⟨_, rfl, .refl _⟩
    rw [Encoded, toJson]
    exact ⟨_, _, _, hcode, hspans, encodedAll_toJsonAll children, _, rfl, .refl _⟩

theorem encodedAll_toJsonAll : ∀ ms : List Message, EncodedAll ms (toJsonAll ms)
  | [] => by
    rw [EncodedAll, toJsonAll]
  | m :: ms => by
    rw [EncodedAll, toJsonAll]
    exact ⟨_, _, rfl, encoded_toJson m, encodedAll_toJsonAll ms⟩

end

end Message

end CargoReport
