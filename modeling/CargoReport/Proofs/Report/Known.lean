import CargoReport.Proofs.Checked.Seen
import CargoReport.Proofs.Json.Dump
import CargoReport.Proofs.Json.ReadBack
import CargoReport.Proofs.Report.Streaming

namespace CargoReport

open Json (Same inObject inArray only pick get?)
open Checked (Sees sees_text sees_integer sees_flag)

def Code.fields : List Text := ["code", "explanation"]

def Span.fields : List Text :=
  ["file_name", "line_start", "line_end", "column_start", "column_end", "byte_start", "byte_end",
    "is_primary", "label"]

def Message.fields : List Text := ["level", "message", "rendered", "code", "spans", "children"]

namespace Message

mutual

/-- A message without the members that are no fields: its own, those of its code and its spans, and
those of the messages below it. -/
def known : Json → Json
  | .obj members => .obj (knownMembers members)
  | v => v

def knownMembers : List (Text × Json) → List (Text × Json)
  | [] => []
  | (name, v) :: rest =>
    if fields.contains name then (name, knownField name v) :: knownMembers rest
    else knownMembers rest

def knownField (name : Text) : Json → Json
  | .arr vs =>
    .arr (if name = "children" then knownAll vs
      else if name = "spans" then vs.map (only Span.fields) else vs)
  | .obj members => .obj (if name = "code" then pick Code.fields members else members)
  | v => v

def knownAll : List Json → List Json
  | [] => []
  | v :: vs => known v :: knownAll vs

end

theorem known_eq : known = inObject knownMembers := by
  funext v
  cases v <;> rfl

theorem knownAll_eq_map (vs : List Json) : knownAll vs = vs.map known := by
  induction vs with
  | nil => rfl
  | cons v vs ih => rw [knownAll, ih, List.map_cons]

theorem knownField_children : knownField "children" = inArray known := by
  funext v
  cases v with
  | arr vs => simp only [knownField, if_true, knownAll_eq_map, inArray]
  | _ => rfl

theorem knownField_spans : knownField "spans" = inArray (only Span.fields) := by
  funext v
  cases v <;> rfl

theorem knownField_code : knownField "code" = only Code.fields := by
  funext v
  cases v <;> rfl

theorem knownField_of_notMem {name : Text}
    (h : name ∉ (["code", "spans", "children"] : List Text)) : knownField name = id := by
  simp only [List.mem_cons, List.not_mem_nil, or_false, not_or] at h
  obtain ⟨hcode, hspans, hchildren⟩ := h
  funext v
  cases v <;> simp [knownField, hcode, hspans, hchildren]

theorem get?_knownMembers {name : Text} (h : name ∈ fields) (members : List (Text × Json)) :
    get? (knownMembers members) name = (get? members name).map (knownField name) := by
  induction members with
  | nil => rfl
  | cons m rest ih =>
    obtain ⟨key, v⟩ := m
    rw [knownMembers, get?]
    by_cases hkey : fields.contains key
    · rw [if_pos hkey, get?, ih]
      cases get? rest name with
      | some later => rfl
      | none => by_cases heq : key = name <;> simp [heq]
    · have hne : key ≠ name := fun heq => hkey (by simpa [heq] using h)
      rw [if_neg hkey, ih, if_neg hne]
      cases get? rest name <;> rfl

end Message

theorem Code.sees_check : Sees (only fields) Code.check := by
  refine Sees.object fun o p hsame => ?_
  have hget : ∀ name ∈ fields, Option.Rel Same (get? o name) (get? p name) :=
    fun _ hname => hsame.get?_of_pick hname
  rw [sees_text.required (hget "code" (by decide)),
    sees_text.possible (fun _ => .rfl) (hget "explanation" (by decide))]

theorem Span.sees_check : Sees (only fields) Span.check := by
  refine Sees.object fun o p hsame => ?_
  have hget : ∀ name ∈ fields, Option.Rel Same (get? o name) (get? p name) :=
    fun _ hname => hsame.get?_of_pick hname
  rw [sees_text.required (hget "file_name" (by decide)),
    sees_integer.required (hget "line_start" (by decide)),
    sees_integer.required (hget "line_end" (by decide)),
    sees_integer.required (hget "column_start" (by decide)),
    sees_integer.required (hget "column_end" (by decide)),
    sees_integer.required (hget "byte_start" (by decide)),
    sees_integer.required (hget "byte_end" (by decide)),
    sees_flag.required (hget "is_primary" (by decide)),
    sees_text.possible (fun _ => .rfl) (hget "label" (by decide))]

namespace Message

theorem sees_text_field {name : Text} (h : name ∉ (["code", "spans", "children"] : List Text)) :
    Sees (knownField name) Checked.text := by
  rw [knownField_of_notMem h]
  exact sees_text

theorem sees_code : Sees (knownField "code") Code.check := by
  rw [knownField_code]
  exact Code.sees_check

theorem sees_spans : Sees (knownField "spans") (Checked.list Span.check) := by
  rw [knownField_spans]
  exact Span.sees_check.list

theorem sees_children (children : List Message) :
    Sees (knownField "children") fun
      | .arr _ => .valid children
      | _ => Checked.reject .notList := by
  rw [knownField_children]
  intro v w hsame
  rcases hsame.inArray_cases with ⟨vs, ws, rfl, rfl, -⟩ | ⟨hv, hw⟩
  · rfl
  · dsimp only
    split
    · exact absurd rfl (hv _)
    · rfl

theorem knownField_eq_null_iff (name : Text) (v : Json) :
    knownField name v = .null ↔ v = .null := by
  cases v <;> simp [knownField]

theorem rel_get?_of_same {o p : List (Text × Json)}
    (h : Same (.obj (knownMembers o)) (.obj (knownMembers p))) (name : Text)
    (hname : name ∈ fields) :
    Option.Rel (fun v w => Same (knownField name v) (knownField name w)) (get? o name)
      (get? p name) := by
  cases h with
  | obj hget =>
    have hfield := hget name
    rw [get?_knownMembers hname, get?_knownMembers hname] at hfield
    exact Json.rel_of_rel_map hfield

theorem ofMembers_eq_of_same {check : Json → Checked (List Message)}
    (hchildren : Sees (knownField "children") check) {o p : List (Text × Json)}
    (h : Same (.obj (knownMembers o)) (.obj (knownMembers p))) :
    ofMembers o check = ofMembers p check := by
  have hget := rel_get?_of_same h
  have hlevel := (sees_text_field (by decide)).required (hget "level" (by decide))
  have hmessage := (sees_text_field (by decide)).required (hget "message" (by decide))
  have hrendered := (sees_text_field (by decide)).possible (knownField_eq_null_iff _)
    (hget "rendered" (by decide))
  have hcode := sees_code.possible (knownField_eq_null_iff _) (hget _ (by decide))
  have hspans := sees_spans.withDefault [] (hget _ (by decide))
  have hchildren := hchildren.withDefault [] (hget _ (by decide))
  rw [ofMembers, ofMembers, hlevel, hmessage, hrendered, hcode, hspans, hchildren]

/-- The check of an object whose children are messages already sees its fields. -/
theorem sees_checkNode (children : List Message) : Sees known (checkNode children) := by
  rw [known_eq]
  exact Sees.object fun _ _ h => ofMembers_eq_of_same (sees_children children) h

theorem forall₂_childValues {v w : Json} (h : Same (known v) (known w)) :
    List.Forall₂ (fun a b => Same (known a) (known b)) (childValues v) (childValues w) := by
  cases v with
  | obj o =>
    cases w with
    | obj p =>
      have hget := rel_get?_of_same h "children" (by decide)
      rw [knownField_children] at hget
      rw [childValues, childValues]
      generalize get? o "children" = a at hget
      generalize get? p "children" = b at hget
      cases hget with
      | none => exact .nil
      | some hvw =>
        rcases hvw.inArray_cases with ⟨vs, ws, rfl, rfl, hall⟩ | ⟨hv, hw⟩
        · exact hall
        · split
          · rename_i heq
            exact absurd (Option.some.inj heq) (hv _)
          · split
            · rename_i heq
              exact absurd (Option.some.inj heq) (hw _)
            · exact .nil
    | _ => cases h
  | _ =>
    cases w with
    | obj p => cases h
    | _ => exact .nil

/-- The check of a tree sees the fields of all messages in it. -/
theorem checkTree_eq_of_same {v w : Json} (h : Same (known v) (known w)) :
    checkTree v = checkTree w := by
  -- The children of the two values go together in pairs, and those of `v` weigh less than `v`.
  have hchildren : ∀ a ∈ childValues v, ∀ b, Same (known a) (known b) → checkTree a = checkTree b :=
    fun a _ b hab => checkTree_eq_of_same hab
  rw [checkTree_eq, checkTree_eq w,
    Checked.map_eq_of_forall₂ hchildren (forall₂_childValues h)]
  cases Checked.allOrFirst ((childValues w).map checkTree) with
  | valid ms => exact sees_checkNode ms h
  | invalid issues => rfl
termination_by v.size
decreasing_by exact size_lt_of_mem ‹_›

end Message

namespace Line

/-- What counts of a record: its message, or its reason if it has no message. -/
def known (members : List (Text × Json)) : List (Text × Json) :=
  match get? members "message" with
  | some v => [("message", Message.known v)]
  | none => pick ["reason"] members

theorem get?_known_message (members : List (Text × Json)) :
    get? (known members) "message" = (get? members "message").map Message.known := by
  rw [known]
  cases hm : get? members "message" with
  | some v => rfl
  | none => exact Json.get?_pick_of_notMem (by decide) members

theorem ofMembers_eq_of_same {o p : List (Text × Json)}
    (h : Same (.obj (known o)) (.obj (known p))) : ofMembers o = ofMembers p := by
  have hmessage : Option.Rel (fun v w => Same (Message.known v) (Message.known w))
      (get? o "message") (get? p "message") := by
    cases h with
    | obj hget =>
      have hmessage := hget "message"
      rw [get?_known_message, get?_known_message] at hmessage
      exact Json.rel_of_rel_map hmessage
  -- Both have a message or neither has: a message is left in what counts of a record.
  rcases ho : get? o "message" with _ | v <;> rcases hp : get? p "message" with _ | w <;>
    rw [ho, hp] at hmessage
  · simp only [known, ho, hp] at h
    have hreason : Option.Rel Same (get? o "reason") (get? p "reason") :=
      h.get?_of_pick (by decide)
    simp only [ofMembers, ho, hp]
    generalize get? o "reason" = a at hreason
    generalize get? p "reason" = b at hreason
    cases hreason with
    | none => rfl
    | some hvw => cases hvw <;> rfl
  · cases hmessage
  · cases hmessage
  · cases hmessage with
    | some hvw =>
      simp only [ofMembers, ho, hp, Message.ofJson_eq, Message.checkTree_eq_of_same hvw]

/-- Lines with the same fields say the same: both are one record, or the message of both is refused
for the same number of issues. Other members do not count, nor does the order of any. -/
theorem toAction_of_same_known {s t : Text} {o p : List (Text × Json)}
    (hs : Json.ofText s.strip = .ok (.obj o)) (ht : Json.ofText t.strip = .ok (.obj p))
    (h : Same (.obj (known o)) (.obj (known p))) :
    (∃ r, (toAction s).run [] () = ⟨.ok (some r), (), [], []⟩ ∧
        (toAction t).run [] () = ⟨.ok (some r), (), [], []⟩) ∨
      ∃ issues,
        (toAction s).run [] () = ⟨.ok none, (), [.skipped (.badMessage issues)], []⟩ ∧
        (toAction t).run [] () = ⟨.ok none, (), [.skipped (.badMessage issues)], []⟩ := by
  have hreadS : read s = .ok (ofMembers p) := by
    rw [read_of_ofText hs, ofMembers_eq_of_same h]
  have hreadT : read t = .ok (ofMembers p) := read_of_ofText ht
  rcases ofMembers_cases p with ⟨r, hr⟩ | ⟨issues, hissues⟩
  · rw [hr] at hreadS hreadT
    exact .inl ⟨r, run_toAction_of_ok hreadS [] (), run_toAction_of_ok hreadT [] ()⟩
  · rw [hissues] at hreadS hreadT
    exact .inr ⟨issues, run_toAction_of_ok hreadS [] (), run_toAction_of_ok hreadT [] ()⟩

/-- A warning and the help below it, with members of all kinds that are no fields. -/
def laden : List (Text × Json) :=
  [("reason", .str "compiler-message"),
    ("message", .obj [("message", .str "unused"), ("level", .str "warning"),
      ("$message_type", .str "diagnostic"),
      ("code", .obj [("code", .str "dead_code"), ("explanation", .null), ("group", .int 1)]),
      ("children", .arr [.obj [("level", .str "help"), ("message", .str "remove it"),
        ("suggestions", .arr [.bool true])]])])]

/-- The same warning, its fields the other way round. -/
def turned : List (Text × Json) :=
  [("message", .obj [
      ("children", .arr [.obj [("message", .str "remove it"), ("level", .str "help")]]),
      ("code", .obj [("explanation", .null), ("code", .str "dead_code")]),
      ("level", .str "warning"), ("message", .str "unused")]),
    ("target", .null)]

theorem same_known_laden_turned : Same (.obj (known laden)) (.obj (known turned)) := by
  have hcode : Same (.obj [("code", .str "dead_code"), ("explanation", .null)])
      (.obj [("explanation", .null), ("code", .str "dead_code")]) :=
    Json.same_of_perm (.cons ⟨rfl, .str _⟩ (.cons ⟨rfl, .null⟩ .nil)) (.swap _ _ _) (by decide)
  have hhelp : Same (.obj [("level", .str "help"), ("message", .str "remove it")])
      (.obj [("message", .str "remove it"), ("level", .str "help")]) :=
    Json.same_of_perm (.cons ⟨rfl, .str _⟩ (.cons ⟨rfl, .str _⟩ .nil)) (.swap _ _ _) (by decide)
  have hmessage : Same
      (.obj [("message", .str "unused"), ("level", .str "warning"),
        ("code", .obj [("code", .str "dead_code"), ("explanation", .null)]),
        ("children", .arr [.obj [("level", .str "help"), ("message", .str "remove it")]])])
      (.obj [("children", .arr [.obj [("message", .str "remove it"), ("level", .str "help")]]),
        ("code", .obj [("explanation", .null), ("code", .str "dead_code")]),
        ("level", .str "warning"), ("message", .str "unused")]) :=
    Json.same_of_perm (p := [("message", .str "unused"), ("level", .str "warning"),
        ("code", .obj [("explanation", .null), ("code", .str "dead_code")]),
        ("children", .arr [.obj [("message", .str "remove it"), ("level", .str "help")]])])
      (.cons ⟨rfl, .str _⟩ (.cons ⟨rfl, .str _⟩ (.cons ⟨rfl, hcode⟩
        (.cons ⟨rfl, .arr (.cons hhelp .nil)⟩ .nil))))
      (List.reverse_perm _).symm (by decide)
  exact Json.same_of_perm (p := known turned) (.cons ⟨rfl, hmessage⟩ .nil) (.refl _) (by decide)

theorem toAction_of_same_known_laden_turned :
    (∃ r, (toAction (Json.obj laden).dump).run [] () = ⟨.ok (some r), (), [], []⟩ ∧
        (toAction (Json.obj turned).dump).run [] () = ⟨.ok (some r), (), [], []⟩) ∨
      ∃ issues,
        (toAction (Json.obj laden).dump).run [] () =
          ⟨.ok none, (), [.skipped (.badMessage issues)], []⟩ ∧
        (toAction (Json.obj turned).dump).run [] () =
          ⟨.ok none, (), [.skipped (.badMessage issues)], []⟩ := by
  have hladen : (Json.obj laden).Written (Json.obj laden).dump :=
    Json.written_dump (by decide +kernel)
  have hturned : (Json.obj turned).Written (Json.obj turned).dump :=
    Json.written_dump (by decide +kernel)
  refine toAction_of_same_known (o := laden) (p := turned) ?_ ?_ same_known_laden_turned
  · rw [Json.strip_written hladen, Json.ofText_written hladen (by decide +kernel)]
  · rw [Json.strip_written hturned, Json.ofText_written hturned (by decide +kernel)]

end Line

end CargoReport
