import LineWatch.EventStream.Event
import LineWatch.EventStream.Frame
import LineWatch.Interval.Basic
import LineWatch.Kpi.Window
import LineWatch.Proofs.Json.RoundTrip
import LineWatch.Proofs.Time.Spelling

/-!
# Dumps are read back

The dump of a record holds all of its fields, and reading it yields the record again: times come
back to the microsecond with the offset they had, what is missing comes back as missing, and a
detail of any shape is passed on as it is. Written out as text, a dump is read back if the reader
takes it at all, that is, unless its integers or the nesting of its details exceed the limits. A
status event always is.
-/

namespace LineWatch

/-- The dump of every value is read as that value. -/
def ReadsBack {α : Type} (toJson : α → Json) (decode : Decoder α) : Prop :=
  ∀ a, decode (toJson a) = .ok a

namespace Decoder

variable {α : Type} {d : Decoder α} {toJson : α → Json}

theorem optional_ofOption (h : ReadsBack toJson d) (hnull : ∀ a, toJson a ≠ .null) :
    ReadsBack (Json.ofOption toJson) (optional d) := by
  intro o
  cases o with
  | none => rfl
  | some a =>
    have hread : optional d (toJson a) = some <$> d (toJson a) := by
      unfold optional
      split
      · next hv => exact absurd hv (hnull a)
      · rfl
    rw [Json.ofOption, hread, h a]
    rfl

theorem itemsFrom_map (h : ReadsBack toJson d) (items : List α) (i : ℕ) :
    itemsFrom d i (items.map toJson) = .ok items := by
  induction items generalizing i with
  | nil => rfl
  | cons a items ih => simp [itemsFrom, h a, ih]

theorem list_map (h : ReadsBack toJson d) (items : List α) :
    list d (.arr (items.map toJson)) = .ok items :=
  itemsFrom_map h items 0

@[simp] theorem text_str (s : String) : text (.str s) = .ok s := rfl

@[simp] theorem int_int (i : ℤ) : int (.int i) = .ok i := rfl

@[simp] theorem bool_bool (b : Bool) : bool (.bool b) = .ok b := rfl

@[simp] theorem json_eq (v : Json) : json v = .ok v := rfl

@[simp] theorem optional_text (o : Option String) : optional text (Json.ofOption .str o) = .ok o :=
  optional_ofOption text_str (by simp) o

@[simp] theorem optional_int (o : Option ℤ) : optional int (Json.ofOption .int o) = .ok o :=
  optional_ofOption int_int (by simp) o

@[simp] theorem optional_status (o : Option Status) :
    optional Status.decode (Json.ofOption Status.toJson o) = .ok o :=
  optional_ofOption Status.decode_toJson (by simp [Status.toJson]) o

@[simp] theorem optional_instant (o : Option Instant) :
    optional instant (Json.ofOption (.str ·.text) o) = .ok o :=
  optional_ofOption instant_text (by simp) o

@[simp] theorem optional_timestamp (o : Option Timestamp) :
    optional timestamp (Json.ofOption (.str ·.text) o) = .ok o :=
  optional_ofOption timestamp_text (by simp) o

@[simp] theorem list_ofStrings (items : List String) :
    list text (Json.ofStrings items) = .ok items :=
  list_map text_str items

end Decoder

@[simp] theorem Timeframe.decode_name (t : Timeframe) : decode (.str t.name) = .ok t := by
  simp [decode, ofText]

section

open Decoder

theorem StatusChange.readsBack : ReadsBack toJson decode := by
  intro c
  simp [toJson, decode, object, required, defaulted, Json.field?, List.lookup_cons]

theorem Interval.readsBack : ReadsBack toJson decode := by
  intro i
  simp [toJson, decode, object, required, defaulted, Json.field?, List.lookup_cons]

theorem Label.readsBack : ReadsBack toJson decode := by
  intro l
  simp [toJson, decode, object, required, defaulted, Json.field?, List.lookup_cons]

theorem ProductionLine.ofFields_append (line : ProductionLine) (rest : List (String × Json)) :
    ofFields (line.fields ++ rest) = .ok line := by
  simp [fields, ofFields, required, defaulted, Json.field?, List.lookup_cons,
    list_map Label.readsBack]

theorem ProductionLine.readsBack : ReadsBack toJson decode := by
  intro line
  rw [toJson, decode, object, ← List.append_nil line.fields, ofFields_append]

theorem LineView.readsBack : ReadsBack toJson decode := by
  intro v
  have helapsed : Json.field? (v.line.fields ++ [("status_elapsed_seconds", .int v.elapsedSeconds),
      ("status_elapsed", .str v.elapsedText)]) "status_elapsed_seconds" =
      some (.int v.elapsedSeconds) := by
    simp [ProductionLine.fields, Json.field?, List.lookup_cons]
  have htext : Json.field? (v.line.fields ++ [("status_elapsed_seconds", .int v.elapsedSeconds),
      ("status_elapsed", .str v.elapsedText)]) "status_elapsed" = some (.str v.elapsedText) := by
    simp [ProductionLine.fields, Json.field?, List.lookup_cons]
  simp [toJson, decode, object, defaulted, helapsed, htext, ProductionLine.ofFields_append]

theorem Window.readsBack : ReadsBack toJson decode := by
  intro w
  simp [toJson, decode, object, required, Json.field?, List.lookup_cons]

theorem Query.readsBack : ReadsBack toJson decode := by
  intro q
  simp [toJson, decode, object, defaulted, Json.field?, List.lookup_cons]

theorem Frame.readsBack : ReadsBack toJson decode := by
  intro f
  simp [toJson, decode, object, defaulted, Json.field?, List.lookup_cons]

theorem StreamEvent.decodeStatus_toJson (type : Option String) (t : Instant) (id code : String)
    (status : Status) : decodeStatus (lineStatus type t id code status).toJson =
      .ok (.lineStatus type t id code status) := by
  simp [toJson, stampFields, decodeStatus, decodeType, object, required, defaulted, Json.field?,
    List.lookup_cons]

end

namespace Json

variable {α : Type} {limits : Limits} {depth : ℕ}

@[simp] theorem plain_bool (b : Bool) : Plain limits depth (.bool b) := .bool b

@[simp] theorem plain_str (s : String) : Plain limits depth (.str s) := .str s

@[simp] theorem plain_status (s : Status) : Plain limits depth s.toJson := .str _

theorem plain_ofOption {f : α → Json} {o : Option α} (h : ∀ a ∈ o, Plain limits depth (f a)) :
    Plain limits depth (ofOption f o) := by
  cases o with
  | none => exact .null
  | some a => exact h a rfl

@[simp] theorem plain_ofOption_text (o : Option String) : Plain limits depth (ofOption .str o) :=
  plain_ofOption fun s _ => .str s

@[simp] theorem plain_ofOption_str (f : α → String) (o : Option α) :
    Plain limits depth (ofOption (fun a => .str (f a)) o) :=
  plain_ofOption fun a _ => .str (f a)

@[simp] theorem plain_ofOption_status (o : Option Status) :
    Plain limits depth (ofOption Status.toJson o) :=
  plain_ofOption fun s _ => plain_status s

theorem plain_ofStrings (items : List String) : Plain limits (depth + 1) (ofStrings items) := by
  refine .arr fun v hv => ?_
  obtain ⟨s, -, rfl⟩ := List.mem_map.mp hv
  exact .str s

end Json

section

open Json

variable {limits : Limits} {depth : ℕ}

theorem StatusChange.plain_toJson {c : StatusChange} (h : Plain limits depth c.sourceDetail) :
    Plain limits (depth + 1) c.toJson :=
  .obj (by simp) (by simp [h])

theorem Label.plain_toJson (l : Label) : Plain limits (depth + 1) l.toJson :=
  .obj (by simp) (by simp)

theorem ProductionLine.plain_fields (line : ProductionLine) :
    ∀ f ∈ line.fields, Plain limits (depth + 2) f.2 := by
  have hlabels : Plain limits (depth + 2) (.arr (line.labels.map Label.toJson)) := by
    refine .arr fun v hv => ?_
    obtain ⟨l, -, rfl⟩ := List.mem_map.mp hv
    exact l.plain_toJson
  simp [fields, hlabels]

theorem ProductionLine.plain_toJson (line : ProductionLine) :
    Plain limits (depth + 3) line.toJson :=
  .obj (by simp [fields]) line.plain_fields

theorem LineView.plain_toJson {v : LineView}
    (h : Plain limits (depth + 2) (.int v.elapsedSeconds)) : Plain limits (depth + 3) v.toJson :=
  .obj (by simp [ProductionLine.fields])
    (List.forall_mem_append.mpr ⟨v.line.plain_fields, by simp [h]⟩)

theorem Interval.plain_toJson {i : Interval} (hstart : Plain limits depth (.int i.start))
    (hstop : Plain limits depth (.int i.stop)) : Plain limits (depth + 1) i.toJson :=
  .obj (by simp) (by simp [hstart, hstop])

theorem Window.plain_toJson (w : Window) : Plain limits (depth + 1) w.toJson :=
  .obj (by simp) (by simp)

theorem Query.plain_toJson (q : Query) : Plain limits (depth + 2) q.toJson :=
  .obj (by simp) (by simp [plain_ofStrings])

theorem Frame.plain_toJson {f : Frame} (h : ∀ n ∈ f.retry, Plain limits depth (.int n)) :
    Plain limits (depth + 1) f.toJson :=
  .obj (by simp) (by simp [plain_ofOption h])

theorem StreamEvent.plain_toJson_lineStatus (type : Option String) (t : Instant) (id code : String)
    (status : Status) : Plain limits (depth + 1) (lineStatus type t id code status).toJson :=
  .obj (by simp [stampFields]) (by simp [stampFields])

end

/-- A dump within the limits of the reader is read back from its text as well. -/
theorem ReadsBack.ofText_render {α : Type} {toJson : α → Json} {decode : Decoder α}
    (h : ReadsBack toJson decode) {a : α} (hplain : Json.Plain {} 200 (toJson a)) :
    Decoder.ofText decode (toJson a).render = .ok a := by
  rw [Decoder.ofText, Json.parse?_render rfl hplain]
  exact h a

/-- At most as many digits as the reader takes. -/
def IsShort (i : ℤ) : Prop := (Nat.toDigits 10 i.natAbs).length ≤ 4300

instance (i : ℤ) : Decidable (IsShort i) := inferInstanceAs (Decidable (_ ≤ 4300))

theorem IsShort.plain {i : ℤ} (h : IsShort i) {depth : ℕ} : Json.Plain {} depth (.int i) := .int h

theorem StreamEvent.ofData_render (type : Option String) (t : Instant) (id code : String)
    (status : Status) : ofData .lineStatus (lineStatus type t id code status).toJson.render =
      .ok (.lineStatus type t id code status) := by
  have hfilled : ¬((lineStatus type t id code status).toJson.render == "") = true := by
    rw [beq_iff_eq, ← String.toList_inj]
    simp [Json.render, toJson, Json.text]
  rw [ofData, if_neg hfilled, Decoder.ofText,
    Json.parse?_render rfl (plain_toJson_lineStatus type t id code status)]
  exact decodeStatus_toJson type t id code status

/-- All records, and the events of a status, are read back from their dumps, whatever times they
hold: as values in any case, and as texts if the reader takes the integers and the details. -/
theorem dumps_read_back :
    (ReadsBack StatusChange.toJson StatusChange.decode ∧
      ReadsBack Interval.toJson Interval.decode ∧ ReadsBack Label.toJson Label.decode ∧
      ReadsBack ProductionLine.toJson ProductionLine.decode ∧
      ReadsBack LineView.toJson LineView.decode ∧ ReadsBack Window.toJson Window.decode ∧
      ReadsBack Query.toJson Query.decode ∧ ReadsBack Frame.toJson Frame.decode) ∧
    ((∀ c : StatusChange, Json.Plain {} 199 c.sourceDetail →
        Decoder.ofText StatusChange.decode c.toJson.render = .ok c) ∧
      (∀ i : Interval, IsShort i.start → IsShort i.stop →
        Decoder.ofText Interval.decode i.toJson.render = .ok i) ∧
      (∀ l : Label, Decoder.ofText Label.decode l.toJson.render = .ok l) ∧
      (∀ line : ProductionLine,
        Decoder.ofText ProductionLine.decode line.toJson.render = .ok line) ∧
      (∀ v : LineView, IsShort v.elapsedSeconds →
        Decoder.ofText LineView.decode v.toJson.render = .ok v) ∧
      (∀ w : Window, Decoder.ofText Window.decode w.toJson.render = .ok w) ∧
      (∀ q : Query, Decoder.ofText Query.decode q.toJson.render = .ok q) ∧
      ∀ f : Frame, (∀ n ∈ f.retry, IsShort n) →
        Decoder.ofText Frame.decode f.toJson.render = .ok f) ∧
    ∀ type t id code status, StreamEvent.ofData .lineStatus
      (StreamEvent.lineStatus type t id code status).toJson.render =
        .ok (.lineStatus type t id code status) :=
  ⟨⟨StatusChange.readsBack, Interval.readsBack, Label.readsBack, ProductionLine.readsBack,
      LineView.readsBack, Window.readsBack, Query.readsBack, Frame.readsBack⟩,
    ⟨fun _ h => StatusChange.readsBack.ofText_render (StatusChange.plain_toJson h),
      fun _ hstart hstop =>
        Interval.readsBack.ofText_render (Interval.plain_toJson hstart.plain hstop.plain),
      fun l => Label.readsBack.ofText_render l.plain_toJson,
      fun line => ProductionLine.readsBack.ofText_render line.plain_toJson,
      fun _ h => LineView.readsBack.ofText_render (LineView.plain_toJson h.plain),
      fun w => Window.readsBack.ofText_render w.plain_toJson,
      fun q => Query.readsBack.ofText_render q.plain_toJson,
      fun _ h => Frame.readsBack.ofText_render (Frame.plain_toJson fun n hn => (h n hn).plain)⟩,
    StreamEvent.ofData_render⟩

/-- A detail with a fraction and a list, a span before 1970, and a wait of three seconds. -/
theorem dumps_read_back_detail :
    let detail : Json :=
      .obj [("share", .float (.finite (1 / 2))), ("codes", .arr [.int 7, .null])]
    let c : StatusChange :=
      { time := .epoch, lineId := "a", newStatus := .on, sourceDetail := detail }
    let i : Interval := { start := -1500, stop := -1, lineId := "a", status := .on }
    let v : LineView := ⟨{ id := "a", code := "A", name := "Line a", status := .on }, 90, "1m 30s"⟩
    let f : Frame := { data := "on", retry := some 3000 }
    Json.Plain {} 199 detail ∧ IsShort i.start ∧ IsShort i.stop ∧
      IsShort v.elapsedSeconds ∧ (∀ n ∈ f.retry, IsShort n) ∧
      Decoder.ofText StatusChange.decode c.toJson.render = .ok c ∧
      Decoder.ofText Interval.decode i.toJson.render = .ok i ∧
      Decoder.ofText LineView.decode v.toJson.render = .ok v ∧
      Decoder.ofText Frame.decode f.toJson.render = .ok f := by
  intro detail c i v f
  have hhalf : (Binary64.finite (1 / 2)).IsNumber := by
    refine ⟨?_, rfl⟩
    unfold Binary64.IsRounded
    decide +kernel
  have hdetail : Json.Plain {} 199 detail := by
    refine .obj (by decide) (List.forall_mem_cons.mpr ⟨.float hhalf, ?_⟩)
    refine List.forall_mem_singleton.mpr (.arr ?_)
    exact List.forall_mem_cons.mpr ⟨.int (by decide), List.forall_mem_singleton.mpr .null⟩
  have hstart : IsShort i.start := by decide
  have hstop : IsShort i.stop := by decide
  have helapsed : IsShort v.elapsedSeconds := by decide
  have hretry : ∀ n ∈ f.retry, IsShort n := by decide
  obtain ⟨hchange, hinterval, -, -, hview, -, -, hframe⟩ := dumps_read_back.2.1
  exact ⟨hdetail, hstart, hstop, helapsed, hretry, hchange c hdetail,
    hinterval i hstart hstop, hview v helapsed, hframe f hretry⟩

end LineWatch
