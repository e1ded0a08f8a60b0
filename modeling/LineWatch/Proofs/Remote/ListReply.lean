import LineWatch.Proofs.Cache.Operation
import LineWatch.Proofs.Remote.Body
import LineWatch.Cache.Reload

/-!
# Which replies replace the line list

A proper reply is a success whose body is an object with lines under `data`, or with nothing
there. A refused one is an error status, or a body that is nested too deep to be read, or JSON that
is no object, or an object whose data say something that cannot be read as lines. A refresh keeps
the cache exactly on the refused replies. What is neither proper nor refused is merged: no JSON at
all, data such as `false` or an empty text, and a status that is neither a success nor an error.
-/

namespace LineWatch

namespace Reply

variable {status : Int} {body : List UInt8} {room : ℕ} {o : List (String × Json)}

def dataOf (o : List (String × Json)) : Json := (Json.field? o "data").getD .null

def SpellsLines (v : Json) : Prop := ∃ lines, Decoder.list ProductionLine.decode v = .ok lines

def Proper (status : Int) (body : List UInt8) : Prop :=
  (200 ≤ status ∧ status ≤ 299) ∧
    ∃ o, json? body = some (.obj o) ∧ (dataOf o = .null ∨ SpellsLines (dataOf o))

def Refused (status : Int) (body : List UInt8) (room : ℕ) : Prop :=
  (400 ≤ status ∧ status ≤ 599) ∨ TooDeep body room ∨
  (∃ v, json? body = some v ∧ ∀ o, v ≠ .obj o) ∨
  ∃ o, json? body = some (.obj o) ∧ (dataOf o).isSubstantial = true ∧ ¬SpellsLines (dataOf o)

theorem isRefusal_iff : isRefusal status = true ↔ 400 ≤ status ∧ status ≤ 599 := by
  simp [isRefusal]

theorem read_isOk_iff (path : String) (v : Json) :
    (read path (Decoder.list ProductionLine.decode) v).isOk = true ↔ SpellsLines v := by
  unfold read SpellsLines
  cases Decoder.list ProductionLine.decode v <;> simp [Except.isOk, Except.toBool]

/-- Data that say nothing are read as an empty list, and all others as they are. -/
theorem read_data_isOk_iff (path : String) (v : Json) :
    (read path (Decoder.list ProductionLine.decode)
      (if v.isSubstantial then v else .arr [])).isOk = true ↔
      ¬(v.isSubstantial = true ∧ ¬SpellsLines v) := by
  cases hv : v.isSubstantial with
  | true => simp [read_isOk_iff]
  | false => simp [read_isOk_iff, SpellsLines, Decoder.list, Decoder.itemsFrom]

theorem lines_tooDeep_isOk (h : TooDeep body room) :
    (received status body room).lines.1.isOk = false := by
  obtain ⟨container, hpayload⟩ := payload_of_tooDeep h
  unfold lines items data
  simp only [hpayload]
  rfl

theorem lines_refusal_isOk (h : isRefusal status = true) {v : Json}
    (hbody : payload body room = .ok v) : (received status body room).lines.1.isOk = false := by
  unfold lines items data
  simp only [h, hbody, if_true]
  cases errorFields v <;> rfl

theorem lines_obj (h : isRefusal status = false) (hbody : payload body room = .ok (.obj o)) :
    (received status body room).lines.1 =
      read "/lines" (Decoder.list ProductionLine.decode)
        (if (dataOf o).isSubstantial then dataOf o else .arr []) := by
  unfold lines items data
  simp only [h, hbody, Bool.false_eq_true, if_false]
  rfl

theorem lines_not_obj (h : isRefusal status = false) {v : Json}
    (hbody : payload body room = .ok v) (hv : ∀ o, v ≠ .obj o) :
    (received status body room).lines.1.isOk = false := by
  unfold lines items data
  simp only [h, hbody, Bool.false_eq_true, if_false]
  cases v with
  | obj o => exact absurd rfl (hv o)
  | _ => rfl

theorem lines_isOk_iff (status : Int) (body : List UInt8) (room : ℕ) :
    (received status body room).lines.1.isOk = true ↔ ¬Refused status body room := by
  by_cases hdeep : TooDeep body room
  · have hrefused : Refused status body room := .inr (.inl hdeep)
    simp [lines_tooDeep_isOk hdeep, hrefused]
  · have hpayload := payload_of_not_tooDeep hdeep
    cases hs : isRefusal status with
    | true =>
      have hrefused : Refused status body room := .inl (isRefusal_iff.mp hs)
      simp [lines_refusal_isOk hs hpayload, hrefused]
    | false =>
      have hstatus : ¬(400 ≤ status ∧ status ≤ 599) := by
        rw [← isRefusal_iff, hs]
        exact Bool.false_ne_true
      cases hb : json? body with
      | none =>
        -- a body that is no JSON counts as an object without data
        rw [hb, Option.getD_none] at hpayload
        rw [lines_obj hs hpayload, read_data_isOk_iff]
        simp [Refused, hstatus, hdeep, hb, dataOf, Json.field?, Json.isSubstantial]
      | some v =>
        rw [hb, Option.getD_some] at hpayload
        by_cases hv : ∃ o, v = .obj o
        · obtain ⟨o, rfl⟩ := hv
          rw [lines_obj hs hpayload, read_data_isOk_iff]
          simp [Refused, hstatus, hdeep, hb]
        · push Not at hv
          have hrefused : Refused status body room := .inr (.inr (.inl ⟨v, hb, hv⟩))
          simp [lines_not_obj hs hpayload hv, hrefused]

theorem lines_isOk_of_proper (h : Proper status body) (hroom : ¬TooDeep body room) :
    (received status body room).lines.1.isOk = true := by
  rw [lines_isOk_iff]
  obtain ⟨hstatus, o, hb, hdata⟩ := h
  rintro (hs | hdeep | ⟨v, hv, hne⟩ | ⟨o', ho', hsub, hno⟩)
  · omega
  · exact hroom hdeep
  · rw [hb] at hv
    exact hne o (Option.some.inj hv).symm
  · rw [hb] at ho'
    obtain rfl : o = o' := Json.obj.inj (Option.some.inj ho')
    rcases hdata with hnull | hlines
    · rw [hnull] at hsub
      exact Bool.false_ne_true hsub
    · exact hno hlines

/-- A success that is neither proper nor refused is taken for a list without lines. -/
theorem lines_eq_nil_of_success (hstatus : 200 ≤ status ∧ status ≤ 299)
    (hproper : ¬Proper status body) (hrefused : ¬Refused status body room) :
    (received status body room).lines.1 = .ok [] := by
  have hs : isRefusal status = false := by
    rw [← Bool.not_eq_true, isRefusal_iff]
    omega
  have hpayload := payload_of_not_tooDeep fun hdeep => hrefused (.inr (.inl hdeep))
  cases hb : json? body with
  | none =>
    rw [hb, Option.getD_none] at hpayload
    rw [lines_obj hs hpayload]
    rfl
  | some v =>
    rw [hb, Option.getD_some] at hpayload
    by_cases hv : ∃ o, v = .obj o
    · obtain ⟨o, rfl⟩ := hv
      have hlines : ¬SpellsLines (dataOf o) := fun h => hproper ⟨hstatus, o, hb, .inr h⟩
      have hsub : (dataOf o).isSubstantial = false := by
        rw [← Bool.not_eq_true]
        exact fun h => hrefused (.inr (.inr (.inr ⟨o, hb, h, hlines⟩)))
      rw [lines_obj hs hpayload, hsub]
      rfl
    · push Not at hv
      exact absurd (.inr (.inr (.inl ⟨v, hb, hv⟩))) hrefused

end Reply

namespace LineCache

variable {cache : LineCache}

end LineCache

end LineWatch
