import Mathlib.Data.Nat.Find
import LineWatch.Proofs.Json.Nesting
import LineWatch.Remote.Reply

/-!
# What a body spells

A body spells a JSON value or none, however deep the value is nested. It is read as it spells
unless it is too deep for the room that there is; so a deep body is not read even if it spells
nothing, such as brackets that are only opened.
-/

namespace LineWatch

namespace Reply

variable {body : List UInt8} {room : ℕ}

/-- Room for any nesting of the body. -/
def fullRoom (body : List UInt8) : ℕ := ((textOfBytes? body).getD []).length

/-- The JSON value that a body spells, however deep it is nested. -/
def json? (body : List UInt8) : Option Json := (parse body (fullRoom body)).toOption

/-- More lists and objects are open at some point of the body than there is room for. -/
def TooDeep (body : List UInt8) (room : ℕ) : Prop :=
  ∃ container, parse body room = .error (.tooDeep container)

instance (body : List UInt8) (room : ℕ) : Decidable (TooDeep body room) :=
  match h : parse body room with
  | .error (.tooDeep container) => .isTrue ⟨container, h⟩
  | .error .malformed | .ok _ => .isFalse (by simp [TooDeep, h])

theorem not_tooDeep_fullRoom (body : List UInt8) : ¬TooDeep body (fullRoom body) := by
  rintro ⟨container, hdeep⟩
  unfold parse fullRoom at hdeep
  cases htext : textOfBytes? body with
  | none => simp [htext] at hdeep
  | some cs =>
    simp only [htext, Option.getD_some] at hdeep
    exact Json.read_ne_tooDeep (Nat.le_refl cs.length) container hdeep

/-- More room changes nothing for a body that is not too deep. -/
theorem parse_of_le {room' : ℕ} (h : ¬TooDeep body room) (hle : room ≤ room') :
    parse body room' = parse body room := by
  unfold parse
  cases htext : textOfBytes? body with
  | none => rfl
  | some cs =>
    have hroom : ∀ container, Json.read { depth := room, countsEmpty := true } cs true ≠
        .error (.tooDeep container) :=
      fun container hdeep => h ⟨container, by simp only [parse, htext, hdeep]⟩
    exact Json.read_depth hle hroom

theorem parse_of_not_tooDeep (h : ¬TooDeep body room) :
    parse body room = parse body (fullRoom body) := by
  rcases Nat.le_total room (fullRoom body) with hle | hle
  · exact (parse_of_le h hle).symm
  · exact parse_of_le (not_tooDeep_fullRoom body) hle

/-- Every body has a depth, which the room has to reach. -/
theorem exists_depth (body : List UInt8) : ∃ depth, ∀ room, TooDeep body room ↔ room < depth := by
  have hexists : ∃ room, ¬TooDeep body room := ⟨_, not_tooDeep_fullRoom body⟩
  refine ⟨Nat.find hexists, fun room => ?_⟩
  rw [Nat.lt_find_iff]
  refine ⟨fun hdeep room' hle hfits => ?_, fun h => not_not.mp (h room (Nat.le_refl room))⟩
  rw [TooDeep, parse_of_le hfits hle] at hdeep
  exact hfits hdeep

example : TooDeep "[1, [], []]".toUTF8.toList 1 ∧ ¬TooDeep "[1, [], []]".toUTF8.toList 2 := by
  decide +kernel

theorem payload_of_tooDeep (h : TooDeep body room) :
    ∃ container, payload body room = .error (.tooDeep container) := by
  obtain ⟨container, hdeep⟩ := h
  exact ⟨container, by rw [payload, hdeep]⟩

/-- Without a value the payload is an empty object. -/
theorem payload_of_not_tooDeep (h : ¬TooDeep body room) :
    payload body room = .ok ((json? body).getD (.obj [])) := by
  have hfull := not_tooDeep_fullRoom body
  rw [payload, parse_of_not_tooDeep h, json?]
  match hread : parse body (fullRoom body) with
  | .ok v => rfl
  | .error .malformed => rfl
  | .error (.tooDeep container) => exact absurd ⟨container, hread⟩ hfull

end Reply

end LineWatch
