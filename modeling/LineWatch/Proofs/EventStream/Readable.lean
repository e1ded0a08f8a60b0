import LineWatch.EventStream.Event

/-!
# Payloads that cannot be read

A value that does not fit yields faults, and an instant that leaves the supported years when it
is moved to UTC makes the whole value unreadable. Only instants can do that, so a payload is
unreadable exactly if it is an object with such an instant in one of the fields that are read as
instants: the time of the event, or one of the three times of the snapshot it carries.
-/

namespace LineWatch

namespace Decoded

variable {α β : Type}

@[simp] theorem map_eq_outOfRange (f : α → β) (d : Decoded α) :
    f <$> d = .outOfRange ↔ d = .outOfRange := by
  cases d <;> simp [Functor.map, map]

@[simp] theorem seq_eq_outOfRange (f : Decoded (α → β)) (d : Decoded α) :
    f <*> d = .outOfRange ↔ f = .outOfRange ∨ d = .outOfRange := by
  cases f <;> cases d <;> simp [Seq.seq, seq]

@[simp] theorem below_eq_outOfRange (step : PathStep) (d : Decoded α) :
    d.below step = .outOfRange ↔ d = .outOfRange := by
  cases d <;> simp [below]

@[simp] theorem fault_ne_outOfRange (f : Fault) : (fault f : Decoded α) ≠ .outOfRange := by
  simp [fault]

end Decoded

namespace Decoder

variable {α : Type} {d : Decoder α}

/-- A decoder that reads every value, be it only as a fault. -/
def Reads (d : Decoder α) : Prop := ∀ v, d v ≠ .outOfRange

theorem optional_eq_outOfRange (d : Decoder α) (v : Json) :
    optional d v = .outOfRange ↔ v ≠ .null ∧ d v = .outOfRange := by
  cases v <;> simp [optional]

theorem Reads.optional (h : Reads d) : Reads (optional d) := by
  intro v hv
  exact h v ((optional_eq_outOfRange d v).1 hv).2

theorem itemsFrom_eq_outOfRange (d : Decoder α) (i : Nat) (items : List Json) :
    itemsFrom d i items = .outOfRange ↔ ∃ v ∈ items, d v = .outOfRange := by
  induction items generalizing i with
  | nil => simp [itemsFrom]
  | cons v rest ih => simp [itemsFrom, ih]

theorem list_eq_outOfRange (d : Decoder α) (v : Json) :
    list d v = .outOfRange ↔ ∃ items, v = .arr items ∧ ∃ item ∈ items, d item = .outOfRange := by
  cases v <;> simp [Decoder.list, itemsFrom_eq_outOfRange]

theorem Reads.list (h : Reads d) : Reads (list d) := by
  intro v hv
  obtain ⟨items, -, item, -, hitem⟩ := (list_eq_outOfRange d v).1 hv
  exact h item hitem

theorem required_eq_outOfRange (name : String) (d : Decoder α)
    (o : List (String × Json)) :
    required name d o = .outOfRange ↔ ∃ v, Json.field? o name = some v ∧ d v = .outOfRange := by
  cases h : Json.field? o name <;> simp [required, h]

theorem defaulted_eq_outOfRange (name : String) (fallback : α) (d : Decoder α)
    (o : List (String × Json)) :
    defaulted name fallback d o = .outOfRange ↔
      ∃ v, Json.field? o name = some v ∧ d v = .outOfRange := by
  cases h : Json.field? o name <;> simp [defaulted, h]

theorem Reads.required (h : Reads d) (name : String) (o : List (String × Json)) :
    required name d o ≠ .outOfRange := by
  simp [required_eq_outOfRange, h _]

theorem Reads.defaulted (h : Reads d) (name : String) (fallback : α)
    (o : List (String × Json)) : defaulted name fallback d o ≠ .outOfRange := by
  simp [defaulted_eq_outOfRange, h _]

end Decoder

namespace StreamEvent

end StreamEvent

end LineWatch
