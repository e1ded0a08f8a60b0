import LineWatch.EventStream.Response
import LineWatch.Proofs.EventStream.Blocks
import Mathlib.Data.List.DropRight

/-!
# Reconnection times that end the stream

A reconnection time that is no text of digits is ignored. One of digits is read as an integer, and
that takes decimal digits, and not too many of them. Superscripts and circled numbers are digits as
well, so a line that gives a reconnection time of these cannot be read, and the stream ends there.
Nothing else that a server may send does that.
-/

namespace LineWatch

/-- A text of decimal digits, of whatever scripts, that is short enough for an integer. -/
def IsDecimalText (value : List Char) : Prop :=
  (∀ c ∈ value, (decimalValue? c).isSome) ∧ value.length ≤ 4300

/-- If the line gives a reconnection time of digits, they are decimal and not too many. -/
def DecimalRetry (line : List Char) : Prop :=
  ∀ value ∈ valueIn? "retry" line, IsDigitText value → IsDecimalText value

theorem length_filterMap_decimalValue? (value : List Char) :
    ((value.takeWhile fun c => (decimalValue? c).isSome).filterMap decimalValue?).length =
      (value.takeWhile fun c => (decimalValue? c).isSome).length := by
  rw [List.length_filterMap_eq_countP, List.countP_eq_length]
  intro c hc
  exact List.mem_takeWhile_imp (p := fun c => (decimalValue? c).isSome) hc

theorem retryOfDigits_isOk_iff (value : List Char) :
    (retryOfDigits value).isOk = true ↔ IsDecimalText value := by
  have hprefix := List.takeWhile_prefix (fun c => (decimalValue? c).isSome) (l := value)
  have hall : (∀ c ∈ value, (decimalValue? c).isSome) ↔
      value.length ≤ (value.takeWhile fun c => (decimalValue? c).isSome).length := by
    rw [← List.takeWhile_eq_self_iff]
    exact ⟨fun h => h.symm ▸ le_rfl, hprefix.eq_of_length_le⟩
  have hle := hprefix.length_le
  rw [IsDecimalText, hall]
  simp only [retryOfDigits, length_filterMap_decimalValue?]
  split_ifs with hlong hshort
  · refine iff_of_false Bool.false_ne_true fun h => ?_
    omega
  · refine iff_of_false Bool.false_ne_true fun h => ?_
    omega
  · refine iff_of_true rfl ⟨?_, ?_⟩ <;> omega

variable {line value : List Char}

theorem retryReadable_iff : RetryReadable line ↔ DecimalRetry line := by
  simp only [RetryReadable, DecimalRetry, retryOfDigits_isOk_iff]

namespace FrameDecoder

/-- A reconnection time of digits is read as an integer, and any other one is ignored. -/
theorem feed_retry (d : FrameDecoder) (h : value ∈ valueIn? "retry" line) :
    d.feed line =
      if IsDigitText value then
        (retryOfDigits value).map fun n => ({ d with retry := some n }, none)
      else .ok (d, none) := by
  have hline : line.head? ≠ some ':' := by
    intro hcolon
    simp [valueIn?, hcolon] at h
  have hne : line ≠ [] := by
    rintro rfl
    simp [valueIn?] at h
  rw [Option.mem_def, valueIn?_eq_split hline] at h
  split_ifs at h with hfield
  obtain rfl := Option.some.inj h
  rw [feed_of_head_ne d hne hline, hfield, setField, if_neg (by decide), if_neg (by decide),
    if_neg (by decide), if_pos rfl]
  by_cases hdigit : IsDigitText (split line).2
  · rw [if_neg (not_isDigitText_iff.not.mpr (not_not.mpr hdigit)), if_pos hdigit]
    cases retryOfDigits (split line).2 <;> rfl
  · rw [if_pos (not_isDigitText_iff.mpr hdigit), if_neg hdigit]
    rfl

/-- A line that gives no reconnection time is read. -/
theorem feed_isOk_of_no_retry (d : FrameDecoder) (h : valueIn? "retry" line = none) :
    (d.feed line).isOk = true := by
  by_cases hne : line = []
  · rw [hne]
    rfl
  by_cases hline : line.head? = some ':'
  · obtain ⟨rest, rfl⟩ := List.head?_eq_some_iff.mp hline
    rfl
  rw [valueIn?_eq_split hline] at h
  have hfield : (split line).1 ≠ "retry".toList := fun hfield => by simp [hfield] at h
  rw [feed_of_head_ne d hne hline, setField]
  split_ifs <;> rfl

theorem feed_isOk_iff (d : FrameDecoder) (line : List Char) :
    (d.feed line).isOk = true ↔ RetryReadable line := by
  cases h : valueIn? "retry" line with
  | none =>
    have hnone : RetryReadable line := fun value hvalue => by simp [h] at hvalue
    exact iff_of_true (d.feed_isOk_of_no_retry h) hnone
  | some value =>
    have hretry : RetryReadable line ↔
        (IsDigitText value → (retryOfDigits value).isOk = true) := by
      simp [RetryReadable, h]
    rw [d.feed_retry h, hretry]
    split_ifs with hdigit
    · rw [forall_prop_of_true hdigit]
      cases retryOfDigits value <;> rfl
    · exact iff_of_true rfl fun hdigits => absurd hdigits hdigit

/-- The stream is read to its end exactly if each of its lines can be read. -/
theorem frames_failure_eq_none_iff (d : FrameDecoder) (lines : List (List Char)) :
    (d.frames lines).2 = none ↔ ∀ line ∈ lines, RetryReadable (line.rdropWhile (· == '\r')) := by
  induction lines generalizing d with
  | nil => simp [frames]
  | cons line rest ih =>
    rw [List.forall_mem_cons, ← d.feed_isOk_iff, List.rdropWhile, frames]
    cases hfeed : d.feed (line.reverse.dropWhile (· == '\r')).reverse with
    | error e => simp [Except.isOk, Except.toBool]
    | ok next =>
      obtain ⟨d', frame?⟩ := next
      have hrest := ih d'
      cases frame? <;> simpa [Except.isOk, Except.toBool] using hrest

end FrameDecoder

namespace EventStream

/-- The lines of a response, without carriage returns at their ends. -/
def Response.lines (r : Response) : List (List Char) :=
  (linesOf (r.chunks.flatMap String.toList)).map (·.rdropWhile (· == '\r'))

theorem Response.failure_eq_none_iff (r : Response) :
    r.frames.2 = none ↔
      (200 ≤ r.status ∧ r.status ≤ 299) ∧ ∀ line ∈ r.lines, RetryReadable line := by
  rw [Response.frames, Response.lines, List.forall_mem_map]
  split_ifs with hstatus
  · simp
    omega
  · rw [← FrameDecoder.frames_failure_eq_none_iff {}]
    simp
    omega

end EventStream

/-- Whatever has been read before, a line can be read unless it gives a reconnection time of digits
that are not decimal or too many, and one that is no text of digits is ignored. The stream of a
response is read to its end if the response is a success and all of its lines can be read. -/
theorem lines_read_iff (d : FrameDecoder) (line : List Char) (r : EventStream.Response) :
    ((∃ next, d.feed line = .ok next) ↔ DecimalRetry line) ∧
    (∀ value ∈ valueIn? "retry" line, ¬IsDigitText value → d.feed line = .ok (d, none)) ∧
    (r.frames.2 = none ↔
      (200 ≤ r.status ∧ r.status ≤ 299) ∧ ∀ line ∈ r.lines, DecimalRetry line) := by
  simp only [← retryReadable_iff]
  refine ⟨?_, fun value hvalue hdigit => ?_, r.failure_eq_none_iff⟩
  · rw [← d.feed_isOk_iff]
    cases d.feed line <;> simp [Except.isOk, Except.toBool]
  · rw [d.feed_retry hvalue, if_neg hdigit]

/-- A superscript two is a digit and no decimal one. -/
theorem superscript_ends_stream :
    let response : EventStream.Response := { chunks := ["retry: ²\n", "data: x\n\n"] }
    FrameDecoder.feed {} "retry: ²".toList = .error (.notDecimal "²") ∧
      response.frames = ([], some (.retry (.notDecimal "²"))) := by
  decide +kernel

end LineWatch
