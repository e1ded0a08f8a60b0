import LineWatch.EventStream.Frame
import Mathlib.Data.List.ReduceOption

/-!
# Frames block by block

The empty lines of a stream divide it into blocks; what follows on the last of them is a block that
has not ended and counts for nothing. Every other block is a frame by itself, or none, whatever
other blocks say. What a decoder has read of the block it is in can be computed from the lines of
this block alone, and so the decoder, which takes line after line, yields the frames of the blocks.
-/

namespace LineWatch

/-- The value that a line gives to the field `name`. The value starts behind the first colon, less
one blank, and a line without a colon has an empty one. A line that starts with a colon gives
nothing. -/
def valueIn? (name : String) (line : List Char) : Option (List Char) :=
  let value := (line.dropWhile (· != ':')).tail
  if line.head? ≠ some ':' ∧ line.takeWhile (· != ':') = name.toList then
    some (if value.head? = some ' ' then value.tail else value)
  else none

/-- The values that the lines of a block give to the field `name`, in their order. -/
def valuesIn (name : String) (block : List (List Char)) : List (List Char) :=
  block.filterMap (valueIn? name)

/-- A text of digits, of whatever script. -/
def IsDigitText (value : List Char) : Prop := value ≠ [] ∧ ∀ c ∈ value, isDigitChar c = true

instance (value : List Char) : Decidable (IsDigitText value) :=
  @instDecidableAnd _ _ _ (List.decidableBAll _ value)

/-- The number that a text of digits spells. -/
def digitTextValue? (value : List Char) : Option Nat :=
  if IsDigitText value then (retryOfDigits value).toOption else none

/-- The name of the event that a block gives last. -/
def eventIn (block : List (List Char)) : List Char := (valuesIn "event" block).getLast?.getD []

/-- The identifier that a block gives last, those with a NUL apart. -/
def idIn? (block : List (List Char)) : Option String :=
  ((valuesIn "id" block).filter (Char.ofNat 0 ∉ ·)).getLast?.map String.ofList

/-- The reconnection time that a block gives last, values that are no digits apart. -/
def retryIn? (block : List (List Char)) : Option Int :=
  ((valuesIn "retry" block).filterMap digitTextValue?).getLast?.map Int.ofNat

/-- The frame of a block of lines, if it has an event or data. -/
def Frame.ofBlock? (block : List (List Char)) : Option Frame :=
  if valuesIn "data" block = [] ∧ eventIn block = [] then none
  else some {
    event := if eventIn block = [] then "message" else String.ofList (eventIn block)
    data := "\n".intercalate ((valuesIn "data" block).map String.ofList)
    id := idIn? block
    retry := retryIn? block }

/-- The blocks of a stream that have ended. -/
def blocksOf (lines : List (List Char)) : List (List (List Char)) :=
  (lines.splitOnP List.isEmpty).dropLast

/-- The line does not give a reconnection time of digits that are no integer. -/
def RetryReadable (line : List Char) : Prop :=
  ∀ value ∈ valueIn? "retry" line, IsDigitText value → (retryOfDigits value).isOk = true

instance : DecidablePred RetryReadable := fun line =>
  inferInstanceAs (Decidable (∀ value ∈ valueIn? "retry" line, _))

variable {block : List (List Char)} {line : List Char} {name : String}

theorem valuesIn_concat (name : String) (block : List (List Char)) (line : List Char) :
    valuesIn name (block ++ [line]) = valuesIn name block ++ (valueIn? name line).toList := by
  rw [valuesIn, List.filterMap_append, valuesIn]
  cases h : valueIn? name line <;> simp [h]

theorem eventIn_concat (block : List (List Char)) (line : List Char) :
    eventIn (block ++ [line]) = (valueIn? "event" line).getD (eventIn block) := by
  rw [eventIn, valuesIn_concat]
  cases valueIn? "event" line with
  | none => simp [eventIn]
  | some value => simp

theorem idIn?_concat (block : List (List Char)) (line : List Char) :
    idIn? (block ++ [line]) =
      (((valueIn? "id" line).filter (Char.ofNat 0 ∉ ·)).map String.ofList).or (idIn? block) := by
  rw [idIn?, valuesIn_concat]
  cases valueIn? "id" line with
  | none => simp [idIn?]
  | some value =>
    by_cases hnul : Char.ofNat 0 ∈ value <;> simp [hnul, idIn?, Option.filter_some]

theorem retryIn?_concat (block : List (List Char)) (line : List Char) :
    retryIn? (block ++ [line]) =
      (((valueIn? "retry" line).bind digitTextValue?).map Int.ofNat).or (retryIn? block) := by
  rw [retryIn?, valuesIn_concat]
  cases valueIn? "retry" line with
  | none => simp [retryIn?]
  | some value => cases hvalue : digitTextValue? value <;> simp [hvalue, retryIn?]

theorem modifyHead_nil_append {α : Type} (blocks : List (List α)) :
    blocks.modifyHead ([] ++ ·) = blocks := by
  cases blocks <;> rfl

namespace FrameDecoder

theorem valueIn?_eq_split (hline : line.head? ≠ some ':') (name : String) : valueIn? name line =
    if (split line).1 = name.toList then some (split line).2 else none := by
  unfold valueIn? split
  simp only [hline, ne_eq, not_false_eq_true, true_and, List.drop_one]
  cases (line.dropWhile (· != ':')).tail with
  | nil => rfl
  | cons c value =>
    by_cases hc : c = ' '
    · subst hc
      rfl
    · simp [hc]

/-- What a decoder holds that has read these lines of a block. -/
def within (block : List (List Char)) : FrameDecoder where
  event := String.ofList (eventIn block)
  data := ((valuesIn "data" block).map String.ofList).reverse
  id := idIn? block
  retry := retryIn? block

theorem frame?_within (block : List (List Char)) :
    (within block).frame? = Frame.ofBlock? block := by
  unfold frame? within Frame.ofBlock?
  simp

theorem within_concat (block : List (List Char)) (line : List Char) :
    within (block ++ [line]) =
      { event := String.ofList ((valueIn? "event" line).getD (eventIn block))
        data := (valueIn? "data" line).toList.map String.ofList ++ (within block).data
        id := (((valueIn? "id" line).filter (Char.ofNat 0 ∉ ·)).map String.ofList).or (idIn? block)
        retry := (((valueIn? "retry" line).bind digitTextValue?).map Int.ofNat).or
          (retryIn? block) } := by
  rw [within, eventIn_concat, valuesIn_concat, idIn?_concat, retryIn?_concat, within]
  cases valueIn? "data" line <;> simp

/-- A line that gives none of the four fields leaves what has been read of a block. -/
theorem within_concat_of_none (h : ∀ name ∈ ["event", "data", "id", "retry"],
    valueIn? name line = none) : within (block ++ [line]) = within block := by
  rw [within_concat, h "event" (by decide), h "data" (by decide), h "id" (by decide),
    h "retry" (by decide)]
  rfl

theorem not_isDigitText_iff {value : List Char} :
    (value.isEmpty || !value.all isDigitChar) = true ↔ ¬IsDigitText value := by
  cases value with
  | nil => simp [IsDigitText]
  | cons c rest => by_cases hc : isDigitChar c = true <;> simp [IsDigitText, hc]

theorem digitTextValue?_of_isOk {value : List Char} (h : IsDigitText value)
    (hok : (retryOfDigits value).isOk = true) :
    ∃ n, retryOfDigits value = .ok n ∧ digitTextValue? value = some n := by
  rw [digitTextValue?, if_pos h]
  cases hn : retryOfDigits value with
  | ok n => exact ⟨n, rfl, rfl⟩
  | error e => rw [hn] at hok; exact Bool.noConfusion hok

/-- Reading a field of a block takes what has been read of it to what has been read
with its line. -/
theorem setField_within (hline : line.head? ≠ some ':') (hretry : RetryReadable line) :
    (within block).setField (split line).1 (split line).2 = .ok (within (block ++ [line])) := by
  have hvalue := valueIn?_eq_split hline
  unfold RetryReadable at hretry
  generalize (split line).1 = field, (split line).2 = value at hvalue
  rw [within_concat, setField]
  split_ifs with hevent hdata hid hnul hname hskip
  · subst hevent
    simp [within, hvalue]
  · subst hdata
    simp [within, hvalue]
  · subst hid
    rw [List.contains_iff_mem] at hnul
    simp [within, hvalue, hnul, Option.filter_some]
  · subst hid
    rw [List.contains_iff_mem] at hnul
    simp [within, hvalue, hnul, Option.filter_some]
  · subst hname
    have hnone : digitTextValue? value = none := if_neg (not_isDigitText_iff.mp hskip)
    simp [within, hvalue, hnone]
  · subst hname
    have hdigit : IsDigitText value := not_not.mp (not_isDigitText_iff.not.mp hskip)
    obtain ⟨n, hn, hsome⟩ :=
      digitTextValue?_of_isOk hdigit (hretry value (by simp [hvalue]) hdigit)
    simp [within, hvalue, hsome, hn]
  · simp only [hvalue, if_neg hevent, if_neg hdata, if_neg hid, if_neg hname]
    rfl

theorem feed_of_head_ne (d : FrameDecoder) (hne : line ≠ []) (hline : line.head? ≠ some ':') :
    d.feed line = (d.setField (split line).1 (split line).2).map (·, none) := by
  unfold feed
  split
  · exact absurd rfl hne
  · exact absurd rfl hline
  · rfl

theorem feed_within (block : List (List Char)) (hne : line ≠ []) (hretry : RetryReadable line) :
    (within block).feed line = .ok (within (block ++ [line]), none) := by
  by_cases hline : line.head? = some ':'
  · obtain ⟨rest, rfl⟩ := List.head?_eq_some_iff.mp hline
    rw [within_concat_of_none fun name _ => if_neg (by simp)]
    rfl
  · rw [feed_of_head_ne _ hne hline, setField_within hline hretry]
    rfl

/-- What lines yield that are read after some lines of a block. -/
theorem run_within (block : List (List Char)) (lines : List String)
    (h : ∀ line ∈ lines, RetryReadable line.toList) :
    ∃ outcomes : List (Option Frame), run (within block) lines = outcomes.map .ok ∧
      outcomes.reduceOption = (((lines.map String.toList).splitOnP List.isEmpty).modifyHead
        (block ++ ·)).dropLast.filterMap Frame.ofBlock? := by
  induction lines generalizing block with
  | nil => exact ⟨[], rfl, rfl⟩
  | cons line rest ih =>
    obtain ⟨hline, hrest⟩ := List.forall_mem_cons.mp h
    rw [List.map_cons, List.splitOnP_cons_eq_if_modifyHead]
    by_cases hempty : line.toList = []
    · -- an empty line ends the block, and the next one begins with nothing read
      obtain ⟨outcomes, hrun, hframes⟩ := ih [] hrest
      have hfeed : (within block).feed line.toList = .ok (within [], Frame.ofBlock? block) := by
        rw [hempty, ← frame?_within]
        rfl
      refine ⟨Frame.ofBlock? block :: outcomes, ?_, ?_⟩
      · simp only [run, hfeed, hrun, List.map_cons]
      · rw [modifyHead_nil_append] at hframes
        rw [if_pos (by simpa using hempty), List.modifyHead_cons, List.append_nil,
          List.dropLast_cons_of_ne_nil (List.splitOnP_ne_nil _ _), List.filterMap_cons, ← hframes]
        cases Frame.ofBlock? block <;> rfl
    · obtain ⟨outcomes, hrun, hframes⟩ := ih (block ++ [line.toList]) hrest
      refine ⟨none :: outcomes, ?_, ?_⟩
      · simp only [run, feed_within block hempty hline, hrun, List.map_cons]
      · have hcons : (block ++ ·) ∘ List.cons line.toList = (block ++ [line.toList] ++ ·) := by
          funext rest
          simp
        rw [List.reduceOption_cons_of_none, hframes, if_neg (by simpa using hempty),
          List.modifyHead_modifyHead, hcons]

end FrameDecoder

/-- Where no line gives a reconnection time of digits that are no integer, every line is read, and
the frames that the lines yield are those of the blocks. -/
theorem frames_of_blocks (lines : List String)
    (h : ∀ line ∈ lines, RetryReadable line.toList) :
    ∃ outcomes : List (Option Frame), FrameDecoder.run {} lines = outcomes.map .ok ∧
      outcomes.reduceOption = (blocksOf (lines.map String.toList)).filterMap Frame.ofBlock? := by
  obtain ⟨outcomes, hrun, hframes⟩ := FrameDecoder.run_within [] lines h
  rw [modifyHead_nil_append] at hframes
  exact ⟨outcomes, hrun, hframes⟩

/-- Two blocks, the first of them with all fields, and one that has not ended. -/
def twoBlocks : List String :=
  ["event: line.status", "id: 7", "retry: ٣٠", "data: x", "", ": still here", "data: y", "data:  z",
    "retry: soon", "", "data: lost"]

def twoFrames : List Frame :=
  [{ event := "line.status", data := "x", id := some "7", retry := some 30 }, { data := "y\n z" }]

theorem frames_of_blocks_twoBlocks :
    (∀ line ∈ twoBlocks, RetryReadable line.toList) ∧
    ∃ outcomes : List (Option Frame), FrameDecoder.run {} twoBlocks = outcomes.map .ok ∧
      outcomes.reduceOption = twoFrames := by
  have hretry : ∀ line ∈ twoBlocks, RetryReadable line.toList := by decide +kernel
  have hblocks : (blocksOf (twoBlocks.map String.toList)).filterMap Frame.ofBlock? = twoFrames := by
    decide +kernel
  rw [← hblocks]
  exact ⟨hretry, frames_of_blocks twoBlocks hretry⟩

end LineWatch
