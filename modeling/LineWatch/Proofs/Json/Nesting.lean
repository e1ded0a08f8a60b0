import Mathlib.Data.Nat.Notation
import LineWatch.Json.Reader

/-!
# How deep a text is read

Reading takes a level of the depth for every list and object that is open. A text that is not
nested too deep is read in the same way with any greater depth, and no text is deeper than it is
long. The steps suffice for every text: an inner list takes two of them, and at least one code
point is gone by then.
-/

namespace LineWatch.Json

variable {limits : Limits} {halves : Bool}

section Rest

variable {cs rest : List CodePoint}

theorem skipBlanks_length_le (cs : List CodePoint) : (skipBlanks cs).length ≤ cs.length :=
  (List.dropWhile_sublist _).length_le

theorem length_lt_of_skipBlanks {point : CodePoint} (h : skipBlanks cs = point :: rest) :
    rest.length < cs.length := by
  have hle := skipBlanks_length_le cs
  rw [h, List.length_cons] at hle
  exact hle

theorem readUnits_length_le {points units found : List ℕ}
    (h : readUnits points units cs = some (found, rest)) : rest.length ≤ cs.length := by
  fun_induction readUnits points units cs with
  | case2 =>
    obtain rfl := (Prod.mk.inj (Option.some.inj h)).2
    exact Nat.le_succ _
  | case4 _ _ _ _ _ _ _ _ _ ih | case6 _ _ _ _ _ _ _ ih | case9 _ _ _ _ _ _ _ _ _ ih
  | case10 _ _ _ _ ih =>
    have hle := ih h
    simp only [List.length_cons]
    omega
  | _ => cases h

theorem readString_length_le {points : List ℕ} (h : readString halves cs = some (points, rest)) :
    rest.length ≤ cs.length := by
  unfold readString at h
  cases hu : readUnits [] [] cs with
  | none => simp [hu] at h
  | some found =>
    simp only [hu, Option.ite_none_right_eq_some, Option.some.injEq] at h
    exact readUnits_length_le (hu.trans (congrArg some h.2))

theorem readName_length_le {name : String} (h : readName halves cs = some (name, rest)) :
    rest.length ≤ cs.length := by
  unfold readName at h
  split at h
  · next text hopen =>
    cases hs : readString halves text with
    | none => simp [hs] at h
    | some found =>
      simp only [hs] at h
      split at h
      · next hcolon =>
        obtain rfl := (Prod.mk.inj (Option.some.inj h)).2
        have hname := readString_length_le hs
        have hlt := length_lt_of_skipBlanks hopen
        have hlt' := length_lt_of_skipBlanks hcolon
        omega
      · cases h
  · cases h

theorem spanChars_length_le (p : Char → Bool) (cs : List CodePoint) :
    (spanChars p cs).2.length ≤ cs.length := by
  fun_induction spanChars p cs with
  | case1 _ _ _ _ _ heq ih =>
    rw [heq] at ih
    exact Nat.le_succ_of_le ih
  | _ => exact Nat.le_refl _

theorem afterWord?_length_le {word : List Char} (h : afterWord? word cs = some rest) :
    rest.length ≤ cs.length := by
  fun_induction afterWord? word cs with
  | case1 =>
    obtain rfl := Option.some.inj h
    exact Nat.le_refl _
  | case2 _ _ _ ih => exact Nat.le_succ_of_le (ih h)
  | _ => cases h

theorem readAtom_length_le {v : Json} (h : readAtom limits halves cs = .ok (v, rest)) :
    rest.length ≤ cs.length := by
  unfold readAtom at h
  split at h
  · split at h
    · cases h
    · next hs =>
      obtain rfl := (Prod.mk.inj (Except.ok.inj h)).2
      exact Nat.le_succ_of_le (readString_length_le hs)
  · split at h
    · cases h
    · next hr =>
      obtain rfl := Except.ok.inj h
      rcases Option.or_eq_some_iff.mp hr with hword | ⟨-, hnumber⟩
      · obtain ⟨w, -, hw⟩ := List.exists_of_findSome?_eq_some hword
        obtain ⟨rest', hrest, he⟩ := Option.map_eq_some_iff.mp hw
        obtain rfl := (Prod.mk.inj he).2
        exact afterWord?_length_le hrest
      · obtain ⟨v', -, he⟩ := Option.map_eq_some_iff.mp hnumber
        obtain rfl := (Prod.mk.inj he).2
        exact spanChars_length_le _ _

theorem readAtom_ne_tooDeep (container : Container) :
    readAtom limits halves cs ≠ .error (.tooDeep container) := by
  unfold readAtom
  split <;> split <;> simp

end Rest

section Bound

variable {n depth : ℕ} {r : Reading}

/-- An outcome of reading `n` code points with so much depth left: at most all of them are left
behind a value, and they are not too deep unless they are more than the depth. -/
def Bounded (n depth : ℕ) : Reading → Prop
  | .ok (_, rest) => rest.length ≤ n
  | .error (.tooDeep _) => depth < n
  | .error .malformed => True

theorem Bounded.mono (h : Bounded n depth r) {n' depth' : ℕ} (hn : n ≤ n')
    (hdepth : depth' + n ≤ depth + n') : Bounded n' depth' r := by
  match r with
  | .ok _ => exact Nat.le_trans h hn
  | .error (.tooDeep _) =>
    have hlt : depth < n := h
    show depth' < n'
    omega
  | .error .malformed => trivial

theorem Bounded.of_le (h : Bounded n depth r) {n' : ℕ} (hn : n ≤ n') : Bounded n' depth r :=
  h.mono hn (Nat.add_le_add_left hn depth)

theorem bounded_readAtom (cs : List CodePoint) :
    Bounded cs.length depth (readAtom limits halves cs) := by
  match h : readAtom limits halves cs with
  | .ok (_, _) => exact readAtom_length_le h
  | .error (.tooDeep container) => exact absurd h (readAtom_ne_tooDeep container)
  | .error .malformed => trivial

theorem bounded_enter (container : Container) {filled : List CodePoint → Reading}
    (h : ∀ cs, Bounded cs.length (depth - 1) (filled cs)) (cs : List CodePoint) :
    Bounded (cs.length + 1) depth (enter limits depth container filled cs) := by
  have hle := skipBlanks_length_le cs
  unfold enter
  split
  · next hexhausted =>
    simp only [Limits.exhausted, Bool.and_eq_true, beq_iff_eq] at hexhausted
    show depth < cs.length + 1
    omega
  · dsimp only
    split
    · show (skipBlanks cs).tail.length ≤ cs.length + 1
      rw [List.length_tail]
      omega
    · split
      · show depth < cs.length + 1
        omega
      · exact (h (skipBlanks cs)).mono (by omega) (by omega)

theorem bounded_proceed (container : Container) (whole : Json) {next : List CodePoint → Reading}
    (h : ∀ cs, Bounded cs.length depth (next cs)) (cs : List CodePoint) :
    Bounded cs.length depth (proceed container whole next cs) := by
  unfold proceed
  split
  · next rest hbehind =>
    have hlt := length_lt_of_skipBlanks hbehind
    split
    · exact (h rest).of_le (Nat.le_of_lt hlt)
    · split
      · exact Nat.le_of_lt hlt
      · trivial
  · trivial

/-- All readers with so much fuel are bounded. -/
structure AllBounded (limits : Limits) (halves : Bool) (fuel : ℕ) : Prop where
  value (depth : ℕ) (cs : List CodePoint) :
    Bounded cs.length depth (readValue limits halves fuel depth cs)
  items (depth : ℕ) (acc : List Json) (cs : List CodePoint) :
    Bounded cs.length depth (readItems limits halves fuel depth acc cs)
  fields (depth : ℕ) (acc : List (String × Json)) (cs : List CodePoint) :
    Bounded cs.length depth (readFields limits halves fuel depth acc cs)

namespace AllBounded

variable {fuel : ℕ}

theorem value_succ (h : AllBounded limits halves fuel) (depth : ℕ) (cs : List CodePoint) :
    Bounded cs.length depth (readValue limits halves (fuel + 1) depth cs) := by
  rw [readValue]
  split
  · next hopen =>
    exact (bounded_enter .object (h.fields _ []) _).of_le (length_lt_of_skipBlanks hopen)
  · next hopen =>
    exact (bounded_enter .list (h.items _ []) _).of_le (length_lt_of_skipBlanks hopen)
  · exact (bounded_readAtom _).of_le (skipBlanks_length_le cs)

theorem items_succ (h : AllBounded limits halves fuel) (depth : ℕ) (acc : List Json)
    (cs : List CodePoint) :
    Bounded cs.length depth (readItems limits halves (fuel + 1) depth acc cs) := by
  rw [readItems]
  match readValue limits halves fuel depth cs, h.value depth cs with
  | .error _, hvalue => exact hvalue
  | .ok (v, rest), hrest => exact (bounded_proceed .list _ (h.items depth _) rest).of_le hrest

theorem fields_succ (h : AllBounded limits halves fuel) (depth : ℕ)
    (acc : List (String × Json)) (cs : List CodePoint) :
    Bounded cs.length depth (readFields limits halves (fuel + 1) depth acc cs) := by
  rw [readFields]
  match hname : readName halves cs with
  | none => trivial
  | some (name, behind) =>
    have hvalue := (h.value depth behind).of_le (readName_length_le hname)
    dsimp only
    match readValue limits halves fuel depth behind, hvalue with
    | .error _, hvalue => exact hvalue
    | .ok (v, rest), hrest =>
      exact (bounded_proceed .object _ (h.fields depth _) rest).of_le hrest

end AllBounded

theorem allBounded (limits : Limits) (halves : Bool) (fuel : ℕ) :
    AllBounded limits halves fuel := by
  induction fuel with
  | zero => exact ⟨fun _ _ => trivial, fun _ _ _ => trivial, fun _ _ _ => trivial⟩
  | succ fuel ih => exact ⟨ih.value_succ, ih.items_succ, ih.fields_succ⟩

end Bound

section Depth

variable {α : Type} {depth depth' room : ℕ}

/-- The outcome with `depth` is that with `depth'` as well, unless only `depth'` is enough. -/
def Extends (depth depth' : ℕ) (r r' : Except ReadError α) : Prop :=
  r' = r ∨ depth < depth' ∧ ∃ container, r = .error (.tooDeep container)

theorem Extends.refl (r : Except ReadError α) : Extends depth depth' r r := .inl rfl

theorem Extends.of_pred {r r' : Except ReadError α} (h : Extends (depth - 1) (depth' - 1) r r') :
    Extends depth depth' r r' :=
  h.imp_right (And.imp_left (by omega))

theorem extends_enter (hdepth : depth ≤ depth') (container : Container)
    {filled filled' : List CodePoint → Reading} {cs : List CodePoint}
    (h : ∀ cs', cs'.length ≤ cs.length →
      Extends (depth - 1) (depth' - 1) (filled cs') (filled' cs')) :
    Extends depth depth' (enter limits depth container filled cs)
      (enter limits depth' container filled' cs) := by
  have hfilled := (h _ (skipBlanks_length_le cs)).of_pred
  unfold enter Limits.exhausted
  rcases Nat.eq_zero_or_pos depth with rfl | hpos
  · rcases Nat.eq_zero_or_pos depth' with rfl | hpos'
    · left
      simp
    · cases limits.countsEmpty with
      | true => exact .inr ⟨hpos', container, rfl⟩
      | false =>
        by_cases hclose : (skipBlanks cs).head? = some (.char container.close)
        · left
          simp [hclose]
        · exact .inr ⟨hpos', container, by simp [hclose]⟩
  · have hne : depth ≠ 0 := by omega
    have hne' : depth' ≠ 0 := by omega
    simp only [beq_eq_false_iff_ne.mpr hne, beq_eq_false_iff_ne.mpr hne', Bool.and_false,
      Bool.false_eq_true, if_false, hne, hne']
    split
    · exact .refl _
    · exact hfilled

theorem extends_proceed (container : Container) (whole : Json)
    {next next' : List CodePoint → Reading} {cs : List CodePoint}
    (h : ∀ cs', cs'.length < cs.length → Extends depth depth' (next cs') (next' cs')) :
    Extends depth depth' (proceed container whole next cs) (proceed container whole next' cs) := by
  unfold proceed
  match hbehind : skipBlanks cs with
  | .char c :: rest =>
    dsimp only
    split
    · exact h rest (length_lt_of_skipBlanks hbehind)
    · exact .refl _
  | [] | .half _ :: _ => exact .refl _

/-- All readers with so much fuel are extended by those with more depth, if the fuel suffices on
both sides. The limits of the other side name the depth `room`, from which a whole text starts. -/
structure AllExtend (limits : Limits) (halves : Bool) (room fuel : ℕ) : Prop where
  value {fuel' depth depth' : ℕ} (hdepth : depth ≤ depth') (cs : List CodePoint)
    (hfuel : 2 * cs.length + 1 ≤ fuel) (hfuel' : 2 * cs.length + 1 ≤ fuel') :
    Extends depth depth' (readValue limits halves fuel depth cs)
      (readValue { limits with depth := room } halves fuel' depth' cs)
  items {fuel' depth depth' : ℕ} (hdepth : depth ≤ depth') (acc : List Json)
    (cs : List CodePoint) (hfuel : 2 * cs.length + 2 ≤ fuel) (hfuel' : 2 * cs.length + 2 ≤ fuel') :
    Extends depth depth' (readItems limits halves fuel depth acc cs)
      (readItems { limits with depth := room } halves fuel' depth' acc cs)
  fields {fuel' depth depth' : ℕ} (hdepth : depth ≤ depth') (acc : List (String × Json))
    (cs : List CodePoint) (hfuel : 2 * cs.length + 2 ≤ fuel) (hfuel' : 2 * cs.length + 2 ≤ fuel') :
    Extends depth depth' (readFields limits halves fuel depth acc cs)
      (readFields { limits with depth := room } halves fuel' depth' acc cs)

namespace AllExtend

variable {fuel fuel' : ℕ}

theorem value_succ (h : AllExtend limits halves room fuel) (hdepth : depth ≤ depth')
    (cs : List CodePoint) (hfuel : 2 * cs.length + 1 ≤ fuel + 1)
    (hfuel' : 2 * cs.length + 1 ≤ fuel') :
    Extends depth depth' (readValue limits halves (fuel + 1) depth cs)
      (readValue { limits with depth := room } halves fuel' depth' cs) := by
  obtain ⟨fuel', rfl⟩ : ∃ k, fuel' = k + 1 := ⟨fuel' - 1, by omega⟩
  have hpred : depth - 1 ≤ depth' - 1 := Nat.sub_le_sub_right hdepth 1
  rw [readValue, readValue]
  split
  · next hopen =>
    have hlt := length_lt_of_skipBlanks hopen
    exact extends_enter hdepth .object fun cs' hle =>
      h.fields hpred [] cs' (by omega) (by omega)
  · next hopen =>
    have hlt := length_lt_of_skipBlanks hopen
    exact extends_enter hdepth .list fun cs' hle =>
      h.items hpred [] cs' (by omega) (by omega)
  · exact .refl _

theorem items_succ (h : AllExtend limits halves room fuel) (hdepth : depth ≤ depth')
    (acc : List Json) (cs : List CodePoint) (hfuel : 2 * cs.length + 2 ≤ fuel + 1)
    (hfuel' : 2 * cs.length + 2 ≤ fuel') :
    Extends depth depth' (readItems limits halves (fuel + 1) depth acc cs)
      (readItems { limits with depth := room } halves fuel' depth' acc cs) := by
  obtain ⟨fuel', rfl⟩ : ∃ k, fuel' = k + 1 := ⟨fuel' - 1, by omega⟩
  have hbounded := (allBounded limits halves fuel).value depth cs
  rw [readItems, readItems]
  rcases h.value hdepth cs (by omega) (Nat.le_of_succ_le_succ hfuel') with
    heq | ⟨hlt, container, hdeep⟩
  · rw [heq]
    match readValue limits halves fuel depth cs, hbounded with
    | .error _, _ => exact .refl _
    | .ok (v, rest), hrest =>
      have hrest : rest.length ≤ cs.length := hrest
      exact extends_proceed .list _ fun cs' hlt =>
        h.items hdepth _ cs' (by omega) (by omega)
  · exact .inr ⟨hlt, container, by rw [hdeep]⟩

theorem fields_succ (h : AllExtend limits halves room fuel) (hdepth : depth ≤ depth')
    (acc : List (String × Json)) (cs : List CodePoint) (hfuel : 2 * cs.length + 2 ≤ fuel + 1)
    (hfuel' : 2 * cs.length + 2 ≤ fuel') :
    Extends depth depth' (readFields limits halves (fuel + 1) depth acc cs)
      (readFields { limits with depth := room } halves fuel' depth' acc cs) := by
  obtain ⟨fuel', rfl⟩ : ∃ k, fuel' = k + 1 := ⟨fuel' - 1, by omega⟩
  rw [readFields, readFields]
  match hname : readName halves cs with
  | none => exact .refl _
  | some (name, behind) =>
    have hbehind := readName_length_le hname
    have hbounded := (allBounded limits halves fuel).value depth behind
    dsimp only
    rcases h.value hdepth behind (by omega) (show _ ≤ fuel' by omega) with
      heq | ⟨hlt, container, hdeep⟩
    · rw [heq]
      match readValue limits halves fuel depth behind, hbounded with
      | .error _, _ => exact .refl _
      | .ok (v, rest), hrest =>
        have hrest : rest.length ≤ behind.length := hrest
        exact extends_proceed .object _ fun cs' hlt =>
          h.fields hdepth _ cs' (by omega) (by omega)
    · exact .inr ⟨hlt, container, by rw [hdeep]⟩

end AllExtend

theorem allExtend (limits : Limits) (halves : Bool) (room fuel : ℕ) :
    AllExtend limits halves room fuel := by
  induction fuel with
  | zero => constructor <;> intros <;> omega
  | succ fuel ih => exact ⟨ih.value_succ, ih.items_succ, ih.fields_succ⟩

variable {cs : List CodePoint}

/-- No value needs more steps than a whole text is read with. -/
theorem readValue_fuel {fuel : ℕ} (hfuel : 2 * cs.length + 1 ≤ fuel) :
    readValue limits halves fuel depth cs =
      readValue limits halves (2 * cs.length + 1) depth cs := by
  have hextends := (allExtend limits halves limits.depth (2 * cs.length + 1)).value
    (Nat.le_refl depth) cs (Nat.le_refl _) hfuel
  rcases hextends with heq | ⟨hlt, -⟩
  · exact heq
  · exact absurd hlt (Nat.lt_irrefl depth)

/-- No text is nested deeper than it is long. -/
theorem read_ne_tooDeep (h : cs.length ≤ limits.depth) (container : Container) :
    read limits cs halves ≠ .error (.tooDeep container) := by
  have hbounded := (allBounded limits halves (2 * cs.length + 1)).value limits.depth cs
  unfold read
  match readValue limits halves (2 * cs.length + 1) limits.depth cs, hbounded with
  | .ok (v, rest), _ =>
    dsimp only
    split <;> simp
  | .error .malformed, _ => simp
  | .error (.tooDeep _), hdeep =>
    have hlt : limits.depth < cs.length := hdeep
    omega

/-- More depth changes nothing for a text that is not nested too deep. -/
theorem read_depth (hroom : limits.depth ≤ room)
    (h : ∀ container, read limits cs halves ≠ .error (.tooDeep container)) :
    read { limits with depth := room } cs halves = read limits cs halves := by
  have hextends := (allExtend limits halves room (2 * cs.length + 1)).value hroom cs
    (Nat.le_refl _) (Nat.le_refl _)
  rcases hextends with heq | ⟨-, container, hdeep⟩
  · simp only [read, heq]
  · exact absurd (by rw [read, hdeep]) (h container)

end Depth

end LineWatch.Json
