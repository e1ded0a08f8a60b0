import LineWatch.Proofs.Json.Numeral
import LineWatch.Proofs.Json.Quoted

/-!
# JSON is read back

The text of a value is read as that value, if the value has a text of its own: its numbers are
rounded and finite, its texts have no halves of surrogate pairs, and no object repeats a name. The
limits of the reader have to allow its integers and its nesting.
-/

namespace LineWatch.Json

/-- Values with a text of their own, within the limits and nested at most `depth` deep. -/
inductive Plain (limits : Limits) : (depth : ℕ) → Json → Prop
  | null {depth : ℕ} : Plain limits depth .null
  | bool {depth : ℕ} (b : Bool) : Plain limits depth (.bool b)
  | int {depth : ℕ} {i : ℤ} (h : (Nat.toDigits 10 i.natAbs).length ≤ limits.digits) :
    Plain limits depth (.int i)
  | float {depth : ℕ} {x : Binary64} (h : x.IsNumber) : Plain limits depth (.float x)
  | str {depth : ℕ} (s : String) : Plain limits depth (.str s)
  | noItems {depth : ℕ} : Plain limits depth (.arr [])
  | noFields {depth : ℕ} : Plain limits depth (.obj [])
  | arr {depth : ℕ} {items : List Json} (h : ∀ v ∈ items, Plain limits depth v) :
    Plain limits (depth + 1) (.arr items)
  | obj {depth : ℕ} {fields : List (String × Json)} (names : (fields.map Prod.fst).Nodup)
    (h : ∀ f ∈ fields, Plain limits depth f.2) : Plain limits (depth + 1) (.obj fields)

variable {limits : Limits} {halves : Bool} {depth : ℕ}

/-- With enough fuel the text of `v` is read as `v`, whatever ends it. -/
def IsReadBack (limits : Limits) (halves : Bool) (depth : ℕ) (v : Json) : Prop :=
  ∀ fuel rest, v.text.length ≤ fuel → EndsNumber rest →
    readValue limits halves fuel depth (v.text.map .char ++ rest) = .ok (v, rest)

theorem Spells.exists_cons {v : Json} {cs : List Char} (h : Spells limits v cs) :
    ∃ c ds, cs = c :: ds ∧ (c = '-' ∨ c.isDigit = true) := by
  obtain ⟨negative, ds, rfl, hds, -⟩ := h
  obtain ⟨c, ds, rfl, hdigit⟩ := hds.exists_cons
  cases negative with
  | true => exact ⟨'-', _, rfl, .inl rfl⟩
  | false => exact ⟨c, ds, rfl, .inr hdigit⟩

theorem ne_of_starts_number {c d : Char} (hc : c = '-' ∨ c.isDigit = true)
    (hd : d ≠ '-' ∧ d.isDigit = false) : c ≠ d := by
  rcases hc with rfl | hdigit
  · exact hd.1.symm
  · exact ne_of_isDigit hdigit hd.2

theorem isBlank_of_starts_number {c : Char} (hc : c = '-' ∨ c.isDigit = true) :
    isBlank (.char c) = false := by
  have hother {d : Char} (hd : d ≠ '-' ∧ d.isDigit = false) := ne_of_starts_number hc hd
  simp [isBlank, hother (d := ' ') (by decide), hother (d := '\t') (by decide),
    hother (d := '\n') (by decide), hother (d := '\r') (by decide)]

/-- What opens no list and no object is read as an atom. -/
theorem readValue_char {c : Char} (hblank : isBlank (.char c) = false)
    (hopen : c ≠ '[' ∧ c ≠ '\x7b') (fuel : ℕ) (cs : List CodePoint) :
    readValue limits halves (fuel + 1) depth (.char c :: cs) =
      readAtom limits halves (.char c :: cs) := by
  rw [readValue, skipBlanks_char hblank]
  split
  · next heq => exact absurd (CodePoint.char.inj (List.cons.inj heq).1) hopen.2
  · next heq => exact absurd (CodePoint.char.inj (List.cons.inj heq).1) hopen.1
  · rfl

/-- A text that is not empty takes some fuel. -/
theorem isReadBack_of_succ {v : Json} (hne : v.text ≠ [])
    (h : ∀ fuel rest, EndsNumber rest →
      readValue limits halves (fuel + 1) depth (v.text.map .char ++ rest) = .ok (v, rest)) :
    IsReadBack limits halves depth v := by
  intro fuel rest hfuel hrest
  cases fuel with
  | zero => exact absurd (List.eq_nil_of_length_eq_zero (Nat.le_zero.mp hfuel)) hne
  | succ fuel => exact h fuel rest hrest

theorem isReadBack_of_spells {v : Json} (h : Spells limits v v.text) :
    IsReadBack limits halves depth v := by
  obtain ⟨c, ds, hcs, hc⟩ := h.exists_cons
  refine isReadBack_of_succ (by simp [hcs]) fun fuel rest hrest => ?_
  have hword := h.word? rest
  have hnumber := h.number? hrest
  rw [hcs, List.map_cons, List.cons_append] at hword hnumber ⊢
  rw [readValue_char (isBlank_of_starts_number hc)
    ⟨ne_of_starts_number hc (by decide), ne_of_starts_number hc (by decide)⟩]
  unfold readAtom
  split
  · next heq =>
    exact absurd (CodePoint.char.inj (List.cons.inj heq).1) (ne_of_starts_number hc (by decide))
  · rw [hword, hnumber]
    rfl

theorem isReadBack_str (s : String) : IsReadBack limits halves depth (.str s) := by
  refine isReadBack_of_succ (by simp [text, stringText]) fun fuel rest _ => ?_
  simp only [text, stringText, List.map_cons, List.map_append, List.map_nil, List.cons_append,
    List.append_assoc, List.nil_append]
  rw [readValue_char (by decide) (by decide), readAtom, readString_text]
  simp only [ofPoints_toNat]

theorem isReadBack_null : IsReadBack limits halves depth .null := by
  refine isReadBack_of_succ (by simp [text]) fun fuel rest _ => ?_
  simp [text, readValue, readAtom, skipBlanks, isBlank, word?, words, afterWord?]

theorem isReadBack_bool (b : Bool) : IsReadBack limits halves depth (.bool b) := by
  cases b <;>
  · refine isReadBack_of_succ (by simp [text]) fun fuel rest _ => ?_
    simp [text, readValue, readAtom, skipBlanks, isBlank, word?, words, afterWord?]

theorem isReadBack_noItems (hlimits : limits.countsEmpty = false) :
    IsReadBack limits halves depth (.arr []) := by
  refine isReadBack_of_succ (by simp [text]) fun fuel rest _ => ?_
  simp only [text, itemsText, List.map_cons, List.map_nil, List.cons_append, List.nil_append,
    readValue, skipBlanks_char (c := '[') (by decide)]
  exact enter_close hlimits .list _ rest

theorem isReadBack_noFields (hlimits : limits.countsEmpty = false) :
    IsReadBack limits halves depth (.obj []) := by
  refine isReadBack_of_succ (by simp [text]) fun fuel rest _ => ?_
  simp only [text, fieldsText, List.map_cons, List.map_nil, List.cons_append, List.nil_append,
    readValue, skipBlanks_char (c := '\x7b') (by decide)]
  exact enter_close hlimits .object _ rest

/-- The text of a value starts with a character that neither is blank nor ends a list. -/
theorem Plain.exists_cons {v : Json} (h : Plain limits depth v) :
    ∃ c cs, v.text = c :: cs ∧ isBlank (.char c) = false ∧ c ≠ ']' := by
  cases h with
  | null => exact ⟨'n', _, rfl, by decide, by decide⟩
  | bool b => cases b with
    | true => exact ⟨'t', _, rfl, by decide, by decide⟩
    | false => exact ⟨'f', _, rfl, by decide, by decide⟩
  | int hlimit =>
    obtain ⟨c, ds, hcs, hc⟩ := (spells_intText hlimit).exists_cons
    exact ⟨c, ds, hcs, isBlank_of_starts_number hc, ne_of_starts_number hc (by decide)⟩
  | float hx =>
    obtain ⟨c, ds, hcs, hc⟩ := (Binary64.spells_text limits hx).exists_cons
    exact ⟨c, ds, hcs, isBlank_of_starts_number hc, ne_of_starts_number hc (by decide)⟩
  | str s => exact ⟨'"', _, rfl, by decide, by decide⟩
  | noItems => exact ⟨'[', _, rfl, by decide, by decide⟩
  | arr _ => exact ⟨'[', _, rfl, by decide, by decide⟩
  | noFields => exact ⟨'\x7b', _, rfl, by decide, by decide⟩
  | obj _ _ => exact ⟨'\x7b', _, rfl, by decide, by decide⟩

theorem itemsText_cons (v : Json) (items : List Json) :
    itemsText (v :: items) = v.text ++ if items = [] then [']'] else ',' :: itemsText items := by
  cases items <;> simp [itemsText]

theorem readItems_itemsText {items : List Json} (hne : items ≠ [])
    (h : ∀ v ∈ items, IsReadBack limits halves depth v) (fuel : ℕ) (acc : List Json)
    (rest : List CodePoint) (hfuel : (itemsText items).length ≤ fuel) :
    readItems limits halves fuel depth acc ((itemsText items).map .char ++ rest) =
      .ok (.arr (acc.reverse ++ items), rest) := by
  induction items generalizing fuel acc with
  | nil => exact absurd rfl hne
  | cons v items ih =>
    rw [List.forall_mem_cons] at h
    rw [itemsText_cons, List.length_append] at hfuel
    rw [itemsText_cons, List.map_append, List.append_assoc]
    by_cases hlast : items = []
    · rw [if_pos hlast, List.length_singleton] at hfuel
      obtain ⟨fuel, rfl⟩ : ∃ k, fuel = k + 1 := ⟨fuel - 1, by omega⟩
      rw [if_pos hlast, List.map_singleton, List.singleton_append, readItems,
        h.1 fuel _ (by omega) (endsNumber_cons (by decide) _)]
      refine (proceed_close .list _ _ rest).trans ?_
      rw [List.reverse_cons, hlast]
    · rw [if_neg hlast, List.length_cons] at hfuel
      obtain ⟨fuel, rfl⟩ : ∃ k, fuel = k + 1 := ⟨fuel - 1, by omega⟩
      rw [if_neg hlast, List.map_cons, List.cons_append, readItems,
        h.1 fuel _ (by omega) (endsNumber_cons (by decide) _)]
      dsimp only
      rw [proceed_comma, ih hlast h.2 fuel _ (by omega), List.reverse_cons, List.append_assoc]
      rfl

theorem isReadBack_arr (hlimits : limits.countsEmpty = false) {items : List Json}
    (hplain : ∀ v ∈ items, Plain limits depth v)
    (h : ∀ v ∈ items, IsReadBack limits halves depth v) :
    IsReadBack limits halves (depth + 1) (.arr items) := by
  cases items with
  | nil => exact isReadBack_noItems hlimits
  | cons v items =>
    intro fuel rest hfuel hrest
    simp only [text, List.length_cons] at hfuel
    obtain ⟨fuel, rfl⟩ : ∃ k, fuel = k + 1 := ⟨fuel - 1, by omega⟩
    have hread := readItems_itemsText (by simp) h fuel [] rest (by omega)
    obtain ⟨c, cs, hcs, hblank, hc⟩ := (hplain v List.mem_cons_self).exists_cons
    rw [itemsText_cons, hcs, List.cons_append, List.map_cons, List.cons_append] at hread
    simp only [text, itemsText_cons, hcs, List.cons_append, List.map_cons, readValue,
      skipBlanks_char (c := '[') (by decide)]
    rw [enter_filled .list _ hblank hc]
    simpa using hread

theorem fieldsText_cons (name : String) (v : Json) (fields : List (String × Json)) :
    fieldsText ((name, v) :: fields) = stringText name ++ ':' ::
      (v.text ++ if fields = [] then ['\x7d'] else ',' :: fieldsText fields) := by
  cases fields <;> simp [fieldsText]

theorem put_of_notMem {fields : List (String × Json)} {name : String}
    (h : name ∉ fields.map Prod.fst) (v : Json) : put fields name v = fields ++ [(name, v)] := by
  induction fields with
  | nil => rfl
  | cons f fields ih =>
    rw [List.map_cons, List.mem_cons, not_or] at h
    rw [put, if_neg (Ne.symm h.1), ih h.2, List.cons_append]

theorem readName_stringText (name : String) (rest : List CodePoint) :
    readName halves ((stringText name).map .char ++ .char ':' :: rest) = some (name, rest) := by
  simp only [readName, stringText, List.map_cons, List.map_append, List.map_nil, List.cons_append,
    List.append_assoc, List.nil_append, skipBlanks_char (c := '"') (by decide), readString_text,
    skipBlanks_char (c := ':') (by decide), nameOf_toNat]

theorem readFields_fieldsText {fields : List (String × Json)} (hne : fields ≠ [])
    (h : ∀ f ∈ fields, IsReadBack limits halves depth f.2) (fuel : ℕ) (acc : List (String × Json))
    (rest : List CodePoint) (hnames : ((acc ++ fields).map Prod.fst).Nodup)
    (hfuel : (fieldsText fields).length ≤ fuel) :
    readFields limits halves fuel depth acc ((fieldsText fields).map .char ++ rest) =
      .ok (.obj (acc ++ fields), rest) := by
  induction fields generalizing fuel acc with
  | nil => exact absurd rfl hne
  | cons f fields ih =>
    obtain ⟨name, v⟩ := f
    rw [List.forall_mem_cons] at h
    have hv : IsReadBack limits halves depth v := h.1
    have hfresh : name ∉ acc.map Prod.fst := by
      rw [List.map_append, List.nodup_append] at hnames
      intro hmem
      exact hnames.2.2 name hmem name (by simp) rfl
    have hput := put_of_notMem hfresh v
    simp only [fieldsText_cons, List.length_cons, List.length_append] at hfuel
    obtain ⟨fuel, rfl⟩ : ∃ k, fuel = k + 1 := ⟨fuel - 1, by omega⟩
    rw [fieldsText_cons, List.map_append, List.map_cons, List.append_assoc, List.cons_append,
      readFields, readName_stringText, List.map_append, List.append_assoc]
    by_cases hlast : fields = []
    · rw [if_pos hlast] at hfuel ⊢
      rw [List.map_singleton, List.singleton_append]
      simp only [hv fuel _ (by omega) (endsNumber_cons (c := '\x7d') (by decide) _), hput]
      refine (proceed_close .object _ _ rest).trans ?_
      rw [hlast]
    · rw [if_neg hlast] at hfuel ⊢
      rw [List.map_cons, List.cons_append]
      simp only [hv fuel _ (by omega) (endsNumber_cons (c := ',') (by decide) _), hput]
      rw [List.length_cons] at hfuel
      rw [proceed_comma, ih hlast h.2 fuel _ (by simpa using hnames) (by omega),
        List.append_assoc]
      rfl

theorem isReadBack_obj (hlimits : limits.countsEmpty = false) {fields : List (String × Json)}
    (hnames : (fields.map Prod.fst).Nodup)
    (h : ∀ f ∈ fields, IsReadBack limits halves depth f.2) :
    IsReadBack limits halves (depth + 1) (.obj fields) := by
  cases fields with
  | nil => exact isReadBack_noFields hlimits
  | cons f fields =>
    obtain ⟨name, v⟩ := f
    intro fuel rest hfuel hrest
    simp only [text, List.length_cons] at hfuel
    obtain ⟨fuel, rfl⟩ : ∃ k, fuel = k + 1 := ⟨fuel - 1, by omega⟩
    have hread := readFields_fieldsText (by simp) h fuel [] rest hnames (by omega)
    simp only [fieldsText_cons, stringText, List.cons_append, List.map_cons] at hread
    simp only [text, fieldsText_cons, stringText, List.cons_append, List.map_cons, readValue,
      skipBlanks_char (c := '\x7b') (by decide)]
    rw [enter_filled .object _ (by decide) (by decide)]
    simpa using hread

theorem Plain.isReadBack (hlimits : limits.countsEmpty = false) {v : Json}
    (h : Plain limits depth v) : IsReadBack limits halves depth v := by
  induction h with
  | null => exact isReadBack_null
  | bool b => exact isReadBack_bool b
  | int hlimit => exact isReadBack_of_spells (spells_intText hlimit)
  | float hx => exact isReadBack_of_spells (Binary64.spells_text limits hx)
  | str s => exact isReadBack_str s
  | noItems => exact isReadBack_noItems hlimits
  | noFields => exact isReadBack_noFields hlimits
  | arr hplain ih => exact isReadBack_arr hlimits hplain ih
  | obj hnames _ ih => exact isReadBack_obj hlimits hnames ih

/-- What has a text of its own is read back from it. -/
theorem parse?_render (hlimits : limits.countsEmpty = false) {v : Json}
    (h : Plain limits limits.depth v) : parse? limits v.render halves = some v := by
  have hread : readValue limits halves (2 * v.text.length + 1) limits.depth
      (v.text.map .char ++ []) = .ok (v, []) :=
    h.isReadBack hlimits _ _ (by omega) (by simp [EndsNumber])
  rw [List.append_nil] at hread
  simp [parse?, read, codePoints, render, hread, skipBlanks, Except.toOption]

end LineWatch.Json
