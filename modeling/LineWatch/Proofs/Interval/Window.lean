import LineWatch.Proofs.Interval.Overlap
import LineWatch.Proofs.Line.InForce

/-!
# What a window shows of a log

The intervals of a log in order follow each other without a gap, from its first record up to the
known end. Within them each instant has one interval, that of the record in force. So a window
shows every instant from the first record on once, and covers all the time from there to its end.
-/

namespace LineWatch.Interval

open StatusChange (Sorted sort inForce?)

variable {log : List StatusChange} {c : StatusChange} {now t : ℤ}

theorem map_start_ofOrdered (now : ℤ) (log : List StatusChange) :
    (ofOrdered now log).map (·.start) = log.map (·.millis) := by
  fun_induction ofOrdered now log <;> simp_all

/-- The last interval of a log in order is that of its newest record, and it is open. -/
theorem getLast?_ofOrdered {last : StatusChange} (h : log.getLast? = some last) :
    (ofOrdered now log).getLast? =
      some ⟨last.lineId, last.newStatus, last.millis, max last.millis now, true⟩ := by
  fun_induction ofOrdered now log with
  | case1 => exact absurd h (by simp)
  | case2 only => rw [← Option.some.inj h]; rfl
  | case3 current following rest ih =>
    rw [List.getLast?_cons_cons] at h
    obtain ⟨front, hfront⟩ := List.getLast?_eq_some_iff.mp (ih h)
    rw [hfront, ← List.cons_append, List.getLast?_concat]

theorem exists_start_eq {i : Interval} (hi : i ∈ ofOrdered now log) :
    ∃ c ∈ log, i.start = c.millis := by
  have hmem : i.start ∈ log.map (·.millis) := by
    rw [← map_start_ofOrdered now]
    exact List.mem_map_of_mem hi
  obtain ⟨c, hc, he⟩ := List.mem_map.mp hmem
  exact ⟨c, hc, he.symm⟩

theorem inOrder_ofOrdered (now : ℤ) (h : Sorted log) : InOrder (ofOrdered now log) := by
  fun_induction ofOrdered now log with
  | case1 => exact ⟨by simp, List.Pairwise.nil⟩
  | case2 last =>
    constructor
    · intro i hi
      rw [List.mem_singleton.mp hi]
      exact le_max_left _ _
    · exact List.pairwise_singleton _ _
  | case3 current following rest ih =>
    obtain ⟨hcurrent, hrest⟩ := List.pairwise_cons.mp h
    have ih := ih hrest
    constructor
    · intro i hi
      rcases List.mem_cons.mp hi with rfl | hi
      · exact hcurrent following List.mem_cons_self
      · exact ih.forward i hi
    · refine List.pairwise_cons.mpr ⟨fun i hi => ?_, ih.apart⟩
      obtain ⟨c, hc, he⟩ := exists_start_eq hi
      rw [he]
      rcases List.mem_cons.mp hc with rfl | hc
      · exact le_rfl
      · exact (List.pairwise_cons.mp hrest).1 c hc

theorem inOrder_resolve (changes : List StatusChange) (now : ℤ) :
    InOrder (resolve changes now) :=
  inOrder_ofOrdered now (StatusChange.sorted_sort changes)

/-- Before the known end an instant has the status of the last record that is not after it. -/
theorem status_filter_ofOrdered (h : Sorted log) (ht : t < now) :
    ((ofOrdered now log).filter (·.Contains t)).map (·.status) =
      ((log.filter (·.millis ≤ t)).getLast?.map (·.newStatus)).toList := by
  fun_induction ofOrdered now log with
  | case1 => rfl
  | case2 last =>
    by_cases hle : last.millis ≤ t
    · have hin : last.millis ≤ t ∧ t < max last.millis now := ⟨hle, by omega⟩
      simp [Contains, hle, hin]
    · simp [Contains, hle]
  | case3 current following rest ih =>
    obtain ⟨hcurrent, hrest⟩ := List.pairwise_cons.mp h
    have ih := ih hrest
    let head : Interval :=
      ⟨current.lineId, current.newStatus, current.millis, following.millis, false⟩
    by_cases hle : following.millis ≤ t
    · -- the record that follows has taken over already
      have hle' : current.millis ≤ t := (hcurrent following List.mem_cons_self).trans hle
      have hout : ¬head.Contains t := fun hin => absurd hle (not_le.mpr hin.2)
      rw [List.filter_cons_of_neg (by simpa using hout), ih,
        List.filter_cons_of_pos (a := current) (by simpa using hle'),
        List.filter_cons_of_pos (a := following) (by simpa using hle), List.getLast?_cons_cons]
    · have hnone : (following :: rest).filter (·.millis ≤ t) = [] := by
        refine List.filter_eq_nil_iff.mpr fun c hc => ?_
        rcases List.mem_cons.mp hc with rfl | hc
        · simpa using hle
        · have := (List.pairwise_cons.mp hrest).1 c hc
          simp only [decide_eq_true_eq]
          omega
      rw [hnone] at ih
      by_cases hle' : current.millis ≤ t
      · have hin : head.Contains t := ⟨hle', not_le.mp hle⟩
        rw [List.filter_cons_of_pos (by simpa using hin), List.map_cons, ih,
          List.filter_cons_of_pos (by simpa using hle'), hnone]
        rfl
      · have hout : ¬head.Contains t := fun hin => hle' hin.1
        rw [List.filter_cons_of_neg (by simpa using hout), ih,
          List.filter_cons_of_neg (by simpa using hle'), hnone]

/-- The intervals of a log in order cover its window from the first record to the known end. -/
theorem sum_overlap_ofOrdered (a : ℤ) {rest : List StatusChange} (h : Sorted (c :: rest)) :
    ((ofOrdered now (c :: rest)).map (overlap a now)).sum = max 0 (now - max a c.millis) := by
  induction rest generalizing c with
  | nil =>
    simp only [ofOrdered, List.map_cons, List.map_nil, List.sum_singleton, overlap]
    omega
  | cons d rest ih =>
    obtain ⟨hc, hrest⟩ := List.pairwise_cons.mp h
    have hle : c.millis ≤ d.millis := hc d List.mem_cons_self
    rw [ofOrdered, List.map_cons, List.sum_cons, ih hrest]
    simp only [overlap]
    omega

theorem min?_millis_eq_head? (log : List StatusChange) :
    (log.map (·.millis)).min? = (sort log).head?.map (·.millis) := by
  cases hs : sort log with
  | nil =>
    have hnil : log = [] := by
      have := (StatusChange.sort_perm log).symm
      rwa [hs, List.perm_nil] at this
    rw [hnil]
    rfl
  | cons first rest =>
    have hsorted : Sorted (first :: rest) := hs ▸ StatusChange.sorted_sort log
    have hmem : ∀ c, c ∈ log ↔ c ∈ first :: rest := fun c => by rw [← hs, StatusChange.mem_sort]
    rw [List.head?_cons, Option.map_some, List.min?_eq_some_iff]
    refine ⟨List.mem_map_of_mem ((hmem first).mpr List.mem_cons_self), fun m hm => ?_⟩
    obtain ⟨c, hc, rfl⟩ := List.mem_map.mp hm
    rcases List.mem_cons.mp ((hmem c).mp hc) with rfl | hc
    · exact le_rfl
    · exact (List.pairwise_cons.mp hsorted).1 c hc

theorem covered_window (changes : List StatusChange) (start stop : ℤ) (now : Option ℤ) :
    covered (window changes start stop now) =
      match (changes.map (·.millis)).min? with
      | none => 0
      | some first => max 0 (knownEnd stop now - max start first) := by
  rw [window, covered_clip, resolve, min?_millis_eq_head?]
  have hsorted := StatusChange.sorted_sort changes
  cases hs : sort changes with
  | nil => rfl
  | cons first rest => exact sum_overlap_ofOrdered start (hs ▸ hsorted)

theorem status_filter_window (changes : List StatusChange) (start stop : ℤ) (now : Option ℤ)
    (t : ℤ) : ((window changes start stop now).filter (·.Contains t)).map (·.status) =
      if start ≤ t ∧ t < knownEnd stop now then
        ((inForce? t changes).map (·.newStatus)).toList else [] := by
  rw [window, status_filter_clip]
  split_ifs with ht
  · rw [resolve, status_filter_ofOrdered (StatusChange.sorted_sort changes) ht.2,
      StatusChange.inForce?_eq_getLast?_sort]
  · rfl

/-- While a record is in force its status is shown by exactly one interval. -/
theorem exists_filter_window_eq (changes : List StatusChange) {start stop : ℤ} {now : Option ℤ}
    (ht : start ≤ t ∧ t < knownEnd stop now) (hc : inForce? t changes = some c) :
    ∃ i, (window changes start stop now).filter (·.Contains t) = [i] ∧
      i.status = c.newStatus := by
  have hone := status_filter_window changes start stop now t
  rw [if_pos ht, hc] at hone
  exact List.map_eq_singleton_iff.mp hone

theorem exists_contains_window_iff (changes : List StatusChange) (start stop : ℤ)
    (now : Option ℤ) (t : ℤ) : (∃ i ∈ window changes start stop now, i.Contains t) ↔
      (start ≤ t ∧ t < knownEnd stop now) ∧ ∃ c ∈ changes, c.millis ≤ t := by
  rw [← StatusChange.exists_inForce?_iff]
  constructor
  · rintro ⟨i, hi, hit⟩
    have hmem : i.status ∈
        ((window changes start stop now).filter (·.Contains t)).map (·.status) :=
      List.mem_map_of_mem (List.mem_filter.mpr ⟨hi, decide_eq_true hit⟩)
    rw [status_filter_window] at hmem
    split_ifs at hmem with ht
    · obtain ⟨c, hc, -⟩ := Option.map_eq_some_iff.mp (Option.mem_toList.mp hmem)
      exact ⟨ht, c, hc⟩
    · exact absurd hmem List.not_mem_nil
  · rintro ⟨ht, c, hc⟩
    obtain ⟨i, hi, -⟩ := exists_filter_window_eq changes ht hc
    have hmem : i ∈ (window changes start stop now).filter (·.Contains t) := by
      rw [hi]
      exact List.mem_singleton_self i
    exact ⟨i, (List.mem_filter.mp hmem).1, of_decide_eq_true (List.mem_filter.mp hmem).2⟩

/-- A window shows an instant if it lies between its start and its known end and a record is not
after it. It then shows the instant once, in the status of the record in force. -/
theorem window_shows_record_in_force (changes : List StatusChange) (start stop : ℤ)
    (now : Option ℤ) :
    let known := knownEnd stop now
    let shown := window changes start stop now
    InOrder shown ∧
      (∀ t, (∃ i ∈ shown, i.Contains t) ↔
        (start ≤ t ∧ t < known) ∧ ∃ c ∈ changes, c.millis ≤ t) ∧
      (∀ t, (∃ i ∈ shown, i.Contains t) → ∃ i c, shown.filter (·.Contains t) = [i] ∧
        inForce? t changes = some c ∧ i.status = c.newStatus) ∧
      covered shown = match (changes.map (·.millis)).min? with
        | none => 0
        | some first => max 0 (known - max start first) := by
  intro known shown
  have hshown := exists_contains_window_iff changes start stop now
  refine ⟨(inOrder_resolve changes known).clip start known, hshown, fun t hin => ?_,
    covered_window changes start stop now⟩
  obtain ⟨ht, hex⟩ := (hshown t).mp hin
  obtain ⟨c, hc⟩ := StatusChange.exists_inForce?_iff.mpr hex
  obtain ⟨i, hi, hstatus⟩ := exists_filter_window_eq changes ht hc
  exact ⟨i, c, hi, hc, hstatus⟩

end LineWatch.Interval
