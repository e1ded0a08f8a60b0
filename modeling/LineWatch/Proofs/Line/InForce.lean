import LineWatch.Proofs.Cache.LogOrder

/-!
# The record in force

At an instant the last record that is not after it is in force. Sorting is stable: it keeps the
records of each millisecond in the order in which they came in. So it does not matter whether the
last record is looked for in the sorted log, or among those of the latest millisecond in the order
of arrival.
-/

namespace LineWatch.StatusChange

variable {log : List StatusChange} {c newest : StatusChange} {t m : ℤ}

/-- Of the records in the latest millisecond not after `t`, the one that came in last. -/
def inForce? (t : ℤ) (log : List StatusChange) : Option StatusChange :=
  ((log.filter (·.millis ≤ t)).map millis).max?.bind fun latest =>
    (log.filter (·.millis = latest)).getLast?

/-- A stable sort keeps elements that are tied in their order. -/
theorem filter_mergeSort {α : Type} {le : α → α → Bool} {p : α → Bool} {l : List α}
    (htrans : ∀ a b c, le a b = true → le b c = true → le a c = true)
    (htotal : ∀ a b, (le a b || le b a) = true)
    (htied : ∀ a b, p a = true → p b = true → le a b = true) :
    (l.mergeSort le).filter p = l.filter p := by
  have hpairwise : (l.filter p).Pairwise fun a b => le a b = true :=
    List.pairwise_of_forall_mem_list fun a ha b hb =>
      htied a b (List.mem_filter.mp ha).2 (List.mem_filter.mp hb).2
  have hsub : (l.filter p).Sublist ((l.mergeSort le).filter p) := by
    have h := (List.sublist_mergeSort htrans htotal hpairwise List.filter_sublist).filter p
    rwa [List.filter_filter, List.filter_congr (q := p) (by simp)] at h
  exact (hsub.eq_of_length ((List.mergeSort_perm l le).filter _).length_eq.symm).symm

theorem filter_millis_sort (log : List StatusChange) (m : ℤ) :
    (sort log).filter (·.millis = m) = log.filter (·.millis = m) :=
  filter_mergeSort millisLe_trans millisLe_total fun a b ha hb => by simp_all

theorem getLast?_filter_of_getLast? {p : StatusChange → Bool} (h : log.getLast? = some newest)
    (hp : p newest) : (log.filter p).getLast? = some newest := by
  obtain ⟨front, rfl⟩ := List.getLast?_eq_some_iff.mp h
  rw [List.filter_append, List.filter_cons_of_pos hp, List.filter_nil, List.getLast?_concat]

/-- A record that is put in becomes the newest one or leaves the newest one as it is. -/
theorem Sorted.getLast?_insert_cases (h : Sorted log)
    (hn : (insert log c).getLast? = some newest) : log.getLast? = some newest ∨ newest = c := by
  unfold insert at hn
  split at hn
  · exact .inr (by simpa using hn.symm)
  · next last hlast =>
    split_ifs at hn
    · have htied : ((log ++ [c]).filter (·.millis = newest.millis)).getLast? = some newest := by
        rw [← filter_millis_sort]
        exact getLast?_filter_of_getLast? hn (by simp)
      rw [List.filter_append] at htied
      by_cases hm : c.millis = newest.millis
      · right
        rw [List.filter_cons_of_pos (by simpa using hm), List.filter_nil,
          List.getLast?_concat] at htied
        exact (Option.some.inj htied).symm
      · left
        rw [List.filter_cons_of_neg (by simpa using hm), List.filter_nil,
          List.append_nil] at htied
        have hin : newest ∈ log := (List.mem_filter.mp (List.mem_of_getLast? htied)).1
        have hle : newest.millis ≤ last.millis := h.le_newest hlast hin
        have hge : last.millis ≤ newest.millis := (sorted_sort _).le_newest hn
          (mem_sort.mpr (List.mem_append_left _ (List.mem_of_getLast? hlast)))
        rw [getLast?_filter_of_getLast? hlast (by simpa using le_antisymm hge hle)] at htied
        rw [hlast, htied]
    · exact .inr (by simpa using hn.symm)

theorem max?_millis_sort (log : List StatusChange) (t : ℤ) :
    (((sort log).filter (·.millis ≤ t)).map millis).max? =
      ((log.filter (·.millis ≤ t)).map millis).max? := by
  have hmem : ∀ n, n ∈ ((sort log).filter (·.millis ≤ t)).map millis ↔
      n ∈ (log.filter (·.millis ≤ t)).map millis :=
    fun n => (((sort_perm log).filter _).map _).mem_iff
  apply Option.ext
  intro n
  rw [List.max?_eq_some_iff, List.max?_eq_some_iff, hmem]
  simp only [hmem]

theorem inForce?_sort (t : ℤ) (log : List StatusChange) :
    inForce? t (sort log) = inForce? t log := by
  simp only [inForce?, max?_millis_sort, filter_millis_sort]

theorem Sorted.inForce?_eq_getLast? (h : Sorted log) (t : ℤ) :
    inForce? t log = (log.filter (·.millis ≤ t)).getLast? := by
  have hshown : Sorted (log.filter (·.millis ≤ t)) := h.filter _
  cases hlast : (log.filter (·.millis ≤ t)).getLast? with
  | none => rw [inForce?, List.getLast?_eq_none_iff.mp hlast]; rfl
  | some newest =>
    have hin := List.mem_of_getLast? hlast
    have hle : newest.millis ≤ t := by simpa using (List.mem_filter.mp hin).2
    have hmax : ((log.filter (·.millis ≤ t)).map millis).max? = some newest.millis := by
      rw [List.max?_eq_some_iff]
      refine ⟨List.mem_map_of_mem hin, fun n hn => ?_⟩
      obtain ⟨c, hc, rfl⟩ := List.mem_map.mp hn
      exact hshown.le_newest hlast hc
    have htied : log.filter (·.millis = newest.millis) =
        (log.filter (·.millis ≤ t)).filter (·.millis = newest.millis) := by
      rw [List.filter_filter]
      refine List.filter_congr fun c _ => ?_
      have : c.millis = newest.millis → c.millis ≤ t := fun he => he ▸ hle
      simpa using this
    obtain ⟨front, hfront⟩ := List.getLast?_eq_some_iff.mp hlast
    rw [inForce?, hmax, Option.bind_some, htied, hfront, List.filter_append]
    simp

/-- The record in force is the last one of the sorted log that is not after the instant. -/
theorem inForce?_eq_getLast?_sort (t : ℤ) (log : List StatusChange) :
    inForce? t log = ((sort log).filter (·.millis ≤ t)).getLast? := by
  rw [← inForce?_sort, (sorted_sort log).inForce?_eq_getLast?]

theorem exists_inForce?_iff : (∃ c, inForce? t log = some c) ↔ ∃ c ∈ log, c.millis ≤ t := by
  rw [inForce?_eq_getLast?_sort, ← Option.isSome_iff_exists, List.getLast?_isSome, ne_eq,
    List.filter_eq_nil_iff]
  simp

end LineWatch.StatusChange
