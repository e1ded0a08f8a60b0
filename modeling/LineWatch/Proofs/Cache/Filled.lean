import LineWatch.Proofs.Cache.Coherence
import LineWatch.Proofs.Line.InForce

/-!
# Logs filled by a history

A history adds those of its records whose keys are missing. Each of them is put behind the records
of its millisecond, as in a stable sort of the log with the missing records behind it, and a sorted
log is given by what it holds of each millisecond. Pruning leaves the record in force at the horizon
and the records after it.
-/

namespace LineWatch

namespace StatusChange

variable {log log' new : List StatusChange} {c newest : StatusChange} {span : ℤ}

theorem mem_iff_of_filter_eq
    (heq : ∀ m, log.filter (·.millis = m) = log'.filter (·.millis = m)) (c : StatusChange) :
    c ∈ log ↔ c ∈ log' := by
  have hmem : c ∈ log.filter (·.millis = c.millis) ↔ c ∈ log'.filter (·.millis = c.millis) := by
    rw [heq]
  simpa using hmem

/-- Sorted logs are the same if they hold the same records of every millisecond, in one order. -/
theorem Sorted.ext (h : Sorted log) (h' : Sorted log')
    (heq : ∀ m, log.filter (·.millis = m) = log'.filter (·.millis = m)) : log = log' := by
  induction log generalizing log' with
  | nil => exact (List.eq_nil_iff_forall_not_mem.mpr fun c hc =>
      List.not_mem_nil ((mem_iff_of_filter_eq heq c).mpr hc)).symm
  | cons a rest ih =>
    cases log' with
    | nil => exact absurd ((mem_iff_of_filter_eq heq a).mp List.mem_cons_self) List.not_mem_nil
    | cons b rest' =>
      obtain ⟨ha, hrest⟩ := List.pairwise_cons.mp h
      obtain ⟨hb, hrest'⟩ := List.pairwise_cons.mp h'
      have hfirst : ∀ c ∈ a :: rest, a.millis ≤ c.millis := by simpa using ha
      have hfirst' : ∀ c ∈ b :: rest', b.millis ≤ c.millis := by simpa using hb
      have hsame : b.millis = a.millis := le_antisymm
        (hfirst' a ((mem_iff_of_filter_eq heq a).mp List.mem_cons_self))
        (hfirst b ((mem_iff_of_filter_eq heq b).mpr List.mem_cons_self))
      have hhead := heq a.millis
      rw [List.filter_cons_of_pos (by simp), List.filter_cons_of_pos (by simpa using hsame)]
        at hhead
      obtain ⟨rfl, -⟩ := List.cons.inj hhead
      refine congrArg (a :: ·) (ih hrest hrest' fun m => ?_)
      have hm := heq m
      simp only [List.filter_cons] at hm
      split_ifs at hm
      · exact (List.cons.inj hm).2
      · exact hm

theorem Sorted.insert_eq_sort (h : Sorted log) (c : StatusChange) :
    insert log c = sort (log ++ [c]) := by
  have hsorted : Sorted (insert log c) := sorted_insert h
  unfold insert at hsorted ⊢
  split at hsorted
  · next hnone => rw [List.getLast?_eq_none_iff.mp hnone]; exact hsorted.sort_eq.symm
  · split_ifs at hsorted ⊢
    · rfl
    · exact hsorted.sort_eq.symm

theorem sort_sort_append (log new : List StatusChange) :
    sort (sort log ++ new) = sort (log ++ new) := by
  refine (sorted_sort _).ext (sorted_sort _) fun m => ?_
  rw [filter_millis_sort, filter_millis_sort, List.filter_append, filter_millis_sort,
    List.filter_append]

/-- Sorting and selecting by the millisecond commute. -/
theorem filter_sort (p : ℤ → Bool) (log : List StatusChange) :
    (sort log).filter (p ·.millis) = sort (log.filter (p ·.millis)) := by
  refine Sorted.ext ((sorted_sort log).filter _) (sorted_sort _) fun m => ?_
  rw [filter_millis_sort, List.filter_filter, List.filter_filter]
  have hcomm : ∀ l : List StatusChange, l.filter (fun c => decide (c.millis = m) && p c.millis) =
      (l.filter (·.millis = m)).filter (p ·.millis) := fun l => by
    rw [List.filter_filter]
    exact List.filter_congr fun c _ => Bool.and_comm _ _
  rw [hcomm, hcomm, filter_millis_sort]

theorem drop_length_sub_one_eq (log : List StatusChange) :
    log.drop (log.length - 1) = log.getLast?.toList := by
  rcases List.eq_nil_or_concat log with rfl | ⟨front, newest, rfl⟩
  · rfl
  · simp

/-- Pruning leaves the record in force at the horizon and the records after it. -/
theorem Sorted.drop_expired (h : Sorted log) (hn : newest ∈ log.getLast?) :
    log.drop (expired (some span) log) =
      (inForce? (newest.millis - span) log).toList ++
        log.filter (newest.millis - span < ·.millis) := by
  let old := log.takeWhile fun c => c.millis ≤ newest.millis - span
  let young := log.dropWhile fun c => c.millis ≤ newest.millis - span
  have hsplit : old ++ young = log := List.takeWhile_append_dropWhile
  have hold : ∀ c ∈ old, c.millis ≤ newest.millis - span := fun c hc => by
    simpa using List.mem_takeWhile_imp hc
  have hyoung : ∀ c ∈ young, newest.millis - span < c.millis := fun c hc => h.lt_of_mem_dropWhile hc
  have hfilter : log.filter (·.millis ≤ newest.millis - span) = old := by
    rw [← hsplit, List.filter_append, List.filter_eq_self.mpr (by simpa using hold),
      List.filter_eq_nil_iff.mpr (by simpa using hyoung), List.append_nil]
  have hfilter' : log.filter (newest.millis - span < ·.millis) = young := by
    rw [← hsplit, List.filter_append, List.filter_eq_nil_iff.mpr (by simpa using hold),
      List.filter_eq_self.mpr (by simpa using hyoung), List.nil_append]
  have hlast : log.getLast? = some newest := hn
  have hcount : expired (some span) log = old.length - 1 := by
    simp only [expired, hlast, old]
  rw [h.inForce?_eq_getLast?, hfilter, hfilter', hcount]
  conv_lhs => rw [← hsplit]
  rw [List.drop_append_of_le_length (Nat.sub_le _ _), drop_length_sub_one_eq]

/-- A log that holds nothing but its first record from before its retention is not cut. -/
theorem Within.expired_eq_zero {retention : Retention} (h : Within retention log) :
    expired retention log = 0 := by
  cases retention with
  | none => rfl
  | some span =>
    cases log with
    | nil => rfl
    | cons first rest =>
      obtain ⟨newest, hnewest⟩ := Option.isSome_iff_exists.mp
        (List.getLast?_isSome.mpr (List.cons_ne_nil first rest))
      have hrest := h span rfl newest hnewest
      have hnone : rest.takeWhile (fun c => c.millis ≤ newest.millis - span) = [] := by
        cases rest with
        | nil => rfl
        | cons second _ =>
          refine List.takeWhile_cons_of_neg ?_
          simpa using hrest second List.mem_cons_self
      simp only [expired, hnewest, List.takeWhile_cons, hnone]
      split_ifs <;> rfl

end StatusChange

namespace LineEntry

variable {id : String} {e e' : LineEntry} {c : StatusChange} {changes : List StatusChange}
  {retention : Retention}

/-- The records of a history that an entry lacks, in the order in which they are added. -/
def missing (id : String) (e : LineEntry) : List StatusChange → List StatusChange
  | [] => []
  | c :: rest =>
    if c.lineId ≠ id ∨ e.hasSeen c then missing id e rest else c :: missing id (e.append c) rest

theorem addRecords_cons (id : String) (e : LineEntry) (c : StatusChange)
    (rest : List StatusChange) :
    e.addRecords id (c :: rest) = (LineEntry.addRecord id e c).addRecords id rest := rfl

theorem log_addRecords (h : e.Recorded id) (changes : List StatusChange) :
    (e.addRecords id changes).log = StatusChange.sort (e.log ++ e.missing id changes) := by
  induction changes generalizing e with
  | nil => rw [missing, List.append_nil, h.sorted.sort_eq]; rfl
  | cons c rest ih =>
    have hadded := h.addRecord c
    rw [addRecords_cons, ih hadded, missing]
    unfold LineEntry.addRecord
    split_ifs with hskip
    · rfl
    · rw [log_append, h.sorted.insert_eq_sort, StatusChange.sort_sort_append, List.append_assoc]
      rfl

theorem mem_missing (hc : c ∈ e.missing id changes) :
    c ∈ changes ∧ c.lineId = id ∧ e.hasSeen c = false := by
  induction changes generalizing e with
  | nil => exact absurd hc List.not_mem_nil
  | cons d rest ih =>
    rw [missing] at hc
    split_ifs at hc with hskip
    · obtain ⟨hin, hrest⟩ := ih hc
      exact ⟨List.mem_cons_of_mem d hin, hrest⟩
    · rw [not_or, not_ne_iff, Bool.not_eq_true] at hskip
      rcases List.mem_cons.mp hc with rfl | hc
      · exact ⟨List.mem_cons_self, hskip⟩
      · obtain ⟨hin, hid, hnew⟩ := ih hc
        refine ⟨List.mem_cons_of_mem d hin, hid, ?_⟩
        rw [hasSeen, ← Bool.not_eq_true, List.contains_iff_mem] at hnew ⊢
        exact fun hmem => hnew ((mem_keys_append e d c.key).mpr (.inl hmem))

/-- Nothing that is missing stays so. -/
theorem exists_missing (hc : c ∈ changes) (hid : c.lineId = id) (hnew : e.hasSeen c = false) :
    ∃ d ∈ e.missing id changes, d.key = c.key := by
  induction changes generalizing e with
  | nil => exact absurd hc List.not_mem_nil
  | cons d rest ih =>
    rw [missing]
    rcases List.mem_cons.mp hc with rfl | hc
    · rw [if_neg (by simp [hid, hnew])]
      exact ⟨c, List.mem_cons_self, rfl⟩
    · split_ifs with hskip
      · exact ih hc hnew
      · by_cases hkey : c.key = d.key
        · exact ⟨d, List.mem_cons_self, hkey.symm⟩
        · have hlater : (e.append d).hasSeen c = false := by
            rw [hasSeen, ← Bool.not_eq_true, List.contains_iff_mem] at hnew ⊢
            rw [mem_keys_append, not_or]
            exact ⟨hnew, hkey⟩
          obtain ⟨r, hr, hrkey⟩ := ih hc hlater
          exact ⟨r, List.mem_cons_of_mem d hr, hrkey⟩

/-- Both entries have the same log and the same set of keys. -/
structure SameLog (e e' : LineEntry) : Prop where
  log? : e'.log? = e.log?
  keyed : e'.keys?.isSome = e.keys?.isSome
  mem_keys : ∀ key, key ∈ e'.keys ↔ key ∈ e.keys

/-- In a recorded entry the keys are given by the log. -/
theorem sameLog_iff (h : e.Recorded id) (h' : e'.Recorded id) :
    SameLog e e' ↔ e'.log = e.log := by
  constructor
  · intro hsame
    rw [log, hsame.log?, log]
  · intro hlog
    have hlog? : e'.log? = e.log? := by
      have hnone := log_ne_nil_iff h
      have hnone' := log_ne_nil_iff h'
      rw [hlog, hnone] at hnone'
      cases he : e.log? with
      | none => simpa [he] using hnone'
      | some records =>
        obtain ⟨records', he'⟩ := Option.isSome_iff_exists.mp (hnone'.mp (by simp [he]))
        rw [log, log, he, he'] at hlog
        rw [he']
        exact congrArg some hlog
    refine ⟨hlog?, ?_, fun key => ?_⟩
    · rw [← h.logged, ← h'.logged, hlog?]
    · rw [h.mem_keys, h'.mem_keys, hlog]

end LineEntry

end LineWatch
