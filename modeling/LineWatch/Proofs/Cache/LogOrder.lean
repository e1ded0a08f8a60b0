import LineWatch.Cache.Log
import LineWatch.Proofs.Number.Nearest
import Mathlib.Data.List.TakeWhile

/-!
# Logs in the order of time

A log is sorted by the milliseconds of its records. Putting a record in keeps it sorted, whether
the record comes last or late, and cutting expired records off leaves the newest one in place.
What is left reaches back as far as the retention, apart from its first record.
-/

namespace LineWatch

theorem pos_of_mem_take {α : Type} {l : List α} {a : α} {n : Nat} (h : a ∈ l.take n) : 0 < n := by
  cases n with
  | zero => exact absurd h List.not_mem_nil
  | succ n => exact Nat.succ_pos n

namespace StatusChange

variable {log : List StatusChange} {c change newest : StatusChange} {retention : Retention}

def Sorted (log : List StatusChange) : Prop := log.Pairwise fun a b => a.millis ≤ b.millis

theorem sort_perm (log : List StatusChange) : (sort log).Perm log := List.mergeSort_perm log _

theorem millisLe_trans (a b c : StatusChange) (hab : decide (a.millis ≤ b.millis) = true)
    (hbc : decide (b.millis ≤ c.millis) = true) : decide (a.millis ≤ c.millis) = true := by
  rw [decide_eq_true_eq] at *
  exact hab.trans hbc

theorem millisLe_total (a b : StatusChange) :
    (decide (a.millis ≤ b.millis) || decide (b.millis ≤ a.millis)) = true := by
  rw [Bool.or_eq_true, decide_eq_true_eq, decide_eq_true_eq]
  exact Int.le_total _ _

theorem sorted_sort (log : List StatusChange) : Sorted (sort log) :=
  (List.pairwise_mergeSort millisLe_trans millisLe_total log).imp of_decide_eq_true

@[simp] theorem mem_sort : c ∈ sort log ↔ c ∈ log := (sort_perm log).mem_iff

theorem Sorted.sort_eq (h : Sorted log) : sort log = log :=
  List.mergeSort_of_pairwise (h.imp decide_eq_true)

theorem Sorted.le_newest (h : Sorted log) (hn : newest ∈ log.getLast?) (hc : c ∈ log) :
    c.millis ≤ newest.millis := by
  obtain ⟨front, rfl⟩ := List.getLast?_eq_some_iff.mp hn
  rcases List.mem_append.mp hc with hc | hc
  · exact (List.pairwise_append.mp h).2.2 c hc newest (List.mem_singleton_self newest)
  · rw [List.mem_singleton.mp hc]

theorem Sorted.concat (h : Sorted log) (hle : ∀ c ∈ log, c.millis ≤ change.millis) :
    Sorted (log ++ [change]) :=
  List.pairwise_append.mpr ⟨h, List.pairwise_singleton _ _, fun c hc d hd => by
    rw [List.mem_singleton.mp hd]
    exact hle c hc⟩

theorem insert_perm (log : List StatusChange) (change : StatusChange) :
    (insert log change).Perm (log ++ [change]) := by
  unfold insert
  split
  · next h => rw [List.getLast?_eq_none_iff.mp h, List.nil_append]
  · split_ifs
    · exact sort_perm _
    · exact List.Perm.refl _

theorem sorted_insert (h : Sorted log) : Sorted (insert log change) := by
  unfold insert
  split
  · exact List.pairwise_singleton _ _
  · next last hl =>
    split_ifs with ht
    · exact sorted_sort _
    · -- not before the newest record, and so not in an earlier millisecond
      have hle : last.millis ≤ change.millis := Instant.millis_le_millis (Instant.not_lt.mp ht)
      exact h.concat fun c hc => (h.le_newest hl hc).trans hle

@[simp] theorem mem_insert : c ∈ insert log change ↔ c ∈ log ∨ c = change := by
  rw [(insert_perm log change).mem_iff, List.mem_append, List.mem_singleton]

theorem insert_ne_nil (log : List StatusChange) (change : StatusChange) :
    insert log change ≠ [] := List.ne_nil_of_mem (mem_insert.mpr (.inr rfl))

theorem insert_eq_concat (h : ∀ last ∈ log.getLast?, last.time ≤ change.time) :
    insert log change = log ++ [change] := by
  unfold insert
  split
  · next hnone => rw [List.getLast?_eq_none_iff.mp hnone, List.nil_append]
  · next last hlast => exact if_neg (Instant.not_lt.mpr (h last hlast))

theorem getLast?_insert (h : ∀ last ∈ log.getLast?, last.time ≤ change.time) :
    (insert log change).getLast? = some change := by
  rw [insert_eq_concat h]
  exact List.getLast?_concat

@[simp] theorem expired_nil (retention : Retention) : expired retention [] = 0 := by
  cases retention <;> rfl

theorem expired_lt_length (h : log ≠ []) : expired retention log < log.length := by
  have hpos := List.length_pos_iff.mpr h
  unfold expired
  split
  · next span newest _ =>
    have hle := (List.takeWhile_sublist (l := log)
      fun c : StatusChange => decide (c.millis ≤ newest.millis - span)).length_le
    omega
  · exact hpos

theorem getLast?_drop_expired (log : List StatusChange) :
    (log.drop (expired retention log)).getLast? = log.getLast? := by
  by_cases h : log = []
  · rw [h, expired_nil, List.drop_zero]
  · rw [List.getLast?_drop, if_neg (not_le.mpr (expired_lt_length h))]

/-- If records are cut off, neither they nor the one kept in front of the rest lie within the
retention. -/
theorem le_of_mem_take_expired {span : Int} (hn : newest ∈ log.getLast?)
    (hpos : 0 < expired (some span) log)
    (hc : c ∈ log.take (expired (some span) log + 1)) : c.millis ≤ newest.millis - span := by
  let old := log.takeWhile fun c => c.millis ≤ newest.millis - span
  have hlast : log.getLast? = some newest := hn
  have hcount : expired (some span) log + 1 = old.length := by
    simp only [expired, hlast, old] at hpos ⊢
    omega
  have hold : log.take old.length = old :=
    (List.prefix_iff_eq_take.mp (List.takeWhile_prefix _)).symm
  rw [hcount, hold] at hc
  simpa using List.mem_takeWhile_imp hc

/-- A record that lies within the retention is not cut off. -/
theorem mem_drop_expired (hc : c ∈ log)
    (hin : ∀ span ∈ retention, ∀ newest ∈ log.getLast?, newest.millis - span < c.millis) :
    c ∈ log.drop (expired retention log) := by
  rw [← List.take_append_drop (expired retention log) log, List.mem_append] at hc
  refine hc.resolve_left fun hgone => ?_
  have hpos : 0 < expired retention log := pos_of_mem_take hgone
  cases retention with
  | none => exact absurd hpos (Nat.lt_irrefl 0)
  | some span =>
    obtain ⟨newest, hnewest⟩ := Option.isSome_iff_exists.mp
      (List.getLast?_isSome.mpr (List.ne_nil_of_mem (List.mem_of_mem_take hgone)))
    have hold := le_of_mem_take_expired hnewest hpos
      (List.take_subset_take_left _ (Nat.le_succ _) hgone)
    exact absurd hold (not_le.mpr (hin span rfl newest hnewest))

theorem Sorted.lt_of_mem_dropWhile {bound : Int} (h : Sorted log)
    (hc : c ∈ log.dropWhile fun c => c.millis ≤ bound) : bound < c.millis := by
  induction log with
  | nil => simp at hc
  | cons d rest ih =>
    obtain ⟨hd, hrest⟩ := List.pairwise_cons.mp h
    by_cases hle : d.millis ≤ bound
    · rw [List.dropWhile_cons_of_pos (by simpa using hle)] at hc
      exact ih hrest hc
    · rw [List.dropWhile_cons_of_neg (by simpa using hle)] at hc
      have hlt := not_le.mp hle
      rcases List.mem_cons.mp hc with rfl | hc
      · exact hlt
      · exact hlt.trans_le (hd c hc)

/-- A pruned log holds at most one record from before its retention, the first one. -/
theorem Sorted.reach {span : Int} (h : Sorted log) (hn : newest ∈ log.getLast?)
    (hc : c ∈ (log.drop (expired (some span) log)).tail) : newest.millis - span < c.millis := by
  apply h.lt_of_mem_dropWhile
  let old := log.takeWhile fun c => c.millis ≤ newest.millis - span
  have hlast : log.getLast? = some newest := hn
  have hcount : old.length ≤ expired (some span) log + 1 := by
    simp only [expired, hlast, old]
    omega
  have hdrop : (log.dropWhile fun c => c.millis ≤ newest.millis - span) =
      log.drop old.length := by
    conv_rhs => rw [← List.takeWhile_append_dropWhile (l := log)
      (p := fun c => decide (c.millis ≤ newest.millis - span))]
    rw [List.drop_left]
  rw [hdrop]
  rw [List.tail_drop] at hc
  exact (List.drop_sublist_drop_left log hcount).subset hc

end StatusChange

end LineWatch
