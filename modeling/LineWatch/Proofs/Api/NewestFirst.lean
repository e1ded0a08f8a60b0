import LineWatch.Api.Answer
import LineWatch.Proofs.Cache.Coherence
import LineWatch.Proofs.Interval.Window

/-!
# The newest records of a line

The history of a line is answered from its log, newest millisecond first. Sorting is stable, so
that the records of one millisecond stay in the order of the log, in which the last one is in
force. The answer is the end of the log in reverse order exactly if none of the records in it
shares its millisecond with another record of the log.
-/

namespace LineWatch

namespace StatusChange

variable {log : List StatusChange} {c newest : StatusChange} {limit : ℕ}

/-- No other record of the log has the same millisecond. -/
def IsAlone (log : List StatusChange) (c : StatusChange) : Prop :=
  log.countP (·.millis = c.millis) = 1

instance (log : List StatusChange) (c : StatusChange) : Decidable (IsAlone log c) :=
  inferInstanceAs (Decidable (log.countP (·.millis = c.millis) = 1))

theorem isAlone_iff : IsAlone log c ↔ (log.filter (·.millis = c.millis)).length = 1 := by
  rw [IsAlone, List.countP_eq_length_filter]

theorem IsAlone.eq (h : IsAlone log c) (hc : c ∈ log) {d : StatusChange} (hd : d ∈ log)
    (hmillis : d.millis = c.millis) : d = c := by
  obtain ⟨only, honly⟩ := List.length_eq_one_iff.mp (isAlone_iff.mp h)
  have hmem : ∀ e ∈ log, e.millis = c.millis → e = only := fun e he hm => by
    have hin : e ∈ log.filter (·.millis = c.millis) :=
      List.mem_filter.mpr ⟨he, decide_eq_true hm⟩
    rwa [honly, List.mem_singleton] at hin
  rw [hmem d hd hmillis, hmem c hc rfl]

/-- The log from its newest millisecond on. -/
def descending (log : List StatusChange) : List StatusChange :=
  log.mergeSort fun a b => b.millis ≤ a.millis

theorem descending_perm (log : List StatusChange) : (descending log).Perm log :=
  List.mergeSort_perm log _

theorem filter_millis_descending (log : List StatusChange) (m : ℤ) :
    (descending log).filter (·.millis = m) = log.filter (·.millis = m) :=
  filter_mergeSort (fun a b c hab hbc => millisLe_trans c b a hbc hab)
    (fun a b => millisLe_total b a) fun a b ha hb => by simp_all

/-- In the answer the milliseconds come as in the log in reverse order. -/
theorem Sorted.map_millis_descending (h : Sorted log) :
    (descending log).map (·.millis) = log.reverse.map (·.millis) := by
  have hdescending : (descending log).Pairwise fun a b => b.millis ≤ a.millis :=
    (List.pairwise_mergeSort (fun a b c hab hbc => millisLe_trans c b a hbc hab)
      (fun a b => millisLe_total b a) log).imp of_decide_eq_true
  have hreverse : log.reverse.Pairwise fun a b => b.millis ≤ a.millis :=
    List.pairwise_reverse.mpr h
  have hperm : ((descending log).map (·.millis)).Perm (log.reverse.map (·.millis)) :=
    ((descending_perm log).trans log.reverse_perm.symm).map _
  exact hperm.eq_of_pairwise (fun a b _ _ (hba : b ≤ a) (hab : a ≤ b) => le_antisymm hab hba)
    (List.pairwise_map.mpr hdescending) (List.pairwise_map.mpr hreverse)

theorem eq_of_map_eq {α β : Type} {f : α → β} {xs ys : List α} (h : xs.map f = ys.map f)
    (hinj : ∀ x ∈ xs, ∀ y ∈ ys, f x = f y → x = y) : xs = ys := by
  induction xs generalizing ys with
  | nil => exact (List.map_eq_nil_iff.mp h.symm).symm
  | cons x rest ih =>
    obtain ⟨y, rest', rfl, hy, hrest⟩ := List.map_eq_cons_iff.mp h.symm
    have hhead : x = y := hinj x List.mem_cons_self y List.mem_cons_self hy.symm
    rw [hhead, ih hrest.symm fun a ha b hb =>
      hinj a (List.mem_cons_of_mem x ha) b (List.mem_cons_of_mem y hb)]

theorem length_eq_one_of_head?_eq_getLast? {α : Type} {l : List α} {a : α} (hnodup : l.Nodup)
    (hhead : l.head? = some a) (hlast : l.getLast? = some a) : l.length = 1 := by
  obtain ⟨front, rfl⟩ := List.getLast?_eq_some_iff.mp hlast
  cases front with
  | nil => rfl
  | cons b rest =>
    obtain rfl : b = a := by simpa using hhead
    simp at hnodup

/-- The newest records come as in the log in reverse order exactly if each of them is alone. -/
theorem Sorted.take_descending_iff (h : Sorted log) (hnodup : log.Nodup) (limit : ℕ) :
    (descending log).take limit = log.reverse.take limit ↔
      ∀ c ∈ log.reverse.take limit, IsAlone log c := by
  constructor
  · -- the first of the records of one millisecond is also the last of them
    intro hsame c hc
    obtain ⟨d, hd⟩ : ∃ d, (log.reverse.take limit).find? (·.millis = c.millis) = some d :=
      Option.isSome_iff_exists.mp (List.find?_isSome.mpr ⟨c, hc, decide_eq_true rfl⟩)
    have hfirst : (log.filter (·.millis = c.millis)).head? = some d := by
      rw [← filter_millis_descending, List.head?_filter]
      exact (List.take_prefix limit _).find?_eq_some (hsame ▸ hd)
    have hlast : (log.filter (·.millis = c.millis)).getLast? = some d := by
      rw [← List.head?_reverse, ← List.filter_reverse, List.head?_filter]
      exact (List.take_prefix limit _).find?_eq_some hd
    exact isAlone_iff.mpr (length_eq_one_of_head?_eq_getLast? (hnodup.filter _) hfirst hlast)
  · intro halone
    refine eq_of_map_eq (f := millis) ?_ fun c hc d hd hmillis => ?_
    · rw [List.map_take, List.map_take, h.map_millis_descending]
    · have hmem : d ∈ log := List.mem_reverse.mp (List.mem_of_mem_take hd)
      exact (halone d hd).eq hmem ((descending_perm log).mem_iff.mp (List.mem_of_mem_take hc))
        hmillis

theorem Sorted.head?_descending_iff (h : Sorted log) (hnodup : log.Nodup) :
    (descending log).head? = log.getLast? ↔ ∀ c ∈ log.getLast?, IsAlone log c := by
  have hone := h.take_descending_iff hnodup 1
  simp only [List.take_one, List.head?_reverse, Option.mem_toList] at hone
  have hinj : (descending log).head?.toList = log.getLast?.toList ↔
      (descending log).head? = log.getLast? := by
    cases (descending log).head? <;> cases log.getLast? <;> simp
  exact hinj.symm.trans hone

end StatusChange

namespace Api

open StatusChange (IsAlone descending)

theorem within_eq_ok {low high n : ℤ} {d : Decoded ℤ} (h : within low high d = .ok n) :
    low ≤ n ∧ n ≤ high := by
  unfold within at h
  cases d with
  | ok m =>
    simp only [Decoded.bind] at h
    split_ifs at h with hlow hhigh
    · cases h
    · cases h
    · obtain rfl : m = n := Decoded.ok.inj h
      exact ⟨not_lt.mp hlow, not_lt.mp hhigh⟩
  | invalid => cases h
  | outOfRange => cases h

/-- A limit that is accepted asks for at least one record. -/
theorem one_le_of_limit {ps : Parameters} {n : ℤ} (h : limit ps = .ok n) : 1 ≤ n := by
  unfold limit optional at h
  cases hgiven : parameter? ps "limit" with
  | none =>
    rw [hgiven] at h
    obtain rfl : defaultLimit = n := Decoded.ok.inj h
    decide
  | some text =>
    rw [hgiven] at h
    dsimp only at h
    cases hread : within 1 10000 (Decoder.intOfText text) with
    | ok m =>
      rw [hread] at h
      obtain rfl : m = n := Decoded.ok.inj h
      exact (within_eq_ok hread).1
    | invalid =>
      rw [hread] at h
      cases h
    | outOfRange =>
      rw [hread] at h
      cases h

namespace Service

variable {s : Service} {id path : String} {ps : Parameters} {n : ℤ} {line : ProductionLine}

theorem answer_history (hpath : routing "GET" path = .found (.history id))
    (hlimit : limit ps = .ok n) (hline : s.cache.line? id = some line) :
    s.answer "GET" path ps = .ok (s.history id n) := by
  have hmethod : ("GET".toUpper == "HEAD") = false := by decide +kernel
  have hread : s.read ps (.history id) = .ok (.ok (s.history id n)) := by
    simp only [read, Service.line, hlimit, hline]
    rfl
  rw [answer, hpath, hmethod]
  simp only [hread]
  rfl

/-- The history of a cached line is answered with the records of its newest milliseconds. They are
the end of the log in reverse order exactly if each of them is alone in its millisecond, and the
first one is the last record of the log, whose status the open interval has, exactly if that
record is alone. -/
theorem history_newest_first_iff (retention : Retention) (ops : List CacheOp)
    (hcache : s.cache = LineCache.run retention ops)
    (hpath : routing "GET" path = .found (.history id)) (hlimit : limit ps = .ok n)
    (hline : s.cache.line? id = some line) :
    let log := s.cache.log id
    let records := newestFirst log n.toNat
    s.answer "GET" path ps = .ok (.obj [
        ("data", .arr (records.map StatusChange.toJson)),
        ("meta", .obj [("total", Json.ofNat log.length)])]) ∧
      records.map (·.millis) = (log.reverse.take n.toNat).map (·.millis) ∧
      (records = log.reverse.take n.toNat ↔ ∀ c ∈ log.reverse.take n.toNat, IsAlone log c) ∧
      (records.head? = log.getLast? ↔ ∀ c ∈ log.getLast?, IsAlone log c) ∧
      ∀ c ∈ log.getLast?, ∀ now, ∃ last ∈ (Interval.resolve log now).getLast?,
        last.isOpen = true ∧ last.status = c.newStatus := by
  intro log records
  have hrecorded : (s.cache.entry id).Recorded id := by
    rw [hcache]
    exact ((LineCache.coherent_run retention ops).entry id).toRecorded
  have hlog : (s.cache.entry id).log = log := LineCache.entry_log _ _
  have hsorted : StatusChange.Sorted log := hlog ▸ hrecorded.sorted
  have hnodup : log.Nodup := (hlog ▸ hrecorded.nodup).of_map _
  have hrecords : records = (descending log).take n.toNat := rfl
  have hlimited : n.toNat ≠ 0 := by
    have hn := one_le_of_limit hlimit
    omega
  refine ⟨answer_history hpath hlimit hline, ?_, hsorted.take_descending_iff hnodup _, ?_, ?_⟩
  · rw [hrecords, List.map_take, List.map_take, hsorted.map_millis_descending]
  · rw [hrecords, List.head?_take, if_neg hlimited]
    exact hsorted.head?_descending_iff hnodup
  · intro c hc now
    rw [Interval.resolve, hsorted.sort_eq]
    exact ⟨_, Interval.getLast?_ofOrdered hc, rfl, rfl⟩

/-- Line a goes on at the start of 1970, and off a number of microseconds later. -/
def onThenOff (micros : ℤ) : List CacheOp :=
  let turn (t : Option Instant) (status : Status) : CacheOp :=
    .update (.change { time := t.getD .epoch, lineId := "a", newStatus := status })
  [turn (some .epoch) .on, turn (Instant.ofMicros? micros) .off]

def afterOnThenOff (micros : ℤ) : Service :=
  { cache := LineCache.run none (onThenOff micros), now := .epoch }

theorem history_newest_first_onThenOff :
    let s := afterOnThenOff 1000000
    let log := s.cache.log "a"
    let records := newestFirst log 2
    log.map (·.newStatus) = [.on, .off] ∧
      s.answer "GET" "/api/v1/lines/a/history" [("limit", "2")] = .ok (.obj [
        ("data", .arr (records.map StatusChange.toJson)),
        ("meta", .obj [("total", Json.ofNat log.length)])]) ∧
      records = log.reverse := by
  intro s log records
  have hlog : log.map (·.newStatus) = [.on, .off] := by decide +kernel
  obtain ⟨line, hline⟩ : ∃ line, s.cache.line? "a" = some line :=
    Option.isSome_iff_exists.mp (by decide +kernel)
  have hpath : routing "GET" "/api/v1/lines/a/history" = .found (.history "a") := by decide +kernel
  have hlimit : limit [("limit", "2")] = .ok 2 := rfl
  obtain ⟨hanswer, -, hreverse, -, -⟩ :=
    history_newest_first_iff none (onThenOff 1000000) rfl hpath hlimit hline
  have halone : ∀ c ∈ log.reverse.take 2, IsAlone log c := by decide +kernel
  have hall : log.reverse.take 2 = log.reverse := List.take_of_length_le (by
    rw [List.length_reverse, ← List.length_map (f := (·.newStatus)), hlog]
    decide)
  exact ⟨hlog, hanswer, (hreverse.mpr halone).trans hall⟩

/-- Both records have one millisecond. The line is off, but the record answered as the newest one
is the one with which it went on. -/
theorem history_onThenOff_at_once :
    let s := afterOnThenOff 0
    let on : StatusChange := { time := .epoch, lineId := "a", newStatus := .on }
    let off := { on with oldStatus := some .on, newStatus := .off }
    s.cache.log "a" = [on, off] ∧
      s.answer "GET" "/api/v1/lines/a/history" [("limit", "1")] = .ok (.obj [
        ("data", .arr [on.toJson]), ("meta", .obj [("total", Json.ofNat 2)])]) ∧
      (Interval.resolve (s.cache.log "a") 0).getLast?.map (·.status) = some .off := by
  intro s on off
  have hlog : s.cache.log "a" = [on, off] := by
    with_unfolding_all rfl
  obtain ⟨line, hline⟩ : ∃ line, s.cache.line? "a" = some line :=
    Option.isSome_iff_exists.mp (by decide +kernel)
  have hsorted : StatusChange.Sorted [on, off] := by
    unfold StatusChange.Sorted
    decide +kernel
  have hdescending : descending [on, off] = [on, off] :=
    List.mergeSort_of_pairwise (by decide +kernel)
  have hpath : routing "GET" "/api/v1/lines/a/history" = .found (.history "a") := by decide +kernel
  have hlimit : limit [("limit", "1")] = .ok 1 := rfl
  have hanswer := answer_history hpath hlimit hline
  have hfirst : newestFirst [on, off] 1 = [on] := congrArg (List.take 1) hdescending
  refine ⟨hlog, ?_, ?_⟩
  · rw [hanswer, history, hlog]
    simp only [Int.toNat_one, hfirst]
    rfl
  · rw [hlog, Interval.resolve, hsorted.sort_eq]
    rfl

end Service

end Api

end LineWatch
