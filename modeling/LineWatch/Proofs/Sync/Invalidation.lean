import LineWatch.Proofs.Sync.InFlight

/-!
# Marks on the line list while it is fetched

An applied change, an event of a line and an invalidation mark the list as stale, and a merged
list takes the mark away, also one that was set after the list had been asked for. So what is
left of the marks set while a request is under way is up to its reply: if that cannot be read
the last word stands, and if it is merged the marks are lost.
-/

namespace LineWatch

namespace InFlight

/-- What a move says of the list: that it is stale, that it is fresh, or nothing. -/
def word? (s : InFlight) : Move → Option Bool
  | .op (.update (.change c)) => if s.cache.judge c = .applied then some true else none
  | .op (.update (.snapshot _)) | .op (.update (.history _ _)) => none
  | .op (.lineEvent _) | .op .invalidate => some true
  | .op (.list _ _) => some false
  | .refresh _ _ | .bootstrap _ _ => none
  | .reply task reply =>
    match s.fetch? task with
    | some fetch => if fetch.awaitsList && reply.lines.1.isOk then some false else none
    | none => none

theorem stale_receive (retention : Retention) (s : InFlight) (task : Nat) (reply : Reply)
    (fetch : Fetch) :
    (s.receive retention task reply fetch).cache.stale =
      if fetch.awaitsList && reply.lines.1.isOk then false else s.cache.stale := by
  cases fetch with
  | refresh asked =>
    change (s.cache.mergeRefresh asked reply.lines.1).cache.stale = _
    cases hl : reply.lines.1 with
    | ok lines => rfl
    | error e => cases e <;> rfl
  | bootstrap awaited =>
    cases awaited with
    | list asked =>
      change (s.cache.mergeBootstrap asked reply.lines.1).cache.stale = _
      cases hl : reply.lines.1 with
      | ok lines => rfl
      | error e => rfl
    | history id rest =>
      change (s.cache.mergeHistory retention id (reply.history id).1).cache.stale = _
      cases hh : (reply.history id).1 with
      | ok changes => exact (s.cache.sameList_seedHistory retention id changes).stale
      | error e => cases e <;> rfl

/-- A move leaves the list as its word tells. -/
theorem stale_step (retention : Retention) (s : InFlight) (m : Move) :
    (s.step retention m).cache.stale = (s.word? m).getD s.cache.stale := by
  cases m with
  | op op =>
    cases op with
    | update u =>
      cases u with
      | change c =>
        change (s.cache.applyChange retention c).cache.stale = _
        rw [LineCache.stale_applyChange, word?]
        split_ifs <;> rfl
      | snapshot line => exact (s.cache.sameList_seedLine line).stale
      | history id changes => exact (s.cache.sameList_seedHistory retention id changes).stale
    | list lines fetchedAt => rfl
    | lineEvent event => rfl
    | invalidate => rfl
  | refresh task now =>
    unfold step
    dsimp only
    split_ifs <;> rfl
  | bootstrap task now =>
    unfold step
    dsimp only
    split_ifs <;> rfl
  | reply task reply =>
    unfold step word?
    dsimp only
    split
    · next h => rw [h]; rfl
    · next fetch h =>
      rw [h, stale_receive]
      dsimp only
      split_ifs <;> rfl

/-- What the moves of a run say of the list, one after the other. -/
def words (retention : Retention) (s : InFlight) : List Move → List Bool
  | [] => []
  | m :: rest => (s.word? m).toList ++ words retention (s.step retention m) rest

/-- The last word stands. -/
theorem stale_run (retention : Retention) (s : InFlight) (moves : List Move) :
    (s.run retention moves).cache.stale =
      (s.words retention moves).getLast?.getD s.cache.stale := by
  induction moves generalizing s with
  | nil => rfl
  | cons m rest ih =>
    change ((s.step retention m).run retention rest).cache.stale = _
    rw [ih, words, List.getLast?_append, stale_step]
    cases (words retention (s.step retention m) rest).getLast? with
    | none => cases s.word? m <;> rfl
    | some b => rfl

/-- Marks set while the list is under way outlast its reply if that cannot be read, and the last
of them comes after any other list that was merged meanwhile, and in no other case. -/
theorem mark_outlasts_reply_iff (retention : Retention) (s : InFlight) {task : Nat}
    {fetch : Fetch} (hfetch : s.fetch? task = some fetch) (hlist : fetch.awaitsList = true)
    (window : List Move) (hwait : ∀ reply, Move.reply task reply ∉ window)
    (hmark : true ∈ s.words retention window) (reply : Reply) :
    (s.run retention (window ++ [.reply task reply])).cache.stale = true ↔
      reply.lines.1.isOk = false ∧ (s.words retention window).getLast? = some true := by
  have hne := List.ne_nil_of_mem hmark
  obtain ⟨last, hlast⟩ := Option.isSome_iff_exists.mp (List.getLast?_isSome.mpr hne)
  have hpending : (s.run retention window).fetch? task = some fetch :=
    fetch?_run_of_ne hfetch hwait
  have hstep : (s.run retention (window ++ [.reply task reply])).cache.stale =
      if reply.lines.1.isOk then false else last := by
    rw [run_append]
    change ((s.run retention window).step retention (.reply task reply)).cache.stale = _
    rw [stale_step, stale_run, hlast, word?, hpending]
    cases reply.lines.1.isOk <;> simp [hlist]
  rw [hstep, hlast]
  cases reply.lines.1.isOk <;> simp

/-- A refresh that has just asked for the list. -/
def asking : InFlight := ({} : InFlight).step none (.refresh 0 .epoch)

theorem mark_outlasts_bad_gateway :
    (asking.run none ([.op .invalidate] ++ [.reply 0 (.answered 502 "")])).cache.stale = true := by
  have hfetch : asking.fetch? 0 = some (.refresh .epoch) := by decide
  have hmark : true ∈ asking.words none [.op .invalidate] := by decide
  refine (mark_outlasts_reply_iff none asking hfetch rfl _ (by simp) hmark _).mpr ⟨?_, ?_⟩
  · decide +kernel
  · decide

/-- The event of a changed line comes between request and reply. The reply takes its mark away,
and the next refresh asks for nothing. -/
theorem mark_lost_with_reply :
    let changed := Move.op (.lineEvent (.lineChanged (some "line.updated") .epoch none))
    let merged := asking.run none [changed, .reply 0 (.answered 200 "\x7b\"data\": []\x7d")]
    asking.fetch? 0 = some (.refresh .epoch) ∧ asking.word? changed = some true ∧
      (asking.step none changed).cache.stale = true ∧ merged.cache.stale = false ∧
      (merged.step none (.refresh 1 .epoch)).fetch? 1 = none := by
  decide +kernel

end InFlight

end LineWatch
