import LineWatch.Proofs.Cache.Operation
import LineWatch.Sync.Basic

/-!
# Reconnects while a resync is under way

After a reconnect a resync is to fetch what was missed. It is scheduled when the reconnect is heard
of, sends its list request when it gets its turn, and then the history requests one after the
other. A reconnect that is heard of before the list request is covered by it. One that is heard of
while a reply is awaited starts nothing, so what it needs is fetched only if a later reconnect
finds no reply awaited.
-/

namespace LineWatch

/-- What may happen while everything runs. -/
inductive SyncMove where
  | heard (connected : Bool)
  | begun (now : Instant)
  | answered (reply : Reply)
  | woken (now : Instant)
  | refreshed (reply : Reply)
  | merged (op : CacheOp)

def SyncMove.connects : SyncMove → Bool
  | .heard connected => connected
  | .begun _ | .answered _ | .woken _ | .refreshed _ | .merged _ => false

def Awaited.isList : Awaited → Bool
  | .list _ => true
  | .history _ _ => false

namespace Sync

variable {s : Sync} {m : SyncMove}

/-- A resync begins only if it is scheduled, and only a task that waits takes a reply. -/
def step (s : Sync) : SyncMove → Sync
  | .heard connected => (s.hear connected).1
  | .begun now => if s.resync = some .scheduled then (s.beginResync now).1 else s
  | .answered reply =>
    match s.resync with
    | some (.waiting awaited) => (s.receiveResync awaited reply).1
    | some .scheduled | none => s
  | .woken now =>
    match s.refresh with
    | some .scheduled => { s with refresh := some .sleeping }
    | some .sleeping => s.wakeRefresh now
    | some (.waiting _) | none => s
  | .refreshed reply =>
    match s.refresh with
    | some (.waiting asked) => (s.answerRefresh asked reply).1
    | some .scheduled | some .sleeping | none => s
  | .merged op => { s with cache := s.cache.perform s.retention op }

/-- The reply that the resync waits for. -/
def awaited? (s : Sync) : Option Awaited :=
  match s.resync with
  | some (.waiting awaited) => some awaited
  | some .scheduled | none => none

/-- The request that the resync sends in a move. -/
def request? (s : Sync) : SyncMove → Option Awaited
  | .begun now => if s.resync = some .scheduled then some (.list now) else none
  | .answered reply =>
    match s.resync with
    | some (.waiting awaited) => (s.receiveResync awaited reply).1.awaited?
    | some .scheduled | none => none
  | .heard _ | .woken _ | .refreshed _ | .merged _ => none

/-- Whether a connection in the moves finds no reply awaited. -/
def FindsIdle (s : Sync) : List SyncMove → Prop
  | [] => False
  | m :: rest => m.connects = true ∧ s.awaited? = none ∨ FindsIdle (s.step m) rest

/-- A bootstrap goes on with histories only. -/
theorem isList_of_receiveBootstrap {retention : Retention} {cache : LineCache}
    {awaited next : Awaited} {reply : Reply}
    (h : (receiveBootstrap retention cache awaited reply).next = .ok (some next)) :
    next.isList = false := by
  have hids : ∃ ids, Awaited.ofIds ids = some next := by
    cases awaited with
    | list asked =>
      change (cache.mergeBootstrap asked reply.lines.1).value.map Awaited.ofIds = _ at h
      cases hv : (cache.mergeBootstrap asked reply.lines.1).value with
      | ok ids =>
        rw [hv] at h
        exact ⟨ids, Except.ok.inj h⟩
      | error e =>
        rw [hv] at h
        cases h
    | history id rest =>
      change (cache.mergeHistory retention id (reply.history id).1).value.map
        (fun _ => Awaited.ofIds rest) = _ at h
      cases hv : (cache.mergeHistory retention id (reply.history id).1).value with
      | ok u =>
        rw [hv] at h
        exact ⟨rest, Except.ok.inj h⟩
      | error e =>
        rw [hv] at h
        cases h
  obtain ⟨ids, hids⟩ := hids
  cases ids with
  | nil => exact absurd hids (Option.some_ne_none next).symm
  | cons id rest => exact Option.some.inj hids ▸ rfl

/-- After the reply to a request a resync is over, or asks for a history. -/
theorem resync_receiveResync (s : Sync) (awaited : Awaited) (reply : Reply) :
    (s.receiveResync awaited reply).1.resync = none ∨
      ∃ next, (s.receiveResync awaited reply).1.resync = some (.waiting next) ∧
        next.isList = false := by
  unfold receiveResync
  dsimp only
  split
  · next next hnext => exact .inr ⟨next, rfl, isList_of_receiveBootstrap hnext⟩
  all_goals exact .inl rfl

theorem hasConnected_receiveResync (s : Sync) (awaited : Awaited) (reply : Reply) :
    (s.receiveResync awaited reply).1.hasConnected = s.hasConnected := by
  unfold receiveResync
  dsimp only
  split <;> rfl

/-- Once the stream has been connected, a connection schedules a resync if there is none. -/
theorem resync_hear (h : s.hasConnected = true) :
    (s.hear true).1.resync = some (s.resync.getD .scheduled) := by
  cases hr : s.resync <;> simp [hear, h, hr]

/-- The refresh loop has no part in the connection and the resync. -/
theorem step_woken (s : Sync) (now : Instant) :
    (s.step (.woken now)).hasConnected = s.hasConnected ∧
      (s.step (.woken now)).resync = s.resync := by
  unfold step
  dsimp only
  split <;> exact ⟨rfl, rfl⟩

theorem step_refreshed (s : Sync) (reply : Reply) :
    (s.step (.refreshed reply)).hasConnected = s.hasConnected ∧
      (s.step (.refreshed reply)).resync = s.resync := by
  unfold step
  dsimp only
  split <;> exact ⟨rfl, rfl⟩

theorem hasConnected_step (s : Sync) (m : SyncMove) :
    (s.step m).hasConnected = (s.hasConnected || m.connects) := by
  cases m with
  | heard connected =>
    cases connected with
    | false => simp [step, hear, SyncMove.connects]
    | true =>
      cases hc : s.hasConnected <;> cases hr : s.resync <;>
        simp [step, hear, hc, hr, SyncMove.connects]
  | begun now =>
    unfold step
    dsimp only
    split_ifs <;> exact (Bool.or_false _).symm
  | answered reply =>
    unfold step
    dsimp only
    split
    · exact (s.hasConnected_receiveResync _ reply).trans (Bool.or_false _).symm
    all_goals exact (Bool.or_false _).symm
  | woken now => exact (s.step_woken now).1.trans (Bool.or_false _).symm
  | refreshed reply => exact (s.step_refreshed reply).1.trans (Bool.or_false _).symm
  | merged op => exact (Bool.or_false _).symm

/-- Only a resync that is scheduled asks for the list. -/
theorem scheduled_of_request? {request : Awaited} (h : s.request? m = some request)
    (hlist : request.isList = true) : s.resync = some .scheduled := by
  unfold request? at h
  split at h
  · split_ifs at h with hr
    exact hr
  · next reply =>
    split at h
    · next awaited _ =>
      rcases s.resync_receiveResync awaited reply with hover | ⟨next, hnext, hhistory⟩
      · rw [awaited?, hover] at h
        exact absurd h (Option.some_ne_none request).symm
      · rw [awaited?, hnext, Option.some.injEq] at h
        rw [← h, hhistory] at hlist
        exact Bool.noConfusion hlist
    all_goals exact absurd h (Option.some_ne_none request).symm
  all_goals exact absurd h (Option.some_ne_none request).symm

/-- A resync is scheduled by a connection that finds no reply awaited, until it sends its list
request. -/
theorem scheduled_step_iff (h : s.hasConnected = true)
    (hrequest : ∀ request ∈ s.request? m, request.isList = false) :
    (s.step m).resync = some .scheduled ↔
      s.resync = some .scheduled ∨ m.connects = true ∧ s.awaited? = none := by
  cases m with
  | heard connected =>
    cases connected with
    | false => simp [step, hear, SyncMove.connects]
    | true =>
      change (s.hear true).1.resync = _ ↔ _
      rw [resync_hear h]
      cases hr : s.resync with
      | none => simp [awaited?, hr, SyncMove.connects]
      | some phase => cases phase <;> simp [awaited?, hr, SyncMove.connects]
  | begun now =>
    have hnot : s.resync ≠ some .scheduled := by
      intro hr
      have := hrequest (.list now) (by simp [request?, hr])
      exact Bool.noConfusion this
    simp [step, hnot, SyncMove.connects]
  | answered reply =>
    cases hr : s.resync with
    | none => simp [step, hr, SyncMove.connects]
    | some phase =>
      cases phase with
      | scheduled => simp [step, hr]
      | waiting awaited =>
        have hstep : s.step (.answered reply) = (s.receiveResync awaited reply).1 := by
          simp only [step, hr]
        rw [hstep]
        rcases s.resync_receiveResync awaited reply with hover | ⟨next, hnext, _⟩
        · simp [hover, SyncMove.connects]
        · simp [hnext, SyncMove.connects]
  | woken now => simp [(s.step_woken now).2, SyncMove.connects]
  | refreshed reply => simp [(s.step_refreshed reply).2, SyncMove.connects]
  | merged op => simp [step, SyncMove.connects]

end Sync

/-- The requests of the resyncs of a run, under the number of the resync. -/
structure ResyncDiary where
  sync : Sync
  begun : Nat := 0
  sent : List (Nat × Awaited) := []

namespace ResyncDiary

variable {d : ResyncDiary}

/-- A list request is the first one of a resync. -/
def step (d : ResyncDiary) (m : SyncMove) : ResyncDiary :=
  match d.sync.request? m with
  | none => { d with sync := d.sync.step m }
  | some request =>
    let begun := if request.isList then d.begun + 1 else d.begun
    ⟨d.sync.step m, begun, d.sent ++ [(begun, request)]⟩

def run (d : ResyncDiary) (moves : List SyncMove) : ResyncDiary := moves.foldl step d

/-- A resync has sent its list request and all other requests since then. -/
def Resynced (before after : ResyncDiary) : Prop :=
  ∃ n asked, (n, .list asked) ∈ after.sent ∧ ∀ request, (n, request) ∉ before.sent

/-- The numbers of the resyncs are those from one on, and every one has sent a list request. -/
structure Numbered (d : ResyncDiary) : Prop where
  le_begun : ∀ n request, (n, request) ∈ d.sent → n ≤ d.begun
  listed : ∀ n, (∃ asked, (n, .list asked) ∈ d.sent) ↔ 0 < n ∧ n ≤ d.begun

theorem run_append (d : ResyncDiary) (before after : List SyncMove) :
    d.run (before ++ after) = (d.run before).run after := List.foldl_append

theorem sync_step (d : ResyncDiary) (m : SyncMove) : (d.step m).sync = d.sync.step m := by
  unfold step
  split <;> rfl

theorem hasConnected_run (d : ResyncDiary) (moves : List SyncMove) :
    (d.run moves).sync.hasConnected = (d.sync.hasConnected || moves.any SyncMove.connects) := by
  induction moves generalizing d with
  | nil => exact (Bool.or_false _).symm
  | cons m rest ih =>
    change ((d.step m).run rest).sync.hasConnected = _
    rw [ih, sync_step, Sync.hasConnected_step, List.any_cons, Bool.or_assoc]

theorem begun_step (d : ResyncDiary) (m : SyncMove) :
    (d.step m).begun =
      if ∃ request ∈ d.sync.request? m, request.isList = true then d.begun + 1 else d.begun := by
  unfold step
  cases d.sync.request? m with
  | none => simp
  | some request => simp

theorem begun_le_step (d : ResyncDiary) (m : SyncMove) : d.begun ≤ (d.step m).begun := by
  rw [begun_step]
  split_ifs
  · exact Nat.le_succ _
  · exact le_rfl

theorem begun_le_run (d : ResyncDiary) (moves : List SyncMove) :
    d.begun ≤ (d.run moves).begun := by
  induction moves generalizing d with
  | nil => exact le_rfl
  | cons m rest ih => exact (d.begun_le_step m).trans (ih (d.step m))

theorem Numbered.step (h : d.Numbered) (m : SyncMove) : (d.step m).Numbered := by
  unfold ResyncDiary.step
  cases d.sync.request? m with
  | none => exact ⟨h.le_begun, h.listed⟩
  | some request =>
    constructor
    · intro n sent hn
      change n ≤ if request.isList = true then d.begun + 1 else d.begun
      rcases List.mem_append.mp hn with hold | hnew
      · have hle := h.le_begun n sent hold
        split_ifs <;> omega
      · exact (Prod.ext_iff.mp (List.mem_singleton.mp hnew)).1.le
    · intro n
      cases request with
      | list asked =>
        have hlisted : (∃ asked', (n, Awaited.list asked') ∈
            d.sent ++ [(d.begun + 1, Awaited.list asked)]) ↔
            (∃ asked', (n, Awaited.list asked') ∈ d.sent) ∨ n = d.begun + 1 := by
          simp [exists_or]
        refine hlisted.trans ?_
        rw [h.listed]
        change _ ↔ 0 < n ∧ n ≤ d.begun + 1
        omega
      | history id rest =>
        have hlisted : (∃ asked, (n, Awaited.list asked) ∈
            d.sent ++ [(d.begun, Awaited.history id rest)]) ↔
            ∃ asked, (n, Awaited.list asked) ∈ d.sent := by
          simp
        exact hlisted.trans (h.listed n)

theorem Numbered.run (h : d.Numbered) (moves : List SyncMove) : (d.run moves).Numbered := by
  induction moves generalizing d with
  | nil => exact h
  | cons m rest ih => exact ih (h.step m)

/-- A resync begins in the moves, or is scheduled at their end, exactly if one is scheduled before
or a connection finds no reply awaited. -/
theorem begun_lt_run_iff (h : d.sync.hasConnected = true) (moves : List SyncMove) :
    d.begun < (d.run moves).begun ∨ (d.run moves).sync.resync = some .scheduled ↔
      d.sync.resync = some .scheduled ∨ d.sync.FindsIdle moves := by
  induction moves generalizing d with
  | nil => simp [run, Sync.FindsIdle]
  | cons m rest ih =>
    have hconnected : (d.step m).sync.hasConnected = true := by
      rw [sync_step, Sync.hasConnected_step, h, Bool.true_or]
    have hrest := ih hconnected
    change d.begun < ((d.step m).run rest).begun ∨ _ ↔ _ ∨ _ ∨ _
    have hbegun := d.begun_step m
    split_ifs at hbegun with hlist
    · -- the resync that was scheduled begins
      obtain ⟨request, hrequest, hlist⟩ := hlist
      have hle := (d.step m).begun_le_run rest
      exact iff_of_true (.inl (by omega)) (.inl (Sync.scheduled_of_request? hrequest hlist))
    · have hstep := Sync.scheduled_step_iff (m := m) h (by simpa using hlist)
      rw [← hbegun]
      refine hrest.trans ?_
      rw [sync_step, hstep, or_assoc]

theorem Numbered.resynced_iff {before after : ResyncDiary} (hb : before.Numbered)
    (ha : after.Numbered) : Resynced before after ↔ before.begun < after.begun := by
  constructor
  · rintro ⟨n, asked, hasked, hfresh⟩
    obtain ⟨hpos, hle⟩ := (ha.listed n).mp ⟨asked, hasked⟩
    by_contra hnot
    obtain ⟨asked', hold⟩ := (hb.listed n).mpr ⟨hpos, by omega⟩
    exact hfresh _ hold
  · intro hlt
    obtain ⟨asked, hasked⟩ := (ha.listed after.begun).mpr ⟨by omega, le_rfl⟩
    refine ⟨after.begun, asked, hasked, fun request hold => ?_⟩
    have hle := hb.le_begun after.begun request hold
    omega

/-- Before anything has happened. -/
def start (cache : LineCache) (retention : Retention) : ResyncDiary :=
  { sync := { cache, retention, refresh := some .scheduled } }

theorem numbered_start (cache : LineCache) (retention : Retention) :
    (start cache retention).Numbered where
  le_begun := by simp [start]
  listed := by
    intro n
    simp [start]
    omega

/-- After a connection that is not the first one a resync sends all its requests anew exactly if
this connection or a later one finds no reply awaited. -/
theorem reconnect_resynced_iff (cache : LineCache) (retention : Retention)
    (before after : List SyncMove) (hfirst : before.any SyncMove.connects = true)
    (hturn : ((start cache retention).run (before ++ .heard true :: after)).sync.resync ≠
      some .scheduled) :
    Resynced ((start cache retention).run before)
        ((start cache retention).run (before ++ .heard true :: after)) ↔
      ((start cache retention).run before).sync.FindsIdle (.heard true :: after) := by
  have hbefore := (numbered_start cache retention).run before
  have hconnected : ((start cache retention).run before).sync.hasConnected = true := by
    rw [hasConnected_run, hfirst, Bool.or_true]
  rw [run_append] at hturn ⊢
  rw [hbefore.resynced_iff (hbefore.run _)]
  have hiff := begun_lt_run_iff hconnected (.heard true :: after)
  rw [or_iff_left hturn] at hiff
  refine hiff.trans (or_iff_right_of_imp fun hscheduled => ?_)
  exact .inl ⟨rfl, by rw [Sync.awaited?, hscheduled]⟩

/-- A reconnect, up to the list request of its resync. -/
def resyncing : List SyncMove := [.heard true, .heard false, .heard true, .begun .epoch]

def emptyList : SyncMove := .answered (.answered 200 "\x7b\"data\": []\x7d")

/-- A second reconnect comes when the resync is over. -/
theorem reconnect_resynced_idle :
    Resynced ((start {} none).run (resyncing ++ [emptyList]))
      ((start {} none).run (resyncing ++ [emptyList] ++ .heard true :: [.begun .epoch])) := by
  have hidle : ((start {} none).run (resyncing ++ [emptyList])).sync.awaited? = none := by
    decide +kernel
  exact (reconnect_resynced_iff {} none (resyncing ++ [emptyList]) [.begun .epoch]
    (by decide) (by decide +kernel)).mpr (.inl ⟨rfl, hidle⟩)

/-- A second reconnect comes while the resync awaits the list. When the resync is over, no request
has been sent since then. -/
theorem reconnect_not_resynced :
    let before := (start {} none).run resyncing
    let after := (start {} none).run (resyncing ++ .heard true :: [emptyList])
    before.sync.awaited? = some (.list .epoch) ∧ after.sync.resync = none ∧
      after.sent = before.sent ∧ ¬Resynced before after := by
  intro before after
  have hsame : after.sent = before.sent := by decide +kernel
  refine ⟨by decide +kernel, by decide +kernel, hsame, ?_⟩
  rintro ⟨n, asked, hasked, hfresh⟩
  rw [hsame] at hasked
  exact hfresh _ hasked

end ResyncDiary

end LineWatch
