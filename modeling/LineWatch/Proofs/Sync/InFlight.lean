import LineWatch.Proofs.Cache.Coherence
import LineWatch.Sync.Fetch

/-!
# A cache with fetches under way

Any number of refreshes and bootstraps may wait for replies at one time, each under a number of
its own. A refresh asks for the list only if that is stale. Between a request and its reply all
operations may change the cache, and other fetches may begin and end; a reply is merged into the
cache of its moment.
-/

namespace LineWatch

inductive Fetch where
  | refresh (asked : Instant)
  | bootstrap (awaited : Awaited)
  deriving DecidableEq, Repr

/-- Whether the reply a fetch waits for is the line list. -/
def Fetch.awaitsList : Fetch → Bool
  | .refresh _ | .bootstrap (.list _) => true
  | .bootstrap (.history _ _) => false

/-- What a reply does to the cache when it reaches the fetch, if it can be read. -/
def Fetch.op? (reply : Reply) : Fetch → Option CacheOp
  | .refresh asked | .bootstrap (.list asked) =>
    reply.lines.1.toOption.map (.list · (some asked))
  | .bootstrap (.history id _) =>
    (reply.history id).1.toOption.map fun changes => .update (.history id changes)

structure InFlight where
  cache : LineCache := {}
  fetch? : Nat → Option Fetch := fun _ => none

inductive Move where
  | op (op : CacheOp)
  | refresh (task : Nat) (now : Instant)
  | bootstrap (task : Nat) (now : Instant)
  | reply (task : Nat) (reply : Reply)

namespace InFlight

def setFetch (s : InFlight) (task : Nat) (fetch? : Option Fetch) : InFlight :=
  { s with fetch? := Function.update s.fetch? task fetch? }

/-- The reply to a fetch reaches the cache. -/
def receive (retention : Retention) (s : InFlight) (task : Nat) (reply : Reply) :
    Fetch → InFlight
  | .refresh asked =>
    { s with cache := (receiveRefresh s.cache asked reply).1 }.setFetch task none
  | .bootstrap awaited =>
    let f := receiveBootstrap retention s.cache awaited reply
    { s with cache := f.cache }.setFetch task <|
      match f.next with
      | .ok next? => next?.map .bootstrap
      | .error _ => none

/-- A fetch begins only under a number that is free, and only a fetch under way takes a reply. -/
def step (retention : Retention) (s : InFlight) : Move → InFlight
  | .op op => { s with cache := s.cache.perform retention op }
  | .refresh task now =>
    if s.fetch? task = none ∧ s.cache.stale then s.setFetch task (some (.refresh now)) else s
  | .bootstrap task now =>
    if s.fetch? task = none then s.setFetch task (some (.bootstrap (.list now))) else s
  | .reply task reply =>
    match s.fetch? task with
    | none => s
    | some fetch => s.receive retention task reply fetch

def run (retention : Retention) (s : InFlight) (moves : List Move) : InFlight :=
  moves.foldl (step retention) s

theorem fetch?_setFetch_of_ne {s : InFlight} {task other : Nat} (h : task ≠ other)
    (fetch? : Option Fetch) : (s.setFetch other fetch?).fetch? task = s.fetch? task :=
  Function.update_of_ne h _ _

theorem run_append (retention : Retention) (s : InFlight) (before after : List Move) :
    s.run retention (before ++ after) = (s.run retention before).run retention after :=
  List.foldl_append

/-- Nothing but a reply to it ends a fetch or moves it on. -/
theorem fetch?_step_of_ne {retention : Retention} {s : InFlight} {task : Nat} {fetch : Fetch}
    (h : s.fetch? task = some fetch) {m : Move} (hm : ∀ reply, m ≠ .reply task reply) :
    (s.step retention m).fetch? task = some fetch := by
  cases m with
  | op op => exact h
  | refresh other now =>
    unfold step
    dsimp only
    split_ifs with hfree
    · have hne : task ≠ other := by
        rintro rfl
        simp [h] at hfree
      rw [fetch?_setFetch_of_ne hne, h]
    · exact h
  | bootstrap other now =>
    unfold step
    dsimp only
    split_ifs with hfree
    · have hne : task ≠ other := by
        rintro rfl
        simp [h] at hfree
      rw [fetch?_setFetch_of_ne hne, h]
    · exact h
  | reply other reply =>
    have hne : task ≠ other := by
      rintro rfl
      exact hm reply rfl
    unfold step
    dsimp only
    split
    · exact h
    · next f _ => cases f <;> exact (fetch?_setFetch_of_ne hne _).trans h

theorem fetch?_run_of_ne {retention : Retention} {s : InFlight} {task : Nat} {fetch : Fetch}
    (h : s.fetch? task = some fetch) {moves : List Move}
    (hm : ∀ reply, Move.reply task reply ∉ moves) :
    (s.run retention moves).fetch? task = some fetch := by
  induction moves generalizing s with
  | nil => exact h
  | cons m rest ih =>
    apply ih
    · exact fetch?_step_of_ne h fun reply he => hm reply (he ▸ List.mem_cons_self)
    · exact fun reply hr => hm reply (List.mem_cons_of_mem m hr)

theorem cache_receive (retention : Retention) (s : InFlight) (task : Nat) (reply : Reply)
    (fetch : Fetch) :
    (s.receive retention task reply fetch).cache =
      (fetch.op? reply).elim s.cache (s.cache.perform retention) := by
  cases fetch with
  | refresh asked =>
    change (s.cache.mergeRefresh asked reply.lines.1).cache = _
    unfold Fetch.op?
    cases reply.lines.1 with
    | ok lines => rfl
    | error e => cases e <;> rfl
  | bootstrap awaited =>
    cases awaited with
    | list asked =>
      change (s.cache.mergeBootstrap asked reply.lines.1).cache = _
      unfold Fetch.op?
      cases reply.lines.1 with
      | ok lines => rfl
      | error e => rfl
    | history id rest =>
      change (s.cache.mergeHistory retention id (reply.history id).1).cache = _
      unfold Fetch.op?
      dsimp only
      cases (reply.history id).1 with
      | ok changes => rfl
      | error e => cases e <;> rfl

/-- What a move does to the cache, if anything. -/
def op? (s : InFlight) : Move → Option CacheOp
  | .op op => some op
  | .refresh _ _ | .bootstrap _ _ => none
  | .reply task reply => (s.fetch? task).bind (Fetch.op? reply)

theorem cache_step (retention : Retention) (s : InFlight) (m : Move) :
    (s.step retention m).cache = (s.op? m).elim s.cache (s.cache.perform retention) := by
  cases m with
  | op op => rfl
  | refresh task now =>
    unfold step
    dsimp only
    split_ifs <;> rfl
  | bootstrap task now =>
    unfold step
    dsimp only
    split_ifs <;> rfl
  | reply task reply =>
    unfold step op?
    dsimp only
    split
    · next h => rw [h]; rfl
    · next fetch h => rw [h, cache_receive]; rfl

theorem coherent_step {retention : Retention} {s : InFlight} (h : s.cache.Coherent retention)
    (m : Move) :
    (s.step retention m).cache.Coherent retention := by
  rw [cache_step]
  cases s.op? m with
  | none => exact h
  | some op => exact h.perform op

end InFlight

end LineWatch
