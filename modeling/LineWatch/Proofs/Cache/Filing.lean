import LineWatch.Proofs.Cache.Coherence

/-!
# Lines under their identifiers

The cache files every line under its own identifier, and no identifier twice. Lines are only filed
under their identifiers and taken out again, so every operation keeps this. The list of a run is
the one that was merged last; nothing but the merge of a list touches it.
-/

namespace LineWatch

namespace Keyed

variable {α : Type} {m : Keyed α} {key : String} {value : α}

def values (m : Keyed α) : List α := m.map (·.2)

@[simp] theorem length_keys (m : Keyed α) : m.keys.length = m.length := List.length_map _

theorem nodup_keys_set (h : m.keys.Nodup) : (m.set key value).keys.Nodup := by
  rw [keys_set]
  split_ifs with hkey
  · exact h
  · exact List.nodup_append.mpr ⟨h, List.nodup_singleton key, fun a ha b hb hab =>
      hkey (List.mem_singleton.mp hb ▸ hab ▸ ha)⟩

theorem nodup_keys_erase (h : m.keys.Nodup) : (m.erase key).keys.Nodup := by
  rw [keys_erase]
  exact h.filter _

theorem get?_of_mem (hnodup : m.keys.Nodup) (h : (key, value) ∈ m) :
    m.get? key = some value := by
  induction m with
  | nil => exact absurd h List.not_mem_nil
  | cons kv rest ih =>
    obtain ⟨k, v⟩ := kv
    obtain ⟨hfresh, hrest⟩ := List.nodup_cons.mp hnodup
    rw [get?_cons]
    rcases List.mem_cons.mp h with heq | hmem
    · obtain ⟨rfl, rfl⟩ := Prod.ext_iff.mp heq
      exact if_pos rfl
    · have hne : key ≠ k := by
        rintro rfl
        exact hfresh (List.mem_map.mpr ⟨(key, value), hmem, rfl⟩)
      rw [if_neg hne, ih hrest hmem]

/-- Values that are filed together are those found under their keys. -/
theorem values_eq_filterMap {part : Keyed α} (hnodup : m.keys.Nodup) (h : part ⊆ m) :
    part.values = part.keys.filterMap m.get? := by
  have hget : ∀ kv ∈ part, (m.get? ∘ Prod.fst) kv = (some ∘ Prod.snd) kv :=
    fun kv hkv => get?_of_mem hnodup (h hkv)
  rw [keys, List.filterMap_map, List.filterMap_congr hget, List.filterMap_eq_map]
  rfl

end Keyed

/-- Every line is filed under its own identifier, and no identifier twice. -/
structure Filed (lines : Keyed ProductionLine) : Prop where
  nodup : lines.keys.Nodup
  own : ∀ id line, lines.get? id = some line → line.id = id

namespace Filed

variable {lines : Keyed ProductionLine} {cache : LineCache} {retention : Retention}

theorem nil : Filed [] where
  nodup := List.nodup_nil
  own := by simp

theorem set (h : Filed lines) {id : String} {line : ProductionLine} (hid : line.id = id) :
    Filed (lines.set id line) where
  nodup := Keyed.nodup_keys_set h.nodup
  own := by
    intro id' line' hget
    rw [Keyed.get?_set] at hget
    split_ifs at hget with heq
    · rw [heq, ← Option.some.inj hget, hid]
    · exact h.own id' line' hget

theorem erase (h : Filed lines) (id : String) : Filed (lines.erase id) where
  nodup := Keyed.nodup_keys_erase h.nodup
  own := by
    intro id' line' hget
    rw [Keyed.get?_erase] at hget
    split_ifs at hget
    exact h.own id' line' hget

theorem follow (h : Filed cache.lines) (c : StatusChange) : Filed (cache.follow c).lines := by
  apply h.set
  cases hline : cache.line? c.lineId with
  | none => rfl
  | some line => exact h.own c.lineId line hline

end Filed

namespace LineCache

variable {cache : LineCache} {retention : Retention}

theorem mem_keys_lines_iff (cache : LineCache) (id : String) :
    id ∈ cache.lines.keys ↔ (cache.line? id).isSome := Keyed.mem_keys_iff cache.lines id

theorem lines_prune (retention : Retention) (cache : LineCache) (id : String) :
    (cache.prune retention id).1.lines = cache.lines := by
  unfold prune
  dsimp only
  split_ifs <;> rfl

theorem lines_addRecords (cache : LineCache) (id : String) (changes : List StatusChange) :
    (cache.addRecords id changes).1.lines = cache.lines := by
  induction changes generalizing cache with
  | nil => rfl
  | cons c rest ih =>
    unfold addRecords
    split_ifs
    · exact ih cache
    · exact ih (cache.append c)

theorem filed_applyChange (h : Filed cache.lines) (c : StatusChange) :
    Filed (cache.applyChange retention c).cache.lines := by
  unfold applyChange
  split
  · change Filed (prune retention _ _).1.lines
    rw [lines_prune]
    exact h.follow (cache.completed c)
  · exact h

theorem filed_seedLine (h : Filed cache.lines) (line : ProductionLine) :
    Filed (cache.seedLine line).cache.lines := by
  unfold seedLine
  split <;> exact h.set rfl

theorem filed_seedHistory (h : Filed cache.lines) (id : String) (changes : List StatusChange) :
    Filed (cache.seedHistory retention id changes).cache.lines := by
  let filled := ((cache.addRecords id (StatusChange.sort changes)).1.prune retention id).1
  have hfilled : Filed filled.lines := by
    rw [lines_prune, lines_addRecords]
    exact h
  change Filed (filled.followLog id).lines
  rcases filled.followLog_cases id with ⟨latest, _, hfollow, _⟩ | ⟨hkeep, _⟩
  · rw [hfollow]
    exact hfilled.follow latest
  · rw [hkeep]
    exact hfilled

theorem filed_seedEach (h : Filed cache.lines) (lines : List ProductionLine) :
    Filed (cache.seedEach lines).cache.lines := by
  induction lines generalizing cache with
  | nil => exact h
  | cons line rest ih => exact ih (filed_seedLine h line)

theorem filed_removeAll (h : Filed cache.lines) (gone : List (String × Removal)) :
    Filed (gone.foldl (fun cache g => cache.removeLine g.1) cache).lines := by
  induction gone generalizing cache with
  | nil => exact h
  | cons g rest ih =>
    have hremoved : Filed (cache.removeLine g.1).lines := h.erase g.1
    exact ih hremoved

theorem filed_perform (h : Filed cache.lines) (op : CacheOp) :
    Filed (cache.perform retention op).lines := by
  cases op with
  | update u =>
    cases u with
    | change c => exact filed_applyChange h c
    | snapshot line => exact filed_seedLine h line
    | history id changes => exact filed_seedHistory h id changes
  | list lines fetchedAt => exact filed_removeAll (filed_seedEach h lines) _
  | lineEvent _ => exact h
  | invalidate => exact h

theorem filed_run (retention : Retention) (ops : List CacheOp) :
    Filed (run retention ops).lines := by
  induction ops using List.reverseRecOn with
  | nil => exact Filed.nil
  | append_singleton ops op ih =>
    rw [run, List.foldl_append]
    exact filed_perform ih op

end LineCache

/-- The identifiers of a list that an operation merges. -/
def CacheOp.listed? : CacheOp → Option (List String)
  | .list lines _ => some (lines.map (·.id))
  | .update _ | .lineEvent _ | .invalidate => none

/-- The identifiers of the list that was merged last. -/
def lastListed (ops : List CacheOp) : List String :=
  (ops.filterMap CacheOp.listed?).getLast?.getD []

namespace LineCache

theorem listIds_perform (retention : Retention) (cache : LineCache) (op : CacheOp) :
    (cache.perform retention op).listIds = op.listed?.getD cache.listIds := by
  cases op with
  | update u => exact cache.listIds_update retention u
  | list lines fetchedAt => rfl
  | lineEvent event => rfl
  | invalidate => rfl

theorem listIds_run (retention : Retention) (ops : List CacheOp) :
    (run retention ops).listIds = lastListed ops := by
  induction ops using List.reverseRecOn with
  | nil => rfl
  | append_singleton ops op ih =>
    rw [run, List.foldl_append]
    change ((run retention ops).perform retention op).listIds = _
    rw [listIds_perform, ih, lastListed, lastListed, List.filterMap_append]
    cases hop : op.listed? with
    | none => rw [List.filterMap_cons_none hop, List.filterMap_nil, List.append_nil]; rfl
    | some ids =>
      rw [List.filterMap_cons_some hop, List.filterMap_nil, List.getLast?_concat]
      rfl

end LineCache

end LineWatch
