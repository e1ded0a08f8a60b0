import LineWatch.Kpi.Fleet
import LineWatch.Proofs.Cache.Filing

/-!
# What the line list shows

The lines are listed in the order of the list that was merged last, and then those that are not on
it in the order in which they were filed. So every cached line is listed, and nothing else. A line
is listed as often as the merged list names it. Each line is listed once, and counted once in the
figures of the fleet, exactly if that list names none twice.
-/

namespace LineWatch.LineCache

variable {cache : LineCache} {ids : List String}

/-- The identifiers of the listed lines. -/
def listing (cache : LineCache) : List String :=
  cache.listIds ++ cache.lines.keys.filter (· ∉ cache.listIds)

theorem nodup_listing_iff (h : cache.lines.keys.Nodup) :
    cache.listing.Nodup ↔ cache.listIds.Nodup := by
  rw [listing, List.nodup_append]
  refine ⟨And.left, fun hon => ⟨hon, h.filter _, fun a ha b hb hab => ?_⟩⟩
  have hoff := of_decide_eq_true (List.mem_filter.mp hb).2
  exact hoff (hab ▸ ha)

theorem listLines_eq_filterMap (h : Filed cache.lines) :
    cache.listLines = cache.listing.filterMap cache.line? := by
  let unlisted : Keyed ProductionLine :=
    cache.lines.filter fun kv => !cache.listIds.contains kv.1
  have hkeys : unlisted.keys = cache.lines.keys.filter (· ∉ cache.listIds) := by
    simp only [unlisted, Keyed.keys, List.filter_map]
    congr 1
    apply List.filter_congr
    intro kv _
    simp [List.contains_eq_mem]
  have hvalues : unlisted.values = unlisted.keys.filterMap cache.line? :=
    Keyed.values_eq_filterMap h.nodup (List.filter_subset_self _)
  rw [listing, List.filterMap_append, ← hkeys, ← hvalues]
  rfl

theorem values_lines (h : Filed cache.lines) :
    cache.lines.values = cache.lines.keys.filterMap cache.line? :=
  Keyed.values_eq_filterMap h.nodup fun _ hkv => hkv

/-- Cached lines are found under their identifiers. -/
theorem map_id_filterMap_line? (h : Filed cache.lines) (hcached : ids ⊆ cache.lines.keys) :
    (ids.filterMap cache.line?).map (·.id) = ids := by
  induction ids with
  | nil => rfl
  | cons id rest ih =>
    obtain ⟨hid, hrest⟩ := List.cons_subset.mp hcached
    obtain ⟨line, hline⟩ := Option.isSome_iff_exists.mp ((cache.mem_keys_lines_iff id).mp hid)
    rw [List.filterMap_cons_some hline, List.map_cons, h.own id line hline, ih hrest]

section

variable (h : Filed cache.lines) (hlisted : cache.listIds ⊆ cache.lines.keys)

include hlisted

theorem mem_listing_iff (id : String) : id ∈ cache.listing ↔ id ∈ cache.lines.keys := by
  rw [listing, List.mem_append, List.mem_filter, decide_eq_true_eq]
  constructor
  · rintro (hid | ⟨hid, _⟩)
    · exact hlisted hid
    · exact hid
  · intro hid
    by_cases hon : id ∈ cache.listIds
    · exact .inl hon
    · exact .inr ⟨hid, hon⟩

include h

theorem map_id_listLines : cache.listLines.map (·.id) = cache.listing := by
  rw [listLines_eq_filterMap h]
  exact map_id_filterMap_line? h fun id => (mem_listing_iff hlisted id).mp

theorem mem_listLines_iff (line : ProductionLine) :
    line ∈ cache.listLines ↔ line ∈ cache.lines.values := by
  rw [listLines_eq_filterMap h, values_lines h, List.mem_filterMap, List.mem_filterMap]
  exact exists_congr fun id => and_congr_left fun _ => mem_listing_iff hlisted id

theorem perm_listLines_iff :
    cache.listLines.Perm cache.lines.values ↔ cache.listIds.Nodup := by
  rw [← nodup_listing_iff h.nodup]
  constructor
  · intro hperm
    have hkeys := hperm.map (·.id)
    rw [map_id_listLines h hlisted, values_lines h,
      map_id_filterMap_line? h (List.Subset.refl _)] at hkeys
    exact hkeys.nodup_iff.mpr h.nodup
  · intro hnodup
    rw [listLines_eq_filterMap h, values_lines h]
    apply List.Perm.filterMap
    exact (List.perm_ext_iff_of_nodup hnodup h.nodup).mpr (mem_listing_iff hlisted)

theorem length_listLines_iff :
    cache.listLines.length = cache.size ↔ cache.listIds.Nodup := by
  constructor
  · -- all cached lines are among the listed ones, which leaves no room for a second one
    intro hlength
    have hsub : cache.lines.keys.Subperm cache.listing :=
      List.subperm_of_subset h.nodup fun id hid => (mem_listing_iff hlisted id).mpr hid
    have hle : cache.listing.length ≤ cache.lines.keys.length := by
      rw [← map_id_listLines h hlisted, List.length_map, Keyed.length_keys]
      exact hlength.le
    have hperm := hsub.perm_of_length_le hle
    exact (nodup_listing_iff h.nodup).mp (hperm.nodup_iff.mp h.nodup)
  · intro hnodup
    have hperm := (perm_listLines_iff h hlisted).mpr hnodup
    rw [hperm.length_eq, Keyed.values, List.length_map, size]

theorem nodup_select_iff :
    (∀ labelIds lineIds, ((Kpi.select cache.listLines labelIds lineIds).map (·.id)).Nodup) ↔
      cache.listIds.Nodup := by
  rw [← nodup_listing_iff h.nodup, ← map_id_listLines h hlisted]
  constructor
  · intro hselect
    have hall : Kpi.select cache.listLines [] [] = cache.listLines := by simp [Kpi.select]
    exact hall ▸ hselect [] []
  · intro hnodup labelIds lineIds
    exact hnodup.sublist (List.filter_sublist.map _)

end

/-- The lines are listed in the order of the last list, and then as they were filed. All of them
are listed, and each once, in the list and in what is selected from it for figures of the fleet,
exactly if the last list names no line twice. -/
theorem listed_once_iff (retention : Retention) (ops : List CacheOp) :
    let cache := run retention ops
    let order := lastListed ops
    cache.listLines.map (·.id) = order ++ cache.lines.keys.filter (· ∉ order) ∧
    (∀ line, line ∈ cache.listLines ↔ line ∈ cache.lines.values) ∧
    (cache.listLines.Perm cache.lines.values ↔ order.Nodup) ∧
    (cache.listLines.length = cache.size ↔ order.Nodup) ∧
    ((∀ labelIds lineIds,
      ((Kpi.select cache.listLines labelIds lineIds).map (·.id)).Nodup) ↔ order.Nodup) := by
  intro cache order
  have hfiled : Filed cache.lines := filed_run retention ops
  have hlisted : cache.listIds ⊆ cache.lines.keys := fun id hid =>
    (cache.mem_keys_lines_iff id).mpr (((coherent_empty retention).performAll ops).listed id hid)
  have horder : cache.listIds = order := listIds_run retention ops
  rw [← horder]
  exact ⟨map_id_listLines hfiled hlisted, mem_listLines_iff hfiled hlisted,
    perm_listLines_iff hfiled hlisted, length_listLines_iff hfiled hlisted,
    nodup_select_iff hfiled hlisted⟩

/-- A list that names a line twice, and the start of its only status. -/
def lineTwice : List CacheOp :=
  let line : ProductionLine := { id := "a", code := "A", name := "Line a", status := .on }
  [.list [line, line] none,
    .update (.history "a" [{ time := .epoch, lineId := "a", newStatus := .on }])]

def firstHour : Window := .ofInstants .epoch ⟨3600000000, by decide, by decide⟩

/-- One line is cached and two are listed, so that the fleet is one hour long in two. -/
theorem line_counted_twice :
    let cache := run none lineTwice
    cache.size = 1 ∧ cache.listLines.map (·.id) = ["a", "a"] ∧
      ¬cache.listLines.Perm cache.lines.values ∧
      (FleetFigures.of? cache.listLines cache.log firstHour none).map
        (fun figures => (figures.lineCount, figures.summary.total)) =
          some (2, 2 * millisPerHour) := by
  decide +kernel

end LineWatch.LineCache
