import LineWatch.Proofs.Kpi.Figures

/-!
# Figures by label

There are two ways to the figures of a label: its row among the figures by label, and the figures
of the lines that are chosen by it. The rows come from one pass over all labels of all lines, which
adds a line to a group each time it names the label. So there is one row for every label, and its
figures are those of the chosen lines exactly if no line names the label more than once.
-/

namespace LineWatch

/-- How often a line names a label. -/
def ProductionLine.carries (line : ProductionLine) (id : String) : ℕ :=
  line.labels.countP (·.id == id)

namespace LabelGroup

variable {lines : List ProductionLine} {groups : List LabelGroup} {id : String}

/-- The lines with their labels in the order in which they are grouped. -/
def labelled (lines : List ProductionLine) : List (ProductionLine × Label) :=
  lines.flatMap fun line => line.labels.map (line, ·)

def collect (pairs : List (ProductionLine × Label)) (groups : List LabelGroup) : List LabelGroup :=
  pairs.foldl (fun groups p => insert p.1 p.2 groups) groups

/-- The lines that carry a label, each of them as often as it names it. -/
def carriers (id : String) (lines : List ProductionLine) : List ProductionLine :=
  lines.flatMap fun line => List.replicate (line.carries id) line

def ids (groups : List LabelGroup) : List String := groups.map (·.label.id)

/-- The members of the first group of a label. -/
def membersOf (id : String) : List LabelGroup → List ProductionLine
  | [] => []
  | g :: rest => if g.label.id = id then g.members else membersOf id rest

theorem ids_insert (line : ProductionLine) (label : Label) (groups : List LabelGroup) :
    ids (insert line label groups) =
      if label.id ∈ ids groups then ids groups else ids groups ++ [label.id] := by
  induction groups with
  | nil => rfl
  | cons g rest ih =>
    unfold insert
    by_cases hg : g.label.id = label.id
    · simp [ids, hg]
    · have hcons (gs : List LabelGroup) : ids (g :: gs) = g.label.id :: ids gs := rfl
      have hmem : label.id ∈ g.label.id :: ids rest ↔ label.id ∈ ids rest := by
        simp [show label.id ≠ g.label.id from Ne.symm hg]
      rw [if_neg hg, hcons, hcons, ih]
      simp only [hmem]
      split_ifs <;> rfl

theorem membersOf_insert (line : ProductionLine) (label : Label) (groups : List LabelGroup) :
    membersOf id (insert line label groups) =
      membersOf id groups ++ if label.id = id then [line] else [] := by
  induction groups with
  | nil => by_cases hid : label.id = id <;> simp [insert, membersOf, hid]
  | cons g rest ih =>
    unfold insert
    by_cases hg : g.label.id = label.id
    · by_cases hid : label.id = id <;> simp [membersOf, hg, hid]
    · by_cases hid : g.label.id = id
      · have hne : label.id ≠ id := fun h => hg (hid.trans h.symm)
        rw [if_neg hg]
        simp [membersOf, hid, hne]
      · simp [membersOf, hg, hid, ih]

theorem foldl_insertAll (lines : List ProductionLine) (groups : List LabelGroup) :
    lines.foldl insertAll groups = collect (labelled lines) groups := by
  simp only [collect, labelled, List.foldl_flatMap, List.foldl_map]
  rfl

theorem collect_cons (p : ProductionLine × Label) (rest : List (ProductionLine × Label))
    (groups : List LabelGroup) :
    collect (p :: rest) groups = collect rest (insert p.1 p.2 groups) := rfl

theorem nodup_ids_collect (pairs : List (ProductionLine × Label)) (h : (ids groups).Nodup) :
    (ids (collect pairs groups)).Nodup := by
  induction pairs generalizing groups with
  | nil => exact h
  | cons p rest ih =>
    rw [collect_cons]
    refine ih ?_
    rw [ids_insert]
    split_ifs with hmem
    · exact h
    · exact h.append (List.nodup_singleton _) (by simpa using hmem)

theorem mem_ids_collect (pairs : List (ProductionLine × Label)) (groups : List LabelGroup) :
    id ∈ ids (collect pairs groups) ↔
      id ∈ ids groups ∨ ∃ p ∈ pairs, p.2.id = id := by
  induction pairs generalizing groups with
  | nil => simp [collect]
  | cons p rest ih =>
    rw [collect_cons, ih, ids_insert, List.exists_mem_cons_iff, ← or_assoc]
    refine or_congr_left ?_
    split_ifs with hmem
    · exact ⟨.inl, fun h => h.elim (fun h => h) fun h => h ▸ hmem⟩
    · rw [List.mem_append, List.mem_singleton, eq_comm (a := id)]

theorem membersOf_collect (pairs : List (ProductionLine × Label)) (groups : List LabelGroup) :
    membersOf id (collect pairs groups) =
      membersOf id groups ++ (pairs.filter (·.2.id == id)).map (·.1) := by
  induction pairs generalizing groups with
  | nil => simp [collect]
  | cons p rest ih =>
    rw [collect_cons, ih, membersOf_insert]
    by_cases hid : p.2.id = id <;> simp [hid]

theorem carriers_eq (id : String) (lines : List ProductionLine) :
    ((labelled lines).filter (·.2.id == id)).map (·.1) = carriers id lines := by
  have hline (line : ProductionLine) :
      ((line.labels.map (line, ·)).filter (·.2.id == id)).map (·.1) =
        List.replicate (line.carries id) line := by
    simp [List.filter_map, Function.comp_def, ProductionLine.carries, List.countP_eq_length_filter]
  simp only [labelled, List.filter_flatMap, List.map_flatMap, hline, carriers]

theorem membersOf_of_mem (h : (ids groups).Nodup) {g : LabelGroup} (hg : g ∈ groups) :
    membersOf g.label.id groups = g.members := by
  induction groups with
  | nil => cases hg
  | cons first rest ih =>
    obtain ⟨hfirst, hrest⟩ := List.nodup_cons.mp h
    rcases List.mem_cons.mp hg with rfl | hg
    · rw [membersOf, if_pos rfl]
    · have hne : first.label.id ≠ g.label.id := fun he =>
        hfirst (List.mem_map.mpr ⟨g, hg, he.symm⟩)
      rw [membersOf, if_neg hne, ih hrest hg]

theorem ofLines_perm (lines : List ProductionLine) :
    (ofLines lines).Perm (collect (labelled lines) []) := by
  rw [← foldl_insertAll]
  exact List.mergeSort_perm _ _

theorem nodup_ids_ofLines (lines : List ProductionLine) : (ids (ofLines lines)).Nodup :=
  ((ofLines_perm lines).map _).nodup_iff.mpr (nodup_ids_collect _ List.nodup_nil)

theorem mem_ids_ofLines :
    id ∈ ids (ofLines lines) ↔ ∃ line ∈ lines, 0 < line.carries id := by
  rw [ids, ((ofLines_perm lines).map _).mem_iff, ← ids, mem_ids_collect]
  simp only [ids, labelled, ProductionLine.carries, List.countP_pos_iff]
  simp [and_assoc]

/-- The members of a group are the lines that carry its label. -/
theorem members_of_mem_ofLines {g : LabelGroup} (hg : g ∈ ofLines lines) :
    g.members = carriers g.label.id lines := by
  have hmem := (ofLines_perm lines).mem_iff.mp hg
  have hnodup : (ids []).Nodup := List.nodup_nil
  rw [← membersOf_of_mem (nodup_ids_collect _ hnodup) hmem, membersOf_collect, carriers_eq]
  rfl

theorem carriers_cons (id : String) (line : ProductionLine) (rest : List ProductionLine) :
    carriers id (line :: rest) = List.replicate (line.carries id) line ++ carriers id rest :=
  List.flatMap_cons

theorem length_carriers_le (id : String) (lines : List ProductionLine) :
    (carriers id lines).length ≤ (lines.map (·.labels.length)).sum := by
  simp only [carriers, List.length_flatMap, List.length_replicate]
  exact List.sum_le_sum fun line _ => List.countP_le_length

theorem carriers_eq_filter (h : ∀ line ∈ lines, line.carries id ≤ 1) :
    carriers id lines = lines.filter (0 < ·.carries id) := by
  induction lines with
  | nil => rfl
  | cons line rest ih =>
    obtain ⟨honce, hrest⟩ := List.forall_mem_cons.mp h
    rw [carriers_cons, ih hrest, List.filter_cons]
    rcases Nat.le_one_iff_eq_zero_or_eq_one.mp honce with hcarries | hcarries <;> simp [hcarries]

theorem length_filter_le_carriers (id : String) (lines : List ProductionLine) :
    (lines.filter (0 < ·.carries id)).length ≤ (carriers id lines).length := by
  induction lines with
  | nil => exact le_rfl
  | cons line rest ih =>
    rw [carriers_cons, List.length_append, List.length_replicate, List.filter_cons]
    split_ifs with hcarries
    · rw [decide_eq_true_eq] at hcarries
      rw [List.length_cons]
      omega
    · omega

/-- Lines are as many as are counted for a label only if none of them is counted twice. -/
theorem carries_le_of_length_eq
    (h : (carriers id lines).length = (lines.filter (0 < ·.carries id)).length) :
    ∀ line ∈ lines, line.carries id ≤ 1 := by
  induction lines with
  | nil => simp
  | cons line rest ih =>
    have hle := length_filter_le_carriers id rest
    rw [carriers_cons, List.length_append, List.length_replicate, List.filter_cons] at h
    split_ifs at h with hcarries
    · rw [decide_eq_true_eq] at hcarries
      rw [List.length_cons] at h
      exact List.forall_mem_cons.mpr ⟨by omega, ih (by omega)⟩
    · rw [decide_eq_true_eq] at hcarries
      exact List.forall_mem_cons.mpr ⟨by omega, ih (by omega)⟩

end LabelGroup

section

variable {lines : List ProductionLine} {logs : Logs} {window : Window} {now : Option Timestamp}

theorem FleetFigures.of?_eq_some {fleet : FleetFigures}
    (h : of? lines logs window now = some fleet) :
    fleet.lineCount = lines.length ∧ Kpi.pooled? lines logs window now = some fleet.summary ∧
      fleet.summary.hours? .on = some fleet.uptimeHours := by
  simp only [of?, Option.bind_eq_bind, Option.bind_eq_some_iff, Option.pure_def,
    Option.some.injEq] at h
  obtain ⟨summary, hsummary, -, -, on, hon, -, -, -, -, -, -, rfl⟩ := h
  exact ⟨rfl, hsummary, hon⟩

theorem LabelFigures.of?_eq_some {group : LabelGroup} {row : LabelFigures}
    (h : of? group logs window now = some row) :
    row.label = group.label ∧ row.lineCount = group.members.length ∧
      Kpi.pooled? group.members logs window now = some row.summary ∧
      row.summary.hours? .on = some row.uptimeHours := by
  simp only [of?, Option.bind_eq_bind, Option.bind_eq_some_iff, Option.pure_def,
    Option.some.injEq] at h
  obtain ⟨summary, hsummary, -, -, on, hon, rfl⟩ := h
  exact ⟨rfl, rfl, hsummary, hon⟩

theorem FleetFigures.exists_of? (h : lines.length < 2 ^ 200) (logs : Logs) (window : Window)
    (now : Option Timestamp) : ∃ fleet, of? lines logs window now = some fleet := by
  obtain ⟨summary, hsummary, hhours⟩ := Kpi.exists_pooled? h logs window now
  obtain ⟨parts, hparts⟩ := Kpi.exists_perLine? lines logs window now
  obtain ⟨on, hon⟩ := hhours .on
  obtain ⟨off, hoff⟩ := hhours .off
  obtain ⟨maintenance, hmaintenance⟩ := hhours .maintenance
  obtain ⟨error, herror⟩ := hhours .error
  exact ⟨⟨lines.length, on, off, maintenance, error, summary, window⟩,
    by simp [of?, hsummary, hparts, hon, hoff, hmaintenance, herror]⟩

theorem LabelFigures.exists_of? {group : LabelGroup} (h : group.members.length < 2 ^ 200)
    (logs : Logs) (window : Window) (now : Option Timestamp) :
    ∃ row, of? group logs window now = some row := by
  obtain ⟨summary, hsummary, hhours⟩ := Kpi.exists_pooled? h logs window now
  obtain ⟨parts, hparts⟩ := Kpi.exists_perLine? group.members logs window now
  obtain ⟨on, hon⟩ := hhours .on
  exact ⟨⟨group.label, group.members.length,
    mean ((parts.filter (0 < ·.total)).map (·.uptimePercentage)), on, summary⟩,
    by simp [of?, hsummary, hparts, hon]⟩

/-- The figures of a label and those of a fleet are the same. -/
structure LabelFigures.Agrees (row : LabelFigures) (fleet : FleetFigures) : Prop where
  lineCount : row.lineCount = fleet.lineCount
  uptimeHours : row.uptimeHours = fleet.uptimeHours
  interruptions : row.summary.interruptions = fleet.summary.interruptions
  meanRepairHours : row.summary.meanRepairHours = fleet.summary.meanRepairHours
  shares : row.summary.shares = fleet.summary.shares

theorem LabelFigures.agrees_of_members_eq {group : LabelGroup} {row : LabelFigures}
    {fleet : FleetFigures} (hrow : of? group logs window now = some row)
    (hfleet : FleetFigures.of? lines logs window now = some fleet)
    (hmembers : group.members = lines) : row.Agrees fleet := by
  obtain ⟨-, hcount, hsummary, hon⟩ := of?_eq_some hrow
  obtain ⟨hcount', hsummary', hon'⟩ := FleetFigures.of?_eq_some hfleet
  rw [hmembers] at hcount hsummary
  have hsame : row.summary = fleet.summary := Option.some.inj (hsummary.symm.trans hsummary')
  have huptime : row.uptimeHours = fleet.uptimeHours := by
    rw [hsame] at hon
    exact Option.some.inj (hon.symm.trans hon')
  exact ⟨hcount.trans hcount'.symm, huptime, by rw [hsame], by rw [hsame], by rw [hsame]⟩

end

namespace Kpi

open LineWatch.LabelGroup (carriers ofLines)

variable {lines : List ProductionLine} {logs : Logs} {window : Window} {now : Option Timestamp}
  {rows : List LabelFigures}

theorem select_label (lines : List ProductionLine) (id : String) :
    select lines [id] [] = lines.filter (0 < ·.carries id) := by
  unfold select
  refine List.filter_congr fun line _ => ?_
  rw [Bool.eq_iff_iff]
  simp [ProductionLine.carries, List.countP_pos_iff]

theorem exists_labels? (h : (lines.map (·.labels.length)).sum < 2 ^ 200) (logs : Logs)
    (window : Window) (now : Option Timestamp) :
    ∃ rows, labels? lines logs window now = some rows :=
  exists_mapM_eq_some fun group hgroup => LabelFigures.exists_of? (by
    rw [LabelGroup.members_of_mem_ofLines hgroup]
    exact (LabelGroup.length_carriers_le _ _).trans_lt h) logs window now

theorem ids_of_labels? (h : labels? lines logs window now = some rows) :
    rows.map (·.label.id) = LabelGroup.ids (ofLines lines) :=
  map_of_mapM (fun _ _ hrow => congrArg Label.id (LabelFigures.of?_eq_some hrow).1) h

/-- There is one row for every label. Its figures are those of the lines that carry the label, and
so those of the lines chosen by it, unless one of them names the label twice. -/
theorem label_rows_agree_iff (lines : List ProductionLine) (logs : Logs) (window : Window)
    (now : Option Timestamp) :
    ((lines.map (·.labels.length)).sum < 2 ^ 200 →
      ∃ rows, labels? lines logs window now = some rows) ∧
    (lines.length < 2 ^ 200 → ∀ id, ∃ fleet,
      FleetFigures.of? (select lines [id] []) logs window now = some fleet) ∧
    ∀ rows, labels? lines logs window now = some rows →
      (rows.map (·.label.id)).Nodup ∧
      (∀ id, id ∈ rows.map (·.label.id) ↔ ∃ line ∈ lines, 0 < line.carries id) ∧
      ∀ row ∈ rows,
        row.lineCount = (carriers row.label.id lines).length ∧
        pooled? (carriers row.label.id lines) logs window now = some row.summary ∧
        ∀ fleet, FleetFigures.of? (select lines [row.label.id] []) logs window now = some fleet →
          (row.Agrees fleet ↔ ∀ line ∈ lines, line.carries row.label.id ≤ 1) := by
  refine ⟨fun h => exists_labels? h logs window now, fun h id => ?_, fun rows hrows => ?_⟩
  · rw [select_label]
    exact FleetFigures.exists_of? ((List.length_filter_le _ _).trans_lt h) logs window now
  rw [ids_of_labels? hrows]
  refine ⟨LabelGroup.nodup_ids_ofLines lines, fun id => LabelGroup.mem_ids_ofLines,
    fun row hrow => ?_⟩
  obtain ⟨group, hgroup, hof⟩ := exists_of_mem_mapM hrows hrow
  obtain ⟨hlabel, hcount, hsummary, -⟩ := LabelFigures.of?_eq_some hof
  have hmembers : group.members = carriers row.label.id lines := by
    rw [LabelGroup.members_of_mem_ofLines hgroup, hlabel]
  refine ⟨hmembers ▸ hcount, hmembers ▸ hsummary, fun fleet hfleet => ?_⟩
  rw [select_label] at hfleet
  constructor
  · intro hagrees
    have hlength := hagrees.lineCount
    rw [hcount, hmembers, (FleetFigures.of?_eq_some hfleet).1] at hlength
    exact LabelGroup.carries_le_of_length_eq hlength
  · intro honce
    exact LabelFigures.agrees_of_members_eq hof hfleet
      (hmembers.trans (LabelGroup.carriers_eq_filter honce))

def night : Label := { id := "n", name := "night" }

/-- A line that names its label twice. -/
def twiceLabelled : ProductionLine :=
  { id := "a", code := "A", name := "A", status := .on, labels := [night, night] }

/-- The line runs all of the hour, and its label has two lines with two hours. -/
theorem labelled_line_counted_twice :
    let logs : Logs := fun _ => [{ time := .epoch, lineId := "a", newStatus := .on }]
    let window : Window := .ofInstants .epoch ⟨3600000000, by decide, by decide⟩
    (labels? [twiceLabelled] logs window none).map
        (·.map fun row => (row.lineCount, row.uptimeHours)) = some [(2, .finite 2)] ∧
      (FleetFigures.of? (select [twiceLabelled] ["n"] []) logs window none).map
        (fun fleet => (fleet.lineCount, fleet.uptimeHours)) = some (1, .finite 1) := by
  decide +kernel

end Kpi

end LineWatch
