import LineWatch.Kpi.Daily
import LineWatch.Line.Snapshot
import LineWatch.Text.Order

/-!
# Key figures of several lines

Durations are summed over the lines; uptime and mean time to repair are taken over all
intervals together. Figures of a label give the mean uptime of its lines that have data in the
window, and carry the label as its first line shows it.
-/

namespace LineWatch

/-- The status logs of the lines by line identifier. -/
abbrev Logs := String → List StatusChange

namespace Kpi

/-- The intervals of a log in a window, the open one no longer than to `now`. -/
def intervalsIn (window : Window) (now : Option Timestamp) (changes : List StatusChange) :
    List Interval :=
  Interval.window changes window.start.millis window.stop.millis (now.map (·.millis))

/-- The figures over the intervals of all lines together. -/
def pooled? (lines : List ProductionLine) (logs : Logs) (window : Window)
    (now : Option Timestamp) : Option Summary :=
  Summary.of? (lines.flatMap fun line => intervalsIn window now (logs line.id))

def perLine? (lines : List ProductionLine) (logs : Logs) (window : Window)
    (now : Option Timestamp) : Option (List Summary) :=
  lines.mapM fun line => Summary.of? (intervalsIn window now (logs line.id))

end Kpi

structure LineFigures where
  line : ProductionLine
  uptimeHours : Binary64
  downtimeHours : Binary64
  maintenanceHours : Binary64
  errorHours : Binary64
  summary : Summary

namespace LineFigures

def of? (line : ProductionLine) (changes : List StatusChange) (window : Window)
    (now : Option Timestamp) : Option LineFigures := do
  let summary ← Summary.of? (Kpi.intervalsIn window now changes)
  return {
    line
    uptimeHours := ← summary.hours? .on
    downtimeHours := ← summary.hours? .off
    maintenanceHours := ← summary.hours? .maintenance
    errorHours := ← summary.hours? .error
    summary }

def toJson (f : LineFigures) : Json := .obj [
  ("line_id", .str f.line.id),
  ("line_code", .str f.line.code),
  ("line_name", .str f.line.name),
  ("labels", .arr (f.line.labels.map Label.toJson)),
  ("uptime_hours", .float f.uptimeHours),
  ("uptime_percentage", .float f.summary.uptimePercentage),
  ("downtime_hours", .float f.downtimeHours),
  ("maintenance_hours", .float f.maintenanceHours),
  ("error_hours", .float f.errorHours),
  ("mttr_hours", .float f.summary.meanRepairHours),
  ("interruption_count", Json.ofNat f.summary.interruptions),
  ("current_status", f.line.status.toJson),
  ("status_distribution", Summary.sharesJson f.summary.shares)]

end LineFigures

structure FleetFigures where
  lineCount : Nat
  uptimeHours : Binary64
  downtimeHours : Binary64
  maintenanceHours : Binary64
  errorHours : Binary64
  summary : Summary
  window : Window

namespace FleetFigures

def of? (lines : List ProductionLine) (logs : Logs) (window : Window)
    (now : Option Timestamp) : Option FleetFigures := do
  let summary ← Kpi.pooled? lines logs window now
  let _ ← Kpi.perLine? lines logs window now
  return {
    lineCount := lines.length
    uptimeHours := ← summary.hours? .on
    downtimeHours := ← summary.hours? .off
    maintenanceHours := ← summary.hours? .maintenance
    errorHours := ← summary.hours? .error
    summary, window }

def toJson (f : FleetFigures) : Json := .obj [
  ("total_lines", Json.ofNat f.lineCount),
  ("total_uptime_hours", .float f.uptimeHours),
  ("average_uptime_percentage", .float f.summary.uptimePercentage),
  ("total_downtime_hours", .float f.downtimeHours),
  ("total_maintenance_hours", .float f.maintenanceHours),
  ("total_error_hours", .float f.errorHours),
  ("mttr_hours", .float f.summary.meanRepairHours),
  ("total_interruptions", Json.ofNat f.summary.interruptions),
  ("status_distribution", Summary.sharesJson f.summary.shares),
  ("time_range", f.window.toJson)]

end FleetFigures

/-- A label and its lines, one for each time a line carries it. -/
structure LabelGroup where
  label : Label
  members : List ProductionLine
  deriving DecidableEq, Repr

namespace LabelGroup

/-- Adds a line to the group of a label, which is a new one at the end if there is none yet. -/
def insert (line : ProductionLine) (label : Label) : List LabelGroup → List LabelGroup
  | [] => [⟨label, [line]⟩]
  | g :: rest =>
    if g.label.id = label.id then { g with members := g.members ++ [line] } :: rest
    else g :: insert line label rest

def insertAll (groups : List LabelGroup) (line : ProductionLine) : List LabelGroup :=
  line.labels.foldl (fun groups label => insert line label groups) groups

/-- The groups of all labels the lines carry, in the order of the label names. -/
def ofLines (lines : List ProductionLine) : List LabelGroup :=
  (lines.foldl insertAll []).mergeSort fun a b => textLe a.label.name b.label.name

end LabelGroup

structure LabelFigures where
  label : Label
  lineCount : Nat
  averageUptime : Binary64
  uptimeHours : Binary64
  summary : Summary

namespace LabelFigures

/-- The mean of the given numbers, zero if there are none. -/
def mean (xs : List Binary64) : Binary64 :=
  match xs with
  | [] => .zero
  | xs => (xs.foldl Binary64.add Binary64.zero).divInt xs.length

def of? (group : LabelGroup) (logs : Logs) (window : Window) (now : Option Timestamp) :
    Option LabelFigures := do
  let summary ← Kpi.pooled? group.members logs window now
  let perLine ← Kpi.perLine? group.members logs window now
  let observed := (perLine.filter (0 < ·.total)).map (·.uptimePercentage)
  return {
    label := group.label
    lineCount := group.members.length
    averageUptime := mean observed
    uptimeHours := ← summary.hours? .on
    summary }

def toJson (f : LabelFigures) : Json := .obj [
  ("label", f.label.toJson),
  ("line_count", Json.ofNat f.lineCount),
  ("average_uptime_percentage", .float f.averageUptime),
  ("total_uptime_hours", .float f.uptimeHours),
  ("total_interruptions", Json.ofNat f.summary.interruptions),
  ("mttr_hours", .float f.summary.meanRepairHours),
  ("status_distribution", Summary.sharesJson f.summary.shares)]

end LabelFigures

namespace Kpi

/-- The figures of every label, in the order of the label names. -/
def labels? (lines : List ProductionLine) (logs : Logs) (window : Window)
    (now : Option Timestamp) : Option (List LabelFigures) :=
  (LabelGroup.ofLines lines).mapM fun group => LabelFigures.of? group logs window now

/-- The lines that carry one of the labels and are among those named; an empty choice leaves
all. -/
def select (lines : List ProductionLine) (labelIds lineIds : List String) :
    List ProductionLine :=
  lines.filter fun line =>
    (lineIds.isEmpty || lineIds.contains line.id) &&
      (labelIds.isEmpty || line.labels.any fun label => labelIds.contains label.id)

end Kpi

end LineWatch
