import LineWatch.Time.Instant

/-!
# Time zones

A zone is the offset from UTC of an early time and the list of its changes. A wall-clock time
that a change skips is read with the offset before the change, and one that occurs twice means
the earlier instant. A calendar is all that is needed of a zone to split time into days: the
local date of an instant, and the instant at which a date starts.
-/

namespace LineWatch

/-- At `utc` seconds since the start of 1970 the offset becomes `offset` seconds. -/
structure OffsetChange where
  utc : Int
  offset : Int
  deriving DecidableEq, Repr

structure Zone where
  initial : Int
  changes : List OffsetChange
  deriving DecidableEq, Repr

structure Calendar where
  /-- The local date of an instant in microseconds. -/
  dateAt : Int → Date
  /-- The instant in microseconds at which a date starts. -/
  midnight : Date → Int

namespace Zone

def fixed (offset : Int) : Zone := ⟨offset, []⟩

/-- The offset in force at `micros`, for an offset `current` before all of the changes. -/
def offsetFrom (micros : Int) (current : Int) : List OffsetChange → Int
  | [] => current
  | c :: rest =>
    if c.utc * microsPerSecond ≤ micros then offsetFrom micros c.offset rest else current

def offsetAt (zone : Zone) (micros : Int) : Int := offsetFrom micros zone.initial zone.changes

/-- The offset with which a wall-clock time is read. -/
def wallOffsetFrom (wall : Int) (current : Int) : List OffsetChange → Int
  | [] => current
  | c :: rest =>
    if (c.utc + max current c.offset) * microsPerSecond ≤ wall then
      wallOffsetFrom wall c.offset rest
    else current

def instantOfWall (zone : Zone) (wall : Int) : Int :=
  wall - wallOffsetFrom wall zone.initial zone.changes * microsPerSecond

def calendar (zone : Zone) : Calendar where
  dateAt micros := ⟨(micros + zone.offsetAt micros * microsPerSecond) / microsPerDay⟩
  midnight date := zone.instantOfWall (date.day * microsPerDay)

def utc : Zone := fixed 0

/-- The zones by name, with their changes around the years 2011, 2017 and 2024. -/
def table : List (String × Zone) := [
  ("UTC", utc),
  ("Europe/Berlin", ⟨3600, [⟨1711846800, 7200⟩, ⟨1729990800, 3600⟩]⟩),
  ("America/New_York", ⟨-18000, [⟨1710054000, -14400⟩, ⟨1730613600, -18000⟩]⟩),
  ("Asia/Kolkata", fixed 19800),
  ("Asia/Kathmandu", fixed 20700),
  ("Australia/Lord_Howe", ⟨39600, [⟨1712415600, 37800⟩, ⟨1728142200, 39600⟩]⟩),
  ("Pacific/Kiritimati", fixed 50400),
  ("America/Havana", ⟨-18000, [⟨1710046800, -14400⟩, ⟨1730610000, -18000⟩]⟩),
  ("America/Sao_Paulo", ⟨-10800, [⟨1508036400, -7200⟩, ⟨1518919200, -10800⟩]⟩),
  ("Africa/Cairo", ⟨7200, [⟨1714082400, 10800⟩, ⟨1730408400, 7200⟩]⟩),
  ("America/St_Johns", ⟨-12600, [⟨1710048600, -9000⟩, ⟨1730608200, -12600⟩]⟩),
  ("Pacific/Apia", ⟨-36000, [⟨1325239200, 50400⟩, ⟨1333202400, 46800⟩]⟩),
  ("Etc/GMT+5", fixed (-18000))]

/-- The zone of a name; no name, or the empty one, means UTC. -/
def ofName? : Option String → Option Zone
  | none => some utc
  | some "" => some utc
  | some name => table.lookup name

end Zone

end LineWatch
