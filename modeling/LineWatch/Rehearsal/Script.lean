import LineWatch.Connection.Basic
import LineWatch.Remote.Reply

/-!
# Scripts

A rehearsal runs the system in a world that follows a script: what every attempt to open the
stream meets, what the handlers do, and what the remote side replies. This module holds the
parts of a script.
-/

namespace LineWatch

/-- What a stream brings that stays open. -/
inductive Arrival where
  | frame (frame : Frame)
  | failure (failure : Failure)
  | stop
  deriving DecidableEq, Repr

/-- A command of a script. -/
inductive Cue where
  | connect
  | disconnect
  | shutDown
  | wake
  | subscribe (name tag handler : String)
  | unsubscribe (name : String)
  /-- Subscribes the cache to the events of lines. -/
  | attach
  | listen (name : String) (fails : Bool)
  | unlisten (name : String)
  | push (arrival : Arrival)
  | none
  deriving DecidableEq, Repr

/-- One item of a stream that is played. -/
inductive Item where
  | arrival (arrival : Arrival)
  | cue (cue : Cue)
  deriving DecidableEq, Repr

/-- What an attempt to open the stream meets. -/
inductive Attempt where
  | refused (failure : Failure)
  | hangs
  /-- The stream plays its items, and then ends or stays open. -/
  | plays (items : List Item) (staysOpen : Bool)
  deriving DecidableEq, Repr

/-- A stream that brings lines, up to the first one that cannot be read, and then ends. -/
def Attempt.ofLines (lines : List String) : Attempt :=
  let (frames, failure) := FrameDecoder.frames {} (lines.map String.toList)
  let broken := failure.toList.map fun e => Item.arrival (.failure (.unexpected e.message))
  .plays (frames.map (fun f => .arrival (.frame f)) ++ broken) false

/-- On which events a handler fails. -/
inductive FailRule where
  | never
  | always
  | onStatus (name : String)
  deriving DecidableEq, Repr

structure HandlerScript where
  suspends : Bool := false
  rule : FailRule := .never
  cues : List Cue := []
  deriving DecidableEq, Repr

def HandlerScript.failsOn (script : HandlerScript) (event : StreamEvent) : Bool :=
  match script.rule with
  | .never => false
  | .always => true
  | .onStatus name => event.status?.map (·.name) == some name

/-- What the remote side has for a path: a reply, at once or when it is released. -/
structure Served where
  reply : Reply
  held : Bool := false
  deriving DecidableEq, Repr

end LineWatch
