import LineWatch.Connection.Basic

/-!
# Commands and state changes

A state change is told to the listeners of that moment, one after the other, and a listener that
fails stops none of them. A listener may give commands itself. Among those only `disconnect`
changes the state, so the listeners can be nested no deeper than one announcement of
`disconnected` within another announcement.
-/

namespace LineWatch

namespace Client

/-- Forgets the current loop and asks for its cancellation. -/
def halt (c : Client) : Client × List Emission :=
  let halted := { c with closed := true, task := none }
  match c.activeLoop? with
  | some id =>
    (halted.mapLoop id fun l => { l with cancelling := true }, [.notice .disconnecting])
  | none => (halted, [])

def connect (c : Client) : Client × List Emission :=
  match c.activeLoop? with
  | some _ => (c, [.notice .alreadyConnected])
  | none =>
    ({ c with
        closed := false
        task := some c.nextLoop
        loops := c.loops ++ [(c.nextLoop, { phase := .scheduled })]
        nextLoop := c.nextLoop + 1 }, [])

def subscribe (c : Client) (name tag : String) (handler : Handler) : Client :=
  { c with
    handlers := c.handlers.set tag (c.handlersOf tag ++ [handler])
    subscriptions := c.subscriptions.set name ⟨tag, handler, true⟩ }

/-- Gives up a subscription: the first one of its handler goes. -/
def unsubscribe (c : Client) (name : String) : Client :=
  match c.subscriptions.get? name with
  | none => c
  | some s =>
    if !s.active then c
    else { c with
      handlers :=
        if (c.handlersOf s.tag).contains s.handler then
          c.handlers.set s.tag ((c.handlersOf s.tag).erase s.handler)
        else c.handlers
      subscriptions := c.subscriptions.set name { s with active := false } }

def listen (c : Client) (listener : Listener) : Client :=
  { c with listeners := c.listeners ++ [listener] }

def unlisten (c : Client) (listener : Listener) : Client :=
  { c with listeners := c.listeners.erase listener }

/-- Does a command, with `leave` for `disconnect`. -/
def performWith (leave : Client → Client × List Emission) (c : Client) :
    Command → Client × List Emission
  | .connect => c.connect
  | .disconnect => leave c
  | .subscribe name tag handler => (c.subscribe name tag handler, [])
  | .unsubscribe name => (c.unsubscribe name, [])
  | .listen listener => (c.listen listener, [])
  | .unlisten listener => (c.unlisten listener, [])

def performAllWith (leave : Client → Client × List Emission) (c : Client) :
    List Command → Client × List Emission
  | [] => (c, [])
  | command :: rest =>
    let (c, first) := performWith leave c command
    let (c, later) := performAllWith leave c rest
    (c, first ++ later)

/-- Tells the listeners of a state. -/
def announceWith (leave : Client → Client × List Emission) (callbacks : Callbacks)
    (state : ConnectionState) (c : Client) : List Listener → Client × List Emission
  | [] => (c, [])
  | l :: rest =>
    let (c, first) := match callbacks.hear l state with
      | .error message => (c, [Emission.notice (.listenerFailed message)])
      | .ok commands => performAllWith leave c commands
    let (c, later) := announceWith leave callbacks state c rest
    (c, Emission.told l state :: first ++ later)

/-- Moves to a state; nothing happens if it is the current one. -/
def enterWith (leave : Client → Client × List Emission) (callbacks : Callbacks)
    (state : ConnectionState) (c : Client) : Client × List Emission :=
  if c.state = state then (c, [])
  else
    let (moved, emissions) :=
      announceWith leave callbacks state { c with state := state } c.listeners
    (moved, .notice (.stateChanged c.state state) :: emissions)

/-- Stops the delivery of events. While `disconnected` is announced the state is that already, so
a listener that disconnects again halts the client and changes no state. -/
def disconnect (callbacks : Callbacks) (c : Client) : Client × List Emission :=
  let (halted, first) := c.halt
  let (c, later) := enterWith halt callbacks .disconnected halted
  (c, first ++ later)

def enter (callbacks : Callbacks) (state : ConnectionState) (c : Client) :
    Client × List Emission :=
  enterWith (disconnect callbacks) callbacks state c

def perform (callbacks : Callbacks) (c : Client) (command : Command) : Client × List Emission :=
  performWith (disconnect callbacks) c command

def performAll (callbacks : Callbacks) (c : Client) (commands : List Command) :
    Client × List Emission :=
  performAllWith (disconnect callbacks) c commands

end Client

end LineWatch
