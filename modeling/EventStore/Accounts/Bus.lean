import EventStore.Accounts.Event
import EventStore.Bus
import EventStore.Event.Basic
import EventStore.Text.Digits

/-! Events of accounts and notes on one bus, with handlers that follow a script. -/

namespace EventStore.Accounts

open Text

inductive EventKind where
  | account
  | note
deriving DecidableEq, Repr

inductive AnyEvent where
  | account (e : DomainEvent AccountEvent)
  | note (e : DomainEvent NoteEvent)

namespace AnyEvent

def kind : AnyEvent → EventKind
  | .account _ => .account
  | .note _ => .note

def tag : AnyEvent → String
  | .account e => e.payload.tag
  | .note e => e.payload.tag

def version : AnyEvent → Nat
  | .account e => e.versionNumber
  | .note e => e.versionNumber

end AnyEvent

/-- What a handler does with the events that it gets. -/
inductive Script where
  | accept
  | fail (text : String)
  | failProcessing (text : String)
  /-- Fails as often as given, and accepts from then on. -/
  | failFirst (times : Nat) (text : String)
  /-- Breaks down; the task that runs it reports a failure. -/
  | breakDown

structure ScriptedHandler where
  name : String
  script : Script

namespace ScriptedHandler

def react (s : ScriptedHandler) (_ : AnyEvent) : Except HandlerError Unit × ScriptedHandler :=
  match s.script with
  | .accept | .failFirst 0 _ => (.ok (), s)
  | .fail text => (.error (.handlerFailed text), s)
  | .failProcessing text => (.error (.processingError text), s)
  | .failFirst (n + 1) text =>
    (.error (.handlerFailed text), { s with script := .failFirst n text })
  | .breakDown => (.error (.handlerFailed "<panic>"), s)

/-- The entry of a handler's call in a log. -/
def logEntry (s : ScriptedHandler) (e : AnyEvent) : String :=
  s.name ++ ":" ++ e.tag ++ ":" ++ decimalText e.version

end ScriptedHandler

/-- Scripted handlers share nothing. -/
def handling : Handling EventKind AnyEvent ScriptedHandler Unit where
  kind := AnyEvent.kind
  name := AnyEvent.tag
  react s e w :=
    let (outcome, state) := s.react e
    (outcome, state, w)

abbrev AccountBus := Bus EventKind ScriptedHandler

/-- Publishes an event and logs the calls. Tasks run in the order of subscription; the calls of
tasks are logged in the order of their entries. -/
def publishLogged (b : AccountBus) (e : AnyEvent) :
    Except BusError Unit × AccountBus × List String :=
  let p := b.publish handling [] e ()
  let handlers := b.handlers e.kind
  let log := p.called.filterMap fun i => (handlers[i]?).map fun s => s.state.logEntry e
  (p.result, p.bus, if b.config.concurrent then log.mergeSort (· ≤ ·) else log)

end EventStore.Accounts
