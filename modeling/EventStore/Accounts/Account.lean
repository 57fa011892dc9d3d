import EventStore.Accounts.Event
import EventStore.Aggregate

/-! Accounts and notes.

An account keeps a trail of all its events. Notes have no state: every event is accepted and
ignored. -/

namespace EventStore.Accounts

open Text

structure Account where
  owner : String := ""
  nickname : Option String := none
  balance : Int64 := 0
  tags : List String := []
  entries : Entries Int64 := .empty
  trail : List String := []
deriving DecidableEq

namespace Account

/-- The effect of a payload; sums wrap around. -/
def update (a : Account) : AccountEvent → Account
  | .opened owner balance => { a with owner, balance }
  | .moneyDeposited amount => { a with balance := a.balance + .ofNat amount.toNat }
  | .renamed owner => { a with owner }
  | .nickname nickname => { a with nickname }
  | .tagged tags _ => { a with tags := a.tags ++ tags }
  | .moved received spent => { a with balance := a.balance + received - spent }
  | .annotated entries => { a with entries := a.entries.insertAll entries.toList }
  | .closed | .reopened | .audited | .secret _ | .unencodable => a

def handle (a : Account) (e : DomainEvent AccountEvent) : Account :=
  let entry := e.payload.tag ++ "@" ++ decimalText e.versionNumber
  { a with trail := a.trail ++ [entry] }.update e.payload

/-- An identity that no account is made for. -/
def refusedId : String := "unbuildable"

def blueprint : Blueprint Account AccountEvent where
  name := "Account"
  eventType := AccountEvent.tag
  create id := if id.text = refusedId then none else some {}
  handle := handle

end Account

/-- The state of a note, which is empty. -/
structure Note where
deriving DecidableEq

def Note.blueprint : Blueprint Note NoteEvent where
  name := "Note"
  eventType := NoteEvent.tag
  create _ := some {}
  handle note _ := note

end EventStore.Accounts
