import EventStore.Accounts.Bus
import EventStore.Repository

/-! A publisher that is out of order from time to time.

The events go to a bus of scripted handlers, whose calls are logged. A script says for the next
calls whether the bus can be reached; without a script it can. -/

namespace EventStore.Accounts

structure OutageState where
  bus : AccountBus
  /-- For each of the next calls, whether the bus is out of reach. -/
  outages : List Bool := []
  log : List String := []

/-- Publishes an event unless the bus is out of reach. -/
def publishUnlessOut (e : AnyEvent) : StateM OutageState (Except BusError Unit) := do
  let s ← get
  set { s with outages := s.outages.drop 1 }
  if s.outages.head? = some true then return .error (.publishFailed "bus unavailable")
  let (result, bus, log) := publishLogged s.bus e
  set { s with outages := s.outages.drop 1, bus, log := s.log ++ log }
  return result

/-- A publisher of the events of one type. -/
def outagePublisher {P : Type} (wrap : DomainEvent P → AnyEvent) : Publisher P OutageState where
  publish e := publishUnlessOut (wrap e.event)

end EventStore.Accounts
