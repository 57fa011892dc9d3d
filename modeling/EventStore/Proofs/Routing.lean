import EventStore.Bus
import EventStore.Proofs.Lists
import Mathlib.Data.List.DropRight

/-!
# Routing and failures of the bus

A bus is used by subscribing and removing handlers and by publishing events. What it does with an
event is read from its history: the handlers that were subscribed for the kind of the event since
handlers of this kind were last removed are called one after the other, on a bus that does not go on
after a failure up to the first that fails.

Proved here:

* `inTurn_eq`, `publish_eq_of_calls`: calling handlers in turn, from what comes of the single calls;
* `handlers_act`, `handlers_run`: the rows of handlers after one use of the bus and after many;
* `publish_result_iff`: what a publication reports;
* `sequential_routing`: all of this together.
-/

namespace EventStore

/-! ## Calls -/

section Deliveries

variable {κ S W : Type}

namespace Delivery

def failure? (d : Delivery κ S W) : Option HandlerError :=
  match d.outcome with
  | .ok _ => none
  | .error error => some error

/-- The positions of the handlers that ran, the first of them handed the event at the given one. -/
def positionsRun (position : Nat) (l : List (Delivery κ S W)) : List Nat :=
  ((l.zipIdx position).filter (·.1.ran)).map (·.2)

/-- The world that calls leave behind. -/
def worldAfter (w : W) : List (Delivery κ S W) → W
  | [] => w
  | d :: l => worldAfter d.world l

@[simp] theorem positionsRun_nil (position : Nat) :
    positionsRun position ([] : List (Delivery κ S W)) = [] := rfl

theorem positionsRun_cons (position : Nat) (d : Delivery κ S W) (l : List (Delivery κ S W)) :
    positionsRun position (d :: l) =
      (if d.ran then [position] else []) ++ positionsRun (position + 1) l := by
  cases hran : d.ran <;> simp [positionsRun, hran]

end Delivery

end Deliveries

variable {κ E S W : Type} [DecidableEq κ]

namespace Handling

/-- What comes of handing an event to each handler of a row, in this order. -/
def deliveries (h : Handling κ E S W) (e : E) (w : W) :
    List (Handler κ S) → List (Delivery κ S W)
  | [] => []
  | handler :: l =>
    h.deliver handler e w :: h.deliveries e (h.deliver handler e w).world l

/-- What comes of the handlers that are called: of all of them if the bus goes on after a failure,
and otherwise of those up to the first that fails. -/
def calls (h : Handling κ E S W) (goOn : Bool) (e : E) (w : W) (l : List (Handler κ S)) :
    List (Delivery κ S W) :=
  let l := h.deliveries e w l
  if goOn then l else l.take (l.findIdx (·.failure?.isSome) + 1)

variable {h : Handling κ E S W} {goOn : Bool} {e : E} {w : W} {handler : Handler κ S}
  {l : List (Handler κ S)}

theorem calls_cons_of_go (hgo : goOn = true ∨ (h.deliver handler e w).failure? = none) :
    h.calls goOn e w (handler :: l) =
      h.deliver handler e w :: h.calls goOn e (h.deliver handler e w).world l := by
  cases goOn with
  | true => rfl
  | false =>
    have hnone := hgo.resolve_left Bool.false_ne_true
    simp [calls, deliveries, List.findIdx_cons, hnone]

theorem calls_cons_of_stop {error : HandlerError}
    (hfail : (h.deliver handler e w).failure? = some error) :
    h.calls false e w (handler :: l) = [h.deliver handler e w] := by
  simp [calls, deliveries, List.findIdx_cons, hfail]

/-- What comes of calling handlers in turn, from what comes of the single calls. -/
theorem inTurn_eq (goOn : Bool) (e : E) (position : Nat) (w : W) (l : List (Handler κ S)) :
    h.inTurn goOn e position w l =
      ⟨(h.calls goOn e w l).filterMap (·.failure?),
        (h.calls goOn e w l).map (·.handler) ++ l.drop (h.calls goOn e w l).length,
        Delivery.positionsRun position (h.calls goOn e w l),
        Delivery.worldAfter w (h.calls goOn e w l)⟩ := by
  induction l generalizing position w with
  | nil => cases goOn <;> rfl
  | cons handler l ih =>
    rw [inTurn]
    cases houtcome : (h.deliver handler e w).outcome with
    | ok =>
      have hnone : (h.deliver handler e w).failure? = none := by rw [Delivery.failure?, houtcome]
      rw [calls_cons_of_go (.inr hnone)]
      simp [ih, Round.cons, hnone, Delivery.positionsRun_cons, Delivery.worldAfter]
    | error error =>
      have hfail : (h.deliver handler e w).failure? = some error := by
        rw [Delivery.failure?, houtcome]
      cases goOn with
      | true =>
        rw [calls_cons_of_go (.inl rfl)]
        simp [ih, Round.cons, hfail, Delivery.positionsRun_cons, Delivery.worldAfter]
      | false =>
        rw [calls_cons_of_stop hfail]
        simp [hfail, Delivery.positionsRun_cons, Delivery.worldAfter]

/-- Where a bus stops after a failure, there is at most one. -/
theorem length_failures_le (h : Handling κ E S W) (e : E) (w : W) (l : List (Handler κ S)) :
    ((h.calls false e w l).filterMap (·.failure?)).length ≤ 1 := by
  induction l generalizing w with
  | nil => exact Nat.zero_le 1
  | cons handler l ih =>
    cases hfail : (h.deliver handler e w).failure? with
    | none =>
      rw [calls_cons_of_go (.inr hfail), List.filterMap_cons_none hfail]
      exact ih _
    | some error =>
      rw [calls_cons_of_stop hfail, List.filterMap_cons_some hfail]
      exact Nat.le_refl 1

/-- A handler that was written for another kind of event fails without running. -/
theorem deliver_of_ne (hne : handler.expects ≠ h.kind e) :
    h.deliver handler e w = ⟨.error (.typeMismatch (h.name e)), handler, w, false⟩ :=
  if_neg hne

end Handling

/-! ## Handlers over time -/

/-- A handler after it was handed events, each in the world of its time. -/
def Handler.after (h : Handling κ E S W) (handler : Handler κ S) (heard : List (E × W)) :
    Handler κ S :=
  heard.foldl (fun handler x => (h.deliver handler x.1 x.2).handler) handler

/-- A handler became another one, and of the given events it was handed some, in their order. -/
def Handling.Became (h : Handling κ E S W) (events : List E) (handler handler' : Handler κ S) :
    Prop :=
  ∃ heard : List (E × W), (heard.map (·.1)).Sublist events ∧ handler' = handler.after h heard

namespace Handling.Became

variable {h : Handling κ E S W} {events events' : List E} {a b c : Handler κ S}

theorem refl (h : Handling κ E S W) (events : List E) (a : Handler κ S) : h.Became events a a :=
  ⟨[], List.nil_sublist _, rfl⟩

theorem trans (hab : h.Became events a b) (hbc : h.Became events' b c) :
    h.Became (events ++ events') a c := by
  obtain ⟨heard, hsub, rfl⟩ := hab
  obtain ⟨heard', hsub', rfl⟩ := hbc
  refine ⟨heard ++ heard', ?_, List.foldl_append.symm⟩
  rw [List.map_append]
  exact hsub.append hsub'

theorem of_deliver (a : Handler κ S) (e : E) (w : W) : h.Became [e] a (h.deliver a e w).handler :=
  ⟨[(e, w)], List.Sublist.refl _, rfl⟩

end Handling.Became

/-- Calls in turn leave the handlers of a row where they are. -/
theorem Handling.became_inTurn (h : Handling κ E S W) (goOn : Bool) (e : E) (position : Nat) (w : W)
    (l : List (Handler κ S)) :
    List.Forall₂ (h.Became [e]) l (h.inTurn goOn e position w l).handlers := by
  induction l generalizing position w with
  | nil => exact .nil
  | cons handler l ih =>
    have hfirst := Became.of_deliver (h := h) handler e w
    rw [inTurn]
    split
    · exact .cons hfirst (ih _ _)
    · split
      · exact .cons hfirst (ih _ _)
      · exact .cons hfirst (List.forall₂_same.mpr fun a _ => .refl h [e] a)

/-! ## Uses of a bus -/

/-- One use of a bus. An event is published in the world as it then is. -/
inductive BusAction (κ E S W : Type) where
  | subscribe (kind : κ) (handler : Handler κ S)
  | unsubscribe (kind : κ)
  | clear
  | publish (schedule : List Nat) (e : E) (w : W)

namespace BusAction

/-- Whether the handlers of a kind are removed. -/
def removes (kind : κ) : BusAction κ E S W → Bool
  | .unsubscribe k => k = kind
  | .clear => true
  | _ => false

/-- The handler that is subscribed for a kind. -/
def handlerFor? (kind : κ) : BusAction κ E S W → Option (Handler κ S)
  | .subscribe k handler => if k = kind then some handler else none
  | _ => none

/-- The event of a kind that is published. -/
def eventOf? (h : Handling κ E S W) (kind : κ) : BusAction κ E S W → Option E
  | .publish _ e _ => if h.kind e = kind then some e else none
  | _ => none

/-- The uses since handlers of a kind were last removed. -/
def since (kind : κ) (history : List (BusAction κ E S W)) : List (BusAction κ E S W) :=
  history.rtakeWhile (!·.removes kind)

/-- The handlers that were subscribed for a kind and not removed. -/
def subscribed (kind : κ) (history : List (BusAction κ E S W)) : List (Handler κ S) :=
  (since kind history).filterMap (·.handlerFor? kind)

/-- The events of a kind that were published since handlers of it were last removed. -/
def published (h : Handling κ E S W) (kind : κ) (history : List (BusAction κ E S W)) : List E :=
  (since kind history).filterMap (·.eventOf? h kind)

theorem since_concat (kind : κ) (history : List (BusAction κ E S W)) (a : BusAction κ E S W) :
    since kind (history ++ [a]) = if a.removes kind then [] else since kind history ++ [a] := by
  rw [since, List.rtakeWhile_concat]
  cases a.removes kind <;> rfl

theorem subscribed_concat (kind : κ) (history : List (BusAction κ E S W)) (a : BusAction κ E S W) :
    subscribed kind (history ++ [a]) =
      if a.removes kind then [] else subscribed kind history ++ (a.handlerFor? kind).toList := by
  rw [subscribed, since_concat]
  cases a.removes kind with
  | true => rfl
  | false => cases ha : a.handlerFor? kind <;> simp [subscribed, ha]

theorem published_concat (h : Handling κ E S W) (kind : κ) (history : List (BusAction κ E S W))
    (a : BusAction κ E S W) :
    published h kind (history ++ [a]) =
      if a.removes kind then [] else published h kind history ++ (a.eventOf? h kind).toList := by
  rw [published, since_concat]
  cases a.removes kind with
  | true => rfl
  | false => cases ha : a.eventOf? h kind <;> simp [published, ha]

theorem eq_publish_of_eventOf? {h : Handling κ E S W} {kind : κ} {a : BusAction κ E S W} {e : E}
    (ha : a.eventOf? h kind = some e) :
    ∃ schedule w, a = .publish schedule e w ∧ kind = h.kind e := by
  cases a with
  | publish schedule e' w =>
    simp only [eventOf?, Option.ite_none_right_eq_some, Option.some.injEq] at ha
    obtain ⟨rfl, rfl⟩ := ha
    exact ⟨schedule, w, rfl, rfl⟩
  | subscribe | unsubscribe | clear => cases ha

end BusAction

namespace Bus

/-- A bus after one use. -/
def act (h : Handling κ E S W) (b : Bus κ S) : BusAction κ E S W → Bus κ S
  | .subscribe kind handler => b.subscribe kind handler
  | .unsubscribe kind => b.unsubscribe kind
  | .clear => b.clear
  | .publish schedule e w => (b.publish h schedule e w).bus

/-- A bus after many uses. -/
def run (h : Handling κ E S W) (b : Bus κ S) (history : List (BusAction κ E S W)) : Bus κ S :=
  history.foldl (act h) b

variable (h : Handling κ E S W)

theorem act_config (b : Bus κ S) (a : BusAction κ E S W) : (b.act h a).config = b.config := by
  cases a <;> rfl

theorem run_config (b : Bus κ S) (history : List (BusAction κ E S W)) :
    (b.run h history).config = b.config := by
  induction history generalizing b with
  | nil => rfl
  | cons a history ih => exact (ih _).trans (act_config h b a)

theorem run_concat (b : Bus κ S) (history : List (BusAction κ E S W)) (a : BusAction κ E S W) :
    b.run h (history ++ [a]) = (b.run h history).act h a := by
  rw [run, run, List.foldl_append]
  rfl

theorem setHandlers_handlers (b : Bus κ S) (kind kind' : κ) (l : List (Handler κ S)) :
    (b.setHandlers kind l).handlers kind' = if kind' = kind then l else b.handlers kind' := rfl

/-- A use of a bus that is no event of a kind removes the handlers of this kind or adds some. -/
theorem handlers_act_of_none (b : Bus κ S) {a : BusAction κ E S W} {kind : κ}
    (hevent : a.eventOf? h kind = none) :
    (b.act h a).handlers kind =
      if a.removes kind then [] else b.handlers kind ++ (a.handlerFor? kind).toList := by
  cases a with
  | subscribe k handler =>
    by_cases hk : k = kind
    · simp [act, subscribe, setHandlers_handlers, BusAction.removes, BusAction.handlerFor?, hk]
    · simp [act, subscribe, setHandlers_handlers, BusAction.removes, BusAction.handlerFor?, hk,
        Ne.symm hk]
  | unsubscribe k =>
    by_cases hk : k = kind
    · simp [act, unsubscribe, setHandlers_handlers, BusAction.removes, hk]
    · simp [act, unsubscribe, setHandlers_handlers, BusAction.removes, BusAction.handlerFor?, hk,
        Ne.symm hk]
  | clear => rfl
  | publish schedule e w =>
    have hk : kind ≠ h.kind e := by
      rintro rfl
      simp [BusAction.eventOf?] at hevent
    simp [act, publish, setHandlers_handlers, BusAction.removes, BusAction.handlerFor?, hk]

/-- One use of a bus that calls handlers in turn removes the handlers of a kind, adds some, or hands
them an event. -/
theorem handlers_act {b : Bus κ S} (hturn : b.config.concurrent = false)
    (a : BusAction κ E S W) (kind : κ) :
    List.Forall₂ (h.Became (a.eventOf? h kind).toList)
      (if a.removes kind then [] else b.handlers kind ++ (a.handlerFor? kind).toList)
      ((b.act h a).handlers kind) := by
  cases hevent : a.eventOf? h kind with
  | none =>
    rw [handlers_act_of_none h b hevent]
    exact List.forall₂_same.mpr fun a _ => .refl h _ a
  | some e =>
    obtain ⟨schedule, w, rfl, rfl⟩ := BusAction.eq_publish_of_eventOf? hevent
    have hturns := h.became_inTurn b.config.continueOnError e 0 w (b.handlers (h.kind e))
    simpa [act, publish, setHandlers_handlers, BusAction.removes, BusAction.handlerFor?, hturn]
      using hturns

/-- After any uses of a bus, a row holds the handlers that were subscribed and not removed, in their
order; since then they were handed events of their kind, and nothing else happened to them. -/
theorem handlers_run {config : BusConfig} (hturn : config.concurrent = false)
    (history : List (BusAction κ E S W)) (kind : κ) :
    List.Forall₂ (h.Became (BusAction.published h kind history))
      (BusAction.subscribed kind history)
      (((empty config).run h history).handlers kind) := by
  -- From the back: the last use acts on the row that the others have left.
  induction history using List.reverseRecOn with
  | nil => exact .nil
  | append_singleton history a ih =>
    have hconfig : ((empty config : Bus κ S).run h history).config.concurrent = false := by
      rw [run_config]
      exact hturn
    have hstep := handlers_act h hconfig a kind
    rw [run_concat, BusAction.subscribed_concat, BusAction.published_concat]
    cases hremoves : a.removes kind with
    -- What was subscribed before handlers are removed is forgotten on both sides.
    | true => simpa [hremoves] using hstep
    | false =>
      simp only [hremoves, Bool.false_eq_true, ↓reduceIte] at hstep ⊢
      have hrow := List.rel_append ih
        (List.forall₂_same.mpr fun b (_ : b ∈ (a.handlerFor? kind).toList) =>
          Handling.Became.refl h (BusAction.published h kind history) b)
      exact forall₂_trans (fun _ _ _ => .trans) hrow hstep

end Bus

/-! ## Publications -/

section Publications

variable (h : Handling κ E S W) {b : Bus κ S} (schedule : List Nat) (e : E) (w : W)

/-- A publication on a bus that calls handlers in turn, from what comes of the calls. -/
theorem publish_eq_of_calls (hturn : b.config.concurrent = false) :
    b.publish h schedule e w =
      let row := b.handlers (h.kind e)
      let calls := h.calls b.config.continueOnError e w row
      let failures := calls.filterMap (·.failure?)
      { result :=
          if failures.isEmpty ∨ b.config.continueOnError then .ok ()
          else .error (.handlersFailed failures)
        bus := b.setHandlers (h.kind e) (calls.map (·.handler) ++ row.drop calls.length)
        world := Delivery.worldAfter w calls
        called := Delivery.positionsRun 0 calls } := by
  simp only [Bus.publish, hturn, Bool.false_eq_true, ↓reduceIte, Handling.inTurn_eq]

/-- A report of failures of which there is at most one. -/
theorem report_eq_error_iff {failures : List HandlerError} (hle : failures.length ≤ 1)
    (error : BusError) :
    (if failures.isEmpty ∨ false = true then .ok () else .error (.handlersFailed failures)) =
        (.error error : Except BusError Unit) ↔
      ∃ failure ∈ failures, error = .handlersFailed [failure] := by
  match failures with
  | [] => simp
  | [failure] => simp [eq_comm]
  | _ :: _ :: _ => simp at hle

/-- A bus that calls handlers in turn reports the failure of a call, unless it goes on after it. -/
theorem publish_result_iff (hturn : b.config.concurrent = false) (error : BusError) :
    (b.publish h schedule e w).result = .error error ↔
      b.config.continueOnError = false ∧
        ∃ d ∈ h.calls b.config.continueOnError e w (b.handlers (h.kind e)),
          ∃ failure, d.failure? = some failure ∧ error = .handlersFailed [failure] := by
  rw [publish_eq_of_calls h schedule e w hturn]
  cases b.config.continueOnError with
  | true => simp
  | false =>
    refine (report_eq_error_iff (h.length_failures_le e w _) error).trans ?_
    simp only [List.mem_filterMap, true_and]
    exact ⟨fun ⟨x, ⟨d, hd, hx⟩, herror⟩ => ⟨d, hd, x, hx, herror⟩,
      fun ⟨d, hd, x, hx, herror⟩ => ⟨x, ⟨d, hd, hx⟩, herror⟩⟩

/-- What a bus that calls handlers in turn does with an event, after any uses of the bus. A row
holds the handlers that were subscribed for its kind and not removed, in their order, and nothing
happened to them but that they were handed events of their kind. Of the row for the kind of the
event the handlers are called one after the other, up to the first that fails unless the bus goes on
after it; what they leave behind comes of these calls alone, and the other rows stay as they are. A
handler that was written for another kind of event fails without running. An error is reported
exactly if a call failed and the bus does not go on, and it holds this one failure. -/
theorem sequential_routing (goOn : Bool) (history : List (BusAction κ E S W)) :
    let b := (Bus.empty ⟨false, goOn⟩).run h history
    let row := b.handlers (h.kind e)
    let calls := h.calls goOn e w row
    let p := b.publish h schedule e w
    (∀ kind, List.Forall₂ (h.Became (BusAction.published h kind history))
      (BusAction.subscribed kind history) (b.handlers kind)) ∧
    p.called = Delivery.positionsRun 0 calls ∧
    p.world = Delivery.worldAfter w calls ∧
    p.bus.handlers (h.kind e) = calls.map (·.handler) ++ row.drop calls.length ∧
    (∀ kind, kind ≠ h.kind e → p.bus.handlers kind = b.handlers kind) ∧
    (∀ handler ∈ row, handler.expects ≠ h.kind e → ∀ w',
      h.deliver handler e w' = ⟨.error (.typeMismatch (h.name e)), handler, w', false⟩) ∧
    ∀ error, p.result = .error error ↔
      goOn = false ∧ ∃ d ∈ calls, ∃ failure, d.failure? = some failure ∧
        error = .handlersFailed [failure] := by
  intro b row calls p
  have hconfig : b.config = ⟨false, goOn⟩ := Bus.run_config h _ history
  have hturn : b.config.concurrent = false := by rw [hconfig]
  have hp : p = _ := publish_eq_of_calls h schedule e w hturn
  rw [hconfig] at hp
  refine ⟨Bus.handlers_run h rfl history, ?_, ?_, ?_, fun kind hne => ?_,
    fun handler _ hne w' => Handling.deliver_of_ne hne, fun error => ?_⟩
  · rw [hp]
  · rw [hp]
  · rw [hp]
    exact if_pos rfl
  · rw [hp]
    exact if_neg hne
  · have hresult := publish_result_iff h schedule e w hturn error
    rwa [hconfig] at hresult

end Publications

/-- Handlers that fail as often as their state says, and count their calls in the world. -/
def countdown : Handling Bool Bool Nat Nat where
  kind e := e
  name e := if e then "Yes" else "No"
  react n _ w := (if n = 0 then .ok () else .error (.handlerFailed "not yet"), n - 1, w + 1)

/-- Of three handlers the second fails once and the third was written for another kind. -/
def countdownHistory : List (BusAction Bool Bool Nat Nat) :=
  [.subscribe true ⟨true, 7⟩, .unsubscribe true, .subscribe true ⟨true, 0⟩,
    .subscribe true ⟨true, 1⟩, .subscribe true ⟨false, 0⟩, .subscribe false ⟨false, 5⟩,
    .publish [] true 0]

theorem countdown_routing :
    let b := (Bus.empty ⟨false, false⟩).run countdown countdownHistory
    let p := b.publish countdown [] true 2
    List.Forall₂ (countdown.Became [true]) [⟨true, 0⟩, ⟨true, 1⟩, ⟨false, 0⟩] (b.handlers true) ∧
      p.called = [0, 1] ∧ p.world = 4 ∧ p.bus.handlers false = [⟨false, 5⟩] ∧
      p.result = .error (.handlersFailed [.typeMismatch "Yes"]) := by
  obtain ⟨hrows, hcalled, hworld, -, hothers, hmistyped, hresult⟩ :=
    sequential_routing countdown [] true 2 false countdownHistory
  have hthird := hmistyped ⟨false, 0⟩ (by decide) nofun 4
  refine ⟨hrows true, hcalled, hworld, hothers false nofun, (hresult _).mpr ⟨rfl, ?_⟩⟩
  exact ⟨_, List.mem_of_getElem? (i := 2) rfl, .typeMismatch "Yes",
    congrArg Delivery.failure? hthird, rfl⟩

end EventStore
