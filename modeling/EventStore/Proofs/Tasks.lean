import EventStore.Proofs.Routing

/-!
# Handlers in turn and as tasks

A handler that reacts alone answers an event from its own state, whatever the world that it shares
with the other handlers. Such handlers may run as tasks in any order: the bus reports what it would
report if it called them one after the other.

Proved here, for handlers that react alone:

* `publish_result_inTurn`, `publish_called_inTurn`, `publish_handlers_inTurn`: a publication on a
  bus that calls handlers in turn, from what they answer;
* `hasRun_concat`, `hasRun_runTasks`: what one task leaves behind, and what any tasks do;
* `awaited_of_outcomes`: what the bus reads of its tasks does not depend on when it reads it;
* `publications_alike`: uses of two buses that go on after failures;
* `tasks_agree_with_turns`: a bus with tasks and one without report alike.
-/

namespace EventStore

/-! ## Answers -/

namespace Delivery

variable {κ S W : Type}

/-- What comes of handing an event to a handler, the world apart. -/
def answer (d : Delivery κ S W) : Delivery κ S Unit := ⟨d.outcome, d.handler, (), d.ran⟩

/-- Those up to the first failure, or all if the bus goes on after it. -/
def upToFailure (goOn : Bool) (l : List (Delivery κ S W)) : List (Delivery κ S W) :=
  if goOn then l else l.take (l.findIdx (·.failure?.isSome) + 1)

/-- The failures that a bus gets to know: all of them if it goes on, and otherwise the first. -/
def failures (goOn : Bool) (l : List (Delivery κ S W)) : List HandlerError :=
  if goOn then l.filterMap (·.failure?) else (l.filterMap (·.failure?)).take 1

theorem failure?_eq_none {d : Delivery κ S W} (h : d.outcome = .ok ()) : d.failure? = none := by
  rw [failure?, h]

theorem failure?_eq_some {d : Delivery κ S W} {error : HandlerError}
    (h : d.outcome = .error error) : d.failure? = some error := by
  rw [failure?, h]

theorem failures_cons_of_none {d : Delivery κ S W} (h : d.failure? = none) (goOn : Bool)
    (l : List (Delivery κ S W)) : failures goOn (d :: l) = failures goOn l := by
  simp only [failures, List.filterMap_cons_none h]

theorem failures_cons_of_some {d : Delivery κ S W} {error : HandlerError}
    (h : d.failure? = some error) (goOn : Bool) (l : List (Delivery κ S W)) :
    failures goOn (d :: l) = if goOn then error :: failures goOn l else [error] := by
  cases goOn <;> simp [failures, h]

theorem map_answer_upToFailure (goOn : Bool) (l : List (Delivery κ S W)) :
    (upToFailure goOn l).map answer = upToFailure goOn (l.map answer) := by
  cases goOn with
  | true => rfl
  | false =>
    simp only [upToFailure, Bool.false_eq_true, ↓reduceIte, List.map_take, List.findIdx_map]
    rfl

theorem failures_map_answer (goOn : Bool) (l : List (Delivery κ S W)) :
    failures goOn (l.map answer) = failures goOn l := by
  simp only [failures, List.filterMap_map]
  rfl

theorem positionsRun_map_answer (position : Nat) (l : List (Delivery κ S W)) :
    positionsRun position (l.map answer) = positionsRun position l := by
  induction l generalizing position with
  | nil => rfl
  | cons d l ih =>
    rw [List.map_cons, positionsRun_cons, positionsRun_cons, ih]
    rfl

theorem nodup_positionsRun (position : Nat) (l : List (Delivery κ S W)) :
    (positionsRun position l).Nodup := by
  have hsublist := (List.filter_sublist (l := l.zipIdx position) (p := (·.1.ran))).map (·.2)
  refine hsublist.nodup ?_
  rw [List.zipIdx_map_snd]
  exact List.nodup_range'

theorem mem_positionsRun {l : List (Delivery κ S W)} {i : Nat} :
    i ∈ positionsRun 0 l ↔ ∃ d, l[i]? = some d ∧ d.ran = true := by
  simp [positionsRun, List.mem_zipIdx_iff_getElem?]

end Delivery

/-- What a bus reports of the failures that it got to know. -/
def Bus.report (goOn : Bool) (failures : List HandlerError) : Except BusError Unit :=
  if failures.isEmpty ∨ goOn then .ok () else .error (.handlersFailed failures)

/-- A bus that stops at a failure reports the first one, and a bus that goes on reports none. -/
theorem Bus.report_failures_eq_error_iff {κ S W : Type} (goOn : Bool) (l : List (Delivery κ S W))
    (error : BusError) :
    report goOn (Delivery.failures goOn l) = .error error ↔
      goOn = false ∧ ∃ failure, l.findSome? (·.failure?) = some failure ∧
        error = .handlersFailed [failure] := by
  rw [← List.head?_filterMap]
  cases goOn with
  | true => simp [report]
  | false =>
    cases hfailures : l.filterMap (·.failure?) <;>
      simp [report, Delivery.failures, hfailures, eq_comm]

/-! ## What the bus reads of its tasks -/

namespace Handling

variable {κ S : Type}

/-- The failures that the bus reads of its tasks. It waits for one after the other, and stops at the
first failure unless it goes on after it; there are none as long as it waits. -/
def awaited (goOn : Bool) : List (HandlerTask κ S) → Option (List HandlerError)
  | [] => some []
  | ⟨_, none⟩ :: _ => none
  | ⟨_, some (.ok _)⟩ :: l => awaited goOn l
  | ⟨_, some (.error error)⟩ :: l =>
    if goOn then (awaited goOn l).map (error :: ·) else some [error]

/-- What the bus reads of its tasks is the same at any time at which it does not wait. -/
theorem awaited_of_outcomes {goOn : Bool} {tasks : List (HandlerTask κ S)}
    {answers : List (Delivery κ S Unit)} {failures : List HandlerError}
    (h : List.Forall₂ (fun t d => ∀ outcome, t.outcome = some outcome → d.outcome = outcome)
      tasks answers) (hread : awaited goOn tasks = some failures) :
    failures = Delivery.failures goOn answers := by
  induction h generalizing failures with
  | nil => cases goOn <;> exact (Option.some.inj hread).symm
  | @cons t d tasks answers houtcome _ ih =>
    obtain ⟨handler, _ | ⟨error⟩ | ⟨⟨⟩⟩⟩ := t
    · cases hread
    · have hfailure := Delivery.failure?_eq_some (houtcome _ rfl)
      rw [Delivery.failures_cons_of_some hfailure]
      cases goOn with
      | true =>
        obtain ⟨rest, hrest, rfl⟩ := Option.map_eq_some_iff.mp hread
        rw [ih hrest]
        rfl
      | false => exact (Option.some.inj hread).symm
    · rw [Delivery.failures_cons_of_none (Delivery.failure?_eq_none (houtcome _ rfl))]
      exact ih hread

/-- The bus waits no more once all tasks have run. -/
theorem awaited_finished (goOn : Bool) (answers : List (Delivery κ S Unit)) :
    awaited goOn (answers.map fun d => ⟨d.handler, some d.outcome⟩) =
      some (Delivery.failures goOn answers) := by
  induction answers with
  | nil => cases goOn <;> rfl
  | cons d answers ih =>
    rw [List.map_cons]
    cases houtcome : d.outcome with
    | error error =>
      rw [Delivery.failures_cons_of_some (Delivery.failure?_eq_some houtcome), awaited, ih]
      cases goOn <;> rfl
    | ok =>
      rw [Delivery.failures_cons_of_none (Delivery.failure?_eq_none houtcome), awaited, ih]

end Handling

variable {κ E S W : Type} [DecidableEq κ]

namespace Handling

/-- What handlers answer and how they change is up to their own state and the event. -/
def ReactsAlone (h : Handling κ E S W) : Prop :=
  ∀ s e w w', (h.react s e w).1 = (h.react s e w').1 ∧ (h.react s e w).2.1 = (h.react s e w').2.1

/-- What handlers answer that are all handed an event in the given world. -/
def answers (h : Handling κ E S W) (e : E) (w : W) (l : List (Handler κ S)) :
    List (Delivery κ S Unit) :=
  l.map fun handler => (h.deliver handler e w).answer

theorem ran_deliver (h : Handling κ E S W) (handler : Handler κ S) (e : E) (w : W) :
    (h.deliver handler e w).ran = decide (handler.expects = h.kind e) := by
  unfold deliver
  split <;> simp [*]

namespace ReactsAlone

variable {h : Handling κ E S W} (halone : h.ReactsAlone)

include halone

theorem answer_eq (handler : Handler κ S) (e : E) (w w' : W) :
    (h.deliver handler e w).answer = (h.deliver handler e w').answer := by
  obtain ⟨houtcome, hstate⟩ := halone handler.state e w w'
  unfold deliver
  split
  · simp [Delivery.answer, houtcome, hstate]
  · rfl

theorem answers_eq (e : E) (w w' : W) (l : List (Handler κ S)) :
    h.answers e w l = h.answers e w' l :=
  List.map_congr_left fun handler _ => halone.answer_eq handler e w w'

/-- A handler that is called in turn meets the world that the others left. -/
theorem map_answer_deliveries (e : E) (w w' : W) (l : List (Handler κ S)) :
    (h.deliveries e w' l).map Delivery.answer = h.answers e w l := by
  induction l generalizing w' with
  | nil => rfl
  | cons handler l ih =>
    rw [deliveries, List.map_cons, ih, halone.answer_eq handler e w' w]
    rfl

theorem map_answer_calls (goOn : Bool) (e : E) (w : W) (l : List (Handler κ S)) :
    (h.calls goOn e w l).map Delivery.answer = Delivery.upToFailure goOn (h.answers e w l) := by
  rw [← halone.map_answer_deliveries e w w l, ← Delivery.map_answer_upToFailure]
  rfl

end ReactsAlone

/-! ## Handlers in turn -/

/-- The failures of the calls are those that the bus gets to know. -/
theorem filterMap_failure?_calls (h : Handling κ E S W) (goOn : Bool) (e : E) (w : W)
    (l : List (Handler κ S)) :
    (h.calls goOn e w l).filterMap (·.failure?) = Delivery.failures goOn (h.deliveries e w l) := by
  cases goOn with
  | true => rfl
  | false =>
    induction l generalizing w with
    | nil => rfl
    | cons handler l ih =>
      rw [deliveries]
      cases hfailure : (h.deliver handler e w).failure? with
      | none =>
        rw [calls_cons_of_go (.inr hfailure), List.filterMap_cons_none hfailure, ih,
          Delivery.failures_cons_of_none hfailure]
      | some error =>
        rw [calls_cons_of_stop hfailure, Delivery.failures_cons_of_some hfailure,
          List.filterMap_cons_some hfailure]
        rfl

end Handling

namespace Bus

/-- The bus with handlers that run as tasks, or in turn. -/
def inMode (b : Bus κ S) (concurrent : Bool) : Bus κ S :=
  { b with config := { b.config with concurrent } }

section InTurn

variable {h : Handling κ E S W} (halone : h.ReactsAlone) {b : Bus κ S}
  (hturn : b.config.concurrent = false) (schedule : List Nat) (e : E) (w : W)

include halone hturn

theorem publish_result_inTurn :
    (b.publish h schedule e w).result =
      report b.config.continueOnError
        (Delivery.failures b.config.continueOnError
          (h.answers e w (b.handlers (h.kind e)))) := by
  rw [publish_eq_of_calls h schedule e w hturn, ← halone.map_answer_deliveries e w w,
    Delivery.failures_map_answer, ← Handling.filterMap_failure?_calls]
  rfl

theorem publish_called_inTurn :
    (b.publish h schedule e w).called =
      Delivery.positionsRun 0
        (Delivery.upToFailure b.config.continueOnError
          (h.answers e w (b.handlers (h.kind e)))) := by
  rw [publish_eq_of_calls h schedule e w hturn, ← halone.map_answer_calls,
    Delivery.positionsRun_map_answer]

theorem publish_handlers_inTurn :
    (b.publish h schedule e w).bus.handlers (h.kind e) =
      let heard := Delivery.upToFailure b.config.continueOnError
        (h.answers e w (b.handlers (h.kind e)))
      heard.map (·.handler) ++ (b.handlers (h.kind e)).drop heard.length := by
  rw [publish_eq_of_calls h schedule e w hturn, setHandlers_handlers, if_pos rfl,
    ← halone.map_answer_calls]
  simp only [List.map_map, List.length_map]
  rfl

end InTurn

end Bus

/-! ## Handlers as tasks -/

namespace Handling

/-- Runs the tasks at the given positions, each unless it has run. -/
def runTasks (h : Handling κ E S W) (order : List Nat) (e : E) (w : W) (l : List (Handler κ S)) :
    TaskRun κ S W :=
  order.foldl (h.runTask e) ⟨l.map (⟨·, none⟩), [], w⟩

/-- A task before it runs, and once it has given its answer. -/
def task (handler : Handler κ S) (d : Delivery κ S Unit) (done : Prop) [Decidable done] :
    HandlerTask κ S :=
  if done then ⟨d.handler, some d.outcome⟩ else ⟨handler, none⟩

/-- The tasks at the given positions have run, and no others. Each of them called its handler once,
if the handler was written for the event. -/
structure HasRun (h : Handling κ E S W) (e : E) (w : W) (l : List (Handler κ S))
    (order : List Nat) (s : TaskRun κ S W) : Prop where
  tasks : ∀ i, s.tasks[i]? =
    (l[i]?).map fun handler => task handler (h.deliver handler e w).answer (i ∈ order)
  called : s.called =
    order.eraseDups.filter fun i => (l[i]?).any fun handler => handler.expects = h.kind e

section Tasks

variable {h : Handling κ E S W} {e : E} {w : W} {l : List (Handler κ S)} {order : List Nat}
  {s : TaskRun κ S W} {position : Nat}

theorem runTask_of_waiting {handler : Handler κ S}
    (htask : s.tasks[position]? = some ⟨handler, none⟩) :
    h.runTask e s position =
      let d := h.deliver handler e s.world
      ⟨s.tasks.set position ⟨d.handler, some d.outcome⟩,
        if d.ran then s.called ++ [position] else s.called, d.world⟩ := by
  simp only [runTask, htask]

/-- A task that runs again, or that there is not, leaves everything as it is. -/
theorem hasRun_concat_of_idle (hs : h.HasRun e w l order s)
    (hidle : position ∈ order ∨ l[position]? = none) :
    h.HasRun e w l (order ++ [position]) (h.runTask e s position) := by
  have htask := hs.tasks position
  have hsame : h.runTask e s position = s := by
    rcases hidle with hmem | hnone
    · cases hhandler : l[position]? <;> simp [runTask, htask, hhandler, task, hmem]
    · simp [runTask, htask, hnone]
  rw [hsame]
  refine ⟨fun i => ?_, ?_⟩
  · rw [hs.tasks i]
    by_cases hi : i = position
    · subst hi
      rcases hidle with hmem | hnone
      · simp [hmem]
      · simp [hnone]
    · simp [hi]
  · rw [hs.called, eraseDups_concat]
    rcases hidle with hmem | hnone
    · rw [if_pos hmem]
    · split
      · rfl
      · simp [hnone]

/-- A task that has not run calls its handler, in the world as it is by now. -/
theorem hasRun_concat_of_waiting (halone : h.ReactsAlone) (hs : h.HasRun e w l order s)
    (hnew : position ∉ order) {handler : Handler κ S} (hhandler : l[position]? = some handler) :
    h.HasRun e w l (order ++ [position]) (h.runTask e s position) := by
  have htask : s.tasks[position]? = some ⟨handler, none⟩ := by
    simp [hs.tasks position, hhandler, task, hnew]
  have hlt : position < s.tasks.length := (List.getElem?_eq_some_iff.mp htask).1
  have hanswer := halone.answer_eq handler e s.world w
  simp only [Delivery.answer, Delivery.mk.injEq] at hanswer
  obtain ⟨houtcome, hafter, -⟩ := hanswer
  rw [runTask_of_waiting htask]
  refine ⟨fun i => ?_, ?_⟩
  · by_cases hi : position = i
    · subst hi
      simp [List.getElem?_set_self hlt, hhandler, task, Delivery.answer, houtcome, hafter]
    · simp only [List.getElem?_set_ne hi, hs.tasks i]
      simp [Ne.symm hi]
  · rw [eraseDups_concat, if_neg hnew, List.filter_append, ← hs.called]
    by_cases hkind : handler.expects = h.kind e <;> simp [hkind, hhandler, ran_deliver]

theorem hasRun_concat (halone : h.ReactsAlone) (hs : h.HasRun e w l order s) (position : Nat) :
    h.HasRun e w l (order ++ [position]) (h.runTask e s position) := by
  by_cases hmem : position ∈ order
  · exact hasRun_concat_of_idle hs (.inl hmem)
  · cases hhandler : l[position]? with
    | none => exact hasRun_concat_of_idle hs (.inr hhandler)
    | some handler => exact hasRun_concat_of_waiting halone hs hmem hhandler

/-- Each task answers for itself, whichever tasks have run before it. -/
theorem hasRun_runTasks (halone : h.ReactsAlone) (order : List Nat) (e : E) (w : W)
    (l : List (Handler κ S)) : h.HasRun e w l order (h.runTasks order e w l) := by
  -- from the back: the last task finds what the others have left
  induction order using List.reverseRecOn with
  | nil => exact ⟨fun i => List.getElem?_map .., rfl⟩
  | append_singleton order position ih =>
    rw [runTasks, List.foldl_append]
    exact hasRun_concat halone ih position

/-- Tasks that have run hold the answers. -/
theorem HasRun.outcomes (hs : h.HasRun e w l order s) :
    List.Forall₂ (fun t d => ∀ outcome, t.outcome = some outcome → d.outcome = outcome)
      s.tasks (h.answers e w l) := by
  have htasks : s.tasks = l.zipIdx.map fun x =>
      task x.1 (h.deliver x.1 e w).answer (x.2 ∈ order) := by
    refine List.ext_getElem? fun i => ?_
    rw [hs.tasks i, List.getElem?_map, List.getElem?_zipIdx, Option.map_map]
    simp [Function.comp_def]
  have hanswers : h.answers e w l = l.zipIdx.map fun x => (h.deliver x.1 e w).answer := by
    rw [answers, ← List.zipIdx_map_fst 0 l, List.map_map, List.zipIdx_map_fst]
    rfl
  rw [htasks, hanswers, List.forall₂_map_left_iff, List.forall₂_map_right_iff]
  refine List.forall₂_same.mpr fun x _ outcome => ?_
  unfold task
  split
  · exact fun h => Option.some.inj h
  · exact nofun

/-- Once all tasks have run, they are there with their answers. -/
theorem HasRun.tasks_of_all (hs : h.HasRun e w l order s) (hall : ∀ i < l.length, i ∈ order) :
    s.tasks = (h.answers e w l).map fun d => ⟨d.handler, some d.outcome⟩ := by
  refine List.ext_getElem? fun i => ?_
  rw [hs.tasks i, answers, List.getElem?_map, List.getElem?_map, Option.map_map]
  cases hi : l[i]? with
  | none => rfl
  | some handler =>
    have hmem := hall i (List.getElem?_eq_some_iff.mp hi).1
    simp [task, hmem]

variable (halone : h.ReactsAlone) (schedule : List Nat) (goOn : Bool)

include halone

theorem errors_asTasks (e : E) (w : W) (l : List (Handler κ S)) :
    (h.asTasks schedule goOn e w l).errors = Delivery.failures goOn (h.answers e w l) := by
  have hs := hasRun_runTasks halone (schedule ++ List.range l.length) e w l
  have htasks := hs.tasks_of_all (by simp +contextual)
  -- of a task that has run, the bus collects what its handler failed with
  obtain ⟨failure, herrors, hfailure⟩ : ∃ failure : HandlerTask κ S → Option HandlerError,
      (h.asTasks schedule goOn e w l).errors =
        (fun errors => if goOn then errors else errors.take 1)
          ((h.runTasks (schedule ++ List.range l.length) e w l).tasks.filterMap failure) ∧
      ∀ d : Delivery κ S Unit, failure ⟨d.handler, some d.outcome⟩ = d.failure? := by
    refine ⟨_, rfl, fun d => ?_⟩
    cases houtcome : d.outcome <;> simp only [Delivery.failure?, houtcome]
  have hcollected : failure ∘ (fun d : Delivery κ S Unit => ⟨d.handler, some d.outcome⟩) =
      (·.failure?) := funext hfailure
  rw [herrors, htasks, List.filterMap_map, hcollected]
  rfl

theorem handlers_asTasks (e : E) (w : W) (l : List (Handler κ S)) :
    (h.asTasks schedule goOn e w l).handlers = (h.answers e w l).map (·.handler) := by
  have hs := hasRun_runTasks halone (schedule ++ List.range l.length) e w l
  have htasks := hs.tasks_of_all (by simp +contextual)
  have hhandlers : (h.asTasks schedule goOn e w l).handlers =
      (h.runTasks (schedule ++ List.range l.length) e w l).tasks.map (·.handler) := rfl
  rw [hhandlers, htasks, List.map_map]
  rfl

/-- Each handler that was written for the event is called once. -/
theorem called_asTasks (e : E) (w : W) (l : List (Handler κ S)) :
    (h.asTasks schedule goOn e w l).called.Nodup ∧
      ∀ i, i ∈ (h.asTasks schedule goOn e w l).called ↔
        ∃ handler, l[i]? = some handler ∧ handler.expects = h.kind e := by
  have hs := hasRun_runTasks halone (schedule ++ List.range l.length) e w l
  have hcalled : (h.asTasks schedule goOn e w l).called = _ := hs.called
  rw [hcalled]
  refine ⟨(nodup_eraseDups _).filter _, fun i => ?_⟩
  rw [List.mem_filter, List.mem_eraseDups, Option.any_eq_true]
  simp only [decide_eq_true_eq]
  refine and_iff_right_of_imp ?_
  rintro ⟨handler, hhandler, -⟩
  have hlt := (List.getElem?_eq_some_iff.mp hhandler).1
  exact List.mem_append_right _ (List.mem_range.mpr hlt)

end Tasks

end Handling

/-! ## Publications -/

namespace Bus

section Modes

variable {h : Handling κ E S W} (halone : h.ReactsAlone) {b : Bus κ S} (schedule : List Nat) (e : E)
  (w : W)

theorem publish_eq_asTasks (h : Handling κ E S W) (htasks : b.config.concurrent = true) :
    b.publish h schedule e w =
      let goOn := b.config.continueOnError
      let round := h.asTasks schedule goOn e w (b.handlers (h.kind e))
      ⟨report goOn round.errors, b.setHandlers (h.kind e) round.handlers, round.world,
        round.called⟩ := by
  simp only [publish, htasks, ↓reduceIte]
  rfl

include halone

/-- The result of a publication, in turn or as tasks. -/
theorem publish_result :
    (b.publish h schedule e w).result =
      report b.config.continueOnError
        (Delivery.failures b.config.continueOnError
          (h.answers e w (b.handlers (h.kind e)))) := by
  cases hmode : b.config.concurrent with
  | false => exact publish_result_inTurn halone hmode schedule e w
  | true => rw [publish_eq_asTasks schedule e w h hmode, ← Handling.errors_asTasks halone schedule]

theorem publish_handlers_asTasks (htasks : b.config.concurrent = true) :
    (b.publish h schedule e w).bus.handlers (h.kind e) =
      (h.answers e w (b.handlers (h.kind e))).map (·.handler) := by
  rw [publish_eq_asTasks schedule e w h htasks, setHandlers_handlers, if_pos rfl,
    Handling.handlers_asTasks halone]

theorem publish_called_asTasks (htasks : b.config.concurrent = true) :
    (b.publish h schedule e w).called.Nodup ∧
      ∀ i, i ∈ (b.publish h schedule e w).called ↔
        ∃ handler, (b.handlers (h.kind e))[i]? = some handler ∧ handler.expects = h.kind e := by
  rw [publish_eq_asTasks schedule e w h htasks]
  exact Handling.called_asTasks halone schedule b.config.continueOnError e w _

/-- A bus that goes on after failures hands an event to all handlers of the row, in turn or as
tasks. -/
theorem publish_of_goOn (hgo : b.config.continueOnError = true) :
    (b.publish h schedule e w).bus.handlers (h.kind e) =
        (h.answers e w (b.handlers (h.kind e))).map (·.handler) ∧
      (b.publish h schedule e w).called.Nodup ∧
        ∀ i, i ∈ (b.publish h schedule e w).called ↔
          ∃ handler, (b.handlers (h.kind e))[i]? = some handler ∧ handler.expects = h.kind e := by
  cases hmode : b.config.concurrent with
  | true =>
    exact ⟨publish_handlers_asTasks halone schedule e w hmode,
      publish_called_asTasks halone schedule e w hmode⟩
  | false =>
    rw [publish_handlers_inTurn halone hmode, publish_called_inTurn halone hmode, hgo]
    refine ⟨?_, Delivery.nodup_positionsRun _ _, fun i => ?_⟩
    · simp [Delivery.upToFailure, Handling.answers]
    · simp [Delivery.mem_positionsRun, Delivery.upToFailure, Handling.answers, Delivery.answer,
        Handling.ran_deliver]

end Modes

end Bus

/-! ## Uses of two buses -/

/-- The same use of a bus. The orders in which tasks run and the worlds that handlers meet need not
be the same. -/
inductive BusAction.Same : BusAction κ E S W → BusAction κ E S W → Prop where
  | subscribe (kind : κ) (handler : Handler κ S) :
    Same (.subscribe kind handler) (.subscribe kind handler)
  | unsubscribe (kind : κ) : Same (.unsubscribe kind) (.unsubscribe kind)
  | clear : Same .clear .clear
  | publish (schedule schedule' : List Nat) (e : E) (w w' : W) :
    Same (.publish schedule e w) (.publish schedule' e w')

/-- Publications that report the same, called the same handlers and left them alike. -/
structure Publication.Alike (p q : Publication κ S W) : Prop where
  result : p.result = q.result
  called : p.called.Perm q.called
  handlers : p.bus.handlers = q.bus.handlers

namespace Bus

/-- What came of the publications among the uses of a bus. -/
def publications (h : Handling κ E S W) (b : Bus κ S) :
    List (BusAction κ E S W) → List (Publication κ S W)
  | [] => []
  | a :: history =>
    let rest := publications h (b.act h a) history
    match a with
    | .publish schedule e w => b.publish h schedule e w :: rest
    | _ => rest

variable {h : Handling κ E S W} (halone : h.ReactsAlone) {b b' : Bus κ S}
  (hgo : b.config.continueOnError = true) (hgo' : b'.config.continueOnError = true)
  (hrows : b.handlers = b'.handlers)

include halone hgo hgo' hrows

theorem publish_alike (schedule schedule' : List Nat) (e : E) (w w' : W) :
    (b.publish h schedule e w).Alike (b'.publish h schedule' e w') := by
  obtain ⟨hhandlers, hnodup, hcalled⟩ := publish_of_goOn halone schedule e w hgo
  obtain ⟨hhandlers', hnodup', hcalled'⟩ := publish_of_goOn halone schedule' e w' hgo'
  refine ⟨?_, (List.perm_ext_iff_of_nodup hnodup hnodup').mpr fun i => ?_, funext fun kind => ?_⟩
  · rw [publish_result halone, publish_result halone, hgo, hgo', hrows, halone.answers_eq e w w']
  · rw [hcalled, hcalled', hrows]
  · by_cases hkind : kind = h.kind e
    · rw [hkind, hhandlers, hhandlers', hrows, halone.answers_eq e w w']
    · simp [publish, setHandlers_handlers, hkind, hrows]

theorem act_handlers_of_same {a a' : BusAction κ E S W} (hsame : a.Same a') :
    (b.act h a).handlers = (b'.act h a').handlers := by
  cases hsame with
  | subscribe kind handler => simp [act, subscribe, setHandlers, hrows]
  | unsubscribe kind => simp [act, unsubscribe, setHandlers, hrows]
  | clear => rfl
  | publish schedule schedule' e w w' =>
    exact (publish_alike halone hgo hgo' hrows schedule schedule' e w w').handlers

theorem publications_alike {history history' : List (BusAction κ E S W)}
    (hsame : List.Forall₂ BusAction.Same history history') :
    List.Forall₂ Publication.Alike (b.publications h history) (b'.publications h history') := by
  induction hsame generalizing b b' with
  | nil => exact .nil
  | @cons a a' history history' ha _ ih =>
    have hconfig := (congrArg BusConfig.continueOnError (act_config h b a)).trans hgo
    have hconfig' := (congrArg BusConfig.continueOnError (act_config h b' a')).trans hgo'
    have hrest := ih hconfig hconfig' (act_handlers_of_same halone hgo hgo' hrows ha)
    cases ha with
    | publish schedule schedule' e w w' =>
      exact .cons (publish_alike halone hgo hgo' hrows schedule schedule' e w w') hrest
    | subscribe | unsubscribe | clear => exact hrest

end Bus

/-- For handlers that react alone it makes no difference to what a bus reports whether they run as
tasks, in whatever order, or are called in turn: it is the failure of the first handler of the row
that fails, unless the bus goes on. The bus may report as soon as it has the outcomes that it waits
for, while other tasks have yet to run; it has them when all have run. Tasks call all handlers of
the row that were written for the event, each once; in turn, handlers are called up to the first
that fails, or all of them if the bus goes on. So if it goes on, the same uses have the same results
and call the same handlers. -/
theorem tasks_agree_with_turns (h : Handling κ E S W) (halone : h.ReactsAlone) (b : Bus κ S) :
    let goOn := b.config.continueOnError
    (∀ schedule schedule' e w w',
      let row := b.handlers (h.kind e)
      let answers := h.answers e w row
      let heard := Delivery.upToFailure goOn answers
      let p := (b.inMode true).publish h schedule e w
      let q := (b.inMode false).publish h schedule' e w'
      p.result = q.result ∧
      (∀ error, p.result = .error error ↔ goOn = false ∧
        ∃ failure, answers.findSome? (·.failure?) = some failure ∧
          error = .handlersFailed [failure]) ∧
      (∀ order, let read := Handling.awaited goOn (h.runTasks order e w row).tasks
        (∀ failures, read = some failures → Bus.report goOn failures = p.result) ∧
          ((∀ i < row.length, i ∈ order) → read.isSome)) ∧
      (p.called.Nodup ∧ ∀ i, i ∈ p.called ↔
        ∃ handler, row[i]? = some handler ∧ handler.expects = h.kind e) ∧
      p.bus.handlers (h.kind e) = answers.map (·.handler) ∧
      q.called = Delivery.positionsRun 0 heard ∧
      q.bus.handlers (h.kind e) = heard.map (·.handler) ++ row.drop heard.length) ∧
    (goOn = true → ∀ history history', List.Forall₂ BusAction.Same history history' →
      ((b.inMode true).publications h history).map (·.result) =
          ((b.inMode false).publications h history').map (·.result) ∧
        List.Forall₂ (fun p q => p.called.Perm q.called)
          ((b.inMode true).publications h history)
          ((b.inMode false).publications h history')) := by
  intro goOn
  refine ⟨fun schedule schedule' e w w' => ?_, fun hgo history history' hsame => ?_⟩
  · intro row answers heard p q
    have hanswers : h.answers e w' row = answers := halone.answers_eq e w' w row
    have hp : p.result = Bus.report goOn (Delivery.failures goOn answers) :=
      Bus.publish_result halone schedule e w
    have hq : q.result = Bus.report goOn (Delivery.failures goOn (h.answers e w' row)) :=
      Bus.publish_result halone schedule' e w'
    have hcalled : q.called =
        Delivery.positionsRun 0 (Delivery.upToFailure goOn (h.answers e w' row)) :=
      Bus.publish_called_inTurn halone rfl schedule' e w'
    have hhandlers : q.bus.handlers (h.kind e) =
        let heard := Delivery.upToFailure goOn (h.answers e w' row)
        heard.map (·.handler) ++ row.drop heard.length :=
      Bus.publish_handlers_inTurn halone rfl schedule' e w'
    rw [hanswers] at hq hcalled hhandlers
    refine ⟨hp.trans hq.symm, fun error => ?_,
      fun order => ⟨fun failures hread => ?_, fun hall => ?_⟩,
      Bus.publish_called_asTasks halone schedule e w rfl,
      Bus.publish_handlers_asTasks halone schedule e w rfl, hcalled, hhandlers⟩
    · rw [hp]
      exact Bus.report_failures_eq_error_iff goOn answers error
    · have hrun := Handling.hasRun_runTasks halone order e w row
      rw [hp, Handling.awaited_of_outcomes hrun.outcomes hread]
    · have hrun := Handling.hasRun_runTasks halone order e w row
      rw [hrun.tasks_of_all hall, Handling.awaited_finished]
      rfl
  · have hgoTasks : (b.inMode true).config.continueOnError = true := hgo
    have hgoTurns : (b.inMode false).config.continueOnError = true := hgo
    have halike := Bus.publications_alike halone hgoTasks hgoTurns rfl hsame
    refine ⟨?_, halike.imp fun p q hpq => hpq.called⟩
    rw [← List.forall₂_eq_eq_eq, List.forall₂_map_left_iff, List.forall₂_map_right_iff]
    exact halike.imp fun p q hpq => hpq.result

/-- Of three handlers the first fails twice, the second was written for another kind of event, and
the third fails once. -/
def countdownBus (goOn : Bool) : Bus Bool Nat :=
  (Bus.empty ⟨true, goOn⟩).setHandlers true [⟨true, 2⟩, ⟨false, 0⟩, ⟨true, 1⟩]

/-- The third handler runs first, and the bus reports the first all the same. If it goes on, it
reports nothing. -/
theorem countdown_as_tasks :
    countdown.ReactsAlone ∧
    (let p := ((countdownBus false).inMode true).publish countdown [2, 0] true 7
      let q := ((countdownBus false).inMode false).publish countdown [] true 0
      p.result = .error (.handlersFailed [.handlerFailed "not yet"]) ∧ q.result = p.result ∧
        2 ∈ p.called ∧ q.called = [0]) ∧
    (let uses (schedule : List Nat) (w : Nat) : List (BusAction Bool Bool Nat Nat) :=
        [.publish schedule true w, .subscribe true ⟨true, 1⟩, .publish schedule true w]
      let ps := ((countdownBus true).inMode true).publications countdown (uses [2, 0] 7)
      let qs := ((countdownBus true).inMode false).publications countdown (uses [] 0)
      ps.map (·.result) = [.ok (), .ok ()] ∧ qs.map (·.called) = [[0, 2], [0, 2, 3]] ∧
        List.Forall₂ (fun p q => p.called.Perm q.called) ps qs) := by
  have halone : countdown.ReactsAlone := fun _ _ _ _ => ⟨rfl, rfl⟩
  refine ⟨halone, ?_, ?_⟩
  · obtain ⟨hresult, herror, -, ⟨-, hcalled⟩, -, hturn, -⟩ :=
      (tasks_agree_with_turns countdown halone (countdownBus false)).1 [2, 0] [] true 7 0
    exact ⟨(herror _).mpr ⟨rfl, _, rfl, rfl⟩, hresult.symm, (hcalled 2).mpr ⟨_, rfl, rfl⟩, hturn⟩
  · intro uses ps qs
    obtain ⟨hresults, hcalls⟩ :=
      (tasks_agree_with_turns countdown halone (countdownBus true)).2 rfl (uses [2, 0] 7)
        (uses [] 0) (.cons (.publish ..) (.cons (.subscribe ..) (.cons (.publish ..) .nil)))
    exact ⟨hresults, rfl, hcalls⟩

end EventStore
