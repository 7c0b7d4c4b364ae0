import LiveTemplate.Scenario.AppSteps
import LiveTemplate.Scenario.ViewSteps

/-!
# Running Scenarios

A scenario runs in a world whose client is a session. Steps are performed one after
the other, and what a callback does is described by its script, so the host that
answers callbacks is made from the performance of steps itself.

Each call that performs steps uses up one of the callback's performances, so calls
inside calls go no deeper than the weight of the scenario.

## Main definitions

* `Step.perform`: What a step does and answers.
* `performAll`: The steps of a callback.
* `behaviour`: What callbacks do.
* `run?`: What the steps of a scenario answer.
-/

namespace LiveTemplate

namespace Scenario

open Act

/-- Performs a step. -/
def Step.perform (host : Host CallbackId Session) (c : Context) : Step → Act Reply
  | .data step => step.perform host c
  | .registry step => step.perform host c
  | .view step => step.perform
  | .event step => step.perform host c
  | .app step => step.perform host
  | .probe script => do
    let k ← callback script
    let s ← apply (·.addSubscriber (.probe k))
    session fun state =>
      { state with subscribers := Table.insert script.name s state.subscribers }
    return .done
  | .watch object path script => do
    let o ← Act.object c object
    let k ← callback script
    let watched ← apply (World.watch · o path (.call k))
    let s ← orFail .binding watched
    session fun state =>
      { state with
        watchers := Table.insert script.name s state.watchers
        subscribers := Table.insert script.name s state.subscribers }
    return .done
  | .listen ref kind script => do
    let n ← node ref
    let k ← callback script
    change (·.listen n kind (.callback k))
    return .done
  | .compile object ref scripts markers => do
    let o ← Act.object c object
    let n ← node ref
    let template : Template CallbackId := ⟨o, Table.ofList (← callbacks scripts), markers⟩
    orFail .compile (← Act.lift (template.compile host.patience n).run)
    return .done
  | .methods scripts name => do
    let table := Table.ofList (← callbacks scripts)
    return .methods (Table.keys table) (Table.find? name table).isSome (describeMethods table)
  | .build plain markup mount early whole late markers =>
    buildApp host plain markup mount early whole late markers
  | .unknown name => throw (.unknownStep name)

/-- What a step does to the context before it is performed. -/
def Step.context (c : Context) : Step → Context
  | .event step => c.after step
  | _ => c

/-- Performs a step, answering a problem if it fails. -/
def Step.answer (host : Host CallbackId Session) (c : Context) (step : Step) :
    Run CallbackId Session Reply := do
  match ← (step.perform host c).run with
  | .ok reply => pure reply
  | .error problem => pure (.failed problem)

/-- Adds an entry to the log. -/
def record (entry : LogEntry) : Run CallbackId Session Unit :=
  Run.change fun w => { w with client := { w.client with log := entry :: w.client.log } }

/-- Performs the steps of a callback, logging what each answers: the context afterwards. -/
def performAll (host : Host CallbackId Session) (name : String) :
    Context → List Step → Run CallbackId Session Context
  | c, [] => pure c
  | c, step :: steps => do
    let c := step.context c
    let reply ← step.answer host c
    record (.performed name reply)
    performAll host name c steps

/-- What a callback is shown. -/
def shownOf : Signal → Run CallbackId Session String
  | .changed value => Run.display value
  | .reached e => do
    let w ← get
    pure ((e.current.map fun n => (w.node n).kind.tag).getD "")
  | _ => pure ""

/-- What the steps of a callback can see. -/
def contextOf : Signal → Context
  | .reached e => { event := some e }
  | .invoked data _ => { data := some data }
  | _ => {}

/-- What callbacks do: they log what they are shown, and perform their steps as long as
    they may. -/
def behaviour : Behaviour CallbackId Session := fun host k signal => do
  match (← get).client.callbacks.get? k.index with
  | none => pure {}
  | some callback =>
    let script := callback.script
    let shown ← shownOf signal
    record (.called script.name shown)
    if 0 < callback.left ∧ script.condition.all (· == shown) then
      Run.change fun w =>
        { w with
          client :=
            { w.client with
              callbacks := w.client.callbacks.update k.index fun callback =>
                { callback with left := callback.left - 1 } } }
      let c ← performAll host script.name (contextOf signal) script.steps
      pure ((c.event.map (·.flags)).getD {})
    else pure {}

/-- Performs steps one after the other: what each answers, and the log of each. -/
def perform (host : Host CallbackId Session) :
    List Step → Run CallbackId Session (List (Reply × List LogEntry))
  | [] => pure []
  | step :: steps => do
    let reply ← step.answer host {}
    let log := (← get).client.log.reverse
    Run.change fun w => { w with client := { w.client with log := [] } }
    return (reply, log) :: (← perform host steps)

/-- How many nodes an event may reach in a scenario, and how deep a template may be. -/
def patience : Nat := 100000

/-- What the steps of a scenario answer, if each comes to an end. -/
def run? (tracing : Bool) (steps : List Step) : Option (List (Reply × List LogEntry)) :=
  let host := behaviour.host patience (stepsWeight steps + 2)
  let start : Stage := { client := { tracing } }
  ((perform host steps).run start).map (·.1)

end Scenario

end LiveTemplate
