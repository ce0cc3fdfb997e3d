/-
  STEP ENGINES — what an engine is for that runs workflows step by step, with workers that claim a step
  for a time, over any identifiers, workflows, workers, steps, tokens, times and payloads.

  1. An execution is in one `Phase`: the worker, the token and the expiry of a claim are one value, so
     there is no claim without a token, and nothing that has ended is claimed.
  2. Heartbeats are kept beside the executions, in places of their own: keeping a claim alive writes its
     heartbeat and does not move its expiry.
  3. `object` has one rule for each request.  Which executions a claim takes is left open: any that are
     asked for and free, each once, up to the limit.

  What differs from engine to engine are the `Rules`: the tokens of claims, the places of heartbeats,
  what is left of an expiry that has been stored, and what the counter of claims shows.
-/
import Mathlib.Logic.Function.Basic
import StateSpec.Lib.Refinement

namespace StateSpec.StepEngine

variable {Id Workflow Worker Step Token Time Payload Place : Type}

/-! ## Executions -/

/-- How an execution stands. -/
inductive Phase (Worker Token Time : Type) where
  | waiting
  | claimed (worker : Worker) (token : Token) (expiry : Time)
  | completed
  | failed
  | canceled

/-- The token of the claim, if there is one. -/
def Phase.token : Phase Worker Token Time → Option Token
  | .claimed _ token _ => some token
  | _ => none

/-- The step can be claimed: it waits, or the claim on it has run out. -/
def Phase.Free [LE Time] (now : Time) : Phase Worker Token Time → Prop
  | .waiting => True
  | .claimed _ _ expiry => expiry ≤ now
  | .completed | .failed | .canceled => False

structure Execution (Workflow Worker Step Token Time Payload : Type) where
  workflow : Workflow
  step : Step
  payload : Payload
  claims : Nat := 0
  phase : Phase Worker Token Time := .waiting

/-- The claim is by this worker on this step, under this token. -/
def Execution.HeldBy (execution : Execution Workflow Worker Step Token Time Payload) (worker : Worker)
    (step : Step) (token : Token) : Prop :=
  execution.step = step ∧ ∃ expiry, execution.phase = .claimed worker token expiry

structure Heartbeat (Id Worker Step Token Time : Type) where
  id : Id
  token : Token
  worker : Worker
  step : Step
  expiry : Time

/-- What differs from engine to engine. -/
structure Rules (Id Worker Token Time Place : Type) where
  /-- The token of a claim: the execution, the worker and what the counter shows. -/
  token : Id → Worker → Nat → Token
  /-- Where the heartbeat of a claim is kept. -/
  place : Id → Token → Place
  /-- What is left of an expiry that has been stored. -/
  stored : Time → Time
  /-- What the counter shows after so many claims. -/
  shown : Nat → Nat

/-- The token of the next claim. -/
def Execution.nextToken (rules : Rules Id Worker Token Time Place) (id : Id) (worker : Worker)
    (execution : Execution Workflow Worker Step Token Time Payload) : Token :=
  rules.token id worker (rules.shown (execution.claims + 1))

/-- The execution, claimed once more. -/
def Execution.claim (rules : Rules Id Worker Token Time Place) (id : Id) (worker : Worker) (expiry : Time)
    (execution : Execution Workflow Worker Step Token Time Payload) :
    Execution Workflow Worker Step Token Time Payload :=
  { execution with
    claims := execution.claims + 1
    phase := .claimed worker (execution.nextToken rules id worker) expiry }

/-- The execution after its step: at the next one, or at its end. -/
def Execution.complete (next : Option Step) (payload : Payload)
    (execution : Execution Workflow Worker Step Token Time Payload) :
    Execution Workflow Worker Step Token Time Payload :=
  match next with
  | some step => { execution with step, payload, phase := .waiting }
  | none => { execution with payload, phase := .completed }

/-- The execution after its step has failed: it is tried again, or it has been tried often enough. -/
def Execution.fail (rules : Rules Id Worker Token Time Place) (limit : Nat)
    (execution : Execution Workflow Worker Step Token Time Payload) :
    Execution Workflow Worker Step Token Time Payload :=
  { execution with phase := if limit ≤ rules.shown execution.claims then .failed else .waiting }

def Execution.cancel (execution : Execution Workflow Worker Step Token Time Payload) :
    Execution Workflow Worker Step Token Time Payload :=
  { execution with phase := .canceled }

/-- The execution as it is shown to the worker that keeps its claim alive. -/
def Execution.prolonged (worker : Worker) (token : Token) (expiry : Time)
    (execution : Execution Workflow Worker Step Token Time Payload) :
    Execution Workflow Worker Step Token Time Payload :=
  { execution with phase := .claimed worker token expiry }

/-- The heartbeat of the next claim. -/
def Execution.heartbeat (rules : Rules Id Worker Token Time Place) (id : Id) (worker : Worker)
    (expiry : Time) (execution : Execution Workflow Worker Step Token Time Payload) :
    Heartbeat Id Worker Step Token Time where
  id := id
  token := execution.nextToken rules id worker
  worker := worker
  step := execution.step
  expiry := expiry

/-! ## States -/

structure State (Id Workflow Worker Step Token Time Payload Place : Type) where
  executions : Id → Option (Execution Workflow Worker Step Token Time Payload)
  heartbeats : Place → Option (Heartbeat Id Worker Step Token Time)

/-- Nothing has been started. -/
def State.empty : State Id Workflow Worker Step Token Time Payload Place where
  executions _ := none
  heartbeats _ := none

variable [DecidableEq Id] [DecidableEq Place]

/-- The execution is put. -/
def State.put (s : State Id Workflow Worker Step Token Time Payload Place) (id : Id)
    (execution : Execution Workflow Worker Step Token Time Payload) :
    State Id Workflow Worker Step Token Time Payload Place :=
  { s with executions := Function.update s.executions id (some execution) }

/-- A heartbeat is written. -/
def State.beat (rules : Rules Id Worker Token Time Place)
    (s : State Id Workflow Worker Step Token Time Payload Place)
    (heartbeat : Heartbeat Id Worker Step Token Time) :
    State Id Workflow Worker Step Token Time Payload Place :=
  { s with heartbeats :=
      Function.update s.heartbeats (rules.place heartbeat.id heartbeat.token) (some heartbeat) }

/-- The heartbeat of a claim is erased, if there is a claim. -/
def State.quiet (rules : Rules Id Worker Token Time Place)
    (s : State Id Workflow Worker Step Token Time Payload Place) (id : Id) :
    Option Token → State Id Workflow Worker Step Token Time Payload Place
  | some token => { s with heartbeats := Function.update s.heartbeats (rules.place id token) none }
  | none => s

/-- An execution is claimed, and its heartbeat written. -/
def State.claim (rules : Rules Id Worker Token Time Place) (worker : Worker) (expiry : Time)
    (s : State Id Workflow Worker Step Token Time Payload Place)
    (p : Id × Execution Workflow Worker Step Token Time Payload) :
    State Id Workflow Worker Step Token Time Payload Place :=
  (s.put p.1 (p.2.claim rules p.1 worker (rules.stored expiry))).beat rules
    (p.2.heartbeat rules p.1 worker expiry)

/-! ## The engine -/

inductive Request (Id Workflow Worker Step Token Time Payload : Type) where
  | start (id : Id) (workflow : Workflow) (step : Step) (payload : Payload)
  | claim (only : Option Id) (workflow : Workflow) (worker : Worker) (now expiry : Time) (limit : Nat)
  | keepAlive (id : Id) (worker : Worker) (step : Step) (token : Token) (expiry : Time)
  | complete (id : Id) (worker : Worker) (step : Step) (token : Token) (next : Option Step)
      (payload : Payload)
  | fail (id : Id) (worker : Worker) (step : Step) (token : Token) (limit : Nat)
  | cancel (id : Id)
  | inspect (id : Id)

inductive Answer (Id Workflow Worker Step Token Time Payload : Type) where
  | execution (id : Id) (execution : Execution Workflow Worker Step Token Time Payload)
  | claimed (executions : List (Id × Execution Workflow Worker Step Token Time Payload))
  | inspected (execution : Option (Id × Execution Workflow Worker Step Token Time Payload))

/-- **The engine.** -/
inductive object [LE Time] (rules : Rules Id Worker Token Time Place) :
    Object (State Id Workflow Worker Step Token Time Payload Place)
      (Request Id Workflow Worker Step Token Time Payload)
      (Answer Id Workflow Worker Step Token Time Payload) where
  | start {s : State Id Workflow Worker Step Token Time Payload Place} {id : Id} {workflow : Workflow}
      {step : Step} {payload : Payload} : s.executions id = none →
      object rules s (.start id workflow step payload) (.execution id { workflow, step, payload })
        (s.put id { workflow, step, payload })
  | startAgain {s : State Id Workflow Worker Step Token Time Payload Place} {id : Id}
      {workflow : Workflow} {step : Step} {payload : Payload}
      {execution : Execution Workflow Worker Step Token Time Payload} :
      s.executions id = some execution →
      object rules s (.start id workflow step payload) (.execution id execution) s
  | claim {s : State Id Workflow Worker Step Token Time Payload Place} {only : Option Id}
      {workflow : Workflow} {worker : Worker} {now expiry : Time} {limit : Nat}
      {taken : List (Id × Execution Workflow Worker Step Token Time Payload)} :
      (taken.map Prod.fst).Nodup → taken.length ≤ limit →
      (∀ p ∈ taken, s.executions p.1 = some p.2 ∧ (∀ id ∈ only, p.1 = id) ∧ p.2.workflow = workflow ∧
        p.2.phase.Free now) →
      object rules s (.claim only workflow worker now expiry limit)
        (.claimed (taken.map fun p => (p.1, p.2.claim rules p.1 worker expiry)))
        (taken.foldl (State.claim rules worker expiry) s)
  | keepAlive {s : State Id Workflow Worker Step Token Time Payload Place} {id : Id} {worker : Worker}
      {step : Step} {token : Token} {expiry : Time}
      {execution : Execution Workflow Worker Step Token Time Payload} :
      s.executions id = some execution → execution.HeldBy worker step token →
      object rules s (.keepAlive id worker step token expiry)
        (.execution id (execution.prolonged worker token expiry))
        (s.beat rules { id, token, worker, step, expiry })
  | complete {s : State Id Workflow Worker Step Token Time Payload Place} {id : Id} {worker : Worker}
      {step : Step} {token : Token} {next : Option Step} {payload : Payload}
      {execution : Execution Workflow Worker Step Token Time Payload} :
      s.executions id = some execution → execution.HeldBy worker step token →
      object rules s (.complete id worker step token next payload)
        (.execution id (execution.complete next payload))
        ((s.put id (execution.complete next payload)).quiet rules id (some token))
  | fail {s : State Id Workflow Worker Step Token Time Payload Place} {id : Id} {worker : Worker}
      {step : Step} {token : Token} {limit : Nat}
      {execution : Execution Workflow Worker Step Token Time Payload} :
      s.executions id = some execution → execution.HeldBy worker step token →
      object rules s (.fail id worker step token limit) (.execution id (execution.fail rules limit))
        ((s.put id (execution.fail rules limit)).quiet rules id (some token))
  | cancel {s : State Id Workflow Worker Step Token Time Payload Place} {id : Id}
      {execution : Execution Workflow Worker Step Token Time Payload} :
      s.executions id = some execution →
      object rules s (.cancel id) (.execution id execution.cancel)
        ((s.put id execution.cancel).quiet rules id execution.phase.token)
  | inspect {s : State Id Workflow Worker Step Token Time Payload Place} {id : Id} :
      object rules s (.inspect id)
        (.inspected ((s.executions id).map fun execution => (id, execution))) s

end StateSpec.StepEngine
