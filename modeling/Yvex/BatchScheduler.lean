import Yvex.ProgressScheduler

/-!
# The batch scheduler

A caller submits a ticket and waits until it is done. One worker takes the first
queued ticket together with the later ones that may enter the same physical
operation, executes them without the lock, and then marks them done.

Each critical section is one event. A ticket is named by its address; the caller
owns its storage, and the scheduler only points to it.
-/

set_option autoImplicit false

namespace Yvex.BatchScheduler

open AttentionData CheckedArithmetic
open ProgressScheduler (schedulerRefuse)

inductive ExecutionPhase where
  | prefill
  | decode
  | draft
  | verify
  | correction
  | reset
  | mixed
  deriving DecidableEq, Repr

inductive CompatibilityOperation where
  | moe
  | transformerStep
  | outputHead
  deriving DecidableEq, Repr

structure CompatibilityKey where
  schemaVersion : ℕ
  phase : ExecutionPhase
  operation : CompatibilityOperation
  backendKind : ℕ
  tensorScope : ℕ
  executionClass : ℕ
  engineGeneration : ℕ
  layerOrdinal : ℕ
  rowWidth : ℕ
  admittedWidth : ℕ
  deriving DecidableEq, Repr

def compatibilityKeyValidate (key : CompatibilityKey) : Bool :=
  key.schemaVersion == 2 && key.engineGeneration != 0 && key.rowWidth != 0 &&
    key.admittedWidth != 0 && decide (key.admittedWidth < 64)

def compatibilityKeysMatch (left right : CompatibilityKey) : Bool :=
  compatibilityKeyValidate left && compatibilityKeyValidate right &&
    left.phase == right.phase && left.operation == right.operation &&
    left.backendKind == right.backendKind && left.tensorScope == right.tensorScope &&
    left.executionClass == right.executionClass &&
    left.engineGeneration == right.engineGeneration &&
    left.layerOrdinal == right.layerOrdinal && left.rowWidth == right.rowWidth &&
    left.admittedWidth == right.admittedWidth

structure Submission where
  key : CompatibilityKey
  rowCount : ℕ
  executable : Bool

structure Ticket extends Submission where
  actualWidth : ℕ
  groupSize : ℕ
  done : Bool
  status : Option Status
  failure : Option Refusal

abbrev Tickets := ℕ → Ticket

structure Scheduler where
  tickets : Tickets
  queue : List ℕ
  queueCapacity : ℕ
  producerCount : ℕ
  producerArrivalFloor : ℕ
  stopping : Bool

def compatibleFrom (tickets : Tickets) (first : CompatibilityKey) : ℕ → List ℕ → ℕ
  | _, [] => 0
  | rows, candidate :: rest =>
    if !compatibilityKeysMatch first (tickets candidate).key ||
        decide (first.admittedWidth - rows < (tickets candidate).rowCount) then
      compatibleFrom tickets first rows rest
    else compatibleFrom tickets first (rows + (tickets candidate).rowCount) rest + 1

def schedulerCompatibleCount (s : Scheduler) : ℕ :=
  match s.queue with
  | [] => 0
  | first :: _ => compatibleFrom s.tickets (s.tickets first).key 0 s.queue

def schedulerPossibleCompatibleCount (s : Scheduler) (expected : ℕ) : ℕ :=
  let compatible := schedulerCompatibleCount s
  let potentialProducers := if expected < s.producerCount then s.producerCount else expected
  let available :=
    if s.queue.length < potentialProducers then potentialProducers - s.queue.length else 0
  if wordLimit - 1 - available < compatible then wordLimit - 1 else compatible + available

def coalescingWaits (s : Scheduler) (expected : ℕ) : Bool :=
  !s.stopping && decide (schedulerCompatibleCount s < expected) &&
    decide (expected ≤ schedulerPossibleCompatibleCount s expected)

def schedulerCoalesce (s : Scheduler) (clockReady : Bool) : Scheduler × Option ℕ :=
  if s.queue.isEmpty || s.stopping then (s, none)
  else
    let expected :=
      if s.producerArrivalFloor < s.producerCount then s.producerCount else s.producerArrivalFloor
    if expected < 2 ∨ expected ≤ schedulerCompatibleCount s ∨
        schedulerPossibleCompatibleCount s expected < expected then
      ({ s with producerArrivalFloor := 0 }, none)
    else if !clockReady then ({ s with producerArrivalFloor := 0 }, none)
    else (s, some expected)

def completeCancelled (tickets : Tickets) (id : ℕ) : Tickets :=
  Function.update tickets id { tickets id with
    done := true
    status := some .cancelled
    failure := some (schedulerRefuse .cancelled
      "compatible execution was cancelled before dispatch") }

def dropCancelled (answers : ℕ → Bool) : Tickets → List ℕ → Tickets × List ℕ
  -- The cancelled tickets at the head of the queue leave it. Each ticket is asked once.
  | tickets, [] => (tickets, [])
  | tickets, id :: rest =>
    if answers id then dropCancelled answers (completeCancelled tickets id) rest
    else (tickets, id :: rest)

structure Gathered where
  tickets : Tickets
  rows : ℕ
  selected : List ℕ
  kept : List ℕ

def gather (answers : ℕ → Bool) (first : CompatibilityKey) : Tickets → ℕ → List ℕ → Gathered
  | tickets, rows, [] => ⟨tickets, rows, [], []⟩
  | tickets, rows, candidate :: rest =>
    if answers candidate then gather answers first (completeCancelled tickets candidate) rows rest
    else if compatibilityKeysMatch first (tickets candidate).key &&
        decide ((tickets candidate).rowCount ≤ first.admittedWidth - rows) then
      let gathered := gather answers first tickets (rows + (tickets candidate).rowCount) rest
      { gathered with selected := candidate :: gathered.selected }
    else
      let gathered := gather answers first tickets rows rest
      { gathered with kept := candidate :: gathered.kept }

def schedulerSelect (s : Scheduler) (answers : ℕ → Bool) : Scheduler × List ℕ :=
  match dropCancelled answers s.tickets s.queue with
  | (tickets, []) => ({ s with tickets := tickets, queue := [] }, [])
  | (tickets, first :: rest) =>
    let gathered := gather answers (tickets first).key tickets (tickets first).rowCount rest
    let selected := first :: gathered.selected
    ({ s with
        tickets := fun id =>
          if id ∈ selected then { gathered.tickets id with
            actualWidth := gathered.rows
            groupSize := selected.length }
          else gathered.tickets id
        queue := gathered.kept }, selected)

def schedulerFinish (s : Scheduler) (selected : List ℕ) (status : Option Status)
    (failure : Option Refusal) : Scheduler :=
  { s with tickets := fun id =>
      if id ∈ selected then { s.tickets id with
        done := true
        status := status
        failure := if status = none then (s.tickets id).failure else failure }
      else s.tickets id }

def executionFailure (status : Option Status) (failure : Option Refusal) : Option Refusal :=
  match status, failure with
  | some status, none => some (schedulerRefuse status "compatible physical execution failed")
  | _, failure => failure

def workerLost (s : Scheduler) : Scheduler :=
  -- The worker's allocation failed: every queued ticket is completed as cancelled.
  { s with
    stopping := true
    tickets := s.queue.foldl completeCancelled s.tickets
    queue := [] }

def schedulerSubmit (s : Scheduler) (id : ℕ) (work : Submission) : Except Refusal Scheduler :=
  if !work.executable || work.rowCount == 0 || !compatibilityKeyValidate work.key ||
      decide (work.key.admittedWidth < work.rowCount) then
    .error (schedulerRefuse .invalidArg "one admitted executable work item is required")
  else if s.queue.length = s.queueCapacity then
    .error (schedulerRefuse .bounds "engine scheduler queue is full")
  else if s.stopping then
    .error (schedulerRefuse .state "engine scheduler is stopping")
  else .ok { s with
    tickets := Function.update s.tickets id ⟨work, 0, 0, false, none, none⟩
    queue := s.queue ++ [id] }

def submitResult (ticket : Ticket) : Option Status × Option Refusal :=
  let stopped := schedulerRefuse .state "scheduled work stopped before completion"
  if ticket.done then
    match ticket.status with
    | none => (none, none)
    | some status => (some status, some (ticket.failure.getD stopped))
  else (some .state, some stopped)

def schedulerSetProducers (s : Scheduler) (producers : ℕ) : Except Refusal Scheduler :=
  if s.queueCapacity < producers then
    .error (schedulerRefuse .invalidArg "bounded producer population is required")
  else .ok { s with
    producerCount := producers
    producerArrivalFloor :=
      if s.producerCount = 0 ∧ producers = 1 ∧ 2 ≤ s.queueCapacity then 2
      else if producers = 0 then 0
      else s.producerArrivalFloor }

inductive Worker where
  | absent
  | starting
  | idle
  | coalescing (expected : ℕ)
  | executing (selected : List ℕ)
  | exited

def Worker.batch : Worker → List ℕ
  | .executing selected => selected
  | _ => []

structure World where
  scheduler : Scheduler
  worker : Worker
  calls : List ℕ
  closing : Bool
  closed : Bool

inductive Event where
  | start (created : Bool)
  | allocate (allocated : Bool)
  | setProducers (producers : ℕ)
  | submit (id : ℕ) (work : Submission)
  | wake (id : ℕ)
  | serve (clockReady : Bool) (answers : ℕ → Bool)
  | coalesced (timedOut : Bool) (answers : ℕ → Bool)
  | finish (status : Option Status) (failure : Option Refusal)
  | close
  | closeFinish

abbrev Return := ℕ × Option Status × Option Refusal

def World.start (queueCapacity : ℕ) (tickets : Tickets) : World :=
  ⟨⟨tickets, [], queueCapacity, 0, 0, false⟩, .absent, [], false, false⟩

def World.select (world : World) (s : Scheduler) (answers : ℕ → Bool) : World :=
  let selection := schedulerSelect s answers
  { world with
    scheduler := selection.1
    worker := if selection.2.isEmpty then .idle else .executing selection.2 }

def World.serve (world : World) (clockReady : Bool) (answers : ℕ → Bool) : World :=
  if world.scheduler.queue.isEmpty && !world.scheduler.stopping then world
  else if world.scheduler.stopping && world.scheduler.queue.isEmpty then
    { world with worker := .exited }
  else match schedulerCoalesce world.scheduler clockReady with
  | (s, some expected) => { world with scheduler := s, worker := .coalescing expected }
  | (s, none) => world.select s answers

def World.coalesced (world : World) (expected : ℕ) (timedOut : Bool) (answers : ℕ → Bool) :
    World :=
  if coalescingWaits world.scheduler expected && !timedOut then world
  else world.select { world.scheduler with producerArrivalFloor := 0 } answers

def World.submit (world : World) (id : ℕ) (work : Submission) : World × Option Return :=
  match schedulerSubmit world.scheduler id work with
  | .error refusal => (world, some (id, some refusal.status, some refusal))
  | .ok s => ({ world with scheduler := s, calls := id :: world.calls }, none)

def World.wake (world : World) (id : ℕ) : World × Option Return :=
  if !(world.scheduler.tickets id).done && !world.scheduler.stopping then (world, none)
  else ({ world with calls := world.calls.erase id },
    some (id, submitResult (world.scheduler.tickets id)))

def World.act (world : World) : Event → World × Option Return
  | .start created => match world.worker with
    | .absent =>
      if world.scheduler.stopping || !created then (world, none)
      else ({ world with worker := .starting }, none)
    | _ => (world, none)
  | .allocate allocated => match world.worker with
    | .starting =>
      if allocated then ({ world with worker := .idle }, none)
      else ({ world with scheduler := workerLost world.scheduler, worker := .exited }, none)
    | _ => (world, none)
  | .setProducers producers => match schedulerSetProducers world.scheduler producers with
    | .error _ => (world, none)
    | .ok s => ({ world with scheduler := s }, none)
  | .submit id work => if id ∈ world.calls then (world, none) else world.submit id work
  | .wake id => if id ∈ world.calls then world.wake id else (world, none)
  | .serve clockReady answers => match world.worker with
    | .idle => (world.serve clockReady answers, none)
    | _ => (world, none)
  | .coalesced timedOut answers => match world.worker with
    | .coalescing expected => (world.coalesced expected timedOut answers, none)
    | _ => (world, none)
  | .finish status failure => match world.worker with
    | .executing selected => ({ world with
        scheduler := schedulerFinish world.scheduler selected status
          (executionFailure status failure)
        worker := .idle }, none)
    | _ => (world, none)
  | .close =>
    ({ world with scheduler := { world.scheduler with stopping := true }, closing := true }, none)
  | .closeFinish => match world.worker with
    | .absent => ({ world with closed := world.closing }, none)
    | .exited => ({ world with closed := world.closing }, none)
    | _ => (world, none)

def World.step (world : World) (event : Event) : World :=
  if world.closed then world else (world.act event).1

def World.returns (world : World) (event : Event) : Option Return :=
  if world.closed then none else (world.act event).2

end Yvex.BatchScheduler
