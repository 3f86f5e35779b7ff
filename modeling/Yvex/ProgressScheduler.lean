import Yvex.Runs
import Yvex.SlotTable
import Yvex.StateRecipe
import Yvex.WordCounter

/-!
# The cooperative progress scheduler

Sequence work takes a slot, waits until it is granted, and gives the grant back
when it yields, changes its kind or leaves. Two works of one sequence are never
active together. A call waits inside the scheduler with the lock released, so it
is one critical section when it is made and one each time it wakes.

Whether a queued work asks to be cancelled is answered by its owner each time a
scan looks at it: the answers are an argument, by scan and by slot.
-/

set_option autoImplicit false

namespace Yvex.ProgressScheduler

open AttentionData SlotTable StateRecipe WordCounter

inductive ProgressKind where
  | prefill
  | decode
  | draft
  | verify
  | correction
  | publication
  | component
  deriving DecidableEq, Repr

structure Work where
  generation : ℕ
  submissionOrdinal : ℕ
  engineGeneration : ℕ
  sequenceHandle : ℕ
  kind : ProgressKind
  cancellable : Bool
  queued : Bool
  active : Bool
  status : Option Status
  deriving DecidableEq, Repr

structure Scheduler where
  slots : ℕ → Option Work
  capacity : ℕ
  inUseCount : ℕ
  activeLimit : ℕ
  readyCount : ℕ
  activeCount : ℕ
  nextGeneration : ℕ
  nextOrdinal : ℕ
  stopping : Bool

structure Lease where
  slot : ℕ
  generation : ℕ
  deriving DecidableEq, Repr

structure Request where
  engineGeneration : ℕ
  sequenceHandle : ℕ
  kind : ProgressKind
  cancellable : Bool

abbrev Answers := ℕ → ℕ → Bool

inductive Admission where
  | waiting
  | admitted
  | refused (refusal : Refusal)

def schedulerRefuse (status : Status) (reason : String) : Refusal :=
  errorOnly status "runtime.engine-scheduler" reason

def Scheduler.setSlot (s : Scheduler) (index : ℕ) (work : Option Work) : Scheduler :=
  { s with slots := Function.update s.slots index work }

def coordinatorOpen (queueCapacity cooperativeWidth : ℕ) (allocated stored ready : Bool) :
    Except Refusal Scheduler :=
  if queueCapacity = 0 ∨ 64 < queueCapacity ∨ cooperativeWidth = 0 ∨
      queueCapacity < cooperativeWidth then
    .error (schedulerRefuse .invalidArg "bounded engine scheduler capacity is required")
  else if !allocated then
    .error (schedulerRefuse .nomem "engine scheduler allocation failed")
  else if !stored then
    .error (schedulerRefuse .nomem "engine scheduler queue allocation failed")
  else if !ready then
    .error (schedulerRefuse .state "engine scheduler conditions are unavailable")
  else .ok ⟨fun _ => none, queueCapacity, 0, cooperativeWidth, 0, 0, 0, 0, false⟩

def progressSlot (s : Scheduler) (lease : Lease) : Option Work :=
  if s.capacity ≤ lease.slot then none
  else (s.slots lease.slot).filter fun work => work.generation == lease.generation

def progressActiveConflict (s : Scheduler) (index : ℕ) (candidate : Work) : Bool :=
  (List.range s.capacity).any fun other => other != index &&
    (s.slots other).any fun work => work.active &&
      work.engineGeneration == candidate.engineGeneration &&
      work.sequenceHandle == candidate.sequenceHandle

def progressActiveRemove (s : Scheduler) (index : ℕ) (work : Work) : Scheduler :=
  if !work.active then s
  else { s.setSlot index (some { work with active := false }) with
    activeCount := wordSub s.activeCount 1 }

def progressCancelReady (s : Scheduler) (index : ℕ) (work : Work) : Scheduler :=
  if !work.queued then s
  else { s.setSlot index (some { work with queued := false, status := some .cancelled }) with
    readyCount := wordSub s.readyCount 1 }

def scanCandidate (answers : ℕ → Bool) (scan : Scheduler × Option (ℕ × Work)) (index : ℕ) :
    Scheduler × Option (ℕ × Work) :=
  match scan.1.slots index with
  | none => scan
  | some candidate =>
    if !candidate.queued then scan
    else if candidate.cancellable && answers index then
      (progressCancelReady scan.1 index candidate, scan.2)
    else if progressActiveConflict scan.1 index candidate then scan
    else if scan.2.all fun selected =>
        candidate.submissionOrdinal < selected.2.submissionOrdinal then
      (scan.1, some (index, candidate))
    else scan

def progressNextReady (s : Scheduler) (answers : ℕ → Bool) : Scheduler × Option (ℕ × Work) :=
  (List.range s.capacity).foldl (scanCandidate answers) (s, none)

def progressActivate (s : Scheduler) (index : ℕ) (work : Work) : Scheduler :=
  { s.setSlot index (some { work with queued := false, active := true }) with
    readyCount := wordSub s.readyCount 1
    activeCount := wordAdd s.activeCount 1 }

def grantRounds : ℕ → Answers → Scheduler → Scheduler
  | 0, _, s => s
  | rounds + 1, answers, s =>
    match progressNextReady s (answers 0) with
    | (scanned, none) => scanned
    | (scanned, some (index, work)) =>
      grantRounds rounds (fun scan => answers (scan + 1)) (progressActivate scanned index work)

def progressGrant (s : Scheduler) (answers : Answers) : Scheduler :=
  if s.stopping then s else grantRounds (s.activeLimit - s.activeCount) answers s

def progressEnqueue (s : Scheduler) (index : ℕ) (work : Work) (answers : Answers) : Scheduler :=
  let ordinal := generationAfter s.nextOrdinal
  progressGrant
    { s.setSlot index (some { work with
        submissionOrdinal := ordinal
        queued := true
        active := false
        status := none }) with
      nextOrdinal := ordinal
      readyCount := wordAdd s.readyCount 1 } answers

def progressRelease (s : Scheduler) (index : ℕ) : Scheduler :=
  match s.slots index with
  | none => s
  | some work =>
    { s.setSlot index none with
      readyCount := if work.queued then wordSub s.readyCount 1 else s.readyCount
      activeCount := if work.active then wordSub s.activeCount 1 else s.activeCount
      inUseCount := wordSub s.inUseCount 1 }

def progressSettle (s : Scheduler) (index : ℕ) : Scheduler × Admission :=
  let stopped := schedulerRefuse .state "engine scheduler stopped before sequence work admission"
  match s.slots index with
  | none => (s, .refused stopped)
  | some work =>
    if work.queued && !s.stopping then (s, .waiting)
    else if work.active then (s, .admitted)
    else (progressRelease s index, .refused
      (if work.status = some .cancelled then
        schedulerRefuse .cancelled "ready sequence work was cancelled before admission"
      else stopped))

def newWork (request : Request) (generation : ℕ) : Work where
  generation := generation
  submissionOrdinal := 0
  engineGeneration := request.engineGeneration
  sequenceHandle := request.sequenceHandle
  kind := request.kind
  cancellable := request.cancellable
  queued := false
  active := false
  status := none

def progressAdmit (s : Scheduler) (index : ℕ) (request : Request) : Scheduler :=
  let generation := generationAfter s.nextGeneration
  { s.setSlot index (some (newWork request generation)) with
    nextGeneration := generation
    inUseCount := wordAdd s.inUseCount 1 }

def executionEnter (s : Scheduler) (request : Request) (answers : Answers) :
    Scheduler × Option Lease × Admission :=
  if request.engineGeneration = 0 ∨ request.sequenceHandle = 0 then
    (s, none, .refused (schedulerRefuse .invalidArg
      "bounded engine-generation work identity is required"))
  else if s.stopping then
    (s, none, .refused (schedulerRefuse .state
      "draining engine scheduler cannot admit sequence work"))
  else match firstWhere Option.isNone s.slots s.capacity with
  | none => (s, none, .refused (schedulerRefuse .bounds "engine ready-work capacity is exhausted"))
  | some index =>
    let generation := generationAfter s.nextGeneration
    let settled := progressSettle
      (progressEnqueue (progressAdmit s index request) index (newWork request generation) answers)
      index
    (settled.1, some ⟨index, generation⟩, settled.2)

def executionYieldRequested (s : Scheduler) (lease : Lease) : Bool :=
  (progressSlot s lease).any fun work => work.active && (s.stopping || s.readyCount != 0)

def requeue (s : Scheduler) (index : ℕ) (work : Work) (kind : ProgressKind) (draining : String)
    (answers : Answers) : Scheduler × Admission :=
  let removed := progressActiveRemove s index work
  if s.stopping then (progressRelease removed index, .refused (schedulerRefuse .state draining))
  else progressSettle
    (progressEnqueue removed index { work with active := false, kind := kind } answers) index

def executionYieldResume (s : Scheduler) (lease : Lease) (answers : Answers) :
    Scheduler × Admission :=
  match (progressSlot s lease).filter Work.active with
  | none => (s, .refused (schedulerRefuse .state "execution yield has a stale active lease"))
  | some work =>
    requeue s lease.slot work work.kind "draining scheduler rejected execution yield" answers

def progressTransition (s : Scheduler) (lease : Lease) (kind : ProgressKind) (answers : Answers) :
    Scheduler × Admission :=
  match (progressSlot s lease).filter Work.active with
  | none => (s, .refused (schedulerRefuse .state
      "engine progress transition has a stale sequence lease"))
  | some work =>
    requeue s lease.slot work kind "draining engine scheduler rejected a phase transition" answers

def executionLeave (s : Scheduler) (lease : Lease) (status : Option Status) (answers : Answers) :
    Scheduler × Option Refusal :=
  match progressSlot s lease with
  | none => (s, if status = none then
      some (schedulerRefuse .state "engine progress lease is stale") else none)
  | some work =>
    (progressGrant (progressRelease (progressActiveRemove s lease.slot work) lease.slot) answers,
      none)

def coordinatorStop (s : Scheduler) : Scheduler :=
  (List.range s.capacity).foldl
    (fun s index => match s.slots index with
      | some work => progressCancelReady s index work
      | none => s)
    { s with stopping := true }

structure World where
  scheduler : Scheduler
  waiting : List Lease
  issued : List Lease

inductive Event where
  | enter (request : Request) (answers : Answers)
  | wake (lease : Lease) (answers : Answers)
  | yieldResume (lease : Lease) (answers : Answers)
  | transition (lease : Lease) (kind : ProgressKind) (answers : Answers)
  | leave (lease : Lease) (status : Option Status) (answers : Answers)
  | close
  | workerLost

def World.start (s : Scheduler) : World := ⟨s, [], []⟩

def World.await (world : World) (lease : Lease) (outcome : Scheduler × Admission) : World :=
  { world with
    scheduler := outcome.1
    waiting := match outcome.2 with
      | .waiting => lease :: world.waiting
      | _ => world.waiting }

def World.step (world : World) : Event → World
  | .enter request answers =>
    match executionEnter world.scheduler request answers with
    | (scheduler, some lease, admission) =>
      { world with issued := lease :: world.issued }.await lease (scheduler, admission)
    | (scheduler, none, _) => { world with scheduler := scheduler }
  | .wake lease answers =>
    if lease ∈ world.waiting then
      { world with waiting := world.waiting.erase lease }.await lease
        (progressSettle (progressGrant world.scheduler answers) lease.slot)
    else world
  -- A work makes one call at a time: its lease is not used while a call waits with it.
  | .yieldResume lease answers =>
    if lease ∈ world.waiting then world
    else world.await lease (executionYieldResume world.scheduler lease answers)
  | .transition lease kind answers =>
    if lease ∈ world.waiting then world
    else world.await lease (progressTransition world.scheduler lease kind answers)
  | .leave lease status answers =>
    if lease ∈ world.waiting then world
    else { world with scheduler := (executionLeave world.scheduler lease status answers).1 }
  | .close => { world with scheduler := coordinatorStop world.scheduler }
  | .workerLost => { world with scheduler := { world.scheduler with stopping := true } }

end Yvex.ProgressScheduler
