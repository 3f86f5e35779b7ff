import Yvex.ServerEnums
import Yvex.SlotTable
import Yvex.StateRecipe
import Yvex.WordCounter

/-!
# The engine manager

A manager owns a fixed table of engines. A load reserves a slot under a new
generation and fills it outside the lock; a work lease names a slot and the
generation it was taken from; a model lease is a record that keeps an engine
from being unloaded. Unloading and closing the manager drain the work leases
with the lock released while they wait, and close engines outside the lock.
-/

set_option autoImplicit false

namespace Yvex.EngineManager

open AttentionData StateRecipe SlotTable WordCounter ServerEnums

deriving instance DecidableEq for EngineState

structure Engine where
  state : EngineState
  generation : ℕ
  activeWork : ℕ
  modelLeaseCount : ℕ
  modelAlias : Text
  deriving DecidableEq

def Engine.zero : Engine := ⟨.unloaded, 0, 0, 0, []⟩

structure ModelLease where
  identity : Identity
  engine : ℕ
  generation : ℕ

structure Manager where
  engines : ℕ → Engine
  modelLeases : ℕ → ModelLease
  capacity : ℕ
  nextGeneration : ℕ
  modelLeaseCapacity : ℕ
  nextModelLease : ℕ
  closing : Bool

structure Lease where
  engine : ℕ
  generation : ℕ
  deriving DecidableEq

structure EngineSummary where
  modelAlias : Text
  state : EngineState
  generation : ℕ
  activeWork : ℕ
  modelLeaseCount : ℕ
  executionReady : Bool

def maximumEngines : ℕ := 64

def modelLeaseLimit : ℕ := 256

def aliasCapacity : ℕ := 128

def engineRefuse (status : Status) (reason : String) : Refusal :=
  errorOnly status "server.engine" reason

def aliasCharacter (c : Char) : Bool :=
  ('a' ≤ c && c ≤ 'z') || ('A' ≤ c && c ≤ 'Z') || ('0' ≤ c && c ≤ '9') ||
    c == '-' || c == '_' || c == '.'

def aliasValid (modelAlias : Text) : Bool :=
  !modelAlias.isEmpty && modelAlias.length < aliasCapacity && modelAlias.all aliasCharacter

def summaryBase (engine : Engine) : EngineSummary :=
  { modelAlias := engine.modelAlias, state := engine.state, generation := engine.generation,
    activeWork := engine.activeWork, modelLeaseCount := engine.modelLeaseCount,
    executionReady := engine.state == .loaded }

def Manager.set (manager : Manager) (slot : ℕ) (engine : Engine) : Manager :=
  { manager with engines := Function.update manager.engines slot engine }

def managerOpen (capacity requestCapacity requestWorkers : ℕ) : Except Refusal Manager :=
  if capacity = 0 ∨ maximumEngines < capacity ∨ requestCapacity = 0 ∨ requestWorkers = 0 then
    .error (engineRefuse .invalidArg "bounded engine manager inputs are required")
  else
    .ok
      { engines := fun _ => Engine.zero
        modelLeases := fun _ => ⟨[], 0, 0⟩
        capacity := capacity
        nextGeneration := 1
        modelLeaseCapacity := modelLeaseLimit
        nextModelLease := 1
        closing := false }

def named (modelAlias : Text) (engine : Engine) : Bool :=
  !engine.modelAlias.isEmpty && engine.modelAlias == modelAlias

def engineFind (manager : Manager) (modelAlias : Text) : Option ℕ :=
  firstWhere (named modelAlias) manager.engines manager.capacity

def reserveFrom (engines : ℕ → Engine) (modelAlias : Text) : List ℕ → Option ℕ → Option ℕ
  | [], empty => empty
  | index :: rest, empty =>
    let engine := engines index
    if named modelAlias engine then
      if engine.state == .unloaded || engine.state == .failed then some index else none
    else if empty.isNone && (engine.modelAlias.isEmpty || engine.state == .unloaded) then
      reserveFrom engines modelAlias rest (some index)
    else reserveFrom engines modelAlias rest empty

def engineReserve (manager : Manager) (modelAlias : Text) : Option ℕ :=
  reserveFrom manager.engines modelAlias (List.range manager.capacity) none

def loadReserve (manager : Manager) (modelAlias : Text) : Except Refusal (ℕ × ℕ × Manager) :=
  if !aliasValid modelAlias then
    .error (engineRefuse .invalidArg "complete bounded engine options are required")
  else if manager.closing then
    .error (engineRefuse .cancelled "engine manager is closing")
  else match engineReserve manager modelAlias with
    | none => .error (engineRefuse .bounds "engine alias is active or capacity is full")
    | some slot =>
      let generation := manager.nextGeneration
      .ok (slot, generation,
        { manager with
          engines := Function.update manager.engines slot ⟨.loading, generation, 1, 0, modelAlias⟩
          nextGeneration := wordAdd generation 1 })

def loadPublish (manager : Manager) (slot generation : ℕ) (modelAlias : Text) (opened : Bool) :
    Manager :=
  manager.set slot ⟨if opened then .loaded else .failed, generation, 0, 0, modelAlias⟩

def onlyLoaded (manager : Manager) : Option ℕ :=
  -- Without an alias there has to be exactly one loaded engine.
  match (List.range manager.capacity).filter fun i => (manager.engines i).state == .loaded with
  | [slot] => some slot
  | _ => none

def engineSelect (manager : Manager) (modelAlias : Text) : Option ℕ :=
  if modelAlias.isEmpty then onlyLoaded manager else engineFind manager modelAlias

def usable (engine : Engine) (generation : ℕ) : Bool :=
  engine.state == .loaded && (generation == 0 || generation == engine.generation)

def acquire (manager : Manager) (modelAlias : Text) (generation : ℕ) :
    Except Refusal (Lease × EngineSummary × Manager) :=
  if manager.closing then
    .error (engineRefuse .cancelled "engine manager is closing")
  else
    let refusal := engineRefuse .state
      (if generation ≠ 0 then "engine generation is stale or unavailable"
        else "one unambiguous loaded engine is required")
    match engineSelect manager modelAlias with
    | none => .error refusal
    | some slot =>
      let engine := manager.engines slot
      if usable engine generation then
        let raised := { engine with activeWork := engine.activeWork + 1 }
        .ok (⟨slot, engine.generation⟩, summaryBase raised, manager.set slot raised)
      else .error refusal

def release (manager : Manager) (lease : Lease) : Manager :=
  let engine := manager.engines lease.engine
  if engine.generation = lease.generation ∧ engine.activeWork ≠ 0 then
    manager.set lease.engine { engine with activeWork := engine.activeWork - 1 }
  else manager

def modelLeaseFind (manager : Manager) (identity : Identity) : Option ℕ :=
  firstWhere (fun lease => !lease.identity.isEmpty && lease.identity == identity)
    manager.modelLeases manager.modelLeaseCapacity

def modelLeaseIdentity (sha : Sha256) (engine : Engine) (serial : ℕ) : Option Identity :=
  sha.digest [textField "yvex.server.model-lease.v1", .text engine.modelAlias,
    .word engine.generation, .word serial]

def modelLeaseAcquire (sha : Sha256) (manager : Manager) (modelAlias : Text) :
    Except Refusal (Identity × EngineSummary) × Manager :=
  -- The record, the count of its engine and the serial number move together; a refused
  -- digest has already used its serial number.
  if !aliasValid modelAlias then
    (.error (engineRefuse .invalidArg "model lease inputs are required"), manager)
  else
    let unavailable := engineRefuse .state "loaded model is required for a lease"
    match firstWhere (fun lease => lease.identity.isEmpty) manager.modelLeases
        manager.modelLeaseCapacity with
    | none => (.error (engineRefuse .bounds "model lease capacity is exhausted"), manager)
    | some record =>
      match engineFind manager modelAlias with
      | none => (.error unavailable, manager)
      | some slot =>
        let engine := manager.engines slot
        if engine.state != .loaded then (.error unavailable, manager)
        else
          let numbered :=
            { manager with nextModelLease := wordAdd manager.nextModelLease 1 }
          match modelLeaseIdentity sha engine manager.nextModelLease with
          | none => (.error unavailable, numbered)
          | some identity =>
            let raised := { engine with modelLeaseCount := engine.modelLeaseCount + 1 }
            (.ok (identity, summaryBase raised),
              { numbered with
                engines := Function.update manager.engines slot raised
                modelLeases := Function.update manager.modelLeases record
                  ⟨identity, slot, engine.generation⟩ })

def modelLeaseRelease (manager : Manager) (identity : Identity) :
    Except Refusal (EngineSummary × Manager) :=
  if !hexValid identity then
    .error (engineRefuse .invalidArg "exact model lease identity is required")
  else
    let refusal := engineRefuse .state "live model lease is required"
    match modelLeaseFind manager identity with
    | none => .error refusal
    | some record =>
      let lease := manager.modelLeases record
      let engine := manager.engines lease.engine
      if engine.generation ≠ lease.generation ∨ engine.modelLeaseCount = 0 then .error refusal
      else
        let lowered := { engine with modelLeaseCount := engine.modelLeaseCount - 1 }
        .ok (summaryBase lowered,
          { manager with
            engines := Function.update manager.engines lease.engine lowered
            modelLeases := Function.update manager.modelLeases record ⟨[], 0, 0⟩ })

def leaseLive (manager : Manager) (lease : Lease) : Bool :=
  (manager.engines lease.engine).generation == lease.generation

def leaseSubmit (manager : Manager) (queue : ℕ → Bool) (lease : Lease) : Except Refusal Unit :=
  if leaseLive manager lease && queue lease.engine then .ok ()
  else .error (engineRefuse .state "live engine request queue lease is required")

def leaseExecute (manager : Manager) (lease : Lease) : Except Refusal Unit :=
  if leaseLive manager lease then .ok ()
  else .error (engineRefuse .state "live engine lease is required")

def unloadStart (manager : Manager) (modelAlias : Text) (generation sessions : ℕ) :
    Except Refusal (ℕ × Manager) :=
  if !aliasValid modelAlias then
    .error (engineRefuse .invalidArg "loaded engine alias and summary are required")
  else match engineFind manager modelAlias with
    | none => .error (engineRefuse .state "exact loaded engine generation is required")
    | some slot =>
      let engine := manager.engines slot
      if !usable engine generation then
        .error (engineRefuse .state "exact loaded engine generation is required")
      else if engine.modelLeaseCount ≠ 0 ∨ sessions ≠ 0 then
        .error (engineRefuse .state "live sessions or model leases prevent unload")
      else .ok (slot, manager.set slot { engine with state := .draining })

def setState (manager : Manager) (slot : ℕ) (state : EngineState) : Manager :=
  manager.set slot { manager.engines slot with state := state }

def unloadFinish (manager : Manager) (slot : ℕ) (closed : Bool) : Manager :=
  setState manager slot (if closed then .unloaded else .failed)

def snapshot (manager : Manager) (room : ℕ) : Except Refusal (List EngineSummary) :=
  let listed := ((List.range manager.capacity).map manager.engines).filter
    fun engine => !engine.modelAlias.isEmpty
  if room < listed.length then
    .error (engineRefuse .bounds "engine snapshot capacity is insufficient")
  else .ok (listed.map summaryBase)

def drainLoaded (engine : Engine) : Engine :=
  if engine.state == .loaded then { engine with state := .draining } else engine

def closeStart (manager : Manager) : Manager :=
  { manager with
    closing := true
    engines := fun i => if i < manager.capacity then drainLoaded (manager.engines i)
      else manager.engines i }

def closeDrained (manager : Manager) : Bool :=
  total Engine.activeWork manager.engines manager.capacity == 0

inductive Phase where
  | idle
  | loading (slot generation : ℕ) (modelAlias : Text)
  | draining (slot generation : ℕ)
  | unloading (slot generation : ℕ)

def Phase.slot : Phase → Option ℕ
  | .idle => none
  | .loading slot _ _ => some slot
  | .draining slot _ => some slot
  | .unloading slot _ => some slot

inductive Closer where
  | serving
  | waiting
  | closing (next : ℕ)
  | gone

/-- The manager, the leases its callers hold and what its threads are doing.
`issued` lists the generations handed out and `closes` the generations whose
engine a failed load or an unload has closed, each when the closing begins;
`finalCloses` lists those that the closing of the manager passes over. -/
structure World where
  manager : Manager
  leases : List Lease
  threads : ℕ → Phase
  closer : Closer
  issued : List ℕ
  closes : List ℕ
  finalCloses : List ℕ

def World.start (manager : Manager) : World := ⟨manager, [], fun _ => .idle, .serving, [], [], []⟩

inductive Op where
  | load (thread : ℕ) (modelAlias : Text)
  | loaded (thread : ℕ) (opened : Bool)
  | acquire (modelAlias : Text) (generation : ℕ)
  | release (lease : Lease)
  | modelAcquire (modelAlias : Text)
  | modelRelease (identity : Identity)
  | unload (thread : ℕ) (modelAlias : Text) (generation sessions : ℕ)
  | drain (thread : ℕ)
  | unloaded (thread : ℕ) (closed : Bool)
  | snapshot (room : ℕ)
  | close
  | closeWake
  | closeNext

def World.become (world : World) (thread : ℕ) (phase : Phase) : World :=
  { world with threads := Function.update world.threads thread phase }

def loadStep (world : World) (thread : ℕ) (modelAlias : Text) : World :=
  match world.threads thread, loadReserve world.manager modelAlias with
  | .idle, .ok (slot, generation, manager) =>
    { world with manager := manager, issued := world.issued ++ [generation] }.become thread
      (.loading slot generation modelAlias)
  | _, _ => world

def loadedStep (world : World) (thread : ℕ) (opened : Bool) : World :=
  -- The candidate is private to the loading thread: opening it and, if that fails, closing
  -- it again is one step with its publication.
  match world.threads thread with
  | .loading slot generation modelAlias =>
    { world with
      manager := loadPublish world.manager slot generation modelAlias opened
      closes := if opened then world.closes else world.closes ++ [generation] }.become thread .idle
  | _ => world

def acquireStep (world : World) (modelAlias : Text) (generation : ℕ) : World :=
  match acquire world.manager modelAlias generation with
  | .ok (lease, _, manager) => { world with manager := manager, leases := lease :: world.leases }
  | .error _ => world

def releaseStep (world : World) (lease : Lease) : World :=
  -- A release clears the caller's lease, so what is released is an outstanding lease or one
  -- that is no longer of the current generation.
  if lease ∈ world.leases ∨ leaseLive world.manager lease = false then
    { world with manager := release world.manager lease, leases := world.leases.erase lease }
  else world

def drainStep (world : World) (thread : ℕ) : World :=
  -- The waiting loop of an unload looks at the work count and goes on to close the engine,
  -- or waits again.
  match world.threads thread with
  | .draining slot generation =>
    if (world.manager.engines slot).activeWork = 0 then
      { world with
        manager := setState world.manager slot .unloading
        closes := world.closes ++ [generation] }.become thread (.unloading slot generation)
    else world
  | _ => world

def unloadStep (world : World) (thread : ℕ) (modelAlias : Text) (generation sessions : ℕ) :
    World :=
  match world.threads thread, unloadStart world.manager modelAlias generation sessions with
  | .idle, .ok (slot, manager) =>
    { world with manager := manager }.become thread
      (.draining slot (world.manager.engines slot).generation)
  | _, _ => world

def unloadedStep (world : World) (thread : ℕ) (closed : Bool) : World :=
  match world.threads thread with
  | .unloading slot _ =>
    { world with manager := unloadFinish world.manager slot closed }.become thread .idle
  | _ => world

def closeStep (world : World) : World :=
  match world.closer with
  | .serving => { world with manager := closeStart world.manager, closer := .waiting }
  | _ => world

def closeWakeStep (world : World) : World :=
  match world.closer with
  | .waiting => if closeDrained world.manager then { world with closer := .closing 0 } else world
  | _ => world

def closeNextStep (world : World) : World :=
  -- The closing of the manager passes over every slot, whatever its state.
  match world.closer with
  | .closing next =>
    if next < world.manager.capacity then
      let engine := world.manager.engines next
      { world with
        closer := .closing (next + 1)
        finalCloses := if engine.modelAlias.isEmpty then world.finalCloses
          else world.finalCloses ++ [engine.generation] }
    else { world with closer := .gone }
  | _ => world

def liveStep (sha : Sha256) (world : World) : Op → World
  | .load thread modelAlias => loadStep world thread modelAlias
  | .loaded thread opened => loadedStep world thread opened
  | .acquire modelAlias generation => acquireStep world modelAlias generation
  | .release lease => releaseStep world lease
  | .modelAcquire modelAlias =>
    { world with manager := (modelLeaseAcquire sha world.manager modelAlias).2 }
  | .modelRelease identity =>
    match modelLeaseRelease world.manager identity with
    | .ok (_, manager) => { world with manager := manager }
    | .error _ => world
  | .unload thread modelAlias generation sessions =>
    drainStep (unloadStep world thread modelAlias generation sessions) thread
  | .drain thread => drainStep world thread
  | .unloaded thread closed => unloadedStep world thread closed
  | .snapshot _ => world
  | .close => closeWakeStep (closeStep world)
  | .closeWake => closeWakeStep world
  | .closeNext => closeNextStep world

def step (sha : Sha256) (world : World) (op : Op) : World :=
  -- Nothing is defined of a manager that has been freed.
  match world.closer with
  | .gone => world
  | _ => liveStep sha world op

end Yvex.EngineManager
