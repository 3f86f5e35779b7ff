import Yvex.SlotTable
import Yvex.StateRecipe
import Yvex.WordCounter

/-!
# The catalog of engine resources

A bounded table of resources of one engine generation. A resource may depend on
another one, which then cannot be released; consumers borrow ready resources.
Releasing calls back into the owner outside the lock, so it is two critical
sections with the resource marked as releasing in between.
-/

set_option autoImplicit false

namespace Yvex.ResourceCatalog

open AttentionData CheckedArithmetic SlotTable StateRecipe WordCounter

inductive ResourceKind where
  | packageMapping
  | preparedTensor
  | preparedGroup
  | preparedLayout
  | component
  | backendHandle
  | executableCache
  | sequenceState
  | workspace
  | temporary
  deriving DecidableEq, Repr

inductive ResourceOwner where
  | package
  | specialization
  | engine
  | session
  | backend
  | execution
  deriving DecidableEq, Repr

inductive ResourceLifetime where
  | engine
  | session
  | execution
  | request
  | condition
  | trajectory
  | quantum
  deriving DecidableEq, Repr

inductive NumericClass where
  | none
  | canonicalPackage
  | exactSpecialization
  | equivalentPrepared
  | state
  deriving DecidableEq, Repr

inductive ResourceState where
  | declared
  | ready
  | releasing
  | failed
  deriving DecidableEq, Repr

inductive ByteField where
  | mappedPackage
  | hostResident
  | deviceResident
  | prepared
  | sequenceState
  | workspace
  | temporary
  deriving DecidableEq, Repr

def ByteField.all : List ByteField :=
  [.mappedPackage, .hostResident, .deviceResident, .prepared, .sequenceState, .workspace,
    .temporary]

theorem ByteField.mem_all (f : ByteField) : f ∈ ByteField.all := by
  cases f <;> decide

abbrev ResourceBytes := ByteField → ℕ

structure Handle where
  engineGeneration : ℕ
  slot : ℕ
  generation : ℕ
  deriving DecidableEq, Repr

structure Request where
  kind : ResourceKind
  owner : ResourceOwner
  lifetime : ResourceLifetime
  numericClass : NumericClass
  name : Option Text
  packageIdentity : Identity
  specializationIdentity : Option Identity
  admissionIdentity : Option Identity
  dependency : Handle
  bytes : ResourceBytes
  preparationNanoseconds : ℕ
  value : ℕ
  release : Bool
  ready : Bool
  evictable : Bool

structure Entry where
  handle : Handle
  dependency : Handle
  kind : ResourceKind
  owner : ResourceOwner
  lifetime : ResourceLifetime
  numericClass : NumericClass
  state : ResourceState
  bytes : ResourceBytes
  consumerCount : ℕ
  dependentCount : ℕ
  acquisitionCount : ℕ
  preparationNanoseconds : ℕ
  name : Text
  packageIdentity : Identity
  specializationIdentity : Identity
  admissionIdentity : Identity
  evictable : Bool
  value : ℕ
  release : Bool

structure Catalog where
  engineGeneration : ℕ
  engineIdentity : Identity
  capacity : ℕ
  slots : ℕ → Option Entry
  nextGeneration : ℕ
  resourceCount : ℕ
  generation : ℕ
  registrationCount : ℕ
  releaseCount : ℕ
  evictionCount : ℕ
  failedReleaseCount : ℕ
  acquisitionCount : ℕ
  preparationNanoseconds : ℕ
  readyCount : ℕ
  failedCount : ℕ
  countByKind : ResourceKind → ℕ
  bytes : ResourceBytes
  closing : Bool

def resourceRefuse (status : Status) (reason : String) : Refusal :=
  errorOnly status "runtime.engine-resource" reason

def optionalIdentityValid (identity : Option Identity) : Bool :=
  identity.all fun identity => identity.isEmpty || hexValid identity

def identityGiven (identity : Option Identity) : Bool :=
  identity.any fun identity => !identity.isEmpty

def resourceBytesAdd (target value : ResourceBytes) : Option ResourceBytes :=
  if ByteField.all.all fun field => (u64Add (target field) (value field)).isSome then
    some fun field => target field + value field
  else none

def resourceBytesSubtract (target value : ResourceBytes) : ResourceBytes := fun field =>
  wordSub (target field) (value field)

def Handle.present (handle : Handle) : Bool :=
  handle.engineGeneration != 0 || handle.slot != 0 || handle.generation != 0

def resourceSlot (catalog : Catalog) (handle : Handle) : Option (ℕ × Entry) :=
  if handle.engineGeneration ≠ catalog.engineGeneration ∨ handle.slot = 0 ∨
      catalog.capacity < handle.slot ∨ handle.generation = 0 then none
  else match catalog.slots (handle.slot - 1) with
  | some entry =>
    if entry.handle.generation = handle.generation then some (handle.slot - 1, entry) else none
  | none => none

def nameCap : ℕ := 48

def preparedKind (kind : ResourceKind) : Bool :=
  kind == .preparedTensor || kind == .preparedGroup || kind == .preparedLayout

def resourceRequestValid (request : Request) : Bool :=
  request.name.any (fun name => !name.isEmpty && decide (name.length < nameCap)) &&
    hexValid request.packageIdentity && optionalIdentityValid request.specializationIdentity &&
    optionalIdentityValid request.admissionIdentity &&
    (!preparedKind request.kind ||
      (identityGiven request.specializationIdentity &&
        identityGiven request.admissionIdentity)) &&
    (request.numericClass != .canonicalPackage ||
      !identityGiven request.specializationIdentity) &&
    (!request.evictable || request.release)

def Catalog.setSlot (catalog : Catalog) (index : ℕ) (entry : Option Entry) : Catalog :=
  { catalog with slots := Function.update catalog.slots index entry }

def resourceDependencyDrop (catalog : Catalog) (entry : Entry) : Catalog :=
  if !entry.dependency.present then catalog
  else match resourceSlot catalog entry.dependency with
  | some (index, dependency) =>
    if dependency.dependentCount = 0 then catalog
    else catalog.setSlot index
      (some { dependency with dependentCount := dependency.dependentCount - 1 })
  | none => catalog

def countKind (counts : ResourceKind → ℕ) (kind : ResourceKind) (count : ℕ) : ResourceKind → ℕ :=
  Function.update counts kind count

def resourceRemove (catalog : Catalog) (index : ℕ) (entry : Entry) (evicted : Bool) : Catalog :=
  let dropped := resourceDependencyDrop catalog entry
  { dropped.setSlot index none with
    bytes := resourceBytesSubtract dropped.bytes entry.bytes
    resourceCount := wordSub dropped.resourceCount 1
    countByKind := countKind dropped.countByKind entry.kind
      (wordSub (dropped.countByKind entry.kind) 1)
    readyCount := if entry.state = .ready then wordSub dropped.readyCount 1
      else dropped.readyCount
    failedCount := if entry.state = .failed then wordSub dropped.failedCount 1
      else dropped.failedCount
    releaseCount := wordAdd dropped.releaseCount 1
    evictionCount := wordAdd dropped.evictionCount evicted.toNat
    generation := wordAdd dropped.generation 1 }

def catalogOpen (engineGeneration : ℕ) (engineIdentity : Identity) (capacity : ℕ)
    (allocated : Bool) : Except Refusal Catalog :=
  if engineGeneration = 0 ∨ !hexValid engineIdentity ∨ capacity = 0 ∨ 1024 < capacity then
    .error (resourceRefuse .invalidArg "bounded engine generation and identity are required")
  else if !allocated then
    .error (resourceRefuse .nomem "engine resource catalog allocation failed")
  else .ok {
    engineGeneration := engineGeneration
    engineIdentity := engineIdentity
    capacity := capacity
    slots := fun _ => none
    nextGeneration := 0
    resourceCount := 0
    generation := 0
    registrationCount := 0
    releaseCount := 0
    evictionCount := 0
    failedReleaseCount := 0
    acquisitionCount := 0
    preparationNanoseconds := 0
    readyCount := 0
    failedCount := 0
    countByKind := fun _ => 0
    bytes := fun _ => 0
    closing := false }

def registeredEntry (request : Request) (handle : Handle) : Entry where
  handle := handle
  dependency := request.dependency
  kind := request.kind
  owner := request.owner
  lifetime := request.lifetime
  numericClass := request.numericClass
  state := if request.ready then .ready else .declared
  bytes := request.bytes
  consumerCount := 0
  dependentCount := 0
  acquisitionCount := 0
  preparationNanoseconds := request.preparationNanoseconds
  name := request.name.getD []
  packageIdentity := request.packageIdentity
  specializationIdentity := request.specializationIdentity.getD []
  admissionIdentity := request.admissionIdentity.getD []
  evictable := request.evictable
  value := request.value
  release := request.release

def resolveDependency (catalog : Catalog) (handle : Handle) :
    Except Refusal (Option (ℕ × Entry)) :=
  if !handle.present then .ok none
  else match resourceSlot catalog handle with
  | some (index, entry) =>
    if entry.state = .ready then .ok (some (index, entry))
    else .error (resourceRefuse .state "resource dependency is stale or not ready")
  | none => .error (resourceRefuse .state "resource dependency is stale or not ready")

def dependentAdd (catalog : Catalog) : Option (ℕ × Entry) → Catalog
  | none => catalog
  | some (index, entry) =>
    catalog.setSlot index (some { entry with dependentCount := wordAdd entry.dependentCount 1 })

def installEntry (catalog : Catalog) (request : Request) (index : ℕ)
    (dependency : Option (ℕ × Entry)) (totals : ResourceBytes) (preparation : ℕ) :
    Catalog × Handle :=
  let generation := generationAfter catalog.nextGeneration
  let handle : Handle := ⟨catalog.engineGeneration, index + 1, generation⟩
  let installed := dependentAdd
    (catalog.setSlot index (some (registeredEntry request handle))) dependency
  ({ installed with
    nextGeneration := generation
    bytes := totals
    resourceCount := wordAdd catalog.resourceCount 1
    registrationCount := wordAdd catalog.registrationCount 1
    preparationNanoseconds := preparation
    generation := wordAdd catalog.generation 1
    countByKind := countKind catalog.countByKind request.kind
      (wordAdd (catalog.countByKind request.kind) 1)
    readyCount := wordAdd catalog.readyCount request.ready.toNat }, handle)

def resourceRegister (catalog : Catalog) (request : Request) : Except Refusal (Catalog × Handle) :=
  if !resourceRequestValid request then
    .error (resourceRefuse .invalidArg "one complete engine resource declaration is required")
  else if catalog.closing then
    .error (resourceRefuse .state "closing engine resource catalog rejects registration")
  else match resolveDependency catalog request.dependency with
  | .error refusal => .error refusal
  | .ok dependency =>
    match firstWhere Option.isNone catalog.slots catalog.capacity with
    | none => .error (resourceRefuse .nomem "engine resource catalog capacity is exhausted")
    | some index =>
      match resourceBytesAdd catalog.bytes request.bytes,
          u64Add catalog.preparationNanoseconds request.preparationNanoseconds with
      | some totals, some preparation =>
        .ok (installEntry catalog request index dependency totals preparation)
      | _, _ => .error (resourceRefuse .bounds "engine resource accounting overflowed")

def resourceAcquire (catalog : Catalog) (handle : Handle) : Except Refusal (Catalog × ℕ) :=
  let refused := resourceRefuse .state "ready non-stale engine resource is required"
  match resourceSlot catalog handle with
  | none => .error refused
  | some (index, entry) =>
    if catalog.closing || entry.state != .ready || entry.consumerCount == wordLimit - 1 ||
        entry.acquisitionCount == wordLimit - 1 || catalog.acquisitionCount == wordLimit - 1 then
      .error refused
    else .ok ({ catalog.setSlot index (some { entry with
        consumerCount := entry.consumerCount + 1
        acquisitionCount := entry.acquisitionCount + 1 }) with
      acquisitionCount := catalog.acquisitionCount + 1 }, entry.value)

def resourcePublishReady (catalog : Catalog) (handle : Handle) : Except Refusal Catalog :=
  let refused := resourceRefuse .state "one declared resource in an open catalog is required"
  match resourceSlot catalog handle with
  | none => .error refused
  | some (index, entry) =>
    if catalog.closing || entry.state != .declared then .error refused
    else .ok { catalog.setSlot index (some { entry with state := .ready }) with
      readyCount := wordAdd catalog.readyCount 1
      generation := wordAdd catalog.generation 1 }

def resourceDrop (catalog : Catalog) (handle : Handle) : Except Refusal Catalog :=
  let refused := resourceRefuse .state "one exact borrowed resource generation is required"
  match resourceSlot catalog handle with
  | none => .error refused
  | some (index, entry) =>
    if entry.consumerCount = 0 then .error refused
    else .ok (catalog.setSlot index
      (some { entry with consumerCount := wordSub entry.consumerCount 1 }))

def releaseBegin (catalog : Catalog) (handle : Handle) (evict : Bool) :
    Except Refusal (Catalog × Bool) :=
  if !handle.present then
    .error (resourceRefuse .invalidArg "one live engine resource handle is required")
  else match resourceSlot catalog handle with
  | none => .error (resourceRefuse .invalidArg
      "resource is stale, referenced, or still has dependents")
  | some (index, entry) =>
    if entry.state = .releasing ∨ entry.consumerCount ≠ 0 ∨ entry.dependentCount ≠ 0 ∨
        (evict ∧ !entry.evictable) then
      .error (resourceRefuse .state
        (if evict && !entry.evictable then "resource is not eligible for eviction"
          else "resource is stale, referenced, or still has dependents"))
    else .ok ({ catalog.setSlot index (some { entry with state := .releasing }) with
      readyCount := if entry.state = .ready then wordSub catalog.readyCount 1
        else catalog.readyCount
      failedCount := if entry.state = .failed then wordSub catalog.failedCount 1
        else catalog.failedCount }, entry.release)

def releaseEnd (catalog : Catalog) (handle : Handle) (evict : Bool) (answer : Option Refusal) :
    Catalog × Option Refusal :=
  match resourceSlot catalog handle with
  | none => (catalog, some (resourceRefuse .state "resource generation changed during release"))
  | some (index, entry) =>
    match answer with
    | none => (resourceRemove catalog index entry evict, none)
    | some refusal => ({ catalog.setSlot index (some { entry with state := .failed }) with
        failedCount := wordAdd catalog.failedCount 1
        failedReleaseCount := wordAdd catalog.failedReleaseCount 1 }, some refusal)

def closeCandidate (catalog : Catalog) : Option Handle :=
  (List.range catalog.capacity).reverse.findSome? fun index =>
    (catalog.slots index).bind fun entry =>
      if entry.consumerCount = 0 ∧ entry.dependentCount = 0 then some entry.handle else none

def closeScan (catalog : Catalog) (refused : String) : Except Refusal (Option Handle) :=
  match closeCandidate catalog with
  | some handle => .ok (some handle)
  | none =>
    if catalog.resourceCount = 0 then .ok none
    else .error (resourceRefuse .state refused)

def closeBegin (catalog : Catalog) : Catalog × Except Refusal (Option Handle) :=
  let closing := { catalog with closing := true }
  (closing, closeScan closing "resource catalog still owns referenced or cyclic resources")

def closeRescan (catalog : Catalog) : Except Refusal (Option Handle) :=
  closeScan catalog "resource catalog close found a dependency cycle"

end Yvex.ResourceCatalog
