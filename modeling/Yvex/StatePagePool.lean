import Yvex.ProviderApply

/-!
# The page pool

Stores of one pool are opened, touched, sealed into a shared backing, mapped over one, reset and
closed; pointer tables are reserved and released, and a capacity plan may lower the budget.
-/

set_option autoImplicit false

namespace Yvex.StatePages

open AttentionData CapacityPlan CheckedArithmetic RefusableStep

variable {α : Type}

structure PageGeometry where
  requested : ℕ
  mapped : ℕ
  pages : ℕ

def pagesGeometry (elements width pageElements systemPage : ℕ) : Option PageGeometry := do
  guard (elements ≠ 0 ∧ width ≠ 0 ∧ pageElements ≠ 0 ∧ systemPage ≠ 0)
  let requested ← u64Mul elements width
  let adjusted ← u64Add elements (pageElements - 1)
  let rounded ← u64Add requested (systemPage - 1)
  some ⟨requested, rounded - rounded % systemPage, adjusted / pageElements⟩

def bitmapCharge (geometry : PageGeometry) (systemPage : ℕ) : Option ℕ := do
  let bitmap := (geometry.pages + 7) % wordLimit / 8
  let systemBitmap := (geometry.mapped / systemPage + 7) % wordLimit / 8
  let charge ← u64Add bitmap systemBitmap
  let charge ← u64Add charge bitmap
  u64Add charge systemBitmap

def storeRegister (pool : PagePool) (store : PageStore α) : Option PagePool := do
  let metadataNext ← u64Add pool.metadataBytes store.metadataCharge
  let residentNext ← u64Add pool.residentBytes store.residentBytes
  guard (pool.maximumBytes = 0 ∨ metadataNext ≤ pool.maximumBytes ∧
    residentNext ≤ pool.maximumBytes - metadataNext)
  let virtualNext ← u64Add pool.virtualBytes store.requestedBytes
  let pageNext ← u64Add pool.pageCount store.pageCount
  let residentPageNext ← u64Add pool.residentPageCount (if store.paged then 0 else store.pageCount)
  let storesNext ← u64Add pool.storeCount 1
  some { pool with
    metadataBytes := metadataNext
    residentBytes := residentNext
    virtualBytes := virtualNext
    pageCount := pageNext
    residentPageCount := residentPageNext
    storeCount := storesNext }

def registerReason (pool : PagePool) (store : PageStore α) : String :=
  "state page store exceeds its pool budget or counters (metadata=" ++
    toString pool.metadataBytes ++ "+" ++ toString store.metadataCharge ++ " resident=" ++
    toString pool.residentBytes ++ "+" ++ toString store.residentBytes ++ " maximum=" ++
    toString pool.maximumBytes ++ " virtual=" ++ toString store.requestedBytes ++ ")"

def storeReserved (geometry : PageGeometry) (elementCount elementWidth pageElements
    systemPage : ℕ) (paged : Bool) (charge : ℕ) : PageStore α where
  elementCount := elementCount
  elementWidth := elementWidth
  pageElements := pageElements
  requestedBytes := geometry.requested
  mappedBytes := geometry.mapped
  pageCount := geometry.pages
  systemPageCount := geometry.mapped / systemPage
  systemPageBytes := systemPage
  paged := paged
  committed := fun _ => false
  systemCommitted := fun _ => false
  privateCommitted := fun _ => false
  privateSystemCommitted := fun _ => false
  metadataCharge := charge
  residentBytes := if paged then 0 else geometry.requested
  residentPages := if paged then 0 else geometry.pages
  residentSystemPages := 0
  shared := none
  written := fun _ => none
  trapped := false

def storeOpen (pool : PagePool) (elementCount elementWidth pageElements : ℕ) (paged : Bool) :
    Outcome PageError (PagePool × Option (PageStore α)) :=
  let (allocated, pool₁) := pool.hostCall
  let (reserved, pool₂) := pool₁.hostCall
  if elementCount = 0 ∨ elementWidth = 0 ∨ pageElements = 0 then
    .refused ⟨.invalidArg, "complete state page-store geometry is required"⟩ (pool, none)
  else if pool.host.pageBytes = 0 then
    .refused ⟨.state, "host page geometry is unavailable"⟩ (pool, none)
  else if !allocated then
    .refused ⟨.nomem, "state page-store owner allocation failed"⟩ (pool₁, none)
  else match pagesGeometry elementCount elementWidth pageElements pool.host.pageBytes with
  | none => .refused ⟨.bounds, "state page-store geometry overflowed"⟩ (pool₁, none)
  | some geometry =>
    if !reserved then
      .refused ⟨.nomem, if paged then "state virtual page reservation failed"
        else "reference state storage allocation failed"⟩ (pool₂, none)
    else match if paged then bitmapCharge geometry pool.host.pageBytes else some 0 with
    | none => .refused ⟨.bounds, "state page metadata extent overflowed"⟩ (pool₂, none)
    | some charge =>
      let store := storeReserved geometry elementCount elementWidth pageElements
        pool.host.pageBytes paged charge
      match storeRegister pool₂ store with
      | none => .refused ⟨.bounds, registerReason pool₂ store⟩ (pool₂, none)
      | some registered => .done (registered, some store)

def Host.sharedRetain (host : Host) (backing : ℕ) : Host :=
  { host with
    references := Function.update host.references backing (host.references backing + 1) }

def Host.sharedRelease (host : Host) : Option (SharedBacking α) → Host
  | none => host
  | some shared => { host with
      references :=
        Function.update host.references shared.backing (host.references shared.backing - 1)
      freed := if host.references shared.backing = 1 then shared.backing :: host.freed
        else host.freed }

def bitCount (bits : ℕ → Bool) (count : ℕ) : ℕ := (List.range count).countP bits

def sharedBacking [Inhabited α] (store : PageStore α) (backing resident : ℕ)
    (identity : Identity) : SharedBacking α where
  backing := backing
  content i :=
    if !store.paged || store.systemCommitted (i * store.elementWidth / store.systemPageBytes) then
      store.read i
    else default
  committed page :=
    if store.paged then store.committed page else decide (page < store.pageCount)
  systemCommitted page :=
    if store.paged then store.systemCommitted page
    else decide (page < store.mappedBytes / store.systemPageBytes)
  elementCount := store.elementCount
  elementWidth := store.elementWidth
  pageElements := store.pageElements
  mappedBytes := store.mappedBytes
  requestedBytes := store.requestedBytes
  pageCount := store.pageCount
  systemPageBytes := store.systemPageBytes
  residentBytes := resident
  identity := identity

def sharedOpen [Inhabited α] (pool : PagePool) (store : PageStore α)
    (identity : Option Identity) : Outcome PageError (PagePool × Option (SharedBacking α)) :=
  let draft := sharedBacking store pool.host.nextBacking 0 []
  let (allocated, pool₁) := pool.hostCall
  let (written, pool₂) := pool₁.hostCall
  if store.mappedBytes = 0 then
    .refused ⟨.invalidArg, "state prefix backing source is invalid"⟩ (pool, none)
  else if !allocated then
    .refused ⟨.nomem, "state prefix backing allocation failed"⟩ (pool₁, none)
  else match u64Mul (bitCount draft.systemCommitted (store.mappedBytes / store.systemPageBytes))
      store.systemPageBytes with
  | none => .refused ⟨.bounds, "state prefix backing byte extent overflowed"⟩ (pool₁, none)
  | some resident =>
    match written, identity with
    | true, some identity =>
      .done ({ pool₂ with host := { pool₂.host with
          references := Function.update pool₂.host.references pool.host.nextBacking 1
          nextBacking := pool.host.nextBacking + 1 } },
        some (sharedBacking store pool.host.nextBacking resident identity))
    | _, _ => .refused ⟨.io, "immutable state prefix backing creation failed"⟩ (pool₂, none)

def PageStore.geometry (s : PageStore α) : ℕ × ℕ × ℕ × ℕ × ℕ × ℕ × ℕ :=
  (s.elementCount, s.elementWidth, s.pageElements, s.mappedBytes, s.requestedBytes, s.pageCount,
    s.systemPageBytes)

def SharedBacking.geometry (b : SharedBacking α) : ℕ × ℕ × ℕ × ℕ × ℕ × ℕ × ℕ :=
  (b.elementCount, b.elementWidth, b.pageElements, b.mappedBytes, b.requestedBytes, b.pageCount,
    b.systemPageBytes)

abbrev SameGeometry (store : PageStore α) (backing : SharedBacking α) : Prop :=
  backing.geometry = store.geometry

def storeMapped (store : PageStore α) (backing : SharedBacking α) : PageStore α :=
  { store with
    committed := backing.committed
    systemCommitted := backing.systemCommitted
    privateCommitted := fun _ => false
    privateSystemCommitted := fun _ => false
    residentBytes := 0
    residentPages := 0
    residentSystemPages := 0
    shared := some backing
    written := fun _ => none }

def storeInstallShared (pool : PagePool) (store : PageStore α) (backing : SharedBacking α) :
    Outcome PageError (PagePool × PageStore α) :=
  let (mapped, pool₁) := pool.hostCall
  let (readable, pool₂) := pool₁.hostCall
  let (moved, pool₃) := pool₂.hostCall
  if store.paged = false ∨ ¬ SameGeometry store backing then
    .refused ⟨.format, "state prefix backing geometry is incompatible"⟩ (pool, store)
  else if !mapped then
    .refused ⟨.nomem, "state prefix mapping installation failed"⟩ (pool₁, store)
  else if !readable then
    .refused ⟨.nomem, "state prefix page protection failed"⟩ (pool₂, store)
  else match u64Add pool.pageReleaseCount store.residentPages with
  | none => .refused ⟨.bounds, "state prefix release accounting overflowed"⟩ (pool₂, store)
  | some releases =>
    if pool.residentBytes < store.residentBytes ∨
        pool.residentPageCount < store.residentPages then
      .refused ⟨.bounds, "state prefix release accounting overflowed"⟩ (pool₂, store)
    else if !moved then
      .refused ⟨.nomem, "state prefix mapping replacement failed"⟩ (pool₃, store)
    else
      .done ({ pool with
          residentBytes := pool.residentBytes - store.residentBytes
          residentPageCount := pool.residentPageCount - store.residentPages
          pageReleaseCount := releases
          host := (pool₃.host.sharedRetain backing.backing).sharedRelease store.shared },
        storeMapped store backing)

def storeCleared (store : PageStore α) (resident pages : ℕ) : PageStore α :=
  { store with
    committed := fun _ => false
    systemCommitted := fun _ => false
    privateCommitted := fun _ => false
    privateSystemCommitted := fun _ => false
    residentBytes := resident
    residentPages := pages
    residentSystemPages := 0
    shared := none
    written := fun _ => none }

def storeReset (pool : PagePool) (store : PageStore α) :
    Outcome PageError (PagePool × PageStore α) :=
  if !store.paged && store.shared.isNone then
    .done (pool, { store with written := fun _ => none })
  else
    let targetResident := if store.paged then 0 else store.requestedBytes
    let targetPages := if store.paged then 0 else store.pageCount
    if pool.residentBytes < store.residentBytes ∨
        pool.residentPageCount < store.residentPages then
      .refused ⟨.state, "state page reset accounting is inconsistent"⟩ (pool, store)
    else match u64Add pool.pageReleaseCount store.residentPages,
        u64Add (pool.residentBytes - store.residentBytes) targetResident,
        u64Add (pool.residentPageCount - store.residentPages) targetPages with
    | some releases, some resident, some pages =>
      if pool.maximumBytes ≠ 0 ∧ (pool.maximumBytes < pool.metadataBytes ∨
          pool.maximumBytes - pool.metadataBytes < resident) then
        .refused ⟨.bounds, "state page reset exceeds its host budget"⟩ (pool, store)
      else if pool.hostCall.1 then
        .done ({ pool with
            residentBytes := resident
            residentPageCount := pages
            pageReleaseCount := releases
            host := pool.hostCall.2.host.sharedRelease store.shared },
          storeCleared store targetResident targetPages)
      else .refused ⟨.nomem, "state anonymous mapping replacement failed"⟩
        (pool.hostCall.2, store)
    | _, _, _ => .refused ⟨.bounds, "state page release counter overflowed"⟩ (pool, store)

def storeClose (pool : PagePool) (store : PageStore α) : PagePool :=
  { pool with
    metadataBytes := pool.metadataBytes - store.metadataCharge
    residentBytes := pool.residentBytes - store.residentBytes
    virtualBytes := pool.virtualBytes - store.requestedBytes
    pageCount := pool.pageCount - store.pageCount
    residentPageCount := pool.residentPageCount - store.residentPages
    pageReleaseCount :=
      (u64Add pool.pageReleaseCount store.residentPages).getD pool.pageReleaseCount
    storeCount := pool.storeCount - 1
    host := pool.host.sharedRelease store.shared }

def poolBindCapacity (pool : PagePool) (capacity : Option ExecutionCapacityPlan) :
    Outcome PageError PagePool :=
  let sums := do
    let plan ← capacity
    let stateBudget ← u64Add plan.statePoolBytes plan.candidateReserveBytes
    let budget ← u64Add stateBudget plan.graphBytes
    let required ← u64Add pool.metadataBytes pool.residentBytes
    some (budget, required)
  match sums with
  | none => .refused ⟨.invalidArg, "state capacity budget is invalid"⟩ pool
  | some (budget, required) =>
    if budget ≠ 0 ∧ budget < required then
      .refused ⟨.bounds, "state capacity is below committed page bytes"⟩ pool
    else if budget ≠ 0 ∧ (pool.maximumBytes = 0 ∨ budget < pool.maximumBytes) then
      .done { pool with maximumBytes := budget }
    else .done pool

structure PageWorld (α : Type) where
  pool : PagePool
  stores : ℕ → Option (PageStore α)
  tables : ℕ → ℕ × ℕ
  backings : List (SharedBacking α)

inductive PageEvent where
  | opens (slot elementCount elementWidth pageElements : ℕ) (paged : Bool)
  | touch (slot elementStart elementCount : ℕ)
  | share (slot : ℕ) (identity : Option Identity)
  | install (slot backing : ℕ)
  | reset (slot : ℕ)
  | close (slot : ℕ)
  | reserve (table limit : ℕ)
  | release (table : ℕ)
  | bind (capacity : Option ExecutionCapacityPlan)

namespace PageWorld

def start (maximumBytes : ℕ) (host : Host) : PageWorld α where
  pool := ⟨maximumBytes, 0, 0, 0, 0, 0, 0, 0, 0, host⟩
  stores := fun _ => none
  tables := fun _ => (0, 0)
  backings := []

def onStore (world : PageWorld α) (slot : ℕ)
    (call : PageStore α → Outcome PageError (PagePool × PageStore α)) : PageWorld α :=
  match world.stores slot with
  | none => world
  | some store => { world with
      pool := (call store).state.1
      stores := Function.update world.stores slot (some (call store).state.2) }

def step [Inhabited α] (slots tables : ℕ) (world : PageWorld α) : PageEvent → PageWorld α
  | .opens slot elementCount elementWidth pageElements paged =>
    if slot < slots ∧ (world.stores slot).isNone then
      let opened := (storeOpen world.pool elementCount elementWidth pageElements paged).state
      { world with pool := opened.1, stores := Function.update world.stores slot opened.2 }
    else world
  | .touch slot elementStart elementCount =>
    if slot < slots then
      world.onStore slot fun store => storeTouch world.pool store elementStart elementCount
    else world
  | .share slot identity =>
    match world.stores slot with
    | none => world
    | some store =>
      let sealed := (sharedOpen world.pool store identity).state
      { world with pool := sealed.1, backings := world.backings ++ sealed.2.toList }
  | .install slot index =>
    match world.backings[index]? with
    | none => world
    | some backing =>
      if slot < slots then
        world.onStore slot fun store => storeInstallShared world.pool store backing
      else world
  | .reset slot => if slot < slots then world.onStore slot (storeReset world.pool) else world
  | .close slot =>
    match world.stores slot with
    | none => world
    | some store =>
      if slot < slots then
        { world with
          pool := storeClose world.pool store
          stores := Function.update world.stores slot none }
      else world
  | .reserve table limit =>
    if table < tables then
      let held := (Provider.pointerTableReserve world.pool (world.tables table).1
        (world.tables table).2 limit).state
      { world with pool := held.1, tables := Function.update world.tables table held.2 }
    else world
  | .release table =>
    if table < tables then
      { world with
        pool := poolRelease world.pool (world.tables table).2
        tables := Function.update world.tables table (0, 0) }
    else world
  | .bind capacity => { world with pool := (poolBindCapacity world.pool capacity).state }

end PageWorld

end Yvex.StatePages
