import Yvex.AttentionData
import Yvex.CheckedArithmetic
import Yvex.RefusableStep
import Yvex.RowMemory

/-!
# Paged state storage

A store reserves its whole virtual extent and commits semantic pages on demand,
charging the host pages behind them to a pool with a byte budget. A store may be
mapped privately over an immutable shared backing: a page then is readable as
soon as the backing holds it, and writable once a touch has made it private.
Memory is what the processor reads through the mapping: private writes over the
backing, or over zero-filled host pages. An access outside the committed pages,
or a write outside the private ones, would end the process; `trapped` records it.
-/

set_option autoImplicit false

namespace Yvex.StatePages

open AttentionData CheckedArithmetic RefusableStep

structure PageError where
  status : Status
  reason : String

/-- Everything a call takes from outside the process: the outcome of each
fallible host call in order, the host page size, and the reference counts of
the shared backings with the backings that have been freed. -/
structure Host where
  outcomes : List Bool
  pageBytes : ℕ
  references : ℕ → ℕ
  nextBacking : ℕ
  freed : List ℕ

def Host.call (host : Host) : Bool × Host :=
  match host.outcomes with
  | [] => (true, host)
  | outcome :: rest => (outcome, { host with outcomes := rest })

structure PagePool where
  maximumBytes : ℕ
  metadataBytes : ℕ
  residentBytes : ℕ
  virtualBytes : ℕ
  pageCount : ℕ
  residentPageCount : ℕ
  pageCommitCount : ℕ
  pageReleaseCount : ℕ
  storeCount : ℕ
  host : Host

def PagePool.hostCall (pool : PagePool) : Bool × PagePool :=
  (pool.host.call.1, { pool with host := pool.host.call.2 })

structure SharedBacking (α : Type) where
  backing : ℕ
  content : ℕ → α
  committed : ℕ → Bool
  systemCommitted : ℕ → Bool
  elementCount : ℕ
  elementWidth : ℕ
  pageElements : ℕ
  mappedBytes : ℕ
  requestedBytes : ℕ
  pageCount : ℕ
  systemPageBytes : ℕ
  residentBytes : ℕ
  identity : Identity

structure PageStore (α : Type) where
  elementCount : ℕ
  elementWidth : ℕ
  pageElements : ℕ
  requestedBytes : ℕ
  mappedBytes : ℕ
  pageCount : ℕ
  systemPageCount : ℕ
  systemPageBytes : ℕ
  paged : Bool
  committed : ℕ → Bool
  systemCommitted : ℕ → Bool
  privateCommitted : ℕ → Bool
  privateSystemCommitted : ℕ → Bool
  metadataCharge : ℕ
  residentBytes : ℕ
  residentPages : ℕ
  residentSystemPages : ℕ
  shared : Option (SharedBacking α)
  written : ℕ → Option α
  trapped : Bool

namespace PageStore

variable {α : Type}

def isOpen (store : PageStore α) : Bool := store.elementCount != 0

def read [Inhabited α] (store : PageStore α) (i : ℕ) : α :=
  -- A private mapping reads its own writes, then the sealed backing, then the zeros of a
  -- fresh host page.
  match store.written i, store.shared with
  | some x, _ => x
  | none, some backing => backing.content i
  | none, none => default

def readable (store : PageStore α) (i : ℕ) : Bool :=
  decide (i < store.elementCount) && (!store.paged || store.committed (i / store.pageElements))

def writable (store : PageStore α) (i : ℕ) : Bool :=
  store.readable i &&
    (store.shared.isNone || store.privateCommitted (i / store.pageElements))

def readableBlock (store : PageStore α) (base length : ℕ) : Bool :=
  (List.range length).all fun j => store.readable (base + j)

def writableBlock (store : PageStore α) (base length : ℕ) : Bool :=
  (List.range length).all fun j => store.writable (base + j)

def writeBlock (store : PageStore α) (base length : ℕ) (source : ℕ → α)
    (sourceReadable : Bool) : PageStore α :=
  { store with
    written := RowMemory.writeBlock store.written base length fun j => some (source j)
    trapped := store.trapped || !sourceReadable || !store.writableBlock base length }

def copyBlock [Inhabited α] (target source : PageStore α) (targetBase sourceBase length : ℕ) :
    PageStore α :=
  target.writeBlock targetBase length (fun j => source.read (sourceBase + j))
    (source.readableBlock sourceBase length)

end PageStore

def poolAdmit (pool : PagePool) (metadata resident : ℕ) : Bool :=
  match u64Add pool.metadataBytes pool.residentBytes, u64Add metadata resident with
  | some current, some added =>
    match u64Add current added with
    | some required => pool.maximumBytes == 0 || decide (required ≤ pool.maximumBytes)
    | none => false
  | _, _ => false

def poolReserve (pool : PagePool) (bytes : ℕ) : Outcome PageError PagePool :=
  match poolAdmit pool bytes 0, u64Add pool.metadataBytes bytes with
  | true, some metadata => .done { pool with metadataBytes := metadata }
  | _, _ => .refused ⟨.bounds, "state page-pool metadata exceeds its host budget"⟩ pool

def poolRelease (pool : PagePool) (bytes : ℕ) : PagePool :=
  if bytes ≤ pool.metadataBytes then { pool with metadataBytes := pool.metadataBytes - bytes }
  else pool

end Yvex.StatePages
