import Yvex.CapacityPlan
import Yvex.StatePageCommit

/-!
# Banks of component storage

A bank is one physical copy of a layer's state: a history view and the page
stores behind its components. The local history is a ring whose rows are kept
twice, at their slot and one capacity above it; compressed and indexer rows are
appended once; a rolling component is one fixed array of values and one of scores.
Page admission touches runs of slots, append writes one row at a time: both walk
the ring from the bank's start, and neither reads what the other computed.
-/

set_option autoImplicit false

namespace Yvex.StateBank

open AttentionData CheckedArithmetic RefusableStep StatePages

structure HistoryStorage where
  start : ℕ
  valuePages : PageStore Scalar
  positionPages : PageStore ℕ

structure RollingStorage where
  valuePages : PageStore Scalar
  auxiliaryPages : PageStore Scalar

structure Bank where
  view : HistoryView
  history : HistoryBinding → HistoryStorage
  rolling : RollingBinding → RollingStorage
  stateIdentity : Identity

def Bank.setHistory (bank : Bank) (b : HistoryBinding) (storage : HistoryStorage) : Bank :=
  { bank with history := Function.update bank.history b storage }

def Bank.setRolling (bank : Bank) (b : RollingBinding) (storage : RollingStorage) : Bank :=
  { bank with rolling := Function.update bank.rolling b storage }

def Bank.setSpan (bank : Bank) (b : HistoryBinding) (span : HistorySpan) : Bank :=
  { bank with view := { bank.view with history := Function.update bank.view.history b span } }

def Bank.setRollingView (bank : Bank) (b : RollingBinding) (view : RollingView) : Bank :=
  { bank with view := { bank.view with rolling := Function.update bank.view.rolling b view } }

def Bank.origin (bank : Bank) : HistoryBinding → ℕ
  | .localHistory => (bank.history .localHistory).start
  | _ => 0

def Bank.spanOf (bank : Bank) (b : HistoryBinding) : HistorySpan :=
  let span := bank.view.history b
  let storage := bank.history b
  { span with
    kv := Pointer.deref
      (fun i => storage.valuePages.read (bank.origin b * span.stride + i)) span.kv
    positions := Pointer.deref
      (fun i => storage.positionPages.read (bank.origin b + i)) span.positions }

def Bank.rollingOf (bank : Bank) (b : RollingBinding) : RollingView :=
  let view := bank.view.rolling b
  let storage := bank.rolling b
  { view with
    kvState := Pointer.deref storage.valuePages.read view.kvState
    scoreState := Pointer.deref storage.auxiliaryPages.read view.scoreState }

def Bank.resolved (bank : Bank) : HistoryView :=
  { bank.view with
    history := bank.spanOf
    rolling := bank.rollingOf }

def pointerTo {α : Type} (store : PageStore α) : Pointer α :=
  if store.isOpen then .storage else .null

def bindComponent (bank : Bank) (component : ComponentRecipe) : Bank :=
  match component.binding with
  | .rolling b => bank.setRollingView b { bank.view.rolling b with
      kvState := pointerTo (bank.rolling b).valuePages
      scoreState := pointerTo (bank.rolling b).auxiliaryPages }
  | .history b => bank.setSpan b { bank.view.history b with
      stride := component.valueWidth
      kv := pointerTo (bank.history b).valuePages
      positions := pointerTo (bank.history b).positionPages }

def bankPagesBind (recipe : StateRecipe) (bank : Bank) : Bank :=
  let bound := recipe.components.foldl bindComponent bank
  { bound with view := { bound.view with immutable := true } }

def componentTouchHistory (valueWidth rowStart rowCount : ℕ) (pool : PagePool)
    (storage : HistoryStorage) : Outcome PageError (PagePool × HistoryStorage) :=
  if rowCount = 0 then .done (pool, storage)
  else match storage.positionPages.isOpen, u64Mul rowStart valueWidth,
      u64Mul rowCount valueWidth with
  | true, some valueStart, some valueCount =>
    ((storeTouch pool storage.valuePages valueStart valueCount).map
      fun s => (s.1, { storage with valuePages := s.2 })).andThen fun s =>
    (storeTouch s.1 s.2.positionPages rowStart rowCount).map
      fun t => (t.1, { s.2 with positionPages := t.2 })
  | _, _, _ => .refused ⟨.bounds, "state history page range overflowed"⟩ (pool, storage)

def touchRolling (kvExtent scoreExtent : ℕ) (pool : PagePool) (storage : RollingStorage) :
    Outcome PageError (PagePool × RollingStorage) :=
  ((storeTouch pool storage.valuePages 0 kvExtent).map
    fun s => (s.1, { storage with valuePages := s.2 })).andThen fun s =>
  (storeTouch s.1 s.2.auxiliaryPages 0 scoreExtent).map
    fun t => (t.1, { s.2 with auxiliaryPages := t.2 })

structure RingRun where
  slot : ℕ
  contiguous : ℕ
  start : ℕ
  count : ℕ

def nextRun (capacity : ℕ) (positionBacked : Bool) (remaining start count : ℕ) :
    Option RingRun :=
  let full := !positionBacked && count == capacity
  if !full && decide (capacity ≤ count) then none
  else
    let start₁ := if full then (start + 1) % capacity else start
    let slot := if full then (start₁ + capacity - 1) % capacity else (start + count) % capacity
    let count₁ := if full then count else count + 1
    let contiguous := min (capacity - slot) remaining
    if !positionBacked && count₁ == capacity && decide (1 < contiguous) then
      some ⟨slot, contiguous, (start₁ + contiguous - 1) % capacity, count₁⟩
    else if positionBacked then some ⟨slot, contiguous, start₁, count₁ + (contiguous - 1)⟩
    else if count₁ < capacity then
      let advance := min (contiguous - 1) (capacity - count₁)
      some ⟨slot, contiguous,
        if advance < contiguous - 1 then (start₁ + contiguous - 1 - advance) % capacity
        else start₁, count₁ + advance⟩
    else some ⟨slot, contiguous, start₁, count₁⟩

structure RunState where
  start : ℕ
  count : ℕ
  pool : PagePool
  storage : HistoryStorage

def touchRuns (component : ComponentRecipe) (positionBacked : Bool) :
    ℕ → ℕ → RunState → Outcome PageError RunState
  -- Touches every run of `remaining` rows; each run is at least one row, so the first
  -- argument bounds the number of runs.
  | 0, _, s => .done s
  | fuel + 1, remaining, s =>
    if remaining = 0 then .done s
    else match nextRun component.capacity positionBacked remaining s.start s.count with
    | none => .refused ⟨.bounds, "position-backed state history exceeds capacity"⟩ s
    | some run =>
      ((componentTouchHistory component.valueWidth run.slot run.contiguous s.pool
          s.storage).andThen fun t =>
        if positionBacked then .done t
        else componentTouchHistory component.valueWidth (run.slot + component.capacity)
          run.contiguous t.1 t.2).map (fun t => RunState.mk run.start run.count t.1 t.2)
        |>.andThen (touchRuns component positionBacked fuel (remaining - run.contiguous))

def publicationSpan (publication : Publication) : HistoryBinding → ℕ × Bool
  | .localHistory => (publication.tokenCount, false)
  | .compressedHistory => (publication.compressedCount, publication.compressedPositions.isSome)
  | .indexerHistory => (publication.indexerCount, publication.indexerPositions.isSome)

def prepareHistory (publications : List Publication) (component : ComponentRecipe)
    (b : HistoryBinding) (s : PagePool × Bank) : Outcome PageError (PagePool × Bank) :=
  if component.capacity = 0 then .done s
  else
    (forEach (fun publication t =>
        touchRuns component (publicationSpan publication b).2 (publicationSpan publication b).1
          (publicationSpan publication b).1 t)
      publications ⟨(s.2.history b).start, (s.2.view.history b).count, s.1, s.2.history b⟩).map
      fun t => (t.pool, s.2.setHistory b t.storage)

def prepareComponent (publications : List Publication) (component : ComponentRecipe)
    (s : PagePool × Bank) : Outcome PageError (PagePool × Bank) :=
  match component.binding with
  | .history b => prepareHistory publications component b s
  | .rolling b =>
    (touchRolling component.rolling.kvStateExtent component.rolling.scoreStateExtent s.1
      (s.2.rolling b)).map fun t => (t.1, s.2.setRolling b t.2)

def preparePublications (recipe : StateRecipe) (publications : List Publication)
    (pool : PagePool) (bank : Bank) : Outcome PageError (PagePool × Bank) :=
  forEach (prepareComponent publications) recipe.components (pool, bank)

structure RowState where
  count : ℕ
  storage : HistoryStorage

def nextSlot (capacity : ℕ) (positionBacked : Bool) (start count : ℕ) : ℕ × ℕ × ℕ :=
  if !positionBacked && count == capacity then
    (((start + 1) % capacity + capacity - 1) % capacity, (start + 1) % capacity, count)
  else ((start + count) % capacity, start, count + 1)

def appendRow (component : ComponentRecipe) (span : PublicationSpan) (tokenPosition : ℕ)
    (s : RowState) (row : ℕ) : RowState :=
  let width := component.valueWidth
  let (slot, start, count) :=
    nextSlot component.capacity span.positions.isSome s.storage.start s.count
  let values := s.storage.valuePages.writeBlock (slot * width) width
    (fun j => (span.values.getD fun _ => default) (row * span.width + j)) true
  let position := match span.positions with
    | some positions => positions row
    | none => tokenPosition + row
  let positions := s.storage.positionPages.writeBlock slot 1 (fun _ => position) true
  if span.positions.isSome then ⟨count, ⟨start, values, positions⟩⟩
  else
    -- The ring keeps each row a second time, one capacity above its slot.
    ⟨count, ⟨start,
      values.copyBlock values ((slot + component.capacity) * width) (slot * width) width,
      positions.copyBlock positions (slot + component.capacity) slot 1⟩⟩

def appendRows (component : ComponentRecipe) (span : PublicationSpan) (tokenPosition : ℕ)
    (s : RowState) : RowState :=
  (List.range span.count).foldl (appendRow component span tokenPosition) s

def appendComponent (publication : Publication) (bank : Bank) (component : ComponentRecipe) :
    Bank :=
  match component.binding with
  | .rolling _ => bank
  | .history b =>
    if component.capacity = 0 then bank
    else
      let span := statePublicationHistory publication b
      let view := bank.view.history b
      let s := appendRows component span publication.tokenPosition ⟨view.count, bank.history b⟩
      let view := { view with count := s.count }
      (bank.setHistory b s.storage).setSpan b
        (if span.positions.isNone ∧ span.count ≠ 0 then
          { view with kv := .storage, positions := .storage } else view)

def historyAppend (recipe : StateRecipe) (publication : Publication) (bank : Bank) : Bank :=
  recipe.components.foldl (appendComponent publication) bank

end Yvex.StateBank
