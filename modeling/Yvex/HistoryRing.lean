import Yvex.RingWindow
import Yvex.StateBank

/-!
# The ring of the local history

A publication appends its rows to the local history of a bank. Seen as cells of one row of
values and one position, the storage is a doubled ring and every row is one push.
-/

set_option autoImplicit false

namespace Yvex.StateBank

open AttentionData RingWindow StatePages RowMemory List

abbrev Cell := List Scalar × ℕ

def ringOf (component : ComponentRecipe) (s : RowState) : RingWindow.Ring Cell where
  start := s.storage.start
  count := s.count
  cells := fun i =>
    (RowMemory.row component.valueWidth s.storage.valuePages.read i, s.storage.positionPages.read i)

def publishedRow (component : ComponentRecipe) (span : PublicationSpan) (tokenPosition row : ℕ) :
    Cell :=
  ((List.range component.valueWidth).map fun j =>
    (span.values.getD fun _ => default) (row * span.width + j), tokenPosition + row)

def publishedRows (component : ComponentRecipe) (publication : Publication) : List Cell :=
  (List.range publication.tokenCount).map
    (publishedRow component (statePublicationHistory publication .localHistory)
      publication.tokenPosition)

variable {α : Type}

theorem read_writeBlock [Inhabited α] (st : PageStore α) (b n : ℕ) (src : ℕ → α) (r : Bool) :
    (st.writeBlock b n src r).read = RowMemory.writeBlock st.read b n src := by
  funext i
  unfold PageStore.writeBlock PageStore.read writeBlock
  by_cases hi : b ≤ i ∧ i < b + n
  · simp only [if_pos hi]
  · simp only [if_neg hi]

/-- A written row stands at its slot and one capacity above it. -/
theorem row_twice [Inhabited α] (st : PageStore α) {cap j w : ℕ} (src : ℕ → α) (i : ℕ) :
    let hw := st.writeBlock (j * w) w src true
    row w (hw.copyBlock hw ((j + cap) * w) (j * w) w).read i =
      RingWindow.store cap j ((range w).map src) (row w st.read) i := by
  intro hw
  have h1 : row w hw.read j = (range w).map src := by
    rw [read_writeBlock]
    exact row_writeBlock_self ..
  rw [PageStore.copyBlock, read_writeBlock]
  by_cases ht : i = j + cap
  · subst ht
    rw [row_writeBlock_self, store_at_twin]
    exact h1
  rw [row_writeBlock_ne _ _ ht]
  by_cases hh : i = j
  · subst hh
    rw [h1, store_at_slot]
  · rw [read_writeBlock, row_writeBlock_ne _ _ hh, store_other hh ht]

theorem position_twice [Inhabited α] (st : PageStore α) {cap j : ℕ} (x : α) (i : ℕ) :
    let hw := st.writeBlock j 1 (fun _ => x) true
    (hw.copyBlock hw (j + cap) j 1).read i = RingWindow.store cap j x st.read i := by
  intro hw
  have h1 : hw.read = fun i => if i = j then x else st.read i := by
    funext i
    rw [read_writeBlock, writeBlock]
    exact if_congr (by omega) rfl rfl
  rw [PageStore.copyBlock, read_writeBlock, h1, writeBlock]
  by_cases ht : i = j + cap
  · rw [if_pos (by omega), ht, store_at_twin]
    simp
  rw [if_neg (by omega)]
  by_cases hh : i = j
  · rw [if_pos hh, hh, store_at_slot]
  · rw [if_neg hh, store_other hh ht]

theorem store_pair {β : Type} (cap j : ℕ) (x : α × β) (left : ℕ → α) (right : ℕ → β) :
    RingWindow.store cap j x (fun i => (left i, right i)) =
      fun i => (RingWindow.store cap j x.1 left i, RingWindow.store cap j x.2 right i) := by
  funext i
  unfold RingWindow.store
  split_ifs <;> rfl

variable {sp : PublicationSpan}

theorem appendRow_ring (c : ComponentRecipe)
    (ring : sp.positions = none) (tp : ℕ) (s : RowState) (row : ℕ) :
    ringOf c (appendRow c sp tp s row) = (ringOf c s).push c.capacity
        (publishedRow c sp tp row) := by
  have next : nextSlot c.capacity sp.positions.isSome s.storage.start s.count =
      nextSlot c.capacity false s.storage.start s.count := by rw [ring]; rfl
  unfold appendRow Ring.push
  rw [next, ring]
  simp only [ringOf, Option.isSome_none, Bool.false_eq_true, if_false, row_twice, position_twice,
    store_pair]
  by_cases hf : s.count = c.capacity <;> simp [nextSlot, hf, publishedRow]

theorem appendRows_ring (c : ComponentRecipe) (ring : sp.positions = none) (tp : ℕ) (s : RowState) :
    ringOf c (appendRows c sp tp s) = (ringOf c s).pushAll c.capacity
        ((List.range sp.count).map (publishedRow c sp tp)) := by
  unfold appendRows Ring.pushAll
  rw [foldl_map]
  generalize range sp.count = rs
  induction rs generalizing s with
  | nil => rfl
  | cons row rs ih => rw [foldl_cons, foldl_cons, ih, appendRow_ring c ring]

def localState (bank : Bank) : RowState :=
  ⟨(bank.view.history .localHistory).count, bank.history .localHistory⟩

def isLocal (component : ComponentRecipe) : Bool :=
  match component.binding with
  | .history .localHistory => true
  | _ => false

def appendLocal (publication : Publication) (s : RowState) (component : ComponentRecipe) :
    RowState :=
  if component.capacity = 0 then s
  else appendRows component (statePublicationHistory publication .localHistory)
    publication.tokenPosition s

theorem appendComponent_local (p : Publication) (ba : Bank) (c : ComponentRecipe) :
    localState (appendComponent p ba c) =
      if isLocal c then appendLocal p (localState ba) c
      else localState ba := by
  unfold appendComponent isLocal appendLocal localState
  cases c.binding with
  | rolling => rfl
  | history b =>
    by_cases hc : c.capacity = 0
    · simp [hc]
    cases b with
    | localHistory =>
      simp only [hc, if_false, if_true, Bank.setSpan, Bank.setHistory, Function.update_self]
      split_ifs <;> rfl
    | compressedHistory | indexerHistory => simp [hc, Bank.setSpan, Bank.setHistory]

theorem historyAppend_local (r : StateRecipe) (p : Publication) (b : Bank) :
    localState (historyAppend r p b) =
      (r.components.filter isLocal).foldl (appendLocal p) (localState b) := by
  unfold historyAppend
  generalize r.components = cm
  induction cm generalizing b with
  | nil => rfl
  | cons c cm ih =>
    rw [foldl_cons, ih, appendComponent_local]
    by_cases hh : isLocal c = true
    · rw [if_pos hh, filter_cons_of_pos hh, foldl_cons]
    · rw [if_neg hh, filter_cons_of_neg hh]

def localRing (component : ComponentRecipe) (bank : Bank) : RingWindow.Ring Cell :=
  ringOf component (localState bank)

def appendAll (recipe : StateRecipe) (publications : List Publication) (bank : Bank) : Bank :=
  publications.foldl (fun bank publication => historyAppend recipe publication bank) bank

theorem appendAll_ring {r : StateRecipe} {c : ComponentRecipe}
    (once : r.components.filter isLocal = [c]) (hp : 0 < c.capacity)
    (ps : List Publication) (b : Bank) :
    localRing c (appendAll r ps b) = (localRing c b).pushAll c.capacity
        (ps.flatMap (publishedRows c)) := by
  unfold appendAll
  induction ps generalizing b with
  | nil => rfl
  | cons p ps ih =>
    rw [foldl_cons, ih, flatMap_cons, Ring.pushAll, Ring.pushAll, foldl_append]
    congr 1
    rw [localRing, historyAppend_local, once, foldl_cons, foldl_nil, appendLocal, if_neg (by omega)]
    exact appendRows_ring c rfl _ _

/-- After any batches the span from `start` holds the newest rows of all that were appended,
with their positions, and every occupied slot is stored twice. -/
theorem ring_window_law (recipe : StateRecipe) (component : ComponentRecipe)
    (once : recipe.components.filter isLocal = [component]) (positive : 0 < component.capacity)
    (bank : Bank) (consistent : (localRing component bank).Mirrored component.capacity)
    (publications : List Publication) :
    let rows := (localRing component bank).window ++
      publications.flatMap (publishedRows component)
    let ring := localRing component (appendAll recipe publications bank)
    ring.window = newest component.capacity rows ∧
      ring.count = min component.capacity rows.length ∧ ring.start < component.capacity ∧
      ∀ k < ring.count, ring.cells ((ring.start + k) % component.capacity + component.capacity) =
        ring.cells ((ring.start + k) % component.capacity) := by
  intro rows ring
  have pushed : ring = _ := appendAll_ring once positive publications bank
  have window : ring.window = newest component.capacity rows := by
    rw [pushed]
    exact consistent.window_pushAll _
  have mirrored : ring.Mirrored component.capacity := by
    rw [pushed]
    exact consistent.pushAll _
  refine ⟨window, ?_, mirrored.start_lt, mirrored.twin⟩
  rw [← Ring.length_window, window, length_newest]

def pairComponent : ComponentRecipe := ⟨1, 0, .history .localHistory, 2, 1, .zero⟩

def pairRecipe : StateRecipe := ⟨1, 0, 0, 0, 0, [pairComponent], [], []⟩

def openStore (α : Type) : PageStore α where
  elementCount := 4
  elementWidth := 4
  pageElements := 4
  requestedBytes := 16
  mappedBytes := 16
  pageCount := 1
  systemPageCount := 1
  systemPageBytes := 16
  paged := false
  committed := fun _ => true
  systemCommitted := fun _ => true
  privateCommitted := fun _ => true
  privateSystemCommitted := fun _ => true
  metadataCharge := 0
  residentBytes := 16
  residentPages := 1
  residentSystemPages := 1
  shared := none
  written := fun _ => none
  trapped := false

def emptyBank : Bank where
  view := ⟨0, fun _ => ⟨0, 1, .storage, .storage⟩, fun _ => .zero, true⟩
  history := fun _ => ⟨1, openStore Scalar, openStore ℕ⟩
  rolling := fun _ => ⟨openStore Scalar, openStore Scalar⟩
  stateIdentity := []

def threeTokens : Publication where
  complete := true
  prefixAddressable := false
  deviceCompletionPending := false
  executionIdentity := []
  tokenIds := none
  layerIndex := 0
  tokenPosition := 5
  tokenCount := 3
  kvWidth := 1
  compressedCount := 0
  compressedStride := 0
  indexerCount := 0
  indexerStride := 0
  rawKv := some fun i => 10 + UInt32.ofNat i
  compressedKv := none
  indexerKv := none
  compressedPositions := none
  indexerPositions := none
  rollingCheckpointCount := 0
  rollingKvCheckpoints := fun _ => none
  rollingScoreCheckpoints := fun _ => none
  nextRollingState := fun _ => .zero

theorem ring_window_law_three :
    (localRing pairComponent (appendAll pairRecipe [threeTokens] emptyBank)).window =
      [([11], 6), ([12], 7)] := by
  have law := ring_window_law pairRecipe pairComponent rfl Nat.two_pos emptyBank
    ⟨Nat.one_lt_two, Nat.zero_le 2, fun k hk => absurd hk (Nat.not_lt_zero k)⟩ [threeTokens]
  exact law.1.trans rfl

end Yvex.StateBank
