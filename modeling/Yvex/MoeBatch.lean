import Yvex.BatchScheduler
import Yvex.RowMemory

/-!
# One physical MoE execution for several tickets

The tickets of a batch are sorted by their source. The first one lends its buffers: the rows
of every ticket are copied into them one behind the other, executed together, and the result
rows are copied back. A device tensor is a range of an allocation.
-/

set_option autoImplicit false

namespace Yvex.MoeBatch

open AttentionData CheckedArithmetic RowMemory List

open ProgressScheduler (schedulerRefuse)

structure Tensor where
  owner : ℕ
  allocation : ℕ
  data : ℕ
  elements : ℕ
  shape : List ℕ
  isFloat : Bool
  isWritten : Bool

abbrev Device := ℕ → ℕ → Scalar

def Tensor.view (tensor : Tensor) (device : Device) : ℕ → Scalar := fun i =>
  device tensor.allocation (tensor.data + i)

def Tensor.contents (tensor : Tensor) (device : Device) : List Scalar :=
  (List.range tensor.elements).map (tensor.view device)

def write (device : Device) (tensor : Tensor) (values : ℕ → Scalar) : Device := fun allocation =>
  if allocation = tensor.allocation then
    writeBlock (device allocation) tensor.data tensor.elements values
  else device allocation

def tensorSubview (source : Tensor) (offset count : ℕ) : Option Tensor :=
  if !source.isFloat || decide (wordLimit - 1 - count < offset) ||
      decide (source.elements < offset + count) then none
  else some { source with shape := [count], elements := count, data := source.data + offset }

def tensorSameShape (a b : Tensor) : Bool :=
  a.isFloat == b.isFloat && a.shape == b.shape && a.elements == b.elements

def compatibleTensorSameView (left right : Tensor) : Bool :=
  left.owner == right.owner && left.allocation == right.allocation && left.data == right.data &&
    left.elements == right.elements

structure Transformer where
  expandedWidth : ℕ
  hiddenWidth : ℕ
  residualStreams : ℕ

structure MoeTicket where
  identity : Identity
  actualWidth : ℕ
  rowCount : ℕ
  rowCapacity : ℕ
  transformer : Transformer
  backend : ℕ
  deviceRows : Tensor
  deviceOutputs : Tensor
  batchDeviceRows : Tensor
  batchDeviceOutputs : Tensor
  envelopeOutput : ℕ → Scalar
  tokenIds : ℕ → ℕ
  tokenPosition : ℕ
  verifies : Bool

structure BatchRow where
  sourceIndex : ℕ
  sourceRow : ℕ
  sequencePosition : ℕ
  candidatePresent : Bool
  candidateOrdinal : ℕ
  publicationOrdinal : ℕ
  deriving DecidableEq, Repr

structure Joint where
  device : Device
  expandedRows : ℕ → Scalar
  batchTokenIds : ℕ → ℕ
  batchSources : ℕ → Identity
  batchRows : ℕ → BatchRow

structure RowBatch where
  rowCount : ℕ
  rowWidth : ℕ
  deviceRows : ℕ → Scalar
  expandedRows : ℕ → Scalar
  tokenIds : ℕ → ℕ
  sources : ℕ → Identity
  sourceCount : ℕ
  rows : ℕ → BatchRow

structure Environment where
  qsort : List MoeTicket → List MoeTicket
  physicalOwner : ℕ → ℕ
  dispatchAdmit : ℕ → Option Refusal
  copyShared : Tensor → Tensor → Option Refusal
  moeRows : RowBatch → Except Refusal (ℕ → Scalar)
  moeComplete : Option Refusal
  localResult : MoeTicket → Option Refusal

variable (env : Environment)

def tensorCopyShared (executor : ℕ) (destination source : Tensor) (device : Device) :
    Except Refusal Device :=
  match (env.dispatchAdmit executor).or (env.dispatchAdmit source.owner) with
  | some refusal => .error refusal
  | none =>
    if destination.owner ≠ executor ∨ env.physicalOwner source.owner ≠ env.physicalOwner executor ∨
        !tensorSameShape destination source ∨ !source.isWritten then
      .error ⟨.invalidArg, "backend.tensor.copy-shared",
        "same-physical-owner initialized tensor shapes are required", none⟩
    else match env.copyShared destination source with
    | some refusal => .error refusal
    | none => .ok (write device destination (source.view device))

def compatibleMoeCopy (executor : ℕ) (destination source : Tensor) (device : Device) :
    Except Refusal Device :=
  if compatibleTensorSameView destination source then .ok device
  else tensorCopyShared env executor destination source device

def batchRow (ticket : MoeTicket) (index row : ℕ) : BatchRow where
  sourceIndex := index
  sourceRow := row
  sequencePosition := ticket.tokenPosition + row
  candidatePresent := ticket.verifies
  candidateOrdinal := if ticket.verifies then row else 0
  publicationOrdinal := row

def gatherTicket (owner : MoeTicket) (index rowNext : ℕ) (ticket : MoeTicket) (joint : Joint) :
    Except Refusal Joint :=
  let width := owner.transformer.expandedWidth
  match (u64Mul ticket.rowCount width).bind fun values =>
      tensorSubview owner.batchDeviceRows (rowNext * width % wordLimit) values with
  | none => .error (schedulerRefuse .bounds "compatible MoE input view is invalid")
  | some destination =>
    match compatibleMoeCopy env owner.backend destination ticket.deviceRows joint.device with
    | .error refusal => .error refusal
    | .ok device =>
      if (List.range ticket.rowCount).any fun row => (u64Add ticket.tokenPosition row).isNone then
        .error (schedulerRefuse .bounds "compatible MoE row position overflowed")
      else .ok {
        device := device
        expandedRows := writeBlock joint.expandedRows (rowNext * width)
          (ticket.rowCount * width) ticket.envelopeOutput
        batchTokenIds := writeBlock joint.batchTokenIds rowNext ticket.rowCount ticket.tokenIds
        batchSources := Function.update joint.batchSources index ticket.identity
        batchRows := writeBlock joint.batchRows rowNext ticket.rowCount (batchRow ticket index) }

def gather (owner : MoeTicket) : ℕ → ℕ → List MoeTicket → Joint → Except Refusal Joint
  | _, _, [], joint => .ok joint
  | index, rowNext, ticket :: rest, joint =>
    match gatherTicket env owner index rowNext ticket joint with
    | .error refusal => .error refusal
    | .ok joint => gather owner (index + 1) (rowNext + ticket.rowCount) rest joint

def scatter (owner : MoeTicket) (outputs : Tensor) : ℕ → List MoeTicket → Device →
    Except Refusal Device
  | _, [], device => .ok device
  | rowNext, ticket :: rest, device =>
    let width := owner.transformer.expandedWidth
    match (u64Mul ticket.rowCount width).bind fun values =>
        tensorSubview outputs (rowNext * width % wordLimit) values with
    | none => .error (schedulerRefuse .bounds "compatible MoE output view is invalid")
    | some source =>
      match compatibleMoeCopy env ticket.backend ticket.deviceOutputs source device with
      | .error refusal => .error refusal
      | .ok device => scatter owner outputs (rowNext + ticket.rowCount) rest device

def rowBatch (owner : MoeTicket) (rows : Tensor) (sourceCount : ℕ) (joint : Joint) : RowBatch where
  rowCount := owner.actualWidth
  rowWidth := owner.transformer.expandedWidth
  deviceRows := rows.view joint.device
  expandedRows := joint.expandedRows
  tokenIds := joint.batchTokenIds
  sources := joint.batchSources
  sourceCount := sourceCount
  rows := joint.batchRows

def batchViews (owner : MoeTicket) : Option (Tensor × Tensor) :=
  match u64Mul owner.actualWidth owner.transformer.expandedWidth,
      u64Mul owner.actualWidth owner.transformer.hiddenWidth,
      u64Mul owner.actualWidth owner.transformer.residualStreams with
  | some expandedValues, some _, some _ =>
    if owner.rowCapacity < owner.actualWidth then none
    else match tensorSubview owner.batchDeviceRows 0 expandedValues,
        tensorSubview owner.batchDeviceOutputs 0 expandedValues with
    | some rows, some outputs => some (rows, outputs)
    | _, _ => none
  | _, _, _ => none

def compatibleMoeBatchExecute (tickets : List MoeTicket) (joint : Joint) :
    Except Refusal Joint :=
  match env.qsort tickets with
  | [] => .error (schedulerRefuse .invalidArg "compatible MoE batch is empty")
  | owner :: rest =>
    match batchViews owner with
    | none => .error (schedulerRefuse .bounds "compatible MoE batch exceeds sealed capacity")
    | some (rows, outputs) =>
      match gather env owner 0 0 (owner :: rest) joint with
      | .error refusal => .error refusal
      | .ok gathered =>
        match env.moeRows (rowBatch owner rows (owner :: rest).length gathered) with
        | .error refusal => .error refusal
        | .ok values =>
          match env.moeComplete with
          | some refusal => .error refusal
          | none =>
            match scatter env owner { outputs with isWritten := true } 0 (owner :: rest)
                (write gathered.device outputs values) with
            | .error refusal => .error refusal
            | .ok device =>
              match (owner :: rest).findSome? env.localResult with
              | some refusal => .error refusal
              | none => .ok { gathered with device := device }

open MoeTicket Except

def Apart (a b : Tensor) : Prop :=
  a.allocation ≠ b.allocation ∨ a.data + a.elements ≤ b.data ∨ b.data + b.elements ≤ a.data

variable {b : Tensor}

theorem Apart.symm {a : Tensor} (ha : Apart a b) : Apart b a := by
  rcases ha with ho | ra
  · exact .inl (Ne.symm ho)
  · exact .inr (Or.symm ra)

def StartsAt (a b : Tensor) : Prop :=
  a.owner = b.owner ∧ a.allocation = b.allocation ∧ a.data = b.data

theorem view_write (dev : Device) (te : Tensor) (vs : ℕ → Scalar) :
    Placed (te.view (write dev te vs)) 0 te.elements vs := by
  intro j hi
  rw [Nat.zero_add, Tensor.view, write, if_pos rfl,
    writeBlock_inside (by omega) (by omega), Nat.add_sub_cancel_left]

theorem view_write_apart {a : Tensor} (ha : Apart a b) (dev : Device) (vs : ℕ → Scalar)
    {j : ℕ} (hi : j < a.elements) : a.view (write dev b vs) j = a.view dev j := by
  unfold Tensor.view write
  split_ifs with hs
  · rcases ha with ho | ra
    · exact absurd hs ho
    · exact writeBlock_outside _ _ (by omega)
  · rfl

variable {env : Environment} {s d buf : Tensor} {off n executor : ℕ}
  {dev af : Device}

theorem tensorSubview_some (hf : tensorSubview buf off n = some s) :
    s = { buf with shape := [n], elements := n, data := buf.data + off } ∧
      off + n ≤ buf.elements := by
  unfold tensorSubview at hf
  split_ifs at hf with bad
  simp only [Bool.or_eq_true, decide_eq_true_eq, not_or, Nat.not_lt] at bad
  exact ⟨(Option.some.inj hf).symm, bad.2⟩

theorem tensorSubview_view (hf : tensorSubview buf off n = some s) (j : ℕ) :
    s.view dev j = buf.view dev (off + j) := by
  obtain ⟨rfl, -⟩ := tensorSubview_some hf
  unfold Tensor.view
  rw [Nat.add_assoc]

theorem Apart.subview (hf : tensorSubview buf off n = some s) (ha : Apart d buf) : Apart d s := by
  obtain ⟨rfl, hi⟩ := tensorSubview_some hf
  rcases ha with ho | b | hbh
  · exact .inl ho
  · exact .inr (.inl (Nat.le_trans b (Nat.le_add_right _ _)))
  · refine .inr (.inr ?_)
    change buf.data + off + n ≤ d.data
    omega

theorem compatibleMoeCopy_ok (hc : compatibleMoeCopy env executor d s dev = .ok af) :
    d.elements = s.elements ∧ ((compatibleTensorSameView d s = true ∧ af = dev) ∨
        (compatibleTensorSameView d s = false ∧ af = write dev d (s.view dev))) := by
  unfold compatibleMoeCopy at hc
  by_cases hs : compatibleTensorSameView d s = true
  · rw [if_pos hs] at hc
    refine ⟨?_, .inl ⟨hs, (ok.inj hc).symm⟩⟩
    simp only [compatibleTensorSameView, Bool.and_eq_true, beq_iff_eq] at hs
    exact hs.2
  rw [if_neg hs] at hc
  unfold tensorCopyShared at hc
  split at hc
  · cases hc
  split_ifs at hc with bad
  split at hc
  · cases hc
  simp only [not_or, Bool.not_eq_true', Bool.not_eq_false] at bad
  have hsh := bad.2.2.1
  simp only [tensorSameShape, Bool.and_eq_true, beq_iff_eq] at hsh
  exact ⟨hsh.2, .inr ⟨by simpa using hs, (ok.inj hc).symm⟩⟩

theorem compatibleMoeCopy_placed (hcp : compatibleMoeCopy env executor d s dev = .ok af) :
    Placed (d.view af) 0 s.elements (s.view dev) := by
  obtain ⟨sz, ⟨hs, rfl⟩ | ⟨-, rfl⟩⟩ := compatibleMoeCopy_ok hcp
  · intro j _
    simp only [compatibleTensorSameView, Bool.and_eq_true, beq_iff_eq] at hs
    obtain ⟨⟨⟨-, a⟩, data⟩, -⟩ := hs
    simp only [Tensor.view, a, data, Nat.zero_add]
  · rw [← sz]
    exact view_write dev d (s.view dev)

theorem compatibleMoeCopy_apart (hcp : compatibleMoeCopy env executor d s dev = .ok af)
    (ha : Apart buf d) {j : ℕ} (hi : j < buf.elements) :
    buf.view af j = buf.view dev j := by
  obtain ⟨-, ⟨-, rfl⟩ | ⟨-, rfl⟩⟩ := compatibleMoeCopy_ok hcp
  · rfl
  · exact view_write_apart ha dev _ hi

section Gathering

variable {o tk : MoeTicket} {index r : ℕ} {jo next : Joint}

structure GatheredTicket (owner : MoeTicket) (index rowNext : ℕ) (ticket : MoeTicket)
    (joint next : Joint) : Prop where
  elements : ticket.deviceRows.elements = ticket.rowCount * owner.transformer.expandedWidth
  placed : Placed (owner.batchDeviceRows.view next.device)
    (rowNext * owner.transformer.expandedWidth)
    (ticket.rowCount * owner.transformer.expandedWidth) (ticket.deviceRows.view joint.device)
  earlier : ∀ i < rowNext * owner.transformer.expandedWidth,
    owner.batchDeviceRows.view next.device i = owner.batchDeviceRows.view joint.device i
  apart : ∀ tensor, Apart tensor owner.batchDeviceRows → ∀ j < tensor.elements,
    tensor.view next.device j = tensor.view joint.device j
  expandedRows : next.expandedRows = writeBlock joint.expandedRows
    (rowNext * owner.transformer.expandedWidth)
    (ticket.rowCount * owner.transformer.expandedWidth) ticket.envelopeOutput
  tokenIds : next.batchTokenIds =
    writeBlock joint.batchTokenIds rowNext ticket.rowCount ticket.tokenIds
  rows : next.batchRows =
    writeBlock joint.batchRows rowNext ticket.rowCount (batchRow ticket index)

theorem gatherTicket_ok (hsm : r * o.transformer.expandedWidth < wordLimit)
    (hr : gatherTicket env o index r tk jo = .ok next) :
    GatheredTicket o index r tk jo next := by
  simp only [gatherTicket, Nat.mod_eq_of_lt hsm] at hr
  split at hr
  · cases hr
  rename_i d hf
  obtain ⟨vs, p, hf⟩ := Option.bind_eq_some_iff.mp hf
  obtain ⟨-, rfl⟩ := (u64Mul_eq_some ..).mp p
  split at hr
  · cases hr
  rename_i dev hc
  split_ifs at hr
  obtain rfl := ok.inj hr
  obtain ⟨hsh, -⟩ := tensorSubview_some hf
  have sz := (compatibleMoeCopy_ok hc).1
  have e : tk.deviceRows.elements = tk.rowCount * o.transformer.expandedWidth := by rw [← sz, hsh]
  refine ⟨e, ?_, ?_, ?_, rfl, rfl, rfl⟩
  · intro j hi
    rw [← tensorSubview_view hf]
    have hpl := compatibleMoeCopy_placed hc j (by omega)
    rwa [Nat.zero_add] at hpl
  · intro i b
    let front : Tensor := { o.batchDeviceRows with
      elements := r * o.transformer.expandedWidth }
    have ha : Apart front d := by
      rw [hsh]
      exact .inr (.inl le_rfl)
    have hs : front.view dev i = front.view jo.device i := compatibleMoeCopy_apart hc ha b
    exact hs
  · intro te ha j hi
    exact compatibleMoeCopy_apart hc (ha.subview hf) hi

structure GatheredAll (owner : MoeTicket) (start : Device) (index rowNext : ℕ)
    (tickets : List MoeTicket) (joint next : Joint) : Prop where
  elements : ∀ ticket ∈ tickets,
    ticket.deviceRows.elements = ticket.rowCount * owner.transformer.expandedWidth
  device : PlacedAll (owner.batchDeviceRows.view next.device)
    (rowNext * owner.transformer.expandedWidth)
    (fun ticket => ticket.rowCount * owner.transformer.expandedWidth)
    (fun ticket => ticket.deviceRows.view start) tickets
  expanded : PlacedAll next.expandedRows (rowNext * owner.transformer.expandedWidth)
    (fun ticket => ticket.rowCount * owner.transformer.expandedWidth)
    MoeTicket.envelopeOutput tickets
  tokenIds : PlacedAll next.batchTokenIds rowNext MoeTicket.rowCount MoeTicket.tokenIds tickets
  rows : PlacedAll next.batchRows rowNext (fun entry => entry.1.rowCount)
    (fun entry => batchRow entry.1 entry.2) (tickets.zipIdx index)
  earlierValues : ∀ i < rowNext * owner.transformer.expandedWidth,
    owner.batchDeviceRows.view next.device i = owner.batchDeviceRows.view joint.device i ∧
      next.expandedRows i = joint.expandedRows i
  earlierRows : ∀ i < rowNext,
    next.batchTokenIds i = joint.batchTokenIds i ∧ next.batchRows i = joint.batchRows i

/-- The gathered rows are those of the tickets, one after the other. -/
theorem gather_ok (start : Device) (ts : List MoeTicket)
    (hsm : (r + (ts.map MoeTicket.rowCount).sum) * o.transformer.expandedWidth < wordLimit)
    (ha : ∀ tk ∈ ts.tail, Apart tk.deviceRows o.batchDeviceRows)
    (hs : ∀ tk ∈ ts, ∀ j < tk.deviceRows.elements,
      tk.deviceRows.view jo.device j = tk.deviceRows.view start j)
    (ran : gather env o index r ts jo = .ok next) :
    GatheredAll o start index r ts jo next := by
  induction ts generalizing index r jo with
  | nil =>
    obtain rfl := ok.inj ran
    exact ⟨by simp, .nil, .nil, .nil, .nil, fun _ _ => ⟨rfl, rfl⟩, fun _ _ => ⟨rfl, rfl⟩⟩
  | cons tk re ih =>
    rw [map_cons, sum_cons, ← Nat.add_assoc] at hsm
    have widthNext := Nat.add_mul r tk.rowCount o.transformer.expandedWidth
    have hh : r * o.transformer.expandedWidth < wordLimit := by
      rw [Nat.add_mul, Nat.add_mul] at hsm
      omega
    unfold gather at ran
    split at ran
    · cases ran
    rename_i mid hsd
    have hst := gatherTicket_ok hh hsd
    have hl : GatheredAll o start (index + 1) (r + tk.rowCount) re mid next :=
      ih hsm (fun t hm => ha t (mem_of_mem_tail hm)) (fun t hm j hi => by
        rw [hst.apart _ (ha t hm) j hi]
        exact hs t (mem_cons_of_mem _ hm) j hi) ran
    have vs := hl.earlierValues
    have rows := hl.earlierRows
    rw [widthNext] at vs
    have behindDevice := hl.device
    have behindExpanded := hl.expanded
    rw [widthNext] at behindDevice behindExpanded
    refine ⟨?_, .cons ?_ behindDevice, .cons ?_ behindExpanded, .cons ?_ hl.tokenIds,
      .cons ?_ hl.rows, ?_, ?_⟩
    · intro t hm
      rcases mem_cons.mp hm with rfl | hm
      · exact hst.elements
      · exact hl.elements t hm
    · intro j hi
      have hsh : j < tk.deviceRows.elements := by rw [hst.elements]; exact hi
      rw [(vs _ (by omega)).1, hst.placed j hi]
      exact hs tk mem_cons_self j hsh
    · refine Placed.keep ?_ le_rfl fun i b => (vs i b).2
      rw [hst.expandedRows]
      exact placed_writeBlock
    · refine Placed.keep ?_ le_rfl fun i b => (rows i b).1
      rw [hst.tokenIds]
      exact placed_writeBlock
    · refine Placed.keep ?_ le_rfl fun i b => (rows i b).2
      rw [hst.rows]
      exact placed_writeBlock
    · intro i b
      obtain ⟨dev, expanded⟩ := vs i (by omega)
      refine ⟨dev.trans (hst.earlier i b), ?_⟩
      rw [expanded, hst.expandedRows, writeBlock_outside _ _ (by omega)]
    · intro i b
      obtain ⟨ids, described⟩ := rows i (by omega)
      rw [ids, described, hst.tokenIds, hst.rows, writeBlock_outside _ _ (by omega),
        writeBlock_outside _ _ (by omega)]
      exact ⟨rfl, rfl⟩

end Gathering

section Scattering

variable {o : MoeTicket} {os : Tensor} {r : ℕ}

/-- Each ticket receives the rows of its own tokens. -/
theorem scatter_ok (ts : List MoeTicket) (vs : ℕ → Scalar)
    (hsm : (r + (ts.map MoeTicket.rowCount).sum) * o.transformer.expandedWidth < wordLimit)
    (own : ∀ tk ∈ ts.tail, Apart os tk.deviceOutputs)
    (ho : ts.Pairwise fun a b => Apart a.deviceOutputs b.deviceOutputs)
    (hfi : ∀ tk ∈ ts.head?, Apart os tk.deviceOutputs ∨ (StartsAt tk.deviceOutputs os ∧ r = 0))
    (hh : ∀ i, r * o.transformer.expandedWidth ≤ i → i < os.elements → os.view dev i = vs i)
    (hr : scatter env o os r ts dev = .ok af) :
    (∀ te, (∀ tk ∈ ts, Apart te tk.deviceOutputs) → ∀ j < te.elements,
      te.view af j = te.view dev j) ∧
    ∀ be tk l, ts = be ++ tk :: l →
      tk.deviceOutputs.elements = tk.rowCount * o.transformer.expandedWidth ∧
      ∀ j < tk.deviceOutputs.elements, tk.deviceOutputs.view af j =
        vs ((r + (be.map MoeTicket.rowCount).sum) * o.transformer.expandedWidth + j) := by
  induction ts generalizing r dev with
  | nil =>
    obtain rfl := ok.inj hr
    refine ⟨fun _ _ _ _ => rfl, ?_⟩
    intro be tk l split
    cases be <;> cases split
  | cons tk rest ih =>
    rw [map_cons, sum_cons, ← Nat.add_assoc] at hsm
    have here : r * o.transformer.expandedWidth < wordLimit := by
      rw [Nat.add_mul, Nat.add_mul] at hsm
      omega
    obtain ⟨hah, hpr⟩ := pairwise_cons.mp ho
    unfold scatter at hr
    simp only [Nat.mod_eq_of_lt here] at hr
    split at hr
    · cases hr
    rename_i s hf
    obtain ⟨n, p, hf⟩ := Option.bind_eq_some_iff.mp hf
    obtain ⟨-, rfl⟩ := (u64Mul_eq_some ..).mp p
    split at hr
    · cases hr
    rename_i m hc
    obtain ⟨hsp, hi⟩ := tensorSubview_some hf
    have sz := (compatibleMoeCopy_ok hc).1
    have e : tk.deviceOutputs.elements = tk.rowCount * o.transformer.expandedWidth := by
      rw [sz, hsp]
    -- The outputs of the tickets behind this one have not been touched.
    have held : ∀ i, (r + tk.rowCount) * o.transformer.expandedWidth ≤ i →
        i < os.elements → os.view m i = vs i := by
      intro i bd hsh
      rw [Nat.add_mul] at bd
      rw [← hh i (by omega) hsh]
      rcases hfi tk rfl with ha | ⟨⟨ht, al, data⟩, rfl⟩
      · exact compatibleMoeCopy_apart hc ha hsh
      have hs : compatibleTensorSameView tk.deviceOutputs s = true := by
        simp [compatibleTensorSameView, hsp, ht, al, data, e]
      rw [compatibleMoeCopy, if_pos hs] at hc
      obtain rfl := ok.inj hc
      rfl
    obtain ⟨f, ps⟩ := ih hsm (fun t hm => own t (mem_of_mem_tail hm)) hpr
      (fun t hm => .inl (own t (mem_of_mem_head? hm))) held hr
    refine ⟨?_, ?_⟩
    · intro te ha j hsh
      rw [f te (fun t hm => ha t (mem_cons_of_mem _ hm)) j hsh]
      exact compatibleMoeCopy_apart hc (ha tk mem_cons_self) hsh
    · intro be t l split
      cases be with
      | nil =>
        obtain ⟨rfl, rfl⟩ := cons.inj split
        refine ⟨e, ?_⟩
        intro j hsh
        rw [f _ hah j hsh]
        have hp := compatibleMoeCopy_placed hc j (by omega)
        rw [Nat.zero_add] at hp
        rw [hp, tensorSubview_view hf]
        exact hh _ (by omega) (by omega)
      | cons head be =>
        obtain ⟨rfl, rfl⟩ := cons.inj split
        obtain ⟨size, pa⟩ := ps be t l rfl
        refine ⟨size, ?_⟩
        intro j hsh
        rw [pa j hsh, map_cons, sum_cons, ← Nat.add_assoc]

end Scattering

def Separate (a b : MoeTicket) : Prop :=
  Apart a.deviceRows b.batchDeviceRows ∧ Apart a.deviceOutputs b.batchDeviceOutputs ∧
    Apart a.deviceOutputs b.deviceOutputs

/-- A batch as it is selected: its width is the sum of its rows, its tickets belong to different
sessions, and a ticket's own outputs are the front of its buffer or apart from it. -/
structure Compatible (tickets : List MoeTicket) : Prop where
  width : ∀ ticket ∈ tickets, ticket.actualWidth = (tickets.map MoeTicket.rowCount).sum
  separate : tickets.Pairwise fun a b => Separate a b ∧ Separate b a
  own : ∀ ticket ∈ tickets, Apart ticket.deviceOutputs ticket.batchDeviceOutputs ∨
    StartsAt ticket.deviceOutputs ticket.batchDeviceOutputs

structure InputRow where
  deviceRow : List Scalar
  expandedRow : List Scalar
  tokenId : ℕ

def RowBatch.inputRow (batch : RowBatch) (r : ℕ) : InputRow :=
  ⟨row batch.rowWidth batch.deviceRows r, row batch.rowWidth batch.expandedRows r,
    batch.tokenIds r⟩

def MoeTicket.inputRow (ticket : MoeTicket) (width : ℕ) (device : Device) (r : ℕ) : InputRow :=
  ⟨row width (ticket.deviceRows.view device) r, row width ticket.envelopeOutput r,
    ticket.tokenIds r⟩

/-- Every result row is computed from its own input row. -/
def RowWise (moeRows : RowBatch → Except Refusal (ℕ → Scalar)) (f : InputRow → List Scalar) :
    Prop :=
  ∀ batch values, moeRows batch = .ok values → ∀ r < batch.rowCount,
    row batch.rowWidth values r = f (batch.inputRow r)

theorem Compatible.perm {ts od : List MoeTicket} (hc : Compatible ts)
    (hp : od.Perm ts) : Compatible od where
  width := by
    intro tk hm
    rw [(hp.map rowCount).sum_eq]
    exact hc.width tk (hp.subset hm)
  separate := (hp.pairwise_iff fun hb => ⟨hb.2, hb.1⟩).mpr hc.separate
  own := fun tk hm => hc.own tk (hp.subset hm)

variable {o : MoeTicket}

theorem batchViews_some (hf : batchViews o = some (s, d)) :
    o.actualWidth * o.transformer.expandedWidth < wordLimit ∧ tensorSubview o.batchDeviceRows 0
        (o.actualWidth * o.transformer.expandedWidth) = some s ∧
      tensorSubview o.batchDeviceOutputs 0
        (o.actualWidth * o.transformer.expandedWidth) = some d := by
  unfold batchViews at hf
  split at hf
  · rename_i p _ _
    obtain ⟨hsm, rfl⟩ := (u64Mul_eq_some ..).mp p
    split_ifs at hf
    split at hf
    · rename_i h1 h2
      obtain ⟨rfl, rfl⟩ := Prod.mk.inj (Option.some.inj hf)
      exact ⟨hsm, h1, h2⟩
    · cases hf
  · cases hf

theorem Compatible.scattered {re : List MoeTicket} (ho : Compatible (o :: re)) {vs : ℕ → Scalar}
    (hsm : ((o :: re).map MoeTicket.rowCount).sum * o.transformer.expandedWidth < wordLimit)
    (hf : tensorSubview o.batchDeviceOutputs 0 n = some s)
    (ran : scatter env o { s with isWritten := true } 0 (o :: re)
      (write dev s vs) = .ok af) {b later : List MoeTicket}
    {tk : MoeTicket} (hsp : o :: re = b ++ tk :: later) :
    tk.deviceOutputs.contents af = (List.range tk.rowCount).flatMap fun i =>
      row o.transformer.expandedWidth vs ((b.map MoeTicket.rowCount).sum + i) := by
  obtain ⟨hah, -⟩ := pairwise_cons.mp ho.separate
  let marked : Tensor := { s with isWritten := true }
  have ha (t : MoeTicket) (hs : Apart t.deviceOutputs o.batchDeviceOutputs) :
      Apart marked t.deviceOutputs := (hs.subview hf).symm
  have h1 : ∀ t ∈ (o :: re).head?, Apart marked t.deviceOutputs ∨
      (StartsAt t.deviceOutputs marked ∧ 0 = 0) := by
    intro t hm
    obtain rfl : o = t := Option.some.inj hm
    rcases ho.own o mem_cons_self with hs | ⟨ht, a, data⟩
    · exact .inl (ha o hs)
    obtain ⟨hsh, -⟩ := tensorSubview_some hf
    refine .inr ⟨⟨?_, ?_, ?_⟩, rfl⟩
    · simp [marked, hsh, ht]
    · simp [marked, hsh, a]
    · simp [marked, hsh, data]
  have hh : ∀ i, 0 * o.transformer.expandedWidth ≤ i → i < marked.elements →
      marked.view (write dev s vs) i = vs i := by
    intro i _ hi
    have hw := view_write dev s vs i hi
    rwa [Nat.zero_add] at hw
  obtain ⟨e, hpl⟩ := (scatter_ok (o :: re) vs
    (by rw [Nat.zero_add]; exact hsm) (fun t hm => ha t (hah t hm).2.2.1)
    (ho.separate.imp fun both => both.1.2.2) h1 hh ran).2 b tk later hsp
  rw [e, Nat.zero_add] at hpl
  have p : Placed vs ((b.map rowCount).sum * o.transformer.expandedWidth)
      (tk.rowCount * o.transformer.expandedWidth) (tk.deviceOutputs.view af) :=
    fun j hi => (hpl j hi).symm
  rw [Tensor.contents, e, map_range_rows]
  refine flatMap_congr ?_
  intro i hm
  exact (p.row (mem_range.mp hm)).symm

/-- The joint batch is the concatenation of the tickets' rows, and every ticket gets the result
rows of its own rows. -/
theorem moe_gather_scatter (env : Environment) (sorts : ∀ tickets, (env.qsort tickets).Perm tickets)
    (tickets : List MoeTicket) (compatible : Compatible tickets) (joint after : Joint)
    (ran : compatibleMoeBatchExecute env tickets joint = .ok after) :
    ∃ owner rest rows gathered values, env.qsort tickets = owner :: rest ∧
      env.moeRows (rowBatch owner rows (owner :: rest).length gathered) = .ok values ∧
      let width := owner.transformer.expandedWidth
      let total := (tickets.map rowCount).sum
      total = owner.actualWidth ∧
      (range (total * width)).map (rows.view gathered.device) =
        (owner :: rest).flatMap (fun ticket => ticket.deviceRows.contents joint.device) ∧
      (range (total * width)).map gathered.expandedRows = (owner :: rest).flatMap
        (fun ticket => (range (ticket.rowCount * width)).map ticket.envelopeOutput) ∧
      (range total).map gathered.batchTokenIds = (owner :: rest).flatMap
        (fun ticket => (range ticket.rowCount).map ticket.tokenIds) ∧
      (range total).map gathered.batchRows = (owner :: rest).zipIdx.flatMap
        (fun entry => (range entry.1.rowCount).map (batchRow entry.1 entry.2)) ∧
      ∀ before ticket later, owner :: rest = before ++ ticket :: later →
        ticket.deviceOutputs.contents after.device = (range ticket.rowCount).flatMap
          (fun i => row width values ((before.map rowCount).sum + i)) ∧
        ∀ f, RowWise env.moeRows f → ticket.deviceOutputs.contents after.device =
          (range ticket.rowCount).flatMap
            fun i => f (ticket.inputRow width joint.device i) := by
  have perm := sorts tickets
  have ordered := compatible.perm perm
  have counted := (perm.map rowCount).sum_eq
  unfold compatibleMoeBatchExecute at ran
  generalize env.qsort tickets = sorted at perm ordered counted ran
  split at ran
  · cases ran
  rename_i owner rest
  have width := ordered.width owner mem_cons_self
  obtain ⟨ahead, pairs⟩ := pairwise_cons.mp ordered.separate
  split at ran
  · cases ran
  rename_i rows outputs views
  obtain ⟨small, rowsFound, outputsFound⟩ := batchViews_some views
  rw [width] at small
  split at ran
  · cases ran
  rename_i gathered gathering
  split at ran
  · cases ran
  rename_i values executed
  split at ran
  · cases ran
  split at ran
  · cases ran
  rename_i scattering
  split at ran
  · cases ran
  obtain rfl := ok.inj ran
  have joined : GatheredAll owner joint.device 0 0 (owner :: rest) joint gathered :=
    gather_ok joint.device (owner :: rest) (by rw [Nat.zero_add]; exact small)
      (fun ticket member => (ahead ticket member).2.1) (fun _ _ _ _ => rfl) gathering
  have front : rows.view gathered.device = owner.batchDeviceRows.view gathered.device := by
    funext j
    rw [tensorSubview_view rowsFound, Nat.zero_add]
  have sums (list : List MoeTicket) :
      (list.map fun t => t.rowCount * owner.transformer.expandedWidth).sum =
        (list.map rowCount).sum * owner.transformer.expandedWidth :=
    sum_map_mul_right ..
  have deviceRows := joined.device.concatenation
  have expandedRows := joined.expanded.concatenation
  have tokenIds := joined.tokenIds.concatenation
  have described := joined.rows.concatenation
  simp only [Nat.zero_mul, Nat.zero_add, sums] at deviceRows expandedRows tokenIds
  simp only [Nat.zero_add] at described
  refine ⟨owner, rest, rows, gathered, values, rfl, executed, ?_⟩
  intro wide total
  have whole : total = ((owner :: rest).map rowCount).sum := counted.symm
  refine ⟨whole.trans width.symm, ?_, ?_, ?_, ?_, ?_⟩
  · rw [whole, front, deviceRows]
    refine flatMap_congr ?_
    intro t member
    rw [Tensor.contents, joined.elements t member]
  · rw [whole]
    exact expandedRows
  · rw [whole]
    exact tokenIds
  · have same : ((owner :: rest).zipIdx.map fun entry => entry.1.rowCount) =
        (owner :: rest).map rowCount := by
      conv_rhs => rw [← zipIdx_map_fst 0 (owner :: rest), map_map]
      rfl
    rw [whole, ← same]
    exact described
  · intro before t later split
    have outputsOf := ordered.scattered small outputsFound scattering split
    refine ⟨outputsOf, ?_⟩
    intro f rowWise
    rw [outputsOf]
    refine flatMap_congr ?_
    intro i member
    have inside := mem_range.mp member
    have within : (before.map rowCount).sum + i < owner.actualWidth := by
      rw [width, split]
      simp only [map_append, map_cons, sum_append, sum_cons]
      omega
    have deviceRow := joined.device before t later split
    have expandedRow := joined.expanded before t later split
    rw [sums, Nat.zero_mul, Nat.zero_add] at deviceRow expandedRow
    have tokenId := joined.tokenIds before t later split i inside
    rw [Nat.zero_add] at tokenId
    have input : (rowBatch owner rows (owner :: rest).length gathered).inputRow
        ((before.map rowCount).sum + i) = t.inputRow wide joint.device i := by
      simp only [RowBatch.inputRow, rowBatch, inputRow, front, tokenId]
      rw [deviceRow.row inside, expandedRow.row inside]
    rw [← input]
    exact rowWise _ values executed _ within

def incrementing : Environment where
  qsort := id
  physicalOwner := fun _ => 0
  dispatchAdmit := fun _ => none
  copyShared := fun _ _ => none
  moeRows := fun batch => .ok fun i => batch.deviceRows i + 1
  moeComplete := none
  localResult := fun _ => none

def sessionTicket (session rowCount : ℕ) : MoeTicket where
  identity := []
  actualWidth := 3
  rowCount := rowCount
  rowCapacity := 4
  transformer := ⟨2, 2, 1⟩
  backend := session
  deviceRows := ⟨session, 2 * session, 0, rowCount * 2, [rowCount * 2], true, true⟩
  deviceOutputs := ⟨session, 2 * session + 1, 0, rowCount * 2, [rowCount * 2], true, false⟩
  batchDeviceRows := ⟨session, 2 * session, 0, 8, [8], true, true⟩
  batchDeviceOutputs := ⟨session, 2 * session + 1, 0, 8, [8], true, false⟩
  envelopeOutput := fun _ => 0
  tokenIds := fun _ => session
  tokenPosition := 0
  verifies := false

def twoSessions : Joint where
  device := fun allocation i => 10 * UInt32.ofNat allocation + UInt32.ofNat i
  expandedRows := fun _ => 0
  batchTokenIds := fun _ => 0
  batchSources := fun _ => []
  batchRows := fun _ => ⟨0, 0, 0, false, 0, 0⟩

theorem sessions_compatible : Compatible [sessionTicket 0 1, sessionTicket 1 2] where
  width := by decide
  separate := by
    refine .cons ?_ (pairwise_singleton ..)
    intro ot hm
    obtain rfl := mem_singleton.mp hm
    exact ⟨⟨.inl (by decide), .inl (by decide), .inl (by decide)⟩,
      ⟨.inl (by decide), .inl (by decide), .inl (by decide)⟩⟩
  own := by
    intro tk hm
    refine .inr ?_
    rcases mem_cons.mp hm with rfl | hm
    · exact ⟨rfl, rfl, rfl⟩
    · obtain rfl := mem_singleton.mp hm
      exact ⟨rfl, rfl, rfl⟩

theorem incrementing_rowWise : RowWise incrementing.moeRows fun x => x.deviceRow.map (· + 1) := by
  intro batch vs he r _
  obtain rfl := ok.inj he
  simp [row, RowBatch.inputRow]

/-- The second session finds its own rows, incremented. -/
theorem moe_gather_scatter_sessions :
    ∃ after, compatibleMoeBatchExecute incrementing [sessionTicket 0 1, sessionTicket 1 2]
        twoSessions = .ok after ∧
      (sessionTicket 1 2).deviceOutputs.contents after.device = [21, 22, 23, 24] := by
  refine ⟨_, rfl, ?_⟩
  obtain ⟨owner, rest, rows, gathered, values, sorted, -, -, -, -, -, -, outputs⟩ :=
    moe_gather_scatter incrementing (fun _ => .refl _) _ sessions_compatible twoSessions _ rfl
  obtain ⟨rfl, rfl⟩ := cons.inj sorted
  rw [(outputs [sessionTicket 0 1] (sessionTicket 1 2) [] rfl).2 _ incrementing_rowWise]
  decide

end Yvex.MoeBatch
