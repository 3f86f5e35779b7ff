import Yvex.GgufDirectory

/-!
# The GGUF tensor directory

The rows of the tensor directory, and the directory as a whole. Behind it the
tensor data begin at the next aligned offset.
-/

set_option autoImplicit false

namespace Yvex.GgufTensors

open GgufData GgufNames GgufQtype GgufReader GgufReads GgufDirectory MeteredReader LittleEndian
  EntryDatum

variable {x : Input}

def encodeDims : List ℕ → List UInt8
  | [] => []
  | dim :: rest => leBytes 8 dim ++ encodeDims rest

def dimsCost : List ℕ → Charge Meter
  | [] => 0
  | _ :: rest => one .structural 8 + dimsCost rest

theorem reads_dims (q : Place) (rn : ℕ) :
    Reads x.source (parseDims x q rn) (fun ds => ds) encodeDims dimsCost
      (fun ds => ds.length = rn ∧ ∀ dim ∈ ds, dim < 256 ^ 8 ∧ dim ≠ 0) := by
  induction rn with
  | zero =>
    exact reads_nil rfl rfl rfl nofun
  | succ r ih =>
    refine Reads.cons (fun _ _ => rfl) (fun _ _ => rfl) (fun dim l => ?_) reads_le fun dim _ =>
      Reads.iff (checks_require.next fun _ => ih.map _) fun l => and_left_comm
    simp [and_assoc]

def encodeRow (row : TensorRow) : List UInt8 :=
  encodeString row.name ++ ((leBytes 4 row.dims.length ++ (encodeDims row.dims ++
    leBytes 4 row.ggmlType)) ++ leBytes 8 row.relativeOffset)

def rowCost (row : TensorRow) : Charge Meter :=
  stringCost row.name + ((one .structural 4 + (dimsCost row.dims + one .structural 4)) +
    one .structural 8)

structure RowAdmitted (options : ReaderOptions) (alignment : ℕ) (row : TensorRow) : Prop where
  name : StringAdmitted options maxTensorNameLen true true row.name
  dims : ∀ dim ∈ row.dims, dim < 256 ^ 8
  type : row.ggmlType < 256 ^ 4
  storage : Prescribed row.ggmlType row.dims row.storageBytes
  offset : row.relativeOffset < 256 ^ 8
  aligned : row.relativeOffset % alignment = 0

theorem reads_shape (q : Place) : Reads x.source (parseShape x q) (fun shape => shape)
      (fun shape => leBytes 4 shape.1.length ++ (encodeDims shape.1 ++ leBytes 4 shape.2))
      (fun shape => one .structural 4 + (dimsCost shape.1 + one .structural 4))
      (fun shape => (0 < shape.1.length ∧ shape.1.length ≤ maxDims) ∧
        (∀ dim ∈ shape.1, dim < 256 ^ 8 ∧ dim ≠ 0) ∧ shape.2 < 256 ^ 4) := by
  have wr : Reads x.source (parseShape x q) (fun w : ℕ × List ℕ × ℕ => (w.2.1, w.2.2))
      (fun w => leBytes 4 w.1 ++ (encodeDims w.2.1 ++ leBytes 4 w.2.2))
      (fun w => one .structural 4 + (dimsCost w.2.1 + one .structural 4))
      (fun w => w.1 < 256 ^ 4 ∧ decide (0 < w.1 ∧ w.1 ≤ maxDims) = true ∧
        (w.2.1.length = w.1 ∧ ∀ dim ∈ w.2.1, dim < 256 ^ 8 ∧ dim ≠ 0) ∧
        w.2.2 < 256 ^ 4) :=
    reads_le.bind fun _ _ => checks_require.next fun _ =>
      (reads_dims _ _).bind fun _ _ => reads_le.map _
  refine wr.along (fun w => (w.2.1, w.2.2)) ?_ ?_
  · rintro ⟨r, ds, t⟩ ⟨-, -, ⟨hl, -⟩, -⟩
    dsimp only at hl
    subst hl
    exact ⟨rfl, rfl, rfl⟩
  · rintro ⟨ds, t⟩
    constructor
    · rintro ⟨⟨r, ds', t'⟩, ⟨-, r', ⟨hl, hec⟩, hsm⟩, he⟩
      cases he
      dsimp only at hl r'
      subst hl
      exact ⟨of_decide_eq_true r', hec, hsm⟩
    · rintro ⟨r, hec, hsm⟩
      have few : ds.length < 256 ^ 4 := lt_of_le_of_lt r.2 (by decide)
      exact ⟨(ds.length, ds, t), ⟨few, decide_eq_true r, ⟨rfl, hec⟩, hsm⟩, rfl⟩

def storageOf (type : ℕ) (dims : List ℕ) : ℕ :=
  match tensorStorage type dims with
  | .ok storage => storage.totalBytes
  | .error _ => 0

theorem storageOf_eq {t : ℕ} {ds : List ℕ} {bs : ℕ} (h : Prescribed t ds bs) :
    storageOf t ds = bs := by
  obtain ⟨s, hf, rfl⟩ := tensorStorage_ok.mpr h
  rw [storageOf, hf]

theorem checks_storage (q : Place) (t : ℕ) (ds : List ℕ) :
    Checks (storageOrFail q t ds) (storageOf t ds) (Prescribed t ds (storageOf t ds)) := by
  unfold storageOrFail
  cases hf : tensorStorage t ds with
  | ok s =>
    have he : storageOf t ds = s.totalBytes := by rw [storageOf, hf]
    rw [he]
    apply (checks_pure _).congr
    simp only [true_iff]
    exact tensorStorage_ok.mp ⟨s, hf, rfl⟩
  | error =>
    apply (checks_fail _ _).congr
    simp only [false_iff]
    intro hp
    obtain ⟨s, hok, -⟩ := tensorStorage_ok.mpr hp
    rw [hf] at hok
    cases hok

theorem reads_row (q : Place) (a : ℕ) {i : NameIndex} {ns : List (List UInt8)} (hix : Indexed i ns)
    (hr : ns.length < i.capacity) :
    Reads x.source (parseRow x q a i ns) (fun r => (r, i.add ns r.name)) encodeRow rowCost
      (fun r => RowAdmitted x.options a r ∧ r.name ∉ ns) := by
  have pa : Reads x.source (parseRow x q a i ns) (fun p : List UInt8 × (List ℕ × ℕ) × ℕ =>
        (TensorRow.mk p.1 p.2.1.1 p.2.1.2 p.2.2 (storageOf p.2.1.2 p.2.1.1), i.add ns p.1))
      (fun p => encodeString p.1 ++ ((leBytes 4 p.2.1.1.length ++
        (encodeDims p.2.1.1 ++ leBytes 4 p.2.1.2)) ++ leBytes 8 p.2.2))
      (fun p => stringCost p.1 + ((one .structural 4 + (dimsCost p.2.1.1 +
        one .structural 4)) + one .structural 8))
      (fun p => StringAdmitted x.options maxTensorNameLen true true p.1 ∧
        p.1 ∉ ns ∧ ((0 < p.2.1.1.length ∧ p.2.1.1.length ≤ maxDims) ∧
          (∀ hd ∈ p.2.1.1, hd < 256 ^ 8 ∧ hd ≠ 0) ∧ p.2.1.2 < 256 ^ 4) ∧
        Prescribed p.2.1.2 p.2.1.1 (storageOf p.2.1.2 p.2.1.1) ∧
        p.2.2 < 256 ^ 8 ∧ (p.2.2 % a == 0) = true ∧ True) :=
    reads_string.bind fun n _ =>
      (checks_nameIndexInsert hix hr n _).reads fun _ =>
      (reads_shape _).bind fun shape _ => (checks_storage _ _ _).reads fun _ =>
      reads_le.ending fun _ _ => checks_require.and fun _ => checks_pure _
  apply pa.along (fun p =>
    TensorRow.mk p.1 p.2.1.1 p.2.1.2 p.2.2 (storageOf p.2.1.2 p.2.1.1))
    (fun _ _ => ⟨rfl, rfl, rfl⟩)
  intro r
  constructor
  · rintro ⟨p, ⟨n, hfr, ⟨-, ds, t⟩, s, o, ha, -⟩, rfl⟩
    exact ⟨⟨n, fun hd hm => (ds hd hm).1, t, s, o, by simpa using ha⟩, hfr⟩
  · rintro ⟨⟨n, ds, t, s, o, ha⟩, hfr⟩
    have he := storageOf_eq s
    refine ⟨(r.name, (r.dims, r.ggmlType), r.relativeOffset),
      ⟨n, hfr, ⟨s.rank, ?_, t⟩, he.symm ▸ s, o, by simpa using ha, trivial⟩, ?_⟩
    · intro hd hm
      refine ⟨ds hd hm, ?_⟩
      rintro rfl
      exact s.positive hm
    · rw [he]

theorem rows_loop (a : ℕ) : RowLoop (parseRows x a) (fun _ d i =>
    parseRow x ⟨.tensorInfo, d.length⟩ a i (d.map TensorRow.name)) where
  zero _ _ := rfl
  succ _ _ _ := rfl

theorem rows_read (a : ℕ) : RowsRead x (fun _ d i => parseRow x ⟨.tensorInfo, d.length⟩
    a i (d.map TensorRow.name)) (fun row => row) TensorRow.name TensorRow.name
    encodeRow rowCost (RowAdmitted x.options a) :=
  fun _ _ _ hix hr => reads_row _ _ hix hr

abbrev TensorsAdmitted (options : ReaderOptions) (alignment : ℕ) : List TensorRow → Prop :=
  RowsAdmitted (RowAdmitted options alignment) TensorRow.name []

theorem reads_tensors (a n : ℕ) : Reads x.source (parseTensors x a n)
      (fun rs => (rs, indexOf (rs.map TensorRow.name))) (encodeRows encodeRow)
      (fun rs => directoryCost n tensorBytes (rowsCost rowCost rs))
      (fun rs => rs.length = n ∧ (n ≠ 0 → TableAdmitted n tensorBytes) ∧
        TensorsAdmitted x.options a rs) := by
  unfold parseTensors
  by_cases he : n = 0
  · subst he
    exact reads_noRows rfl
  rw [if_neg he]
  exact ((rows_loop a).reads_table (fun _ => rfl) (rows_read a) he reads_allocateTable
    (reads_nameIndexAllocate _ he)).along (fun rs => rs) (fun _ _ => ⟨by simp, rfl, rfl⟩)
      (by simp)

structure DirectoryDatum where
  entries : List EntryDatum
  rows : List TensorRow

namespace DirectoryDatum

def header (datum : DirectoryDatum) : Header :=
  ⟨supportedVersion, datum.entries.length, datum.rows.length⟩

def metadata (datum : DirectoryDatum) : List MetadataEntry := datum.entries.map EntryDatum.entry

def alignment (datum : DirectoryDatum) : ℕ := (declaredAlignment datum.metadata).getD 0

def directory (datum : DirectoryDatum) : Directory where
  header := datum.header
  metadata := datum.metadata
  metadataIndex := indexOf (datum.entries.map EntryDatum.key)
  alignment := datum.alignment
  rows := datum.rows
  tensorIndex := indexOf (datum.rows.map TensorRow.name)

def encode (datum : DirectoryDatum) : List UInt8 :=
  encodeHeader datum.header ++ (encodeEntries datum.entries ++ encodeRows encodeRow datum.rows)

def cost (datum : DirectoryDatum) : Charge Meter :=
  headerCost + (directoryCost datum.entries.length entryBytes (entriesCost datum.entries) +
    directoryCost datum.rows.length tensorBytes (rowsCost rowCost datum.rows))

structure Admitted (options : ReaderOptions) (datum : DirectoryDatum) : Prop where
  metadataCount : datum.entries.length ≤ options.maxMetadataEntries.toNat
  tensorCount : datum.rows.length ≤ options.maxTensorEntries.toNat
  metadataTable : datum.entries.length ≠ 0 → TableAdmitted datum.entries.length entryBytes
  tensorTable : datum.rows.length ≠ 0 → TableAdmitted datum.rows.length tensorBytes
  entries : EntriesAdmitted options datum.entries
  aligned : (declaredAlignment datum.metadata).isSome
  rows : TensorsAdmitted options datum.alignment datum.rows

end DirectoryDatum

theorem metadata_keys (es : List EntryDatum) :
    (es.map EntryDatum.entry).map MetadataEntry.key = es.map EntryDatum.key := by
  rw [List.map_map]
  rfl

/-- The parser accepts the encodings of admitted directories and nothing else. -/
theorem reads_directory :
    Reads x.source (parseDirectory x) DirectoryDatum.directory DirectoryDatum.encode
      DirectoryDatum.cost (DirectoryDatum.Admitted x.options) := by
  have pa : Reads x.source (parseDirectory x) (fun p : Header × List EntryDatum × List TensorRow =>
        Directory.mk p.1 (p.2.1.map entry) (indexOf (p.2.1.map key))
          ((declaredAlignment (p.2.1.map entry)).getD 0) p.2.2
          (indexOf (p.2.2.map TensorRow.name)))
      (fun p => encodeHeader p.1 ++ (encodeEntries p.2.1 ++ encodeRows encodeRow p.2.2))
      (fun p => headerCost + (directoryCost p.1.metadataCount entryBytes
        (entriesCost p.2.1) + directoryCost p.1.tensorCount tensorBytes
        (rowsCost rowCost p.2.2)))
      (fun p => HeaderAdmitted x.options p.1 ∧
        (p.2.1.length = p.1.metadataCount ∧ (p.1.metadataCount ≠ 0 →
          TableAdmitted p.1.metadataCount entryBytes) ∧
          EntriesAdmitted x.options p.2.1) ∧
        (declaredAlignment (p.2.1.map entry)).isSome ∧
        (p.2.2.length = p.1.tensorCount ∧ (p.1.tensorCount ≠ 0 →
          TableAdmitted p.1.tensorCount tensorBytes) ∧
          TensorsAdmitted x.options ((declaredAlignment (p.2.1.map entry)).getD 0) p.2.2)) :=
    (reads_header.onError _).bind fun h _ => (reads_metadata _).bind fun es ha =>
      ((checks_alignment (by
        rw [metadata_keys]
        exact ha.2.2.finds (by rw [ha.1]; exact ha.2.1))).onError
          _).reads fun _ => ((reads_tensors _ _).onError _).map _
  refine pa.along (fun p => DirectoryDatum.mk p.2.1 p.2.2) ?_ ?_
  · rintro ⟨⟨v, m, t⟩, es, rs⟩ ⟨⟨hk, -, -⟩, ⟨hl, -⟩, -, hl', -⟩
    dsimp only at hk hl hl'
    subst hk hl hl'
    exact ⟨rfl, rfl, rfl⟩
  · rintro ⟨es, rs⟩
    constructor
    · rintro ⟨⟨⟨v, m, t⟩, es', rows'⟩, ⟨⟨hk, few, hf⟩, ⟨hl, ta, ha⟩, hal, hl', t', ha'⟩, he⟩
      cases he
      dsimp only at hk hl hl'
      subst hk hl hl'
      exact ⟨few, hf, ta, t', ha, hal, ha'⟩
    · rintro ⟨few, hf, ta, t', ha, hal, ha'⟩
      exact ⟨(⟨supportedVersion, es.length, rs.length⟩, es, rs),
        ⟨⟨rfl, few, hf⟩, ⟨rfl, ta, ha⟩, hal, rfl, t', ha'⟩, rfl⟩

end Yvex.GgufTensors
