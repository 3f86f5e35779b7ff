import Yvex.GgufReads

/-!
# The GGUF directory

The format of the header, of the metadata table and of the tensor directory. Keys
and names are put into an index while they are read; an identifier is accepted
exactly when it is not there yet.
-/

set_option autoImplicit false

namespace Yvex.GgufDirectory

open CheckedArithmetic GgufData GgufNames GgufReader GgufReads MeteredReader LittleEndian List
open Option

variable {x : Input}

def encodeHeader (header : Header) : List UInt8 :=
  leBytes 4 magic ++ (leBytes 4 header.version ++
    (leBytes 8 header.tensorCount ++ leBytes 8 header.metadataCount))

def headerCost : Charge Meter :=
  one .structural 4 + (one .structural 4 + (one .structural 8 + one .structural 8))

structure HeaderAdmitted (options : ReaderOptions) (header : Header) : Prop where
  version : header.version = supportedVersion
  metadata : header.metadataCount ≤ options.maxMetadataEntries.toNat
  tensors : header.tensorCount ≤ options.maxTensorEntries.toNat

/-- The header reader accepts the encoded admitted headers and nothing else. -/
theorem reads_header : Reads x.source (parseHeader x) (fun h => h) encodeHeader
      (fun _ => headerCost) (HeaderAdmitted x.options) := by
  have wr : Reads x.source (parseHeader x)
      (fun w : ℕ × ℕ × ℕ × ℕ => Header.mk w.2.1 w.2.2.2 w.2.2.1)
      (fun w => leBytes 4 w.1 ++ (leBytes 4 w.2.1 ++ (leBytes 8 w.2.2.1 ++ leBytes 8 w.2.2.2)))
      (fun _ => headerCost)
      (fun w => w.1 < 256 ^ 4 ∧ (w.1 == magic) = true ∧ w.2.1 < 256 ^ 4 ∧
        (w.2.1 == supportedVersion) = true ∧ w.2.2.1 < 256 ^ 8 ∧ w.2.2.2 < 256 ^ 8 ∧
        decide (w.2.2.2 ≤ x.options.maxMetadataEntries.toNat ∧
          w.2.2.1 ≤ x.options.maxTensorEntries.toNat) = true ∧ True) :=
    reads_le.bind fun _ _ => checks_require.next fun _ =>
    reads_le.bind fun _ _ => checks_require.next fun _ =>
    reads_le.bind fun _ _ => reads_le.ending fun _ _ =>
    checks_require.and fun _ => checks_pure _
  refine wr.along (fun w => Header.mk w.2.1 w.2.2.2 w.2.2.1) ?_ ?_
  · rintro w ⟨-, hf, -⟩
    rw [encodeHeader, ← of_decide_eq_true hf]
    exact ⟨rfl, rfl, rfl⟩
  · intro h
    constructor
    · rintro ⟨w, ⟨-, -, -, v, -, -, hc, -⟩, rfl⟩
      have l := of_decide_eq_true hc
      exact ⟨of_decide_eq_true v, l.1, l.2⟩
    · rintro ⟨v, m, ts⟩
      have h1 : x.options.maxMetadataEntries.toNat < 256 ^ 8 :=
        x.options.maxMetadataEntries.toNat_lt
      have h2 : x.options.maxTensorEntries.toNat < 256 ^ 8 := x.options.maxTensorEntries.toNat_lt
      have w : magic < 256 ^ 4 := by decide
      have hsm : h.version < 256 ^ 4 := v ▸ (by decide : supportedVersion < 256 ^ 4)
      exact ⟨(magic, h.version, h.tensorCount, h.metadataCount),
        ⟨w, by simp, hsm, by simp [v], lt_of_le_of_lt ts h2,
          lt_of_le_of_lt m h1, decide_eq_true ⟨m, ts⟩, trivial⟩, rfl⟩

def indexCapacity (count : ℕ) : ℕ := (growCapacity (count * 2) 64 8).getD 0

structure TableAdmitted (count rowBytes : ℕ) : Prop where
  rows : count ≤ sizeMax / rowBytes
  names : count ≤ ullongMax / 2
  grown : (growCapacity (count * 2) 64 8).isSome
  slots : indexCapacity count ≤ sizeMax / slotBytes

def tableCost (count rowBytes : ℕ) : Charge Meter :=
  one .owned (count * rowBytes) + asked + (one .owned (indexCapacity count * slotBytes) + asked)

variable {n : ℕ}

theorem indexCapacity_room (some : n ≠ 0) (hf : (growCapacity (n * 2) 64 8).isSome) :
    n < indexCapacity n := by
  obtain ⟨c, hg⟩ := isSome_iff_exists.mp hf
  have hen := (growCapacity_some hg).1
  rw [indexCapacity, hg, getD_some]
  omega

variable {rb : ℕ}

abbrev AllocatesTable (input : Input) {ε : Type} (count rowBytes : ℕ)
    (read : Reader Meter ε Unit) : Prop :=
  Pays input.source read () (one .owned (count * rowBytes) + asked) (count ≤ sizeMax / rowBytes)

abbrev AllocatesIndex (input : Input) {ε : Type} (count : ℕ) (read : Reader Meter ε NameIndex) :
    Prop :=
  Pays input.source read ⟨fun _ => none, indexCapacity count⟩
    (one .owned (indexCapacity count * slotBytes) + asked)
    (count ≤ ullongMax / 2 ∧ (growCapacity (count * 2) 64 8).isSome ∧
      indexCapacity count ≤ sizeMax / slotBytes)

theorem reads_allocateTable {p : Place} {excess m : String} :
    AllocatesTable x n rb (allocateTable x p n rb excess m) :=
  Reads.iff (checks_require.next fun _ => reads_charge.next fun _ => reads_request _) (by simp)

theorem reads_nameIndexAllocate (p : Place) (some : n ≠ 0) :
    AllocatesIndex x n (nameIndexAllocate x p n) := by
  unfold AllocatesIndex nameIndexAllocate
  rw [if_neg some]
  cases hg : growCapacity (n * 2) 64 8 with
  | none => exact Reads.iff (checks_require.next fun _ => reads_fail _ _ _ _) (by simp)
  | some c =>
    have heq : indexCapacity n = c := by rw [indexCapacity, hg, getD_some]
    rw [heq]
    refine Reads.congr (checks_require.next fun _ => checks_require.next fun _ =>
      reads_charge.next fun _ => (reads_request _).next fun _ => reads_return _) ?_ ?_
    · simp
    · intro d _
      exact ⟨rfl, by simp⟩

variable {ns : List (List UInt8)}

theorem checks_nameIndexInsert {i : NameIndex} (hix : Indexed i ns) (hr : ns.length < i.capacity)
    (nm : List UInt8) (d : Cursor Meter → Stop) :
    Checks (nameIndexInsert i ns nm d) (i.add ns nm) (nm ∉ ns) := by
  obtain ⟨slot, f, walk, he⟩ := hix.walk_iff hr nm
  rw [nameIndexInsert, NameIndex.add, walk]
  cases f with
  | none =>
    apply (checks_pure _).congr
    simp only [true_iff]
    intro hm
    obtain ⟨r, at_⟩ := mem_iff_getElem?.mp hm
    cases (he r).mpr at_
  | some r =>
    apply (checks_fail _ _).congr
    simp only [false_iff, not_not]
    exact mem_of_getElem? ((he r).mp rfl)

section Rows

variable {δ α ε : Type}

def encodeRows (format : δ → List UInt8) : List δ → List UInt8
  | [] => []
  | row :: rest => format row ++ encodeRows format rest

def rowsCost (cost : δ → Charge Meter) : List δ → Charge Meter
  | [] => 0
  | row :: rest => cost row + rowsCost cost rest

structure RowsAdmitted (admits : δ → Prop) (name : δ → List UInt8) (names : List (List UInt8))
    (rows : List δ) : Prop where
  each : ∀ row ∈ rows, admits row
  distinct : (rows.map name).Nodup
  fresh : ∀ row ∈ rows, name row ∉ names

variable {ad : δ → Prop} {nm : δ → List UInt8}

theorem rowsAdmitted_nil (ns : List (List UInt8)) : RowsAdmitted ad nm ns [] := by
  constructor
  · nofun
  · exact nodup_nil
  · nofun

theorem rowsAdmitted_cons {ro : δ} {r : List δ} : RowsAdmitted ad nm ns (ro :: r) ↔
      (ad ro ∧ nm ro ∉ ns) ∧ RowsAdmitted ad nm (ns ++ [nm ro]) r := by
  constructor
  · rintro ⟨each, hd, hf⟩
    obtain ⟨h1, hos⟩ := forall_mem_cons.mp each
    obtain ⟨new, news⟩ := forall_mem_cons.mp hf
    rw [map_cons, nodup_cons] at hd
    refine ⟨⟨h1, new⟩, hos, hd.2, ?_⟩
    intro o hm
    rw [mem_append, mem_singleton, not_or]
    refine ⟨news o hm, ?_⟩
    intro hs
    exact hd.1 (hs ▸ mem_map_of_mem hm)
  · rintro ⟨⟨h1, new⟩, hos, hd, hf⟩
    refine ⟨forall_mem_cons.mpr ⟨h1, hos⟩, ?_, forall_mem_cons.mpr ⟨new, ?_⟩⟩
    · rw [map_cons, nodup_cons]
      refine ⟨?_, hd⟩
      intro hm
      obtain ⟨o, hth, hs⟩ := mem_map.mp hm
      exact hf o hth (hs ▸ mem_append_right _ mem_cons_self)
    · intro o hm hkn
      exact hf o hm (mem_append_left _ hkn)

structure RowLoop (loop : ℕ → List α → NameIndex → Reader Meter ε (List α × NameIndex))
    (step : ℕ → List α → NameIndex → Reader Meter ε (α × NameIndex)) : Prop where
  zero : ∀ done index, loop 0 done index = pure (done, index)
  succ : ∀ remaining done index, loop (remaining + 1) done index = do
    let found ← step remaining done index
    loop remaining (done ++ [found.1]) found.2

variable {loop : ℕ → List α → NameIndex → Reader Meter ε (List α × NameIndex)}
  {step : ℕ → List α → NameIndex → Reader Meter ε (α × NameIndex)} {view : δ → α}
  {na : α → List UInt8} {format : δ → List UInt8} {cost : δ → Charge Meter}

def RowsRead (input : Input) (step : ℕ → List α → NameIndex → Reader Meter ε (α × NameIndex))
    (view : δ → α) (nameOf : α → List UInt8) (name : δ → List UInt8) (format : δ → List UInt8)
    (cost : δ → Charge Meter) (admits : δ → Prop) : Prop :=
  ∀ remaining done index, Indexed index (done.map nameOf) →
    (done.map nameOf).length < index.capacity →
    Reads input.source (step remaining done index)
      (fun row => (view row, index.add (done.map nameOf) (name row))) format cost
      (fun row => admits row ∧ name row ∉ done.map nameOf)

/-- A row with a new name goes into the index. -/
theorem indexed_row {ro : δ} {d : List α} {i : NameIndex} {r : ℕ} (hn : na (view ro) = nm ro)
    (hix : Indexed i (d.map na)) (room : d.length + (r + 1) ≤ i.capacity)
    (hf : nm ro ∉ d.map na) : Indexed (i.add (d.map na) (nm ro)) ((d ++ [view ro]).map na) ∧
      (d ++ [view ro]).length + r ≤ (i.add (d.map na) (nm ro)).capacity := by
  rw [map_append, map_singleton, hn, add_capacity, length_append, length_singleton]
  exact ⟨hix.add (by rw [length_map]; omega) hf, by omega⟩

/-- A loop that reads rows and indexes their names reads lists of rows with distinct names. -/
theorem RowLoop.reads (h : RowLoop loop step) (hn : ∀ ro, na (view ro) = nm ro)
    (one : RowsRead x step view na nm format cost ad) (n : ℕ) (d : List α) (i : NameIndex)
    (hix : Indexed i (d.map na)) (room : d.length + n ≤ i.capacity) : Reads x.source (loop n d i)
      (fun rs => (d ++ rs.map view, i.addAll (d.map na) (rs.map nm)))
      (encodeRows format) (rowsCost cost)
      (fun rs => rs.length = n ∧ RowsAdmitted ad nm (d.map na) rs) := by
  induction n generalizing d i with
  | zero =>
    rw [h.zero]
    exact reads_nil (by simp [NameIndex.addAll]) rfl rfl (rowsAdmitted_nil _)
  | succ r ih =>
    have s : (d.map na).length < i.capacity := by
      rw [length_map]
      omega
    have re : ∀ ro : δ, ad ro ∧ nm ro ∉ d.map na → Reads x.source
        (loop r (d ++ [view ro]) (i.add (d.map na) (nm ro)))
        (fun l => (d ++ (ro :: l).map view, i.addAll (d.map na) ((ro :: l).map nm)))
        (encodeRows format) (rowsCost cost)
        (fun l => l.length = r ∧ RowsAdmitted ad nm (d.map na ++ [nm ro]) l) := by
      rintro ro ⟨-, hfr⟩
      obtain ⟨a, next⟩ := indexed_row (hn ro) hix room hfr
      have l := ih _ _ a next
      simp only [map_append, map_singleton, hn, append_assoc, singleton_append] at l
      exact l
    rw [h.succ]
    exact Reads.cons (fun _ _ => rfl) (fun _ _ => rfl) (fun _ _ => rowsAdmitted_cons)
      (one r d i hix s) re

def indexOf (names : List (List UInt8)) : NameIndex :=
  if names = [] then .empty
  else NameIndex.addAll ⟨fun _ => none, indexCapacity names.length⟩ [] names

theorem indexOf_finds (hd : ns.Nodup) (ht : ns ≠ [] → TableAdmitted ns.length rb) :
    (indexOf ns).Finds ns := by
  unfold indexOf
  split_ifs with he
  · rw [he]
    exact finds_empty
  have some : ns.length ≠ 0 := fun none => he (length_eq_zero_iff.mp none)
  have hr := indexCapacity_room some (ht he).grown
  have hix := (indexed_nil (indexCapacity ns.length)).addAll ns (by
    rw [length_nil, Nat.zero_add]
    exact hr.le) hd
  apply hix.finds
  rw [addAll_capacity]
  exact hr

theorem RowsAdmitted.finds {rs : List δ} (ha : RowsAdmitted ad nm [] rs)
    (ht : rs.length ≠ 0 → TableAdmitted rs.length rb) :
    (indexOf (rs.map nm)).Finds (rs.map nm) := by
  apply indexOf_finds ha.distinct
  intro some
  rw [length_map]
  apply ht
  intro none
  exact some (by rw [length_eq_zero_iff.mp none]; rfl)

def directoryCost (count rowBytes : ℕ) (rows : Charge Meter) : Charge Meter :=
  if count = 0 then 0 else tableCost count rowBytes + rows

theorem reads_noRows {m : List δ → α} {v : α} (hm : m [] = v) :
    Reads x.source (pure v : Reader Meter ε α) m (encodeRows format)
      (fun rs => directoryCost 0 rb (rowsCost cost rs))
      (fun rs => rs.length = 0 ∧ (0 ≠ 0 → TableAdmitted 0 rb) ∧ RowsAdmitted ad nm [] rs) :=
  reads_nil hm rfl rfl ⟨fun some => absurd rfl some, rowsAdmitted_nil _⟩

/-- The rows of a table, behind its allocation and that of its index. -/
theorem RowLoop.reads_table (h : RowLoop loop step) (hn : ∀ row, na (view row) = nm row)
    (each : RowsRead x step view na nm format cost ad) (some : n ≠ 0)
    {tb : Reader Meter ε Unit} {alloc : Reader Meter ε NameIndex}
    (ht : AllocatesTable x n rb tb) (hi : AllocatesIndex x n alloc) :
    Reads x.source (do tb; let i ← alloc; loop n [] i)
      (fun rs => (rs.map view, indexOf (rs.map nm))) (encodeRows format)
      (fun rs => directoryCost n rb (rowsCost cost rs))
      (fun rs => rs.length = n ∧ (n ≠ 0 → TableAdmitted n rb) ∧ RowsAdmitted ad nm [] rs) := by
  refine Reads.along (ht.next fun _ => hi.given fun all => h.reads hn each n [] _
    (indexed_nil _) ?_) (fun rs => rs) ?_ ?_
  · rw [length_nil, Nat.zero_add]
    exact (indexCapacity_room some all.2.1).le
  · rintro rs ⟨-, -, rfl, -⟩
    have ns : rs.map nm ≠ [] := by
      intro none
      exact some (by rw [map_eq_nil_iff.mp none]; rfl)
    rw [indexOf, if_neg ns, length_map, directoryCost, if_neg some, tableCost, charge_add_assoc]
    exact ⟨rfl, rfl, rfl⟩
  · intro rs
    constructor
    · rintro ⟨_, ⟨rws, ⟨ns, hg, s⟩, len, ha⟩, rfl⟩
      exact ⟨len, fun _ => ⟨rws, ns, hg, s⟩, ha⟩
    · rintro ⟨len, t, ha⟩
      obtain ⟨rws, ns, hg, s⟩ := t some
      exact ⟨rs, ⟨rws, ⟨ns, hg, s⟩, len, ha⟩, rfl⟩

end Rows

structure EntryDatum where
  key : List UInt8
  datum : Datum

def EntryDatum.entry (entry : EntryDatum) : MetadataEntry := ⟨entry.key, entry.datum.value⟩

def EntryDatum.encode (entry : EntryDatum) : List UInt8 :=
  encodeString entry.key ++ leBytes 4 entry.datum.typeOf.code ++ entry.datum.encode

def EntryDatum.cost (entry : EntryDatum) : Charge Meter :=
  stringCost entry.key + one .structural 4 + Datum.cost entry.datum

structure KeyAdmitted (options : ReaderOptions) (key : List UInt8) : Prop where
  text : StringAdmitted options maxKeyLen true true key
  grammar : metadataKeyValid key = true

structure EntryAdmitted (options : ReaderOptions) (entry : EntryDatum) : Prop where
  key : KeyAdmitted options entry.key
  datum : Datum.Admitted options options.maxArrayDepth.toNat entry.datum

section Entries

variable {i : NameIndex} {ks : List (List UInt8)}

theorem reads_key (p : Place) (hix : Indexed i ks) (hr : ks.length < i.capacity) :
    Reads x.source (parseKey x p i ks) (fun f : List UInt8 × ValueType => (f.1, f.2, i.add ks f.1))
      (fun f => encodeString f.1 ++ leBytes 4 f.2.code)
      (fun f => stringCost f.1 + one .structural 4)
      (fun f => (KeyAdmitted x.options f.1 ∧ f.1 ∉ ks) ∧ f.2 ≠ .invalid) := by
  refine reads_string.build Prod.mk (fun key _ => checks_require.next fun _ =>
    (checks_nameIndexInsert hix hr key _).reads fun _ => reads_valueType.map _)
    (fun _ _ _ _ => ⟨rfl, rfl⟩) ?_
  intro f
  constructor
  · rintro ⟨⟨⟨t, hg⟩, hfr⟩, hkn⟩
    exact ⟨_, _, t, ⟨hg, hfr, hkn⟩, rfl⟩
  · rintro ⟨_, _, t, ⟨hg, hfr, hkn⟩, rfl⟩
    exact ⟨⟨⟨t, hg⟩, hfr⟩, hkn⟩

theorem typeOf_admitted {o : ReaderOptions} {ls : ℕ} {d : Datum}
    (ok : Datum.Admitted o ls d) : d.typeOf ≠ .invalid :=
  fun type => not_admitted_invalid type ok

theorem reads_entry (p : Place) (hix : Indexed i ks) (hr : ks.length < i.capacity) :
    Reads x.source (parseEntry x p i ks)
      (fun e => (e.entry, i.add ks e.key)) EntryDatum.encode EntryDatum.cost
      (fun e => EntryAdmitted x.options e ∧ e.key ∉ ks) := by
  refine ((reads_key p hix hr).onError _).build (fun f d => EntryDatum.mk f.1 d)
    (fun f _ => (reads_value _ _ _).map _) ?_ ?_
  · rintro ⟨hk, _⟩ d - ⟨rfl, -⟩
    exact ⟨rfl, rfl⟩
  · intro e
    constructor
    · rintro ⟨⟨hk, d⟩, hfr⟩
      exact ⟨(e.key, e.datum.typeOf), e.datum, ⟨⟨hk, hfr⟩, typeOf_admitted d⟩, ⟨rfl, d⟩, rfl⟩
    · rintro ⟨f, _, ⟨⟨hk, hfr⟩, -⟩, ⟨-, d⟩, rfl⟩
      exact ⟨⟨hk, d⟩, hfr⟩

end Entries

def entryStep (input : Input) (remaining : ℕ) (done : List MetadataEntry) (index : NameIndex) :
    Reader Meter Failure (MetadataEntry × NameIndex) :=
  onError (fun _ broken => ⟨broken.stop, done.map MetadataEntry.value ++
      broken.leftover :: List.replicate remaining .blank, broken.released⟩)
    (parseEntry input ⟨.metadata, done.length⟩ index (done.map MetadataEntry.key))

theorem entries_loop : RowLoop (parseEntries x) (entryStep x) where
  zero _ _ := rfl
  succ _ _ _ := rfl

theorem entries_read : RowsRead x (entryStep x) EntryDatum.entry MetadataEntry.key
    EntryDatum.key EntryDatum.encode EntryDatum.cost (EntryAdmitted x.options) :=
  fun _ _ _ hix hr => (reads_entry _ hix hr).onError _

abbrev EntriesAdmitted (options : ReaderOptions) : List EntryDatum → Prop :=
  RowsAdmitted (EntryAdmitted options) EntryDatum.key []

def encodeEntries : List EntryDatum → List UInt8 := encodeRows EntryDatum.encode

def entriesCost : List EntryDatum → Charge Meter := rowsCost EntryDatum.cost

theorem reads_metadata (n : ℕ) : Reads x.source (parseMetadata x n)
      (fun es => (es.map EntryDatum.entry, indexOf (es.map EntryDatum.key)))
      encodeEntries (fun es => directoryCost n entryBytes (entriesCost es))
      (fun es => es.length = n ∧ (n ≠ 0 → TableAdmitted n entryBytes) ∧
        EntriesAdmitted x.options es) := by
  unfold parseMetadata
  by_cases he : n = 0
  · subst he
    exact reads_noRows rfl
  · rw [if_neg he]
    exact entries_loop.reads_table (fun _ => rfl) entries_read he (reads_allocateTable.onError _)
      ((reads_nameIndexAllocate _ he).onError _)

def alignmentOf : Value → Option ℕ
  | .unsigned .uint32 alignment =>
    if alignment = 0 ∨ 2 ^ 32 - 1 < alignment then none else some alignment
  | _ => none

def declaredAlignment (entries : List MetadataEntry) : Option ℕ :=
  match entries.find? (fun entry => entry.key == alignmentKey) with
  | none => some defaultAlignment
  | some entry => alignmentOf entry.value

variable {es : List MetadataEntry}

theorem metadataFind_eq {i : NameIndex} (hf : i.Finds (es.map MetadataEntry.key))
    (key : List UInt8) :
    metadataFind es i key = some ((es.find? (fun e => e.key == key)).map MetadataEntry.value) := by
  obtain ⟨f, hl, he⟩ := hf key
  rw [metadataFind, hl, map_some]
  cases hsr : es.find? (fun e => e.key == key) with
  | none =>
    have none : f = none := by
      cases f with
      | none => rfl
      | some r =>
        have ha := (he r).mp rfl
        rw [getElem?_map, map_eq_some_iff] at ha
        obtain ⟨e, ht, hs⟩ := ha
        have hab := find?_eq_none.mp hsr e (mem_of_getElem? ht)
        exact absurd (by simpa using hs) hab
    rw [none]
    rfl
  | some e =>
    have hs : e.key = key := by simpa using find?_some hsr
    obtain ⟨r, ht⟩ := mem_iff_getElem?.mp (mem_of_find?_eq_some hsr)
    have ha : (es.map MetadataEntry.key)[r]? = some key := by rw [getElem?_map, ht, map_some, hs]
    rw [(he r).mpr ha, bind_some, ht]

theorem checks_alignment {i : NameIndex} (hf : i.Finds (es.map MetadataEntry.key)) :
    Checks (deriveAlignment es i) ((declaredAlignment es).getD 0)
      (declaredAlignment es).isSome := by
  rw [deriveAlignment, metadataFind_eq hf, declaredAlignment]
  cases es.find? (fun e => e.key == alignmentKey) with
  | none => exact (checks_pure _).congr (by simp)
  | some e =>
    obtain ⟨key, v⟩ := e
    simp only [map_some]
    cases v with
    | unsigned t a =>
      cases t with
      | uint32 =>
        by_cases bad : a = 0 ∨ 2 ^ 32 - 1 < a
        · simp only [Value.typeOf, Value.asU64, alignmentOf, if_pos bad]
          exact (checks_fail _ _).congr (by simp)
        · simp only [Value.typeOf, Value.asU64, alignmentOf, if_neg bad]
          exact (checks_pure _).congr (by simp)
      | _ => exact (checks_fail _ _).congr (by simp [alignmentOf])
    | signed t _ | float t _ => cases t <;> exact (checks_fail _ _).congr (by simp [alignmentOf])
    | _ => exact (checks_fail _ _).congr (by simp [alignmentOf])

end Yvex.GgufDirectory
