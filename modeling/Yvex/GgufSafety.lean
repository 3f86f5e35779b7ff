import Yvex.GgufRelease

/-!
# Safety of the GGUF reader

Opening a file ends, stays within its limits and leaves only values that can be
released, unless the storage for the items of some array is refused behind bytes
that the reader accepts. An accepted view finds each key and each name.
-/

set_option autoImplicit false

namespace Yvex.GgufSafety

open GgufData GgufNames GgufQtype GgufReader GgufReads GgufDirectory GgufTensors GgufRelease List
  MeteredReader ReaderFailures LittleEndian MetadataEntry Nat

variable (q : Place) (a n : ℕ)

variable {x : Input}

section Loops

variable {δ δ' α ε : Type}
  {loop : ℕ → List α → NameIndex → Reader Meter ε (List α × NameIndex)}
  {step : ℕ → List α → NameIndex → Reader Meter ε (α × NameIndex)} {v : δ → α}
  {na : α → List UInt8} {nm : δ → List UInt8} {format : δ → List UInt8}
  {cost : δ → Charge Meter} {admits : δ → Prop} {fine : ε → Prop} {good : List α → Prop}

theorem loop_clean (h : RowLoop loop step) (hn : ∀ ro, na (v ro) = nm ro)
    (hr : RowsRead x step v na nm format cost admits)
    (grow : ∀ d ro, good d → good (d ++ [v ro]))
    (hc : ∀ r d i, good d → Indexed i (d.map na) → (d.map na).length < i.capacity →
      Clean x.source (step r d i) fine)
    (n : ℕ) (d : List α) (i : NameIndex) (hh : good d)
    (hix : Indexed i (d.map na)) (room : d.length + n ≤ i.capacity) :
    Clean x.source (loop n d i) fine := by
  induction n generalizing d i with
  | zero =>
    rw [h.zero]
    exact clean_pure _
  | succ r ih =>
    have s : (d.map na).length < i.capacity := by
      rw [length_map]
      omega
    rw [h.succ]
    apply (hc r d i hh hix s).after (hr r d i hix s)
    rintro ro ⟨-, hfr⟩
    obtain ⟨a, next⟩ := indexed_row (hn ro) hix room hfr
    exact ih _ _ (grow d ro hh) a next

theorem loop_breaks {name' : δ' → List UInt8} {f : δ' → List UInt8}
    {co : δ' → Charge Meter} {ad : δ' → Prop} {refuses : δ' → Cursor Meter → Prop}
    (h : RowLoop loop step) (hn : ∀ ro, na (v ro) = nm ro)
    (hr : RowsRead x step v na nm format cost admits)
    (grow : ∀ d ro, good d → good (d ++ [v ro]))
    (hb : ∀ r d i, good d → Indexed i (d.map na) → (d.map na).length < i.capacity →
      Breaks x.source (step r d i) fine f co (fun ls => ad ls ∧ name' ls ∉ d.map na) refuses)
    (n : ℕ) (d : List α) (i : NameIndex) (hh : good d)
    (hix : Indexed i (d.map na)) (room : d.length + n ≤ i.capacity) :
    Breaks x.source (loop n d i) fine (fun p : List δ × δ' => encodeRows format p.1 ++ f p.2)
      (fun p => rowsCost cost p.1 + co p.2)
      (fun p => p.1.length < n ∧ RowsAdmitted admits nm (d.map na) p.1 ∧ ad p.2 ∧
        name' p.2 ∉ d.map na ++ p.1.map nm)
      (fun p => refuses p.2) := by
  induction n generalizing d i with
  | zero =>
    rw [h.zero]
    apply (clean_pure _).breaks
    rintro p ⟨hx, -⟩
    exact absurd hx (not_lt_zero _)
  | succ r ih =>
    have s : (d.map na).length < i.capacity := by
      rw [length_map]
      omega
    have re : ∀ ro, admits ro ∧ nm ro ∉ d.map na → Breaks x.source
        (loop r (d ++ [v ro]) (i.add (d.map na) (nm ro))) fine
        (fun p : List δ × δ' => encodeRows format p.1 ++ f p.2)
        (fun p => rowsCost cost p.1 + co p.2)
        (fun p => p.1.length < r ∧ RowsAdmitted admits nm (d.map na ++ [nm ro]) p.1 ∧ ad p.2 ∧
          name' p.2 ∉ (d.map na ++ [nm ro]) ++ p.1.map nm)
        (fun p => refuses p.2) := by
      rintro ro ⟨-, hf⟩
      obtain ⟨a, next⟩ := indexed_row (hn ro) hix room hf
      have l := ih _ _ (grow d ro hh) a next
      rwa [map_append, map_singleton, hn] at l
    rw [h.succ]
    exact Breaks.cons (fun _ => by simp [rowsAdmitted_nil])
      (fun _ _ _ => by simp [rowsAdmitted_cons, and_assoc]) ⟨rfl, rfl⟩ (fun _ _ => ⟨rfl, rfl⟩)
      (hr r d i hix s) (hb r d i hh hix s) re

end Loops

variable {i : NameIndex} {ns : List (List UInt8)}

theorem clean_nameIndexInsert (hix : Indexed i ns) (hr : ns.length < i.capacity)
    (nm : List UInt8) {d : Cursor Meter → Stop}
    (hh : ∀ c, Stop.Halted (d c)) :
    Clean x.source (nameIndexInsert i ns nm d) Stop.Halted := by
  obtain ⟨slot, f, walk, -⟩ := hix.walk_iff hr nm
  rw [nameIndexInsert, walk]
  cases f with
  | none => exact clean_pure _
  | some => exact clean_fail hh

variable {ks : List (List UInt8)}

theorem clean_key (hix : Indexed i ks) (hr : ks.length < i.capacity) :
    Clean x.source (parseKey x q i ks) Stop.Halted :=
  clean_string.bind fun key => clean_check.bind fun _ =>
    (clean_nameIndexInsert hix hr key halted_cursorFail).bind fun _ =>
    clean_valueType.bind fun _ => clean_pure _

structure EntryPath where
  key : List UInt8
  path : Path

def EntryPath.encode (entry : EntryPath) : List UInt8 :=
  (encodeString entry.key ++ leBytes 4 ValueType.array.code) ++ entry.path.encode

def EntryPath.cost (entry : EntryPath) : Charge Meter :=
  (stringCost entry.key + one .structural 4) + entry.path.cost

structure EntryPath.Admitted (options : ReaderOptions) (entry : EntryPath) : Prop where
  key : KeyAdmitted options entry.key
  path : entry.path.Admitted options options.maxArrayDepth.toNat

theorem breaks_entry (hix : Indexed i ks) (hr : ks.length < i.capacity) :
    Breaks x.source (parseEntry x q i ks) Broken.Fine EntryPath.encode
      EntryPath.cost (fun e => EntryPath.Admitted x.options e ∧ e.key ∉ ks)
      (fun e mid => Refused x mid e.path.count) := by
  have vl : ∀ (t : ValueType) (hb : Value → MetadataEntry × NameIndex), Breaks x.source (do
        let vl ← parseValue x q x.options.maxArrayDepth.toNat t
        return hb vl) Broken.Fine Path.encode Path.cost
        (fun p => t = .array ∧ p.Admitted x.options x.options.maxArrayDepth.toNat)
        (fun p mid => Refused x mid p.count) := by
    intro t hb
    by_cases hn : t = .array
    · subst hn
      simp only [true_and]
      exact (breaks_value q _).before (reads_value q _ .array) fun _ _ => clean_pure _
    · apply ((clean_flat q _ hn).bind fun _ => clean_pure _).breaks
      rintro p ⟨hx, -⟩
      exact hn hx
  refine Breaks.behind (fun f => EntryPath.mk f.1) (clean_leaving (clean_key q hix hr) trivial)
    ((reads_key q hix hr).onError _) (fun f _ => vl f.2 _) ?_ ?_
  · rintro ⟨hk, _⟩ p - ⟨rfl, -⟩
    exact ⟨rfl, rfl, fun _ => Iff.rfl⟩
  · intro e
    constructor
    · rintro ⟨⟨hk, p⟩, hfr⟩
      exact ⟨(e.key, .array), e.path, ⟨⟨hk, hfr⟩, by simp⟩, ⟨rfl, p⟩, rfl⟩
    · rintro ⟨f, _, ⟨⟨hk, hfr⟩, -⟩, ⟨-, p⟩, rfl⟩
      exact ⟨⟨hk, p⟩, hfr⟩

theorem clean_keeping {α : Type} {r : Reader Meter Stop α} {md : List Value}
    (hc : Clean x.source r Stop.Halted) (hs : SoundAll md) :
    Clean x.source (keeping md r) Failure.Fine :=
  hc.onError fun _ _ hh => ⟨hh, hs, trivial⟩

theorem fine_entry {d : List MetadataEntry} (hs : SoundAll (d.map MetadataEntry.value))
    (r : ℕ) (b : Broken) :
    Failure.Fine ⟨b.stop, d.map MetadataEntry.value ++
      b.leftover :: List.replicate r .blank, b.released⟩ ↔
      Broken.Fine b := by
  have hb := soundAll_blanks r
  constructor
  · rintro ⟨hh, md, hr⟩
    rw [soundAll_append, SoundAll] at md
    exact ⟨hh, md.2.1, hr⟩
  · rintro ⟨hh, l, hr⟩
    refine ⟨hh, ?_, hr⟩
    rw [soundAll_append, SoundAll]
    exact ⟨hs, l, hb⟩

theorem sound_grow (d : List MetadataEntry) (e : EntryDatum)
    (hs : SoundAll (d.map MetadataEntry.value)) :
    SoundAll ((d ++ [e.entry]).map MetadataEntry.value) := by
  rw [map_append, soundAll_append, map_singleton]
  exact ⟨hs, sound_value e.datum, trivial⟩

theorem sound_entries (es : List EntryDatum) :
    SoundAll ((es.map EntryDatum.entry).map MetadataEntry.value) := by
  induction es with
  | nil => simp [SoundAll]
  | cons e r ih => exact ⟨sound_value e.datum, ih⟩

theorem entry_key (e : EntryDatum) : e.entry.key = e.key := rfl

theorem clean_allocateTable {q : Place} {n r : ℕ} {excess m : String} :
    Clean x.source (allocateTable x q n r excess m) Stop.Halted :=
  clean_check.bind fun _ =>
    (clean_charge halted_cursorFail).bind fun _ =>
    clean_request halted_cursorFail

theorem clean_nameIndexAllocate : Clean x.source (nameIndexAllocate x q n) Stop.Halted := by
  unfold nameIndexAllocate
  split_ifs
  · exact clean_pure _
  apply clean_check.bind
  intro d
  cases growCapacity (n * 2) 64 8 with
  | none => exact clean_fail halted_cursorFail
  | some =>
    exact clean_check.bind fun _ =>
      (clean_charge halted_cursorFail).bind fun _ =>
      (clean_request halted_cursorFail).bind fun _ => clean_pure _

theorem keeps_metadata : Clean x.source (parseMetadata x n) (fun _ => True) := by
  unfold parseMetadata
  split
  · exact clean_pure _
  next he =>
  apply (clean_allocateTable.onError fun _ _ _ => trivial).bind
  intro d
  apply ((clean_nameIndexAllocate _ n).onError fun _ _ _ => trivial).after
    ((reads_nameIndexAllocate _ he).onError _)
  rintro _ ⟨-, hg, -⟩
  apply loop_clean entries_loop entry_key entries_read sound_grow _ n [] _ trivial (indexed_nil _)
  · rw [length_nil, zero_add]
    exact (indexCapacity_room he hg).le
  · intro r d i _ hix hr
    apply Clean.onError _ fun _ _ _ => trivial
    · exact fun _ => True
    · exact ((clean_leaving (clean_key _ hix hr) (by trivial)).mono fun _ _ => trivial).bind
        fun _ => (keeps_value _ _ _).bind fun _ => clean_pure _

/-- Reading the metadata breaks exactly at an array that refuses its items. -/
theorem breaks_metadata : Breaks x.source (parseMetadata x n) Failure.Fine
      (fun p : List EntryDatum × EntryPath => encodeEntries p.1 ++ p.2.encode)
      (fun p => tableCost n entryBytes + (entriesCost p.1 + p.2.cost))
      (fun p => TableAdmitted n entryBytes ∧ p.1.length < n ∧
        EntriesAdmitted x.options p.1 ∧ p.2.Admitted x.options ∧
        p.2.key ∉ p.1.map EntryDatum.key)
      (fun p mid => Refused x mid p.2.path.count) := by
  unfold parseMetadata
  by_cases he : n = 0
  · rw [if_pos he]
    apply (clean_pure _).breaks
    omega
  rw [if_neg he]
  have loop : (growCapacity (n * 2) 64 8).isSome → Breaks x.source
      (parseEntries x n [] ⟨fun _ => none, indexCapacity n⟩) Failure.Fine
      (fun p : List EntryDatum × EntryPath => encodeEntries p.1 ++ p.2.encode)
      (fun p => entriesCost p.1 + p.2.cost)
      (fun p => p.1.length < n ∧ EntriesAdmitted x.options p.1 ∧
        p.2.Admitted x.options ∧ p.2.key ∉ p.1.map EntryDatum.key)
      (fun p mid => Refused x mid p.2.path.count) := by
    intro hg
    exact loop_breaks entries_loop entry_key entries_read sound_grow
      (fun r _ _ hs hix hr => (breaks_entry _ hix hr).onError fun _ b =>
        fine_entry hs r b) n [] _ trivial (indexed_nil _) (by
        rw [length_nil, zero_add]
        exact (indexCapacity_room he hg).le)
  have ht := Breaks.given (clean_keeping (clean_nameIndexAllocate ⟨.metadata, noRecord⟩ n)
    (soundAll_blanks n)) ((reads_nameIndexAllocate _ he).onError _)
    fun ha => loop ha.2.1
  refine (Breaks.given (clean_keeping clean_allocateTable (by trivial))
    (reads_allocateTable.onError _) fun _ => ht).along (fun p => p) ?_ ?_
  · intro p _
    refine ⟨rfl, ?_, fun _ => Iff.rfl⟩
    simp only [tableCost, charge_add_assoc]
  · intro p
    constructor
    · rintro ⟨t, re⟩
      exact ⟨p, ⟨t.rows, ⟨t.names, t.grown, t.slots⟩, re⟩, rfl⟩
    · rintro ⟨_, ⟨rs, ⟨ns, hg, s⟩, re⟩, rfl⟩
      exact ⟨⟨rs, ns, hg, s⟩, re⟩

theorem clean_header : Clean x.source (parseHeader x) Stop.Halted :=
  clean_le.bind fun _ => clean_check.bind fun _ =>
    clean_le.bind fun _ => clean_check.bind fun _ =>
    clean_le.bind fun _ => clean_le.bind fun _ =>
    clean_check.bind fun _ => clean_pure _

theorem clean_alignment {es : List MetadataEntry} (finds : i.Finds (es.map MetadataEntry.key)) :
    Clean x.source (deriveAlignment es i) Stop.Halted := by
  rw [deriveAlignment, metadataFind_eq finds]
  cases (es.find? (fun e => e.key == alignmentKey)).map value with
  | none => exact clean_pure _
  | some value =>
    dsimp only
    split_ifs
    · exact clean_fail halted_cursorFail
    cases value.asU64 with
    | none => exact clean_fail halted_cursorFail
    | some =>
      dsimp only
      split_ifs
      · exact clean_fail halted_cursorFail
      · exact clean_pure _

theorem clean_dims (r : ℕ) : Clean x.source (parseDims x q r) Stop.Halted := by
  induction r with
  | zero => exact clean_pure _
  | succ r ih =>
    exact clean_le.bind fun _ => clean_check.bind fun _ => ih.bind fun _ => clean_pure _

theorem clean_storage (t : ℕ) (ds : List ℕ) :
    Clean x.source (storageOrFail q t ds) Stop.Halted := by
  unfold storageOrFail
  cases tensorStorage t ds with
  | ok => exact clean_pure _
  | error => exact clean_fail halted_cursorFail

theorem clean_row (hix : Indexed i ns) (hr : ns.length < i.capacity) :
    Clean x.source (parseRow x q a i ns) Stop.Halted := by
  have hsh : Clean x.source (parseShape x q) Stop.Halted :=
    clean_le.bind fun _ => clean_check.bind fun _ =>
      (clean_dims _ _).bind fun _ => clean_le.bind fun _ => clean_pure _
  exact clean_string.bind fun nm =>
    (clean_nameIndexInsert hix hr nm halted_cursorFail).bind fun _ =>
    hsh.bind fun _ => (clean_storage _ _ _).bind fun _ => clean_le.bind fun _ =>
    clean_check.bind fun _ => clean_pure _

theorem clean_tensors : Clean x.source (parseTensors x a n) Stop.Halted := by
  unfold parseTensors
  split
  · exact clean_pure _
  next he =>
  apply clean_allocateTable.bind
  intro d
  apply (clean_nameIndexAllocate _ n).after (reads_nameIndexAllocate _ he)
  rintro _ ⟨-, hg, -⟩
  have ha : ∀ (_ : List TensorRow) (_ : TensorRow), True → True := fun _ _ d => d
  apply loop_clean (rows_loop a) (fun _ => rfl) (rows_read a) ha _ n [] _ trivial (indexed_nil _)
  · rw [length_nil, zero_add]
    exact (indexCapacity_room he hg).le
  · exact fun _ _ _ _ hix hr => clean_row _ _ hix hr

theorem clean_locateTensors (off rc : ℕ) (rs : List TensorRow) :
    Clean x.source (locateTensors x off rc rs) Stop.Halted := by
  induction rs generalizing rc with
  | nil => exact clean_pure _
  | cons row r ih =>
    have one : Clean x.source (locateTensor x ⟨.range, rc⟩ off row)
        Stop.Halted :=
      clean_check.bind fun _ => clean_check.bind fun _ => clean_pure _
    exact one.bind fun _ => (ih _).bind fun _ => clean_pure _

theorem clean_locateData (rs : List TensorRow) :
    Clean x.source (locateData x a rs) Stop.Halted := by
  have ha : ∀ o, Clean x.source (alignOffset ⟨.range, noRecord⟩ o a)
      Stop.Halted := fun o =>
    clean_check.bind fun _ => clean_check.bind fun _ => clean_pure _
  intro c hw
  exact (((ha c.offset).bind fun _ => clean_check.bind fun _ =>
    (clean_locateTensors _ _ rs).bind fun _ => clean_pure _) :
    Clean x.source _ Stop.Halted) c hw

structure Stranded where
  metadataCount : ℕ
  tensorCount : ℕ
  entries : List EntryDatum
  last : EntryPath

namespace Stranded

def encode (stranded : Stranded) : List UInt8 :=
  encodeHeader ⟨supportedVersion, stranded.metadataCount, stranded.tensorCount⟩ ++
    (encodeEntries stranded.entries ++ stranded.last.encode)

def cost (stranded : Stranded) : Charge Meter :=
  headerCost + (tableCost stranded.metadataCount entryBytes +
    (entriesCost stranded.entries + stranded.last.cost))

structure Admitted (options : ReaderOptions) (stranded : Stranded) : Prop where
  header : HeaderAdmitted options
    ⟨supportedVersion, stranded.metadataCount, stranded.tensorCount⟩
  table : TableAdmitted stranded.metadataCount entryBytes
  inside : stranded.entries.length < stranded.metadataCount
  entries : EntriesAdmitted options stranded.entries
  last : stranded.last.Admitted options
  fresh : stranded.last.key ∉ stranded.entries.map EntryDatum.key

end Stranded

theorem breaks_directory :
    Breaks x.source (parseDirectory x) Failure.Fine Stranded.encode Stranded.cost
      (Stranded.Admitted x.options)
      (fun cut mid => Refused x mid cut.last.path.count) := by
  refine Breaks.behind (fun h p => ⟨h.metadataCount, h.tensorCount, p.1, p.2⟩)
    (clean_keeping clean_header trivial) (reads_header.onError _)
    (fun h _ => (breaks_metadata _).before (reads_metadata _) ?_) ?_ ?_
  · rintro es ⟨len, ta, ha⟩
    have hs := sound_entries es
    refine (clean_keeping (clean_alignment ?_) hs).bind fun a =>
      (clean_keeping (clean_tensors _ _) hs).bind fun _ => clean_pure _
    rw [metadata_keys]
    exact ha.finds (by rw [len]; exact ta)
  · rintro ⟨_, m, t⟩ p ⟨rfl, -⟩ -
    exact ⟨rfl, rfl, fun _ => Iff.rfl⟩
  · rintro ⟨m, t, es, last⟩
    constructor
    · rintro ⟨h, ta, hi, ha, ok, hfr⟩
      exact ⟨⟨supportedVersion, m, t⟩, (es, last), h, ⟨ta, hi, ha, ok, hfr⟩, rfl⟩
    · rintro ⟨⟨_, _, _⟩, _, ⟨rfl, few, hf⟩, ⟨ta, hi, ha, ok, hfr⟩, he⟩
      cases he
      exact ⟨⟨rfl, few, hf⟩, ta, hi, ha, ok, hfr⟩

theorem sound_metadata (d : DirectoryDatum) :
    SoundAll (d.directory.metadata.map MetadataEntry.value) :=
  sound_entries d.entries

theorem breaks_view : Breaks x.source (parseView x) Failure.Fine Stranded.encode Stranded.cost
      (Stranded.Admitted x.options)
      (fun cut mid => Refused x mid cut.last.path.count) :=
  breaks_directory.before reads_directory fun d _ =>
    (clean_keeping (clean_locateData _ _) (sound_metadata d)).bind fun _ => clean_pure _

theorem keeps_view : Clean x.source (parseView x) (fun _ => True) := by
  have hk : ∀ {α : Type} {r : Reader Meter Stop α} {va : List Value}, Clean x.source r Stop.Halted →
      Clean x.source (keeping va r) (fun _ => True) :=
    fun hc => hc.onError fun _ _ _ => trivial
  have dir : Clean x.source (parseDirectory x) (fun _ => True) := by
    apply (hk clean_header).bind
    intro h
    apply (keeps_metadata _).after (reads_metadata _)
    rintro es ⟨len, t, ha⟩
    refine (hk (clean_alignment ?_)).bind fun a =>
      (hk (clean_tensors _ _)).bind fun _ => clean_pure _
    rw [metadata_keys]
    exact ha.finds (by rw [len]; exact t)
  exact dir.bind fun _ => (hk (clean_locateData _ _)).bind fun _ => clean_pure _

variable {c after : Cursor Meter}

theorem locateTensors_rows {off rc : ℕ} {rs : List TensorRow} {ts : List TensorInfo}
    (hr : locateTensors x off rc rs c = (.ok ts, after)) :
    ts.map TensorInfo.toTensorRow = rs := by
  induction rs generalizing rc c ts with
  | nil =>
    cases hr
    rfl
  | cons row r ih =>
    obtain ⟨info, mid, hf, hr⟩ := bind_ok.mp hr
    obtain ⟨infos, last, hl, hr⟩ := bind_ok.mp hr
    cases hr
    obtain ⟨_, _, -, hf⟩ := bind_ok.mp hf
    obtain ⟨_, _, -, hf⟩ := bind_ok.mp hf
    cases hf
    rw [map_cons, ih hl]

theorem view_directory {v : View} (hw : Within x.source c) (hr : parseView x c = (.ok v, after)) :
    ∃ d : DirectoryDatum, d.Admitted x.options ∧ v.metadata = d.metadata ∧
      v.metadataIndex = indexOf (d.entries.map EntryDatum.key) ∧
      v.tensors.map TensorInfo.toTensorRow = d.rows ∧
      v.tensorIndex = indexOf (d.rows.map TensorRow.name) := by
  obtain ⟨dir, mid, read, hr⟩ := bind_ok.mp hr
  obtain ⟨d, rfl, ha, -⟩ := (reads_directory c hw dir mid).mp read
  obtain ⟨⟨hd, off, ts⟩, last, l, hr⟩ := bind_ok.mp hr
  cases hr
  refine ⟨d, ha, rfl, rfl, ?_, rfl⟩
  obtain ⟨_, _, -, l⟩ := bind_ok.mp (onError_ok.mp l)
  obtain ⟨_, _, -, l⟩ := bind_ok.mp l
  obtain ⟨f, _, hr, l⟩ := bind_ok.mp l
  cases l
  exact locateTensors_rows hr

structure Findable (view : View) : Prop where
  keys : (view.metadata.map MetadataEntry.key).Nodup
  names : (view.tensors.map fun tensor => tensor.name).Nodup
  entry : ∀ entry ∈ view.metadata, view.metadataFind entry.key = some (some entry.value)
  otherKey : ∀ key ∉ view.metadata.map MetadataEntry.key, view.metadataFind key = some none
  tensor : ∀ tensor ∈ view.tensors, view.tensorFind tensor.name = some (some tensor)
  otherName : ∀ name ∉ view.tensors.map fun tensor => tensor.name,
    view.tensorFind name = some none

theorem lookup_row {α : Type} {rs : List α} {nm : α → List UInt8}
    (hfn : i.Finds (rs.map nm)) {ro : α} (hm : ro ∈ rs) :
    ∃ rc, i.lookup (rs.map nm) (nm ro) = some (some rc) ∧ rs[rc]? = some ro := by
  obtain ⟨rc, hf⟩ := mem_iff_getElem?.mp hm
  obtain ⟨r, hl, he⟩ := hfn (nm ro)
  refine ⟨rc, ?_, hf⟩
  rw [hl, (he rc).mpr (by rw [getElem?_map, hf]; rfl)]

theorem lookup_other (hf : i.Finds ns) {nm : List UInt8} (hab : nm ∉ ns) :
    i.lookup ns nm = some none := by
  obtain ⟨r, hl, he⟩ := hf nm
  cases r with
  | none => exact hl
  | some rc => exact absurd (mem_of_getElem? ((he rc).mp rfl)) hab

/-- Every record of a parsed view is found under its name. -/
theorem view_findable {v : View} (hw : Within x.source c) (run : parseView x c = (.ok v, after)) :
    Findable v := by
  obtain ⟨d, ha, md, m, ts, ti⟩ := view_directory hw run
  have k : v.metadata.map key = d.entries.map EntryDatum.key := by
    rw [md]
    exact metadata_keys d.entries
  have tn : v.tensors.map (fun t => t.name) = d.rows.map TensorRow.name := by
    rw [← ts, map_map]
    rfl
  have ks : v.metadataIndex.Finds (v.metadata.map key) := by
    rw [k, m]
    exact ha.entries.finds ha.metadataTable
  have ns : v.tensorIndex.Finds (v.tensors.map fun t => t.name) := by
    rw [tn, ti]
    exact ha.rows.finds ha.tensorTable
  refine ⟨?_, ?_, ?_, ?_, ?_, ?_⟩
  · rw [k]
    exact ha.entries.distinct
  · rw [tn]
    exact ha.rows.distinct
  · intro e hm
    obtain ⟨rc, hf, hth⟩ := lookup_row ks hm
    rw [View.metadataFind, metadataFind, hf, Option.map_some, Option.bind_some, hth]
    rfl
  · intro key hab
    rw [View.metadataFind, metadataFind, lookup_other ks hab]
    rfl
  · intro t hm
    obtain ⟨rc, hf, hth⟩ := lookup_row ns hm
    rw [View.tensorFind, hf, Option.map_some, Option.bind_some, hth]
  · intro nm hab
    rw [View.tensorFind, lookup_other ns hab]
    rfl

def Releasable (values : List Value) : Prop :=
  SoundAll values ∧ clearAll values = some (sizeAll values)

theorem releasable {va : List Value} (hs : SoundAll va) : Releasable va :=
  ⟨hs, clearAll_sound va hs⟩

/-- Opening ends within its budgets, what it leaves can be released, and an accepted view
finds its rows. -/
structure Safe (input : Input) : Prop where
  structural : (openEx input).2.spent .structural ≤ input.options.maxStructuralBytes.toNat
  owned : (openEx input).2.spent .owned ≤ input.options.maxOwnedBytes.toNat
  ended : ∀ failure, (openEx input).1 = .error failure → failure.stop ≠ .endless
  released : ∀ failure, (openEx input).1 = .error failure →
    Releasable failure.metadata ∧ Releasable failure.released
  closed : ∀ view, (openEx input).1 = .ok view →
    Releasable (view.metadata.map MetadataEntry.value)
  found : ∀ view, (openEx input).1 = .ok view → Findable view

def Stranding (input : Input) : Prop :=
  ∃ (stranded : Stranded) (mid : Cursor Meter), stranded.Admitted input.options ∧
    Spans input.source firstCursor stranded.encode stranded.cost mid ∧
    Refused input mid stranded.last.path.count

theorem safe_refused {code : ParseCode} {r : String} (hr : openEx x = (.error (openFail code r), c))
    (hs : c.spent .structural ≤ x.options.maxStructuralBytes.toNat)
    (ho : c.spent .owned ≤ x.options.maxOwnedBytes.toNat) : Safe x := by
  have hno : Releasable [] := releasable trivial
  constructor
  · rw [hr]
    exact hs
  · rw [hr]
    exact ho
  · intro f he hx
    rw [hr] at he
    cases he
    cases hx
  · intro f he
    rw [hr] at he
    cases he
    exact ⟨hno, hno⟩
  all_goals
    intro v hx
    rw [hr] at hx
    cases hx

theorem within_first (hen : viewBytes ≤ x.options.maxOwnedBytes.toNat) :
    Within x.source firstCursor := by
  refine ⟨zero_le _, ?_⟩
  intro m
  cases m with
  | owned => exact hen
  | structural | strings | arrays => exact zero_le _

theorem safe_parsed (run : openEx x = parseView x firstCursor)
    (hw : Within x.source firstCursor) : Safe x ↔ ¬ Stranding x := by
  have hbr := breaks_view firstCursor hw
  have hk := (keeps_view firstCursor hw).1
  rw [← run] at hbr hk
  rw [Stranding, ← hbr]
  constructor
  · rintro hs ⟨f, hf, hb⟩
    have p := hs.released f hf
    exact hb ⟨hs.ended f hf, p.1.1, p.2.1⟩
  · intro none
    have hfn : ∀ f, (openEx x).1 = .error f → Failure.Fine f := by
      intro f hf
      by_contra hb
      exact none ⟨f, hf, hb⟩
    have hp : ∀ v, (openEx x).1 = .ok v → parseView x firstCursor = (.ok v, (openEx x).2) := by
      intro v ho
      rw [← run, ← ho]
    constructor
    · exact hk.2 .structural
    · exact hk.2 .owned
    · exact fun f hf => (hfn f hf).halted
    · exact fun f hf => ⟨releasable (hfn f hf).metadata, releasable (hfn f hf).released⟩
    · intro v ho
      obtain ⟨d, -, md, -⟩ := view_directory hw (hp v ho)
      rw [md]
      exact releasable (sound_metadata d)
    · exact fun v ho => view_findable hw (hp v ho)

/-- Opening is safe unless the view alone exceeds the owned budget, or the file leads to
an array whose items are refused. -/
theorem openEx_safe_iff (input : Input) (nonzero : input.options.Nonzero) :
    Safe input ↔ (input.grants 0 = true →
      viewBytes ≤ input.options.maxOwnedBytes.toNat ∧ ¬ Stranding input) := by
  by_cases granted : input.grants 0 = true
  · by_cases enough : viewBytes ≤ input.options.maxOwnedBytes.toNat
    · have run : openEx input = parseView input firstCursor := by
        rw [openEx, if_neg (not_not.mpr nonzero), if_neg (not_not.mpr granted),
          if_neg (not_lt.mpr enough)]
      rw [safe_parsed run (within_first enough)]
      exact ⟨fun none _ => ⟨enough, none⟩, fun both => (both granted).2⟩
    · constructor
      · intro safe
        have owned := safe.owned
        rw [openEx, if_neg (not_not.mpr nonzero), if_neg (not_not.mpr granted),
          if_pos (not_le.mp enough)] at owned
        exact absurd owned enough
      · intro both
        exact absurd (both granted).1 enough
  · constructor
    · exact fun _ yes => absurd yes granted
    · intro _
      have run : openEx input = (.error (openFail .allocationFailure
          "failed to allocate GGUF view"), blankCursor.advance 0 asked) := by
        rw [openEx, if_neg (not_not.mpr nonzero), if_pos granted]
      exact safe_refused run (zero_le _) (zero_le _)

def arrayEntry : List UInt8 :=
  encodeString [97] ++ leBytes 4 ValueType.array.code ++ leBytes 4 ValueType.uint8.code ++
    leBytes 8 2 ++ [1, 2]

-- an array of two items, a tensor of two floats, and its data at the next aligned offset
def fullInput : Input where
  file := encodeHeader ⟨supportedVersion, 1, 1⟩ ++ arrayEntry ++ encodeRow ⟨[119], [2], 0, 0, 8⟩ ++
    replicate 20 0
  options := readerOptionsDefault
  grants := fun _ => true
  sized := by decide

/-- The parser accepts exactly the encodings of admitted directories that stand at the cursor
and stay within the limits, and returns what they encode. -/
theorem parseDirectory_exact (within : Within x.source c) (d : Directory) :
    parseDirectory x c = (.ok d, after) ↔ ∃ datum : DirectoryDatum,
      datum.directory = d ∧ datum.Admitted x.options ∧
        Spans x.source c datum.encode datum.cost after :=
  reads_directory c within d after

theorem parseDirectory_exact_full :
    ∃ d after, parseDirectory fullInput firstCursor = (.ok d, after) ∧
      d.metadata.length = 1 ∧ d.rows.map TensorRow.dims = [[2]] ∧
      ∃ datum : DirectoryDatum, datum.directory = d ∧ datum.Admitted fullInput.options := by
  have parsed : (parseDirectory fullInput firstCursor).1.toOption.map (fun d =>
      (d.metadata.length, d.rows.map TensorRow.dims)) = some (1, [[2]]) := by decide +kernel
  rcases outcome : parseDirectory fullInput firstCursor with ⟨_ | d, after⟩
  · simp [outcome, Except.toOption] at parsed
  · obtain ⟨entries, dims⟩ := Prod.mk.inj (Option.some_inj.mp (outcome ▸ parsed))
    obtain ⟨datum, same, admitted, -⟩ :=
      (parseDirectory_exact (within_first (by decide)) d).mp outcome
    exact ⟨d, after, rfl, entries, dims, datum, same, admitted⟩

theorem openEx_safe_full :
    fullInput.options.Nonzero ∧ (openEx fullInput).1.isOk = true ∧ Safe fullInput := by
  have nonzero : fullInput.options.Nonzero := by decide
  have accepted : (openEx fullInput).1.isOk = true := by decide +kernel
  refine ⟨nonzero, accepted, (openEx_safe_iff fullInput nonzero).mpr fun _ => ⟨by decide, ?_⟩⟩
  -- only a parse that fails is stranded
  intro strands
  obtain ⟨failure, failed, -⟩ := (breaks_view firstCursor (within_first (by decide))).mpr strands
  have run : openEx fullInput = parseView fullInput firstCursor := by
    have granted : fullInput.grants 0 = true := rfl
    rw [openEx, if_neg (not_not.mpr nonzero), if_neg (not_not.mpr granted), if_neg (by decide)]
  rw [run, failed] at accepted
  cases accepted

def bareInput : Input where
  file := encodeHeader ⟨supportedVersion, 1, 0⟩ ++ arrayEntry
  options := readerOptionsDefault
  grants := fun request => request != 4
  sized := by decide

theorem openEx_bare : bareInput.options.Nonzero ∧ ¬ Safe bareInput ∧
    ∃ failure, (openEx bareInput).1 = .error failure ∧ clearAll failure.metadata = none := by
  have run : (match (openEx bareInput).1 with
      | .error failure => (clearAll failure.metadata).isNone
      | .ok _ => false) = true := by decide +kernel
  have failed : ∃ failure, (openEx bareInput).1 = .error failure ∧
      clearAll failure.metadata = none := by
    cases outcome : (openEx bareInput).1 with
    | ok => simp [outcome] at run
    | error failure => exact ⟨failure, rfl, by simpa [outcome] using run⟩
  refine ⟨by decide, ?_, failed⟩
  intro safe
  obtain ⟨failure, error, missing⟩ := failed
  have cleared := (safe.released failure error).1.2
  rw [missing] at cleared
  cases cleared

end Yvex.GgufSafety
