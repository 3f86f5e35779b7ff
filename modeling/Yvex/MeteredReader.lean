import Mathlib.Tactic

/-!
# Metered readers

A reader walks forward through a byte source. What it takes is counted on
meters, each with a limit, and it may ask for storage, which is granted or not.
Because meters only grow, a reader returns the meaning of a datum exactly when the
datum's format stands at the offset, it is admitted, and the cursor behind it is
within all the limits; the rules below assemble this one description from the
parts of a reader.
-/

set_option autoImplicit false

namespace Yvex.MeteredReader

variable {ρ ε φ α β δ γ : Type}

structure Source (ρ : Type) where
  bytes : List UInt8
  limit : ρ → ℕ
  grants : ℕ → Bool

structure Cursor (ρ : Type) where
  offset : ℕ
  spent : ρ → ℕ
  requests : ℕ

structure Charge (ρ : Type) where
  spent : ρ → ℕ
  requests : ℕ

instance : Zero (Charge ρ) := ⟨⟨fun _ => 0, 0⟩⟩

instance : Add (Charge ρ) :=
  ⟨fun a b => ⟨fun meter => a.spent meter + b.spent meter, a.requests + b.requests⟩⟩

@[simp] theorem zero_spent (mt : ρ) : (0 : Charge ρ).spent mt = 0 := rfl

@[simp] theorem add_spent (a b : Charge ρ) (mt : ρ) :
    (a + b).spent mt = a.spent mt + b.spent mt := rfl

@[simp] theorem add_requests (a b : Charge ρ) : (a + b).requests = a.requests + b.requests := rfl

variable {a b : Charge ρ}

theorem Charge.ext (hs : ∀ meter, a.spent meter = b.spent meter)
    (rq : a.requests = b.requests) : a = b := by
  cases a
  cases b
  simp only [Charge.mk.injEq] at *
  exact ⟨funext hs, rq⟩

@[simp] theorem charge_zero_add (a : Charge ρ) : 0 + a = a :=
  Charge.ext (fun _ => Nat.zero_add _) (Nat.zero_add _)

@[simp] theorem charge_add_zero (a : Charge ρ) : a + 0 = a :=
  Charge.ext (fun _ => Nat.add_zero _) (Nat.add_zero _)

theorem charge_add_assoc (a b c : Charge ρ) : a + b + c = a + (b + c) :=
  Charge.ext (fun _ => Nat.add_assoc _ _ _) (Nat.add_assoc _ _ _)

def one [DecidableEq ρ] (meter : ρ) (amount : ℕ) : Charge ρ :=
  ⟨fun other => if other = meter then amount else 0, 0⟩

def asked : Charge ρ := ⟨fun _ => 0, 1⟩

@[simp] theorem one_requests [DecidableEq ρ] (mt : ρ) (n : ℕ) : (one mt n).requests = 0 := rfl

@[simp] theorem one_spent [DecidableEq ρ] (mt other : ρ) (n : ℕ) :
    (one mt n).spent other = if other = mt then n else 0 := rfl

@[simp] theorem asked_spent (mt : ρ) : (asked : Charge ρ).spent mt = 0 := rfl

@[simp] theorem asked_requests : (asked : Charge ρ).requests = 1 := rfl

def Cursor.advance (cursor : Cursor ρ) (count : ℕ) (charge : Charge ρ) : Cursor ρ where
  offset := cursor.offset + count
  spent meter := cursor.spent meter + charge.spent meter
  requests := cursor.requests + charge.requests

open Cursor List

theorem advance_advance (cur : Cursor ρ) (k n : ℕ) (a b : Charge ρ) :
    (cur.advance k a).advance n b = cur.advance (k + n) (a + b) := by
  simp [advance, Nat.add_assoc]

def Reader (ρ ε α : Type) : Type := Cursor ρ → Except ε α × Cursor ρ

instance : Monad (Reader ρ ε) where
  pure value := fun cursor => (.ok value, cursor)
  bind read next := fun cursor =>
    match read cursor with
    | (.ok value, after) => next value after
    | (.error error, after) => (.error error, after)

theorem run_pure (v : α) (cur : Cursor ρ) : (pure v : Reader ρ ε α) cur = (.ok v, cur) := rfl

theorem run_bind (rd : Reader ρ ε α) (next : α → Reader ρ ε β) (cur : Cursor ρ) :
    (rd >>= next) cur =
      match rd cur with
      | (.ok v, af) => next v af
      | (.error e, af) => (.error e, af) := rfl

variable {reader : Reader ρ ε α} {cur la : Cursor ρ} {r : β}

theorem bind_ok {next : α → Reader ρ ε β} : (reader >>= next) cur = (.ok r, la) ↔
      ∃ v af, reader cur = (.ok v, af) ∧ next v af = (.ok r, la) := by
  rw [run_bind]
  cases h : reader cur with
  | mk o af =>
    cases o with
    | ok v =>
      constructor
      · intro rs
        exact ⟨v, af, rfl, rs⟩
      · rintro ⟨v', a', he, rs⟩
        cases he
        exact rs
    | error =>
      constructor
      · nofun
      · rintro ⟨v', a', he, rs⟩
        cases he

def fail (error : Cursor ρ → ε) : Reader ρ ε α := fun cursor => (.error (error cursor), cursor)

def require (condition : Bool) (error : Cursor ρ → ε) : Reader ρ ε Unit :=
  if condition then pure () else fail error

def onError (replace : Cursor ρ → ε → φ) (read : Reader ρ ε α) : Reader ρ φ α := fun cursor =>
  match read cursor with
  | (.ok value, after) => (.ok value, after)
  | (.error error, after) => (.error (replace after error), after)

theorem onError_ok {replace : Cursor ρ → ε → φ} {r : α} :
    onError replace reader cur = (.ok r, la) ↔ reader cur = (.ok r, la) := by
  unfold onError
  cases reader cur with
  | mk o => cases o <;> simp

section Sources

variable (source src : Source ρ)

def request (error : Cursor ρ → ε) : Reader ρ ε Unit := fun cursor =>
  if source.grants cursor.requests then (.ok (), cursor.advance 0 asked)
  else (.error (error cursor), cursor.advance 0 asked)

def Within (cursor : Cursor ρ) : Prop :=
  cursor.offset ≤ source.bytes.length ∧ ∀ meter, cursor.spent meter ≤ source.limit meter

def Granted (cursor after : Cursor ρ) : Prop :=
  ∀ i, cursor.requests ≤ i → i < after.requests → source.grants i = true

def Spans (cursor : Cursor ρ) (bytes : List UInt8) (cost : Charge ρ) (after : Cursor ρ) : Prop :=
  bytes <+: source.bytes.drop cursor.offset ∧ after = cursor.advance bytes.length cost ∧
    Within source after ∧ Granted source cursor after

/-- The reader returns exactly the meanings of the admitted data whose format
stands at the cursor. -/
def Reads (read : Reader ρ ε α) (meaning : δ → α) (format : δ → List UInt8)
    (cost : δ → Charge ρ) (admits : δ → Prop) : Prop :=
  ∀ cursor, Within source cursor → ∀ value after,
    read cursor = (.ok value, after) ↔
      ∃ datum, meaning datum = value ∧ admits datum ∧
        Spans source cursor (format datum) (cost datum) after

abbrev Pays (read : Reader ρ ε α) (value : α) (cost : Charge ρ) (allowed : Prop) : Prop :=
  Reads source read (fun _ : Unit => value) (fun _ => []) (fun _ => cost) (fun _ => allowed)

def Checks (read : Reader ρ ε α) (value : α) (allowed : Prop) : Prop :=
  ∀ cursor result after, read cursor = (.ok result, after) ↔
    allowed ∧ result = value ∧ after = cursor

variable [DecidableEq ρ]

def charge (meter : ρ) (amount : ℕ) (error : Cursor ρ → ε) : Reader ρ ε Unit := fun cursor =>
  if source.limit meter < cursor.spent meter + amount then (.error (error cursor), cursor)
  else (.ok (), cursor.advance 0 (one meter amount))

def charging (meter : ρ) (amount : ℕ) (error : Cursor ρ → ε) (read : Reader ρ ε α) :
    Reader ρ ε α := fun cursor =>
  if source.limit meter < cursor.spent meter + amount then (.error (error cursor), cursor)
  else match read cursor with
    | (.ok value, after) => (.ok value, after.advance 0 (one meter amount))
    | (.error inner, after) => (.error inner, after)

def take (meter : ρ) (count : ℕ) (short excess : Cursor ρ → ε) : Reader ρ ε (List UInt8) :=
  fun cursor =>
    if count > source.bytes.length - min cursor.offset source.bytes.length then
      (.error (short cursor), cursor)
    else if source.limit meter < cursor.spent meter + count then (.error (excess cursor), cursor)
    else (.ok ((source.bytes.drop cursor.offset).take count),
      cursor.advance count (one meter count))

end Sources

section Rules

variable {source src : Source ρ} {count : ℕ}

theorem Within.of_advance (h : Within src (cur.advance count a)) :
    Within src cur := by
  constructor
  · have hb := h.1
    simp only [advance] at hb
    omega
  · intro mt
    have hb := h.2 mt
    simp only [advance] at hb
    omega

theorem granted_refl (cur : Cursor ρ) : Granted src cur cur := by
  intro i low high
  omega

theorem granted_split {k n : ℕ} :
    Granted src cur ((cur.advance k a).advance n b) ↔ Granted src cur (cur.advance k a) ∧
      Granted src (cur.advance k a) ((cur.advance k a).advance n b) := by
  constructor
  · intro h
    constructor
    · intro i low hh
      apply h i low
      simp only [advance] at hh ⊢
      omega
    · intro i low hh
      apply h i _ hh
      simp only [advance] at low
      omega
  · rintro ⟨her, hl⟩ i low hh
    by_cases be : i < (cur.advance k a).requests
    · exact her i low be
    · exact hl i (by omega) hh

variable {ys : List UInt8}

theorem prefix_append_iff {fi rs : List UInt8} :
    fi ++ ys <+: rs ↔ fi <+: rs ∧ ys <+: rs.drop fi.length := by
  constructor
  · rintro ⟨t, rfl⟩
    constructor
    · exact ⟨ys ++ t, by simp⟩
    · exact ⟨t, by simp⟩
  · rintro ⟨⟨t, rfl⟩, ⟨la, h⟩⟩
    rw [drop_left] at h
    exact ⟨la, by rw [append_assoc, h]⟩

theorem spans_nil (hw : Within src cur) : Spans src cur [] 0 la ↔ la = cur := by
  constructor
  · intro hs
    exact hs.2.1
  · rintro rfl
    exact ⟨ nil_prefix, rfl, hw, granted_refl la⟩

variable {cost : Charge ρ}

theorem Spans.within {bs : List UInt8} (h : Spans src cur bs cost la) :
    Within src la :=
  h.2.2.1

theorem spans_append {xs : List UInt8} : Spans src cur (xs ++ ys) (a + b) la ↔
      ∃ mid, Spans src cur xs a mid ∧ Spans src mid ys b la := by
  unfold Spans
  rw [prefix_append_iff, drop_drop, length_append, ← advance_advance]
  constructor
  · rintro ⟨⟨hs, hs'⟩, rfl, ho, hgr⟩
    obtain ⟨her, hl⟩ := granted_split.mp hgr
    exact ⟨_, ⟨hs, rfl, ho.of_advance, her⟩, hs', rfl, ho, hl⟩
  · rintro ⟨_, ⟨hs, rfl, i, her⟩, hs', rfl, ho, hl⟩
    exact ⟨⟨hs, hs'⟩, rfl, ho, granted_split.mpr ⟨her, hl⟩⟩

variable {m : δ → α} {cs : δ → Charge ρ}

theorem Reads.congr {fmt ft : δ → List UInt8} {co : δ → Charge ρ}
    {holds ad : δ → Prop} (h : Reads src reader m fmt cs holds)
    (ha : ∀ d, holds d ↔ ad d)
    (hs : ∀ d, holds d → fmt d = ft d ∧ cs d = co d) :
    Reads src reader m ft co ad := by
  intro cur hw v af
  rw [h cur hw v af]
  apply exists_congr
  intro d
  by_cases ok : holds d
  · rw [(hs d ok).1, (hs d ok).2, ha]
  · have no : ¬ ad d := fun yes => ok ((ha d).mpr yes)
    simp [ok, no]

theorem Reads.iff {fmt : δ → List UInt8} {holds ad : δ → Prop} (h : Reads src reader m fmt cs holds)
    (ha : ∀ d, holds d ↔ ad d) : Reads src reader m fmt cs ad :=
  h.congr ha fun _ _ => ⟨rfl, rfl⟩

theorem reads_pure (m : δ → α) (d : δ) :
    Reads src (pure (m d) : Reader ρ ε α) m (fun _ => []) (fun _ => 0) (· = d) := by
  intro cur hw v af
  rw [run_pure]
  constructor
  · intro he
    cases he
    exact ⟨d, rfl, rfl, (spans_nil hw).mpr rfl⟩
  · rintro ⟨_, rfl, rfl, hs⟩
    rw [(spans_nil hw).mp hs]

theorem reads_fail (e : Cursor ρ → ε) (m : δ → α) (fmt : δ → List UInt8) (cost : δ → Charge ρ) :
    Reads src (fail e) m fmt cost (fun _ => False) := by
  intro cur _ v af
  simp [fail]

variable {fmt : δ → List UInt8} {good : δ → Prop}

/-- The same reader over other data. -/
theorem Reads.along {m' : γ → α} {ft : γ → List UInt8}
    {co : γ → Charge ρ} {ad : γ → Prop} (h : Reads src reader m fmt cs good)
    (back : δ → γ)
    (hs : ∀ d, good d → m' (back d) = m d ∧ ft (back d) = fmt d ∧ co (back d) = cs d)
    (ho : ∀ w, (∃ d, good d ∧ back d = w) ↔ ad w) :
    Reads src reader m' ft co ad := by
  intro cur hw v la
  rw [h cur hw v la]
  constructor
  · rintro ⟨d, rfl, ok, hh⟩
    obtain ⟨hm, bs, ch⟩ := hs d ok
    refine ⟨back d, hm, (ho _).mp ⟨d, ok, rfl⟩, ?_⟩
    rw [bs, ch]
    exact hh
  · rintro ⟨w, rfl, ha, hh⟩
    obtain ⟨d, ok, rfl⟩ := (ho w).mpr ha
    obtain ⟨hm, bs, ch⟩ := hs d ok
    rw [bs, ch] at hh
    exact ⟨d, hm.symm, ok, hh⟩

/-- One reader after the other: what both have read builds the datum. -/
theorem Reads.build {ω : Type} {next : α → Reader ρ ε β}
    {f : δ → γ → List UInt8} {c : δ → γ → Charge ρ} {holds : δ → γ → Prop} {m' : ω → β}
    {ft : ω → List UInt8} {co : ω → Charge ρ} {ad : ω → Prop} (back : δ → γ → ω)
    (h1 : Reads src reader m fmt cs good)
    (rs : ∀ d, good d → Reads src (next (m d)) (fun l => m' (back d l)) (f d) (c d) (holds d))
    (hs : ∀ d l, good d → holds d l → ft (back d l) = fmt d ++ f d l ∧ co (back d l) = cs d + c d l)
    (ho : ∀ w, ad w ↔ ∃ d l, good d ∧ holds d l ∧ back d l = w) :
    Reads src (reader >>= next) m' ft co ad := by
  intro cur hw v ls
  rw [bind_ok]
  constructor
  · rintro ⟨_, hm, hr', hn'⟩
    obtain ⟨d, rfl, ok, he⟩ := (h1 cur hw _ hm).mp hr'
    obtain ⟨l, rfl, ok', hl⟩ := (rs d ok hm he.within _ ls).mp hn'
    refine ⟨back d l, rfl, (ho _).mpr ⟨d, l, ok, ok', rfl⟩, ?_⟩
    rw [(hs d l ok ok').1, (hs d l ok ok').2]
    exact spans_append.mpr ⟨hm, he, hl⟩
  · rintro ⟨w, rfl, ha, hsp⟩
    obtain ⟨d, l, ok, ok', rfl⟩ := (ho w).mp ha
    rw [(hs d l ok ok').1, (hs d l ok ok').2] at hsp
    obtain ⟨hm, he, hl⟩ := spans_append.mp hsp
    refine ⟨m d, hm, (h1 cur hw _ hm).mpr ⟨_, rfl, ok, he⟩, ?_⟩
    exact (rs d ok hm he.within _ ls).mpr ⟨l, rfl, ok', hl⟩

/-- One reader after the other: the data are pairs. -/
theorem Reads.bind {next : α → Reader ρ ε β} {make : δ × γ → β}
    {f : δ × γ → List UInt8} {c : δ × γ → Charge ρ} {admits : δ × γ → Prop}
    (h1 : Reads src reader m fmt cs good)
    (rs : ∀ d, good d → Reads src (next (m d)) (fun l => make (d, l)) (fun l => f (d, l))
      (fun l => c (d, l)) (fun l => admits (d, l))) :
    Reads src (reader >>= next) make (fun p => fmt p.1 ++ f p)
      (fun p => cs p.1 + c p) (fun p => good p.1 ∧ admits p) :=
  h1.build Prod.mk rs (fun _ _ _ _ => ⟨rfl, rfl⟩) (by simp)

variable {mn : γ → β} {f : γ → List UInt8} {c : γ → Charge ρ}
  {an : γ → Prop}

/-- One reader after the other, where the later data determine the earlier ones. -/
theorem Reads.field {next : α → Reader ρ ε β} {cost : δ → Charge ρ} (get : γ → δ)
    (h1 : Reads src reader m fmt cost good)
    (rs : ∀ d, good d → Reads src (next (m d)) mn f c (fun w => get w = d ∧ an w)) :
    Reads src (reader >>= next) mn (fun w => fmt (get w) ++ f w) (fun w => cost (get w) + c w)
      (fun w => good (get w) ∧ an w) := by
  refine h1.build (fun _ w => w) rs ?_ ?_
  · rintro _ w - ⟨rfl, -⟩
    exact ⟨rfl, rfl⟩
  · intro w
    constructor
    · rintro ⟨ok, ok'⟩
      exact ⟨get w, w, ok, ⟨rfl, ok'⟩, rfl⟩
    · rintro ⟨_, _, ok, ⟨rfl, ok'⟩, rfl⟩
      exact ⟨ok, ok'⟩

variable {al : Prop}

/-- A step that reads nothing: its result is known. -/
theorem Reads.given {next : α → Reader ρ ε β} {r : α}
    (h1 : Pays src reader r cost al) (rs : al → Reads src (next r) mn f c an) :
    Reads src (reader >>= next) mn f (fun w => cost + c w) (fun w => al ∧ an w) :=
  h1.build (fun _ w => w) (fun _ ok => rs ok) (fun _ _ _ _ => ⟨rfl, rfl⟩) (by simp)

variable {rd : Reader ρ ε Unit}

theorem Reads.next {next : Reader ρ ε β}
    (h1 : Pays src rd () cost al) (rs : al → Reads src next mn f c an) :
    Reads src (do rd; next) mn f (fun w => cost + c w) (fun w => al ∧ an w) :=
  h1.given rs

theorem checks_pure (v : α) : Checks (pure v : Reader ρ ε α) v True := by
  intro cur r af
  constructor
  · intro he
    cases he
    exact ⟨trivial, rfl, rfl⟩
  · rintro ⟨-, rfl, rfl⟩
    rfl

theorem checks_fail (e : Cursor ρ → ε) (v : α) : Checks (fail e : Reader ρ ε α) v False := by
  intro cur r af
  simp [fail]

variable {v : α} {al' : Prop}

theorem Checks.congr (h : Checks reader v al) (hs : al ↔ al') :
    Checks reader v al' := by
  rw [hs] at h
  exact h

variable {e : Cursor ρ → ε}

theorem checks_require {co : Bool} : Checks (require co e) () (co = true) := by
  cases co with
  | true => exact (checks_pure ()).congr (by simp)
  | false => exact (checks_fail e ()).congr (by simp)

theorem Checks.bind {next : α → Reader ρ ε β} (h1 : Checks reader v al)
    (rs : al → Checks (next v) r al') :
    Checks (reader >>= next) r (al ∧ al') := by
  intro cur o la
  rw [bind_ok]
  constructor
  · rintro ⟨_, _, r', n'⟩
    obtain ⟨ok, rfl, rfl⟩ := (h1 cur _ _).mp r'
    obtain ⟨ok', rfl, rfl⟩ := (rs ok _ o la).mp n'
    exact ⟨⟨ok, ok'⟩, rfl, rfl⟩
  · rintro ⟨⟨ok, ok'⟩, rfl, rfl⟩
    exact ⟨v, la, (h1 la _ _).mpr ⟨ok, rfl, rfl⟩, (rs ok la _ _).mpr ⟨ok', rfl, rfl⟩⟩

theorem Checks.and {next : Reader ρ ε β} (h1 : Checks rd () al)
    (rs : al → Checks next r al') : Checks (do rd; next) r (al ∧ al') :=
  h1.bind rs

theorem Checks.value (h : Checks reader v al) : Pays src reader v 0 al := by
  intro cur hw r af
  rw [h cur r af]
  constructor
  · rintro ⟨ok, rfl, rfl⟩
    exact ⟨(), rfl, ok, (spans_nil hw).mpr rfl⟩
  · rintro ⟨_, rfl, ok, hs⟩
    exact ⟨ok, rfl, (spans_nil hw).mp hs⟩

theorem Checks.reads {next : α → Reader ρ ε β} {m : δ → β} {cost : δ → Charge ρ}
    (h1 : Checks reader v al)
    (rs : al → Reads src (next v) m fmt cost good) :
    Reads src (reader >>= next) m fmt cost (fun d => al ∧ good d) :=
  (h1.value.given rs).congr (fun _ => Iff.rfl) (fun _ _ => ⟨rfl, charge_zero_add _⟩)

theorem Checks.next {next : Reader ρ ε β} {m : δ → β} {cost : δ → Charge ρ} (h1 : Checks rd () al)
    (rs : al → Reads src next m fmt cost good) :
    Reads src (do rd; next) m fmt cost (fun d => al ∧ good d) :=
  h1.reads rs

theorem reads_return (v : α) : Pays src (pure v : Reader ρ ε α) v 0 True := (checks_pure v).value

variable {admits : δ → Prop}

theorem Reads.charged {next : α → Reader ρ ε β} {c : δ → Charge ρ}
    {r : δ → β} (h1 : Reads src reader m fmt cs good)
    (rs : ∀ d, good d → Pays src (next (m d)) (r d) (c d) (admits d)) :
    Reads src (reader >>= next) r fmt (fun d => cs d + c d) (fun d => good d ∧ admits d) :=
  h1.build (fun d _ => d) rs (fun _ _ _ _ => ⟨(append_nil _).symm, rfl⟩) (by simp)

theorem Reads.ending {next : α → Reader ρ ε β} {r : δ → β} (h1 : Reads src reader m fmt cs good)
    (rs : ∀ d, good d → Checks (next (m d)) (r d) (admits d)) :
    Reads src (reader >>= next) r fmt cs (fun d => good d ∧ admits d) :=
  (h1.charged fun d ok => (rs d ok).value).congr (fun _ => Iff.rfl)
    (fun _ _ => ⟨rfl, charge_add_zero _⟩)

theorem Reads.map (h : Reads src reader m fmt cs good) (f : α → β) :
    Reads src (do return f (← reader)) (fun d => f (m d)) fmt cs good :=
  Reads.iff (h.ending fun _ _ => checks_pure _) fun _ => by simp

section Lists

variable {fo : List δ → List UInt8} {ca : List δ → Charge ρ}

theorem reads_nil {m : List δ → α} {all : List δ → Prop} (hm : m [] = v) (hn : fo [] = [])
    (hnc : ca [] = 0) (hp : all []) :
    Reads src (pure v : Reader ρ ε α) m fo ca (fun l => l.length = 0 ∧ all l) := by
  subst hm
  apply (reads_pure m []).congr
  · intro l
    rw [length_eq_zero_iff, iff_self_and]
    rintro rfl
    exact hp
  · rintro _ rfl
    exact ⟨hn.symm, hnc.symm⟩

/-- One round of a loop that reads a list. -/
theorem Reads.cons {next : α → Reader ρ ε β} {cost : δ → Charge ρ} {make : List δ → β} {n : ℕ}
    {all : List δ → Prop} {an : δ → List δ → Prop}
    (bs : ∀ d l, fo (d :: l) = fmt d ++ fo l)
    (hc : ∀ d l, ca (d :: l) = cost d + ca l)
    (hp : ∀ d l, all (d :: l) ↔ good d ∧ an d l) (h1 : Reads src reader m fmt cost good)
    (rs : ∀ d, good d → Reads src (next (m d)) (fun l => make (d :: l)) fo ca
      (fun l => l.length = n ∧ an d l)) :
    Reads src (reader >>= next) make fo ca (fun l => l.length = n + 1 ∧ all l) := by
  refine h1.build List.cons rs (fun _ _ _ _ => ⟨bs _ _, hc _ _⟩) ?_
  intro dt
  constructor
  · rintro ⟨len, ok⟩
    cases dt with
    | nil => cases len
    | cons d l => exact ⟨d, l, ((hp d l).mp ok).1, ⟨Nat.succ.inj len, ((hp d l).mp ok).2⟩, rfl⟩
  · rintro ⟨d, l, ok, ⟨len, ok'⟩, rfl⟩
    exact ⟨by rw [length_cons, len], (hp d l).mpr ⟨ok, ok'⟩⟩

end Lists

theorem Checks.onError (h : Checks reader v al) (replace : Cursor ρ → ε → φ) :
    Checks (onError replace reader) v al := by
  intro cur r af
  rw [onError_ok]
  exact h cur r af

theorem Reads.onError (h : Reads src reader m fmt cs good) (replace : Cursor ρ → ε → φ) :
    Reads src (onError replace reader) m fmt cs good := by
  intro cur hw v af
  rw [onError_ok]
  exact h cur hw v af

theorem within_asked (hw : Within src cur) : Within src (cur.advance 0 asked) :=
  ⟨hw.1, fun mt => by simpa [advance] using hw.2 mt⟩

theorem reads_request (e : Cursor ρ → ε) : Pays src (request src e) () asked True := by
  intro cur hw v af
  unfold request
  split_ifs with hgr
  · constructor
    · intro he
      cases he
      refine ⟨(), rfl, trivial, nil_prefix, rfl, within_asked hw, ?_⟩
      intro i low hh
      simp only [advance, asked_requests] at hh
      rwa [show i = cur.requests by omega]
    · rintro ⟨_, rfl, -, -, rfl, -, -⟩
      rfl
  · refine iff_of_false nofun ?_
    rintro ⟨_, -, -, -, rfl, -, all⟩
    apply hgr
    apply all cur.requests (le_refl _)
    simp [advance]

variable [DecidableEq ρ] {meter : ρ} {n : ℕ}

theorem within_one (hw : Within src cur) : Within src (cur.advance count (one meter n)) ↔
    cur.offset + count ≤ src.bytes.length ∧ cur.spent meter + n ≤ src.limit meter := by
  constructor
  · intro h
    have hb := h.2 meter
    exact ⟨h.1, by simpa [advance] using hb⟩
  · rintro ⟨ho, hb⟩
    refine ⟨ho, fun o => ?_⟩
    have old := hw.2 o
    by_cases hs : o = meter
    · subst hs
      simpa [advance] using hb
    · simpa [advance, hs] using old

theorem granted_one : Granted src cur (cur.advance count (one meter n)) := by
  intro i low hh
  simp only [advance, one_requests] at hh
  omega

theorem reads_charge : Pays src (charge src meter n e) () (one meter n) True := by
  intro cur hw v af
  unfold charge
  split_ifs with hxs
  · refine iff_of_false nofun ?_
    rintro ⟨_, -, -, -, rfl, ho, -⟩
    have hb := ((within_one hw).mp ho).2
    omega
  constructor
  · intro he
    cases he
    exact ⟨(), rfl, trivial, nil_prefix, rfl, (within_one hw).mpr ⟨hw.1, by omega⟩, granted_one⟩
  · rintro ⟨_, rfl, -, -, rfl, -, -⟩
    rfl

/-- Taking bytes reads as many as asked for, at their cost. -/
theorem reads_take (mt : ρ) (cn : ℕ) (short excess : Cursor ρ → ε) :
    Reads src (take src mt cn short excess) (fun bs => bs) (fun bs => bs) (fun _ => one mt cn)
      (fun bs => bs.length = cn) := by
  intro hc hw v af
  have start : min hc.offset src.bytes.length = hc.offset := min_eq_left hw.1
  unfold take
  have room : (src.bytes.drop hc.offset).length = src.bytes.length - hc.offset := length_drop
  split_ifs with ht htm
  · refine iff_of_false nofun ?_
    rintro ⟨bs, -, rfl, hst, -⟩
    have fits : bs.length ≤ _ := hst.length_le
    omega
  · refine iff_of_false nofun ?_
    rintro ⟨_, -, rfl, -, rfl, ho, -⟩
    have hb := ((within_one hw).mp ho).2
    omega
  · constructor
    · intro he
      cases he
      have len : ((src.bytes.drop hc.offset).take cn).length = cn := by
        rw [length_take]
        omega
      refine ⟨_, rfl, len, take_prefix _ _, ?_, (within_one hw).mpr ?_, granted_one⟩
      · rw [len]
      · omega
    · rintro ⟨_, rfl, rfl, ⟨t, hst⟩, rfl, -, -⟩
      rw [← hst, take_left]

/-- Charging for a reader adds the amount to its cost. -/
theorem Reads.charging (h : Reads src reader m fmt cs good) (mt : ρ) (n : ℕ) (e : Cursor ρ → ε)
    (hut : ∀ d, good d → (cs d).spent mt = 0) :
    Reads src (charging src mt n e reader) m fmt (fun d => cs d + one mt n) good := by
  intro hc hw v l
  have hsp : ∀ d, Spans src hc (fmt d) (cs d + one mt n) l ↔
      ∃ hm, Spans src hc (fmt d) (cs d) hm ∧ Spans src hm [] (one mt n) l := by
    intro d
    conv_lhs => rw [← append_nil (fmt d)]
    exact spans_append
  unfold MeteredReader.charging
  split_ifs with hxs
  · refine iff_of_false nofun ?_
    rintro ⟨d, -, ok, -, rfl, ho, -⟩
    have hb := ho.2 mt
    simp only [advance, add_spent, one_spent, if_true, hut d ok] at hb
    omega
  · constructor
    · intro he
      cases run : reader hc with
      | mk o hm =>
        rw [run] at he
        cases o with
        | error => cases he
        | ok fd =>
          cases he
          obtain ⟨d, rfl, ok, hs⟩ := (h hc hw _ hm).mp run
          have spent : hm.spent mt = hc.spent mt := by
            rw [hs.2.1]
            simp [advance, hut d ok]
          refine ⟨d, rfl, ok, (hsp d).mpr ⟨hm, hs, nil_prefix, rfl, ?_, ?_⟩⟩
          · exact (within_one hs.within).mpr ⟨hs.within.1, by omega⟩
          · exact granted_one
    · rintro ⟨d, rfl, ok, hs⟩
      obtain ⟨hm, her, -, rfl, -⟩ := (hsp d).mp hs
      rw [(h hc hw _ hm).mpr ⟨d, rfl, ok, her⟩]
      rfl

end Rules

end Yvex.MeteredReader
