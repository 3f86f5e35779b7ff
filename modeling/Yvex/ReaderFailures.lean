import Yvex.MeteredReader

/-!
# Failing readers

What a metered reader leaves when it fails. A clean reader stays within the limits
and ends only with fine errors. A reader breaks where, behind data it has read, a
condition of the cursor makes it fail badly; the rules say how breaks of the parts
become breaks of the whole.
-/

set_option autoImplicit false

namespace Yvex.ReaderFailures

open MeteredReader

variable {ρ ε φ α β δ γ : Type} {s : Source ρ}

def Clean (source : Source ρ) (read : Reader ρ ε α) (fine : ε → Prop) : Prop :=
  ∀ cursor, Within source cursor → Within source (read cursor).2 ∧
    ∀ error, (read cursor).1 = .error error → fine error

variable {next : α → Reader ρ ε β} {mn : δ → α} {fine' : φ → Prop} {replace : Cursor ρ → ε → φ}

section Cleaning

variable {fine : ε → Prop}

variable {reader : Reader ρ ε α}

theorem Clean.mono {finer : ε → Prop} (h : Clean s reader fine)
    (hwk : ∀ e, fine e → finer e) : Clean s reader finer := by
  intro c hw
  have hb := h c hw
  exact ⟨hb.1, fun e hf => hwk e (hb.2 e hf)⟩

theorem clean_pure (v : α) : Clean s (pure v : Reader ρ ε α) fine := by
  intro c hw
  refine ⟨hw, ?_⟩
  nofun

variable {e : Cursor ρ → ε}

theorem clean_fail (hh : ∀ c, fine (e c)) : Clean s (fail e : Reader ρ ε α) fine := by
  intro c hw
  refine ⟨hw, ?_⟩
  intro fd he
  cases he
  exact hh c

theorem Clean.seq (h1 : Clean s reader fine)
    (hr : ∀ c a v, Within s c → reader c = (.ok v, a) → Clean s (next v) fine) :
    Clean s (reader >>= next) fine := by
  intro c hw
  have hh := h1 c hw
  rw [run_bind]
  cases run : reader c with
  | mk o a =>
    rw [run] at hh
    cases o with
    | ok v => exact hr c a v hw run a hh.1
    | error => exact ⟨hh.1, fun _ he => by cases he; exact hh.2 _ rfl⟩

theorem Clean.bind (h1 : Clean s reader fine) (hr : ∀ v, Clean s (next v) fine) :
    Clean s (reader >>= next) fine :=
  h1.seq fun _ _ v _ _ => hr v

variable {f : δ → List UInt8}

theorem Clean.after {cost : δ → Charge ρ} {admits : δ → Prop}
    (h1 : Clean s reader fine) (hrd : Reads s reader mn f cost admits)
    (hr : ∀ d, admits d → Clean s (next (mn d)) fine) : Clean s (reader >>= next) fine := by
  apply h1.seq
  intro c a v hw run
  obtain ⟨d, rfl, ok, -⟩ := (hrd c hw v a).mp run
  exact hr d ok

theorem clean_require (co : Bool) (hh : ∀ c, fine (e c)) : Clean s (require co e) fine := by
  cases co with
  | true => exact clean_pure ()
  | false => exact clean_fail hh

theorem Clean.onError (h : Clean s reader fine) (hh : ∀ c e, fine e → fine' (replace c e)) :
    Clean s (onError replace reader) fine' := by
  intro c hw
  have i := h c hw
  unfold MeteredReader.onError
  cases run : reader c with
  | mk o a =>
    rw [run] at i
    cases o with
    | ok => exact ⟨i.1, nofun⟩
    | error e =>
      refine ⟨i.1, ?_⟩
      intro fd he
      cases he
      exact hh a e (i.2 e rfl)

theorem clean_request (hh : ∀ c, fine (e c)) : Clean s (request s e) fine := by
  intro c hw
  unfold request
  split_ifs with hgr
  · exact ⟨within_asked hw, nofun⟩
  · exact ⟨within_asked hw, fun _ he => by cases he; exact hh c⟩

variable [DecidableEq ρ]

theorem clean_charge {m : ρ} {n : ℕ} (hh : ∀ c, fine (e c)) : Clean s (charge s m n e) fine := by
  intro c hw
  unfold charge
  split_ifs with hxs
  · exact ⟨hw, fun _ he => by cases he; exact hh c⟩
  · exact ⟨(within_one hw).mpr ⟨hw.1, by omega⟩, nofun⟩

theorem clean_take (m : ρ) (n : ℕ) {short excess : Cursor ρ → ε}
    (hsr : ∀ c, fine (short c)) (hex : ∀ c, fine (excess c)) :
    Clean s (take s m n short excess) fine := by
  intro c hw
  cases hr : take s m n short excess c with
  | mk o =>
    cases o with
    | ok bs =>
      obtain ⟨_, -, -, hs⟩ := (reads_take m n short excess c hw bs _).mp hr
      exact ⟨hs.within, nofun⟩
    | error =>
      unfold take at hr
      split_ifs at hr
      · cases hr
        exact ⟨hw, fun _ he => by cases he; exact hsr c⟩
      · cases hr
        exact ⟨hw, fun _ he => by cases he; exact hex c⟩
      · cases hr

theorem Clean.charging {cs : δ → Charge ρ} {admits : δ → Prop}
    (h : Clean s reader fine) (hr : Reads s reader mn f cs admits) (m : ρ) (n : ℕ)
    (hh : ∀ c, fine (e c)) (hut : ∀ d, admits d → (cs d).spent m = 0) :
    Clean s (charging s m n e reader) fine := by
  intro c hw
  cases run : MeteredReader.charging s m n e reader c with
  | mk o a =>
    cases o with
    | ok v =>
      obtain ⟨_, -, -, hs⟩ := (hr.charging m n e hut c hw v a).mp run
      exact ⟨hs.within, nofun⟩
    | error =>
      unfold MeteredReader.charging at run
      split_ifs at run
      · cases run
        exact ⟨hw, fun _ he => by cases he; exact hh c⟩
      have i := h c hw
      cases body : reader c with
      | mk o' =>
        rw [body] at run i
        cases o' with
        | ok => cases run
        | error =>
          cases run
          exact i

end Cleaning

def Breaks (source : Source ρ) (read : Reader ρ ε α) (fine : ε → Prop) (format : δ → List UInt8)
    (cost : δ → Charge ρ) (admits : δ → Prop) (refuses : δ → Cursor ρ → Prop) : Prop :=
  ∀ cursor, Within source cursor →
    ((∃ error, (read cursor).1 = .error error ∧ ¬ fine error) ↔
      ∃ datum mid, admits datum ∧ Spans source cursor (format datum) (cost datum) mid ∧
        refuses datum mid)

section Breaking

variable {fine : ε → Prop} {f : δ → List UInt8} {cost : δ → Charge ρ} {admits : δ → Prop}
  {re : δ → Cursor ρ → Prop} {reader : Reader ρ ε α}

theorem Clean.breaks (h : Clean s reader fine) (none : ∀ d, ¬ admits d) :
    Breaks s reader fine f cost admits re := by
  intro c hw
  constructor
  · rintro ⟨e, hf, hb⟩
    exact absurd ((h c hw).2 e hf) hb
  · rintro ⟨d, -, ok, -⟩
    exact absurd ok (none d)

theorem Breaks.along {f' : γ → List UInt8} {co : γ → Charge ρ}
    {a : γ → Prop} {re' : γ → Cursor ρ → Prop}
    (h : Breaks s reader fine f cost admits re) (back : δ → γ)
    (hs : ∀ d, admits d →
      f' (back d) = f d ∧ co (back d) = cost d ∧ ∀ mid, re' (back d) mid ↔ re d mid)
    (ho : ∀ w, a w ↔ ∃ d, admits d ∧ back d = w) :
    Breaks s reader fine f' co a re' := by
  intro c hw
  rw [h c hw]
  constructor
  · rintro ⟨d, mid, ok, hh, hr⟩
    obtain ⟨bs, ch, ha⟩ := hs d ok
    refine ⟨back d, mid, (ho _).mpr ⟨d, ok, rfl⟩, ?_, (ha mid).mpr hr⟩
    rw [bs, ch]
    exact hh
  · rintro ⟨w, mid, ok, hh, hr⟩
    obtain ⟨d, ok', rfl⟩ := (ho w).mp ok
    obtain ⟨bs, ch, ha⟩ := hs d ok'
    rw [bs, ch] at hh
    exact ⟨d, mid, ok', hh, (ha mid).mp hr⟩

theorem Breaks.onError (h : Breaks s reader fine f cost admits re)
    (hs : ∀ c e, fine' (replace c e) ↔ fine e) :
    Breaks s (onError replace reader) fine' f cost admits re := by
  intro c hw
  rw [← h c hw]
  unfold MeteredReader.onError
  cases reader c with
  | mk o a =>
    cases o with
    | ok =>
      constructor <;>
      · rintro ⟨_, hx, -⟩
        cases hx
    | error e =>
      constructor
      · rintro ⟨_, he, hb⟩
        cases he
        exact ⟨e, rfl, fun hh => hb ((hs a e).mpr hh)⟩
      · rintro ⟨_, he, hb⟩
        cases he
        exact ⟨_, rfl, fun hh => hb ((hs a e).mp hh)⟩

/-- A sequence fails badly in its first part or, behind what this has read, in the second. -/
theorem bind_breaks (hr : Reads s reader mn f cost admits) {c : Cursor ρ} (hw : Within s c) :
    (∃ e, ((reader >>= next) c).1 = .error e ∧ ¬ fine e) ↔
      (∃ e, (reader c).1 = .error e ∧ ¬ fine e) ∨
      ∃ d mid, admits d ∧ Spans s c (f d) (cost d) mid ∧
        ∃ e, (next (mn d) mid).1 = .error e ∧ ¬ fine e := by
  rw [run_bind]
  constructor
  · rintro ⟨e, hf, hb⟩
    cases run : reader c with
    | mk o mid =>
      rw [run] at hf
      cases o with
      | error =>
        cases hf
        exact Or.inl ⟨e, rfl, hb⟩
      | ok v =>
        obtain ⟨d, rfl, ok, hs⟩ := (hr c hw v mid).mp run
        exact Or.inr ⟨d, mid, ok, hs, e, hf, hb⟩
  · rintro (⟨e, hf, hb⟩ | ⟨d, mid, ok, hs, hf⟩)
    · cases run : reader c with
      | mk =>
        rw [run] at hf
        cases hf
        exact ⟨e, rfl, hb⟩
    · rw [(hr c hw _ mid).mpr ⟨d, rfl, ok, hs⟩]
      exact hf

variable {fo : γ → List UInt8} {cf : γ → Charge ρ} {af : γ → Prop}

/-- Behind a clean reader, a failure is that of the reader that follows. -/
theorem Breaks.behind {ω : Type} {m : γ → α}
    {f : γ → δ → List UInt8} {cost : γ → δ → Charge ρ} {a : γ → δ → Prop}
    {re : γ → δ → Cursor ρ → Prop} {f' : ω → List UInt8} {co : ω → Charge ρ} {a' : ω → Prop}
    {re' : ω → Cursor ρ → Prop} (join : γ → δ → ω) (hc : Clean s reader fine)
    (hrd : Reads s reader m fo cf af)
    (hre : ∀ d, af d → Breaks s (next (m d)) fine (f d) (cost d) (a d) (re d))
    (hs : ∀ d l, af d → a d l → f' (join d l) = fo d ++ f d l ∧
      co (join d l) = cf d + cost d l ∧ ∀ mid, re' (join d l) mid ↔ re d l mid)
    (ho : ∀ w, a' w ↔ ∃ d l, af d ∧ a d l ∧ join d l = w) :
    Breaks s (reader >>= next) fine f' co a' re' := by
  intro c hw
  rw [bind_breaks hrd hw]
  constructor
  · rintro (⟨e, hf, hb⟩ | ⟨d, mid, ok, he, hf⟩)
    · exact absurd ((hc c hw).2 e hf) hb
    · obtain ⟨l, ls, ok', hl, hr⟩ := (hre d ok mid he.within).mp hf
      obtain ⟨bs, ch, ha⟩ := hs d l ok ok'
      refine ⟨join d l, ls, (ho _).mpr ⟨d, l, ok, ok', rfl⟩, ?_, (ha ls).mpr hr⟩
      rw [bs, ch]
      exact spans_append.mpr ⟨mid, he, hl⟩
  · rintro ⟨w, ls, all, hsp, hr⟩
    obtain ⟨d, l, ok, ok', rfl⟩ := (ho w).mp all
    obtain ⟨bs, ch, ha⟩ := hs d l ok ok'
    rw [bs, ch] at hsp
    obtain ⟨mid, he, hl⟩ := spans_append.mp hsp
    exact Or.inr ⟨d, mid, ok, he, (hre d ok mid he.within).mpr ⟨l, ls, ok', hl, (ha ls).mp hr⟩⟩

/-- A loop breaks in its first round or, behind this, in a later one. -/
theorem Breaks.cons {m : γ → α} {fl : List γ → List UInt8} {n : ℕ}
    {costs : List γ → Charge ρ} {a : γ → List γ × δ → Prop} {all : List γ × δ → Prop}
    (h0 : ∀ d, all ([], d) ↔ admits d) (h1 : ∀ d l w, all (d :: l, w) ↔ af d ∧ a d (l, w))
    (nil : fl [] = [] ∧ costs [] = 0)
    (hap : ∀ d l, fl (d :: l) = fo d ++ fl l ∧ costs (d :: l) = cf d + costs l)
    (hrd : Reads s reader m fo cf af)
    (now : Breaks s reader fine f cost admits re)
    (hre : ∀ d, af d → Breaks s (next (m d)) fine
      (fun p : List γ × δ => fl p.1 ++ f p.2) (fun p => costs p.1 + cost p.2)
      (fun p => p.1.length < n ∧ a d p) (fun p => re p.2)) :
    Breaks s (reader >>= next) fine (fun p : List γ × δ => fl p.1 ++ f p.2)
      (fun p => costs p.1 + cost p.2) (fun p => p.1.length < n + 1 ∧ all p)
      (fun p => re p.2) := by
  intro c hw
  rw [bind_breaks hrd hw, now c hw]
  constructor
  · rintro (⟨d, hm, ok, hs, hr⟩ | ⟨fi, hm, ok, hh, hf⟩)
    · refine ⟨([], d), hm, ⟨n.succ_pos, (h0 d).mpr ok⟩, ?_, hr⟩
      simpa [nil] using hs
    · obtain ⟨⟨l, d⟩, ls, ⟨few, ha⟩, hl, hr⟩ := (hre fi ok hm hh.within).mp hf
      refine ⟨(fi :: l, d), ls, ⟨Nat.succ_lt_succ few, (h1 fi l d).mpr ⟨ok, ha⟩⟩, ?_, hr⟩
      dsimp only
      rw [(hap fi l).1, (hap fi l).2, List.append_assoc, charge_add_assoc]
      exact spans_append.mpr ⟨hm, hh, hl⟩
  · rintro ⟨⟨_ | ⟨fi, l⟩, d⟩, ls, ⟨few, all⟩, hs, hr⟩
    · exact .inl ⟨d, ls, (h0 d).mp all, by simpa [nil] using hs, hr⟩
    · obtain ⟨ok, ha⟩ := (h1 fi l d).mp all
      dsimp only at hs hr
      rw [(hap fi l).1, (hap fi l).2, List.append_assoc, charge_add_assoc] at hs
      obtain ⟨hm, hh, hl⟩ := spans_append.mp hs
      exact .inr ⟨fi, hm, ok, hh, (hre fi ok hm hh.within).mpr
        ⟨(l, d), ls, ⟨Nat.lt_of_succ_lt_succ few, ha⟩, hl, hr⟩⟩

theorem Breaks.given {r : α} {c : Charge ρ} {condition : Prop} (hc : Clean s reader fine)
    (hr : Pays s reader r c condition) (rt : condition → Breaks s (next r) fine f cost admits re) :
    Breaks s (reader >>= next) fine f (fun d => c + cost d) (fun d => condition ∧ admits d) re :=
  Breaks.behind (fun _ d => d) hc hr (fun _ ok => rt ok)
    (fun _ _ _ _ => ⟨rfl, rfl, fun _ => Iff.rfl⟩) (by simp)

theorem Breaks.before {mn : γ → α} (h1 : Breaks s reader fine f cost admits re)
    (hrd : Reads s reader mn fo cf af)
    (hr : ∀ d, af d → Clean s (next (mn d)) fine) :
    Breaks s (reader >>= next) fine f cost admits re := by
  intro c hw
  rw [← h1 c hw, bind_breaks hrd hw]
  constructor
  · rintro (hf | ⟨d, mid, ok, hs, e, hf, hb⟩)
    · exact hf
    · exact absurd ((hr d ok mid hs.within).2 e hf) hb
  · intro hf
    exact Or.inl hf

end Breaking

end Yvex.ReaderFailures
