import Yvex.StateBank

/-!
# Admitting pages changes no content

Admission commits pages and charges the pool, whether or not it succeeds. The
bank keeps its view, its ring starts and everything that can be read from it.
-/

set_option autoImplicit false

namespace Yvex.StateBank

open AttentionData RefusableStep StatePages Outcome

variable (ps : List Publication) (comp : ComponentRecipe)

structure HistoryStorage.Grows (a b : HistoryStorage) : Prop where
  start : b.start = a.start
  valuePages : a.valuePages.Grows b.valuePages
  positionPages : a.positionPages.Grows b.positionPages

structure RollingStorage.Grows (a b : RollingStorage) : Prop where
  valuePages : a.valuePages.Grows b.valuePages
  auxiliaryPages : a.auxiliaryPages.Grows b.auxiliaryPages

structure Bank.Grows (a b : Bank) : Prop where
  view : b.view = a.view
  stateIdentity : b.stateIdentity = a.stateIdentity
  history : ∀ slot, (a.history slot).Grows (b.history slot)
  rolling : ∀ r, (a.rolling r).Grows (b.rolling r)

theorem HistoryStorage.Grows.refl (a : HistoryStorage) : a.Grows a := ⟨rfl, .refl _, .refl _⟩

theorem HistoryStorage.Grows.trans {a b c : HistoryStorage} (h : a.Grows b) (h' : b.Grows c) :
    a.Grows c :=
  ⟨h'.start.trans h.start, h.valuePages.trans h'.valuePages, h.positionPages.trans h'.positionPages⟩

theorem RollingStorage.Grows.refl (a : RollingStorage) : a.Grows a := ⟨.refl _, .refl _⟩

theorem RollingStorage.Grows.trans {a b c : RollingStorage} (h : a.Grows b) (h' : b.Grows c) :
    a.Grows c :=
  ⟨h.valuePages.trans h'.valuePages, h.auxiliaryPages.trans h'.auxiliaryPages⟩

namespace Bank.Grows

theorem refl (a : Bank) : a.Grows a := ⟨rfl, rfl, fun _ => .refl _, fun _ => .refl _⟩

theorem trans {a b c : Bank} (h : a.Grows b) (h' : b.Grows c) : a.Grows c :=
  ⟨h'.view.trans h.view, h'.stateIdentity.trans h.stateIdentity,
    fun x => (h.history x).trans (h'.history x), fun x => (h.rolling x).trans (h'.rolling x)⟩

theorem setHistory {a : Bank} {b : HistoryBinding} {st : HistoryStorage}
    (h : (a.history b).Grows st) : a.Grows (a.setHistory b st) := by
  refine ⟨rfl, rfl, fun x => ?_, fun x => .refl _⟩
  by_cases hx : x = b
  · subst hx
    simpa [Bank.setHistory] using h
  · simpa [Bank.setHistory, hx] using HistoryStorage.Grows.refl _

theorem setRolling {a : Bank} {b : RollingBinding} {st : RollingStorage}
    (h : (a.rolling b).Grows st) : a.Grows (a.setRolling b st) := by
  refine ⟨rfl, rfl, fun x => .refl _, fun x => ?_⟩
  by_cases hx : x = b
  · subst hx
    simpa [Bank.setRolling] using h
  · simpa [Bank.setRolling, hx] using RollingStorage.Grows.refl _

/-- A reader cannot tell a bank from one that only had pages admitted. -/
theorem resolved_eq {a b : Bank} (h : a.Grows b) : b.resolved = a.resolved := by
  have o : ∀ x, b.origin x = a.origin x := by
    intro x
    cases x with
    | localHistory => exact (h.history .localHistory).start
    | compressedHistory => rfl
    | indexerHistory => rfl
  have s : b.spanOf = a.spanOf := by
    funext x
    simp only [Bank.spanOf, h.view, o, (h.history x).valuePages.read_eq,
      (h.history x).positionPages.read_eq]
  have hr : b.rollingOf = a.rollingOf := by
    funext x
    simp only [Bank.rollingOf, h.view, (h.rolling x).valuePages.read_eq,
      (h.rolling x).auxiliaryPages.read_eq]
  simp only [Bank.resolved, h.view, s, hr]

end Bank.Grows

theorem componentTouchHistory_grows {v rs r : ℕ} {p : PagePool} {st : HistoryStorage} :
    st.Grows (componentTouchHistory v rs r p st).state.2 := by
  unfold componentTouchHistory
  split
  · exact .refl st
  split
  · refine andThen_preserves (P := fun s : PagePool × HistoryStorage => st.Grows s.2) ?_
      fun t ht => ?_
    · rw [state_map]
      exact ⟨rfl, storeTouch_grows, .refl _⟩
    · rw [state_map]
      exact ht.trans ⟨rfl, .refl _, storeTouch_grows⟩
  · exact .refl st

theorem touchRolling_grows (k sc : ℕ) (p : PagePool) (st : RollingStorage) :
    st.Grows (touchRolling k sc p st).state.2 := by
  refine andThen_preserves (P := fun s : PagePool × RollingStorage => st.Grows s.2) ?_
    fun t ht => ?_
  · rw [state_map]
    exact ⟨storeTouch_grows, .refl _⟩
  · rw [state_map]
    exact ht.trans ⟨.refl _, storeTouch_grows⟩

/-- Touching runs only adds pages to a history. -/
theorem touchRuns_grows (backed : Bool) (f r : ℕ) (s : RunState) :
    s.storage.Grows (touchRuns comp backed f r s).state.storage := by
  induction f generalizing r s with
  | zero => exact .refl _
  | succ f ih =>
    unfold touchRuns
    iterate 2
      split
      · exact .refl _
    refine andThen_preserves (P := fun t => s.storage.Grows t.storage) ?_
      fun t ht => ht.trans (ih _ t)
    rw [state_map]
    refine andThen_preserves (P := fun t : PagePool × HistoryStorage => s.storage.Grows t.2)
      componentTouchHistory_grows fun t ht => ?_
    split
    · exact ht
    · exact ht.trans componentTouchHistory_grows

theorem prepareHistory_grows (b : HistoryBinding) (s : PagePool × Bank) :
    s.2.Grows (prepareHistory ps comp b s).state.2 := by
  unfold prepareHistory
  split
  · exact .refl _
  rw [state_map]
  refine Bank.Grows.setHistory ?_
  refine forEach_preserves (P := fun t : RunState => (s.2.history b).Grows t.storage)
    (fun _ _ t ht => ht.trans (touchRuns_grows _ _ _ _ t)) ?_
  exact HistoryStorage.Grows.refl (s.2.history b)

theorem prepareComponent_grows
    (s : PagePool × Bank) : s.2.Grows (prepareComponent ps comp s).state.2 := by
  unfold prepareComponent
  split
  · exact prepareHistory_grows _ _ _ _
  · rw [state_map]
    exact Bank.Grows.setRolling (touchRolling_grows _ _ _ _)

theorem preparePublications_grows (r : StateRecipe) (ps : List Publication)
    (p : PagePool) (b : Bank) :
    b.Grows (preparePublications r ps p b).state.2 :=
  forEach_preserves (P := fun s => b.Grows s.2)
    (fun _ _ s hs => hs.trans (prepareComponent_grows _ _ s)) (.refl b)

end Yvex.StateBank
