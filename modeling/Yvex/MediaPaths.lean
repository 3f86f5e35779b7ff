import Yvex.WireCodecs

/-!
# Output paths of media results

The validator of a media result tests the output path by a substring search
and by one comparison near the end of the text. A component of an absolute
path is a slash-free word between a slash and the next slash or the end.
-/

set_option autoImplicit false

namespace Yvex.MediaPaths
open WireCodecs

def slash : UInt8 := 47

def parent : List UInt8 := [46, 46]

def pathCap : ℕ := 512

def hexCap : ℕ := 65

inductive MediaTask where
  | t2va
  | first
  | last
  | firstLast
  deriving DecidableEq

structure MediaResult where
  schemaVersion : ℕ
  available : Bool
  outputPath : CText pathCap
  width : ℕ
  height : ℕ
  frames : ℕ
  fpsNumerator : ℕ
  fpsDenominator : ℕ
  durationMilliseconds : ℕ
  audioSamples : ℕ
  audioSampleRate : ℕ
  seed : ℕ
  modelEvaluations : ℕ
  engineGeneration : ℕ
  fileBytes : ℕ
  task : MediaTask
  conditionCount : ℕ
  presetIdentity : CText hexCap
  trajectoryIdentity : CText hexCap
  rngIdentity : CText hexCap
  planIdentity : CText hexCap
  executionIdentity : CText hexCap
  fileIdentity : CText hexCap
  publicationIdentity : CText hexCap

def MediaResult.facts (r : MediaResult) : List ℕ :=
  [r.width, r.height, r.frames, r.fpsNumerator, r.fpsDenominator, r.durationMilliseconds,
    r.audioSamples, r.audioSampleRate, r.modelEvaluations, r.engineGeneration, r.fileBytes]

def MediaResult.identities (r : MediaResult) : List (CText hexCap) :=
  [r.presetIdentity, r.trajectoryIdentity, r.rngIdentity, r.planIdentity, r.executionIdentity,
    r.fileIdentity, r.publicationIdentity]

def outputPathValid (path : List UInt8) : Bool :=
  path.head? == some slash && !decide (slash :: parent ++ [slash] <:+: path) &&
    -- the source compares the text from its last character on
    path.drop (path.length - 1) != slash :: parent

def conditionCountValid (r : MediaResult) : Bool :=
  match r.task with
  | .t2va => r.conditionCount == 0
  | .first => r.conditionCount == 1
  | .last => r.conditionCount == 1
  | .firstLast => r.conditionCount == 2

def mediaResultFieldsValid (r : MediaResult) : Bool :=
  if !r.available then
    r.schemaVersion == 0 && r.outputPath.isEmpty && r.facts.all (· == 0) && r.seed == 0 &&
      r.task == .t2va && r.conditionCount == 0 && r.identities.all (·.isEmpty)
  else
    r.schemaVersion == 2 && outputPathValid r.outputPath.bytes && r.facts.all (· != 0) &&
      r.conditionCount ≤ 2 && conditionCountValid r && r.identities.all (·.hexValid)

structure Message where
  turnComplete : Bool
  statusOk : Bool
  mediaEngine : Bool
  phaseComplete : Bool
  mediaResult : MediaResult
  othersValid : Bool

def messageValid (m : Message) : Bool :=
  m.othersValid && mediaResultFieldsValid m.mediaResult &&
    (!m.mediaResult.available ||
      (m.turnComplete && m.statusOk && m.mediaEngine && m.phaseComplete)) &&
    (!m.turnComplete || !m.statusOk || !m.mediaEngine || m.mediaResult.available)

theorem messageValid_fields {m : Message} (h : messageValid m = true) :
    mediaResultFieldsValid m.mediaResult = true := by
  simp only [messageValid, Bool.and_eq_true] at h
  exact h.1.1.2

def Component (path word : List UInt8) : Prop :=
  slash ∉ word ∧ ∃ before after, path = before ++ slash :: word ++ after ∧
    (after = [] ∨ after.head? = some slash)

def Canonical (path : List UInt8) : Prop :=
  path.head? = some slash ∧ ¬ Component path parent

variable {p : List UInt8}

/-- A path has a parent component exactly where the validator looks for one. -/
theorem component_parent_iff :
    Component p parent ↔ slash :: parent ++ [slash] <:+: p ∨ slash :: parent <:+ p := by
  constructor
  · rintro ⟨-, b, a, rfl, rfl | ha⟩
    · exact .inr ⟨b, by simp⟩
    · obtain ⟨t, rfl⟩ := List.head?_eq_some_iff.mp ha
      exact .inl ⟨b, t, by simp⟩
  · rintro (⟨b, a, rfl⟩ | ⟨b, rfl⟩)
    · exact ⟨by decide, b, slash :: a, by simp, .inr rfl⟩
    · exact ⟨by decide, b, [], by simp, .inl rfl⟩

/-- The comparison near the end never finds the suffix it looks for. -/
theorem outputPathValid_iff :
    outputPathValid p = true ↔ p.head? = some slash ∧ ¬ slash :: parent ++ [slash] <:+: p := by
  have hl : p.drop (p.length - 1) ≠ slash :: parent := by
    intro h
    have hlen := congrArg List.length h
    simp [parent] at hlen
    omega
  simp [outputPathValid, hl]

/-- The path of an accepted result is canonical unless its last component is the parent. -/
theorem output_path_canonical_iff (r : MediaResult) (h : mediaResultFieldsValid r = true)
    (available : r.available = true) :
    Canonical r.outputPath.bytes ↔ ¬ slash :: parent <:+ r.outputPath.bytes := by
  simp only [mediaResultFieldsValid, available, Bool.not_true, Bool.false_eq_true, if_false,
    Bool.and_eq_true] at h
  obtain ⟨habs, hinfix⟩ := outputPathValid_iff.mp h.1.1.1.1.2
  rw [Canonical, component_parent_iff, not_or]
  exact ⟨fun hc => hc.2.2, fun hs => ⟨habs, hinfix, hs⟩⟩

def resultAt (path : CText pathCap) : MediaResult :=
  let id : CText hexCap := ⟨List.replicate 64 97, by decide, by decide⟩
  ⟨2, true, path, 1, 1, 1, 1, 1, 1, 1, 1, 0, 1, 1, 1, .t2va, 0, id, id, id, id, id, id, id⟩

def messageAt (path : CText pathCap) : Message := ⟨true, true, true, true, resultAt path, true⟩

theorem movie_path_canonical :
    ∃ path : CText pathCap, path.bytes = [47, 97, 47, 46, 46, 109] ∧
      messageValid (messageAt path) = true ∧ Canonical path.bytes := by
  have accepted : messageValid (messageAt ⟨[47, 97, 47, 46, 46, 109], by decide, by decide⟩) =
      true := by decide
  exact ⟨_, rfl, accepted,
    (output_path_canonical_iff _ (messageValid_fields accepted) rfl).mpr (by decide)⟩

theorem parent_path_accepted :
    messageValid (messageAt ⟨slash :: parent, by decide, by decide⟩) = true ∧
    ¬ Canonical (slash :: parent) :=
  ⟨by decide, fun h => h.2 (component_parent_iff.mpr (.inr (List.suffix_refl _)))⟩

end Yvex.MediaPaths
