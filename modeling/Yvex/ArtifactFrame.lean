import Yvex.ArtifactPublication
import Yvex.ArtifactTransaction

/-!
# What a session leaves of a directory

Under every answer of the system a session binds and frees two names only, the
destination and the temporary name it created. Whether the destination stands at the end
follows from what the calls that remove names have done.
-/

set_option autoImplicit false

namespace Yvex.ArtifactFrame

open AttentionData ArtifactPublication ArtifactSink ArtifactTransaction DirectoryVolume Function
  DirectoryVolume.Volume Runs

variable {Thread : Type} {st : Volume FileBytes} {d : Disk}

def Standing (deeds : List Deed) : Prop :=
  (.published ∈ deeds ∨ .stuck ∈ deeds) ∧ .removed ∉ deeds

/-- What a session leaves: the entries it found, but for a temporary name it could not
create; its destination as its deeds say; and no other name, once it is released. -/
structure Spared (start : Volume FileBytes) (path : Text) (scene : Scene Thread) : Prop where
  entries : ∀ name file, start.entries name = some file → scene.stray ≠ some name →
    scene.disk.volume.entries name = some file ∧
      scene.disk.volume.data file = start.data file
  destination : ∀ directory name, destinationSplit path = some (directory, name) →
    ((scene.disk.volume.entries name).isSome ↔
      (start.entries name).isSome ∨ Standing scene.disk.deeds)
  temporary : scene.session = none → .unlinkFailed ∉ scene.disk.deeds →
    ∀ name, start.entries name = none →
      (∀ directory, destinationSplit path ≠ some (directory, name)) →
      scene.disk.volume.entries name = none

structure Tracked (start : Volume FileBytes) (disk : Disk) (destination temporary : Text)
    (file : ℕ) : Prop where
  apart : temporary ≠ destination
  named : temporary ≠ []
  vacant : start.entries temporary = none
  free : start.entries destination = none
  fresh : start.next ≤ file
  others : ∀ name, name ≠ temporary → name ≠ destination →
    disk.volume.entries name = start.entries name
  data : ∀ other < start.next, disk.volume.data other = start.data other
  stands : Standing disk.deeds → disk.volume.entries destination = some file
  falls : ¬ Standing disk.deeds → disk.volume.entries destination = none

structure Live (start : Volume FileBytes) (path : Text) (disk : Disk)
    (session : Session Thread) (temporary : Text) : Prop
    extends Tracked start disk session.destinationName temporary session.file where
  split : ∃ directory, destinationSplit path = some (directory, session.destinationName)
  name : session.temporaryName = temporary ∧ session.published = false ∧
      .removed ∉ disk.deeds ∧ disk.volume.entries temporary = some session.file ∨
    session.temporaryName = [] ∧ disk.volume.entries temporary = none

def Holds (start : Volume FileBytes) (path : Text) (scene : Scene Thread) : Prop :=
  match scene.session with
  | none => Spared start path scene
  | some session => scene.stray = none ∧ ∃ temporary, Live start path scene.disk session temporary

variable {dst tmp p : Text} {f : ℕ}

theorem temporaryNameAt_apart (dst : Text) (pid att : ℕ) : temporaryNameAt dst pid att ≠ dst := by
  intro hs
  have l := congrArg List.length hs
  simp [temporaryNameAt] at l
  omega

@[simp] theorem record_deeds (deed : Deed) : (d.record deed).deeds = d.deeds ++ [deed] := rfl

@[simp] theorem record_volume (deed : Deed) : (d.record deed).volume = d.volume := rfl

@[simp] theorem standing_unlinkFailed (dd : List Deed) :
    Standing (dd ++ [.unlinkFailed]) ↔ Standing dd := by
  simp [Standing]

variable {deeds : List Deed}

theorem standing_made {deed : Deed} (hm : deed = .published ∨ deed = .stuck)
    (hk : .removed ∉ deeds) : Standing (deeds ++ [deed]) := by
  rcases hm with rfl | rfl <;> simp [Standing, hk]

theorem not_standing_removed (dd : List Deed) : ¬ Standing (dd ++ [.removed]) := by
  simp [Standing]

theorem unlinkat_cases (d : Disk) (fa : Option Fault) (n : Text) :
    (unlinkat d fa n = ({ d with volume := d.volume.free n }, true) ∧ n ≠ []) ∨
    unlinkat d fa n = (d.record .unlinkFailed, false) := by
  unfold unlinkat
  cases hu : d.volume.unlink fa n with
  | error => exact .inr rfl
  | ok =>
    obtain ⟨hn, rfl⟩ := unlink_ok hu
    exact .inl ⟨rfl, hn⟩

variable {af : Disk}

/-- The directory changes at the two names only. -/
theorem Tracked.to (ht : Tracked st d dst tmp f)
    (ho : ∀ n, n ≠ tmp → n ≠ dst → af.volume.entries n = d.volume.entries n)
    (dt : ∀ ot < st.next, af.volume.data ot = d.volume.data ot)
    (hs : Standing af.deeds → af.volume.entries dst = some f)
    (hf : ¬ Standing af.deeds → af.volume.entries dst = none) :
    Tracked st af dst tmp f where
  apart := ht.apart
  named := ht.named
  vacant := ht.vacant
  free := ht.free
  fresh := ht.fresh
  others n first second := (ho n first second).trans (ht.others n first second)
  data ot hb := (dt ot hb).trans (ht.data ot hb)
  stands := hs
  falls := hf

theorem Tracked.unlinkFailed (ht : Tracked st d dst tmp f) :
    Tracked st (d.record .unlinkFailed) dst tmp f :=
  ht.to (fun _ _ _ => rfl) (fun _ _ => rfl)
    (fun hsd => ht.stands ((standing_unlinkFailed _).mp hsd))
    fun hf => ht.falls fun hsd => hf ((standing_unlinkFailed _).mpr hsd)

theorem Tracked.kept (ht : Tracked st d dst tmp f) {na : Text}
    {n : ℕ} (hf : st.entries na = some n) :
    d.volume.entries na = some n ∧ d.volume.data n = st.data n := by
  have hb := st.fresh na n hf
  have h1 : na ≠ tmp := by
    rintro rfl
    rw [ht.vacant] at hf
    cases hf
  have h2 : na ≠ dst := by
    rintro rfl
    rw [ht.free] at hf
    cases hf
  exact ⟨(ht.others na h1 h2).trans hf, ht.data n hb⟩

variable {dir : Text}

/-- A session that is gone leaves its temporary name only when it could not remove it. -/
theorem Tracked.spared (ht : Tracked st d dst tmp f)
    (hsp : destinationSplit p = some (dir, dst)) {s : Option (Session Thread)}
    {stray : Option Text}
    (hg : s = none → .unlinkFailed ∉ d.deeds → d.volume.entries tmp = none) :
    Spared st p ⟨d, s, stray⟩ where
  entries _ _ hf _ := ht.kept hf
  destination other name hf := by
    rw [hsp] at hf
    cases hf
    rw [ht.free]
    by_cases hh : Standing d.deeds
    · simp [ht.stands hh, hh]
    · simp [ht.falls hh, hh]
  temporary none clean name absent elsewhere := by
    have h2 : name ≠ dst := by
      rintro rfl
      exact elsewhere dir hsp
    by_cases h1 : name = tmp
    · subst h1
      exact hg none clean
    · exact (ht.others name h1 h2).trans absent

structure Moved (disk after : Disk) (destination temporary : Text) (file : ℕ) : Prop where
  deeds : after.deeds = disk.deeds
  data : after.volume.data = disk.volume.data
  others : ∀ name, name ≠ temporary → name ≠ destination →
    after.volume.entries name = disk.volume.entries name
  source : after.volume.entries temporary = none
  target : after.volume.entries destination = some file
  vacant : disk.volume.entries destination = none

theorem rename_nameless (d : Disk) (dst : Text) (a : RenameAnswers) :
    fileRenameNoReplace d [] dst a = (d, false) := by
  unfold fileRenameNoReplace
  cases hr : d.volume.renameNoReplace a.renameFault [] dst with
  | ok =>
    obtain ⟨f, hn, -⟩ := renameNoReplace_ok hr
    exact absurd rfl hn
  | error e =>
    cases hl : d.volume.link a.linkFault [] dst with
    | ok =>
      obtain ⟨f, hn, -⟩ := link_ok hl
      exact absurd rfl hn
    | error => simp

/-- The file stays under its temporary name, or has lost it for the destination's. -/
theorem rename_tracked (ht : Tracked st d dst tmp f)
    (hp : d.volume.entries tmp = some f) (hk : .removed ∉ d.deeds)
    (a : RenameAnswers) :
    (∃ af, fileRenameNoReplace d tmp dst a = (af, true) ∧ Moved d af dst tmp f) ∨
    ∃ af, fileRenameNoReplace d tmp dst a = (af, false) ∧ Tracked st af dst tmp f ∧
      af.volume.entries tmp = some f ∧ .removed ∉ af.deeds := by
  unfold fileRenameNoReplace
  cases hr : d.volume.renameNoReplace a.renameFault tmp dst with
  | ok =>
    obtain ⟨nu, -, e, hv, en, dt⟩ := renameNoReplace_ok hr
    rw [hp] at e
    cases e
    left
    refine ⟨_, rfl, rfl, dt, fun n h1 h2 => ?_, ?_, ?_, hv⟩
    · simp [en, h1, h2]
    · simp [en]
    · simp [en, ht.apart.symm]
  | error er =>
    dsimp only
    split_ifs
    · exact .inr ⟨d, rfl, ht, hp, hk⟩
    cases hl : d.volume.link a.linkFault tmp dst with
    | error => exact .inr ⟨d, rfl, ht, hp, hk⟩
    | ok mid =>
      obtain ⟨nu, -, e, hv, en, dt⟩ := link_ok hl
      rw [hp] at e
      cases e
      have hf : ¬ Standing d.deeds := by
        intro hsd
        rw [ht.stands hsd] at hv
        cases hv
      dsimp only
      rcases unlinkat_cases { d with volume := mid } a.unlinkFault tmp with
        ⟨h1, -⟩ | h1
      · left
        rw [h1]
        refine ⟨_, rfl, rfl, dt, fun n h1 h2 => ?_, ?_, ?_, hv⟩
        · simp [en, h1, h2]
        · simp
        · simp [en, ht.apart.symm]
      · right
        rw [h1]
        dsimp only
        -- The destination is the second name of the file until it is rolled back.
        rcases unlinkat_cases (Disk.record { d with volume := mid } .unlinkFailed)
          a.rollbackFault dst with ⟨h2, -⟩ | h2
        · rw [h2]
          refine ⟨_, rfl, ht.to (fun n h1 h2 => ?_) (fun ot _ => ?_)
            (fun hsd => ?_) (fun _ => ?_), ?_, ?_⟩
          · simp [en, h2]
          · simp [dt]
          · simp [hf] at hsd
          · simp
          · simp [en, ht.apart, hp]
          · simpa using hk
        · rw [h2]
          refine ⟨_, rfl, ht.to (fun n h1 h2 => ?_) (fun ot _ => ?_)
            (fun _ => ?_) (fun hm => ?_), ?_, ?_⟩
          · simp [en, h2]
          · simp [dt]
          · simp [en]
          · exact absurd (standing_made (.inr rfl) (by simpa using hk)) hm
          · simp [en, ht.apart, hp]
          · simpa using hk

theorem Moved.kept (hmv : Moved d af dst tmp f)
    (ht : Tracked st d dst tmp f) (hk : .removed ∉ d.deeds) {deed : Deed}
    (made : deed = .published ∨ deed = .stuck)
    (hb : deeds = d.deeds ∨ deeds = d.deeds ++ [.unlinkFailed]) :
    Tracked st ⟨af.volume, deeds ++ [deed]⟩ dst tmp f := by
  have hu : .removed ∉ deeds := by
    rcases hb with rfl | rfl
    · exact hk
    · simpa using hk
  refine ht.to hmv.others (fun ot _ => congrFun hmv.data ot) (fun _ => hmv.target) fun hm => ?_
  exact absurd (standing_made made hu) hm

theorem Moved.rollback (hh : Moved d af dst tmp f)
    (ht : Tracked st d dst tmp f) (hk : .removed ∉ d.deeds)
    (fa : Option Fault) :
    Tracked st (rollback af dst fa).1 dst tmp f ∧
      (rollback af dst fa).1.volume.entries tmp = none := by
  have hf : ¬ Standing d.deeds := by
    intro hsd
    have hv := hh.vacant
    rw [ht.stands hsd] at hv
    cases hv
  unfold ArtifactPublication.rollback
  rcases unlinkat_cases af fa dst with ⟨hu, -⟩ | hu
  · rw [hu]
    refine ⟨ht.to (fun n h1 h2 => ?_) (fun ot _ => ?_) (fun hsd => ?_) (fun _ => ?_), ?_⟩
    · simp [hh.others n h1 h2, h2]
    · simp [hh.data]
    · simp [hh.deeds, hf] at hsd
    · simp
    · simp [hh.source]
  · rw [hu]
    refine ⟨?_, hh.source⟩
    have hm := hh.kept ht hk (.inr rfl) (.inr rfl)
    rw [← hh.deeds] at hm
    exact hm

variable {s : Session Thread} {v : Volume FileBytes}

theorem Live.untouched (l : Live st p d s tmp) {af : Session Thread}
    (he : v.entries = d.volume.entries)
    (data : ∀ ot < st.next, v.data ot = d.volume.data ot)
    (hn : af.destinationName = s.destinationName ∧ af.temporaryName = s.temporaryName ∧
      af.file = s.file ∧ af.published = s.published) :
    Live st p ⟨v, d.deeds⟩ af tmp := by
  obtain ⟨dst, n, f, hpb⟩ := hn
  constructor
  · rw [dst, f]
    refine l.toTracked.to (fun ot _ _ => congrFun he ot) data (fun hsd => ?_) fun hf => ?_
    · rw [he]
      exact l.stands hsd
    · rw [he]
      exact l.falls hf
  · rw [dst]
    exact l.split
  · rw [n, f, hpb, he]
    exact l.name

theorem live_terminal [DecidableEq Thread] (plan : SinkPlan) (sha : Sha256)
    (l : Live st p d s tmp) (e : Event Thread) (stat : FileStat) :
    Live st p (terminal plan sha d s e stat).1 (terminal plan sha d s e stat).2 tmp := by
  have data : ∀ ot < st.next,
      (terminal plan sha d s e stat).1.volume.data ot = d.volume.data ot := by
    intro ot hb
    have hap : ot ≠ s.file := by
      have := l.fresh
      omega
    exact update_of_ne hap ..
  exact l.untouched rfl data ⟨rfl, rfl, rfl, rfl⟩

theorem publish_nameless (d : Disk) (hn : s.temporaryName = [])
    (r : Option RoundtripSummary) (a : PublishAnswers) :
    (publish d s r a).1 = d ∧ (publish d s r a).2.1 = s := by
  unfold publish
  rw [hn, rename_nameless]
  split_ifs <;> exact ⟨rfl, rfl⟩

theorem live_publish (l : Live st p d s tmp) (r : Option RoundtripSummary) (a : PublishAnswers) :
    Live st p (publish d s r a).1 (publish d s r a).2.1 tmp := by
  rcases l.name with ⟨n, hup, hk, hp⟩ | ⟨hn, hab⟩
  · unfold publish
    -- The four checks in front of the renaming change nothing.
    iterate 4
      split
      · exact l
    rw [n]
    rcases rename_tracked l.toTracked hp hk a.rename with
      ⟨af, hr, moved⟩ | ⟨af, hr, ht, stays, unremoved⟩
    · rw [hr]
      dsimp only
      have hh := moved.rollback l.toTracked hk a.rollbackFault
      split_ifs
      · exact ⟨hh.1, l.split, .inr ⟨rfl, hh.2⟩⟩
      split
      · exact ⟨hh.1, l.split, .inr ⟨rfl, hh.2⟩⟩
      · have hm := moved.kept l.toTracked hk (.inl rfl) (.inl moved.deeds)
        exact ⟨hm, l.split, .inr ⟨rfl, moved.source⟩⟩
    · rw [hr]
      exact ⟨ht, l.split, .inl ⟨n, hup, unremoved, stays⟩⟩
  · obtain ⟨h1, h2⟩ := publish_nameless d hn r a
    rw [h1, h2]
    exact l

theorem live_withdraw (l : Live st p d s tmp) (a : WithdrawAnswers) :
    Live st p (withdraw d s a).1 (withdraw d s a).2.1
      tmp := by
  unfold withdraw
  split
  · exact l
  next hr =>
  have hpb : s.published = true := by simpa using (not_or.mp hr).1
  obtain ⟨hn, hab⟩ : s.temporaryName = [] ∧ d.volume.entries tmp = none := by
    rcases l.name with ⟨-, hup, -⟩ | hg
    · rw [hpb] at hup
      cases hup
    · exact hg
  rcases unlinkat_cases d a.unlinkFault s.destinationName with
    ⟨hu, -⟩ | hu
  · rw [hu]
    have ht : Tracked st ⟨d.volume.free s.destinationName, d.deeds ++ [.removed]⟩
        s.destinationName tmp s.file := by
      refine l.toTracked.to (fun n _ h2 => ?_) (fun ot _ => rfl)
        (fun hsd => absurd hsd (not_standing_removed _)) fun _ => ?_
      · simp [h2]
      · simp
    have hg : (d.volume.free s.destinationName).entries tmp = none := by simp [hab]
    split_ifs <;> exact ⟨ht, l.split, .inr ⟨hn, hg⟩⟩
  · rw [hu]
    exact ⟨l.toTracked.unlinkFailed, l.split, .inr ⟨hn, hab⟩⟩

/-- Releasing removes the temporary name, or records that it could not. -/
theorem releaseName_tracked (ht : Tracked st d dst tmp f) (fa : Option Fault) :
    Tracked st (releaseName d false tmp fa) dst tmp f ∧
      (.unlinkFailed ∉ (releaseName d false tmp fa).deeds →
        (releaseName d false tmp fa).volume.entries tmp = none) := by
  rw [releaseName, if_pos ⟨rfl, ht.named⟩]
  rcases unlinkat_cases d fa tmp with ⟨hu, -⟩ | hu
  · rw [hu]
    refine ⟨ht.to (fun n h1 _ => ?_) (fun ot _ => rfl) (fun hs => ?_) (fun hf => ?_), fun _ => ?_⟩
    · simp [h1]
    · simpa [ht.apart.symm] using ht.stands hs
    · simpa [ht.apart.symm] using ht.falls hf
    · simp
  · rw [hu]
    refine ⟨ht.unlinkFailed, fun hc => ?_⟩
    simp at hc

theorem spared_release (l : Live st p d s tmp) (fa : Option Fault) :
    Spared st p (⟨releaseName d s.published s.temporaryName fa, none, none⟩ : Scene Thread) := by
  obtain ⟨dir, hsp⟩ := l.split
  rcases l.name with ⟨n, hup, -⟩ | ⟨hn, hab⟩
  · rw [n, hup]
    obtain ⟨ht, hg⟩ := releaseName_tracked l.toTracked fa
    exact ht.spared hsp fun _ => hg
  · rw [hn, releaseName, if_neg (by simp)]
    exact l.toTracked.spared hsp fun _ _ => hab

theorem holds_step [DecidableEq Thread] (plan : SinkPlan) (sha : Sha256) {sc : Scene Thread}
    (hh : Holds st p sc) (c : SessionCall Thread) :
    Holds st p (sessionStep plan sha sc c) := by
  obtain ⟨d, s, stray⟩ := sc
  cases s with
  | none => exact hh
  | some =>
    obtain ⟨rfl, tmp, hl⟩ := hh
    cases c with
    | terminal e stat => exact ⟨rfl, tmp, live_terminal plan sha hl e stat⟩
    | publish r a => exact ⟨rfl, tmp, live_publish hl r a⟩
    | withdraw a => exact ⟨rfl, tmp, live_withdraw hl a⟩
    | release fa => exact spared_release hl fa

section Create

variable (plan : SinkPlan) (o : SinkOptions) (pid : ℕ) (a : CreateAnswers)

theorem tempAttempts_some (ats att : ℕ) (l : Text)
    (hf : tempAttempts pid a v dst ats att l = (tmp, some st)) :
    tmp ≠ [] ∧ tmp ≠ dst ∧ v.entries tmp = none ∧ st = v.create tmp (fun _ => 0, 0) := by
  induction ats generalizing att l with
  | zero => cases hf
  | succ ats ih =>
    rw [tempAttempts] at hf
    split at hf
    · rename_i hop
      cases hf
      obtain ⟨hn, hv, hm⟩ := openExclusive_ok hop
      exact ⟨hn, temporaryNameAt_apart dst pid att, hv, hm⟩
    · exact ih _ _ hf
    · cases hf

theorem tempAttempts_none (ats att : ℕ) (l : Text) (hap : l ≠ dst)
    (hf : tempAttempts pid a v dst ats att l = (tmp, none)) :
    tmp ≠ dst := by
  induction ats generalizing att l with
  | zero =>
    cases hf
    exact hap
  | succ ats ih =>
    have next := temporaryNameAt_apart dst pid att
    rw [tempAttempts] at hf
    split at hf
    · cases hf
    · exact ih _ _ next hf
    · cases hf
      exact next

theorem destinationSplit_named (split : destinationSplit p = some (dir, dst)) : dst ≠ [] := by
  unfold destinationSplit at split
  split at split
  · cases split
  dsimp only at split
  split at split
  · cases split
  · rename_i ha
    cases split
    exact fun e => ha (.inl e)

theorem prepareDestination_ok (ha : prepareDestination plan o a v = .ok dst) :
    v.entries dst = none ∧ ∃ dir, destinationSplit o.destinationPath = some (dir, dst) := by
  unfold prepareDestination at ha
  split at ha
  · cases ha
  rename_i dir n split
  split_ifs at split
  split_ifs at ha with opened taken
  obtain ⟨-, hf⟩ := not_or.mp taken
  have hs : n = dst := by
    split at ha
    · cases ha
    split at ha
    · cases ha
    · split_ifs at ha
      cases ha
      rfl
  subst hs
  refine ⟨?_, dir, split⟩
  simpa [lookup, destinationSplit_named split] using hf

theorem spared_untouched (st : Volume FileBytes) (p : Text) :
    Spared st p (⟨⟨st, []⟩, none, none⟩ : Scene Thread) where
  entries _ _ hf _ := ⟨hf, rfl⟩
  destination _ _ _ := by simp [Standing]
  temporary _ _ _ absent _ := absent

/-- A name that was left is given up; it need not have been the session's. -/
theorem spared_stray (hsp : destinationSplit p = some (dir, dst))
    (hap : tmp ≠ dst) (fa : Option Fault) :
    Spared st p (⟨releaseName ⟨st, []⟩ false tmp fa, none, some tmp⟩ : Scene Thread) := by
  unfold releaseName
  by_cases hn : tmp = []
  · rw [if_neg (by simp [hn])]
    exact ⟨fun _ _ hf _ => ⟨hf, rfl⟩, fun _ _ _ => by simp [Standing], fun _ _ _ hab _ => hab⟩
  rw [if_pos ⟨rfl, hn⟩]
  rcases unlinkat_cases ⟨st, []⟩ fa tmp with ⟨hu, -⟩ | hu
  · rw [hu]
    refine ⟨fun n f hf ot => ⟨?_, rfl⟩, fun ot n hf => ?_, fun _ _ n hab _ => ?_⟩
    · have hap : n ≠ tmp := fun hs => ot (by rw [hs])
      simpa [hap] using hf
    · rw [hsp] at hf
      cases hf
      simp [hap.symm, Standing]
    · simp [hab]
  · rw [hu]
    exact ⟨fun _ _ hf _ => ⟨hf, rfl⟩, fun _ _ _ => by simp [Standing], fun _ hc => by simp at hc⟩

theorem tracked_created (hn : tmp ≠ []) (hap : tmp ≠ dst)
    (hv : st.entries tmp = none) (hf : st.entries dst = none)
    (c : FileBytes) :
    Tracked st ⟨st.create tmp c, []⟩ dst tmp st.next where
  apart := hap
  named := hn
  vacant := hv
  free := hf
  fresh := le_refl _
  others _ first _ := update_of_ne first ..
  data _ hb := update_of_ne hb.ne ..
  stands standing := by simp [Standing] at standing
  falls _ := (update_of_ne hap.symm ..).trans hf

/-- A session that is created is live, and a failed creation spares what was there. -/
theorem holds_create (st : Volume FileBytes) : Holds st o.destinationPath
      (sinkCreate plan o pid a st : Scene Thread × _).1 := by
  have hut : Spared st o.destinationPath (⟨⟨st, []⟩, none, none⟩ : Scene Thread) :=
    spared_untouched st o.destinationPath
  unfold sinkCreate
  iterate 2
    split
    · exact hut
  cases ha : prepareDestination plan o a st with
  | error => exact hut
  | ok dst =>
    obtain ⟨hf, dir, hsp⟩ := prepareDestination_ok plan o a ha
    dsimp only
    split_ifs
    · exact hut
    · exact hut
    cases tried : tempCreate pid a st dst with
    | mk tmp hm =>
      cases hm with
      | none =>
        have hap := tempAttempts_none pid a 128 0 [] (destinationSplit_named hsp).symm tried
        exact spared_stray hsp hap a.releaseFault
      | some =>
        obtain ⟨hn, hap, hv, rfl⟩ := tempAttempts_some pid a 128 0 [] tried
        have ht := tracked_created hn hap hv hf (fun _ => 0, 0)
        cases prepared : prepareFile plan o a with
        | error =>
          obtain ⟨hr, hg⟩ := releaseName_tracked ht a.releaseFault
          exact hr.spared hsp fun _ => hg
        | ok =>
          refine ⟨rfl, tmp, ⟨ht.to (fun _ _ _ => rfl) (fun ot hb => ?_)
            ht.stands ht.falls, ⟨dir, hsp⟩, .inl ⟨rfl, rfl, ?_, ?_⟩⟩⟩
          · exact update_of_ne hb.ne ..
          · simp
          · exact update_self ..

end Create

/-- Whatever the system answers, a session leaves the directory as it found it, but for its
destination and for a temporary name it could not create. -/
theorem session_spares [DecidableEq Thread] (plan : SinkPlan) (sha : Sha256)
    (options : SinkOptions) (pid : ℕ) (answers : CreateAnswers) (start : Volume FileBytes)
    (calls : List (SessionCall Thread)) :
    Spared start options.destinationPath
      (run (sessionStep plan sha) (sinkCreate plan options pid answers start).1 calls) := by
  have holds : Holds start options.destinationPath
      (run (sessionStep plan sha) (sinkCreate plan options pid answers start).1 calls) :=
    run_invariant (P := Holds start options.destinationPath)
      (fun _ call holds => holds_step plan sha holds call)
      (holds_create plan options pid answers start) calls
  revert holds
  generalize run (sessionStep plan sha) (sinkCreate plan options pid answers start).1 calls = scene
  intro holds
  obtain ⟨disk, session, stray⟩ := scene
  cases session with
  | none => exact holds
  | some =>
    obtain ⟨rfl, temporary, live⟩ := holds
    obtain ⟨directory, split⟩ := live.split
    exact live.toTracked.spared split fun impossible => by cases impossible

def pairOptions : SinkOptions := ⟨['a'], 0, false, false, false, false⟩

def pairStat : FileStat := ⟨true, 96, 1, 5, noTimes⟩

def pairAnswers : CreateAnswers where
  plansMatch := true
  sinkAllocates := true
  pathsAllocate := true
  directoryOpens := true
  destinationFault := none
  capacity := some (96, 1)
  mutexCreates := true
  recordsAllocate := true
  nameAllocates := true
  openFault _ := none
  pathAllocates := true
  created := some pairStat
  fallocateFails := none
  preallocated := some pairStat
  prefixStored := true
  digestCreates := true
  releaseFault := none

def takenVolume : Volume FileBytes where
  entries name := if name = temporaryNameAt ['a'] 1 0 then some 0 else none
  data _ := (fun _ => 0, 0)
  next := 1
  fresh name file found := by
    split_ifs at found
    cases found
    exact Nat.one_pos

def pairRoundtrip : RoundtripSummary :=
  ⟨96, 96, 1, 5, noTimes, List.replicate 64 'a', List.replicate 64 'a', true, true, true, true,
    true⟩

def publishCalls (flushed : Bool) (rollbackFault : Option Fault) : List (SessionCall Bool) :=
  pairEvents.map (.terminal · pairStat) ++
    [.publish (some pairRoundtrip)
      ⟨some pairStat, ⟨none, none, none, none⟩, flushed, rollbackFault, .ok pairStat⟩]

def pairScene (answers : CreateAnswers) (calls : List (SessionCall Bool)) : Scene Bool :=
  run (sessionStep pairPlan fixedDigest)
    (sinkCreate pairPlan pairOptions 1 answers takenVolume).1 calls

def stuckScene : Scene Bool :=
  pairScene pairAnswers (publishCalls false (some (.other 5)) ++ [.release none])

def withdrawnScene : Scene Bool :=
  pairScene pairAnswers (publishCalls true none ++ [.withdraw ⟨.ok pairStat, none, false⟩])

def strayScene : Scene Bool :=
  pairScene { pairAnswers with openFault := fun _ => some (.other 24) } []

/-- A destination stays when its publication cannot be rolled back, is gone when its
withdrawal cannot be flushed, and an entry the session did not create is removed when its
name was tried last. -/
theorem session_exceptions :
    (Deed.published ∉ stuckScene.disk.deeds ∧
      (stuckScene.disk.volume.entries ['a']).isSome = true) ∧
    (withdrawnScene.session.map Session.published = some true ∧
      withdrawnScene.disk.volume.entries ['a'] = none) ∧
    takenVolume.entries (temporaryNameAt ['a'] 1 0) = some 0 ∧
    strayScene.disk.volume.entries (temporaryNameAt ['a'] 1 0) = none := by
  decide +kernel

end Yvex.ArtifactFrame
