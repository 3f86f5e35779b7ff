import Yvex.ArtifactSink
import Yvex.DirectoryVolume

/-!
# Publication of an artifact

A session creates a temporary file beside its destination, fills it through the sink,
and gives it the destination's name once it is validated. Every call of the system takes
an answer of the system; the deeds keep what the calls that remove names have done.
-/

set_option autoImplicit false

namespace Yvex.ArtifactPublication

open AttentionData ArtifactSink ByteRegions CheckedArithmetic DirectoryVolume

inductive FileCode where
  | invalidArgument
  | unsafeDestination
  | destinationExists
  | directoryOpen
  | tempCreate
  | insufficientSpace
  | preallocate
  | write
  | snapshotDrift
  | validationRequired
  | publication
  | directoryFlush
  | cleanup
  | allocation
  deriving DecidableEq

structure FileFailure where
  code : FileCode
  status : Status
  message : String
  deriving DecidableEq

structure FileTimes where
  mtimeSeconds : ℤ
  mtimeNanoseconds : ℤ
  ctimeSeconds : ℤ
  ctimeNanoseconds : ℤ
  deriving DecidableEq

structure FileStat where
  regular : Bool
  size : ℤ
  device : ℕ
  inode : ℕ
  times : FileTimes
  deriving DecidableEq

structure FileIdentity where
  fileDevice : ℕ
  fileInode : ℕ
  fileSize : ℕ
  validated : FileTimes
  published : FileTimes

def noTimes : FileTimes := ⟨0, 0, 0, 0⟩

def statCoreMatches (identity : FileIdentity) (stat : FileStat) : Bool :=
  stat.regular && decide (0 ≤ stat.size) && decide (stat.device = identity.fileDevice) &&
    decide (stat.inode = identity.fileInode) && decide (stat.size = identity.fileSize)

def statValidatedMatches (identity : FileIdentity) (stat : FileStat) : Bool :=
  statCoreMatches identity stat && decide (stat.times = identity.validated)

def statPublishedMatches (identity : FileIdentity) (stat : FileStat) : Bool :=
  statCoreMatches identity stat && decide (stat.times = identity.published)

structure RoundtripSummary where
  fileBytes : ℕ
  bytesHashed : ℕ
  fileDevice : ℕ
  fileInode : ℕ
  times : FileTimes
  artifactIdentity : Identity
  payloadByteIdentity : Identity
  readerAccepted : Bool
  layoutAccepted : Bool
  payloadAccepted : Bool
  snapshotStable : Bool
  complete : Bool

def roundtripAccepted (identity : FileIdentity) (payloadByteIdentity : Identity)
    (roundtrip : RoundtripSummary) : Bool :=
  roundtrip.complete && roundtrip.readerAccepted && roundtrip.layoutAccepted &&
    roundtrip.payloadAccepted && roundtrip.snapshotStable &&
    decide (roundtrip.fileBytes = identity.fileSize) &&
    decide (roundtrip.bytesHashed = identity.fileSize) &&
    decide (roundtrip.fileDevice = identity.fileDevice) &&
    decide (roundtrip.fileInode = identity.fileInode) &&
    decide (roundtrip.times = identity.validated) &&
    decide (roundtrip.artifactIdentity.length = 64) &&
    decide (roundtrip.payloadByteIdentity.length = 64) &&
    decide (roundtrip.payloadByteIdentity = payloadByteIdentity)

def artifactPathCap : ℕ := 4096

def componentSafe (component : Text) : Bool :=
  component.all (fun letter => letter ≠ '\\' && letter ≠ '\n' && letter ≠ '\r') &&
    decide (component ≠ []) && decide (component ≠ ['.']) && decide (component ≠ ['.', '.'])

def destinationPathSafe (path : Text) : Bool :=
  -- One leading slash is skipped; a trailing one leaves an empty component.
  decide (path ≠ []) &&
    ((if path.head? = some '/' then path.tail else path).splitOn '/').all componentSafe

def destinationSplit (path : Text) : Option (Text × Text) :=
  if destinationPathSafe path = false ∨ artifactPathCap ≤ path.length then none
  else
    let name := (path.reverse.takeWhile (· ≠ '/')).reverse
    let directory :=
      if '/' ∉ path then ['.']
      else if path.length = name.length + 1 then ['/']
      else path.take (path.length - name.length - 1)
    if name = [] ∨ name = ['.'] ∨ name = ['.', '.'] ∨ '/' ∈ name ∨ '\\' ∈ name then none
    else some (directory, name)

def decimal (number : ℕ) : Text := Nat.toDigits 10 number

def temporaryNameAt (destination : Text) (pid attempt : ℕ) : Text :=
  '.' :: destination ++ ".yvex-tmp-".toList ++ decimal pid ++ '-' :: decimal attempt

structure SinkOptions where
  destinationPath : Text
  safetyMarginBytes : ℕ
  injectTempCreateFailure : Bool
  injectPreallocateFailure : Bool
  injectPublishFailure : Bool
  injectDirectoryFsyncFailure : Bool

abbrev FileBytes := Store × ℕ

inductive Deed where
  | unlinkFailed
  | published
  | stuck
  | removed
  deriving DecidableEq

structure Disk where
  volume : Volume FileBytes
  deeds : List Deed

def Disk.record (disk : Disk) (deed : Deed) : Disk := { disk with deeds := disk.deeds ++ [deed] }

structure Session (Thread : Type) where
  world : World Thread
  options : SinkOptions
  destinationName : Text
  temporaryName : Text
  file : ℕ
  identity : FileIdentity
  published : Bool

/-- The directory, the session's sink until it is released, and the name that is left
when no temporary file could be created. -/
structure Scene (Thread : Type) where
  disk : Disk
  session : Option (Session Thread)
  stray : Option Text

def unlinkat (disk : Disk) (fault : Option Fault) (name : Text) : Disk × Bool :=
  match disk.volume.unlink fault name with
  | .ok volume => ({ disk with volume := volume }, true)
  | .error _ => (disk.record .unlinkFailed, false)

def releaseName (disk : Disk) (published : Bool) (temporaryName : Text)
    (fault : Option Fault) : Disk :=
  if published = false ∧ temporaryName ≠ [] then (unlinkat disk fault temporaryName).1 else disk

structure CreateAnswers where
  plansMatch : Bool
  sinkAllocates : Bool
  pathsAllocate : Bool
  directoryOpens : Bool
  destinationFault : Option Fault
  capacity : Option (ℕ × ℕ)
  mutexCreates : Bool
  recordsAllocate : Bool
  nameAllocates : Bool
  openFault : ℕ → Option Fault
  pathAllocates : Bool
  created : Option FileStat
  fallocateFails : Option Bool
  preallocated : Option FileStat
  prefixStored : Bool
  digestCreates : Bool
  releaseFault : Option Fault

section Create

variable (plan : SinkPlan) (options : SinkOptions) (pid : ℕ) (answers : CreateAnswers)

def prepareDestination (volume : Volume FileBytes) : Except FileFailure Text :=
  match if answers.pathsAllocate then destinationSplit options.destinationPath else none with
  | none => .error ⟨.unsafeDestination, .invalidArg, "destination path or basename is unsafe"⟩
  | some (_, destination) =>
    if answers.directoryOpens = false then
      .error ⟨.directoryOpen, .io, "destination directory cannot be opened safely"⟩
    else if answers.destinationFault.isSome ∨ (volume.lookup destination).isSome then
      .error ⟨.destinationExists, .state, "destination already exists or cannot be admitted"⟩
    else match answers.capacity.bind fun capacity => u64Mul capacity.1 capacity.2 with
      | none => .error ⟨.insufficientSpace, .io, "filesystem capacity cannot be determined safely"⟩
      | some available =>
        match u64Add plan.writer.finalFileBytes options.safetyMarginBytes with
        | none =>
          .error ⟨.insufficientSpace, .bounds, "required safe filesystem capacity overflowed"⟩
        | some required =>
          if available < required then
            .error ⟨.insufficientSpace, .bounds,
              "filesystem has insufficient safe capacity for artifact"⟩
          else .ok destination

def tempAttempts (volume : Volume FileBytes) (destination : Text) :
    (attempts attempt : ℕ) → (last : Text) → Text × Option (Volume FileBytes)
  | 0, _, last => (last, none)
  | attempts + 1, attempt, _ =>
    let name := temporaryNameAt destination pid attempt
    match volume.openExclusive (answers.openFault attempt) name (fun _ => 0, 0) with
    | .ok created => (name, some created)
    | .error .eexist => tempAttempts volume destination attempts (attempt + 1) name
    | .error _ => (name, none)

def tempCreate (volume : Volume FileBytes) (destination : Text) :
    Text × Option (Volume FileBytes) :=
  tempAttempts pid answers volume destination 128 0 []

def tempCreateFailure : FileFailure :=
  ⟨.tempCreate, .io, "unique regular temporary artifact creation failed"⟩

def prepareFile : Except FileFailure FileIdentity :=
  let planned := plan.writer.finalFileBytes
  if answers.pathAllocates = false ∨ (answers.created.any FileStat.regular) = false then
    .error tempCreateFailure
  else if llongMax < planned then
    .error ⟨.preallocate, .bounds, "planned file size is not representable by off_t"⟩
  else match if options.injectPreallocateFailure then some true else answers.fallocateFails with
    | some noSpace =>
      .error ⟨.preallocate, if noSpace then .bounds else .io,
        "complete temporary artifact preallocation failed"⟩
    | none =>
      match answers.preallocated.filter fun stat =>
          stat.regular && decide (stat.size = (planned : ℤ)) with
      | none =>
        .error ⟨.preallocate, .io,
          "preallocated artifact size or regular-file identity diverged"⟩
      | some stat =>
        if answers.prefixStored = false then
          .error ⟨.write, .io, "GGUF structural prefix exact write failed"⟩
        else if answers.digestCreates = false then
          .error ⟨.allocation, .nomem, "quant digest fan-out sink creation failed"⟩
        else .ok ⟨stat.device, stat.inode, planned, noTimes, noTimes⟩

def sinkCreate {Thread : Type} (volume : Volume FileBytes) :
    Scene Thread × Except FileFailure Unit :=
  let untouched : Scene Thread := ⟨⟨volume, []⟩, none, none⟩
  if answers.plansMatch = false ∨ options.destinationPath = [] then
    (untouched, .error ⟨.invalidArgument, .invalidArg,
      "destination and matching writer/quant identities are required"⟩)
  else if answers.sinkAllocates = false then
    (untouched, .error ⟨.allocation, .nomem, "file sink allocation failed"⟩)
  else match prepareDestination plan options answers volume with
    | .error failure => (untouched, .error failure)
    | .ok destination =>
      if answers.mutexCreates = false then
        (untouched, .error ⟨.allocation, .nomem, "file sink mutex creation failed"⟩)
      else if answers.recordsAllocate = false ∨ options.injectTempCreateFailure = true ∨
          answers.nameAllocates = false then (untouched, .error tempCreateFailure)
      else match tempCreate pid answers volume destination with
        | (temporary, none) =>
          (⟨releaseName ⟨volume, []⟩ false temporary answers.releaseFault, none, some temporary⟩,
            .error tempCreateFailure)
        | (temporary, some created) =>
          match prepareFile plan options answers with
          | .error failure =>
            (⟨releaseName ⟨created, []⟩ false temporary answers.releaseFault, none, none⟩,
              .error failure)
          | .ok identity =>
            let sink := fileSinkCreate plan
            (⟨⟨created.store volume.next (sink.bytes, sink.size), []⟩,
              some
                { world := World.start plan
                  options := options
                  destinationName := destination
                  temporaryName := temporary
                  file := volume.next
                  identity := identity
                  published := false },
              none⟩, .ok ())

end Create

structure RenameAnswers where
  renameFault : Option Fault
  linkFault : Option Fault
  unlinkFault : Option Fault
  rollbackFault : Option Fault

def fileRenameNoReplace (disk : Disk) (temporary destination : Text) (answers : RenameAnswers) :
    Disk × Bool :=
  match disk.volume.renameNoReplace answers.renameFault temporary destination with
  | .ok volume => ({ disk with volume := volume }, true)
  | .error errno =>
    if errno ≠ .enosys ∧ errno ≠ .einval then (disk, false)
    else match disk.volume.link answers.linkFault temporary destination with
      | .error _ => (disk, false)
      | .ok volume =>
        match unlinkat { disk with volume := volume } answers.unlinkFault temporary with
        | (unlinked, true) => (unlinked, true)
        | (failed, false) =>
          match unlinkat failed answers.rollbackFault destination with
          | (rolled, true) => (rolled, false)
          | (rolled, false) => (rolled.record .stuck, false)

structure PublishAnswers where
  validated : Option FileStat
  rename : RenameAnswers
  flushed : Bool
  rollbackFault : Option Fault
  destination : Except Fault FileStat

def rollback (disk : Disk) (destination : Text) (fault : Option Fault) : Disk × Bool :=
  match unlinkat disk fault destination with
  | (rolled, true) => (rolled, true)
  | (rolled, false) => (rolled.record .stuck, false)

def fstatat (disk : Disk) (name : Text) (answer : Except Fault FileStat) : Option FileStat :=
  match answer with
  | .error _ => none
  | .ok stat => if (disk.volume.lookup name).isSome then some stat else none

section Calls

variable {Thread : Type} (disk : Disk) (session : Session Thread)

def publishRolledBack (fault : Option Fault) (removed kept : FileFailure) :
    Disk × Session Thread × Except FileFailure Unit :=
  let rolled := rollback disk session.destinationName fault
  (rolled.1, { session with temporaryName := [] },
    .error (if rolled.2 then removed else kept))

def publish (roundtrip : Option RoundtripSummary) (answers : PublishAnswers) :
    Disk × Session Thread × Except FileFailure Unit :=
  if session.world.sink.finalized = false ∨ session.published = true then
    (disk, session, .error ⟨.invalidArgument, .state,
      "one finalized unpublished artifact is required"⟩)
  else if (answers.validated.any (statValidatedMatches session.identity)) = false then
    (disk, session, .error ⟨.snapshotDrift, .state,
      "validated temporary artifact changed before publication"⟩)
  else if (roundtrip.any (roundtripAccepted session.identity
      session.world.sink.summary.payloadByteIdentity)) = false then
    (disk, session, .error ⟨.validationRequired, .state,
      "exact native roundtrip for this temporary inode is required"⟩)
  else if session.options.injectPublishFailure = true then
    (disk, session, .error ⟨.publication, .io, "no-replace artifact publication failed"⟩)
  else match fileRenameNoReplace disk session.temporaryName session.destinationName
      answers.rename with
    | (renamed, false) =>
      (renamed, session, .error ⟨.publication, .io, "no-replace artifact publication failed"⟩)
    | (renamed, true) =>
      if session.options.injectDirectoryFsyncFailure = true ∨ answers.flushed = false then
        publishRolledBack renamed session answers.rollbackFault
          ⟨.directoryFlush, .io, "publication was rolled back after directory flush failure"⟩
          ⟨.cleanup, .io, "publication directory flush failed and rollback failed"⟩
      else match (fstatat renamed session.destinationName answers.destination).filter
          (statCoreMatches session.identity) with
        | none =>
          publishRolledBack renamed session answers.rollbackFault
            ⟨.publication, .state, "published path identity diverged and was rolled back"⟩
            ⟨.cleanup, .state, "published path identity diverged and cleanup failed"⟩
        | some stat =>
          (renamed.record .published,
            { session with
              temporaryName := []
              published := true
              identity := { session.identity with published := stat.times } }, .ok ())

structure WithdrawAnswers where
  destination : Except Fault FileStat
  unlinkFault : Option Fault
  flushed : Bool

def withdrawFailure : FileFailure := ⟨.cleanup, .io, "owned published artifact withdrawal failed"⟩

def withdraw (answers : WithdrawAnswers) : Disk × Session Thread × Except FileFailure Unit :=
  if session.published = false ∨
      ((fstatat disk session.destinationName answers.destination).any
        (statPublishedMatches session.identity)) = false then
    (disk, session, .error withdrawFailure)
  else match unlinkat disk answers.unlinkFault session.destinationName with
    | (failed, false) => (failed, session, .error withdrawFailure)
    | (unlinked, true) =>
      if answers.flushed = false then (unlinked.record .removed, session, .error withdrawFailure)
      else (unlinked.record .removed, { session with published := false }, .ok ())

end Calls

inductive SessionCall (Thread : Type) where
  | terminal (event : Event Thread) (stat : FileStat)
  | publish (roundtrip : Option RoundtripSummary) (answers : PublishAnswers)
  | withdraw (answers : WithdrawAnswers)
  | release (fault : Option Fault)

section Session

variable {Thread : Type} [DecidableEq Thread] (plan : SinkPlan) (sha : Sha256)

def terminal (disk : Disk) (session : Session Thread) (event : Event Thread)
    (stat : FileStat) : Disk × Session Thread :=
  let world := ArtifactSink.step plan sha session.world event
  let finalizes := !session.world.sink.finalized && world.sink.finalized
  ({ disk with volume := disk.volume.store session.file (world.sink.bytes, world.sink.size) },
    { session with
      world := world
      identity := if finalizes then { session.identity with validated := stat.times }
        else session.identity })

def sessionStep (scene : Scene Thread) (call : SessionCall Thread) : Scene Thread :=
  match scene.session with
  | none => scene
  | some session =>
    match call with
    | .terminal event stat =>
      let after := terminal plan sha scene.disk session event stat
      { scene with disk := after.1, session := some after.2 }
    | .publish roundtrip answers =>
      let after := publish scene.disk session roundtrip answers
      { scene with disk := after.1, session := some after.2.1 }
    | .withdraw answers =>
      let after := withdraw scene.disk session answers
      { scene with disk := after.1, session := some after.2.1 }
    | .release fault =>
      { scene with
        disk := releaseName scene.disk session.published session.temporaryName fault
        session := none }

end Session

end Yvex.ArtifactPublication
