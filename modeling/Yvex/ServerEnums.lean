import Mathlib.Tactic

/-!
# Enumerations of the server interface

The records of the server hold an enumeration as its code.
-/

set_option autoImplicit false

namespace Yvex.ServerEnums

def code (index : ℕ) : UInt32 := UInt32.ofNat index

inductive EngineKind where
  | none | text | media

inductive ExecutionStrategy where
  | notApplicable | targetOnly | speculative

inductive SessionState where
  | created | ready | running | partially | detached | resetting | closing | closed | failed
deriving DecidableEq

inductive EngineState where
  | unloaded | loading | loaded | draining | unloading | failed

inductive EventKind where
  | processStart | telemetryReady | artifactOpenStart | artifactOpenComplete | bindingAdmitted
  | materializationStart | materializationComplete | residencyReady | runtimeReady | listenerReady
  | sessionCreated | sessionAttached | sessionDetached | sessionReset | sessionClosed
  | requestReceived | requestQueued | requestStarted | tokenizerCompleted | prefillStarted
  | prefillProgress | prefillCompleted | draftStarted | draftCompleted | verificationStarted
  | verificationCompleted | prefixAccepted | candidateRejected | speculativeCycleCommitted
  | generationFirstToken | generationFragment | generationProgress | generationProfile
  | generationCompleted | generationCancelled | generationFailed | clientDisconnected
  | telemetryDropped | runtimeShutdownStart | runtimeShutdownComplete | engineLoadRequested
  | engineReady | engineLoadFailed | engineUnloadStarted | engineUnloaded | engineUnloadFailed
  | engineLoadProgress

inductive EventSeverity where
  | debug | info | warning | error | fatal

end Yvex.ServerEnums
