import Yvex.WireCodecs

/-!
# Execution records of the local protocol

Execution measurements with the conditions the server puts on them. An
enumeration is held as its code.
-/

set_option autoImplicit false

namespace Yvex.ExecutionRecords
open WireCodecs

inductive MeasurementScope where
  | unavailable | queue | tokenizer | promptRendering | prefill | firstDecode
  | subsequentDecode | modelForward | attention | modelComponent | output
  | logitsPublication | sampling | stateCommit | synchronization | detokenization
  | clientPublication | modelLifecycle | totalOperation | unattributed

inductive MeasurementClock where
  | unavailable | hostWall | device | mixed

inductive MeasurementComposition where
  | unavailable | topLevel | nested | enclosing | overlapping

inductive WorkUnit where
  | none | tokens | bytes | tensors | plans | components | evaluations | frames | samples
  | operations

def MeasurementScope.code (scope : MeasurementScope) : UInt32 := UInt32.ofNat scope.ctorIdx

def MeasurementClock.code (clock : MeasurementClock) : UInt32 := UInt32.ofNat clock.ctorIdx

def MeasurementComposition.code (composition : MeasurementComposition) : UInt32 :=
  UInt32.ofNat composition.ctorIdx

def WorkUnit.code (unit : WorkUnit) : UInt32 := UInt32.ofNat unit.ctorIdx

structure ExecutionMeasurement where
  schemaVersion : UInt32
  scope : UInt32
  clock : UInt32
  composition : UInt32
  workUnit : UInt32
  available : UInt64
  completedUnits : UInt64
  totalUnits : UInt64
  durationNs : UInt64
  rollingUnits : UInt64
  rollingDurationNs : UInt64
  rollingWindowUnits : UInt64
  cumulativeRate : Double
  rollingRate : Double
  deriving DecidableEq

def ExecutionMeasurement.zero : ExecutionMeasurement := ⟨0, 0, 0, 0, 0, 0, 0, 0, 0, 0, 0, 0, 0, 0⟩

def measurementDurationAvailable : UInt64 := 1
def measurementDenominatorAvailable : UInt64 := 2
def measurementCumulativeRateAvailable : UInt64 := 4
def measurementRollingRateAvailable : UInt64 := 8

def has (available bit : UInt64) : Bool := available &&& bit != 0

def measurementEnumerationsValid (value : ExecutionMeasurement) : Bool :=
  value.schemaVersion == 1 && value.scope != MeasurementScope.unavailable.code &&
    decide (value.scope ≤ MeasurementScope.unattributed.code) &&
    decide (value.clock ≤ MeasurementClock.mixed.code) &&
    value.composition != MeasurementComposition.unavailable.code &&
    decide (value.composition ≤ MeasurementComposition.overlapping.code) &&
    decide (value.workUnit ≤ WorkUnit.operations.code) &&
    value.available &&& ~~~(measurementDurationAvailable ||| measurementDenominatorAvailable |||
      measurementCumulativeRateAvailable ||| measurementRollingRateAvailable) == 0 &&
    isFinite value.cumulativeRate && isFinite value.rollingRate

def measurementDurationValid (value : ExecutionMeasurement) : Bool :=
  if has value.available measurementDurationAvailable then
    value.durationNs != 0 && value.clock != MeasurementClock.unavailable.code
  else value.durationNs == 0

def measurementDenominatorValid (value : ExecutionMeasurement) : Bool :=
  if has value.available measurementDenominatorAvailable then
    value.totalUnits != 0 && decide (value.completedUnits ≤ value.totalUnits)
  else value.totalUnits == 0

def measurementCumulativeValid (value : ExecutionMeasurement) : Bool :=
  if has value.available measurementCumulativeRateAvailable then
    value.completedUnits != 0 && value.durationNs != 0 && !doubleLe value.cumulativeRate 0
  else isZero value.cumulativeRate

def measurementRollingValid (value : ExecutionMeasurement) : Bool :=
  if has value.available measurementRollingRateAvailable then
    value.rollingUnits != 0 && value.rollingDurationNs != 0 && value.rollingWindowUnits != 0 &&
      decide (value.rollingUnits ≤ value.rollingWindowUnits) &&
      decide (value.rollingUnits ≤ value.completedUnits) &&
      (!has value.available measurementDurationAvailable ||
        decide (value.rollingDurationNs ≤ value.durationNs)) &&
      !doubleLe value.rollingRate 0
  else
    isZero value.rollingRate && value.rollingUnits == 0 && value.rollingDurationNs == 0 &&
      value.rollingWindowUnits == 0

def measurementWorkValid (value : ExecutionMeasurement) : Bool :=
  !((value.completedUnits != 0 || value.totalUnits != 0 || value.durationNs != 0) &&
      value.workUnit == WorkUnit.none.code) &&
    (!has value.available
        (measurementCumulativeRateAvailable ||| measurementRollingRateAvailable) ||
      value.workUnit != WorkUnit.none.code)

def executionMeasurementValid (value : ExecutionMeasurement) : Bool :=
  if value.schemaVersion == 0 then value == ExecutionMeasurement.zero
  else
    measurementEnumerationsValid value && measurementDurationValid value &&
      measurementDenominatorValid value && measurementCumulativeValid value &&
      measurementRollingValid value && measurementWorkValid value

end Yvex.ExecutionRecords
