import CilBackend.Code.Instruction
import CilBackend.Fault.Violation

/-!
# Stack gauge

Follows the depth of the evaluation stack through straight-line code and stops at the first
instruction that takes more values than there are. Depths are numbers of 64 bits with a sign; the
gauge also stops at an instruction that takes the depth beyond them.
-/

namespace CilBackend

/-- The depth reached so far and the greatest depth on the way. -/
structure StackGauge where
  depth : Int64
  greatest : Int64
deriving DecidableEq

/-- Why a gauge stops: the code breaks a rule, or the next depth does not fit. -/
inductive GaugeError where
  | violation (cause : Violation)
  | overflow
deriving DecidableEq

namespace StackGauge

def startingAt (depth : Int64) : StackGauge :=
  ⟨depth, depth⟩

/-- An instruction that underflows is reported with its position and leaves the gauge as it was. -/
def step (returnsValue : Bool) (position : Nat) (i : Instruction) :
    EStateM GaugeError StackGauge Unit
  | g =>
    let effect := i.stackEffect returnsValue
    if g.depth.toInt < effect.pops then
      .error (.violation (.stackUnderflow i.opcode position g.depth.toInt effect.pops)) g
    else
      match changeChecked g.depth effect.net with
      | some depth => .ok () ⟨depth, max g.greatest depth⟩
      | none => .error .overflow g

def runFrom (returnsValue : Bool) : Nat → List Instruction → EStateM GaugeError StackGauge Unit
  | _, [] => pure ()
  | position, i :: rest => do
    step returnsValue position i
    runFrom returnsValue (position + 1) rest

/-- Steps through the code, counting positions from zero. -/
def run (returnsValue : Bool) (code : List Instruction) : EStateM GaugeError StackGauge Unit :=
  runFrom returnsValue 0 code

def checkFinal (g : StackGauge) (expected : Int) : Except Violation Unit :=
  if g.depth.toInt = expected then .ok () else .error (.stackImbalance expected g.depth.toInt)

end StackGauge

end CilBackend
