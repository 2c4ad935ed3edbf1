import CilBackend.Body.MethodBody

/-!
# Listings

The textual form of a method body: stack size, locals, one line for each instruction and one for
each handler. Branch targets are shown by the offset of the instruction they lead to.
-/

namespace CilBackend.MethodBody

/-- The offset that the listing shows for a label: of several bindings the last one counts. -/
def lastLabelOffset? (b : MethodBody) (l : Label) : Option UInt32 :=
  ((b.instructions.filter fun i => i.label == some l).getLast?).map Instruction.offset

/-- A label that is bound nowhere keeps its own name. -/
def targetText (b : MethodBody) (l : Label) : String :=
  match b.lastLabelOffset? l with
  | some offset => offsetText offset
  | none => l.text

def operandText? (b : MethodBody) : Operand → Option String
  | .label l => some (b.targetText l)
  | .labelTable ls => some (Operand.tableText (ls.map b.targetText))
  | operand => operand.text?

def instructionLine (b : MethodBody) (i : Instruction) : String :=
  offsetText i.offset ++ ": " ++ Instruction.codeText i.opcode (b.operandText? i.operand)

def localLine (slot : Nat) (v : Variable) : String :=
  "    [" ++ toString slot ++ "] " ++ v.signature.text ++ " " ++ v.name

def localLines (t : LocalTable) : List String :=
  if t.entries.isEmpty then []
  else ".locals init (" :: t.entries.toList.mapIdx localLine ++ [")"]

def listingLines (b : MethodBody) : List String :=
  (".maxstack " ++ toString b.maxStack) :: localLines b.locals ++
    b.instructions.map b.instructionLine ++ b.handlers.map Handler.text

/-- Every line ends with a line feed. -/
def listing (b : MethodBody) : String :=
  String.join (b.listingLines.map (· ++ "\n"))

end CilBackend.MethodBody
