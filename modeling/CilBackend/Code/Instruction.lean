import CilBackend.Code.Checked
import CilBackend.Code.StackEffect

/-!
# Instructions

An instruction is an opcode with its operand, the label bound to its place, if any, and its
offset once it has been placed. `LabelSupply` hands out labels that the code does not use yet.
Labels and offsets are numbers of 32 bits; a label or an offset beyond them does not exist.
-/

namespace CilBackend

structure Instruction where
  opcode : Opcode
  operand : Operand := .none
  label : Option Label := none
  offset : UInt32 := 0
deriving DecidableEq

namespace Instruction

def size (i : Instruction) : Nat :=
  i.opcode.size + i.operand.size

def stackEffect (i : Instruction) (returnsValue : Bool) : StackEffect :=
  i.opcode.stackEffect i.operand returnsValue

/-- The labels that an instruction binds or refers to. -/
def mentionedLabels (i : Instruction) : List Label :=
  i.label.toList ++ i.operand.labels

/-- An opcode followed by the text of its operand, if it has one. -/
def codeText (opcode : Opcode) : Option String → String
  | some operand => opcode.mnemonic ++ " " ++ operand
  | none => opcode.mnemonic

def text (i : Instruction) : String :=
  let code := codeText i.opcode i.operand.text?
  match i.label with
  | some l => l.text ++ ": " ++ code
  | none => code

end Instruction

/-- The size of a piece of code in bytes. -/
def codeSize : List Instruction → Nat
  | [] => 0
  | i :: rest => i.size + codeSize rest

/-- Gives every instruction its offset, the first one standing at `start`. -/
def placeFrom (start : UInt32) : List Instruction → List Instruction
  | [] => []
  | i :: rest => { i with offset := start } :: placeFrom (start + .ofNat i.size) rest

/-- The offset behind the code when it starts at `start`, if all its offsets exist. -/
def offsetBehind (start : UInt32) : List Instruction → Option UInt32
  | [] => some start
  | i :: rest => do
    let next ← addChecked start i.size
    offsetBehind next rest

theorem offsetBehind_eq_some {code : List Instruction} {start stop : UInt32} :
    offsetBehind start code = some stop ↔ stop.toNat = start.toNat + codeSize code := by
  induction code generalizing start with
  | nil =>
    rw [offsetBehind, codeSize, Nat.add_zero, Option.some.injEq, UInt32.toNat_inj]
    exact eq_comm
  | cons i rest ih =>
    rw [offsetBehind, codeSize, Option.bind_eq_bind, Option.bind_eq_some_iff]
    constructor
    · rintro ⟨next, hnext, hrest⟩
      rw [addChecked_eq_some] at hnext
      rw [ih] at hrest
      omega
    · intro hstop
      have hlt := stop.toNat_lt
      have hnext : (UInt32.ofNat (start.toNat + i.size)).toNat = start.toNat + i.size :=
        UInt32.toNat_ofNat_of_lt' (by change _ < 2 ^ 32; omega)
      exact ⟨_, addChecked_eq_some.mpr hnext, ih.mpr (by omega)⟩

/-- All labels from `next` on are unused. -/
structure LabelSupply where
  next : UInt32
deriving DecidableEq

namespace LabelSupply

/-- Raises the supply, where it has to be raised, above a label. -/
def above (s : LabelSupply) (l : Label) : Option LabelSupply := do
  let next ← addChecked l.index 1
  return ⟨max s.next next⟩

/-- The supply above every label that the code binds or refers to. -/
def continuing (code : List Instruction) : Option LabelSupply :=
  (code.flatMap Instruction.mentionedLabels).foldlM above ⟨0⟩

def fresh (s : LabelSupply) : Option (Label × LabelSupply) := do
  let next ← addChecked s.next 1
  return (⟨s.next⟩, ⟨next⟩)

end LabelSupply

end CilBackend
