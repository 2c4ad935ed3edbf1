import CilBackend.Body.Listing
import CilBackend.Proofs.BodyInvariant
import CilBackend.Proofs.ControlFlow

/-!
# Branch targets in listings

A listing shows a branch target by the offset of the instruction that the label is bound to. Where
offsets increase, the name of a target stands in front of one line only, that of the instruction to
which the branch leads.
-/

namespace CilBackend

/-! ## Hexadecimal numerals -/

namespace Text

def hexDigitValue (c : Char) : Nat :=
  if c.isDigit then c.toNat - '0'.toNat else c.toNat - 'a'.toNat + 10

/-- Reads a numeral. -/
def hexValue (digits : List Char) : Nat :=
  digits.foldl (fun value c => 16 * value + hexDigitValue c) 0

lemma hexDigits_eq (n : Nat) :
    hexDigits n = if n < 16 then [n.digitChar] else hexDigits (n / 16) ++ [(n % 16).digitChar] :=
  Nat.toDigits_eq_if (by decide)

lemma hexDigitValue_digitChar {n : Nat} (h : n < 16) : hexDigitValue n.digitChar = n := by
  revert n
  decide

lemma hexValue_hexDigits (n : Nat) : hexValue (hexDigits n) = n := by
  induction n using Nat.strong_induction_on with
  | _ n ih =>
    rw [hexDigits_eq]
    split_ifs with hn
    · have hdigit := hexDigitValue_digitChar hn
      simp [hexValue, hdigit]
    · have hfront := ih (n / 16) (by omega)
      have hdigit := hexDigitValue_digitChar (n := n % 16) (by omega)
      unfold hexValue at hfront ⊢
      rw [List.foldl_append, hfront, List.foldl_cons, hdigit, List.foldl_nil]
      omega

lemma hexValue_zeros (count : Nat) (digits : List Char) :
    hexValue (List.replicate count '0' ++ digits) = hexValue digits := by
  induction count with
  | zero => rfl
  | succ count ih =>
    rw [List.replicate_succ, List.cons_append, ← ih]
    rfl

/-- Filling with zeros never makes two numerals equal, whatever their lengths. -/
lemma hexPadded_injective (width : Nat) : Function.Injective (hexPadded width) := by
  intro m n h
  have hdigits := congrArg (fun text => hexValue text.toList) h
  simpa [hexPadded, hexValue_zeros, hexValue_hexDigits] using hdigits

lemma digitChar_ne_colon {n : Nat} (h : n < 16) : n.digitChar ≠ ':' := by
  revert n
  decide

lemma colon_notMem_hexDigits (n : Nat) : ':' ∉ hexDigits n := by
  induction n using Nat.strong_induction_on with
  | _ n ih =>
    rw [hexDigits_eq]
    split_ifs with hn
    · rw [List.mem_singleton]
      exact (digitChar_ne_colon hn).symm
    · rw [List.mem_append, List.mem_singleton, not_or]
      exact ⟨ih (n / 16) (by omega), (digitChar_ne_colon (by omega)).symm⟩

end Text

lemma offsetText_injective : Function.Injective offsetText := by
  intro m n h
  unfold offsetText at h
  exact UInt32.toNat_inj.mp (Text.hexPadded_injective 4 ((String.append_right_inj _).mp h))

lemma colon_notMem_offsetText (offset : UInt32) : ':' ∉ (offsetText offset).toList := by
  have hdigits := Text.colon_notMem_hexDigits offset.toNat
  simp [offsetText, Text.hexPadded, hdigits]

/-! ## Lines -/

/-- What stands in front of the first colon of a line. -/
def lineName (line : String) : String :=
  String.ofList (line.toList.takeWhile (· ≠ ':'))

lemma lineName_offsetText (offset : UInt32) (rest : String) :
    lineName (offsetText offset ++ (": " ++ rest)) = offsetText offset := by
  have hdigits : ∀ c ∈ (offsetText offset).toList, decide (c ≠ ':') = true := by
    intro c hc
    rw [decide_eq_true_iff]
    rintro rfl
    exact colon_notMem_offsetText offset hc
  have hcolon : (": " ++ rest).toList = ':' :: ' ' :: rest.toList := by
    rw [String.toList_append]
    rfl
  unfold lineName
  rw [String.toList_append, List.takeWhile_append_of_pos hdigits, hcolon,
    List.takeWhile_cons_of_neg (by decide), List.append_nil, String.ofList_toList]

namespace MethodBody

/-- A label by the offset of the instruction that it is bound to, and by its own name where it is
bound nowhere. -/
def shownTarget (b : MethodBody) (l : Label) : String :=
  match b.labelOffset? l with
  | some offset => "IL_" ++ Text.hexPadded 4 offset.toNat
  | none => "L" ++ toString l.index

/-- What is shown of an operand behind the opcode. -/
def shownOperand (b : MethodBody) : Operand → String
  | .none => ""
  | .label l => " " ++ b.shownTarget l
  | .labelTable ls => " (" ++ ", ".intercalate (ls.map b.shownTarget) ++ ")"
  | operand => " " ++ operand.text

/-- One line for each instruction. -/
def shownCode (b : MethodBody) : List String :=
  b.instructions.map fun i =>
    "IL_" ++ Text.hexPadded 4 i.offset.toNat ++ ": " ++ i.opcode.mnemonic ++
      b.shownOperand i.operand

variable {b : MethodBody}

/-- Of the bindings of a label the first and the last are the same one. -/
lemma lastLabelOffset?_eq (hlabels : (boundLabels b.instructions).Nodup) (l : Label) :
    b.lastLabelOffset? l = b.labelOffset? l := by
  unfold lastLabelOffset?
  cases hlast : (b.instructions.filter fun i => i.label == some l).getLast? with
  | none =>
    rw [List.getLast?_eq_none_iff, List.filter_eq_nil_iff] at hlast
    unfold labelOffset?
    rw [List.find?_eq_none.mpr hlast]
  | some i =>
    obtain ⟨hi, hl⟩ := List.mem_filter.mp (List.mem_of_getLast? hlast)
    exact (labelOffset?_eq hlabels hi (by simpa using hl)).symm

lemma targetText_eq (hlabels : (boundLabels b.instructions).Nodup) (l : Label) :
    b.targetText l = b.shownTarget l := by
  unfold targetText shownTarget
  rw [lastLabelOffset?_eq hlabels]
  rfl

lemma instructionLine_eq (hlabels : (boundLabels b.instructions).Nodup) (i : Instruction) :
    b.instructionLine i = "IL_" ++ Text.hexPadded 4 i.offset.toNat ++ ": " ++ i.opcode.mnemonic ++
      b.shownOperand i.operand := by
  have htarget : b.targetText = b.shownTarget := funext (targetText_eq hlabels)
  unfold instructionLine offsetText
  cases i.operand with
  | none => simp [operandText?, Operand.text?, Instruction.codeText, shownOperand]
  | label l => simp [operandText?, Instruction.codeText, shownOperand, htarget, String.append_assoc]
  | labelTable ls =>
    have hopen : " (" = " " ++ "(" := rfl
    simp only [operandText?, Instruction.codeText, shownOperand, htarget, Operand.tableText,
      String.append_assoc]
    rw [hopen, String.append_assoc]
  | _ => simp [operandText?, Operand.text?, Instruction.codeText, shownOperand, String.append_assoc]

/-- The name in front of a line of code is that of the offset. -/
lemma getElem?_shownCode {k : Nat} {line : String} (h : b.shownCode[k]? = some line) :
    ∃ i, b.instructions[k]? = some i ∧ lineName line = offsetText i.offset := by
  unfold shownCode at h
  rw [List.getElem?_map, Option.map_eq_some_iff] at h
  obtain ⟨i, hi, rfl⟩ := h
  refine ⟨i, hi, ?_⟩
  rw [String.append_assoc, String.append_assoc]
  exact lineName_offsetText i.offset _

/-- Where offsets increase, each of them is that of one instruction. -/
lemma place_unique_of_offset
    (hoffsets : (b.instructions.map Instruction.offset).Pairwise (· < ·)) {k k' : Nat}
    {i i' : Instruction} (hi : b.instructions[k]? = some i) (hi' : b.instructions[k']? = some i')
    (heq : i.offset = i'.offset) : k = k' := by
  have hnodup : (b.instructions.map Instruction.offset).Nodup := hoffsets.imp UInt32.ne_of_lt
  have hk : k < (b.instructions.map Instruction.offset).length := by
    rw [List.length_map]
    exact (List.getElem?_eq_some_iff.mp hi).1
  rw [← List.getElem?_inj hk hnodup]
  rw [List.getElem?_map, List.getElem?_map, hi, hi', Option.map_some, Option.map_some, heq]

lemma boundAt_of_labelOffset? {l : Label} {offset : UInt32} (h : b.labelOffset? l = some offset) :
    ∃ (k : Nat) (i : Instruction), b.instructions[k]? = some i ∧ i.label = some l ∧
      i.offset = offset := by
  unfold labelOffset? at h
  rw [Option.map_eq_some_iff] at h
  obtain ⟨i, hfind, hoffset⟩ := h
  obtain ⟨k, hk⟩ := List.mem_iff_getElem?.mp (List.mem_of_find?_eq_some hfind)
  exact ⟨k, i, hk, by simpa using List.find?_some hfind, hoffset⟩

/-- In a body that binds no label twice the listing shows every target by the offset of the
instruction that its label is bound to. If offsets increase, the name that is shown stands in front
of the line of this instruction and of no other one. -/
theorem listing_shows_labelOffset (b : MethodBody)
    (hlabels : (boundLabels b.instructions).Nodup) :
    b.listing = String.join ((((".maxstack " ++ toString b.maxStack) :: localLines b.locals) ++
        b.shownCode ++ b.handlers.map Handler.text).map (· ++ "\n")) ∧
      ((b.instructions.map Instruction.offset).Pairwise (· < ·) →
        ∀ l offset, b.labelOffset? l = some offset →
          ∃ k, BoundAt b.instructions l k ∧
            ∀ k' line, b.shownCode[k']? = some line →
              (lineName line = b.shownTarget l ↔ k' = k)) := by
  constructor
  · have hcode : b.shownCode = b.instructions.map b.instructionLine := by
      unfold shownCode
      exact List.map_congr_left fun i _ => (instructionLine_eq hlabels i).symm
    rw [hcode]
    rfl
  · intro hoffsets l offset hoffset
    obtain ⟨k, i, hi, hl, rfl⟩ := boundAt_of_labelOffset? hoffset
    have htarget : b.shownTarget l = offsetText i.offset := by
      unfold shownTarget
      rw [hoffset]
      rfl
    refine ⟨k, ⟨i, hi, hl⟩, ?_⟩
    intro k' line hline
    obtain ⟨i', hi', hname⟩ := getElem?_shownCode hline
    rw [hname, htarget, offsetText_injective.eq_iff]
    constructor
    · exact place_unique_of_offset hoffsets hi' hi
    · rintro rfl
      rw [hi', Option.some.injEq] at hi
      rw [hi]

/-- A body with a jump table behind the reach of four digits. -/
def farJumps : MethodBody where
  instructions := [
    { opcode := .switch, operand := .labelTable [⟨0⟩, ⟨9⟩, ⟨1⟩] },
    { opcode := .nop, label := some ⟨1⟩, offset := 0x1000 },
    { opcode := .br, operand := .label ⟨1⟩, label := some ⟨0⟩, offset := 0x10000 }]

theorem farJumps_shows_labelOffset :
    (boundLabels farJumps.instructions).Nodup ∧
      farJumps.listing = ".maxstack 0\nIL_0000: switch (IL_10000, L9, IL_1000)\n" ++
        "IL_1000: nop\nIL_10000: br IL_1000\n" ∧
      (farJumps.instructions.map Instruction.offset).Pairwise (· < ·) ∧
      farJumps.labelOffset? ⟨1⟩ = some 0x1000 ∧
      ∃ k, BoundAt farJumps.instructions ⟨1⟩ k ∧
        ∀ k' line, farJumps.shownCode[k']? = some line → (lineName line = "IL_1000" ↔ k' = k) := by
  have hlabels : (boundLabels farJumps.instructions).Nodup := by decide
  have hoffsets : (farJumps.instructions.map Instruction.offset).Pairwise (· < ·) := by decide
  obtain ⟨hlisting, htargets⟩ := listing_shows_labelOffset farJumps hlabels
  refine ⟨hlabels, ?_, hoffsets, rfl, htargets hoffsets ⟨1⟩ 0x1000 rfl⟩
  rw [hlisting]
  decide

end MethodBody

end CilBackend
