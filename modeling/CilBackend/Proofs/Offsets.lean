import CilBackend.Proofs.CompileRuns

/-!
# Offsets of placed code

Placing gives instructions their offsets and changes nothing else. The code of a placement is the
code of its blocks, placed as one piece.
-/

namespace CilBackend

variable {σ : Type}

lemma placeFrom_append (start : UInt32) (a b : List Instruction) :
    placeFrom start (a ++ b) =
      placeFrom start a ++ placeFrom (start + .ofNat (codeSize a)) b := by
  induction a generalizing start with
  | nil =>
    have hzero : start + .ofNat (codeSize []) = start := UInt32.add_zero start
    rw [hzero]
    rfl
  | cons i rest ih =>
    rw [List.cons_append, placeFrom, ih, placeFrom, codeSize, List.cons_append,
      UInt32.ofNat_add, UInt32.add_assoc]

@[simp] lemma length_placeFrom (start : UInt32) (code : List Instruction) :
    (placeFrom start code).length = code.length := by
  induction code generalizing start with
  | nil => rfl
  | cons i rest ih => rw [placeFrom, List.length_cons, List.length_cons, ih]

lemma codeSize_append (a b : List Instruction) : codeSize (a ++ b) = codeSize a + codeSize b := by
  induction a with
  | nil => simp [codeSize]
  | cons i rest ih =>
    rw [List.cons_append, codeSize, codeSize, ih, Nat.add_assoc]

lemma codeSize_take_le (k : Nat) (code : List Instruction) :
    codeSize (code.take k) ≤ codeSize code := by
  have hsplit := codeSize_append (code.take k) (code.drop k)
  rw [List.take_append_drop] at hsplit
  omega

lemma codeSize_placeFrom (start : UInt32) (code : List Instruction) :
    codeSize (placeFrom start code) = codeSize code := by
  induction code generalizing start with
  | nil => rfl
  | cons i rest ih =>
    rw [placeFrom, codeSize, codeSize, ih]
    rfl

lemma length_le_codeSize (code : List Instruction) : code.length ≤ codeSize code := by
  induction code with
  | nil => exact Nat.le_refl 0
  | cons i rest ih =>
    have hopcode : 1 ≤ i.opcode.size := by
      unfold Opcode.size
      split_ifs <;> omega
    rw [List.length_cons, codeSize, Instruction.size]
    omega

/-- The offset behind placed code is the one at which it starts and its size. -/
lemma codeSize?_of_placeFrom {body : MethodBody} {before code : List Instruction}
    {start stop : UInt32} (h : body.instructions = before ++ placeFrom start code)
    (hcode : code ≠ []) (hstop : stop.toNat = start.toNat + codeSize code) :
    body.codeSize? = some stop := by
  rcases List.eq_nil_or_concat code with hnil | ⟨init, i, rfl⟩
  · exact absurd hnil hcode
  · rw [List.concat_eq_append, codeSize_append] at hstop
    have hlt := stop.toNat_lt
    have hlast : codeSize [i] = i.size := rfl
    have hfits : start.toNat + codeSize init < UInt32.size := by
      change _ < 2 ^ 32
      omega
    have hinit := toNat_add_ofNat hfits
    unfold MethodBody.codeSize?
    rw [h, List.concat_eq_append, placeFrom_append, ← List.append_assoc]
    simp only [placeFrom, List.getLast?_concat]
    rw [addChecked_eq_some]
    change stop.toNat = (start + .ofNat (codeSize init)).toNat + i.size
    omega

/-- The instruction without its offset. -/
def Instruction.unplaced (i : Instruction) : Instruction :=
  { i with offset := 0 }

lemma Instruction.eq_of_unplaced_eq {i j : Instruction} (h : i.unplaced = j.unplaced) :
    i.opcode = j.opcode ∧ i.operand = j.operand ∧ i.label = j.label := by
  simpa [Instruction.unplaced] using h

lemma map_unplaced_placeFrom (start : UInt32) (code : List Instruction) :
    (placeFrom start code).map Instruction.unplaced = code.map Instruction.unplaced := by
  induction code generalizing start with
  | nil => rfl
  | cons i rest ih =>
    rw [placeFrom, List.map_cons, List.map_cons, ih]
    rfl

/-- Pieces of code that differ only in offsets have the same instructions everywhere. -/
lemma getElem?_of_unplaced_eq {a b : List Instruction}
    (h : a.map Instruction.unplaced = b.map Instruction.unplaced) {k : Nat} {i : Instruction}
    (hi : a[k]? = some i) :
    ∃ j, b[k]? = some j ∧ j.opcode = i.opcode ∧ j.operand = i.operand ∧ j.label = i.label := by
  have hmap : (b.map Instruction.unplaced)[k]? = some i.unplaced := by
    rw [← h, List.getElem?_map, hi]
    rfl
  rw [List.getElem?_map, Option.map_eq_some_iff] at hmap
  obtain ⟨j, hj, heq⟩ := hmap
  exact ⟨j, hj, Instruction.eq_of_unplaced_eq heq⟩

/-- The code of all blocks, as it was before it got its offsets. -/
def Placement.rawCode (p : Placement) : List Instruction :=
  p.flatMap fun b => b.code.instructions

@[simp] lemma Placement.rawCode_append (a b : Placement) :
    Placement.rawCode (a ++ b) = a.rawCode ++ b.rawCode :=
  List.flatMap_append

@[simp] lemma Placement.rawCode_cons (p : PlacedBlock) (rest : Placement) :
    Placement.rawCode (p :: rest) = p.code.instructions ++ rest.rawCode :=
  rfl

@[simp] lemma Placement.instructions_cons (p : PlacedBlock) (rest : Placement) :
    Placement.instructions (p :: rest) = p.instructions ++ rest.instructions :=
  rfl

@[simp] lemma PlacedBlock.length_instructions (p : PlacedBlock) :
    p.instructions.length = p.code.instructions.length :=
  length_placeFrom _ _

lemma Placement.length_instructions (p : Placement) :
    p.instructions.length = p.rawCode.length := by
  induction p with
  | nil => rfl
  | cons b rest ih =>
    rw [Placement.instructions_cons, Placement.rawCode_cons, List.length_append,
      List.length_append, ih, PlacedBlock.length_instructions]

namespace Scope

variable {scope : Scope σ} {r : Routine} {order : List BlockId} {position : Nat} {start : UInt32}
  {s s' : CodeState σ} {placement : Placement}

lemma place_instructions (h : scope.place r order position start s = .ok placement s') :
    placement.instructions = placeFrom start placement.rawCode := by
  induction order generalizing position start s placement with
  | nil =>
    obtain ⟨rfl, -⟩ := place_nil_eq_ok h
    rfl
  | cons n rest ih =>
    obtain ⟨p, t, following, -, -, rfl, -, hrest, rfl⟩ := place_cons_eq_ok h
    rw [Placement.instructions_cons, ih hrest, Placement.rawCode_cons, placeFrom_append,
      p.stop_eq_add]
    rfl

/-- The offset behind the code of a placement exists. -/
lemma place_codeSize_lt (h : scope.place r order position start s = .ok placement s') :
    start.toNat + codeSize placement.rawCode < UInt32.size := by
  induction order generalizing position start s placement with
  | nil =>
    obtain ⟨rfl, -⟩ := place_nil_eq_ok h
    exact start.toNat_lt
  | cons n rest ih =>
    obtain ⟨p, t, following, -, -, rfl, -, hrest, rfl⟩ := place_cons_eq_ok h
    have hfollowing := ih hrest
    rw [p.stop_eq] at hfollowing
    rw [Placement.rawCode_cons, codeSize_append]
    omega

lemma place_unplaced (h : scope.place r order position start s = .ok placement s')
    (before : List Instruction) :
    (before ++ placement.instructions).map Instruction.unplaced =
      (before ++ placement.rawCode).map Instruction.unplaced := by
  rw [place_instructions h, List.map_append, List.map_append, map_unplaced_placeFrom]

end Scope

end CilBackend
