import CilBackend.Proofs.HandlerRuns
import CilBackend.Proofs.Offsets
import CilBackend.Proofs.StackGauge

/-!
# Relocated code

Code can be moved to another place of a body: its labels and local slots get other numbers and its
offsets grow. Nothing that is measured on the code depends on these numbers, so the size of the
code, its effects on the stack and its peak stay the same. A placed block can be moved as long as
the offset behind it exists at the new place.
-/

namespace CilBackend

/-- How far code is moved: what is added to the numbers of its labels, to its local slots and to its
offsets. -/
structure Shift where
  label : UInt32
  slot : Nat
  offset : UInt32

/-- Code that stays where it is. -/
def Shift.zero : Shift :=
  ⟨0, 0, 0⟩

def Label.shift (d : Shift) (l : Label) : Label :=
  ⟨l.index + d.label⟩

def Operand.shift (d : Shift) : Operand → Operand
  | .label target => .label (target.shift d)
  | .labelTable targets => .labelTable (targets.map (Label.shift d))
  | .slot index => .slot (index + d.slot)
  | operand => operand

/-- The instruction with other labels and slots. Code without offsets is moved by renaming it. -/
def Instruction.rename (d : Shift) (i : Instruction) : Instruction :=
  { i with operand := i.operand.shift d, label := i.label.map (Label.shift d) }

def Instruction.shift (d : Shift) (i : Instruction) : Instruction :=
  { i.rename d with offset := i.offset + d.offset }

def Anchor.shift (d : Shift) (a : Anchor) : Anchor :=
  ⟨a.label.shift d, a.offset + d.offset⟩

def Handler.shift (d : Shift) (h : Handler) : Handler :=
  { h with
    tryStart := h.tryStart.shift d
    tryEnd := h.tryEnd.shift d
    handlerStart := h.handlerStart.shift d
    handlerEnd := h.handlerEnd.shift d
    filterStart := h.filterStart.map (Anchor.shift d) }

def BlockCode.rename (d : Shift) (c : BlockCode) : BlockCode where
  header := c.header.shift d
  statements := c.statements.map (List.map (Instruction.rename d))
  jump := c.jump.map (Instruction.rename d)

/-- The second block is the first one at its new place. -/
structure PlacedBlock.MovesTo (d : Shift) (p q : PlacedBlock) : Prop where
  block : q.block = p.block
  position : q.position = p.position
  start : q.start.toNat = p.start.toNat + d.offset.toNat
  code : q.code = p.code.rename d

def Placement.MovesTo (d : Shift) (placement placement' : Placement) : Prop :=
  List.Forall₂ (PlacedBlock.MovesTo d) placement placement'

variable {d : Shift}

/-- A sum that fits is the wrapped one. -/
lemma eq_add_of_toNat_eq {a b c : UInt32} (h : c.toNat = a.toNat + b.toNat) : c = a + b := by
  have hlt : a.toNat + b.toNat < UInt32.size := h ▸ c.toNat_lt
  have hsum := toNat_add_ofNat hlt
  rw [UInt32.ofNat_toNat] at hsum
  rw [← UInt32.toNat_inj, h, hsum]

/-! ## Labels and operands -/

lemma Label.shift_inj {l m : Label} : l.shift d = m.shift d ↔ l = m := by
  obtain ⟨l⟩ := l
  obtain ⟨m⟩ := m
  simp [Label.shift]

@[simp] lemma Label.shift_zero (l : Label) : l.shift .zero = l :=
  congrArg Label.mk (UInt32.add_zero l.index)

@[simp] lemma Operand.shift_zero (o : Operand) : o.shift .zero = o := by
  have hlabels : Label.shift .zero = id := funext Label.shift_zero
  cases o with
  | label target => rw [Operand.shift, Label.shift_zero]
  | labelTable targets => rw [Operand.shift, hlabels, List.map_id]
  | _ => rfl

@[simp] lemma Instruction.rename_zero (i : Instruction) : i.rename .zero = i := by
  have hlabels : Label.shift .zero = id := funext Label.shift_zero
  rw [Instruction.rename, Operand.shift_zero, hlabels, Option.map_id_fun, id_eq]

lemma BlockCode.rename_zero (c : BlockCode) : c.rename .zero = c := by
  have hrename : Instruction.rename .zero = id := funext Instruction.rename_zero
  unfold BlockCode.rename
  rw [hrename, List.map_id_fun, List.map_id_fun, Option.map_id_fun, Label.shift_zero]
  rfl

@[simp] lemma Operand.labels_shift (o : Operand) :
    (o.shift d).labels = o.labels.map (Label.shift d) := by
  cases o with
  | _ => rfl

@[simp] lemma Operand.size_shift (o : Operand) : (o.shift d).size = o.size := by
  cases o with
  | labelTable targets => simp [Operand.shift, Operand.size]
  | _ => rfl

@[simp] lemma Instruction.size_rename (i : Instruction) : (i.rename d).size = i.size := by
  unfold Instruction.size Instruction.rename
  rw [Operand.size_shift]

@[simp] lemma Instruction.stackEffect_rename (i : Instruction) (returnsValue : Bool) :
    (i.rename d).stackEffect returnsValue = i.stackEffect returnsValue := by
  unfold Instruction.stackEffect Instruction.rename
  dsimp only
  cases i.operand with
  | label target => cases i.opcode <;> rfl
  | labelTable targets => cases i.opcode <;> rfl
  | slot index => cases i.opcode <;> rfl
  | _ => rfl

/-! ## Pieces of code -/

lemma codeSize_rename (code : List Instruction) :
    codeSize (code.map (Instruction.rename d)) = codeSize code := by
  induction code with
  | nil => rfl
  | cons i rest ih => rw [List.map_cons, codeSize, codeSize, ih, Instruction.size_rename]

/-- Renaming code and placing it further on is the same as moving the placed code. -/
lemma placeFrom_rename (start : UInt32) (code : List Instruction) :
    placeFrom (start + d.offset) (code.map (Instruction.rename d)) =
      (placeFrom start code).map (Instruction.shift d) := by
  induction code generalizing start with
  | nil => rfl
  | cons i rest ih =>
    have hnext : start + d.offset + .ofNat i.size = start + .ofNat i.size + d.offset := by
      rw [UInt32.add_assoc, UInt32.add_comm d.offset, ← UInt32.add_assoc]
    rw [List.map_cons, placeFrom, placeFrom, List.map_cons, Instruction.size_rename, hnext, ih]
    rfl

lemma StackGauge.runFrom_rename (returnsValue : Bool) (position : Nat) (code : List Instruction) :
    StackGauge.runFrom returnsValue position (code.map (Instruction.rename d)) =
      StackGauge.runFrom returnsValue position code := by
  induction code generalizing position with
  | nil => rfl
  | cons i rest ih =>
    have hstep : StackGauge.step returnsValue position (i.rename d) =
        StackGauge.step returnsValue position i := by
      funext g
      unfold StackGauge.step
      rw [Instruction.stackEffect_rename]
      rfl
    rw [List.map_cons, StackGauge.runFrom, StackGauge.runFrom, hstep, ih]

namespace StackFlow

/-- What is known in front of a renamed instruction. -/
def rename (d : Shift) (s : StackFlow) : StackFlow :=
  { s with carried := s.carried.map fun x => (x.1.shift d, x.2) }

lemma arriving_rename (s : StackFlow) (label : Option Label) :
    (s.rename d).arriving (label.map (Label.shift d)) = s.arriving label := by
  unfold arriving rename
  rw [List.filterMap_map]
  congr 1
  funext x
  cases label with
  | none => rfl
  | some l => simp [Label.shift_inj]

lemma step_rename (returnsValue : Bool) (s : StackFlow) (i : Instruction) :
    (s.rename d).step returnsValue (i.rename d) = (s.step returnsValue i).rename d := by
  have hdepth : (s.rename d).depthAt (i.rename d) = s.depthAt i := by
    unfold depthAt
    dsimp only [Instruction.rename]
    rw [arriving_rename]
    rfl
  have hlabels : (i.rename d).operand.labels = i.operand.labels.map (Label.shift d) :=
    Operand.labels_shift i.operand
  unfold step
  rw [hdepth, Instruction.stackEffect_rename, hlabels]
  dsimp only [rename]
  rw [List.map_append, List.map_map, List.map_map]
  rfl

lemma foldl_step_rename (returnsValue : Bool) (s : StackFlow) (code : List Instruction) :
    (code.map (Instruction.rename d)).foldl (step returnsValue) (s.rename d) =
      (code.foldl (step returnsValue) s).rename d := by
  induction code generalizing s with
  | nil => rfl
  | cons i rest ih => rw [List.map_cons, List.foldl_cons, List.foldl_cons, step_rename, ih]

end StackFlow

lemma stackPeak_rename (returnsValue : Bool) (code : List Instruction) :
    stackPeak returnsValue (code.map (Instruction.rename d)) = stackPeak returnsValue code := by
  have hstart : StackFlow.start.rename d = StackFlow.start := rfl
  unfold stackPeak
  rw [← hstart, StackFlow.foldl_step_rename]
  rfl

/-! ## Blocks and placements -/

lemma BlockCode.instructions_rename (c : BlockCode) :
    (c.rename d).instructions = c.instructions.map (Instruction.rename d) := by
  have hjump : (c.jump.map (Instruction.rename d)).toList =
      c.jump.toList.map (Instruction.rename d) := by
    cases c.jump with
    | none => rfl
    | some jump => rfl
  unfold BlockCode.instructions BlockCode.rename
  rw [hjump, List.map_append, List.map_cons, List.map_flatten]
  rfl

lemma BlockCode.peak_rename (returnsValue : Bool) (c : BlockCode) :
    (c.rename d).peak returnsValue = c.peak returnsValue := by
  unfold BlockCode.peak BlockCode.rename
  rw [List.foldl_map]
  simp only [stackPeak_rename]

namespace PlacedBlock

variable {p p' q q' : PlacedBlock}

/-- A block is given by its place and its code: where it stops follows from them. -/
lemma eq_of_code (hblock : q.block = p.block) (hposition : q.position = p.position)
    (hstart : q.start = p.start) (hcode : q.code = p.code) : q = p :=
  Option.some.inj ((emit_eq_some.mpr ⟨hblock, hposition, hstart, hcode⟩).symm.trans
    (emit_eq_some.mpr ⟨rfl, rfl, rfl, rfl⟩))

namespace MovesTo

lemma start_eq (h : p.MovesTo d q) : q.start = p.start + d.offset :=
  eq_add_of_toNat_eq h.start

lemma stop (h : p.MovesTo d q) : q.stop.toNat = p.stop.toNat + d.offset.toNat := by
  rw [q.stop_eq, p.stop_eq, h.code, BlockCode.instructions_rename, codeSize_rename, h.start]
  omega

lemma header (h : p.MovesTo d q) : q.header = p.header.shift d := by
  unfold PlacedBlock.header Anchor.shift
  rw [h.code, h.start_eq]
  rfl

lemma instructions (h : p.MovesTo d q) : q.instructions = p.instructions.map (.shift d) := by
  unfold PlacedBlock.instructions
  rw [h.code, BlockCode.instructions_rename, h.start_eq, placeFrom_rename]

lemma start_lt_iff (h : p.MovesTo d q) (h' : p'.MovesTo d q') :
    q.start < q'.start ↔ p.start < p'.start := by
  rw [UInt32.lt_iff_toNat_lt, UInt32.lt_iff_toNat_lt, h.start, h'.start]
  omega

lemma zero (h : p.MovesTo .zero q) : q = p :=
  eq_of_code h.block h.position (h.start_eq.trans (UInt32.add_zero _))
    (h.code.trans p.code.rename_zero)

end MovesTo

end PlacedBlock

namespace Placement.MovesTo

variable {placement placement' : Placement}

lemma zero (h : placement.MovesTo .zero placement') : placement' = placement := by
  unfold Placement.MovesTo at h
  induction h with
  | nil => rfl
  | cons hhead _ ih => rw [hhead.zero, ih]

lemma instructions (h : placement.MovesTo d placement') :
    placement'.instructions = placement.instructions.map (Instruction.shift d) := by
  unfold Placement.MovesTo at h
  induction h with
  | nil => rfl
  | cons hhead _ ih =>
    rw [Placement.instructions_cons, Placement.instructions_cons, List.map_append,
      hhead.instructions, ih]

lemma codeSize_rawCode (h : placement.MovesTo d placement') :
    codeSize placement'.rawCode = codeSize placement.rawCode := by
  unfold Placement.MovesTo at h
  induction h with
  | nil => rfl
  | cons hhead _ ih =>
    rw [Placement.rawCode_cons, Placement.rawCode_cons, codeSize_append, codeSize_append,
      hhead.code, BlockCode.instructions_rename, codeSize_rename, ih]

lemma peak (h : placement.MovesTo d placement') (returnsValue : Bool) :
    placement'.peak returnsValue = placement.peak returnsValue := by
  unfold Placement.peak
  generalize 0 = least
  unfold Placement.MovesTo at h
  induction h generalizing least with
  | nil => rfl
  | cons hhead _ ih =>
    rw [List.foldl_cons, List.foldl_cons, hhead.code, BlockCode.peak_rename, ih]

lemma get?_eq_some (h : placement.MovesTo d placement') {n : BlockId} {p : PlacedBlock}
    (hp : placement.get? n = some p) : ∃ q, placement'.get? n = some q ∧ p.MovesTo d q := by
  unfold Placement.MovesTo at h
  unfold Placement.get? at hp ⊢
  induction h with
  | nil => cases hp
  | @cons b b' _ _ hhead _ ih =>
    rw [List.find?_cons] at hp ⊢
    rw [hhead.block]
    cases hfound : decide (b.block = n) with
    | true =>
      rw [hfound] at hp
      cases hp
      exact ⟨b', rfl, hhead⟩
    | false =>
      rw [hfound] at hp
      exact ih hp

lemma getElem?_eq_some (h : placement.MovesTo d placement') {k : Nat} {p : PlacedBlock}
    (hp : placement[k]? = some p) : ∃ q, placement'[k]? = some q ∧ p.MovesTo d q := by
  unfold Placement.MovesTo at h
  induction h generalizing k with
  | nil => simp at hp
  | cons hhead _ ih =>
    cases k with
    | zero =>
      cases hp
      exact ⟨_, rfl, hhead⟩
    | succ k => exact ih hp

lemma after?_eq_some (h : placement.MovesTo d placement') {n : BlockId} {p : PlacedBlock}
    (hp : placement.after? n = some p) : ∃ q, placement'.after? n = some q ∧ p.MovesTo d q := by
  obtain ⟨b, hb, hnext⟩ := Placement.after?_eq_some.mp hp
  obtain ⟨b', hb', hmoved⟩ := h.get?_eq_some hb
  obtain ⟨q, hq, hpq⟩ := h.getElem?_eq_some hnext
  exact ⟨q, Placement.after?_eq_some.mpr ⟨b', hb', hmoved.position ▸ hq⟩, hpq⟩

end Placement.MovesTo

end CilBackend
