import CilBackend.Proofs.ControlFlow
import CilBackend.Proofs.StackPeak
import Mathlib.Logic.Relation

/-!
# Stack safety of compiled routines

Along every way that control can take through compiled code, no instruction takes more values than
there are, every block is entered with the empty stack, and the depth stays within the greatest
stack depth of the body.
-/

namespace CilBackend

variable {σ : Type}

/-- One step of control, with the place of the instruction and the depth of the stack. -/
inductive DepthStep (returnsValue : Bool) (code : List Instruction) :
    Nat × Nat → Nat × Nat → Prop where
  | next {k d : Nat} {i : Instruction} (hi : code[k]? = some i)
      (hflow : i.opcode.endsFlow = false) :
      DepthStep returnsValue code (k, d) (k + 1, i.depthBehind returnsValue d)
  | jump {k d target : Nat} {i : Instruction} {l : Label} (hi : code[k]? = some i)
      (hl : l ∈ i.operand.labels) (hbound : BoundAt code l target) :
      DepthStep returnsValue code (k, d) (target, i.depthAtTarget returnsValue d)

/-! ## Pieces of code -/

/-- The code of a block, cut at the places where the stack is empty. -/
def BlockCode.pieces (c : BlockCode) : List (List Instruction) :=
  [Instruction.header c.header] :: c.statements ++ c.jump.toList.map fun i => [i]

lemma BlockCode.flatten_pieces (c : BlockCode) : c.pieces.flatten = c.instructions := by
  unfold BlockCode.pieces BlockCode.instructions
  cases c.jump with
  | none => simp
  | some i => simp

def Placement.pieces (p : Placement) : List (List Instruction) :=
  p.flatMap fun b => b.code.pieces

@[simp] lemma Placement.pieces_append (a b : Placement) :
    Placement.pieces (a ++ b) = a.pieces ++ b.pieces :=
  List.flatMap_append

lemma Placement.flatten_pieces (p : Placement) : p.pieces.flatten = p.rawCode := by
  induction p with
  | nil => rfl
  | cons b rest ih =>
    have hcons : Placement.pieces (b :: rest) = b.code.pieces ++ Placement.pieces rest := rfl
    rw [hcons, List.flatten_append, ih, BlockCode.flatten_pieces, Placement.rawCode_cons]

lemma getElem?_of_piece {old : List Instruction} {placement : Placement}
    {left right : List (List Instruction)} {piece : List Instruction} {j : Nat}
    (hsplit : placement.pieces = left ++ piece :: right) (hj : j < piece.length) :
    (old ++ placement.rawCode)[old.length + left.flatten.length + j]? = piece[j]? := by
  rw [← Placement.flatten_pieces, hsplit, List.flatten_append, List.flatten_cons,
    ← List.append_assoc, ← List.length_append, List.getElem?_append_right (Nat.le_add_right _ _),
    Nat.add_sub_cancel_left, List.getElem?_append_left hj]

/-- A place in the joined code lies in one piece only. -/
lemma flatten_place_unique {α : Type} {left left' right right' : List (List α)}
    {piece piece' : List α} {j j' : Nat} (h : left ++ piece :: right = left' ++ piece' :: right')
    (hj : j < piece.length) (hj' : j' < piece'.length)
    (hplace : left.flatten.length + j = left'.flatten.length + j') : j = j' := by
  induction left generalizing left' with
  | nil =>
    cases left' with
    | nil =>
      simp only [List.flatten_nil, List.length_nil] at hplace
      omega
    | cons first rest =>
      obtain ⟨rfl, -⟩ := List.cons.inj h
      simp only [List.flatten_nil, List.length_nil, List.flatten_cons, List.length_append] at hplace
      omega
  | cons first rest ih =>
    cases left' with
    | nil =>
      obtain ⟨rfl, -⟩ := List.cons.inj h
      simp only [List.flatten_nil, List.length_nil, List.flatten_cons, List.length_append] at hplace
      omega
    | cons first' rest' =>
      obtain ⟨rfl, hrest⟩ := List.cons.inj h
      simp only [List.flatten_cons, List.length_append] at hplace
      exact ih hrest (by omega)

/-! ## Ways through placed code -/

/-- Control is inside one of the pieces that stand behind `base` other instructions, or has come to
their end with the empty stack. -/
def Located (returnsValue : Bool) (outer : Label → Prop) (base : Nat)
    (pieces : List (List Instruction)) (k d : Nat) : Prop :=
  (∃ left piece right j, pieces = left ++ piece :: right ∧ k = base + left.flatten.length + j ∧
    j < piece.length ∧ Inside returnsValue outer piece j d) ∨
  (k = base + pieces.flatten.length ∧ d = 0)

section Ways

variable {returnsValue : Bool} {outer : Label → Prop} {base : Nat}
  {pieces : List (List Instruction)}

/-- Between two pieces the stack is empty. -/
lemma located_between (base : Nat) (hfits : ∀ piece ∈ pieces, Fits returnsValue outer 0 piece 0)
    (left right : List (List Instruction)) (hsplit : pieces = left ++ right) :
    Located returnsValue outer base pieces (base + left.flatten.length) 0 := by
  induction right generalizing left with
  | nil =>
    rw [List.append_nil] at hsplit
    exact Or.inr ⟨by rw [hsplit], rfl⟩
  | cons piece rest ih =>
    cases hpiece : piece with
    | nil =>
      have hnext := ih (left ++ [piece]) (by simp [hsplit])
      simpa [hpiece] using hnext
    | cons i code =>
      have hmem : piece ∈ pieces := by
        rw [hsplit]
        simp
      refine Or.inl ⟨left, piece, rest, 0, hsplit, rfl, ?_, Inside.start (hfits piece hmem)⟩
      rw [hpiece]
      exact Nat.succ_pos _

/-- Behind the last instruction of a piece the stack is empty. -/
lemma located_next (hfits : ∀ piece ∈ pieces, Fits returnsValue outer 0 piece 0)
    {left right : List (List Instruction)} {piece : List Instruction} {j d : Nat} {i : Instruction}
    (hsplit : pieces = left ++ piece :: right) (hinside : Inside returnsValue outer piece j d)
    (hi : piece[j]? = some i) (hflow : i.opcode.endsFlow = false) :
    Located returnsValue outer base pieces (base + left.flatten.length + j + 1)
      (i.depthBehind returnsValue d) := by
  have hj : j < piece.length := (List.getElem?_eq_some_iff.mp hi).1
  have hnext := hinside.next hi hflow
  by_cases hlast : j + 1 < piece.length
  · exact Or.inl ⟨left, piece, right, j + 1, hsplit, rfl, hlast, hnext⟩
  · have hzero : i.depthBehind returnsValue d = 0 := by
      have hrest := hnext.fits
      rw [List.drop_eq_nil_of_le (by omega)] at hrest
      have hcast : (i.depthBehind returnsValue d : Int) = 0 := hrest
      omega
    have hplace : base + left.flatten.length + j + 1 = base + (left ++ [piece]).flatten.length := by
      simp
      omega
    rw [hzero, hplace]
    exact located_between base hfits (left ++ [piece]) right (by simp [hsplit])

variable {old : List Instruction} {headers : Headers} {placement : Placement}

/-- A jump goes to the header of a block or to a place further down in its own piece. -/
lemma located_jump (hfresh : FreshlyLabelled old headers placement)
    (hfits : ∀ piece ∈ placement.pieces, Fits returnsValue headers.Names 0 piece 0)
    {left right : List (List Instruction)} {piece : List Instruction} {j d target : Nat}
    {i : Instruction} {l : Label} (hsplit : placement.pieces = left ++ piece :: right)
    (hinside : Inside returnsValue headers.Names piece j d) (hi : piece[j]? = some i)
    (hl : l ∈ i.operand.labels) (hbound : BoundAt (old ++ placement.rawCode) l target) :
    Located returnsValue headers.Names old.length placement.pieces target
      (i.depthAtTarget returnsValue d) := by
  obtain ⟨i', hi', hlabel⟩ := hbound
  rcases hinside.jump hi hl with ⟨⟨m, hm⟩, hzero⟩ | ⟨j', -, ⟨i'', hi'', hlabel'⟩, hthere⟩
  · obtain ⟨before, q, after, hplacement, -, rfl⟩ := hfresh.header_position hm hi' hlabel
    rw [hzero, ← Placement.flatten_pieces]
    apply located_between old.length hfits before.pieces (Placement.pieces (q :: after))
    rw [hplacement, Placement.pieces_append]
  · have hj' : j' < piece.length := (List.getElem?_eq_some_iff.mp hi'').1
    have hplace : (old ++ placement.rawCode)[old.length + left.flatten.length + j']? =
        some i'' := by
      rw [getElem?_of_piece hsplit hj', hi'']
    have hmem : l ∈ boundLabels placement.rawCode := by
      have hraw := hplace
      rw [List.getElem?_append_right (by omega)] at hraw
      exact mem_boundLabels_of_getElem? hraw hlabel'
    have hsame := hfresh.position_unique (hfresh.first_le hmem) hi' hplace hlabel hlabel'
    exact Or.inl ⟨left, piece, right, j', hsplit, hsame, hj', hthere⟩

lemma not_getElem?_of_end {k : Nat} {i : Instruction}
    (hk : k = old.length + placement.pieces.flatten.length) :
    (old ++ placement.rawCode)[k]? ≠ some i := by
  rw [hk, Placement.flatten_pieces, ← List.length_append, List.getElem?_length]
  exact (Option.some_ne_none i).symm

lemma Located.step (hfresh : FreshlyLabelled old headers placement)
    (hfits : ∀ piece ∈ placement.pieces, Fits returnsValue headers.Names 0 piece 0)
    {k d k' d' : Nat} (h : Located returnsValue headers.Names old.length placement.pieces k d)
    (hstep : DepthStep returnsValue (old ++ placement.rawCode) (k, d) (k', d')) :
    Located returnsValue headers.Names old.length placement.pieces k' d' := by
  rcases h with ⟨left, piece, right, j, hsplit, rfl, hj, hinside⟩ | ⟨hend, -⟩
  · cases hstep with
    | next hi hflow =>
      rw [getElem?_of_piece hsplit hj] at hi
      exact located_next hfits hsplit hinside hi hflow
    | jump hi hl hbound =>
      rw [getElem?_of_piece hsplit hj] at hi
      exact located_jump hfresh hfits hsplit hinside hi hl hbound
  · cases hstep with
    | next hi _ => exact absurd hi (not_getElem?_of_end hend)
    | jump hi _ _ => exact absurd hi (not_getElem?_of_end hend)

lemma Located.run (hfresh : FreshlyLabelled old headers placement)
    (hfits : ∀ piece ∈ placement.pieces, Fits returnsValue headers.Names 0 piece 0)
    {c c' : Nat × Nat}
    (h : Located returnsValue headers.Names old.length placement.pieces c.1 c.2)
    (hrun : Relation.ReflTransGen (DepthStep returnsValue (old ++ placement.rawCode)) c c') :
    Located returnsValue headers.Names old.length placement.pieces c'.1 c'.2 := by
  induction hrun with
  | refl => exact h
  | tail _ hlast ih => exact ih.step hfresh hfits hlast

lemma Located.pops_le {k d : Nat} {i : Instruction}
    (h : Located returnsValue outer old.length placement.pieces k d)
    (hi : (old ++ placement.rawCode)[k]? = some i) : (i.stackEffect returnsValue).pops ≤ d := by
  rcases h with ⟨left, piece, right, j, hsplit, rfl, hj, hinside⟩ | ⟨hend, -⟩
  · rw [getElem?_of_piece hsplit hj] at hi
    have hpops := hinside.pops_le hi
    omega
  · exact absurd hi (not_getElem?_of_end hend)

/-- A block is entered with the empty stack. -/
lemma Located.depth_of_header {k d : Nat} {before after : Placement} {q : PlacedBlock}
    (h : Located returnsValue outer base (Placement.pieces (before ++ q :: after)) k d)
    (hk : k = base + before.rawCode.length) : d = 0 := by
  have hsplit : Placement.pieces (before ++ q :: after) = before.pieces ++
      [Instruction.header q.code.header] ::
        (q.code.statements ++ q.code.jump.toList.map (fun i => [i]) ++ after.pieces) := by
    rw [Placement.pieces_append]
    rfl
  rw [← Placement.flatten_pieces] at hk
  rcases h with ⟨left, piece, right, j, hpieces, hplace, hj, hinside⟩ | ⟨-, hzero⟩
  · have hfirst : j = 0 :=
      flatten_place_unique (hpieces.symm.trans hsplit) hj (Nat.zero_lt_one) (by omega)
    have hle := hinside.le
    omega
  · exact hzero

end Ways

lemma depthStep_of_unplaced_eq {returnsValue : Bool} {a b : List Instruction}
    (h : a.map Instruction.unplaced = b.map Instruction.unplaced) {c c' : Nat × Nat}
    (hstep : DepthStep returnsValue a c c') : DepthStep returnsValue b c c' := by
  have heffect : ∀ i j : Instruction, j.opcode = i.opcode → j.operand = i.operand →
      i.stackEffect returnsValue = j.stackEffect returnsValue := by
    intro i j hopcode hoperand
    unfold Instruction.stackEffect
    rw [hopcode, hoperand]
  cases hstep with
  | next hi hflow =>
    obtain ⟨j, hj, hopcode, hoperand, -⟩ := getElem?_of_unplaced_eq h hi
    unfold Instruction.depthBehind
    rw [heffect _ j hopcode hoperand]
    exact DepthStep.next hj (hopcode ▸ hflow)
  | jump hi hl hbound =>
    obtain ⟨j, hj, hopcode, hoperand, -⟩ := getElem?_of_unplaced_eq h hi
    unfold Instruction.depthAtTarget Instruction.depthBehind
    rw [heffect _ j hopcode hoperand, ← hopcode]
    exact DepthStep.jump hj (hoperand ▸ hl) (boundAt_of_unplaced_eq h hbound)

/-! ## Routines -/

lemma jump_fits {headers : Headers} {target : BlockId} {label : Label} {opcode : Opcode}
    (hlabel : headers.label? target = some label) (hopcode : opcode = .leave ∨ opcode = .br)
    (returnsValue : Bool) :
    Fits returnsValue headers.Names 0 [{ opcode, operand := .label label }] 0 := by
  have heffect : opcode.stackEffect (.label label) returnsValue = ⟨0, 0⟩ := by
    rcases hopcode with rfl | rfl
    · rfl
    · rfl
  simp only [Fits, Instruction.stackEffect, heffect, Operand.labels, List.mem_singleton, forall_eq]
  exact ⟨by omega, Or.inl ⟨⟨target, hlabel⟩, Or.inr rfl⟩, rfl⟩

namespace Scope

variable {scope : Scope σ} {r : Routine}

lemma blockCode_fits {n : BlockId} {next : Option BlockId} {s s' : CodeState σ} {code : BlockCode}
    (h : scope.blockCode r n next s = .ok code s') (hnet : scope.checkNet = true)
    (himport : scope.services.KeepsCounts)
    (hgauged : ∀ b ∈ r.graph.blocks, ∀ st ∈ b, st.Gauged scope.returnsValue) :
    ∀ piece ∈ code.pieces, Fits scope.returnsValue scope.headers.Names 0 piece 0 := by
  obtain ⟨statements, hblock, -, hcodes, hjump⟩ := blockCode_eq_ok h
  intro piece hpiece
  unfold BlockCode.pieces at hpiece
  rw [List.cons_append, List.mem_cons, List.mem_append, List.mem_map] at hpiece
  rcases hpiece with rfl | hstatement | ⟨i, hi, rfl⟩
  · exact Fits.pass 0 0 rfl rfl (by omega) rfl
  · obtain ⟨st, hst, t, t', hrun⟩ := statementCodes_mem hcodes hstatement
    exact statementCode_fits hrun hnet himport
      (hgauged statements (List.mem_of_getElem? hblock) st hst)
  · obtain ⟨-, hnone⟩ | ⟨target, -, ⟨-, hnone⟩ | ⟨-, label, hlabel, hsome⟩⟩ :=
      fallThroughJump_eq_ok hjump
    · simp [hnone] at hi
    · simp [hnone] at hi
    · rw [hsome, Option.toList_some, List.mem_singleton] at hi
      subst hi
      apply jump_fits hlabel
      split_ifs
      · exact Or.inl rfl
      · exact Or.inr rfl

lemma place_fits {order : List BlockId} {position : Nat} {start : UInt32} {s t : CodeState σ}
    {placement : Placement} (h : scope.place r order position start s = .ok placement t)
    (hnet : scope.checkNet = true)
    (himport : scope.services.KeepsCounts)
    (hgauged : ∀ b ∈ r.graph.blocks, ∀ st ∈ b, st.Gauged scope.returnsValue) :
    ∀ piece ∈ placement.pieces, Fits scope.returnsValue scope.headers.Names 0 piece 0 := by
  intro piece hpiece
  obtain ⟨p, hp, hpiece⟩ := List.mem_flatMap.mp hpiece
  obtain ⟨before, after, hsplit⟩ := List.append_of_mem hp
  obtain ⟨s, s', hblock⟩ := place_split (hsplit ▸ h)
  exact blockCode_fits hblock hnet himport hgauged piece hpiece

end Scope

lemma le_foldl_max {α : Type} (f : α → Nat) (xs : List α) (least : Nat) :
    least ≤ xs.foldl (fun m x => max m (f x)) least ∧
      ∀ x ∈ xs, f x ≤ xs.foldl (fun m x => max m (f x)) least := by
  induction xs generalizing least with
  | nil => simp
  | cons first rest ih =>
    have hfirst := (ih (max least (f first))).1
    have hrest := (ih (max least (f first))).2
    rw [List.foldl_cons, List.forall_mem_cons]
    exact ⟨by omega, by omega, hrest⟩

/-- A piece of placed code is a single instruction or has been measured. -/
lemma Placement.stackPeak_le {placement : Placement} {piece : List Instruction}
    (h : piece ∈ placement.pieces) (returnsValue : Bool) :
    piece.length ≤ 1 ∨ stackPeak returnsValue piece ≤ placement.peak returnsValue := by
  obtain ⟨p, hp, hpiece⟩ := List.mem_flatMap.mp h
  unfold BlockCode.pieces at hpiece
  rw [List.cons_append, List.mem_cons, List.mem_append, List.mem_map] at hpiece
  rcases hpiece with rfl | hstatement | ⟨i, -, rfl⟩
  · exact Or.inl (Nat.le_refl 1)
  · have hblock := (le_foldl_max (stackPeak returnsValue) p.code.statements 0).2 piece hstatement
    have hall := (le_foldl_max (fun b : PlacedBlock => b.code.peak returnsValue) placement 0).2 p hp
    exact Or.inr (Nat.le_trans hblock hall)
  · exact Or.inl (Nat.le_refl 1)

lemma Located.depth_le {returnsValue : Bool} {outer : Label → Prop} {base : Nat}
    {placement : Placement} {k d : Nat}
    (h : Located returnsValue outer base placement.pieces k d) :
    min d depthLimit ≤ placement.peak returnsValue ∧ d ≤ placement.rawCode.length := by
  rcases h with ⟨left, piece, right, j, hsplit, -, hj, hinside⟩ | ⟨-, rfl⟩
  · have hle := hinside.le
    have hlength : piece.length ≤ placement.rawCode.length := by
      rw [← Placement.flatten_pieces, hsplit, List.flatten_append, List.flatten_cons]
      simp only [List.length_append]
      omega
    refine ⟨?_, by omega⟩
    have hmem : piece ∈ placement.pieces := by
      rw [hsplit]
      simp
    rcases Placement.stackPeak_le hmem returnsValue with hsingle | hmeasured
    · omega
    · have hpeak := Nat.le_trans hinside.peak (peak_flowAt_le j)
      unfold stackPeak at hmeasured
      omega
  · omega

/-- What holds where control comes to the instruction at `k` with depth `d`: the instruction finds
the values that it takes, the header of a block is reached with the empty stack, and the depth is
within the greatest depth of the body. -/
structure StackSafe (returnsValue : Bool) (placement : Placement) (base : Nat) (body : MethodBody)
    (k d : Nat) : Prop where
  pops_le : ∀ i, body.instructions[k]? = some i → (i.stackEffect returnsValue).pops ≤ d
  header : ∀ q, placement.StandsAt base q k → d = 0
  le_maxStack : d ≤ body.maxStack

/-- The greatest depth of a body is cut off at the greatest number of 32 bits, which the depth does
not reach in code whose size is one. -/
lemma Located.stackSafe {returnsValue : Bool} {outer : Label → Prop} {old : List Instruction}
    {placement : Placement} {body : MethodBody} {k d : Nat}
    (h : Located returnsValue outer old.length placement.pieces k d)
    (hunplaced : body.instructions.map Instruction.unplaced =
      (old ++ placement.rawCode).map Instruction.unplaced)
    (hpeak : placement.peak returnsValue ≤ body.maxStack)
    (hsize : codeSize placement.rawCode < UInt32.size) :
    StackSafe returnsValue placement old.length body k d := by
  have hdepth := h.depth_le
  have hlength := length_le_codeSize placement.rawCode
  have hlimit : UInt32.size = depthLimit + 1 := rfl
  refine ⟨?_, ?_, by omega⟩
  · intro i hi
    obtain ⟨i', hi', hopcode, hoperand, -⟩ := getElem?_of_unplaced_eq hunplaced hi
    have hpops := h.pops_le hi'
    unfold Instruction.stackEffect at hpops ⊢
    rw [hopcode, hoperand] at hpops
    exact hpops
  · rintro q ⟨before, after, hsplit, hk⟩
    rw [hsplit] at h
    rw [Placement.length_instructions] at hk
    exact h.depth_of_header hk

/-- From the header of a block on, with the empty stack, control finds the stack as it needs it on
every way through the code that compilation appends. The code starts with the entry block. -/
theorem compile_stackSafe {services : Services σ} {options : Options} {r : Routine}
    {w w' : Workspace σ} {placement : Placement}
    (hcompile : compile services options r w = .ok () w')
    (hplacement : compiledPlacement services options r w = some placement)
    (hnet : options.checkNet = true) (himport : services.KeepsCounts)
    (hflags : ∀ e ∈ r.parts, e.flags = none)
    (htemplates : ∀ e ∈ r.parts, ∀ i ∈ e.template, i.label = none ∧ i.operand.labels = [])
    (hvalues : ∀ e ∈ r.parts, e.HasValue)
    (hbalanced : ∀ b ∈ r.graph.blocks, ∀ st ∈ b, st.Balanced)
    (hbranches : ∀ b ∈ r.graph.blocks, ∀ st ∈ b, st.value.BranchesEmpty r.returnsValue 0 ∧
      ∀ e ∈ st.value.inner, e.BranchesOnlyByLeave) :
    (∃ p, p.block = r.entry ∧
      placement.StandsAt w.body.instructions.length p w.body.instructions.length) ∧
    ∀ p first, placement.StandsAt w.body.instructions.length p first → ∀ k d,
      Relation.ReflTransGen (DepthStep r.returnsValue w'.body.instructions) (first, 0) (k, d) →
        StackSafe r.returnsValue placement w.body.instructions.length w'.body k d := by
  obtain ⟨found, headers, start, order, locals, t, hfound, hsite, horder, hplace, hcode, hmax⟩ :=
    compile_placement hcompile
  rw [hplacement, Option.some.injEq] at hfound
  subst hfound
  have hfresh : FreshlyLabelled w.body.instructions headers placement :=
    place_freshlyLabelled hsite horder hplace fun e he =>
      Expr.labelSafe_of_no_flags (hflags e he) (fun i hi => (htemplates e he i hi).1) services
  have hgauged : ∀ b ∈ r.graph.blocks, ∀ st ∈ b, st.Gauged r.returnsValue := by
    intro b hb st hst
    refine ⟨hbalanced b hb st hst, ?_, (hbranches b hb st hst).2, (hbranches b hb st hst).1⟩
    intro e he
    have hmem : e ∈ r.parts :=
      List.mem_flatMap.mpr ⟨b, hb, List.mem_flatMap.mpr ⟨st, hst, he⟩⟩
    exact ⟨hflags e hmem, hvalues e hmem, fun i hi => (htemplates e hmem i hi).2⟩
  have hfits : ∀ piece ∈ placement.pieces, Fits r.returnsValue headers.Names 0 piece 0 :=
    Scope.place_fits hplace hnet himport hgauged
  have hunplaced : w'.body.instructions.map Instruction.unplaced =
      (w.body.instructions ++ placement.rawCode).map Instruction.unplaced := by
    rw [hcode]
    exact Scope.place_unplaced hplace _
  obtain ⟨rest, hentry⟩ := Graph.order_head horder
  have hblocks := Scope.place_blocks hplace
  rw [hentry] at hblocks
  obtain ⟨entry, others, hplaced, hblock, -⟩ := List.map_eq_cons_iff.mp hblocks
  constructor
  · exact ⟨entry, hblock, [], others, hplaced, rfl⟩
  · rintro p first ⟨before, after, hsplit, rfl⟩ k d hrun
    have hstart : Located r.returnsValue headers.Names w.body.instructions.length placement.pieces
        (w.body.instructions.length + (Placement.instructions before).length) 0 := by
      rw [Placement.length_instructions, ← Placement.flatten_pieces]
      apply located_between _ hfits (Placement.pieces before) (Placement.pieces (p :: after))
      rw [hsplit, Placement.pieces_append]
    have hend := hstart.run hfresh hfits
      (Relation.ReflTransGen.mono (fun _ _ => depthStep_of_unplaced_eq hunplaced) _ _ hrun)
    have hsize := Scope.place_codeSize_lt hplace
    exact hend.stackSafe hunplaced (hmax ▸ Nat.le_max_right _ _) (by omega)

/-- The third instruction of the loop has duplicated the value to unbox, which makes the stack as
deep as it gets. -/
theorem unboxLoop_stackSafe : ∃ w' placement,
    compile plainServices {} unboxLoop ⟨{}, ()⟩ = .ok () w' ∧
      compiledPlacement plainServices {} unboxLoop ⟨{}, ()⟩ = some placement ∧
      w'.body.maxStack = 2 ∧
      Relation.ReflTransGen (DepthStep false w'.body.instructions) (0, 0) (3, 2) ∧
      StackSafe false placement 0 w'.body 3 2 := by
  obtain ⟨w', hcompile, hmax, h0, h1, h2⟩ : ∃ w',
      compile plainServices {} unboxLoop ⟨{}, ()⟩ = .ok () w' ∧ w'.body.maxStack = 2 ∧
        w'.body.instructions[0]? = some (.header ⟨0⟩) ∧
        w'.body.instructions[1]? = some { opcode := .ldnull, offset := 1 } ∧
        w'.body.instructions[2]? = some { opcode := .dup, offset := 2 } :=
    ⟨_, rfl, rfl, rfl, rfl, rfl⟩
  have hrun : Relation.ReflTransGen (DepthStep false w'.body.instructions) (0, 0) (3, 2) :=
    ((Relation.ReflTransGen.single (DepthStep.next h0 rfl)).tail (DepthStep.next h1 rfl)).tail
      (DepthStep.next h2 rfl)
  obtain ⟨placement, hplacement⟩ : ∃ placement,
      compiledPlacement plainServices {} unboxLoop ⟨{}, ()⟩ = some placement := ⟨_, rfl⟩
  have hbranches : ∀ b ∈ unboxLoop.graph.blocks, ∀ st ∈ b, st.value.BranchesEmpty false 0 ∧
      ∀ e ∈ st.value.inner, e.BranchesOnlyByLeave := by
    have hinner : ∀ b ∈ unboxLoop.graph.blocks, ∀ st ∈ b, ∀ e ∈ st.value.inner,
        e.BranchesOnlyByLeave := by decide
    intro b hb st hst
    refine ⟨?_, hinner b hb st hst⟩
    intro p i hi hblocks
    simp only [unboxLoop, List.mem_cons, List.not_mem_nil, or_false] at hb
    rcases hb with rfl | rfl | rfl | rfl
    · cases List.mem_singleton.mp hst
      cases hi
    · cases List.mem_singleton.mp hst
      cases p with
      | zero =>
        refine Or.inr fun depth g hdepth hg => ?_
        have hend : g.depth.toInt = depth.toInt + (-1) := (StackGauge.runFrom_eq_ok hg).2.2
        rw [hend, hdepth]
        rfl
      | succ p => cases hi
    · cases hst
    · cases List.mem_singleton.mp hst
      cases p with
      | zero =>
        cases hi
        exact absurd rfl hblocks
      | succ p => cases hi
  obtain ⟨⟨p, -, hentry⟩, hsafe⟩ := compile_stackSafe hcompile hplacement rfl
    (fun _ _ => ⟨rfl, rfl, rfl⟩) (by decide) (by decide) (by decide) (by decide) hbranches
  exact ⟨w', placement, hcompile, hplacement, hmax, hrun, hsafe p 0 hentry 3 2 hrun⟩

end CilBackend
