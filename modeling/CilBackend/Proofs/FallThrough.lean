import CilBackend.Proofs.Regions

/-!
# Falling through

Control that falls through from a block comes to the right block: either that block is placed next,
or the code of the first block ends with a jump to it. Nothing else makes a block end with such a
jump.
-/

namespace CilBackend

variable {σ : Type}

/-- Going from `n` to `t` leaves a region of some frame. -/
def Routine.Leaves (r : Routine) (n t : BlockId) : Prop :=
  ∃ f ∈ r.frames, (n ∈ f.tryBody ∧ t ∉ f.tryBody) ∨ (n ∈ f.handlerBody ∧ t ∉ f.handlerBody)

lemma Routine.any_isLeftBy {r : Routine} {n t : BlockId} :
    (r.frames.any fun f => f.isLeftBy n t) = true ↔ r.Leaves n t := by
  simp [Routine.Leaves, Frame.isLeftBy]

/-- The code of `p` ends with a jump to the header of `q`, which is a `leave` exactly if it leaves
a region. -/
def PlacedBlock.JumpsTo (r : Routine) (p q : PlacedBlock) : Prop :=
  ∃ jump offset, p.code.jump = some jump ∧ p.instructions.getLast? = some { jump with offset } ∧
    jump.operand = .label q.code.header ∧
    ((r.Leaves p.block q.block ∧ jump.opcode = .leave) ∨
      (¬ r.Leaves p.block q.block ∧ jump.opcode = .br))

/-- The header of `q` comes right behind the code of `p`, which has no jump then, or it does not
and `p` jumps to it. -/
def Placement.FallsInto (placement : Placement) (r : Routine) (p q : PlacedBlock) : Prop :=
  ∃ before after : Placement, placement = before ++ p :: after ∧
    ((after.instructions.head? = some q.header.blockHeader ∧ p.code.jump = none) ∨
      (after.instructions.head? ≠ some q.header.blockHeader ∧ p.JumpsTo r q))

lemma Placement.head?_instructions_cons (p : PlacedBlock) (rest : Placement) :
    (Placement.instructions (p :: rest)).head? = some p.header.blockHeader :=
  rfl

/-- A placement starts with the header of a block only if it starts with the block. -/
lemma Placement.LaidOut.head?_block {placement before after : Placement} {start stop : UInt32}
    (hlaid : placement.LaidOut start stop) (hsplit : placement = before ++ after) {q : PlacedBlock}
    (hq : q ∈ placement) (h : after.instructions.head? = some q.header.blockHeader) :
    after.head? = some q := by
  cases after with
  | nil => cases h
  | cons x rest =>
    rw [Placement.head?_instructions_cons, Option.some.injEq] at h
    have hx : x ∈ placement := by simp [hsplit]
    have hstart : x.start = q.start := congrArg Instruction.offset h
    rw [hlaid.eq_of_start hx hq hstart]
    rfl

lemma PlacedBlock.getLast?_of_jump {p : PlacedBlock} {jump : Instruction}
    (h : p.code.jump = some jump) :
    ∃ offset, p.instructions.getLast? = some { jump with offset } := by
  unfold PlacedBlock.instructions BlockCode.instructions
  rw [h, Option.toList_some, placeFrom_append]
  exact ⟨_, List.getLast?_concat⟩

namespace Scope

variable {scope : Scope σ} {r : Routine} {order : List BlockId} {position : Nat} {start : UInt32}
  {s s' : CodeState σ} {placement : Placement}

/-- The header of a placed block is its own, and its jump was made for the block that follows. -/
lemma place_header_jump {before after : Placement} {p : PlacedBlock}
    (h : scope.place r order position start s = .ok (before ++ p :: after) s') :
    scope.headers.label? p.block = some p.code.header ∧
      scope.fallThroughJump r p.block (after.head?.map PlacedBlock.block) = .ok p.code.jump := by
  obtain ⟨t, t', hcode⟩ := place_split h
  obtain ⟨-, -, hheader, -, hjump⟩ := blockCode_eq_ok hcode
  exact ⟨hheader, hjump⟩

lemma place_fallsInto (horder : r.graph.order r.entry = .ok order)
    (h : scope.place r order 0 start s = .ok placement s') {p q : PlacedBlock} (hp : p ∈ placement)
    (hq : q ∈ placement) (hedge : ⟨p.block, q.block, .fallThrough⟩ ∈ r.graph.edges) :
    placement.FallsInto r p q := by
  have hlaid := place_laidOut horder h
  have hheader : scope.headers.label? q.block = some q.code.header := by
    obtain ⟨left, right, hparts⟩ := List.append_of_mem hq
    exact (place_header_jump (hparts ▸ h)).1
  obtain ⟨before, after, hsplit⟩ := List.append_of_mem hp
  have hjump := (place_header_jump (hsplit ▸ h)).2
  have hmem := Graph.mem_fallThroughs.mpr hedge
  refine ⟨before, after, hsplit, ?_⟩
  rcases fallThroughJump_eq_ok hjump with ⟨hnone, -⟩ | ⟨target, htarget, hway⟩
  · rw [hnone] at hmem
    cases hmem
  · rw [htarget, List.mem_singleton] at hmem
    subst hmem
    rcases hway with ⟨hnext, hnone⟩ | ⟨hnext, label, hlabel, hsome⟩
    · obtain ⟨next, hhead, hblock⟩ := Option.map_eq_some_iff.mp hnext
      obtain ⟨rest, rfl⟩ := List.head?_eq_some_iff.mp hhead
      have hnextMem : next ∈ placement := by simp [hsplit]
      rw [hlaid.eq_of_block hnextMem hq hblock]
      exact Or.inl ⟨rfl, hnone⟩
    · have hapart : (Placement.instructions after).head? ≠ some q.header.blockHeader := by
        intro hfirst
        have hbehind : placement = (before ++ [p]) ++ after := by simp [hsplit]
        rw [hlaid.head?_block hbehind hq hfirst] at hnext
        exact hnext rfl
      obtain ⟨offset, hlast⟩ := PlacedBlock.getLast?_of_jump hsome
      rw [hheader, Option.some.injEq] at hlabel
      refine Or.inr ⟨hapart, _, offset, hsome, hlast, by rw [hlabel], ?_⟩
      by_cases hleaves : r.Leaves p.block q.block
      · exact Or.inl ⟨hleaves, if_pos (Routine.any_isLeftBy.mpr hleaves)⟩
      · exact Or.inr ⟨hleaves, if_neg (fun hany => hleaves (Routine.any_isLeftBy.mp hany))⟩

/-- Both ends of an edge along which control falls through are placed, and it is realised. -/
lemma place_edge_fallsInto (horder : r.graph.order r.entry = .ok order)
    (h : scope.place r order 0 start s = .ok placement s') {n t : BlockId}
    (hedge : ⟨n, t, .fallThrough⟩ ∈ r.graph.edges) :
    ∃ p ∈ placement, ∃ q ∈ placement, p.block = n ∧ q.block = t ∧ placement.FallsInto r p q := by
  have hplaced : ∀ m < r.graph.size, ∃ p ∈ placement, p.block = m := by
    intro m hm
    have hmem := (Graph.mem_order horder).mpr hm
    rwa [← place_blocks h, List.mem_map] at hmem
  obtain ⟨hn, ht⟩ := r.graph.edges_inside _ hedge
  obtain ⟨p, hp, rfl⟩ := hplaced n hn
  obtain ⟨q, hq, rfl⟩ := hplaced t ht
  exact ⟨p, hp, q, hq, rfl, rfl, place_fallsInto horder h hp hq hedge⟩

end Scope

end CilBackend
