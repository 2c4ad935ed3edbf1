import CilBackend.Proofs.Jumps
import CilBackend.Proofs.Labels

/-!
# Control flow of compiled routines

Compiled code goes from block to block along the edges of the graph only, and it enters a block
only at its header.
-/

namespace CilBackend

variable {σ : Type}

/-- The label `l` is bound to the instruction at `place`. -/
def BoundAt (code : List Instruction) (l : Label) (place : Nat) : Prop :=
  ∃ i, code[place]? = some i ∧ i.label = some l

/-- Control can go from the instruction at `source` to the place `target`: to the next place unless
the opcode ends flow, and to every instruction that is bound to a label of the operand. -/
def Transfers (code : List Instruction) (source target : Nat) : Prop :=
  ∃ i, code[source]? = some i ∧
    ((i.opcode.endsFlow = false ∧ target = source + 1) ∨
      ∃ l ∈ i.operand.labels, BoundAt code l target)

lemma boundAt_of_unplaced_eq {a b : List Instruction}
    (h : a.map Instruction.unplaced = b.map Instruction.unplaced) {l : Label} {place : Nat}
    (hbound : BoundAt a l place) : BoundAt b l place := by
  obtain ⟨i, hi, hl⟩ := hbound
  obtain ⟨i', hi', -, -, hlabel⟩ := getElem?_of_unplaced_eq h hi
  exact ⟨i', hi', hlabel.trans hl⟩

lemma transfers_of_unplaced_eq {a b : List Instruction}
    (h : a.map Instruction.unplaced = b.map Instruction.unplaced) {source target : Nat}
    (htransfer : Transfers a source target) : Transfers b source target := by
  obtain ⟨i, hi, hway⟩ := htransfer
  obtain ⟨i', hi', hopcode, hoperand, -⟩ := getElem?_of_unplaced_eq h hi
  refine ⟨i', hi', ?_⟩
  rcases hway with ⟨hflow, htarget⟩ | ⟨l, hl, hbound⟩
  · exact Or.inl ⟨hopcode ▸ hflow, htarget⟩
  · exact Or.inr ⟨l, hoperand ▸ hl, boundAt_of_unplaced_eq h hbound⟩

/-- The code of the placed block `p` starts at `first` when that of the placement starts at
`base`. -/
def Placement.StandsAt (placement : Placement) (base : Nat) (p : PlacedBlock) (first : Nat) :
    Prop :=
  ∃ before after, placement = before ++ p :: after ∧
    first = base + (Placement.instructions before).length

/-! ## Blocks -/

lemma Graph.mem_successors_of_fallThrough {g : Graph} {n t : BlockId}
    (h : t ∈ g.fallThroughs n) : t ∈ g.successors n :=
  Graph.mem_successors.mpr ⟨_, Graph.mem_fallThroughs.mp h, rfl, rfl⟩

/-- The header labels of the blocks to which the graph has an edge from `n`. -/
def Routine.SuccessorHeader (r : Routine) (headers : Headers) (n : BlockId) (l : Label) : Prop :=
  ∃ m ∈ r.graph.successors n, headers.label? m = some l

namespace Scope

variable {scope : Scope σ} {r : Routine}

/-- A block jumps forwards inside itself or into `outer` when its templates and its fall-through
edges lead there. -/
lemma blockCode_jumpsInto {outer : Label → Prop} {n : BlockId} {next : Option BlockId}
    {s s' : CodeState σ} {code : BlockCode} (h : scope.blockCode r n next s = .ok code s')
    (hparts : ∀ b, r.graph.blocks[n]? = some b → ∀ e ∈ Block.parts b,
      e.BranchesInto scope.headers outer)
    (hfall : ∀ t ∈ r.graph.fallThroughs n, ∀ l, scope.headers.label? t = some l → outer l) :
    JumpsForward outer code.instructions := by
  obtain ⟨statements, hblock, -, hcodes, hjump⟩ := blockCode_eq_ok h
  have hheader : JumpsForward outer [Instruction.header code.header] :=
    JumpsForward.of_no_labels (by simp [Instruction.header, Operand.labels])
  have hstatements : JumpsForward outer code.statements.flatten := by
    apply JumpsForward.flatten
    intro piece hpiece
    obtain ⟨st, hst, t, t', hrun⟩ := statementCodes_mem hcodes hpiece
    apply statementCode_jumpsForward hrun
    intro x hx
    exact hparts statements hblock x (List.mem_flatMap.mpr ⟨st, hst, hx⟩)
  have hlast : JumpsForward outer code.jump.toList := by
    apply JumpsForward.of_outer
    obtain ⟨-, hnone⟩ | ⟨target, htarget, ⟨-, hnone⟩ | ⟨-, label, hlabel, hsome⟩⟩ :=
      fallThroughJump_eq_ok hjump
    · simp [hnone]
    · simp [hnone]
    · rw [hsome]
      simp only [Option.toList_some, List.mem_singleton, forall_eq, Operand.labels]
      apply hfall target _ label hlabel
      rw [htarget]
      exact List.mem_singleton.mpr rfl
  exact (hheader.append (hstatements.append hlast) :)

lemma blockCode_jumpsForward {n : BlockId} {next : Option BlockId} {s s' : CodeState σ}
    {code : BlockCode} (h : scope.blockCode r n next s = .ok code s')
    (hparts : ∀ b, r.graph.blocks[n]? = some b → ∀ e ∈ Block.parts b,
      e.BranchesInto scope.headers (r.SuccessorHeader scope.headers n)) :
    JumpsForward (r.SuccessorHeader scope.headers n) code.instructions :=
  blockCode_jumpsInto h hparts fun t ht _ hl =>
    ⟨t, Graph.mem_successors_of_fallThrough ht, hl⟩

/-- When control runs off the end of a block's code, the next block is placed behind it and is its
fall-through successor, unless the block has none. -/
lemma blockCode_runs_into_next {n : BlockId} {next : Option BlockId} {s s' : CodeState σ}
    {code : BlockCode} (h : scope.blockCode r n next s = .ok code s') {i : Instruction}
    (hlast : code.instructions.getLast? = some i) (hflow : i.opcode.endsFlow = false) :
    r.graph.fallThroughs n = [] ∨ ∃ t ∈ r.graph.successors n, next = some t := by
  obtain ⟨statements, -, -, -, hjump⟩ := blockCode_eq_ok h
  obtain ⟨hnone, -⟩ | ⟨target, htarget, ⟨hnext, -⟩ | ⟨-, label, -, hsome⟩⟩ :=
    fallThroughJump_eq_ok hjump
  · exact Or.inl hnone
  · refine Or.inr ⟨target, Graph.mem_successors_of_fallThrough ?_, hnext⟩
    rw [htarget]
    exact List.mem_singleton.mpr rfl
  · unfold BlockCode.instructions at hlast
    rw [hsome, Option.toList_some, List.getLast?_concat, Option.some.injEq] at hlast
    rw [← hlast] at hflow
    dsimp only at hflow
    split_ifs at hflow
    · cases hflow
    · cases hflow

end Scope

/-! ## Placed blocks -/

section Placed

variable {old : List Instruction} {headers : Headers} {placement before after : Placement}
  {p : PlacedBlock} {r : Routine}

/-- Behind old code, an instruction of a block stands behind the blocks before it. -/
lemma getElem?_of_split (hsplit : placement = before ++ p :: after) {k : Nat}
    (hk : k < p.code.instructions.length) :
    (old ++ placement.rawCode)[old.length + before.rawCode.length + k]? =
      p.code.instructions[k]? := by
  subst hsplit
  rw [Placement.rawCode_append, Placement.rawCode_cons, ← List.append_assoc,
    List.getElem?_append_right (by simp), List.length_append, Nat.add_sub_cancel_left,
    List.getElem?_append_left hk]

/-- The place to which an instruction of a block jumps: one further down in the block, or one that
is in `outer`. -/
lemma label_destination {outer : Label → Prop} (hfresh : FreshlyLabelled old headers placement)
    (hsplit : placement = before ++ p :: after)
    (hforward : JumpsForward outer p.code.instructions)
    {k : Nat} {i : Instruction} (hi : p.code.instructions[k]? = some i) {l : Label}
    (hl : l ∈ i.operand.labels) :
    outer l ∨ ∃ k', k < k' ∧ BoundAt p.code.instructions l k' ∧
      headers.first.toNat ≤ l.index.toNat := by
  rcases hforward.at_position hi hl with houter | ⟨skipped, j, rest, hdrop, hj⟩
  · exact Or.inl houter
  · have hget : p.code.instructions[k + 1 + skipped.length]? = some j := by
      rw [← List.getElem?_drop, hdrop, List.getElem?_append_right (Nat.le_refl _), Nat.sub_self]
      rfl
    have hmem : p ∈ placement := by
      rw [hsplit]
      simp
    have hinner : l ∈ boundLabels p.code.instructions.tail := by
      apply mem_boundLabels_of_getElem? _ hj
      · exact k + skipped.length
      · rw [List.getElem?_tail, ← hget]
        congr 1
        omega
    have hge := hfresh.inner p hmem l hinner
    exact Or.inr ⟨k + 1 + skipped.length, by omega, ⟨j, hget, hj⟩, by omega⟩

/-- A label to which a block jumps is bound once, if `outer` holds header labels only. -/
lemma exists_unique_binding {outer : Label → Prop} (hfresh : FreshlyLabelled old headers placement)
    (houter : ∀ l, outer l → ∃ m < headers.count, headers.label? m = some l)
    (hsplit : placement = before ++ p :: after)
    (hforward : JumpsForward outer p.code.instructions)
    {k : Nat} {i : Instruction} (hi : p.code.instructions[k]? = some i) {l : Label}
    (hl : l ∈ i.operand.labels) :
    ∃! target, BoundAt (old ++ placement.rawCode) l target := by
  obtain ⟨target, ⟨j, hj, hlabel⟩, hfirst⟩ : ∃ target,
      BoundAt (old ++ placement.rawCode) l target ∧ headers.first.toNat ≤ l.index.toNat := by
    rcases label_destination hfresh hsplit hforward hi hl with hheaders |
      ⟨k', -, ⟨j, hj, hlabel⟩, hfirst⟩
    · obtain ⟨m, hlt, hheader⟩ := houter l hheaders
      obtain ⟨q, hq, hblock⟩ := hfresh.complete m hlt
      obtain ⟨left, right, hparts⟩ := List.append_of_mem hq
      have hget := @getElem?_of_split old placement left right q hparts 0 (Nat.succ_pos _)
      have hown := hfresh.header q hq
      rw [hblock, hheader, Option.some.injEq] at hown
      refine ⟨_, ⟨Instruction.header q.code.header, hget, ?_⟩, ?_⟩
      · rw [hown]
        rfl
      · rw [(label?_eq_some.mp hheader).1]
        exact Nat.le_add_right _ _
    · have hk' : k' < p.code.instructions.length := (List.getElem?_eq_some_iff.mp hj).1
      have hget := @getElem?_of_split old _ _ _ _ hsplit k' hk'
      exact ⟨_, ⟨j, hget.trans hj, hlabel⟩, hfirst⟩
  refine ⟨target, ⟨j, hj, hlabel⟩, ?_⟩
  rintro other ⟨j', hj', hlabel'⟩
  exact hfresh.position_unique hfirst hj' hj hlabel' hlabel

/-- The same for code that only differs in offsets. -/
lemma exists_unique_binding_of_unplaced {outer : Label → Prop} {code : List Instruction}
    (hfresh : FreshlyLabelled old headers placement)
    (hunplaced : code.map Instruction.unplaced =
      (old ++ placement.rawCode).map Instruction.unplaced)
    (houter : ∀ l, outer l → ∃ m < headers.count, headers.label? m = some l)
    (hsplit : placement = before ++ p :: after)
    (hforward : JumpsForward outer p.code.instructions)
    {k : Nat} {i : Instruction} (hi : p.code.instructions[k]? = some i) {l : Label}
    (hl : l ∈ i.operand.labels) :
    ∃! target, BoundAt code l target := by
  obtain ⟨target, hbound, hunique⟩ :=
    exists_unique_binding hfresh houter hsplit hforward hi hl
  refine ⟨target, boundAt_of_unplaced_eq hunplaced.symm hbound, ?_⟩
  intro other hother
  exact hunique other (boundAt_of_unplaced_eq hunplaced hother)

/-- Control leaves an instruction of a block downwards in the block or to the header of a
successor. -/
lemma block_transfers (hfresh : FreshlyLabelled old headers placement)
    (hsplit : placement = before ++ p :: after)
    (hforward : JumpsForward (r.SuccessorHeader headers p.block) p.code.instructions)
    (hnext : ∀ i, p.code.instructions.getLast? = some i → i.opcode.endsFlow = false →
      ∃ t ∈ r.graph.successors p.block, after.head?.map PlacedBlock.block = some t)
    {k target : Nat} (hk : k < p.code.instructions.length)
    (htransfer : Transfers (old ++ placement.rawCode)
      (old.length + before.rawCode.length + k) target) :
    (old.length + before.rawCode.length + k < target ∧
      target < old.length + before.rawCode.length + p.code.instructions.length) ∨
    ∃ (left : Placement) (q : PlacedBlock) (right : Placement),
      placement = left ++ q :: right ∧ q.block ∈ r.graph.successors p.block ∧
      target = old.length + left.rawCode.length := by
  obtain ⟨i, hi, hway⟩ := htransfer
  rw [getElem?_of_split hsplit hk] at hi
  rcases hway with ⟨hflow, rfl⟩ | ⟨l, hl, j, hj, hlabel⟩
  · by_cases hlast : k + 1 < p.code.instructions.length
    · exact Or.inl (by omega)
    · have hgetLast : p.code.instructions.getLast? = some i := by
        rw [List.getLast?_eq_getElem?, ← hi]
        congr 1
        omega
      obtain ⟨t, ht, hhead⟩ := hnext i hgetLast hflow
      obtain ⟨q, hq, hblock⟩ := Option.map_eq_some_iff.mp hhead
      obtain ⟨right, hright⟩ : ∃ right, after = q :: right := List.head?_eq_some_iff.mp hq
      refine Or.inr ⟨before ++ [p], q, right, ?_, hblock ▸ ht, ?_⟩
      · rw [hsplit, hright]
        simp
      · rw [Placement.rawCode_append, List.length_append, Placement.rawCode_cons,
          List.length_append]
        simp [Placement.rawCode]
        omega
  · rcases label_destination hfresh hsplit hforward hi hl with ⟨m, hm, hheader⟩ |
      ⟨k', hlt, ⟨j', hj', hlabel'⟩, hfirst⟩
    · obtain ⟨left, q, right, hparts, hblock, htarget⟩ := hfresh.header_position hheader hj hlabel
      exact Or.inr ⟨left, q, right, hparts, hblock ▸ hm, htarget⟩
    · have hk' : k' < p.code.instructions.length := (List.getElem?_eq_some_iff.mp hj').1
      have hget := @getElem?_of_split old _ _ _ _ hsplit k' hk'
      have htarget := hfresh.position_unique hfirst hj (hget.trans hj') hlabel hlabel'
      exact Or.inl (by omega)

end Placed

/-! ## Routines -/

/-- Control leaves every instruction of a placed block downwards in the block or to the header of a
block to which the graph has an edge, and every label that it can jump to is bound once. -/
def FollowsEdges (g : Graph) (placement : Placement) (base : Nat) (code : List Instruction) :
    Prop :=
  ∀ p first, placement.StandsAt base p first →
    ∀ source, first ≤ source → source < first + p.instructions.length →
      (∀ target, Transfers code source target →
        (source < target ∧ target < first + p.instructions.length) ∨
        ∃ q, q.block ∈ g.successors p.block ∧ placement.StandsAt base q target) ∧
      ∀ i, code[source]? = some i → ∀ l ∈ i.operand.labels, ∃! target, BoundAt code l target

lemma followsEdges_of_blocks {old code : List Instruction} {headers : Headers}
    {placement : Placement} {r : Routine} (hfresh : FreshlyLabelled old headers placement)
    (hsize : headers.count = r.graph.size)
    (hunplaced : code.map Instruction.unplaced =
      (old ++ placement.rawCode).map Instruction.unplaced)
    (hblocks : ∀ (before : Placement) (p : PlacedBlock) (after : Placement),
      placement = before ++ p :: after →
        JumpsForward (r.SuccessorHeader headers p.block) p.code.instructions ∧
        ∀ i, p.code.instructions.getLast? = some i → i.opcode.endsFlow = false →
          ∃ t ∈ r.graph.successors p.block, after.head?.map PlacedBlock.block = some t) :
    FollowsEdges r.graph placement old.length code := by
  rintro p first ⟨before, after, hsplit, rfl⟩ source hfirst hsource
  obtain ⟨hforward, hnext⟩ := hblocks before p after hsplit
  rw [Placement.length_instructions] at hfirst hsource ⊢
  rw [PlacedBlock.length_instructions] at hsource ⊢
  obtain ⟨k, rfl⟩ : ∃ k, source = old.length + before.rawCode.length + k :=
    ⟨source - (old.length + before.rawCode.length), by omega⟩
  have hk : k < p.code.instructions.length := by omega
  constructor
  · intro target htransfer
    rcases block_transfers hfresh hsplit hforward hnext hk
      (transfers_of_unplaced_eq hunplaced htransfer) with hinside |
      ⟨left, q, right, hparts, hedge, htarget⟩
    · exact Or.inl hinside
    · refine Or.inr ⟨q, hedge, left, right, hparts, ?_⟩
      rw [Placement.length_instructions, htarget]
  · intro i hi l hl
    obtain ⟨i', hi', -, hoperand, -⟩ := getElem?_of_unplaced_eq hunplaced hi
    rw [getElem?_of_split hsplit hk] at hi'
    apply exists_unique_binding_of_unplaced hfresh hunplaced _ hsplit hforward hi' (hoperand ▸ hl)
    rintro l ⟨m, hm, hlabel⟩
    exact ⟨m, Nat.lt_of_lt_of_eq (Graph.successor_lt hm).2 hsize.symm, hlabel⟩

/-- Whether the last instruction of a piece of code ends flow. -/
def lastEndsFlow (code : List Instruction) : Bool :=
  code.getLast?.any fun i => i.opcode.endsFlow

/-- The code that compilation appends consists of the placed blocks, each of them once, and moves
between them along the edges of the graph only, entering a block at its header. -/
theorem compile_followsEdges {services : Services σ} {options : Options} {r : Routine}
    {w w' : Workspace σ} {placement : Placement}
    (hcompile : compile services options r w = .ok () w')
    (hplacement : compiledPlacement services options r w = some placement)
    (hflags : ∀ e ∈ r.parts, e.flags = none)
    (htemplates : ∀ e ∈ r.parts, ∀ i ∈ e.template, i.label = none ∧ i.operand.labels = [])
    (htargets : ∀ n b, r.graph.blocks[n]? = some b → ∀ e ∈ Block.parts b, ∀ i ∈ e.template,
      ∀ m ∈ i.operand.blocks, m ∈ r.graph.successors n)
    (hends : ∀ p ∈ placement, r.graph.fallThroughs p.block = [] →
      lastEndsFlow p.code.instructions = true) :
    w'.body.instructions = w.body.instructions ++ placement.instructions ∧
      (placement.map PlacedBlock.block).Perm r.graph.nodes ∧
      FollowsEdges r.graph placement w.body.instructions.length w'.body.instructions := by
  obtain ⟨found, headers, start, order, locals, t, hfound, hsite, horder, hplace, hcode, -⟩ :=
    compile_placement hcompile
  rw [hplacement, Option.some.injEq] at hfound
  subst hfound
  have hfresh := place_freshlyLabelled hsite horder hplace (fun e he =>
    Expr.labelSafe_of_no_flags (hflags e he) (fun i hi => (htemplates e he i hi).1) services)
  have hunplaced : w'.body.instructions.map Instruction.unplaced =
      (w.body.instructions ++ placement.rawCode).map Instruction.unplaced := by
    rw [hcode]
    exact Scope.place_unplaced hplace _
  refine ⟨hcode, ?_, ?_⟩
  · rw [Scope.place_blocks hplace]
    exact Graph.order_perm horder
  · apply followsEdges_of_blocks hfresh hsite.count hunplaced
    intro before p after hsplit
    obtain ⟨s, s', hblock⟩ := Scope.place_split (hsplit ▸ hplace)
    constructor
    · apply Scope.blockCode_jumpsForward hblock
      intro b hb e he
      have hmem := Routine.mem_parts_of_block hb he
      refine ⟨hflags e hmem, fun i hi => ⟨(htemplates e hmem i hi).2, ?_⟩⟩
      intro m hm l hl
      exact ⟨m, htargets p.block b hb e he i hi m hm, hl⟩
    · intro i hlast hflow
      rcases Scope.blockCode_runs_into_next hblock hlast hflow with hnone | hnext
      · have hended := hends p (by simp [hsplit]) hnone
        rw [lastEndsFlow, hlast, Option.any_some, hflow] at hended
        cases hended
      · exact hnext

/-- Unboxes a null and then tests it in a loop. The block that closes the loop needs a jump. -/
def unboxLoop : Routine where
  declarations := [.unnamed ⟨0⟩ .object]
  graph := {
    blocks := [
      [.assignment ⟨0⟩
        (.unbox (.instruction [{ opcode := .ldnull }] [] none .object) .object .object)],
      [.expression (.instruction [{ opcode := .brtrue, operand := .block 3 }] [.var ⟨0⟩ .object]
        none .void)],
      [],
      [.expression (.instruction [{ opcode := .ret }] [] none .void)]]
    edges := [⟨0, 1, .fallThrough⟩, ⟨1, 3, .branch⟩, ⟨1, 2, .fallThrough⟩, ⟨2, 1, .fallThrough⟩]
    edges_inside := by decide }
  entry := 0
  frames := []
  returnsValue := false

theorem unboxLoop_followsEdges : ∃ w' placement,
    compile plainServices {} unboxLoop ⟨{}, ()⟩ = .ok () w' ∧
      compiledPlacement plainServices {} unboxLoop ⟨{}, ()⟩ = some placement ∧
      placement.map PlacedBlock.block = [0, 1, 2, 3] ∧
      FollowsEdges unboxLoop.graph placement 0 w'.body.instructions := by
  obtain ⟨w', hcompile⟩ : ∃ w', compile plainServices {} unboxLoop ⟨{}, ()⟩ = .ok () w' := ⟨_, rfl⟩
  obtain ⟨placement, hplacement, hblocks, hends⟩ : ∃ placement,
      compiledPlacement plainServices {} unboxLoop ⟨{}, ()⟩ = some placement ∧
        placement.map PlacedBlock.block = [0, 1, 2, 3] ∧
        ∀ p ∈ placement, unboxLoop.graph.fallThroughs p.block = [] →
          lastEndsFlow p.code.instructions = true := ⟨_, rfl, rfl, by decide⟩
  have htargets : ∀ n b, unboxLoop.graph.blocks[n]? = some b → ∀ e ∈ Block.parts b,
      ∀ i ∈ e.template, ∀ m ∈ i.operand.blocks, m ∈ unboxLoop.graph.successors n := by
    intro n b hb
    match n with
    | 0 =>
      cases hb
      decide
    | 1 =>
      cases hb
      decide
    | 2 =>
      cases hb
      decide
    | 3 =>
      cases hb
      decide
    | n + 4 => cases hb
  have hfollows := compile_followsEdges hcompile hplacement (by decide) (by decide) htargets hends
  exact ⟨w', placement, hcompile, hplacement, hblocks, hfollows.2.2⟩

end CilBackend
