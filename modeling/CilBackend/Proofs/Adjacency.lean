import CilBackend.Proofs.DominatorPreorder
import CilBackend.Proofs.FallThrough

/-!
# Neighbours in the order

A block that falls through to a block that it dominates is followed by that block: the edge makes it
the immediate dominator, no other child comes to be laid out sooner, and the first child of a block
stands right behind it.
-/

namespace CilBackend

variable {σ : Type}

/-! ## The first child -/

namespace Graph

variable {g : Graph} {entry n t : BlockId}

lemma rank_eq_zero_iff :
    g.rank n t = 0 ↔ ⟨n, t, .fallThrough⟩ ∈ g.edges := by
  unfold Graph.rank
  split_ifs with hfall
  all_goals simp [hfall]

/-- Only one child is come to by falling through, and it is sooner than every other one. -/
lemma sooner_of_fallThrough (hedge : ⟨n, t, .fallThrough⟩ ∈ g.edges)
    (hone : ∀ c, ⟨n, c, .fallThrough⟩ ∈ g.edges → c = t) {c : BlockId} (hc : c ≠ t) :
    g.Sooner n t c := by
  have hzero := rank_eq_zero_iff.mpr hedge
  have hpositive : g.rank n c ≠ 0 := fun h => hc (hone c (rank_eq_zero_iff.mp h))
  exact Or.inl (by omega)

lemma children_eq_cons {tree : DominatorTree} (hmem : t ∈ g.children tree n)
    (hsooner : ∀ c, c ≠ t → g.Sooner n t c) : ∃ rest, g.children tree n = t :: rest := by
  have hsorted := children_sorted (g := g) tree n
  cases hchildren : g.children tree n with
  | nil =>
    rw [hchildren] at hmem
    cases hmem
  | cons first rest =>
    rw [hchildren] at hmem hsorted
    by_cases hfirst : first = t
    · exact ⟨rest, by rw [hfirst]⟩
    · have hrest := (List.mem_cons.mp hmem).resolve_left (Ne.symm hfirst)
      exact absurd ((List.pairwise_cons.mp hsorted).1 t hrest) (hsooner first hfirst).asymm

/-- The first child of a block in the dominator tree follows it in the order. -/
lemma follows_of_first_child {order : List BlockId} (h : g.order entry = .ok order)
    (hchild : g.ImmediatelyDominates entry n t)
    {rest : List BlockId} (hfirst : g.children (.ofGraph g entry) n = t :: rest) :
    [n, t] <:+: order := by
  obtain ⟨-, hconnected, -⟩ := order_eq_ok h
  obtain ⟨below, hheight, hpiece⟩ := exists_subtree h hchild.1
  have hlt := card_dominators_lt hconnected hchild.1 hchild.2.1 hchild.2.2.1
  obtain ⟨levels, -, htree⟩ := @preorder_eq_cons g entry below t hchild.2.1 (by omega)
  rw [hfirst, List.flatMap_cons, htree] at hpiece
  exact (List.prefix_append [n, t] _).isInfix.trans hpiece

lemma follows_of_dominates {order : List BlockId} (h : g.order entry = .ok order)
    (hedge : ⟨n, t, .fallThrough⟩ ∈ g.edges)
    (hone : ∀ c, ⟨n, c, .fallThrough⟩ ∈ g.edges → c = t) (hne : n ≠ t)
    (hdominates : g.Dominates entry n t) : [n, t] <:+: order := by
  obtain ⟨hentry, hconnected, -⟩ := order_eq_ok h
  have hchild := immediatelyDominates_of_paths hentry hconnected (g.edges_inside _ hedge).2
    (isImmediateDominator_of_edge .fallThrough hne hedge hdominates)
  obtain ⟨rest, hfirst⟩ := children_eq_cons ((mem_children hentry).mpr hchild)
    (fun _ => sooner_of_fallThrough hedge hone)
  exact follows_of_first_child h hchild hfirst

end Graph

/-! ## Placed blocks -/

lemma Placement.exists_pair {placement : Placement} {n t : BlockId}
    (h : [n, t] <:+: placement.map PlacedBlock.block) :
    ∃ (before : Placement) (p q : PlacedBlock) (after : Placement),
      placement = before ++ p :: q :: after ∧ p.block = n ∧ q.block = t := by
  obtain ⟨before, after, hblocks⟩ := h
  rw [List.append_assoc] at hblocks
  obtain ⟨left, rest, rfl, -, hrest⟩ := List.map_eq_append_iff.mp hblocks.symm
  obtain ⟨p, behind, rfl, hp, hbehind⟩ := List.map_eq_cons_iff.mp hrest
  obtain ⟨q, right, rfl, hq, -⟩ := List.map_eq_cons_iff.mp hbehind
  exact ⟨left, p, q, right, rfl, hp, hq⟩

namespace Scope

variable {scope : Scope σ} {r : Routine} {order : List BlockId} {position : Nat}
  {start : UInt32} {s s' : CodeState σ} {placement : Placement}

/-- A block that was placed falls through to one block at most. -/
lemma fallThroughs_of_place (h : scope.place r order position start s = .ok placement s')
    {p : PlacedBlock} (hp : p ∈ placement) {t : BlockId}
    (hedge : ⟨p.block, t, .fallThrough⟩ ∈ r.graph.edges) :
    r.graph.fallThroughs p.block = [t] := by
  obtain ⟨before, after, rfl⟩ := List.append_of_mem hp
  have hmem := Graph.mem_fallThroughs.mpr hedge
  rcases fallThroughJump_eq_ok (place_header_jump h).2 with ⟨hnone, -⟩ | ⟨target, hone, -⟩
  · rw [hnone] at hmem
    cases hmem
  · rw [hone, List.mem_singleton] at hmem
    rw [hone, hmem]

/-- No jump is needed when the block that control falls through to is placed next. -/
lemma jump_of_follows {before after : Placement} {p q : PlacedBlock}
    (h : scope.place r order position start s = .ok (before ++ p :: q :: after) s')
    (hone : r.graph.fallThroughs p.block = [q.block]) : p.code.jump = none := by
  rcases fallThroughJump_eq_ok (place_header_jump h).2 with ⟨-, hnone⟩ | ⟨target, htarget, hway⟩
  · exact hnone
  · rw [hone, List.cons.injEq] at htarget
    rcases hway with ⟨-, hnone⟩ | ⟨hnext, -⟩
    · exact hnone
    · exact absurd (congrArg some htarget.1) hnext

lemma place_adjacent (horder : r.graph.order r.entry = .ok order)
    (h : scope.place r order position start s = .ok placement s') {n t : BlockId}
    (hedge : ⟨n, t, .fallThrough⟩ ∈ r.graph.edges) (hne : t ≠ n)
    (hdominates : r.graph.Dominates r.entry n t) :
    ∃ (before : Placement) (p q : PlacedBlock) (after : Placement),
      placement = before ++ p :: q :: after ∧ p.block = n ∧ q.block = t ∧ p.code.jump = none := by
  have hblocks := place_blocks h
  have hn : n ∈ placement.map PlacedBlock.block := by
    rw [hblocks, Graph.mem_order horder]
    exact (r.graph.edges_inside _ hedge).1
  obtain ⟨source, hsource, rfl⟩ := List.mem_map.mp hn
  have hone := fallThroughs_of_place h hsource hedge
  have hpair : [source.block, t] <:+: placement.map PlacedBlock.block := by
    rw [hblocks]
    apply Graph.follows_of_dominates horder hedge _ hne.symm hdominates
    intro c hc
    rw [← Graph.mem_fallThroughs, hone, List.mem_singleton] at hc
    exact hc
  obtain ⟨before, p, q, after, rfl, hp, rfl⟩ := Placement.exists_pair hpair
  refine ⟨before, p, q, after, rfl, hp, rfl, ?_⟩
  rw [← hp] at hone
  exact jump_of_follows h hone

end Scope

/-- In the code that compilation appends, a block that control falls through to from its dominator
is placed right behind it, and no jump is added there. -/
theorem compile_dominated_follows {services : Services σ} {options : Options} {r : Routine}
    {w w' : Workspace σ} (hcompile : compile services options r w = .ok () w') :
    ∃ placement, compiledPlacement services options r w = some placement ∧
      w'.body.instructions = w.body.instructions ++ placement.instructions ∧
      ∀ n t, ⟨n, t, .fallThrough⟩ ∈ r.graph.edges → t ≠ n → r.graph.Dominates r.entry n t →
        ∃ (before : Placement) (p q : PlacedBlock) (after : Placement),
          placement = before ++ p :: q :: after ∧ p.block = n ∧ q.block = t ∧
            p.code.jump = none := by
  obtain ⟨placement, headers, start, order, locals, t, hplacement, -, horder, hplace, hcode, -⟩ :=
    compile_placement hcompile
  exact ⟨placement, hplacement, hcode, fun _ _ => Scope.place_adjacent horder hplace⟩

/-- The outer guarded stretch falls through to the inner one, and both the outer handler and the
block where all ways meet again come to stand behind it. -/
theorem nestedGuards_dominated_follows : ∃ w' placement before p q after,
    compile plainServices {} nestedGuards ⟨usedBody, ()⟩ = .ok () w' ∧
      compiledPlacement plainServices {} nestedGuards ⟨usedBody, ()⟩ = some placement ∧
      nestedGuards.graph.Dominates nestedGuards.entry 1 2 ∧
      placement = before ++ p :: q :: after ∧ p.block = 1 ∧ q.block = 2 ∧ p.code.jump = none := by
  obtain ⟨w', hcompile⟩ : ∃ w', compile plainServices {} nestedGuards ⟨usedBody, ()⟩ = .ok () w' :=
    ⟨_, rfl⟩
  have hdominates : nestedGuards.graph.Dominates nestedGuards.entry 1 2 :=
    Graph.dominates_iff_strictly.mpr
      (Or.inr ((Graph.dominates_ofGraph (by decide)).mp (by decide)).2.2)
  obtain ⟨placement, hplacement, -, hfollows⟩ := compile_dominated_follows hcompile
  obtain ⟨before, p, q, after, hpair⟩ := hfollows 1 2 (by decide) (by decide) hdominates
  exact ⟨w', placement, before, p, q, after, hcompile, hplacement, hdominates, hpair⟩

end CilBackend
