import CilBackend.Proofs.Order
import Mathlib.Data.List.Flatten

/-!
# The order as a preorder of dominance

Dominance is said with paths here: a block dominates another one when every path from the entry to
the other one goes through it. The order puts every block behind its dominators, keeps what a block
dominates in one piece behind it, and sorts blocks with the same immediate dominator by the way
control comes to them.
-/

namespace CilBackend

/-- One block comes before another one in the order. -/
def Precedes (order : List BlockId) (a b : BlockId) : Prop :=
  [a, b].Sublist order

namespace Precedes

variable {order order' : List BlockId} {a b : BlockId}

lemma of_piece (h : Precedes order a b) (hpiece : order <:+: order') : Precedes order' a b :=
  List.Sublist.trans h hpiece.sublist

lemma of_mem_append (ha : a ∈ order) (hb : b ∈ order') : Precedes (order ++ order') a b :=
  (List.singleton_sublist.mpr ha).append (List.singleton_sublist.mpr hb)

lemma total (ha : a ∈ order) (hb : b ∈ order) (hne : a ≠ b) :
    Precedes order a b ∨ Precedes order b a := by
  obtain ⟨before, after, rfl⟩ := List.append_of_mem ha
  rcases List.mem_append.mp hb with hbefore | hafter
  · exact Or.inr (of_mem_append hbefore List.mem_cons_self)
  · have hrest : b ∈ after := (List.mem_cons.mp hafter).resolve_left hne.symm
    exact Or.inl ((of_mem_append (List.mem_singleton_self a) hrest).of_piece
      (List.suffix_append before _).isInfix)

end Precedes

namespace Graph

variable {g : Graph} {entry : BlockId}

/-! ## Paths -/

/-- The blocks that a path along edges of any kind goes through, from the entry to its end. -/
inductive Path (g : Graph) (entry : BlockId) : BlockId → List BlockId → Prop
  | entry : Path g entry entry [entry]
  | edge {b : BlockId} {blocks : List BlockId} {e : Edge} : Path g entry b blocks →
      e ∈ g.edges → e.source = b → Path g entry e.target (blocks ++ [e.target])

/-- Every path from the entry to `n` goes through `d`. -/
def Dominates (g : Graph) (entry d n : BlockId) : Prop :=
  ∀ blocks, g.Path entry n blocks → d ∈ blocks

/-- `p` is a dominator of `c` other than `c`, and all other ones dominate `p`. -/
def IsImmediateDominator (g : Graph) (entry p c : BlockId) : Prop :=
  p ≠ c ∧ g.Dominates entry p c ∧ ∀ d, d ≠ c → g.Dominates entry d c → g.Dominates entry d p

lemma walk_of_path {allowed : BlockId → Prop} {n : BlockId} {blocks : List BlockId}
    (h : g.Path entry n blocks) (hallowed : ∀ b ∈ blocks, allowed b) :
    Walk g.successors allowed entry n := by
  induction h with
  | entry => exact Walk.here (hallowed _ (List.mem_singleton_self _))
  | edge _ he hsource ih =>
    rw [List.forall_mem_append] at hallowed
    exact (ih hallowed.1).next (mem_successors.mpr ⟨_, he, hsource, rfl⟩)
      (hallowed.2 _ (List.mem_singleton_self _))

lemma exists_path {allowed : BlockId → Prop} {n : BlockId}
    (h : Walk g.successors allowed entry n) :
    ∃ blocks, g.Path entry n blocks ∧ ∀ b ∈ blocks, allowed b := by
  induction h with
  | here ha =>
    refine ⟨[entry], Path.entry, ?_⟩
    rw [List.forall_mem_singleton]
    exact ha
  | next _ hc ha ih =>
    obtain ⟨blocks, hpath, hallowed⟩ := ih
    obtain ⟨e, he, hsource, rfl⟩ := mem_successors.mp hc
    refine ⟨blocks ++ [e.target], hpath.edge he hsource, ?_⟩
    rw [List.forall_mem_append, List.forall_mem_singleton]
    exact ⟨hallowed, ha⟩

/-- A block is dominated by another one exactly when no walk leads past that one. -/
lemma dominates_iff {d n : BlockId} :
    g.Dominates entry d n ↔ ¬ Walk g.successors (· ≠ d) entry n := by
  constructor
  · intro h hwalk
    obtain ⟨blocks, hpath, hallowed⟩ := exists_path hwalk
    exact hallowed d (h blocks hpath) rfl
  · intro h blocks hpath
    by_contra hd
    apply h (walk_of_path hpath _)
    rintro b hb rfl
    exact hd hb

lemma dominates_iff_strictly {d n : BlockId} :
    g.Dominates entry d n ↔ n = d ∨ StrictlyDominates g.successors entry d n := by
  rw [dominates_iff]
  by_cases hn : n = d
  · subst hn
    exact ⟨fun _ => Or.inl rfl, fun _ hwalk => hwalk.allowed_stop rfl⟩
  · exact ⟨fun h => Or.inr ⟨Ne.symm hn, h⟩, fun h => (h.resolve_left hn).2⟩

/-- A block that dominates a reachable block is one of the graph. -/
lemma lt_of_dominates (hentry : entry < g.size) (hconnected : g.Connected entry) {d n : BlockId}
    (hn : n < g.size) (h : g.Dominates entry d n) : d < g.size := by
  have hwalk := (walk_inside hentry).mpr (hconnected n hn)
  obtain ⟨blocks, hpath, hinside⟩ := exists_path hwalk
  exact (hinside d (h blocks hpath)).1

lemma immediatelyDominates_of_paths (hentry : entry < g.size) (hconnected : g.Connected entry)
    {p c : BlockId} (hc : c < g.size) (h : g.IsImmediateDominator entry p c) :
    g.ImmediatelyDominates entry p c := by
  obtain ⟨hne, hdominates, hclosest⟩ := h
  have hstrict := (dominates_iff_strictly.mp hdominates).resolve_left hne.symm
  refine ⟨lt_of_dominates hentry hconnected hc hdominates, hc, hstrict, ?_⟩
  rintro b hb ⟨hpb, hbc⟩
  have hback := hclosest b hbc.1 (dominates_iff_strictly.mpr (Or.inr hbc))
  rcases dominates_iff_strictly.mp hback with rfl | hbp
  · exact StrictlyDominates.irrefl hpb
  · exact hbp.asymm (hconnected b hb) hpb

/-- A block that dominates one of its successors is the immediate dominator of it: whatever else
dominates the successor stands on every path that comes to it along the edge. -/
lemma isImmediateDominator_of_edge (kind : EdgeKind) {p c : BlockId} (hne : p ≠ c)
    (hedge : ⟨p, c, kind⟩ ∈ g.edges) (hdominates : g.Dominates entry p c) :
    g.IsImmediateDominator entry p c := by
  refine ⟨hne, hdominates, ?_⟩
  intro d hd hdc blocks hpath
  have hmem := hdc _ (hpath.edge hedge rfl)
  rw [List.mem_append, List.mem_singleton] at hmem
  exact hmem.resolve_right hd

/-! ## Children -/

/-- `a` comes to be laid out before `b` among the children of `parent`. -/
def Sooner (g : Graph) (parent a b : BlockId) : Prop :=
  g.rank parent a < g.rank parent b ∨ (g.rank parent a = g.rank parent b ∧ a < b)

lemma Sooner.asymm {parent a b : BlockId} (h : g.Sooner parent a b) : ¬ g.Sooner parent b a := by
  rintro (hless | ⟨heq, hlt⟩)
  · rcases h with hless' | ⟨heq', -⟩
    · omega
    · omega
  · rcases h with hless' | ⟨-, hlt'⟩
    · omega
    · exact Nat.lt_asymm hlt hlt'

instance (g : Graph) (parent : BlockId) : Std.Total (g.MayPrecede parent) where
  total a b := by
    rcases Nat.lt_trichotomy (g.approach parent a) (g.approach parent b) with hlt | heq | hgt
    · exact Or.inl (Or.inl hlt)
    · exact (Nat.le_total a b).imp (fun hle => Or.inr ⟨heq, hle⟩) fun hle => Or.inr ⟨heq.symm, hle⟩
    · exact Or.inr (Or.inl hgt)

instance (g : Graph) (parent : BlockId) : IsTrans BlockId (g.MayPrecede parent) where
  trans a b c hab hbc := by
    rcases hab with hab | ⟨hab, hle⟩
    · rcases hbc with hbc | ⟨hbc, -⟩
      · exact Or.inl (Nat.lt_trans hab hbc)
      · exact Or.inl (hbc ▸ hab)
    · rcases hbc with hbc | ⟨hbc, hle'⟩
      · exact Or.inl (hab ▸ hbc)
      · exact Or.inr ⟨hab.trans hbc, Nat.le_trans hle hle'⟩

lemma sooner_of_mayPrecede {parent a b : BlockId} (h : g.MayPrecede parent a b) (hne : a ≠ b) :
    g.Sooner parent a b := by
  unfold Graph.MayPrecede at h
  rw [approach_eq_rank, approach_eq_rank] at h
  exact h.imp id fun ⟨heq, hle⟩ => ⟨heq, Nat.lt_of_le_of_ne hle hne⟩

lemma children_sorted (tree : DominatorTree) (parent : BlockId) :
    (g.children tree parent).Pairwise (g.Sooner parent) := by
  have hsorted : (g.children tree parent).Pairwise (g.MayPrecede parent) := pairwise_sortBy _
  exact hsorted.imp₂ (fun a b h hne => sooner_of_mayPrecede h hne) nodup_children

lemma precedes_children {tree : DominatorTree} {parent a b : BlockId}
    (ha : a ∈ g.children tree parent) (hb : b ∈ g.children tree parent)
    (h : g.Sooner parent a b) : Precedes (g.children tree parent) a b := by
  have hne : a ≠ b := by
    rintro rfl
    exact h.asymm h
  rcases Precedes.total ha hb hne with hab | hba
  · exact hab
  · exact absurd (List.pairwise_iff_forall_sublist.mp (children_sorted tree parent) hba) h.asymm

/-! ## Subtrees -/

/-- Each piece of a joined list stands in it in one piece. -/
lemma infix_flatMap {c : BlockId} {blocks : List BlockId} (f : BlockId → List BlockId)
    (hc : c ∈ blocks) : f c <:+: blocks.flatMap f := by
  obtain ⟨before, after, rfl⟩ := List.append_of_mem hc
  rw [List.flatMap_append, List.flatMap_cons]
  exact ⟨before.flatMap f, after.flatMap f, List.append_assoc _ _ _⟩

lemma precedes_flatMap {blocks : List BlockId} {f : BlockId → List BlockId} {a b : BlockId}
    (ha : a ∈ f a) (hb : b ∈ f b) (h : Precedes blocks a b) : Precedes (blocks.flatMap f) a b := by
  have hpair : Precedes ([a, b].flatMap f) a b := by
    rw [List.flatMap_cons, List.flatMap_cons, List.flatMap_nil, List.append_nil]
    exact Precedes.of_mem_append ha hb
  exact List.Sublist.trans hpair (List.Sublist.flatMap h f)

variable {height : Nat} {p d n : BlockId}

/-- With enough levels the tree below a block holds exactly what the block dominates. -/
lemma mem_preorder_iff (hentry : entry < g.size) (hconnected : g.Connected entry)
    (hd : d < g.size) (hheight : g.size ≤ (g.dominators entry d).card + height) :
    n ∈ g.preorder (.ofGraph g entry) height d ↔ n < g.size ∧ g.Dominates entry d n := by
  rw [dominates_iff_strictly]
  constructor
  · exact mem_preorder hentry hconnected hd
  · rintro ⟨hn, h⟩
    have hlt := @card_dominators_lt_size g entry n hn
    exact mem_preorder_of_dominates hentry hconnected hd hn h (by omega)

lemma preorder_eq_cons (hd : d < g.size)
    (hheight : g.size ≤ (g.dominators entry d).card + height) :
    ∃ below, height = below + 1 ∧ g.preorder (.ofGraph g entry) height d =
      d :: (g.children (.ofGraph g entry) d).flatMap (g.preorder (.ofGraph g entry) below) := by
  have hlt := @card_dominators_lt_size g entry d hd
  obtain ⟨below, rfl⟩ : ∃ below, height = below + 1 := ⟨height - 1, by omega⟩
  exact ⟨below, rfl, rfl⟩

/-- The tree below a dominated block stands in one piece in the tree of its dominator. -/
lemma preorder_piece (hentry : entry < g.size) (hconnected : g.Connected entry) (hp : p < g.size)
    (hd : d < g.size) (h : d = p ∨ StrictlyDominates g.successors entry p d)
    (hheight : g.size ≤ (g.dominators entry p).card + height) :
    ∃ height', g.size ≤ (g.dominators entry d).card + height' ∧
      g.preorder (.ofGraph g entry) height' d <:+: g.preorder (.ofGraph g entry) height p := by
  induction height generalizing p with
  | zero =>
    have hlt := @card_dominators_lt_size g entry p hp
    omega
  | succ height ih =>
    rcases h with rfl | h
    · exact ⟨height + 1, hheight, List.infix_rfl⟩
    · obtain ⟨c, hpc, hcd⟩ := exists_child_toward hconnected hp hd h
      have hlt := card_dominators_lt hconnected hp hpc.2.1 hpc.2.2.1
      obtain ⟨height', hheight', hpiece⟩ := ih hpc.2.1 (hcd.imp Eq.symm id) (by omega)
      refine ⟨height', hheight', hpiece.trans ?_⟩
      rw [Graph.preorder]
      exact (infix_flatMap _ ((mem_children hentry).mpr hpc)).trans (List.suffix_cons _ _).isInfix

/-! ## The order -/

variable {order : List BlockId}

/-- The order holds the tree below each of its blocks in one piece. -/
lemma exists_subtree (h : g.order entry = .ok order) (hd : d < g.size) :
    ∃ below, g.size ≤ (g.dominators entry d).card + (below + 1) ∧
      d :: (g.children (.ofGraph g entry) d).flatMap (g.preorder (.ofGraph g entry) below) <:+:
        order := by
  obtain ⟨hentry, hconnected, rfl⟩ := order_eq_ok h
  have htree : d = entry ∨ StrictlyDominates g.successors entry entry d := by
    by_cases heq : d = entry
    · exact Or.inl heq
    · exact Or.inr (StrictlyDominates.of_entry heq)
  obtain ⟨height, hheight, hpiece⟩ :=
    preorder_piece hentry hconnected hentry hd htree (Nat.le_add_left _ _)
  obtain ⟨below, rfl, heq⟩ := preorder_eq_cons hd hheight
  exact ⟨below, hheight, heq ▸ hpiece⟩

lemma exists_dominated_run (h : g.order entry = .ok order) (hd : d < g.size) :
    ∃ run, d :: run <:+: order ∧ ∀ n, n ∈ d :: run ↔ n < g.size ∧ g.Dominates entry d n := by
  obtain ⟨below, hheight, hpiece⟩ := exists_subtree h hd
  obtain ⟨hentry, hconnected, -⟩ := order_eq_ok h
  exact ⟨_, hpiece, fun n => mem_preorder_iff hentry hconnected hd hheight⟩

lemma precedes_of_dominates (h : g.order entry = .ok order) (hn : n < g.size) (hne : d ≠ n)
    (hdominates : g.Dominates entry d n) : Precedes order d n := by
  obtain ⟨hentry, hconnected, -⟩ := order_eq_ok h
  have hd := lt_of_dominates hentry hconnected hn hdominates
  obtain ⟨run, hpiece, hrun⟩ := exists_dominated_run h hd
  have hmem := (List.mem_cons.mp ((hrun n).mpr ⟨hn, hdominates⟩)).resolve_left hne.symm
  exact (Precedes.of_mem_append (List.mem_singleton_self d) hmem).of_piece hpiece

lemma precedes_siblings (h : g.order entry = .ok order) {a b : BlockId} (ha : a < g.size)
    (hb : b < g.size) (hpa : g.IsImmediateDominator entry p a)
    (hpb : g.IsImmediateDominator entry p b) (hsooner : g.Sooner p a b) :
    Precedes order a b := by
  obtain ⟨hentry, hconnected, -⟩ := order_eq_ok h
  have hchildA := immediatelyDominates_of_paths hentry hconnected ha hpa
  have hchildB := immediatelyDominates_of_paths hentry hconnected hb hpb
  obtain ⟨below, hheight, hpiece⟩ := exists_subtree h hchildA.1
  -- A child has one dominator more than its parent, so the levels left are enough for it.
  have hroot : ∀ c, g.ImmediatelyDominates entry p c →
      c ∈ g.preorder (.ofGraph g entry) below c := by
    intro c hc
    have hlt := card_dominators_lt hconnected hc.1 hc.2.1 hc.2.2.1
    obtain ⟨levels, -, heq⟩ := @preorder_eq_cons g entry below c hc.2.1 (by omega)
    rw [heq]
    exact List.mem_cons_self
  have hchildren := precedes_children ((mem_children hentry).mpr hchildA)
    ((mem_children hentry).mpr hchildB) hsooner
  exact ((precedes_flatMap (hroot a hchildA) (hroot b hchildB) hchildren).of_piece
    (List.suffix_cons _ _).isInfix).of_piece hpiece

/-- The order lists every block once: behind all its dominators, in one piece with what it dominates
itself, and in the order of their approach when blocks have the same immediate dominator. -/
theorem order_dominatorPreorder (h : g.order entry = .ok order) :
    order.Perm g.nodes ∧
      (∀ d n, n < g.size → d ≠ n → g.Dominates entry d n → Precedes order d n) ∧
      (∀ d < g.size, ∃ run, d :: run <:+: order ∧
        ∀ n, n ∈ d :: run ↔ n < g.size ∧ g.Dominates entry d n) ∧
      ∀ p a b, a < g.size → b < g.size → g.IsImmediateDominator entry p a →
        g.IsImmediateDominator entry p b → g.Sooner p a b → Precedes order a b :=
  ⟨order_perm h, fun _ _ => precedes_of_dominates h, fun _ => exists_dominated_run h,
    fun _ _ _ => precedes_siblings h⟩

lemma dominates_entry (g : Graph) (entry n : BlockId) : g.Dominates entry entry n := by
  rw [dominates_iff]
  exact fun hwalk => hwalk.allowed_start rfl

/-- A successor of the entry has no other dominator than the entry and itself. -/
lemma isImmediateDominator_entry (kind : EdgeKind) {c : BlockId} (hc : entry ≠ c)
    (hedge : ⟨entry, c, kind⟩ ∈ g.edges) : g.IsImmediateDominator entry entry c :=
  isImmediateDominator_of_edge kind hc hedge (dominates_entry g entry c)

/-- Three ways from the entry, two of which meet again in front of a cycle with two entries. -/
def joinedCycle : Graph where
  blocks := List.replicate 7 []
  edges := [⟨0, 2, .branch⟩, ⟨0, 3, .fallThrough⟩, ⟨0, 1, .exceptional⟩, ⟨1, 4, .branch⟩,
    ⟨3, 4, .fallThrough⟩, ⟨4, 5, .branch⟩, ⟨4, 6, .fallThrough⟩, ⟨5, 6, .branch⟩, ⟨6, 5, .branch⟩]
  edges_inside := by decide

lemma joinedCycle_join : joinedCycle.IsImmediateDominator 0 0 4 := by
  refine ⟨by decide, dominates_entry _ _ _, ?_⟩
  intro d hne hd
  have hthrow : joinedCycle.Path 0 4 [0, 1, 4] :=
    (Path.entry.edge (e := ⟨0, 1, .exceptional⟩) (by decide) rfl).edge (e := ⟨1, 4, .branch⟩)
      (by decide) rfl
  have hfall : joinedCycle.Path 0 4 [0, 3, 4] :=
    (Path.entry.edge (e := ⟨0, 3, .fallThrough⟩) (by decide) rfl).edge (e := ⟨3, 4, .fallThrough⟩)
      (by decide) rfl
  have hleft := hd _ hthrow
  have hright := hd _ hfall
  obtain rfl : d = 0 := by
    simp only [List.mem_cons, List.not_mem_nil, or_false] at hleft hright
    rcases hleft with rfl | rfl | rfl
    · rfl
    · simp at hright
    · exact absurd rfl hne
  exact dominates_entry _ _ _

/-- The children of the entry are come to in four ways: by falling through, by an exception, by a
branch, and through other blocks. -/
theorem joinedCycle_dominatorPreorder : ∃ order,
    joinedCycle.order 0 = .ok order ∧ order = [0, 3, 1, 2, 4, 6, 5] ∧
      joinedCycle.Dominates 0 4 5 ∧ Precedes order 4 5 ∧
      (∃ run, 4 :: run <:+: order ∧
        ∀ n, n ∈ 4 :: run ↔ n < joinedCycle.size ∧ joinedCycle.Dominates 0 4 n) ∧
      (joinedCycle.IsImmediateDominator 0 0 3 ∧ joinedCycle.IsImmediateDominator 0 0 1 ∧
        joinedCycle.IsImmediateDominator 0 0 2 ∧ joinedCycle.IsImmediateDominator 0 0 4) ∧
      (joinedCycle.Sooner 0 3 1 ∧ joinedCycle.Sooner 0 1 2 ∧ joinedCycle.Sooner 0 2 4) ∧
      Precedes order 3 1 ∧ Precedes order 1 2 ∧ Precedes order 2 4 := by
  obtain ⟨order, horder, heq⟩ : ∃ order,
      joinedCycle.order 0 = .ok order ∧ order = [0, 3, 1, 2, 4, 6, 5] := ⟨_, rfl, by decide⟩
  have hdominates : joinedCycle.Dominates 0 4 5 :=
    dominates_iff_strictly.mpr (Or.inr ((dominates_ofGraph (by decide)).mp (by decide)).2.2)
  have hfall : joinedCycle.IsImmediateDominator 0 0 3 :=
    isImmediateDominator_entry .fallThrough (by decide) (by decide)
  have hthrow : joinedCycle.IsImmediateDominator 0 0 1 :=
    isImmediateDominator_entry .exceptional (by decide) (by decide)
  have hbranch : joinedCycle.IsImmediateDominator 0 0 2 :=
    isImmediateDominator_entry .branch (by decide) (by decide)
  have hsooner : joinedCycle.Sooner 0 3 1 ∧ joinedCycle.Sooner 0 1 2 ∧ joinedCycle.Sooner 0 2 4 :=
    ⟨Or.inl (by decide), Or.inl (by decide), Or.inl (by decide)⟩
  obtain ⟨-, hbehind, hrun, hsiblings⟩ := order_dominatorPreorder horder
  exact ⟨order, horder, heq, hdominates, hbehind 4 5 (by decide) (by decide) hdominates,
    hrun 4 (by decide), ⟨hfall, hthrow, hbranch, joinedCycle_join⟩, hsooner,
    hsiblings 0 3 1 (by decide) (by decide) hfall hthrow hsooner.1,
    hsiblings 0 1 2 (by decide) (by decide) hthrow hbranch hsooner.2.1,
    hsiblings 0 2 4 (by decide) (by decide) hbranch joinedCycle_join hsooner.2.2⟩

end Graph

end CilBackend
