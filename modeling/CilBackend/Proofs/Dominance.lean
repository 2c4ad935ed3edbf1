import CilBackend.Proofs.Search

/-!
# Strict dominance

A block strictly dominates another one when no walk from the entry comes to the other one past it.
Among reachable blocks this is a strict order in which the dominators of a block form a chain, and
the computed tree is the one of this order.
-/

namespace CilBackend

/-- No walk from `entry` that avoids `d` leads to `n`. -/
def StrictlyDominates (successors : BlockId → List BlockId) (entry d n : BlockId) : Prop :=
  d ≠ n ∧ ¬ Walk successors (· ≠ d) entry n

namespace StrictlyDominates

variable {successors : BlockId → List BlockId} {entry a b c : BlockId}

/-- A walk to a block comes first to `a`, first to `b`, or to neither of them. -/
lemma first_of_two (hab : a ≠ b) {n : BlockId} (h : Walk successors (fun _ => True) entry n) :
    Walk successors (fun x => x ≠ a ∧ x ≠ b) entry n ∨
      Walk successors (· ≠ b) entry a ∨ Walk successors (· ≠ a) entry b := by
  induction h with
  | here _ =>
    by_cases ha : entry = a
    · subst ha
      exact Or.inr (Or.inl (Walk.here hab))
    · by_cases hb : entry = b
      · subst hb
        exact Or.inr (Or.inr (Walk.here hab.symm))
      · exact Or.inl (Walk.here ⟨ha, hb⟩)
  | @next m n _ hn _ ih =>
    rcases ih with hneither | hfirst
    · by_cases ha : n = a
      · subst ha
        exact Or.inr (Or.inl ((hneither.mono fun x hx => hx.2).next hn hab))
      · by_cases hb : n = b
        · subst hb
          exact Or.inr (Or.inr ((hneither.mono fun x hx => hx.1).next hn hab.symm))
        · exact Or.inl (hneither.next hn ⟨ha, hb⟩)
    · exact Or.inr hfirst

/-- A walk from any block comes last to `a`, last to `b`, or to neither of them. -/
lemma last_of_two (hab : a ≠ b) {m n : BlockId} (hna : n ≠ a) (hnb : n ≠ b)
    (h : Walk successors (fun _ => True) m n) :
    Walk successors (fun x => x ≠ a ∧ x ≠ b) m n ∨
      Walk successors (· ≠ b) a n ∨ Walk successors (· ≠ a) b n := by
  -- The walk is followed forwards, and its part behind the last visit is kept in the statement.
  have hgeneral : ∀ n, Walk successors (fun _ => True) m n →
      Walk successors (fun x => x ≠ a ∧ x ≠ b) m n ∨
        (n ≠ b ∧ Walk successors (· ≠ b) a n) ∨ (n ≠ a ∧ Walk successors (· ≠ a) b n) := by
    intro n hwalk
    induction hwalk with
    | here _ =>
      by_cases ha : m = a
      · subst ha
        exact Or.inr (Or.inl ⟨hab, Walk.here hab⟩)
      · by_cases hb : m = b
        · subst hb
          exact Or.inr (Or.inr ⟨hab.symm, Walk.here hab.symm⟩)
        · exact Or.inl (Walk.here ⟨ha, hb⟩)
    | @next k n _ hn _ ih =>
      by_cases ha : n = a
      · subst ha
        exact Or.inr (Or.inl ⟨hab, Walk.here hab⟩)
      · by_cases hb : n = b
        · subst hb
          exact Or.inr (Or.inr ⟨hab.symm, Walk.here hab.symm⟩)
        · rcases ih with hneither | ⟨-, hlast⟩ | ⟨-, hlast⟩
          · exact Or.inl (hneither.next hn ⟨ha, hb⟩)
          · exact Or.inr (Or.inl ⟨hb, hlast.next hn hb⟩)
          · exact Or.inr (Or.inr ⟨ha, hlast.next hn ha⟩)
  rcases hgeneral n h with hneither | ⟨-, hlast⟩ | ⟨-, hlast⟩
  · exact Or.inl hneither
  · exact Or.inr (Or.inl hlast)
  · exact Or.inr (Or.inr hlast)

lemma irrefl : ¬ StrictlyDominates successors entry a a :=
  fun h => h.1 rfl

lemma asymm (hreach : Walk successors (fun _ => True) entry a)
    (hab : StrictlyDominates successors entry a b) :
    ¬ StrictlyDominates successors entry b a := by
  intro hba
  rcases first_of_two hab.1 hreach with hneither | hwalk | hwalk
  · exact hneither.allowed_stop.1 rfl
  · exact hba.2 hwalk
  · exact hab.2 hwalk

lemma trans (hreach : Walk successors (fun _ => True) entry c)
    (hab : StrictlyDominates successors entry a b)
    (hbc : StrictlyDominates successors entry b c) :
    StrictlyDominates successors entry a c := by
  have hac : a ≠ c := by
    rintro rfl
    exact asymm hreach hab hbc
  refine ⟨hac, ?_⟩
  intro hwalk
  -- The walk has to come to `b`, and up to there it avoids `a`.
  have hto : ∀ n, Walk successors (· ≠ a) entry n →
      Walk successors (· ≠ b) entry n ∨ Walk successors (· ≠ a) entry b := by
    intro n hn
    induction hn with
    | here ha =>
      by_cases hb : entry = b
      · subst hb
        exact Or.inr (Walk.here ha)
      · exact Or.inl (Walk.here hb)
    | @next m n hm hn ha ih =>
      by_cases hb : n = b
      · subst hb
        exact Or.inr (hm.next hn ha)
      · rcases ih with hwalk | hwalk
        · exact Or.inl (hwalk.next hn hb)
        · exact Or.inr hwalk
  rcases hto c hwalk with hpast | hb
  · exact hbc.2 hpast
  · exact hab.2 hb

/-- Of two blocks that dominate a third, one dominates the other. -/
lemma chain (hreach : Walk successors (fun _ => True) entry c)
    (hac : StrictlyDominates successors entry a c)
    (hbc : StrictlyDominates successors entry b c) (hab : a ≠ b) :
    StrictlyDominates successors entry a b ∨ StrictlyDominates successors entry b a := by
  rcases last_of_two hab hac.1.symm hbc.1.symm hreach with hneither | hlast | hlast
  · exact absurd (hneither.mono fun x hx => hx.1) hac.2
  · exact Or.inr ⟨hab.symm, fun hwalk => hbc.2 (hwalk.trans hlast)⟩
  · exact Or.inl ⟨hab, fun hwalk => hac.2 (hwalk.trans hlast)⟩

lemma of_entry (h : a ≠ entry) : StrictlyDominates successors entry entry a :=
  ⟨h.symm, fun hwalk => hwalk.allowed_start rfl⟩

end StrictlyDominates

/-! ## The computed tree -/

namespace Graph

variable {g : Graph} {entry : BlockId}

/-- It makes no difference to a walk whether neighbours are sorted. -/
lemma walk_neighbours {allowed : BlockId → Prop} {a b : BlockId} :
    Walk g.neighbours allowed a b ↔ Walk g.successors allowed a b :=
  Walk.congr fun _ _ => mem_neighbours.trans mem_successors.symm

lemma walk_inside {allowed : BlockId → Prop} {b : BlockId} (hentry : entry < g.size) :
    Walk g.successors (fun x => x < g.size ∧ allowed x) entry b ↔
      Walk g.successors allowed entry b := by
  constructor
  · intro h
    exact h.mono fun x hx => hx.2
  · intro h
    induction h with
    | here ha => exact Walk.here ⟨hentry, ha⟩
    | next _ hc ha ih => exact ih.next hc ⟨(successor_lt hc).2, ha⟩

/-- Every block can be reached from the entry. -/
def Connected (g : Graph) (entry : BlockId) : Prop :=
  ∀ n < g.size, Walk g.successors (fun _ => True) entry n

lemma mem_unreachable (hentry : entry < g.size) {n : BlockId} :
    n ∈ g.unreachable entry ↔ n < g.size ∧ ¬ Walk g.successors (fun _ => True) entry n := by
  have hmarked := @marked_unseenFrom g g.neighbours entry (fun _ => true) n
  unfold Marked at hmarked
  unfold Graph.unreachable
  rw [List.mem_filter, hmarked, walk_neighbours, walk_inside hentry, mem_nodes]
  simp only [and_true, and_self_left]

lemma unreachable_eq_nil (hentry : entry < g.size) :
    g.unreachable entry = [] ↔ g.Connected entry := by
  rw [List.eq_nil_iff_forall_not_mem]
  simp only [mem_unreachable hentry, not_and, not_not]
  rfl

lemma cached_neighbours (g : Graph) :
    (fun c => (g.nodes.map g.neighbours).toArray.getD c []) = g.neighbours := by
  funext c
  rw [getD_nodes_map]
  by_cases hc : c < g.size
  · rw [if_pos hc]
  · rw [if_neg hc, eq_comm, List.eq_nil_iff_forall_not_mem]
    intro b hb
    obtain ⟨e, he, rfl, -⟩ := mem_neighbours.mp hb
    exact hc (g.edges_inside e he).1

/-- The rows of the tree mark strict dominance. -/
theorem dominates_ofGraph (hentry : entry < g.size) {a b : BlockId} :
    (DominatorTree.ofGraph g entry).dominates a b = true ↔
      a < g.size ∧ b < g.size ∧ StrictlyDominates g.successors entry a b := by
  unfold DominatorTree.dominates DominatorTree.ofGraph
  dsimp only
  rw [cached_neighbours, getD_nodes_map]
  by_cases ha : a < g.size
  · rw [if_pos ha]
    have hmarked := @marked_unseenFrom g g.neighbours entry (· != a) b
    unfold Marked at hmarked
    have hallowed : (fun x => x < g.size ∧ (x != a) = true) = fun x => x < g.size ∧ x ≠ a := by
      funext x
      rw [bne_iff_ne]
    rw [hmarked, hallowed, walk_neighbours, walk_inside hentry, bne_iff_ne]
    unfold StrictlyDominates
    constructor
    · rintro ⟨⟨hb, hne⟩, hwalk⟩
      exact ⟨ha, hb, hne.symm, hwalk⟩
    · rintro ⟨-, hb, hne, hwalk⟩
      exact ⟨⟨hb, hne.symm⟩, hwalk⟩
  · rw [if_neg ha]
    simp [ha]

/-- `p` strictly dominates `c` with no third block between them. -/
def ImmediatelyDominates (g : Graph) (entry p c : BlockId) : Prop :=
  p < g.size ∧ c < g.size ∧ StrictlyDominates g.successors entry p c ∧
    ∀ b < g.size, ¬ (StrictlyDominates g.successors entry p b ∧
      StrictlyDominates g.successors entry b c)

lemma isParent_ofGraph (hentry : entry < g.size) {p c : BlockId} :
    (DominatorTree.ofGraph g entry).isParent g.nodes p c = true ↔
      g.ImmediatelyDominates entry p c := by
  unfold DominatorTree.isParent Graph.ImmediatelyDominates
  rw [Bool.and_eq_true, dominates_ofGraph hentry, List.all_eq_true]
  simp only [Bool.not_eq_true', ← Bool.not_eq_true, Bool.and_eq_true, dominates_ofGraph hentry,
    mem_nodes]
  constructor
  · rintro ⟨⟨hp, hc, hdom⟩, hbetween⟩
    refine ⟨hp, hc, hdom, ?_⟩
    rintro b hb ⟨hpb, hbc⟩
    exact hbetween b hb ⟨⟨hp, hb, hpb⟩, hb, hc, hbc⟩
  · rintro ⟨hp, hc, hdom, hbetween⟩
    refine ⟨⟨hp, hc, hdom⟩, ?_⟩
    rintro b hb ⟨hpb, hbc⟩
    exact hbetween b hb ⟨hpb.2.2, hbc.2.2⟩

end Graph

end CilBackend
