import CilBackend.Layout.Order
import Mathlib.Data.List.Sort

/-!
# Neighbour lists

Lists of neighbours are collected along the edges of a block and then sorted. What comes out depends
only on which edges there are: a list of distinct blocks holds, in ascending order, the blocks to
which an edge leads, and the approach of a child is the rank of the most direct edge to it.
-/

namespace CilBackend

/-! ## Sorting -/

section Sorting

variable {α : Type} {le : α → α → Prop} [DecidableRel le]

lemma insertSorted_eq_orderedInsert (a : α) (xs : List α) :
    insertSorted le a xs = xs.orderedInsert le a := by
  induction xs with
  | nil => rfl
  | cons b rest ih => rw [insertSorted, List.orderedInsert_cons, ih]

lemma sortBy_eq_insertionSort (xs : List α) : sortBy le xs = xs.insertionSort le := by
  induction xs with
  | nil => rfl
  | cons a rest ih =>
    rw [sortBy, ih, insertSorted_eq_orderedInsert, List.insertionSort_cons]

lemma perm_sortBy (xs : List α) : (sortBy le xs).Perm xs := by
  rw [sortBy_eq_insertionSort]
  exact List.perm_insertionSort le xs

lemma pairwise_sortBy [Std.Total le] [IsTrans α le] (xs : List α) : (sortBy le xs).Pairwise le := by
  rw [sortBy_eq_insertionSort]
  exact List.pairwise_insertionSort le xs

lemma mem_dropRepeats [DecidableEq α] {a : α} {xs : List α} : a ∈ dropRepeats xs ↔ a ∈ xs := by
  induction xs using dropRepeats.induct with
  | case1 => rfl
  | case2 b => rfl
  | case3 b rest ih =>
    rw [dropRepeats, if_pos rfl, ih]
    simp
  | case4 b c rest hne ih => rw [dropRepeats, if_neg hne, List.mem_cons, ih, ← List.mem_cons]

/-- Among sorted numbers equal ones stand next to each other, so that none is left twice. -/
lemma dropRepeats_ascending {xs : List Nat} (h : xs.Pairwise (· ≤ ·)) :
    (dropRepeats xs).Pairwise (· < ·) := by
  induction xs using dropRepeats.induct with
  | case1 => exact List.Pairwise.nil
  | case2 a => exact List.pairwise_singleton _ a
  | case3 a rest ih =>
    rw [dropRepeats, if_pos rfl]
    exact ih (List.pairwise_cons.mp h).2
  | case4 a b rest hne ih =>
    obtain ⟨hfirst, hrest⟩ := List.pairwise_cons.mp h
    have hab : a < b := Nat.lt_of_le_of_ne (hfirst b List.mem_cons_self) hne
    rw [dropRepeats, if_neg hne, List.pairwise_cons]
    refine ⟨?_, ih hrest⟩
    intro c hc
    rcases List.mem_cons.mp (mem_dropRepeats.mp hc) with rfl | hmem
    · exact hab
    · exact Nat.lt_of_lt_of_le hab ((List.pairwise_cons.mp hrest).1 c hmem)

end Sorting

namespace Graph

variable {g : Graph}

lemma mem_nodes {n : BlockId} : n ∈ g.nodes ↔ n < g.size :=
  List.mem_range

/-- Distinct blocks of a graph are the nodes that the list holds, in the order of the nodes. -/
lemma distinctBlocks_eq_filter {blocks : List BlockId} (h : ∀ b ∈ blocks, b < g.size) :
    distinctBlocks blocks = g.nodes.filter (· ∈ blocks) := by
  have hsorted : (sortBy (· ≤ ·) blocks).Pairwise (· ≤ ·) := pairwise_sortBy blocks
  have hdistinct : (distinctBlocks blocks).Pairwise (· < ·) := dropRepeats_ascending hsorted
  have hnodes : (g.nodes.filter (· ∈ blocks)).Pairwise (· < ·) := List.pairwise_lt_range.filter _
  have hperm : (distinctBlocks blocks).Perm (g.nodes.filter (· ∈ blocks)) := by
    apply (List.perm_ext_iff_of_nodup hdistinct.nodup hnodes.nodup).mpr
    intro b
    unfold distinctBlocks
    rw [mem_dropRepeats, (perm_sortBy blocks).mem_iff, List.mem_filter, mem_nodes,
      decide_eq_true_eq]
    exact ⟨fun hb => ⟨h b hb, hb⟩, fun hb => hb.2⟩
  exact hperm.eq_of_pairwise (fun a b _ _ hab hba => absurd hba (Nat.lt_asymm hab)) hdistinct hnodes

/-! ## Successors -/

lemma mem_edgesFrom {n : BlockId} {e : Edge} :
    e ∈ g.edgesFrom n ↔ e ∈ g.edges ∧ e.source = n := by
  unfold Graph.edgesFrom
  rw [List.mem_reverse, List.mem_filter, decide_eq_true_eq]

lemma mem_neighbours {n m : BlockId} :
    m ∈ g.neighbours n ↔ ∃ e ∈ g.edges, e.source = n ∧ e.target = m := by
  unfold Graph.neighbours
  simp only [List.mem_map, mem_edgesFrom, and_assoc]

/-- The successors of a block are the blocks to which an edge leads from it, in ascending order. -/
lemma successors_eq_filter (g : Graph) (n : BlockId) :
    g.successors n = g.nodes.filter fun m => ∃ e ∈ g.edges, e.source = n ∧ e.target = m := by
  unfold Graph.successors
  rw [distinctBlocks_eq_filter (g := g)]
  · simp only [mem_neighbours]
  · intro m hm
    obtain ⟨e, he, -, rfl⟩ := mem_neighbours.mp hm
    exact (g.edges_inside e he).2

lemma mem_successors {n m : BlockId} :
    m ∈ g.successors n ↔ ∃ e ∈ g.edges, e.source = n ∧ e.target = m := by
  rw [successors_eq_filter, List.mem_filter, mem_nodes, decide_eq_true_eq]
  constructor
  · exact And.right
  · rintro ⟨e, he, hsource, rfl⟩
    exact ⟨(g.edges_inside e he).2, e, he, hsource, rfl⟩

lemma nodup_successors (g : Graph) (n : BlockId) : (g.successors n).Nodup := by
  rw [successors_eq_filter]
  exact List.nodup_range.filter _

lemma successor_lt {n m : BlockId} (h : m ∈ g.successors n) : n < g.size ∧ m < g.size := by
  obtain ⟨e, he, rfl, rfl⟩ := mem_successors.mp h
  exact g.edges_inside e he

/-- Blocks are fallen into in ascending order too. -/
lemma fallThroughs_eq_filter (g : Graph) (n : BlockId) :
    g.fallThroughs n = g.nodes.filter fun m => ⟨n, m, .fallThrough⟩ ∈ g.edges := by
  have hmem : ∀ m, m ∈ ((g.edgesFrom n).filter fun e => e.kind = .fallThrough).map Edge.target ↔
      ⟨n, m, .fallThrough⟩ ∈ g.edges := by
    intro m
    simp only [List.mem_map, List.mem_filter, mem_edgesFrom, decide_eq_true_eq]
    constructor
    · rintro ⟨⟨source, target, kind⟩, ⟨⟨he, rfl⟩, rfl⟩, rfl⟩
      exact he
    · intro he
      exact ⟨_, ⟨⟨he, rfl⟩, rfl⟩, rfl⟩
  unfold Graph.fallThroughs
  rw [distinctBlocks_eq_filter (g := g)]
  · simp only [hmem]
  · intro m hm
    exact (g.edges_inside _ ((hmem m).mp hm)).2

lemma mem_fallThroughs {n t : BlockId} :
    t ∈ g.fallThroughs n ↔ ⟨n, t, .fallThrough⟩ ∈ g.edges := by
  rw [fallThroughs_eq_filter, List.mem_filter, mem_nodes, decide_eq_true_eq]
  exact ⟨And.right, fun he => ⟨(g.edges_inside _ he).2, he⟩⟩

lemma nodup_fallThroughs (g : Graph) (n : BlockId) : (g.fallThroughs n).Nodup := by
  rw [fallThroughs_eq_filter]
  exact List.nodup_range.filter _

/-! ## Approaches -/

/-- How control comes from a block to a child of it: by falling through, if it can, else by an
exception, else by a branch, and else only through other blocks. -/
def rank (g : Graph) (parent child : BlockId) : Nat :=
  if ⟨parent, child, .fallThrough⟩ ∈ g.edges then 0
  else if ⟨parent, child, .exceptional⟩ ∈ g.edges then 1
  else if ⟨parent, child, .branch⟩ ∈ g.edges then 2
  else 3

lemma mem_ranks {parent child : BlockId} {n : Nat} :
    n ∈ ((g.edgesFrom parent).filter fun e => e.target = child).map (fun e => e.kind.rank) ↔
      ∃ kind, ⟨parent, child, kind⟩ ∈ g.edges ∧ EdgeKind.rank kind = n := by
  simp only [List.mem_map, List.mem_filter, mem_edgesFrom, decide_eq_true_eq]
  constructor
  · rintro ⟨⟨source, target, kind⟩, ⟨⟨he, rfl⟩, rfl⟩, rfl⟩
    exact ⟨kind, he, rfl⟩
  · rintro ⟨kind, he, rfl⟩
    exact ⟨_, ⟨⟨he, rfl⟩, rfl⟩, rfl⟩

lemma approach_of_least {parent child : BlockId} {kind : EdgeKind}
    (hedge : ⟨parent, child, kind⟩ ∈ g.edges)
    (hleast : ∀ other, ⟨parent, child, other⟩ ∈ g.edges → kind.rank ≤ EdgeKind.rank other) :
    g.approach parent child = kind.rank := by
  have hmin : (((g.edgesFrom parent).filter fun e => e.target = child).map
      fun e => e.kind.rank).min? = some kind.rank := by
    rw [List.min?_eq_some_iff]
    refine ⟨mem_ranks.mpr ⟨kind, hedge, rfl⟩, ?_⟩
    intro n hn
    obtain ⟨other, hother, rfl⟩ := mem_ranks.mp hn
    exact hleast other hother
  unfold Graph.approach
  rw [hmin, Option.getD_some]

/-- The minimum over the edges is the rank of the most direct one. -/
lemma approach_eq_rank (g : Graph) (parent child : BlockId) :
    g.approach parent child = g.rank parent child := by
  unfold Graph.rank
  split_ifs with hfall hthrow hbranch
  · exact approach_of_least hfall fun _ _ => Nat.zero_le _
  · apply approach_of_least hthrow
    intro other hother
    cases other with
    | fallThrough => exact absurd hother hfall
    | exceptional => exact Nat.le_refl 1
    | branch => exact Nat.le_succ 1
  · apply approach_of_least hbranch
    intro other hother
    cases other with
    | fallThrough => exact absurd hother hfall
    | exceptional => exact absurd hother hthrow
    | branch => exact Nat.le_refl 2
  · have hempty : ((g.edgesFrom parent).filter fun e => e.target = child).map
        (fun e => e.kind.rank) = [] := by
      rw [List.eq_nil_iff_forall_not_mem]
      intro n hn
      obtain ⟨kind, hedge, -⟩ := mem_ranks.mp hn
      cases kind with
      | fallThrough => exact hfall hedge
      | exceptional => exact hthrow hedge
      | branch => exact hbranch hedge
    unfold Graph.approach
    rw [hempty]
    rfl

end Graph

end CilBackend
