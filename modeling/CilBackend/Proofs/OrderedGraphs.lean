import CilBackend.Proofs.DominatorPreorder
import Mathlib.Order.Bounds.Basic

/-!
# Graphs that have an order

The blocks of a graph have an order exactly when the entry is one of them and a path leads from it
to every other one. The order lists each block once, from the entry on. A graph without an order is
refused for its entry, or for the first of the blocks that are cut off from it.
-/

namespace CilBackend.Graph

variable {g : Graph} {entry : BlockId}

/-- A path along edges of any kind leads from the entry to `n`. -/
def Reachable (g : Graph) (entry n : BlockId) : Prop :=
  ∃ blocks, g.Path entry n blocks

lemma reachable_iff_walk {n : BlockId} :
    g.Reachable entry n ↔ Walk g.successors (fun _ => True) entry n := by
  constructor
  · rintro ⟨blocks, hpath⟩
    exact walk_of_path hpath fun _ _ => trivial
  · intro hwalk
    obtain ⟨blocks, hpath, -⟩ := exists_path hwalk
    exact ⟨blocks, hpath⟩

lemma connected_iff : g.Connected entry ↔ ∀ n < g.size, g.Reachable entry n := by
  simp only [Graph.Connected, reachable_iff_walk]

lemma exists_order_iff : (∃ order, g.order entry = .ok order) ↔
    entry < g.size ∧ ∀ n < g.size, g.Reachable entry n := by
  rw [← connected_iff]
  constructor
  · rintro ⟨order, h⟩
    obtain ⟨hentry, hconnected, -⟩ := order_eq_ok h
    exact ⟨hentry, hconnected⟩
  · rintro ⟨hentry, hconnected⟩
    refine ⟨g.unstack (.ofGraph g entry) g.size [entry], ?_⟩
    unfold Graph.order
    rw [if_pos hentry, (unreachable_eq_nil hentry).mpr hconnected]

/-! ## Graphs without an order -/

/-- The blocks that are cut off from the entry. -/
def cutOff (g : Graph) (entry : BlockId) : Set BlockId :=
  {n | n < g.size ∧ ¬ g.Reachable entry n}

lemma mem_cutOff (hentry : entry < g.size) {n : BlockId} :
    n ∈ g.cutOff entry ↔ n ∈ g.unreachable entry := by
  rw [mem_unreachable hentry, ← reachable_iff_walk]
  rfl

/-- Unreachable blocks are listed in ascending order, so the first one is the least. -/
lemma isLeast_of_unreachable (hentry : entry < g.size) {first : BlockId} {rest : List BlockId}
    (h : g.unreachable entry = first :: rest) : IsLeast (g.cutOff entry) first := by
  have hascending : (g.unreachable entry).Pairwise (· < ·) := List.pairwise_lt_range.filter _
  rw [h, List.pairwise_cons] at hascending
  constructor
  · rw [mem_cutOff hentry, h]
    exact List.mem_cons_self
  · intro n hn
    rw [mem_cutOff hentry, h] at hn
    rcases List.mem_cons.mp hn with rfl | hrest
    · exact Nat.le_refl n
    · exact Nat.le_of_lt (hascending.1 n hrest)

lemma order_eq_unknownBlock_iff :
    g.order entry = .error (.unknownBlock entry) ↔ g.size ≤ entry := by
  unfold Graph.order
  by_cases hentry : entry < g.size
  · rw [if_pos hentry]
    cases g.unreachable entry with
    | nil => simp [hentry]
    | cons first rest => simp [hentry]
  · simp [hentry, Nat.le_of_not_lt hentry]

lemma order_eq_unreachableBlock_iff {n : BlockId} :
    g.order entry = .error (.unreachableBlock n) ↔
      entry < g.size ∧ IsLeast (g.cutOff entry) n := by
  unfold Graph.order
  by_cases hentry : entry < g.size
  · rw [if_pos hentry]
    cases hunreachable : g.unreachable entry with
    | nil =>
      have hnone : n ∉ g.cutOff entry := by simp [mem_cutOff hentry, hunreachable]
      simp only [reduceCtorEq, false_iff]
      exact fun hleast => hnone hleast.2.1
    | cons first rest =>
      have hfirst := isLeast_of_unreachable hentry hunreachable
      simp only [Except.error.injEq, LayoutError.unreachableBlock.injEq]
      constructor
      · rintro rfl
        exact ⟨hentry, hfirst⟩
      · rintro ⟨-, hleast⟩
        exact hfirst.unique hleast
  · simp [hentry]

/-- The blocks of a graph have an order exactly when the entry is one of them and reaches all of
them. The order then lists every block once and starts with the entry. Otherwise the graph is
refused for an entry that is no block, and for the least of the blocks that are cut off from one
that is. -/
theorem order_iff_reachable (g : Graph) (entry : BlockId) :
    ((∃ order, g.order entry = .ok order) ↔
      entry < g.size ∧ ∀ n < g.size, g.Reachable entry n) ∧
    (∀ order, g.order entry = .ok order →
      order.Nodup ∧ (∀ n, n ∈ order ↔ n < g.size) ∧ order.head? = some entry) ∧
    (g.order entry = .error (.unknownBlock entry) ↔ g.size ≤ entry) ∧
    ∀ n, g.order entry = .error (.unreachableBlock n) ↔
      entry < g.size ∧ IsLeast (g.cutOff entry) n := by
  refine ⟨exists_order_iff, ?_, order_eq_unknownBlock_iff, fun _ => order_eq_unreachableBlock_iff⟩
  intro order horder
  obtain ⟨rest, hhead⟩ := order_head horder
  refine ⟨order_nodup horder, fun n => mem_order horder, ?_⟩
  rw [hhead, List.head?_cons]

/-- From its first block the graph has an order. From the one where the ways meet again the blocks
before it are cut off, and the first block is the one that is named. -/
theorem joinedCycle_order_iff_reachable :
    (∀ n < joinedCycle.size, joinedCycle.Reachable 0 n) ∧
      (∃ order, joinedCycle.order 0 = .ok order ∧ order.Nodup ∧
        (∀ n, n ∈ order ↔ n < joinedCycle.size) ∧ order.head? = some 0) ∧
      IsLeast (joinedCycle.cutOff 4) 0 ∧
      joinedCycle.order 7 = .error (.unknownBlock 7) := by
  obtain ⟨hexists, hlists, -, -⟩ := order_iff_reachable joinedCycle 0
  obtain ⟨order, horder⟩ : ∃ order, joinedCycle.order 0 = .ok order := ⟨_, rfl⟩
  obtain ⟨-, -, -, hcut⟩ := order_iff_reachable joinedCycle 4
  obtain ⟨-, -, hunknown, -⟩ := order_iff_reachable joinedCycle 7
  exact ⟨(hexists.mp ⟨order, horder⟩).2, ⟨order, horder, hlists order horder⟩,
    ((hcut 0).mp rfl).2, hunknown.mpr (by decide)⟩

end CilBackend.Graph
