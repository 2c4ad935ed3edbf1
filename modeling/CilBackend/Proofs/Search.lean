import CilBackend.Proofs.Neighbours
import Mathlib.Data.Finset.Card
import Mathlib.Data.Finset.Range
import Mathlib.Tactic.Common

/-!
# What the search finds

A walk goes from block to block along successors through allowed blocks only. The search takes the
marks from exactly those blocks that a walk through marked blocks comes to.
-/

namespace CilBackend

/-- The blocks to which a walk through allowed blocks leads from `start`. -/
inductive Walk (successors : BlockId → List BlockId) (allowed : BlockId → Prop)
    (start : BlockId) : BlockId → Prop
  | here : allowed start → Walk successors allowed start start
  | next {b c : BlockId} : Walk successors allowed start b → c ∈ successors b → allowed c →
      Walk successors allowed start c

namespace Walk

variable {successors : BlockId → List BlockId} {allowed : BlockId → Prop} {a b c : BlockId}

lemma allowed_start (h : Walk successors allowed a b) : allowed a := by
  induction h with
  | here ha => exact ha
  | next _ _ _ ih => exact ih

lemma allowed_stop (h : Walk successors allowed a b) : allowed b := by
  cases h with
  | here ha => exact ha
  | next _ _ hc => exact hc

lemma mono {allowed' : BlockId → Prop} (h : Walk successors allowed a b)
    (hsub : ∀ x, allowed x → allowed' x) : Walk successors allowed' a b := by
  induction h with
  | here ha => exact here (hsub _ ha)
  | next _ hc hallowed ih => exact ih.next hc (hsub _ hallowed)

lemma congr {successors' : BlockId → List BlockId}
    (hsame : ∀ x y, y ∈ successors x ↔ y ∈ successors' x) :
    Walk successors allowed a b ↔ Walk successors' allowed a b := by
  constructor
  · intro h
    induction h with
    | here ha => exact here ha
    | next _ hc hallowed ih => exact ih.next ((hsame _ _).mp hc) hallowed
  · intro h
    induction h with
    | here ha => exact here ha
    | next _ hc hallowed ih => exact ih.next ((hsame _ _).mpr hc) hallowed

lemma trans (hab : Walk successors allowed a b) (hbc : Walk successors allowed b c) :
    Walk successors allowed a c := by
  induction hbc with
  | here _ => exact hab
  | next _ hc hallowed ih => exact ih.next hc hallowed

lemma head (ha : allowed a) (hb : b ∈ successors a) (hbc : Walk successors allowed b c) :
    Walk successors allowed a c :=
  ((here ha).next hb hbc.allowed_start).trans hbc

end Walk

/-! ## Marks -/

def Marked (marks : Array Bool) (b : BlockId) : Prop :=
  marks.getD b false = true

lemma lt_size_of_marked {marks : Array Bool} {b : BlockId} (h : Marked marks b) :
    b < marks.size := by
  by_contra hb
  unfold Marked at h
  rw [Array.getD_eq_getD_getElem?, Array.getElem?_eq_none (Nat.le_of_not_lt hb)] at h
  cases h

lemma marked_setIfInBounds {marks : Array Bool} {a b : BlockId} :
    Marked (marks.setIfInBounds a false) b ↔ b ≠ a ∧ Marked marks b := by
  unfold Marked
  rw [Array.getD_eq_getD_getElem?, Array.getD_eq_getD_getElem?, Array.getElem?_setIfInBounds]
  by_cases hab : a = b
  · subst hab
    by_cases ha : a < marks.size
    · simp [ha]
    · simp [ha]
  · simp [hab, Ne.symm hab]

def markedSet (marks : Array Bool) : Finset BlockId :=
  (Finset.range marks.size).filter fun b => marks.getD b false = true

lemma mem_markedSet {marks : Array Bool} {b : BlockId} :
    b ∈ markedSet marks ↔ Marked marks b := by
  unfold markedSet
  rw [Finset.mem_filter, Finset.mem_range]
  exact ⟨fun h => h.2, fun h => ⟨lt_size_of_marked h, h⟩⟩

section Unmark

variable {successors : BlockId → List BlockId}

/-- The search along each of some blocks in turn, as `unmark` does it for the successors. -/
def unmarkAll (successors : BlockId → List BlockId) (depth : Nat) (blocks : List BlockId)
    (marks : Array Bool) : Array Bool :=
  blocks.foldl (fun marks next => unmark successors depth next marks) marks

lemma unmark_marked {depth : Nat} {block : BlockId} {marks : Array Bool}
    (h : Marked marks block) :
    unmark successors (depth + 1) block marks =
      unmarkAll successors depth (successors block) (marks.setIfInBounds block false) := by
  unfold Marked at h
  rw [unmark, if_pos h, unmarkAll]

lemma unmark_unmarked {depth : Nat} {block : BlockId} {marks : Array Bool}
    (h : ¬ Marked marks block) : unmark successors depth block marks = marks := by
  unfold Marked at h
  cases depth with
  | zero => rfl
  | succ depth => rw [unmark, if_neg h]

/-- A search along several blocks sets no mark if none of the searches along one block does. -/
lemma marked_of_unmarkAll {depth : Nat} {b : BlockId}
    (hone : ∀ block marks, Marked (unmark successors depth block marks) b → Marked marks b)
    {blocks : List BlockId} {marks : Array Bool}
    (h : Marked (unmarkAll successors depth blocks marks) b) : Marked marks b := by
  induction blocks generalizing marks with
  | nil => exact h
  | cons first rest ih => exact hone first marks (ih h)

lemma marked_of_unmark {depth : Nat} {block : BlockId} {marks : Array Bool} {b : BlockId}
    (h : Marked (unmark successors depth block marks) b) : Marked marks b := by
  induction depth generalizing block marks with
  | zero => exact h
  | succ depth ih =>
    by_cases hblock : Marked marks block
    · rw [unmark_marked hblock] at h
      exact (marked_setIfInBounds.mp (marked_of_unmarkAll (fun _ _ => ih) h)).2
    · rwa [unmark_unmarked hblock] at h

lemma walk_of_unmarkAll {depth : Nat} {b : BlockId}
    (hone : ∀ block marks, Marked marks b → ¬ Marked (unmark successors depth block marks) b →
      Walk successors (Marked marks) block b)
    {blocks : List BlockId} {marks : Array Bool} (hb : Marked marks b)
    (hunmarked : ¬ Marked (unmarkAll successors depth blocks marks) b) :
    ∃ next ∈ blocks, Walk successors (Marked marks) next b := by
  induction blocks generalizing marks with
  | nil => exact absurd hb hunmarked
  | cons first rest ih =>
    by_cases hfirst : Marked (unmark successors depth first marks) b
    · obtain ⟨next, hnext, hwalk⟩ := ih hfirst hunmarked
      exact ⟨next, List.mem_cons_of_mem first hnext, hwalk.mono fun _ => marked_of_unmark⟩
    · exact ⟨first, List.mem_cons_self, hone first marks hb hfirst⟩

/-- A block loses its mark only when a walk through marked blocks comes to it. -/
lemma walk_of_unmark {depth : Nat} {block : BlockId} {marks : Array Bool} {b : BlockId}
    (hb : Marked marks b) (hunmarked : ¬ Marked (unmark successors depth block marks) b) :
    Walk successors (Marked marks) block b := by
  induction depth generalizing block marks with
  | zero => exact absurd hb hunmarked
  | succ depth ih =>
    by_cases hblock : Marked marks block
    · rw [unmark_marked hblock] at hunmarked
      by_cases heq : b = block
      · subst heq
        exact Walk.here hblock
      · obtain ⟨next, hnext, hwalk⟩ := walk_of_unmarkAll (fun _ _ => ih)
          (marked_setIfInBounds.mpr ⟨heq, hb⟩) hunmarked
        exact Walk.head hblock hnext (hwalk.mono fun _ hx => (marked_setIfInBounds.mp hx).2)
    · rw [unmark_unmarked hblock] at hunmarked
      exact absurd hb hunmarked

/-- No mark is left behind a block that has lost its mark. -/
def ClosedBetween (successors : BlockId → List BlockId) (before after : Array Bool) : Prop :=
  ∀ u, Marked before u → ¬ Marked after u → ∀ v ∈ successors u, ¬ Marked after v

lemma unmarkAll_closed {depth : Nat}
    (hone : ∀ block marks, (markedSet marks).card ≤ depth →
      ¬ Marked (unmark successors depth block marks) block ∧
        ClosedBetween successors marks (unmark successors depth block marks))
    (blocks : List BlockId) (marks : Array Bool) (hdepth : (markedSet marks).card ≤ depth) :
    (∀ v ∈ blocks, ¬ Marked (unmarkAll successors depth blocks marks) v) ∧
      ClosedBetween successors marks (unmarkAll successors depth blocks marks) := by
  induction blocks generalizing marks with
  | nil => exact ⟨by simp, fun u hu hnot => absurd hu hnot⟩
  | cons first rest ih =>
    obtain ⟨hfirst, hclosed⟩ := hone first marks hdepth
    have hcard : (markedSet (unmark successors depth first marks)).card ≤ depth := by
      refine Nat.le_trans (Finset.card_le_card ?_) hdepth
      intro x hx
      exact mem_markedSet.mpr (marked_of_unmark (mem_markedSet.mp hx))
    obtain ⟨hrest, hrestClosed⟩ := ih _ hcard
    have hmono : ∀ x, Marked (unmarkAll successors depth (first :: rest) marks) x →
        Marked (unmark successors depth first marks) x := by
      intro x hx
      rw [unmarkAll, List.foldl_cons, ← unmarkAll] at hx
      exact marked_of_unmarkAll (fun _ _ => marked_of_unmark) hx
    refine ⟨?_, ?_⟩
    · intro v hv
      rcases List.mem_cons.mp hv with rfl | hv
      · exact fun hmarked => hfirst (hmono v hmarked)
      · exact hrest v hv
    · intro u hu hnot v hv hmarked
      by_cases hmiddle : Marked (unmark successors depth first marks) u
      · exact hrestClosed u hmiddle hnot v hv hmarked
      · exact hclosed u hu hmiddle v hv (hmono v hmarked)

lemma card_markedSet_setIfInBounds {marks : Array Bool} {block : BlockId}
    (h : Marked marks block) :
    (markedSet (marks.setIfInBounds block false)).card < (markedSet marks).card := by
  apply Finset.card_lt_card
  refine (Finset.ssubset_iff_of_subset ?_).mpr ⟨block, mem_markedSet.mpr h, ?_⟩
  · intro x hx
    exact mem_markedSet.mpr (marked_setIfInBounds.mp (mem_markedSet.mp hx)).2
  · intro hx
    exact (marked_setIfInBounds.mp (mem_markedSet.mp hx)).1 rfl

/-- With enough depth the search leaves no mark behind a block that it comes to. -/
lemma unmark_closed (depth : Nat) (block : BlockId) (marks : Array Bool)
    (hdepth : (markedSet marks).card ≤ depth) :
    ¬ Marked (unmark successors depth block marks) block ∧
      ClosedBetween successors marks (unmark successors depth block marks) := by
  induction depth generalizing block marks with
  | zero =>
    have hnone : ∀ u, ¬ Marked marks u := by
      intro u hu
      have hpos := Finset.card_pos.mpr ⟨u, mem_markedSet.mpr hu⟩
      omega
    exact ⟨hnone block, fun u hu => absurd hu (hnone u)⟩
  | succ depth ih =>
    by_cases hblock : Marked marks block
    · rw [unmark_marked hblock]
      have hcard := card_markedSet_setIfInBounds hblock
      obtain ⟨hsuccessors, hclosed⟩ := unmarkAll_closed ih (successors block)
        (marks.setIfInBounds block false) (by omega)
      refine ⟨?_, ?_⟩
      · intro hmarked
        have hset := marked_of_unmarkAll (fun _ _ => marked_of_unmark) hmarked
        exact (marked_setIfInBounds.mp hset).1 rfl
      · intro u hu hnot v hv
        by_cases heq : u = block
        · subst heq
          exact hsuccessors v hv
        · exact hclosed u (marked_setIfInBounds.mpr ⟨heq, hu⟩) hnot v hv
    · rw [unmark_unmarked hblock]
      exact ⟨hblock, fun u hu hnot => absurd hu hnot⟩

/-- With enough depth the search takes the mark from exactly those blocks that a walk through
marked blocks comes to. -/
theorem marked_unmark_iff {depth : Nat} {block : BlockId} {marks : Array Bool} {b : BlockId}
    (hdepth : (markedSet marks).card ≤ depth) :
    Marked (unmark successors depth block marks) b ↔
      Marked marks b ∧ ¬ Walk successors (Marked marks) block b := by
  obtain ⟨hblock, hclosed⟩ := @unmark_closed successors depth block marks hdepth
  constructor
  · intro hmarked
    refine ⟨marked_of_unmark hmarked, ?_⟩
    intro hwalk
    have hunmarked : ∀ x, Walk successors (Marked marks) block x →
        ¬ Marked (unmark successors depth block marks) x := by
      intro x hx
      induction hx with
      | here _ => exact hblock
      | next hwalk hc _ ih => exact hclosed _ hwalk.allowed_stop ih _ hc
    exact hunmarked b hwalk hmarked
  · rintro ⟨hmarked, hnowalk⟩
    by_contra hnot
    exact hnowalk (walk_of_unmark hmarked hnot)

lemma size_unmarkAll {depth : Nat}
    (hone : ∀ block marks, (unmark successors depth block marks).size = marks.size)
    (blocks : List BlockId) (marks : Array Bool) :
    (unmarkAll successors depth blocks marks).size = marks.size := by
  induction blocks generalizing marks with
  | nil => rfl
  | cons first rest ih => exact (ih _).trans (hone first marks)

lemma size_unmark (depth : Nat) (block : BlockId) (marks : Array Bool) :
    (unmark successors depth block marks).size = marks.size := by
  induction depth generalizing block marks with
  | zero => rfl
  | succ depth ih =>
    by_cases hmarked : Marked marks block
    · rw [unmark_marked hmarked, size_unmarkAll ih, Array.size_setIfInBounds]
    · rw [unmark_unmarked hmarked]

end Unmark

namespace Graph

variable {g : Graph}

/-- A table with one entry for each block, read at any number. -/
lemma getD_nodes_map {α : Type} (f : BlockId → α) (b : BlockId) (default : α) :
    (g.nodes.map f).toArray.getD b default = if b < g.size then f b else default := by
  unfold Graph.nodes
  rw [Array.getD_eq_getD_getElem?, List.getElem?_toArray, List.getElem?_map]
  by_cases hb : b < g.size
  · simp [hb]
  · simp [hb]

lemma marked_ofNodes {marked : BlockId → Bool} {b : BlockId} :
    Marked (g.nodes.map marked).toArray b ↔ b < g.size ∧ marked b = true := by
  unfold Marked
  rw [getD_nodes_map]
  by_cases hb : b < g.size
  · simp [hb]
  · simp [hb]

/-- The blocks that a search from `entry` does not see are the marked ones to which no walk
leads. -/
lemma marked_unseenFrom {successors : BlockId → List BlockId} {entry : BlockId}
    {marked : BlockId → Bool} {b : BlockId} :
    Marked (g.unseenFrom successors entry marked) b ↔ (b < g.size ∧ marked b = true) ∧
      ¬ Walk successors (fun x => x < g.size ∧ marked x = true) entry b := by
  have hdepth : (markedSet (g.nodes.map marked).toArray).card ≤ g.size := by
    have hle : (markedSet (g.nodes.map marked).toArray).card ≤ (Finset.range g.size).card := by
      apply Finset.card_le_card
      intro x hx
      exact Finset.mem_range.mpr (marked_ofNodes.mp (mem_markedSet.mp hx)).1
    rwa [Finset.card_range] at hle
  have hallowed : Marked (g.nodes.map marked).toArray =
      fun x => x < g.size ∧ marked x = true := by
    funext x
    exact propext marked_ofNodes
  unfold Graph.unseenFrom
  rw [marked_unmark_iff hdepth, hallowed]

/-- What a search does not see depends on the sets of successors only, although the search goes
through them one by one. -/
lemma unseenFrom_congr {successors successors' : BlockId → List BlockId}
    (hsame : ∀ x y, y ∈ successors x ↔ y ∈ successors' x) (entry : BlockId)
    (marked : BlockId → Bool) :
    g.unseenFrom successors entry marked = g.unseenFrom successors' entry marked := by
  have hsize : ∀ s : BlockId → List BlockId, (g.unseenFrom s entry marked).size = g.size := by
    intro s
    unfold Graph.unseenFrom
    rw [size_unmark]
    simp [Graph.nodes]
  apply Array.ext (by rw [hsize, hsize])
  intro b hb hb'
  have hmarks : Marked (g.unseenFrom successors entry marked) b ↔
      Marked (g.unseenFrom successors' entry marked) b := by
    rw [marked_unseenFrom, marked_unseenFrom, Walk.congr hsame]
  unfold Marked at hmarks
  rw [Array.getD_eq_getD_getElem?, Array.getD_eq_getD_getElem?, Array.getElem?_eq_getElem hb,
    Array.getElem?_eq_getElem hb', Option.getD_some, Option.getD_some] at hmarks
  exact Bool.eq_iff_iff.mpr hmarks

end Graph

end CilBackend
