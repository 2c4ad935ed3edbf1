import CilBackend.Proofs.Dominance
import Mathlib.Data.Finset.Max

/-!
# The block order

The order is the dominator tree in preorder, so it lists every block once and starts with the
entry.
-/

namespace CilBackend.Graph

variable {g : Graph} {entry : BlockId}

/-! ## Children -/

lemma perm_byApproach (parent : BlockId) (children : List BlockId) :
    (g.byApproach parent children).Perm children :=
  perm_sortBy children

lemma mem_children (hentry : entry < g.size) {p c : BlockId} :
    c ∈ g.children (.ofGraph g entry) p ↔ g.ImmediatelyDominates entry p c := by
  unfold Graph.children
  rw [(perm_byApproach _ _).mem_iff, List.mem_filter, mem_nodes, isParent_ofGraph hentry]
  exact ⟨fun h => h.2, fun h => ⟨h.2.1, h⟩⟩

lemma nodup_children {tree : DominatorTree} {p : BlockId} : (g.children tree p).Nodup :=
  (perm_byApproach _ _).nodup_iff.mpr (List.nodup_range.filter _)

/-! ## Depth in the tree -/

open Classical in
/-- The blocks that strictly dominate a block. -/
noncomputable def dominators (g : Graph) (entry n : BlockId) : Finset BlockId :=
  (Finset.range g.size).filter fun d => StrictlyDominates g.successors entry d n

lemma mem_dominators {d n : BlockId} :
    d ∈ g.dominators entry n ↔ d < g.size ∧ StrictlyDominates g.successors entry d n := by
  simp only [Graph.dominators, Finset.mem_filter, Finset.mem_range]

/-- A block has fewer dominators than the reachable blocks that it dominates. -/
lemma card_dominators_lt_of_walk {a b : BlockId} (ha : a < g.size)
    (hreach : Walk g.successors (fun _ => True) entry b)
    (h : StrictlyDominates g.successors entry a b) :
    (g.dominators entry a).card < (g.dominators entry b).card := by
  apply Finset.card_lt_card
  refine (Finset.ssubset_iff_of_subset ?_).mpr ⟨a, mem_dominators.mpr ⟨ha, h⟩, ?_⟩
  · intro d hd
    obtain ⟨hlt, hda⟩ := mem_dominators.mp hd
    exact mem_dominators.mpr ⟨hlt, hda.trans hreach h⟩
  · intro hself
    exact StrictlyDominates.irrefl (mem_dominators.mp hself).2

lemma card_dominators_lt (hconnected : g.Connected entry) {a b : BlockId} (ha : a < g.size)
    (hb : b < g.size) (h : StrictlyDominates g.successors entry a b) :
    (g.dominators entry a).card < (g.dominators entry b).card :=
  card_dominators_lt_of_walk ha (hconnected b hb) h

lemma card_dominators_lt_size {n : BlockId} (hn : n < g.size) :
    (g.dominators entry n).card < g.size := by
  have hlt : (g.dominators entry n).card < (Finset.range g.size).card := by
    apply Finset.card_lt_card
    refine (Finset.ssubset_iff_of_subset ?_).mpr ⟨n, Finset.mem_range.mpr hn, ?_⟩
    · intro d hd
      exact Finset.mem_range.mpr (mem_dominators.mp hd).1
    · intro hself
      exact StrictlyDominates.irrefl (mem_dominators.mp hself).2
  rwa [Finset.card_range] at hlt

/-- Below a dominator there is a child of it that is the dominated block or dominates it too. -/
lemma exists_child_toward (hconnected : g.Connected entry) {p n : BlockId} (hp : p < g.size)
    (hn : n < g.size) (h : StrictlyDominates g.successors entry p n) :
    ∃ c, g.ImmediatelyDominates entry p c ∧
      (c = n ∨ StrictlyDominates g.successors entry c n) := by
  classical
  let between := (Finset.range g.size).filter fun c =>
    StrictlyDominates g.successors entry p c ∧
      (c = n ∨ StrictlyDominates g.successors entry c n)
  have hbetween : ∀ c, c ∈ between ↔ c < g.size ∧ StrictlyDominates g.successors entry p c ∧
      (c = n ∨ StrictlyDominates g.successors entry c n) := by
    intro c
    rw [Finset.mem_filter, Finset.mem_range]
  have hnonempty : between.Nonempty := ⟨n, (hbetween n).mpr ⟨hn, h, Or.inl rfl⟩⟩
  obtain ⟨c, hc, hleast⟩ :=
    Finset.exists_min_image between (fun c => (g.dominators entry c).card) hnonempty
  obtain ⟨hlt, hpc, hcn⟩ := (hbetween c).mp hc
  refine ⟨c, ⟨hp, hlt, hpc, ?_⟩, hcn⟩
  rintro b hb ⟨hpb, hbc⟩
  have hbn : StrictlyDominates g.successors entry b n := by
    rcases hcn with rfl | hcn
    · exact hbc
    · exact hbc.trans (hconnected n hn) hcn
  have hle := hleast b ((hbetween b).mpr ⟨hb, hpb, Or.inr hbn⟩)
  have hfewer := card_dominators_lt hconnected hb hlt hbc
  omega

/-! ## The preorder -/

/-- A block and the trees of its children, up to `height` levels deep. -/
def preorder (g : Graph) (tree : DominatorTree) : (height : Nat) → BlockId → List BlockId
  | 0, _ => []
  | height + 1, block => block :: (g.children tree block).flatMap (g.preorder tree height)

lemma mem_preorder {height : Nat} {p n : BlockId} (hentry : entry < g.size)
    (hconnected : g.Connected entry) (hp : p < g.size)
    (h : n ∈ g.preorder (.ofGraph g entry) height p) :
    n < g.size ∧ (n = p ∨ StrictlyDominates g.successors entry p n) := by
  induction height generalizing p with
  | zero => simp [Graph.preorder] at h
  | succ height ih =>
    rw [Graph.preorder, List.mem_cons, List.mem_flatMap] at h
    rcases h with rfl | ⟨c, hc, hmem⟩
    · exact ⟨hp, Or.inl rfl⟩
    · obtain ⟨-, hlt, hpc, -⟩ := (mem_children hentry).mp hc
      obtain ⟨hn, rfl | hcn⟩ := ih hlt hmem
      · exact ⟨hn, Or.inr hpc⟩
      · exact ⟨hn, Or.inr (hpc.trans (hconnected n hn) hcn)⟩

lemma nodup_preorder {height : Nat} {p : BlockId} (hentry : entry < g.size)
    (hconnected : g.Connected entry) (hp : p < g.size) :
    (g.preorder (.ofGraph g entry) height p).Nodup := by
  induction height generalizing p with
  | zero => exact List.nodup_nil
  | succ height ih =>
    rw [Graph.preorder, List.nodup_cons, List.nodup_flatMap]
    refine ⟨?_, ?_, ?_⟩
    · rw [List.mem_flatMap]
      rintro ⟨c, hc, hpc⟩
      obtain ⟨-, hlt, hdom, -⟩ := (mem_children hentry).mp hc
      obtain ⟨-, rfl | hback⟩ := mem_preorder hentry hconnected hlt hpc
      · exact StrictlyDominates.irrefl hdom
      · exact hdom.asymm (hconnected p hp) hback
    · intro c hc
      exact ih ((mem_children hentry).mp hc).2.1
    · -- The trees of two children are apart, since the dominators of a block form a chain.
      apply List.Pairwise.imp_of_mem _ nodup_children
      intro c d hc hd hne n hnc hnd
      obtain ⟨-, hclt, hpc, hcbetween⟩ := (mem_children hentry).mp hc
      obtain ⟨-, hdlt, hpd, hdbetween⟩ := (mem_children hentry).mp hd
      obtain ⟨hn, hcn⟩ := mem_preorder hentry hconnected hclt hnc
      obtain ⟨-, hdn⟩ := mem_preorder hentry hconnected hdlt hnd
      have happart : ¬ StrictlyDominates g.successors entry c d ∧
          ¬ StrictlyDominates g.successors entry d c :=
        ⟨fun hcd => hdbetween c hclt ⟨hpc, hcd⟩, fun hdc => hcbetween d hdlt ⟨hpd, hdc⟩⟩
      rcases hcn with rfl | hcn
      · rcases hdn with rfl | hdn
        · exact hne rfl
        · exact happart.2 hdn
      · rcases hdn with rfl | hdn
        · exact happart.1 hcn
        · rcases hcn.chain (hconnected n hn) hdn hne with hcd | hdc
          · exact happart.1 hcd
          · exact happart.2 hdc

lemma mem_preorder_of_dominates {height : Nat} {p n : BlockId} (hentry : entry < g.size)
    (hconnected : g.Connected entry) (hp : p < g.size) (hn : n < g.size)
    (h : n = p ∨ StrictlyDominates g.successors entry p n)
    (hheight : (g.dominators entry n).card < (g.dominators entry p).card + height) :
    n ∈ g.preorder (.ofGraph g entry) height p := by
  induction height generalizing p with
  | zero =>
    rcases h with rfl | h
    · omega
    · have hlt := card_dominators_lt hconnected hp hn h
      omega
  | succ height ih =>
    rw [Graph.preorder, List.mem_cons, List.mem_flatMap]
    rcases h with rfl | h
    · exact Or.inl rfl
    · obtain ⟨c, hpc, hcn⟩ := exists_child_toward hconnected hp hn h
      have hlt := card_dominators_lt hconnected hp hpc.2.1 hpc.2.2.1
      refine Or.inr ⟨c, (mem_children hentry).mpr hpc, ih hpc.2.1 ?_ (by omega)⟩
      rcases hcn with rfl | hcn
      · exact Or.inl rfl
      · exact Or.inr hcn

/-! ## The stack -/

lemma pushAll_eq (blocks stack : List BlockId) : pushAll blocks stack = blocks ++ stack := by
  unfold pushAll
  rw [List.foldl_reverse]
  induction blocks with
  | nil => rfl
  | cons first rest ih => rw [List.foldr_cons, ih, List.cons_append]

/-- There are no more levels below a block than blocks that do not dominate it. -/
lemma preorder_succ_eq (hentry : entry < g.size) (hconnected : g.Connected entry) {height : Nat}
    {n : BlockId} (hn : n < g.size) (hheight : g.size ≤ (g.dominators entry n).card + height) :
    g.preorder (.ofGraph g entry) (height + 1) n = g.preorder (.ofGraph g entry) height n := by
  induction height generalizing n with
  | zero =>
    have hlt := @card_dominators_lt_size g entry n hn
    omega
  | succ height ih =>
    rw [Graph.preorder, Graph.preorder, List.flatMap_def, List.flatMap_def]
    congr 2
    apply List.map_congr_left
    intro c hc
    obtain ⟨-, hlt, hdominates, -⟩ := (mem_children hentry).mp hc
    have hmore := card_dominators_lt hconnected hn hlt hdominates
    exact ih hlt (by omega)

lemma preorder_size_eq (hentry : entry < g.size) (hconnected : g.Connected entry) {n : BlockId}
    (hn : n < g.size) :
    g.preorder (.ofGraph g entry) g.size n =
      n :: (g.children (.ofGraph g entry) n).flatMap (g.preorder (.ofGraph g entry) g.size) :=
  (preorder_succ_eq hentry hconnected hn (Nat.le_add_left _ _)).symm

/-- The loop lists the trees of the blocks on its stack, from the top of the stack down. -/
lemma unstack_eq_flatMap (hentry : entry < g.size) (hconnected : g.Connected entry) {steps : Nat}
    {stack : List BlockId} (hstack : ∀ n ∈ stack, n < g.size)
    (hsteps : (stack.flatMap (g.preorder (.ofGraph g entry) g.size)).length ≤ steps) :
    g.unstack (.ofGraph g entry) steps stack =
      stack.flatMap (g.preorder (.ofGraph g entry) g.size) := by
  induction steps generalizing stack with
  | zero => exact (List.eq_nil_of_length_eq_zero (Nat.le_zero.mp hsteps)).symm
  | succ steps ih =>
    cases stack with
    | nil => rfl
    | cons n rest =>
      rw [List.forall_mem_cons] at hstack
      have hlist : (n :: rest).flatMap (g.preorder (.ofGraph g entry) g.size) =
          n :: (g.children (.ofGraph g entry) n ++ rest).flatMap
            (g.preorder (.ofGraph g entry) g.size) := by
        rw [List.flatMap_cons, preorder_size_eq hentry hconnected hstack.1, List.cons_append,
          List.flatMap_append]
      rw [hlist, List.length_cons] at hsteps
      rw [Graph.unstack, pushAll_eq, hlist, ih _ (Nat.le_of_succ_le_succ hsteps)]
      rw [List.forall_mem_append]
      exact ⟨fun c hc => ((mem_children hentry).mp hc).2.1, hstack.2⟩

/-- Starting from the entry the loop lists the whole tree, a block in each step. -/
lemma unstack_entry (hentry : entry < g.size) (hconnected : g.Connected entry) :
    g.unstack (.ofGraph g entry) g.size [entry] = g.preorder (.ofGraph g entry) g.size entry := by
  have hsubset : g.preorder (.ofGraph g entry) g.size entry ⊆ g.nodes := by
    intro n hn
    exact mem_nodes.mpr (mem_preorder hentry hconnected hentry hn).1
  have hlength := (List.subperm_of_subset (nodup_preorder hentry hconnected hentry)
    hsubset).length_le
  rw [unstack_eq_flatMap hentry hconnected]
  · simp
  · simpa using hentry
  · simpa [Graph.nodes] using hlength

/-! ## The order -/

lemma order_eq_ok {order : List BlockId} (h : g.order entry = .ok order) :
    entry < g.size ∧ g.Connected entry ∧ order = g.preorder (.ofGraph g entry) g.size entry := by
  unfold Graph.order at h
  by_cases hentry : entry < g.size
  · rw [if_pos hentry] at h
    cases hunreachable : g.unreachable entry with
    | nil =>
      rw [hunreachable] at h
      cases h
      have hconnected := (unreachable_eq_nil hentry).mp hunreachable
      exact ⟨hentry, hconnected, unstack_entry hentry hconnected⟩
    | cons block rest =>
      rw [hunreachable] at h
      cases h
  · rw [if_neg hentry] at h
    cases h

lemma order_head {order : List BlockId} (h : g.order entry = .ok order) :
    ∃ rest, order = entry :: rest := by
  obtain ⟨hentry, -, rfl⟩ := order_eq_ok h
  cases hsize : g.size with
  | zero =>
    rw [hsize] at hentry
    exact absurd hentry (Nat.not_lt_zero _)
  | succ height => exact ⟨_, rfl⟩

lemma order_nodup {order : List BlockId} (h : g.order entry = .ok order) : order.Nodup := by
  obtain ⟨hentry, hconnected, rfl⟩ := order_eq_ok h
  exact nodup_preorder hentry hconnected hentry

lemma mem_order {order : List BlockId} (h : g.order entry = .ok order) {n : BlockId} :
    n ∈ order ↔ n < g.size := by
  obtain ⟨hentry, hconnected, rfl⟩ := order_eq_ok h
  constructor
  · intro hn
    exact (mem_preorder hentry hconnected hentry hn).1
  · intro hn
    have hsmall := @card_dominators_lt_size g entry n hn
    apply mem_preorder_of_dominates hentry hconnected hentry hn _ (by omega)
    by_cases heq : n = entry
    · exact Or.inl heq
    · exact Or.inr (StrictlyDominates.of_entry heq)

lemma order_perm {order : List BlockId} (h : g.order entry = .ok order) : order.Perm g.nodes := by
  apply (List.perm_ext_iff_of_nodup (order_nodup h) List.nodup_range).mpr
  intro n
  rw [mem_order h, List.mem_range]

end CilBackend.Graph
