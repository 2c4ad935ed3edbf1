import CilBackend.Proofs.CompileRuns
import Mathlib.Algebra.BigOperators.Group.List.Basic
import Mathlib.Algebra.GroupWithZero.Nat

/-!
# Labels that lowering takes

Two labels are taken for each value that is unboxed to an object, one for each block header and none
for anything else. `CodeM.Takes` says of a step how many labels it takes, and that it fails for lack
of labels only; its rules build the number up along the step.
-/

namespace CilBackend

variable {σ : Type}

/-! ## Numbers of labels -/

/-- The labels that an expression takes itself, apart from those inside it. -/
def Expr.ownLabels : Expr → Nat
  | .unbox _ target _ => if target.isObject then 2 else 0
  | _ => 0

/-- The labels that a list of expressions takes, each for itself. -/
def labelSum (parts : List Expr) : Nat :=
  (parts.map Expr.ownLabels).sum

/-- The labels that a routine takes. -/
def Routine.labelCount (r : Routine) : Nat :=
  r.graph.size + labelSum r.parts

@[simp] lemma labelSum_cons (e : Expr) (rest : List Expr) :
    labelSum (e :: rest) = e.ownLabels + labelSum rest := by
  rw [labelSum, List.map_cons, List.sum_cons, labelSum]

@[simp] lemma labelSum_append (a b : List Expr) : labelSum (a ++ b) = labelSum a + labelSum b := by
  rw [labelSum, List.map_append, List.sum_append, labelSum, labelSum]

/-- The labels inside a block. -/
def Graph.labelsInside (g : Graph) (n : BlockId) : Nat :=
  match g.blocks[n]? with
  | some b => labelSum (Block.parts b)
  | none => 0

lemma Graph.labelsInside_eq {g : Graph} {n : BlockId} {b : Block} (h : g.blocks[n]? = some b) :
    g.labelsInside n = labelSum (Block.parts b) := by
  rw [Graph.labelsInside, h]

/-- An order of all blocks takes the labels of all of them. -/
lemma sum_labelsInside {r : Routine} {order : List BlockId} (h : order.Perm r.graph.nodes) :
    (order.map r.graph.labelsInside).sum = labelSum r.parts := by
  have hblocks : r.graph.nodes.map r.graph.labelsInside =
      r.graph.blocks.map fun b => labelSum (Block.parts b) := by
    apply List.ext_getElem?
    intro n
    unfold Graph.nodes Graph.labelsInside
    by_cases hn : n < r.graph.blocks.length
    · simp [Graph.size, hn]
    · simp [Graph.size, hn]
  rw [(h.map _).sum_eq, hblocks, Routine.parts]
  induction r.graph.blocks with
  | nil => rfl
  | cons b rest ih => rw [List.map_cons, List.sum_cons, ih, List.flatMap_cons, labelSum_append]

/-! ## Steps and their labels -/

/-- The step takes `n` labels, and if they exist it succeeds. -/
def CodeM.Takes {α : Type} (n : Nat) (x : CodeM σ α) : Prop :=
  ∀ s, (s.supply.next.toNat + n < UInt32.size →
      ∃ a s', x s = .ok a s' ∧ s'.supply.next.toNat = s.supply.next.toNat + n) ∧
    (UInt32.size ≤ s.supply.next.toNat + n → ∃ s', x s = .error .overflow s')

namespace CodeM.Takes

variable {α β : Type} {m n : Nat} {x : CodeM σ α} {f : α → CodeM σ β}

lemma next_eq (h : Takes n x) {s s' : CodeState σ} {a : α} (hrun : x s = .ok a s') :
    s'.supply.next.toNat = s.supply.next.toNat + n := by
  by_cases hfits : s.supply.next.toNat + n < UInt32.size
  · obtain ⟨b, t, hok, hnext⟩ := (h s).1 hfits
    cases hrun.symm.trans hok
    exact hnext
  · obtain ⟨t, herror⟩ := (h s).2 (Nat.le_of_not_lt hfits)
    cases hrun.symm.trans herror

lemma error_eq_overflow (h : Takes n x) {s s' : CodeState σ} {e : Failure}
    (hrun : x s = .error e s') : e = .overflow := by
  by_cases hfits : s.supply.next.toNat + n < UInt32.size
  · obtain ⟨a, t, hok, -⟩ := (h s).1 hfits
    cases hrun.symm.trans hok
  · obtain ⟨t, herror⟩ := (h s).2 (Nat.le_of_not_lt hfits)
    cases hrun.symm.trans herror
    rfl

/-- A step that gives a result without a look at the labels takes none. -/
lemma zero (h : ∀ s, ∃ a state, x s = .ok a ⟨s.supply, state⟩) : Takes 0 x := by
  intro s
  obtain ⟨a, state, hrun⟩ := h s
  refine ⟨fun _ => ⟨a, _, hrun, rfl⟩, fun hlarge => ?_⟩
  have hlt : s.supply.next.toNat < UInt32.size := s.supply.next.toNat_lt
  omega

lemma pure (a : α) : Takes 0 (Pure.pure a : CodeM σ α) :=
  zero fun _ => ⟨a, _, rfl⟩

lemma bind (hx : Takes m x) (hf : ∀ s a s', x s = .ok a s' → Takes n (f a)) :
    Takes (m + n) (x >>= f) := by
  intro s
  constructor
  · intro hfits
    obtain ⟨a, t, ha, ht⟩ := (hx s).1 (by omega)
    obtain ⟨b, u, hb, hu⟩ := (hf s a t ha t).1 (by omega)
    exact ⟨b, u, run_bind_eq_ok.mpr ⟨a, t, ha, hb⟩, by omega⟩
  · intro hlarge
    by_cases hfirst : s.supply.next.toNat + m < UInt32.size
    · obtain ⟨a, t, ha, ht⟩ := (hx s).1 hfirst
      obtain ⟨u, hu⟩ := (hf s a t ha t).2 (by omega)
      exact ⟨u, run_bind_eq_error.mpr (Or.inr ⟨a, t, ha, hu⟩)⟩
    · obtain ⟨t, ht⟩ := (hx s).2 (Nat.le_of_not_lt hfirst)
      exact ⟨t, run_bind_eq_error.mpr (Or.inl ht)⟩

lemma map (hx : Takes n x) (g : α → β) : Takes n (x >>= fun a => Pure.pure (g a)) :=
  hx.bind fun _ a _ _ => pure (g a)

lemma ofExcept {y : Except Failure α} {a : α} (h : y = .ok a) :
    Takes 0 (CodeM.ofExcept y : CodeM σ α) := by
  rw [h]
  exact pure a

lemma freshLabel : Takes 1 (CodeM.freshLabel : CodeM σ Label) := by
  rintro ⟨⟨next⟩, state⟩
  rw [Scope.freshLabel_eq]
  constructor
  · intro hfits
    exact ⟨_, _, if_pos hfits, Scope.toNat_add_one hfits⟩
  · intro hlarge
    exact ⟨_, if_neg (Nat.not_lt.mpr hlarge)⟩

end CodeM.Takes

namespace Scope

variable (scope : Scope σ)

lemma importHelper_takes (helper : HelperMethod) : (scope.importHelper helper).Takes 0 :=
  CodeM.Takes.zero fun _ => ⟨_, _, rfl⟩

lemma expandFlags_takes (request : FlagRequest) : (scope.expandFlags request).Takes 0 :=
  CodeM.Takes.zero fun _ => ⟨_, _, rfl⟩

/-- Only the conversion to an object jumps and takes labels for it. -/
lemma conversion_takes {target : Signature}
    (h : target.isObject = true ∨ ∃ name, target.typeName? = some name) (node : SyntaxNode) :
    (scope.conversion node target).Takes (if target.isObject then 2 else 0) := by
  unfold Scope.conversion
  rw [← Nat.zero_add (if target.isObject then 2 else 0)]
  refine (scope.importHelper_takes _).bind fun _ convert _ _ => ?_
  split_ifs with hobject
  · exact CodeM.Takes.freshLabel.bind fun _ nonNull _ _ =>
      CodeM.Takes.freshLabel.bind fun _ done _ _ => (scope.importHelper_takes _).map _
  · obtain ⟨name, hname⟩ := h.resolve_left hobject
    rw [hname]
    exact (scope.importHelper_takes _).map _

end Scope

end CilBackend
