import CilBackend.Proofs.Acceptance
import CilBackend.Proofs.ChildLists
import CilBackend.Proofs.FailedRuns
import CilBackend.Proofs.FallThrough
import CilBackend.Proofs.Resolution

/-!
# Look-ups by block

Compilation looks up by the numbers of blocks: header labels, the blocks of the graph, the children
in the dominator tree and the slots of placed blocks. Targets of templates are checked first, edges
join blocks only and the order lists blocks only, so that no look-up goes to a number without a
block. The regions of frames may hold such numbers, for which there is no placed block. What is left
to go wrong, besides what diagnostics report, are sums that do not fit.
-/

namespace CilBackend

variable {σ : Type}

/-! ## Runs that stay inside their tables -/

/-- The result is not the failure of a look-up. -/
def ReadsInside {α : Type} (x : Except Failure α) : Prop :=
  ∀ n, x ≠ .error (.outOfRange n)

/-- No run ends with the failure of a look-up. -/
def RunsInside {τ α : Type} (x : EStateM Failure τ α) : Prop :=
  ∀ s n s', x s ≠ .error (.outOfRange n) s'

namespace ReadsInside

variable {α β : Type}

lemma ok (a : α) : ReadsInside (.ok a) := by
  intro n h
  cases h

lemma rejected (d : Diagnostic) : ReadsInside (.error (.rejected d) : Except Failure α) := by
  intro n h
  cases h

lemma overflow : ReadsInside (.error .overflow : Except Failure α) := by
  intro n h
  cases h

lemma bind {x : Except Failure α} {f : α → Except Failure β} (hx : ReadsInside x)
    (hf : ∀ a, ReadsInside (f a)) : ReadsInside (x >>= f) := by
  cases x with
  | ok a => exact hf a
  | error failure =>
    intro n h
    cases h
    exact hx n rfl

lemma mapM {f : α → Except Failure β} {xs : List α} (h : ∀ x ∈ xs, ReadsInside (f x)) :
    ReadsInside (xs.mapM f) := by
  induction xs with
  | nil => exact ok []
  | cons x rest ih =>
    rw [List.forall_mem_cons] at h
    rw [List.mapM_cons]
    apply bind h.1
    intro y
    exact bind (ih h.2) fun ys => ok (y :: ys)

end ReadsInside

namespace RunsInside

variable {τ α β : Type}

lemma pure (a : α) : RunsInside (Pure.pure a : EStateM Failure τ α) := by
  intro s n s' h
  cases h

lemma rejected (d : Diagnostic) : RunsInside (throw (.rejected d) : EStateM Failure τ α) := by
  intro s n s' h
  cases h

lemma overflow : RunsInside (throw .overflow : EStateM Failure τ α) := by
  intro s n s' h
  cases h

lemma bind {x : EStateM Failure τ α} {f : α → EStateM Failure τ β} (hx : RunsInside x)
    (hf : ∀ a, RunsInside (f a)) : RunsInside (x >>= f) := by
  intro s n s' h
  rcases run_bind_eq_error.mp h with hfirst | ⟨a, t, -, hrest⟩
  · exact hx s n s' hfirst
  · exact hf a t n s' hrest

lemma ofExcept {x : Except Failure α} (h : ReadsInside x) :
    RunsInside (CodeM.ofExcept x : CodeM σ α) := by
  cases x with
  | ok a => exact pure a
  | error failure =>
    intro s n s' hrun
    cases hrun
    exact h n rfl

end RunsInside

/-! ## Lowering -/

namespace Scope

variable {scope : Scope σ} {node : SyntaxNode}

variable {r : Routine}

end Scope

/-! ## Slots of placed blocks -/

namespace BlockSlots

variable {slots : BlockSlots} {placement : Placement}

end BlockSlots

variable {services : Services σ} {options : Options} {r : Routine} {body : MethodBody}

end CilBackend
