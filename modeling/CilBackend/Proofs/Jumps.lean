import CilBackend.Proofs.CompileRuns

/-!
# Jumps of lowered code

Lowered code sends control to headers of blocks that its templates name and, where it unboxes an
object, to places further down in the same expression.
-/

namespace CilBackend

variable {σ : Type}

/-- Every label to which the code sends control is one of `outer` or is bound further down. -/
def JumpsForward (outer : Label → Prop) : List Instruction → Prop
  | [] => True
  | i :: rest =>
    (∀ l ∈ i.operand.labels, outer l ∨ ∃ skipped j after, rest = skipped ++ j :: after ∧
      j.label = some l) ∧ JumpsForward outer rest

namespace JumpsForward

variable {outer : Label → Prop}

lemma of_no_labels {code : List Instruction} (h : ∀ i ∈ code, i.operand.labels = []) :
    JumpsForward outer code := by
  induction code with
  | nil => trivial
  | cons i rest ih =>
    rw [List.forall_mem_cons] at h
    refine ⟨?_, ih h.2⟩
    rw [h.1]
    simp

lemma of_outer {code : List Instruction} (h : ∀ i ∈ code, ∀ l ∈ i.operand.labels, outer l) :
    JumpsForward outer code := by
  induction code with
  | nil => trivial
  | cons i rest ih =>
    rw [List.forall_mem_cons] at h
    exact ⟨fun l hl => Or.inl (h.1 l hl), ih h.2⟩

lemma append {a b : List Instruction} (ha : JumpsForward outer a)
    (hb : JumpsForward outer b) : JumpsForward outer (a ++ b) := by
  induction a with
  | nil => exact hb
  | cons i rest ih =>
    refine ⟨?_, ih ha.2⟩
    intro l hl
    rcases ha.1 l hl with houter | ⟨skipped, j, after, rfl, hj⟩
    · exact Or.inl houter
    · exact Or.inr ⟨skipped, j, after ++ b, by simp, hj⟩

lemma flatten {codes : List (List Instruction)} (h : ∀ code ∈ codes, JumpsForward outer code) :
    JumpsForward outer codes.flatten := by
  induction codes with
  | nil => trivial
  | cons code rest ih =>
    rw [List.forall_mem_cons] at h
    exact h.1.append (ih h.2)

/-- The jumps of an instruction inside the code. -/
lemma at_position {code : List Instruction} (h : JumpsForward outer code) {k : Nat}
    {i : Instruction} (hi : code[k]? = some i) {l : Label} (hl : l ∈ i.operand.labels) :
    outer l ∨ ∃ skipped j after, code.drop (k + 1) = skipped ++ j :: after ∧
      j.label = some l := by
  induction code generalizing k with
  | nil => simp at hi
  | cons first rest ih =>
    cases k with
    | zero =>
      rw [List.getElem?_cons_zero, Option.some.injEq] at hi
      subst hi
      exact h.1 l hl
    | succ k => exact ih h.2 hi

end JumpsForward

/-- An expression without flags whose template names no label and only blocks whose headers are in
`outer`. -/
def Expr.BranchesInto (headers : Headers) (outer : Label → Prop) (e : Expr) : Prop :=
  e.flags = none ∧ ∀ i ∈ e.template, i.operand.labels = [] ∧
    ∀ m ∈ i.operand.blocks, ∀ l, headers.label? m = some l → outer l

namespace Scope

variable {scope : Scope σ} {outer : Label → Prop}

lemma resolveTemplate_labels {node : SyntaxNode} {template resolved : List Instruction}
    (h : scope.resolveTemplate node template = .ok resolved)
    (htemplate : ∀ i ∈ template, i.operand.labels = [] ∧
      ∀ m ∈ i.operand.blocks, ∀ l, scope.headers.label? m = some l → outer l) :
    ∀ i ∈ resolved, ∀ l ∈ i.operand.labels, outer l := by
  intro j hj l hl
  obtain ⟨i, hi, hresolve⟩ := except_mapM_mem h hj
  obtain ⟨-, operand, hoperand, rfl⟩ := resolve_eq_ok.mp hresolve
  rcases resolveOperand_labels hoperand hl with hraw | ⟨m, hm, hlabel⟩
  · rw [(htemplate i hi).1] at hraw
    cases hraw
  · exact (htemplate i hi).2 m hm l hlabel

lemma objectCode_jumpsForward (t : CodeState σ) : JumpsForward outer (scope.objectCode t) := by
  refine ⟨by simp [Operand.labels], ?_, ?_⟩
  · intro l hl
    rw [Operand.labels, List.mem_singleton] at hl
    subst hl
    exact Or.inr ⟨(scope.objectCode t).extract 2 5, _, _, rfl, rfl⟩
  · refine ⟨by simp [Operand.labels], by simp [Operand.labels], ?_, ?_⟩
    · intro l hl
      rw [Operand.labels, List.mem_singleton] at hl
      subst hl
      exact Or.inr ⟨(scope.objectCode t).extract 5 8, _, _, rfl, rfl⟩
    · exact JumpsForward.of_no_labels (by simp [Operand.labels])

/-- The code of an expression jumps forwards inside itself or into the headers that its templates
name. -/
theorem exprCode_jumpsForward (scope : Scope σ) :
    (∀ e s code s', scope.exprCode e s = .ok code s' →
      (∀ x ∈ e.parts, x.BranchesInto scope.headers outer) →
      JumpsForward outer code) ∧
    ∀ es s codes s', scope.exprCodes es s = .ok codes s' →
      (∀ x ∈ Expr.partsOfAll es, x.BranchesInto scope.headers outer) →
      JumpsForward outer codes.flatten := by
  apply scope.exprCode_induction
    (fun e _ code _ => (∀ x ∈ e.parts, x.BranchesInto scope.headers outer) →
      JumpsForward outer code)
    (fun es _ code _ => (∀ x ∈ Expr.partsOfAll es, x.BranchesInto scope.headers outer) →
      JumpsForward outer code)
  case var =>
    intro id type slot s _ _
    exact JumpsForward.of_no_labels (by simp [Operand.labels])
  case object =>
    intro value target type s code t ih _ _ hparts
    have hvalue := ih (fun x hx => hparts x (List.mem_cons_of_mem _ hx))
    exact hvalue.append (objectCode_jumpsForward t)
  case typed =>
    intro value target type s code t name ih _ _ hparts
    have hvalue := ih (fun x hx => hparts x (List.mem_cons_of_mem _ hx))
    exact hvalue.append (JumpsForward.of_no_labels
      (by simp [Scope.typedCode, typedConversion, Operand.labels]))
  case plain =>
    intro template arguments type node s code t resolved ih hresolved _ hparts
    have harguments := ih (fun x hx => hparts x (List.mem_cons_of_mem _ hx))
    have hself := hparts _ (Expr.self_mem_parts _)
    exact harguments.append (JumpsForward.of_outer (resolveTemplate_labels hresolved hself.2))
  case unary =>
    intro template argument update type node s code t resolved _ _ result services _ hparts
    exact absurd (hparts _ (Expr.self_mem_parts _)).1 (Option.some_ne_none update)
  case binary =>
    intro template left right update type node s code t code' u resolved _ _ _ result services _
      hparts
    exact absurd (hparts _ (Expr.self_mem_parts _)).1 (Option.some_ne_none update)
  case nil =>
    intro s _
    trivial
  case cons =>
    intro e rest s code t codes u ihe ihrest hparts
    rw [Expr.partsOfAll_cons] at hparts
    exact (ihe (fun x hx => hparts x (List.mem_append_left _ hx))).append
      (ihrest (fun x hx => hparts x (List.mem_append_right _ hx)))

lemma Stores_no_labels {st : Statement} {store : List Instruction} (h : scope.Stores st store) :
    ∀ i ∈ store, i.operand.labels = [] := by
  cases st with
  | expression value =>
    cases h
    simp
  | assignment target value =>
    obtain ⟨slot, -, rfl⟩ := h
    simp [Operand.labels]

lemma statementCode_jumpsForward {st : Statement} {s s' : CodeState σ} {code : List Instruction}
    (h : scope.statementCode st s = .ok code s')
    (hparts : ∀ x ∈ st.value.parts, x.BranchesInto scope.headers outer) :
    JumpsForward outer code := by
  obtain ⟨value, store, hvalue, hstore, rfl⟩ := statementCode_eq_ok h
  exact ((exprCode_jumpsForward scope).1 _ _ _ _ hvalue hparts).append
    (JumpsForward.of_no_labels (Stores_no_labels hstore))

end Scope

end CilBackend
