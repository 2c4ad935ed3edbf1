import CilBackend.Proofs.CompileRuns
import CilBackend.Proofs.StackGauge

/-!
# Stack depths of lowered code

The depth of the stack at a place of lowered code does not depend on the way to it. `Fits` says so
for a piece of code with its jumps, and it holds of the code of every statement from the empty
stack back to the empty stack.
-/

namespace CilBackend

variable {σ : Type}

/-- Code that can be run from depth `d` on and ends at depth `final`. A jump to a label of `outer`
leaves the stack empty; any other jump goes down to a place that it reaches at the depth at which
control would come there from above. -/
def Fits (returnsValue : Bool) (outer : Label → Prop) : Int → List Instruction → Int → Prop
  | d, [], final => d = final
  | d, i :: rest, final =>
    ((i.stackEffect returnsValue).pops : Int) ≤ d ∧
    (∀ l ∈ i.operand.labels,
      (outer l ∧ (i.opcode = .leave ∨ d + (i.stackEffect returnsValue).net = 0)) ∨
      (i.opcode ≠ .leave ∧ ∃ skipped j after, rest = skipped ++ j :: after ∧ j.label = some l ∧
        netSum (stackEffects returnsValue skipped) = 0)) ∧
    Fits returnsValue outer (d + (i.stackEffect returnsValue).net) rest final

namespace Fits

variable {returnsValue : Bool} {outer : Label → Prop} {d e final : Int}
  {a b code : List Instruction}

lemma pass {i : Instruction} (pops pushes : Nat)
    (heffect : i.stackEffect returnsValue = ⟨pops, pushes⟩) (hlabels : i.operand.labels = [])
    (hpops : (pops : Int) ≤ d) (hrest : Fits returnsValue outer (d + pushes - pops) code final) :
    Fits returnsValue outer d (i :: code) final := by
  rw [Fits, heffect, hlabels]
  refine ⟨hpops, by simp, ?_⟩
  rw [StackEffect.net, ← Int.add_sub_assoc]
  exact hrest

/-- A jump over code that leaves the depth as it was. -/
lemma jump {i j : Instruction} (pops pushes : Nat) {l : Label} (skipped : List Instruction)
    {after : List Instruction} (heffect : i.stackEffect returnsValue = ⟨pops, pushes⟩)
    (hlabels : i.operand.labels = [l]) (hleave : i.opcode ≠ .leave) (hj : j.label = some l)
    (hskipped : netSum (stackEffects returnsValue skipped) = 0) (hpops : (pops : Int) ≤ d)
    (hrest : Fits returnsValue outer (d + pushes - pops) (skipped ++ j :: after) final) :
    Fits returnsValue outer d (i :: (skipped ++ j :: after)) final := by
  rw [Fits, heffect, hlabels]
  refine ⟨hpops, ?_, ?_⟩
  · intro l' hl'
    rw [List.mem_singleton] at hl'
    exact Or.inr ⟨hleave, skipped, j, after, rfl, hl' ▸ hj, hskipped⟩
  · rw [StackEffect.net, ← Int.add_sub_assoc]
    exact hrest

lemma append (ha : Fits returnsValue outer d a e) (hb : Fits returnsValue outer e b final) :
    Fits returnsValue outer d (a ++ b) final := by
  induction a generalizing d with
  | nil =>
    have heq : d = e := ha
    rw [heq]
    exact hb
  | cons i rest ih =>
    obtain ⟨hpops, hjumps, hrest⟩ := ha
    refine ⟨hpops, ?_, ih hrest⟩
    intro l hl
    rcases hjumps l hl with houter | ⟨hleave, skipped, j, after, rfl, hj, hskipped⟩
    · exact Or.inl houter
    · exact Or.inr ⟨hleave, skipped, j, after ++ b, by simp, hj, hskipped⟩

lemma behind (h : Fits returnsValue outer d (a ++ b) final) :
    Fits returnsValue outer (d + netSum (stackEffects returnsValue a)) b final := by
  induction a generalizing d with
  | nil => simpa using h
  | cons i rest ih =>
    have hrest := ih h.2.2
    rw [stackEffects_cons, netSum_cons, ← Int.add_assoc]
    exact hrest

/-- Code that the gauge accepts, with `d` more values below, if all its jumps go out and leave the
stack empty. -/
lemma of_sustains (h : Sustains e (stackEffects returnsValue code)) (hd : 0 ≤ d)
    (hjumps : ∀ p i, code[p]? = some i → ∀ l ∈ i.operand.labels, outer l ∧
      (i.opcode = .leave ∨ d + e + netSum (stackEffects returnsValue (code.take (p + 1))) = 0)) :
    Fits returnsValue outer (d + e) code (d + e + netSum (stackEffects returnsValue code)) := by
  induction code generalizing e with
  | nil => simp [Fits]
  | cons i rest ih =>
    rw [stackEffects_cons] at h ⊢
    obtain ⟨hpops, hrest⟩ := h
    refine ⟨by omega, ?_, ?_⟩
    · intro l hl
      have hout := hjumps 0 i List.getElem?_cons_zero l hl
      simp only [List.take_succ_cons, List.take_zero, stackEffects_cons, stackEffects_nil,
        netSum_cons, netSum_nil, Int.add_zero] at hout
      exact Or.inl hout
    · rw [netSum_cons, ← Int.add_assoc, Int.add_assoc d]
      apply ih hrest
      intro p j hj l hl
      have hout := hjumps (p + 1) j hj l hl
      rw [List.take_succ_cons, stackEffects_cons, netSum_cons, ← Int.add_assoc,
        Int.add_assoc d] at hout
      exact hout

end Fits

/-- The importer hands back methods that take and leave as many values as those it was given. -/
def Services.KeepsCounts (services : Services σ) : Prop :=
  ∀ m state,
    (services.importMethod m state).1.signature.params.length = m.signature.params.length ∧
    (services.importMethod m state).1.signature.hasThis = m.signature.hasThis ∧
    (services.importMethod m state).1.signature.result.isVoid = m.signature.result.isVoid

namespace Expr

/-- The expressions whose values the template works on. -/
def arguments : Expr → List Expr
  | instruction _ arguments _ _ => arguments
  | unbox _ _ _ => []
  | var _ _ => []

/-- What is loaded or unboxed is a value. -/
def HasValue : Expr → Prop
  | instruction _ _ _ _ => True
  | unbox value _ type => type.isVoid = false ∧ value.type.isVoid = false
  | var _ type => type.isVoid = false

instance : DecidablePred HasValue
  | instruction _ _ _ _ => inferInstanceAs (Decidable True)
  | unbox value _ type =>
    inferInstanceAs (Decidable (type.isVoid = false ∧ value.type.isVoid = false))
  | var _ type => inferInstanceAs (Decidable (type.isVoid = false))

/-- With `below` values below those of the arguments, the stack is empty behind every branch of the
template that is not a `leave`. -/
def BranchesEmpty (returnsValue : Bool) (below : Int) (e : Expr) : Prop :=
  ∀ p i, e.template[p]? = some i → i.operand.blocks ≠ [] → i.opcode = .leave ∨
    ∀ depth g, depth.toInt = netEffects e.arguments →
      StackGauge.run returnsValue (e.template.take (p + 1)) (.startingAt depth) = .ok () g →
        below + g.depth.toInt = 0

def BranchesOnlyByLeave (e : Expr) : Prop :=
  ∀ i ∈ e.template, i.operand.blocks ≠ [] → i.opcode = .leave

instance (e : Expr) : Decidable e.BranchesOnlyByLeave :=
  inferInstanceAs (Decidable (∀ i ∈ e.template, i.operand.blocks ≠ [] → i.opcode = .leave))

lemma BranchesOnlyByLeave.branchesEmpty {e : Expr} (h : e.BranchesOnlyByLeave)
    (returnsValue : Bool) (below : Int) : e.BranchesEmpty returnsValue below :=
  fun _ i hi hblocks => Or.inl (h i (List.mem_of_getElem? hi) hblocks)

/-- An expression without flags that names no label and loads and unboxes values only. -/
def Gauged (e : Expr) : Prop :=
  e.flags = none ∧ e.HasValue ∧ ∀ i ∈ e.template, i.operand.labels = []

lemma netEffect_nonneg (e : Expr) : 0 ≤ e.netEffect := by
  unfold netEffect
  split_ifs <;> omega

lemma netEffect_eq_one {e : Expr} (h : e.type.isVoid = false) : e.netEffect = 1 := by
  simp [netEffect, h]

end Expr

/-- The labels of the block headers. -/
def Headers.Names (h : Headers) (l : Label) : Prop :=
  ∃ m, h.label? m = some l

namespace Scope

variable {scope : Scope σ}

lemma stackEffect_imported (himport : scope.services.KeepsCounts) (helper : HelperMethod)
    (state : σ) {op : Opcode} (hop : op = .call ∨ op = .callvirt) (returnsValue : Bool) :
    op.stackEffect (.method (scope.imported helper state)) returnsValue =
      op.stackEffect (.method helper.reference) returnsValue := by
  obtain ⟨hparams, hthis, hvoid⟩ := himport helper.reference state
  rcases hop with rfl | rfl
  · simp [Opcode.stackEffect, Scope.imported, MethodSignature.returnsValue, hparams, hthis, hvoid]
  · simp [Opcode.stackEffect, Scope.imported, MethodSignature.returnsValue, hparams, hthis, hvoid]

lemma stackEffect_convert (himport : scope.services.KeepsCounts) (state : σ) (returnsValue : Bool) :
    Opcode.call.stackEffect (.method (scope.imported .convertToVmValue state)) returnsValue =
      ⟨2, 1⟩ := by
  rw [stackEffect_imported himport _ _ (Or.inl rfl)]
  rfl

lemma stackEffect_fromHandle (himport : scope.services.KeepsCounts) (state : σ)
    (returnsValue : Bool) :
    Opcode.call.stackEffect (.method (scope.imported .typeGetTypeFromHandle state)) returnsValue =
      ⟨1, 1⟩ := by
  rw [stackEffect_imported himport _ _ (Or.inl rfl)]
  rfl

lemma stackEffect_getType (himport : scope.services.KeepsCounts) (state : σ) (returnsValue : Bool) :
    Opcode.callvirt.stackEffect (.method (scope.imported .objectGetType state)) returnsValue =
      ⟨1, 1⟩ := by
  rw [stackEffect_imported himport _ _ (Or.inr rfl)]
  rfl

lemma typedCode_fits (himport : scope.services.KeepsCounts) (outer : Label → Prop)
    (type : TypeName) (t : CodeState σ) {d : Int} (hd : 1 ≤ d) :
    Fits scope.returnsValue outer d (scope.typedCode type t) d := by
  refine Fits.pass 0 1 rfl rfl (by omega) ?_
  refine Fits.pass 1 1 (stackEffect_fromHandle himport _ _) rfl (by omega) ?_
  refine Fits.pass 2 1 (stackEffect_convert himport _ _) rfl (by omega) ?_
  simp only [Fits]
  omega

/-- Both ways through the code take one value and leave one. -/
lemma objectCode_fits (himport : scope.services.KeepsCounts) (outer : Label → Prop)
    (t : CodeState σ) {d : Int} (hd : 1 ≤ d) :
    Fits scope.returnsValue outer d (scope.objectCode t) d := by
  have hgetType := stackEffect_getType himport
    (scope.afterImport .convertToVmValue t.services) scope.returnsValue
  have hconvert := stackEffect_convert himport t.services scope.returnsValue
  have hobject :
      netSum (stackEffects scope.returnsValue ((scope.objectCode t).extract 5 8)) = 0 := by
    change netSum [_, Opcode.callvirt.stackEffect _ _, Opcode.call.stackEffect _ _] = 0
    rw [hgetType, hconvert]
    rfl
  refine Fits.pass 1 2 rfl rfl (by omega) ?_
  refine Fits.jump 1 0 ((scope.objectCode t).extract 2 5) rfl rfl (by simp) rfl rfl (by omega) ?_
  refine Fits.pass 1 0 rfl rfl (by omega) ?_
  refine Fits.pass 0 1 rfl rfl (by omega) ?_
  refine Fits.jump 0 0 ((scope.objectCode t).extract 5 8) rfl rfl (by simp) rfl hobject
    (by omega) ?_
  refine Fits.pass 1 2 rfl rfl (by omega) ?_
  refine Fits.pass 1 1 hgetType rfl (by omega) ?_
  refine Fits.pass 2 1 hconvert rfl (by omega) ?_
  refine Fits.pass 0 0 rfl rfl (by omega) ?_
  simp only [Fits]
  omega

/-- A conversion works on the value that stands in front of it. -/
lemma unbox_fits {returnsValue : Bool} {outer : Label → Prop} {value : Expr}
    {target type : Signature} {code conversion : List Instruction} {below : Int}
    (hbelow : 0 ≤ below)
    (hunbox : (Expr.unbox value target type).HasValue)
    (hcode : Fits returnsValue outer below code (below + value.netEffect))
    (hconversion : ∀ d : Int, 1 ≤ d → Fits returnsValue outer d conversion d) :
    Fits returnsValue outer below (code ++ conversion)
      (below + (Expr.unbox value target type).netEffect) := by
  have hvoid : (Expr.unbox value target type).type.isVoid = false := hunbox.1
  rw [Expr.netEffect_eq_one hunbox.2] at hcode
  rw [Expr.netEffect_eq_one hvoid]
  exact hcode.append (hconversion (below + 1) (by omega))

/-- A checked template runs on the values of the arguments, above any `below` values, and leaves
what its expression declares. -/
lemma template_fits {node : SyntaxNode} {template resolved : List Instruction}
    {arguments : List Expr} {type : Signature} {below : Int} (hbelow : 0 ≤ below)
    (hnet : scope.checkNet = true) (hresolved : scope.resolveTemplate node template = .ok resolved)
    (hcheck : scope.checkTemplate node (Expr.netEffects arguments)
      (Expr.instruction template arguments none type).netEffect resolved = .ok ())
    (hlabels : ∀ i ∈ template, i.operand.labels = [])
    (hbranches : (Expr.instruction template arguments none type).BranchesEmpty
      scope.returnsValue below) :
    Fits scope.returnsValue scope.headers.Names (below + Expr.netEffects arguments) resolved
      (below + (Expr.instruction template arguments none type).netEffect) := by
  obtain ⟨depth, g, hinitial, hrun, hfinal⟩ := checkTemplate_eq_ok.mp hcheck
  obtain ⟨hsustains, hholds, hdepth⟩ := StackGauge.runFrom_eq_ok hrun
  have heffects := resolveTemplate_stackEffects hresolved scope.returnsValue
  have hend : (Expr.instruction template arguments none type).netEffect =
      Expr.netEffects arguments + netSum (stackEffects scope.returnsValue resolved) := by
    rw [← hfinal hnet, hdepth, ← hinitial]
    rfl
  rw [hend, ← Int.add_assoc, ← hinitial]
  apply Fits.of_sustains hsustains hbelow
  intro p j hj l hl
  obtain ⟨i, hi, hresolve⟩ := except_mapM_getElem? hresolved hj
  obtain ⟨-, operand, hoperand, rfl⟩ := resolve_eq_ok.mp hresolve
  rcases resolveOperand_labels hoperand hl with hraw | ⟨m, hm, hlabel⟩
  · rw [hlabels i (List.mem_of_getElem? hi)] at hraw
    cases hraw
  · refine ⟨⟨m, hlabel⟩, ?_⟩
    rcases hbranches p i hi (List.ne_nil_of_mem hm) with hleave | hempty
    · exact Or.inl hleave
    · have htake : stackEffects scope.returnsValue (template.take (p + 1)) =
          stackEffects scope.returnsValue (resolved.take (p + 1)) := by
        unfold stackEffects at heffects ⊢
        rw [List.map_take, List.map_take, heffects]
      have hprefix : Sustains depth.toInt
          (stackEffects scope.returnsValue (template.take (p + 1))) ∧
          Holds depth.toInt (stackEffects scope.returnsValue (template.take (p + 1))) := by
        rw [htake, stackEffects, List.map_take]
        exact ⟨hsustains.take (p + 1), hholds.take (p + 1)⟩
      obtain ⟨g', hg'⟩ := StackGauge.exists_runFrom (g := .startingAt depth) hprefix.1 hprefix.2 0
      have hzero := hempty depth g' hinitial hg'
      rw [(StackGauge.runFrom_eq_ok hg').2.2, htake, ← Int.add_assoc] at hzero
      exact Or.inr hzero

/-- From any depth on, the code of an expression leaves what the expression declares. -/
theorem exprCode_fits (scope : Scope σ) (hnet : scope.checkNet = true)
    (himport : scope.services.KeepsCounts) :
    (∀ e s code s', scope.exprCode e s = .ok code s' → (∀ x ∈ e.parts, x.Gauged) →
      (∀ x ∈ e.inner, x.BranchesOnlyByLeave) →
      ∀ below : Int, 0 ≤ below → e.BranchesEmpty scope.returnsValue below →
        Fits scope.returnsValue scope.headers.Names below code (below + e.netEffect)) ∧
    ∀ es s codes s', scope.exprCodes es s = .ok codes s' →
      (∀ x ∈ Expr.partsOfAll es, x.Gauged) →
      (∀ x ∈ Expr.partsOfAll es, x.BranchesOnlyByLeave) → ∀ below : Int, 0 ≤ below →
        Fits scope.returnsValue scope.headers.Names below codes.flatten
          (below + Expr.netEffects es) := by
  apply scope.exprCode_induction
    (fun e _ code _ => (∀ x ∈ e.parts, x.Gauged) → (∀ x ∈ e.inner, x.BranchesOnlyByLeave) →
      ∀ below : Int, 0 ≤ below → e.BranchesEmpty scope.returnsValue below →
        Fits scope.returnsValue scope.headers.Names below code (below + e.netEffect))
    (fun es _ code _ => (∀ x ∈ Expr.partsOfAll es, x.Gauged) →
      (∀ x ∈ Expr.partsOfAll es, x.BranchesOnlyByLeave) → ∀ below : Int, 0 ≤ below →
        Fits scope.returnsValue scope.headers.Names below code (below + Expr.netEffects es))
  case var =>
    intro id type slot s _ hparts _ below hbelow _
    have hvalue : (Expr.var id type).type.isVoid = false :=
      (hparts _ (Expr.self_mem_parts _)).2.1
    rw [Expr.netEffect_eq_one hvalue]
    refine Fits.pass 0 1 rfl rfl (by omega) ?_
    simp only [Fits]
    omega
  case object =>
    intro value target type s code t ih _ _ hparts hinner below hbelow _
    have hself := hinner value List.mem_cons_self
    have hcode := ih (fun x hx => hparts x (List.mem_cons_of_mem _ hx))
      (fun x hx => hinner x (List.mem_cons_of_mem _ hx)) below hbelow (hself.branchesEmpty _ _)
    exact unbox_fits hbelow (hparts _ (Expr.self_mem_parts _)).2.1 hcode
      (fun _ => objectCode_fits himport _ t)
  case typed =>
    intro value target type s code t name ih _ _ hparts hinner below hbelow _
    have hself := hinner value List.mem_cons_self
    have hcode := ih (fun x hx => hparts x (List.mem_cons_of_mem _ hx))
      (fun x hx => hinner x (List.mem_cons_of_mem _ hx)) below hbelow (hself.branchesEmpty _ _)
    exact unbox_fits hbelow (hparts _ (Expr.self_mem_parts _)).2.1 hcode
      (fun _ => typedCode_fits himport _ name t)
  case plain =>
    intro template arguments type node s code t resolved ih hresolved hcheck hparts hinner below
      hbelow hbranches
    have hself := hparts _ (Expr.self_mem_parts _)
    have harguments := ih (fun x hx => hparts x (List.mem_cons_of_mem _ hx)) hinner below hbelow
    exact harguments.append
      (template_fits hbelow hnet hresolved hcheck hself.2.2 hbranches)
  case unary =>
    intro template argument update type node s code t resolved _ _ result services _ hparts
    exact absurd (hparts _ (Expr.self_mem_parts _)).1 (Option.some_ne_none update)
  case binary =>
    intro template left right update type node s code t code' u resolved _ _ _ result services _
      hparts
    exact absurd (hparts _ (Expr.self_mem_parts _)).1 (Option.some_ne_none update)
  case nil =>
    intro s _ _ below _
    simp [Fits, Expr.netEffects]
  case cons =>
    intro e rest s code t codes u ihe ihrest hparts hleave below hbelow
    rw [Expr.partsOfAll_cons] at hparts hleave
    have hself := hleave e (List.mem_append_left _ (Expr.self_mem_parts e))
    have hfirst := ihe (fun x hx => hparts x (List.mem_append_left _ hx))
      (fun x hx => hleave x (List.mem_append_left _ (List.mem_cons_of_mem _ hx))) below hbelow
      (hself.branchesEmpty _ _)
    have hnonneg := e.netEffect_nonneg
    have hrest := ihrest (fun x hx => hparts x (List.mem_append_right _ hx))
      (fun x hx => hleave x (List.mem_append_right _ hx)) (below + e.netEffect) (by omega)
    rw [Expr.netEffects, ← Int.add_assoc]
    exact hfirst.append hrest

end Scope

namespace Statement

/-- An assignment has a value to store, and an expression leaves none behind. -/
def Balanced : Statement → Prop
  | expression value => value.type.isVoid = true
  | assignment _ value => value.type.isVoid = false

instance : DecidablePred Balanced
  | expression value => inferInstanceAs (Decidable (value.type.isVoid = true))
  | assignment _ value => inferInstanceAs (Decidable (value.type.isVoid = false))

/-- A statement that can be run from the empty stack back to it: every branch that is not a `leave`
stands in the template of its own expression and has the empty stack behind it. -/
structure Gauged (returnsValue : Bool) (st : Statement) : Prop where
  balanced : st.Balanced
  parts : ∀ x ∈ st.value.parts, x.Gauged
  inner : ∀ x ∈ st.value.inner, x.BranchesOnlyByLeave
  branches : st.value.BranchesEmpty returnsValue 0

end Statement

lemma Scope.statementCode_fits {scope : Scope σ} {st : Statement} {s s' : CodeState σ}
    {code : List Instruction} (h : scope.statementCode st s = .ok code s')
    (hnet : scope.checkNet = true) (himport : scope.services.KeepsCounts)
    (hst : st.Gauged scope.returnsValue) :
    Fits scope.returnsValue scope.headers.Names 0 code 0 := by
  obtain ⟨value, store, hvalue, hstore, rfl⟩ := statementCode_eq_ok h
  have hfits := (scope.exprCode_fits hnet himport).1 _ _ _ _ hvalue hst.parts hst.inner 0
    (by omega) hst.branches
  rw [Int.zero_add] at hfits
  apply hfits.append
  cases st with
  | expression e =>
    cases hstore
    have hvoid : e.type.isVoid = true := hst.balanced
    simp [Fits, Expr.netEffect, Statement.value, hvoid]
  | assignment target e =>
    obtain ⟨slot, -, rfl⟩ := hstore
    have hvalue : (Statement.assignment target e).value.type.isVoid = false := hst.balanced
    rw [Expr.netEffect_eq_one hvalue]
    exact Fits.pass 1 0 rfl rfl (by omega) rfl

end CilBackend
