import CilBackend.Proofs.LoweringRuns

/-!
# Stack gauge

The gauge accepts code exactly when no instruction takes more values than there are and no depth is
beyond its limit, and it ends at the depth that the effects of the instructions add up to.
-/

namespace CilBackend

variable {σ : Type}

/-- The change of the depth by all effects together. -/
def netSum : List StackEffect → Int
  | [] => 0
  | e :: rest => e.net + netSum rest

@[simp] lemma netSum_nil : netSum [] = 0 := rfl

@[simp] lemma netSum_cons (e : StackEffect) (rest : List StackEffect) :
    netSum (e :: rest) = e.net + netSum rest := rfl

/-- From depth `d` on there are always as many values as the next effect takes. -/
def Sustains : Int → List StackEffect → Prop
  | _, [] => True
  | d, e :: rest => (e.pops : Int) ≤ d ∧ Sustains (d + e.net) rest

lemma Sustains.take {d : Int} {effects : List StackEffect} (h : Sustains d effects) (n : Nat) :
    Sustains d (effects.take n) := by
  induction effects generalizing d n with
  | nil =>
    rw [List.take_nil]
    trivial
  | cons e rest ih =>
    cases n with
    | zero => trivial
    | succ n => exact ⟨h.1, ih h.2 n⟩

/-- The greatest depth that a gauge can hold. -/
def gaugeLimit : Int :=
  Int64.maxValue.toInt

/-- From depth `d` on no effect leads beyond the limit. -/
def Holds : Int → List StackEffect → Prop
  | _, [] => True
  | d, e :: rest => d + e.net ≤ gaugeLimit ∧ Holds (d + e.net) rest

lemma Holds.take {d : Int} {effects : List StackEffect} (h : Holds d effects) (n : Nat) :
    Holds d (effects.take n) := by
  induction effects generalizing d n with
  | nil =>
    rw [List.take_nil]
    trivial
  | cons e rest ih =>
    cases n with
    | zero => trivial
    | succ n => exact ⟨h.1, ih h.2 n⟩

def stackEffects (returnsValue : Bool) (code : List Instruction) : List StackEffect :=
  code.map fun i => i.stackEffect returnsValue

@[simp] lemma stackEffects_nil (returnsValue : Bool) : stackEffects returnsValue [] = [] := rfl

@[simp] lemma stackEffects_cons (returnsValue : Bool) (i : Instruction) (rest : List Instruction) :
    stackEffects returnsValue (i :: rest) =
      i.stackEffect returnsValue :: stackEffects returnsValue rest := rfl

namespace StackGauge

variable {returnsValue : Bool} {position : Nat} {i : Instruction} {code : List Instruction}
  {g g' : StackGauge}

/-- `g'` is the gauge behind an instruction that `g` accepts. -/
def Advances (returnsValue : Bool) (i : Instruction) (g g' : StackGauge) : Prop :=
  g'.depth.toInt = g.depth.toInt + (i.stackEffect returnsValue).net ∧
    g'.greatest = max g.greatest g'.depth

lemma step_eq_ok : step returnsValue position i g = .ok () g' ↔
    ((i.stackEffect returnsValue).pops : Int) ≤ g.depth.toInt ∧ Advances returnsValue i g g' := by
  unfold step Advances
  dsimp only
  by_cases hunder : g.depth.toInt < (i.stackEffect returnsValue).pops
  · rw [if_pos hunder]
    simp [Int.not_le.mpr hunder]
  · rw [if_neg hunder, ← changeChecked_eq_some]
    obtain ⟨depth, greatest⟩ := g'
    cases changeChecked g.depth (i.stackEffect returnsValue).net with
    | none => simp
    | some found =>
      simp only [EStateM.Result.ok.injEq, StackGauge.mk.injEq, Option.some.injEq, true_and,
        Int.not_lt.mp hunder]
      constructor
      · rintro ⟨rfl, rfl⟩
        exact ⟨rfl, rfl⟩
      · rintro ⟨rfl, rfl⟩
        exact ⟨rfl, rfl⟩

lemma runFrom_cons_eq_ok : runFrom returnsValue position (i :: code) g = .ok () g' ↔
    ((i.stackEffect returnsValue).pops : Int) ≤ g.depth.toInt ∧
      ∃ next, Advances returnsValue i g next ∧
        runFrom returnsValue (position + 1) code next = .ok () g' := by
  rw [runFrom, run_bind_eq_ok]
  constructor
  · rintro ⟨_, next, hstep, hrest⟩
    obtain ⟨hpops, hnext⟩ := step_eq_ok.mp hstep
    exact ⟨hpops, next, hnext, hrest⟩
  · rintro ⟨hpops, next, hnext, hrest⟩
    exact ⟨(), next, step_eq_ok.mpr ⟨hpops, hnext⟩, hrest⟩

lemma depth_le_limit (g : StackGauge) : g.depth.toInt ≤ gaugeLimit := by
  have hlt := g.depth.toInt_lt
  unfold gaugeLimit
  rw [Int64.toInt_maxValue]
  omega

lemma runFrom_eq_ok (h : runFrom returnsValue position code g = .ok () g') :
    Sustains g.depth.toInt (stackEffects returnsValue code) ∧
      Holds g.depth.toInt (stackEffects returnsValue code) ∧
      g'.depth.toInt = g.depth.toInt + netSum (stackEffects returnsValue code) := by
  induction code generalizing position g with
  | nil =>
    obtain ⟨-, rfl⟩ := run_pure_eq_ok.mp h
    simp [Sustains, Holds]
  | cons i rest ih =>
    obtain ⟨hpops, next, ⟨hnext, -⟩, hrest⟩ := runFrom_cons_eq_ok.mp h
    obtain ⟨hsustains, hholds, hdepth⟩ := ih hrest
    have hlimit := next.depth_le_limit
    rw [hnext] at hsustains hholds hdepth hlimit
    rw [stackEffects_cons, netSum_cons, ← Int.add_assoc]
    exact ⟨⟨hpops, hsustains⟩, ⟨hlimit, hholds⟩, hdepth⟩

/-- An effect that finds its values leaves a depth that is not negative, so that only the upper
limit can be passed. -/
lemma exists_advances (hpops : ((i.stackEffect returnsValue).pops : Int) ≤ g.depth.toInt)
    (hlimit : g.depth.toInt + (i.stackEffect returnsValue).net ≤ gaugeLimit) :
    ∃ next, Advances returnsValue i g next := by
  have hnet : -((i.stackEffect returnsValue).pops : Int) ≤ (i.stackEffect returnsValue).net := by
    unfold StackEffect.net
    omega
  cases hdepth : changeChecked g.depth (i.stackEffect returnsValue).net with
  | none =>
    have hout := changeChecked_eq_none.mp hdepth
    unfold gaugeLimit at hlimit
    rw [Int64.toInt_minValue] at hout
    omega
  | some depth => exact ⟨⟨depth, max g.greatest depth⟩, changeChecked_eq_some.mp hdepth, rfl⟩

lemma exists_runFrom (hsustains : Sustains g.depth.toInt (stackEffects returnsValue code))
    (hholds : Holds g.depth.toInt (stackEffects returnsValue code)) (position : Nat) :
    ∃ g', runFrom returnsValue position code g = .ok () g' := by
  induction code generalizing position g with
  | nil => exact ⟨g, rfl⟩
  | cons i rest ih =>
    rw [stackEffects_cons] at hsustains hholds
    obtain ⟨hpops, hsustains⟩ := hsustains
    obtain ⟨hlimit, hholds⟩ := hholds
    obtain ⟨next, hnext⟩ := exists_advances hpops hlimit
    rw [← hnext.1] at hsustains hholds
    obtain ⟨g', hg'⟩ := ih hsustains hholds (position + 1)
    exact ⟨g', runFrom_cons_eq_ok.mpr ⟨hpops, next, hnext, hg'⟩⟩

end StackGauge

namespace Scope

variable {scope : Scope σ} {node : SyntaxNode}

lemma changeChecked_zero {initial : Int} {depth : Int64} :
    changeChecked 0 initial = some depth ↔ depth.toInt = initial := by
  rw [changeChecked_eq_some, Int64.toInt_zero, Int.zero_add]

lemma checkTemplate_eq_ok {initial expected : Int} {template : List Instruction} :
    scope.checkTemplate node initial expected template = .ok () ↔
      ∃ depth g, depth.toInt = initial ∧
        StackGauge.run scope.returnsValue template (.startingAt depth) = .ok () g ∧
        (scope.checkNet = true → g.depth.toInt = expected) := by
  unfold Scope.checkTemplate
  cases hdepth : changeChecked 0 initial with
  | none =>
    constructor
    · intro h
      cases h
    · rintro ⟨depth, g, hinitial, -⟩
      rw [changeChecked_zero.mpr hinitial] at hdepth
      cases hdepth
  | some depth =>
    have hinitial := changeChecked_zero.mp hdepth
    have hrun : (∃ depth g, depth.toInt = initial ∧
        StackGauge.run scope.returnsValue template (.startingAt depth) = .ok () g ∧
          (scope.checkNet = true → g.depth.toInt = expected)) ↔
        ∃ g, StackGauge.run scope.returnsValue template (.startingAt depth) = .ok () g ∧
          (scope.checkNet = true → g.depth.toInt = expected) := by
      constructor
      · rintro ⟨depth', g, hinitial', hrun⟩
        obtain rfl : depth' = depth := Int64.toInt_inj.mp (hinitial'.trans hinitial.symm)
        exact ⟨g, hrun⟩
      · rintro ⟨g, hrun⟩
        exact ⟨depth, g, hinitial, hrun⟩
    rw [hrun]
    dsimp only
    cases StackGauge.run scope.returnsValue template (.startingAt depth) with
    | error e g => cases e <;> simp
    | ok u g =>
      by_cases hnet : scope.checkNet = true
      · by_cases hfinal : g.depth.toInt = expected
        · simp [hnet, StackGauge.checkFinal, hfinal]
        · simp [hnet, StackGauge.checkFinal, hfinal]
      · simp [hnet]

lemma resolve_stackEffect {i j : Instruction} (h : scope.resolve node i = .ok j)
    (returnsValue : Bool) : j.stackEffect returnsValue = i.stackEffect returnsValue := by
  obtain ⟨-, operand, hoperand, rfl⟩ := resolve_eq_ok.mp h
  unfold Instruction.stackEffect
  dsimp only
  cases hcase : i.operand with
  | block target =>
    rw [hcase] at hoperand
    obtain ⟨label, -, heq⟩ := except_bind_eq_ok.mp hoperand
    cases heq
    cases i.opcode <;> rfl
  | blockTable targets =>
    rw [hcase] at hoperand
    obtain ⟨labels, -, heq⟩ := except_bind_eq_ok.mp hoperand
    cases heq
    cases i.opcode <;> rfl
  | var id =>
    rw [hcase] at hoperand
    obtain ⟨slot, -, heq⟩ := except_bind_eq_ok.mp hoperand
    cases heq
    cases i.opcode <;> rfl
  | _ =>
    rw [hcase] at hoperand
    cases hoperand
    rfl

/-- Resolving a template does not change what its instructions do to the stack. -/
lemma resolveTemplate_stackEffects {template resolved : List Instruction}
    (h : scope.resolveTemplate node template = .ok resolved) (returnsValue : Bool) :
    stackEffects returnsValue resolved = stackEffects returnsValue template := by
  have hall := (except_mapM_eq_ok _ _ _).mp h
  clear h
  unfold stackEffects
  induction hall with
  | nil => rfl
  | cons hhead _ ih => rw [List.map_cons, List.map_cons, ih, resolve_stackEffect hhead]

end Scope

end CilBackend
