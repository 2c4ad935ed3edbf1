import CilBackend.Proofs.StackGauge
import Mathlib.Order.Bounds.Basic
import Mathlib.Order.MinMax

/-!
# Runs of the stack gauge

The depth in front of an instruction is the one at the start and the effects of all instructions
above. A run of the gauge goes through exactly when there are everywhere as many values as the next
instruction takes and the depths fit, and it ends with the depth behind the code and the greatest
depth on the way. A run that fails stops at the first instruction that does not pass, as if the code
ended there. A greater depth at the start is carried through as far as the depths still fit.
-/

namespace CilBackend

/-- The depth after the first `k` instructions of code that starts at depth `d`. -/
def depthAfter (returnsValue : Bool) (d : Int) (code : List Instruction) (k : Nat) : Int :=
  d + netSum (stackEffects returnsValue (code.take k))

section

variable {returnsValue : Bool} {d : Int} {code : List Instruction}

@[simp] lemma depthAfter_zero : depthAfter returnsValue d code 0 = d := by
  simp [depthAfter]

@[simp] lemma depthAfter_cons {i : Instruction} {k : Nat} :
    depthAfter returnsValue d (i :: code) (k + 1) =
      depthAfter returnsValue (d + (i.stackEffect returnsValue).net) code k := by
  rw [depthAfter, depthAfter, List.take_succ_cons, stackEffects_cons, netSum_cons, Int.add_assoc]

/-- An instruction passes at a depth at which it finds the values that it takes, if the gauge can
hold the depth behind it. -/
def Instruction.PassesAt (returnsValue : Bool) (i : Instruction) (depth : Int) : Prop :=
  ((i.stackEffect returnsValue).pops : Int) ≤ depth ∧
    depth + (i.stackEffect returnsValue).net ≤ gaugeLimit

lemma depthAfter_succ {k : Nat} {i : Instruction} (hi : code[k]? = some i) :
    depthAfter returnsValue d code (k + 1) =
      depthAfter returnsValue d code k + (i.stackEffect returnsValue).net := by
  induction code generalizing d k with
  | nil => simp at hi
  | cons first rest ih =>
    cases k with
    | zero =>
      cases hi
      rw [depthAfter_cons, depthAfter_zero, depthAfter_zero]
    | succ k => rw [depthAfter_cons, depthAfter_cons, ih hi]

/-- What every instruction of a list meets at its depth, its first does at the start and the others
do behind it. -/
lemma forall_depthAfter_cons (P : Instruction → Int → Prop) (first : Instruction)
    (rest : List Instruction) :
    (∀ k i, (first :: rest)[k]? = some i → P i (depthAfter returnsValue d (first :: rest) k)) ↔
      P first d ∧ ∀ k i, rest[k]? = some i →
        P i (depthAfter returnsValue (d + (first.stackEffect returnsValue).net) rest k) := by
  constructor
  · intro h
    refine ⟨?_, fun k i hi => ?_⟩
    · have hfirst := h 0 first rfl
      rwa [depthAfter_zero] at hfirst
    · have hrest := h (k + 1) i hi
      rwa [depthAfter_cons] at hrest
  · rintro ⟨hfirst, hrest⟩ k i hi
    cases k with
    | zero =>
      cases hi
      rw [depthAfter_zero]
      exact hfirst
    | succ k =>
      rw [depthAfter_cons]
      exact hrest k i hi

lemma sustains_iff : Sustains d (stackEffects returnsValue code) ↔
    ∀ (k : Nat) (i : Instruction), code[k]? = some i →
      ((i.stackEffect returnsValue).pops : Int) ≤ depthAfter returnsValue d code k := by
  induction code generalizing d with
  | nil => simp [Sustains]
  | cons first rest ih =>
    rw [stackEffects_cons, Sustains, ih,
      forall_depthAfter_cons fun i depth => ((i.stackEffect returnsValue).pops : Int) ≤ depth]

lemma holds_iff : Holds d (stackEffects returnsValue code) ↔
    ∀ (k : Nat) (i : Instruction), code[k]? = some i →
      depthAfter returnsValue d code k + (i.stackEffect returnsValue).net ≤ gaugeLimit := by
  induction code generalizing d with
  | nil => simp [Holds]
  | cons first rest ih =>
    rw [stackEffects_cons, Holds, ih,
      forall_depthAfter_cons fun i depth => depth + (i.stackEffect returnsValue).net ≤ gaugeLimit]

end

namespace StackGauge

variable {returnsValue : Bool} {position : Nat} {i : Instruction} {code : List Instruction}
  {g g' : StackGauge}

/-! ## Steps -/

/-- The reason for which an instruction at a position does not pass. -/
def Stops (returnsValue : Bool) (depth : Int) (position : Nat) (i : Instruction) :
    GaugeError → Prop
  | .violation cause => depth < (i.stackEffect returnsValue).pops ∧
      cause = .stackUnderflow i.opcode position depth (i.stackEffect returnsValue).pops
  | .overflow => ((i.stackEffect returnsValue).pops : Int) ≤ depth ∧
      gaugeLimit < depth + (i.stackEffect returnsValue).net

lemma step_eq_error {e : GaugeError} : step returnsValue position i g = .error e g' ↔
    g' = g ∧ Stops returnsValue g.depth.toInt position i e := by
  unfold step
  dsimp only
  by_cases hunder : g.depth.toInt < (i.stackEffect returnsValue).pops
  · rw [if_pos hunder]
    cases e with
    | violation cause => simp [Stops, hunder, eq_comm, and_comm]
    | overflow => simp [Stops, Int.not_le.mpr hunder]
  · have hpops := Int.not_lt.mp hunder
    rw [if_neg hunder]
    cases hchange : changeChecked g.depth (i.stackEffect returnsValue).net with
    | none =>
      -- The depth did not fit, and it can only have been too great.
      have hlimit : gaugeLimit < g.depth.toInt + (i.stackEffect returnsValue).net := by
        by_contra hfits
        obtain ⟨next, hnext, -⟩ := exists_advances hpops (Int.not_lt.mp hfits)
        rw [changeChecked_eq_some.mpr hnext] at hchange
        cases hchange
      cases e with
      | violation cause => simp [Stops, hunder]
      | overflow => simp [Stops, hpops, hlimit, eq_comm]
    | some depth =>
      have hlimit := depth_le_limit ⟨depth, depth⟩
      rw [changeChecked_eq_some.mp hchange] at hlimit
      cases e with
      | violation cause => simp [Stops, hunder]
      | overflow => simp [Stops, Int.not_lt.mpr hlimit]

/-! ## Runs -/

lemma runFrom_append {a b : List Instruction}
    (h : runFrom returnsValue position a g = .ok () g') :
    runFrom returnsValue position (a ++ b) g =
      runFrom returnsValue (position + a.length) b g' := by
  induction a generalizing position g with
  | nil =>
    obtain ⟨-, rfl⟩ := run_pure_eq_ok.mp h
    rfl
  | cons i rest ih =>
    obtain ⟨hpops, next, hnext, hrest⟩ := runFrom_cons_eq_ok.mp h
    have hstep : step returnsValue position i g = .ok () next := step_eq_ok.mpr ⟨hpops, hnext⟩
    rw [List.cons_append, runFrom, List.length_cons, Nat.add_comm rest.length, ← Nat.add_assoc,
      ← ih hrest]
    change EStateM.bind _ _ _ = _
    simp only [EStateM.bind, hstep]

/-- A run fails at the first instruction that does not pass, in the state that the instructions
above it leave. -/
lemma runFrom_eq_error {e : GaugeError}
    (h : runFrom returnsValue position code g = .error e g') :
    ∃ k i, code[k]? = some i ∧
      Stops returnsValue (depthAfter returnsValue g.depth.toInt code k) (position + k) i e ∧
      runFrom returnsValue position (code.take k) g = .ok () g' := by
  induction code generalizing position g with
  | nil => cases h
  | cons first rest ih =>
    rcases run_bind_eq_error.mp h with hstep | ⟨_, next, hstep, hrest⟩
    · obtain ⟨rfl, hstops⟩ := step_eq_error.mp hstep
      refine ⟨0, first, rfl, ?_⟩
      rw [depthAfter_zero]
      exact ⟨hstops, rfl⟩
    · obtain ⟨hpops, hnext⟩ := step_eq_ok.mp hstep
      obtain ⟨k, i, hi, hstops, hbefore⟩ := ih hrest
      refine ⟨k + 1, i, hi, ?_⟩
      rw [depthAfter_cons, ← hnext.1, Nat.add_comm k, ← Nat.add_assoc, Nat.add_comm 1,
        List.take_succ_cons, runFrom_cons_eq_ok]
      exact ⟨hstops, hpops, next, hnext, hbefore⟩

lemma toInt_max (a b : Int64) : (max a b).toInt = max a.toInt b.toInt := by
  change (if a ≤ b then b else a).toInt = if a.toInt ≤ b.toInt then b.toInt else a.toInt
  rw [apply_ite Int64.toInt]
  exact if_congr Int64.le_iff_toInt_le rfl rfl

/-- The greatest depth of a run is that of the gauge before or one on the way. -/
lemma isGreatest_of_runFrom (h : runFrom returnsValue position code g = .ok () g')
    (hdepth : g.depth.toInt ≤ g.greatest.toInt) :
    IsGreatest (insert g.greatest.toInt
      {x | ∃ k ≤ code.length, depthAfter returnsValue g.depth.toInt code k = x})
      g'.greatest.toInt := by
  induction code generalizing position g with
  | nil =>
    obtain ⟨-, rfl⟩ := run_pure_eq_ok.mp h
    refine ⟨Set.mem_insert _ _, ?_⟩
    rintro x (rfl | ⟨k, -, rfl⟩)
    · exact le_refl _
    · simpa [depthAfter] using hdepth
  | cons i rest ih =>
    obtain ⟨-, next, ⟨hnext, hgreatest⟩, hrest⟩ := runFrom_cons_eq_ok.mp h
    have hmax : next.greatest.toInt = max g.greatest.toInt next.depth.toInt := by
      rw [hgreatest, toInt_max]
    obtain ⟨hmem, hupper⟩ := ih hrest (hmax ▸ le_max_right _ _)
    have hbefore : g.greatest.toInt ≤ g'.greatest.toInt :=
      (hmax ▸ le_max_left _ _ : g.greatest.toInt ≤ next.greatest.toInt).trans
        (hupper (Set.mem_insert _ _))
    rw [hnext] at hupper hmem
    constructor
    · rcases hmem with hnew | ⟨k, hk, hx⟩
      · rcases max_choice g.greatest.toInt next.depth.toInt with hold | hnext'
        · exact Or.inl (hnew.trans (hmax.trans hold))
        · refine Or.inr ⟨1, by simp, ?_⟩
          rw [depthAfter_cons, depthAfter_zero, ← hnext, hnew, hmax, hnext']
      · refine Or.inr ⟨k + 1, Nat.succ_le_succ hk, ?_⟩
        rw [depthAfter_cons]
        exact hx
    · rintro x (rfl | ⟨k, hk, rfl⟩)
      · exact hbefore
      · cases k with
        | zero =>
          rw [depthAfter_zero]
          exact hdepth.trans hbefore
        | succ k =>
          rw [depthAfter_cons]
          exact hupper (Or.inr ⟨k, Nat.le_of_succ_le_succ hk, rfl⟩)

/-! ## From a given depth -/

variable {d d' : Int64}

lemma exists_run_iff_sustains : (∃ g, run returnsValue code (startingAt d) = .ok () g) ↔
    Sustains d.toInt (stackEffects returnsValue code) ∧
      Holds d.toInt (stackEffects returnsValue code) := by
  constructor
  · rintro ⟨g, hrun⟩
    obtain ⟨hsustains, hholds, -⟩ := runFrom_eq_ok hrun
    exact ⟨hsustains, hholds⟩
  · rintro ⟨hsustains, hholds⟩
    exact exists_runFrom (g := startingAt d) hsustains hholds 0

lemma exists_run_iff : (∃ g, run returnsValue code (startingAt d) = .ok () g) ↔
    ∀ (k : Nat) (i : Instruction), code[k]? = some i →
      i.PassesAt returnsValue (depthAfter returnsValue d.toInt code k) := by
  rw [exists_run_iff_sustains, sustains_iff, holds_iff]
  exact ⟨fun h k i hi => ⟨h.1 k i hi, h.2 k i hi⟩,
    fun h => ⟨fun k i hi => (h k i hi).1, fun k i hi => (h k i hi).2⟩⟩

/-- An instruction above the end of a successful run has passed. -/
lemma passesAt_of_run_take {k j : Nat}
    (h : run returnsValue (code.take k) (startingAt d) = .ok () g) (hj : j < k)
    (hi : code[j]? = some i) :
    i.PassesAt returnsValue (depthAfter returnsValue d.toInt code j) := by
  have hprefix : (code.take k)[j]? = some i := by
    rw [List.getElem?_take_of_lt hj]
    exact hi
  have hpasses := exists_run_iff.mp ⟨g, h⟩ j i hprefix
  rw [depthAfter, List.take_take, Nat.min_eq_left (Nat.le_of_lt hj)] at hpasses
  exact hpasses

lemma depth_of_run (h : run returnsValue code (startingAt d) = .ok () g) :
    g.depth.toInt = depthAfter returnsValue d.toInt code code.length := by
  rw [depthAfter, List.take_length]
  exact (runFrom_eq_ok h).2.2

lemma isGreatest_of_run (h : run returnsValue code (startingAt d) = .ok () g) :
    IsGreatest {x | ∃ k ≤ code.length, depthAfter returnsValue d.toInt code k = x}
      g.greatest.toInt := by
  have hgreatest := isGreatest_of_runFrom h (le_refl d.toInt)
  have hstart : d.toInt ∈ {x | ∃ k ≤ code.length, depthAfter returnsValue d.toInt code k = x} :=
    ⟨0, Nat.zero_le _, depthAfter_zero⟩
  rw [← Set.insert_eq_of_mem hstart]
  exact hgreatest

lemma run_eq_error_iff {e : GaugeError} :
    run returnsValue code (startingAt d) = .error e g ↔
      ∃ k i, code[k]? = some i ∧
        Stops returnsValue (depthAfter returnsValue d.toInt code k) k i e ∧
        run returnsValue (code.take k) (startingAt d) = .ok () g := by
  constructor
  · intro h
    obtain ⟨k, i, hi, hstops, hbefore⟩ := runFrom_eq_error h
    rw [Nat.zero_add] at hstops
    exact ⟨k, i, hi, hstops, hbefore⟩
  · rintro ⟨k, i, hi, hstops, hbefore⟩
    obtain ⟨hlt, hget⟩ := List.getElem?_eq_some_iff.mp hi
    have hsplit : code = code.take k ++ i :: code.drop (k + 1) := by
      rw [← hget, ← List.drop_eq_getElem_cons hlt, List.take_append_drop]
    have hlength : 0 + (code.take k).length = k := by
      rw [List.length_take, Nat.zero_add, Nat.min_eq_left (Nat.le_of_lt hlt)]
    have hrun : run returnsValue code (startingAt d) =
        runFrom returnsValue k (i :: code.drop (k + 1)) g := by
      conv_lhs => rw [hsplit]
      rw [run, runFrom_append hbefore, hlength]
    have hdepth : depthAfter returnsValue d.toInt code k = g.depth.toInt := by
      rw [depth_of_run hbefore, depthAfter, depthAfter, List.take_length]
    rw [hdepth] at hstops
    rw [hrun, runFrom, run_bind_eq_error]
    exact Or.inl (step_eq_error.mpr ⟨rfl, hstops⟩)

/-! ## From a greater depth -/

lemma depthAfter_greater (k : Nat) :
    depthAfter returnsValue d'.toInt code k =
      depthAfter returnsValue d.toInt code k + (d'.toInt - d.toInt) := by
  unfold depthAfter
  omega

/-- Code that passes from one depth passes from a greater one as long as the greatest depth on the
way still fits. -/
lemma exists_run_greater_iff (h : run returnsValue code (startingAt d) = .ok () g) (hle : d ≤ d') :
    (∃ g', run returnsValue code (startingAt d') = .ok () g') ↔
      g.greatest.toInt + (d'.toInt - d.toInt) ≤ gaugeLimit := by
  have hmore := Int64.le_iff_toInt_le.mp hle
  obtain ⟨⟨k, hk, hgreatest⟩, hupper⟩ := isGreatest_of_run h
  constructor
  · rintro ⟨g', hrun⟩
    have hreached := (isGreatest_of_run hrun).2 ⟨k, hk, rfl⟩
    have hlimit : g'.greatest.toInt ≤ gaugeLimit := depth_le_limit ⟨g'.greatest, g'.greatest⟩
    rw [depthAfter_greater (d := d), hgreatest] at hreached
    omega
  · intro hfits
    rw [exists_run_iff]
    intro j i hi
    have hpasses := exists_run_iff.mp ⟨g, h⟩ j i hi
    have hbehind := hupper ⟨j + 1, (List.getElem?_eq_some_iff.mp hi).1, rfl⟩
    rw [depthAfter_succ hi] at hbehind
    rw [depthAfter_greater (d := d)]
    unfold Instruction.PassesAt at hpasses ⊢
    omega

lemma measures_greater {g' : StackGauge} (h : run returnsValue code (startingAt d) = .ok () g)
    (h' : run returnsValue code (startingAt d') = .ok () g') :
    g'.depth.toInt = g.depth.toInt + (d'.toInt - d.toInt) ∧
      g'.greatest.toInt = g.greatest.toInt + (d'.toInt - d.toInt) := by
  constructor
  · rw [depth_of_run h', depth_of_run h, depthAfter_greater]
  · obtain ⟨⟨k, hk, hgreatest⟩, hupper⟩ := isGreatest_of_run h
    apply (isGreatest_of_run h').unique
    refine ⟨⟨k, hk, by rw [depthAfter_greater (d := d), hgreatest]⟩, ?_⟩
    rintro x ⟨j, hj, rfl⟩
    have hle := hupper ⟨j, hj, rfl⟩
    rw [depthAfter_greater (d := d)]
    omega

/-- The gauge is exact. It accepts code when every instruction finds the values that it takes and
the depth behind it fits, and measures the depth behind the code and the greatest depth in front of
or behind an instruction. Otherwise it stops at the first instruction that does not pass, names it
with its depth if there are too few values, and keeps the measures of those above it. From a greater
depth the same code is accepted, with measures that are greater by as much, exactly as long as the
greatest of them fits. -/
theorem run_exact (returnsValue : Bool) (d : Int64) (code : List Instruction) :
    ((∃ g, run returnsValue code (startingAt d) = .ok () g) ↔
      ∀ (k : Nat) (i : Instruction), code[k]? = some i →
        i.PassesAt returnsValue (depthAfter returnsValue d.toInt code k)) ∧
    (∀ g, run returnsValue code (startingAt d) = .ok () g →
      g.depth.toInt = depthAfter returnsValue d.toInt code code.length ∧
        IsGreatest {x | ∃ k ≤ code.length, depthAfter returnsValue d.toInt code k = x}
          g.greatest.toInt) ∧
    (∀ e g, run returnsValue code (startingAt d) = .error e g ↔
      ∃ k i, code[k]? = some i ∧
        (∀ (j : Nat) (i' : Instruction), j < k → code[j]? = some i' →
          i'.PassesAt returnsValue (depthAfter returnsValue d.toInt code j)) ∧
        Stops returnsValue (depthAfter returnsValue d.toInt code k) k i e ∧
        run returnsValue (code.take k) (startingAt d) = .ok () g) ∧
    ∀ g d', run returnsValue code (startingAt d) = .ok () g → d ≤ d' →
      ((∃ g', run returnsValue code (startingAt d') = .ok () g') ↔
        g.greatest.toInt + (d'.toInt - d.toInt) ≤ gaugeLimit) ∧
      ∀ g', run returnsValue code (startingAt d') = .ok () g' →
        g'.depth.toInt = g.depth.toInt + (d'.toInt - d.toInt) ∧
          g'.greatest.toInt = g.greatest.toInt + (d'.toInt - d.toInt) := by
  refine ⟨exists_run_iff, fun g hrun => ⟨depth_of_run hrun, isGreatest_of_run hrun⟩, ?_, ?_⟩
  · intro e g
    rw [run_eq_error_iff]
    constructor
    · rintro ⟨k, i, hi, hstops, hbefore⟩
      exact ⟨k, i, hi, fun j i' => passesAt_of_run_take hbefore, hstops, hbefore⟩
    · rintro ⟨k, i, hi, -, hstops, hbefore⟩
      exact ⟨k, i, hi, hstops, hbefore⟩
  · intro g d' hrun hle
    exact ⟨exists_run_greater_iff hrun hle, fun g' => measures_greater hrun⟩

/-- Takes the sum of two values, one of which it brings along, and adds the sum to another one. -/
def nestedSums : List Instruction :=
  [{ opcode := .ldnull }, { opcode := .add }, { opcode := .add }]

/-- From depth one the second addition finds one value only, and the gauge stops behind the first;
from depth two all values are there, and from depth five the measures are greater by three. From the
greatest depth the first instruction finds its values, as it takes none, and does not pass. -/
theorem nestedSums_exact : ∃ g g',
    run false nestedSums (startingAt 1) = .error (.violation (.stackUnderflow .add 2 1 2)) g ∧
      run false (nestedSums.take 2) (startingAt 1) = .ok () g ∧
      run false nestedSums (startingAt 2) = .ok () ⟨1, 3⟩ ∧
      IsGreatest {x | ∃ k ≤ nestedSums.length, depthAfter false 2 nestedSums k = x} 3 ∧
      run false nestedSums (startingAt 5) = .ok () g' ∧ g'.depth.toInt = 4 ∧
      g'.greatest.toInt = 6 ∧
      ¬ ∃ g, run false nestedSums (startingAt Int64.maxValue) = .ok () g := by
  obtain ⟨-, -, herror, -⟩ := run_exact false 1 nestedSums
  obtain ⟨-, hmeasures, -, hgreater⟩ := run_exact false 2 nestedSums
  obtain ⟨g, hfails⟩ : ∃ g,
      run false nestedSums (startingAt 1) = .error (.violation (.stackUnderflow .add 2 1 2)) g :=
    ⟨_, rfl⟩
  have hruns : run false nestedSums (startingAt 2) = .ok () ⟨1, 3⟩ := rfl
  obtain ⟨k, i, -, -, ⟨-, hcause⟩, hbefore⟩ := (herror _ g).mp hfails
  obtain ⟨-, rfl, -, -⟩ := Violation.stackUnderflow.inj hcause
  obtain ⟨hfits, hmore⟩ := hgreater ⟨1, 3⟩ 5 hruns (by decide)
  obtain ⟨g', hruns'⟩ := hfits.mpr (by decide)
  obtain ⟨hoverflows, -⟩ := hgreater ⟨1, 3⟩ Int64.maxValue hruns (by decide)
  exact ⟨g, g', hfails, hbefore, hruns, (hmeasures ⟨1, 3⟩ hruns).2, hruns', (hmore g' hruns').1,
    (hmore g' hruns').2, fun hsome => absurd (hoverflows.mp hsome) (by decide)⟩

/-- Every instruction finds the values that it takes, and still the code is not accepted: from the
greatest depth there is no room for one more value. -/
theorem run_refuses_push_at_limit :
    (∀ (k : Nat) (i : Instruction), [{ opcode := .ldnull }][k]? = some i →
      ((i.stackEffect false).pops : Int) ≤
        depthAfter false Int64.maxValue.toInt [{ opcode := .ldnull }] k) ∧
      run false [{ opcode := .ldnull }] (startingAt Int64.maxValue) =
        .error .overflow (startingAt Int64.maxValue) := by
  refine ⟨?_, rfl⟩
  intro k i hi
  cases k with
  | zero =>
    cases hi
    decide
  | succ k => cases hi

end StackGauge

end CilBackend
