import CilBackend.Proofs.StackSafety
import Mathlib.Order.Bounds.Basic

/-!
# Paths down the code

The measured peak of a piece of code is the greatest depth on a path down the code, over all such
paths. The measuring pass goes through the code once; in front of every instruction it knows the
greatest depth with which a path comes there.
-/

namespace CilBackend

variable {returnsValue : Bool} {code : List Instruction} {k d : Nat} {i : Instruction}

/-- A path down the code comes to the instruction at `k` with depth `d`. Paths start with the empty
stack where nothing above leads, and every step goes further down. -/
inductive ForwardPath (returnsValue : Bool) (code : List Instruction) : (k d : Nat) → Prop where
  | start {k : Nat} (hk : k < code.length) (hfirst : ∀ j < k, ¬ Transfers code j k) :
      ForwardPath returnsValue code k 0
  | step {j k d e : Nat} (hpath : ForwardPath returnsValue code j d)
      (hstep : DepthStep returnsValue code (j, d) (k, e)) (hdown : j < k) (hk : k < code.length) :
      ForwardPath returnsValue code k e

/-- The depths behind the instructions on paths down the code. -/
def forwardDepths (returnsValue : Bool) (code : List Instruction) : Set Nat :=
  {d | ∃ k i before, ForwardPath returnsValue code k before ∧ code[k]? = some i ∧
    d = i.depthBehind returnsValue before}

/-- A step down the code never carries more than the pass has counted. -/
lemma DepthStep.le_depthAt {j e : Nat} {source : Instruction}
    (hstep : DepthStep returnsValue code (j, d) (k, e)) (hdown : j < k)
    (hsource : code[j]? = some source) (hi : code[k]? = some i)
    (hd : d ≤ (flowAt returnsValue code j).depthAt source) :
    e ≤ (flowAt returnsValue code k).depthAt i := by
  cases hstep with
  | next hj hflow =>
    cases hj.symm.trans hsource
    have hmono := source.depthBehind_mono returnsValue hd
    exact Nat.le_trans hmono (le_depthAt_next hsource hflow i)
  | jump hj hl hbound =>
    cases hj.symm.trans hsource
    obtain ⟨target, htarget, hlabel⟩ := hbound
    cases htarget.symm.trans hi
    have hmono := source.depthAtTarget_mono returnsValue hd
    exact Nat.le_trans hmono (le_depthAt_target hsource hl hdown hlabel)

lemma ForwardPath.le_depthAt (hpath : ForwardPath returnsValue code k d)
    (hi : code[k]? = some i) : d ≤ (flowAt returnsValue code k).depthAt i := by
  induction hpath generalizing i with
  | start => exact Nat.zero_le _
  | @step j k d e hpath hstep hdown hk ih =>
    obtain ⟨source, hsource⟩ : ∃ source, code[j]? = some source :=
      ⟨_, List.getElem?_eq_getElem (Nat.lt_trans hdown hk)⟩
    exact hstep.le_depthAt hdown hsource hi (ih hsource)

/-- The pass counts no more than some path carries. -/
lemma forwardPath_depthAt (returnsValue : Bool) (hi : code[k]? = some i) :
    ForwardPath returnsValue code k ((flowAt returnsValue code k).depthAt i) := by
  obtain ⟨hk, -⟩ := List.getElem?_eq_some_iff.mp hi
  -- The counted depth comes from one place further up, where the induction gives a path; it is this
  -- path that goes on to `k`.
  induction k using Nat.strong_induction_on generalizing i with
  | _ k ih =>
    rcases StackFlow.depthAt_cases (flowAt returnsValue code k) i with
      hfalling | ⟨l, hl, hcarried⟩ | ⟨hzero, hfalling, hcarried⟩
    · cases k with
      | zero =>
        cases hfalling
        exact ForwardPath.start hk (fun j hj => absurd hj (Nat.not_lt_zero j))
      | succ j =>
        have hj : j < code.length := Nat.lt_of_succ_lt hk
        have hsource := List.getElem?_eq_getElem hj
        rw [falling_flowAt_succ hsource, Option.ite_none_left_eq_some,
          Option.some.injEq] at hfalling
        obtain ⟨hflow, hdepth⟩ := hfalling
        rw [← hdepth]
        apply (ih j (Nat.lt_succ_self j) hsource hj).step _ (Nat.lt_succ_self j) hk
        exact DepthStep.next hsource (Bool.eq_false_iff.mpr hflow)
    · obtain ⟨j, source, hjk, hsource, hlabels, hdepth⟩ := mem_carried_flowAt.mp hcarried
      rw [hdepth]
      apply (ih j hjk hsource (Nat.lt_trans hjk hk)).step _ hjk hk
      exact DepthStep.jump hsource hlabels ⟨i, hi, hl⟩
    · rw [hzero]
      refine ForwardPath.start hk ?_
      rintro j hjk ⟨source, hsource, ⟨hflow, rfl⟩ | ⟨l, hlabels, target, htarget, hl⟩⟩
      · rw [falling_flowAt_succ hsource, hflow] at hfalling
        cases hfalling
      · cases htarget.symm.trans hi
        exact hcarried l _ hl (mem_carried_flowAt.mpr ⟨j, source, hjk, hsource, hlabels, rfl⟩)

/-- The peak so far is zero or the depth behind one of the instructions above. -/
lemma peak_flowAt_cases (returnsValue : Bool) (code : List Instruction) (n : Nat) :
    (flowAt returnsValue code n).peak = 0 ∨ ∃ k, ∃ i : Instruction, code[k]? = some i ∧
      (flowAt returnsValue code n).peak =
        i.depthBehind returnsValue ((flowAt returnsValue code k).depthAt i) := by
  induction n with
  | zero => exact Or.inl rfl
  | succ n ih =>
    cases hn : code[n]? with
    | none =>
      rw [flowAt_succ_of_none hn]
      exact ih
    | some i =>
      rw [peak_flowAt_succ hn]
      rcases max_choice (flowAt returnsValue code n).peak
        (i.depthBehind returnsValue ((flowAt returnsValue code n).depthAt i)) with hmax | hmax
      · rw [hmax]
        exact ih
      · exact Or.inr ⟨n, i, hn, hmax⟩

/-- The measured peak is the greatest depth behind an instruction on any path down the code, and
zero if there is none; it stays at the greatest number of 32 bits. -/
theorem stackPeak_isGreatest (returnsValue : Bool) (code : List Instruction) :
    ∃ peak, IsGreatest (insert 0 (forwardDepths returnsValue code)) peak ∧
      stackPeak returnsValue code = min peak depthLimit := by
  have hpeak : code.foldl (StackFlow.step returnsValue) .start =
      flowAt returnsValue code code.length := by
    unfold flowAt
    rw [List.take_length]
  refine ⟨(flowAt returnsValue code code.length).peak, ⟨?_, ?_⟩, by rw [stackPeak, hpeak]⟩
  · rcases peak_flowAt_cases returnsValue code code.length with hzero | ⟨k, i, hi, hdepth⟩
    · exact Or.inl hzero
    · exact Or.inr ⟨k, i, _, forwardPath_depthAt returnsValue hi, hi, hdepth⟩
  · rintro _ (rfl | ⟨k, i, before, hpath, hi, rfl⟩)
    · exact Nat.zero_le _
    · have hcounted := i.depthBehind_mono returnsValue (hpath.le_depthAt hi)
      apply Nat.le_trans hcounted
      apply Nat.le_trans (depthBehind_le_peak hi)
      rw [← hpeak]
      exact peak_flowAt_le (k + 1)

/-- The jump carries two values over code that no path enters with a value. -/
example : stackPeak false [
    { opcode := .ldnull }, { opcode := .dup }, { opcode := .br, operand := .label ⟨0⟩ },
    { opcode := .pop }, { opcode := .ret }, { opcode := .ldnull, label := some ⟨0⟩ }] = 3 := by
  decide

end CilBackend
