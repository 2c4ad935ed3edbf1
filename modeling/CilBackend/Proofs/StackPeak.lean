import CilBackend.Proofs.Labels
import CilBackend.Proofs.StackDepth

/-!
# Measured stack depths

The pass that measures the peak of a piece of code counts at every place at least the depth with
which control can come there. `Inside` is the invariant of control inside a piece of code that
fits.
-/

namespace CilBackend

variable {returnsValue : Bool} {code : List Instruction}

namespace Instruction

/-- The depth behind an instruction that is reached at depth `d`. -/
def depthBehind (returnsValue : Bool) (i : Instruction) (d : Nat) : Nat :=
  d - (i.stackEffect returnsValue).pops + (i.stackEffect returnsValue).pushes

/-- The depth at the target of a jump. A `leave` empties the stack. -/
def depthAtTarget (returnsValue : Bool) (i : Instruction) (d : Nat) : Nat :=
  if i.opcode = .leave then 0 else i.depthBehind returnsValue d

/-- An instruction makes the stack one value deeper at most. -/
lemma pushes_le (returnsValue : Bool) (i : Instruction) :
    (i.stackEffect returnsValue).pushes ≤ (i.stackEffect returnsValue).pops + 1 := by
  unfold Instruction.stackEffect
  cases i.opcode with
  | call =>
    cases i.operand <;> simp [Opcode.stackEffect]
    split_ifs <;> omega
  | callvirt =>
    cases i.operand <;> simp [Opcode.stackEffect]
    split_ifs <;> omega
  | newobj => cases i.operand <;> simp [Opcode.stackEffect]
  | _ => simp [Opcode.stackEffect]

lemma depthBehind_eq {i : Instruction} {d : Nat}
    (h : ((i.stackEffect returnsValue).pops : Int) ≤ d) :
    (i.depthBehind returnsValue d : Int) = d + (i.stackEffect returnsValue).net := by
  unfold depthBehind StackEffect.net
  omega

lemma depthBehind_le {i : Instruction} {d : Nat}
    (h : ((i.stackEffect returnsValue).pops : Int) ≤ d) : i.depthBehind returnsValue d ≤ d + 1 := by
  have hpushes := i.pushes_le returnsValue
  unfold depthBehind
  omega

lemma depthBehind_mono (returnsValue : Bool) (i : Instruction) {d e : Nat} (h : d ≤ e) :
    i.depthBehind returnsValue d ≤ i.depthBehind returnsValue e := by
  unfold depthBehind
  omega

lemma depthAtTarget_mono (returnsValue : Bool) (i : Instruction) {d e : Nat} (h : d ≤ e) :
    i.depthAtTarget returnsValue d ≤ i.depthAtTarget returnsValue e := by
  unfold depthAtTarget
  split_ifs
  · exact Nat.le_refl 0
  · exact i.depthBehind_mono returnsValue h

end Instruction

namespace StackFlow

variable {s : StackFlow} {i : Instruction} {d : Nat}

/-- The depths with which control comes in: from the instruction above and from jumps. -/
lemma mem_incoming : d ∈ s.falling.toList ++ s.arriving i.label ↔
    s.falling = some d ∨ ∃ l, i.label = some l ∧ (l, d) ∈ s.carried := by
  unfold arriving
  rw [List.mem_append, Option.mem_toList, List.mem_filterMap]
  constructor
  · rintro (hfalling | ⟨⟨l, e⟩, hcarried, heq⟩)
    · exact Or.inl hfalling
    · rw [Option.ite_none_right_eq_some, Option.some.injEq] at heq
      exact Or.inr ⟨l, heq.1, heq.2 ▸ hcarried⟩
  · rintro (hfalling | ⟨l, hl, hcarried⟩)
    · exact Or.inl hfalling
    · exact Or.inr ⟨(l, d), hcarried, if_pos hl⟩

lemma le_depthAt_of_falling (h : s.falling = some d) : d ≤ s.depthAt i :=
  List.le_max?_getD_of_mem (mem_incoming.mpr (Or.inl h))

lemma le_depthAt_of_carried {l : Label} (h : (l, d) ∈ s.carried) (hl : i.label = some l) :
    d ≤ s.depthAt i :=
  List.le_max?_getD_of_mem (mem_incoming.mpr (Or.inr ⟨l, hl, h⟩))

/-- The depth in front of an instruction comes from the instruction above or from a jump to its
label; where control does not come in, it is zero. -/
lemma depthAt_cases (s : StackFlow) (i : Instruction) :
    s.falling = some (s.depthAt i) ∨
      (∃ l, i.label = some l ∧ (l, s.depthAt i) ∈ s.carried) ∨
      (s.depthAt i = 0 ∧ s.falling = none ∧ ∀ l d, i.label = some l → (l, d) ∉ s.carried) := by
  cases hmax : (s.falling.toList ++ s.arriving i.label).max? with
  | some d =>
    have hdepth : s.depthAt i = d := by
      unfold depthAt
      rw [hmax, Option.getD_some]
    rw [hdepth, ← or_assoc, ← mem_incoming]
    exact Or.inl (List.max?_mem hmax)
  | none =>
    have hnone : ∀ d, d ∉ s.falling.toList ++ s.arriving i.label := by
      rw [List.max?_eq_none_iff.mp hmax]
      exact fun _ => List.not_mem_nil
    refine Or.inr (Or.inr ⟨?_, ?_, ?_⟩)
    · unfold depthAt
      rw [hmax, Option.getD_none]
    · rw [Option.eq_none_iff_forall_ne_some]
      exact fun d hd => hnone d (mem_incoming.mpr (Or.inl hd))
    · exact fun l d hl hcarried => hnone d (mem_incoming.mpr (Or.inr ⟨l, hl, hcarried⟩))

lemma peak_le_foldl : s.peak ≤ (code.foldl (step returnsValue) s).peak := by
  induction code generalizing s with
  | nil => exact Nat.le_refl _
  | cons i rest ih =>
    have hstep : s.peak ≤ (s.step returnsValue i).peak := Nat.le_max_left _ _
    exact Nat.le_trans hstep ih

end StackFlow

/-- What the measuring pass knows in front of the instruction at `j`. -/
def flowAt (returnsValue : Bool) (code : List Instruction) (j : Nat) : StackFlow :=
  (code.take j).foldl (StackFlow.step returnsValue) .start

lemma flowAt_succ {j : Nat} {i : Instruction} (hi : code[j]? = some i) :
    flowAt returnsValue code (j + 1) = (flowAt returnsValue code j).step returnsValue i := by
  unfold flowAt
  rw [List.take_add_one, hi, List.foldl_append]
  rfl

lemma flowAt_succ_of_none {j : Nat} (hj : code[j]? = none) :
    flowAt returnsValue code (j + 1) = flowAt returnsValue code j := by
  unfold flowAt
  rw [List.take_add_one, hj, Option.toList_none, List.append_nil]

lemma flowAt_add (j n : Nat) :
    flowAt returnsValue code (j + n) =
      ((code.drop j).take n).foldl (StackFlow.step returnsValue) (flowAt returnsValue code j) := by
  unfold flowAt
  rw [List.take_add, List.foldl_append]

/-- The depth that the measuring pass counts behind the instruction at `j`. -/
lemma falling_flowAt_succ {j : Nat} {i : Instruction} (hi : code[j]? = some i) :
    (flowAt returnsValue code (j + 1)).falling =
      if i.opcode.endsFlow then none
      else some (i.depthBehind returnsValue ((flowAt returnsValue code j).depthAt i)) := by
  rw [flowAt_succ hi]
  rfl

/-- The depths that are carried to the places below `k` are those of the jumps above it. -/
lemma mem_carried_flowAt {k d : Nat} {l : Label} :
    (l, d) ∈ (flowAt returnsValue code k).carried ↔ ∃ j i, j < k ∧ code[j]? = some i ∧
      l ∈ i.operand.labels ∧
      d = i.depthAtTarget returnsValue ((flowAt returnsValue code j).depthAt i) := by
  induction k with
  | zero => simp [flowAt, StackFlow.start]
  | succ k ih =>
    cases hk : code[k]? with
    | none =>
      rw [flowAt_succ_of_none hk, ih]
      constructor
      · rintro ⟨j, i, hj, hi⟩
        exact ⟨j, i, by omega, hi⟩
      · rintro ⟨j, i, hj, hi, hrest⟩
        have hne : j ≠ k := by
          rintro rfl
          rw [hk] at hi
          cases hi
        exact ⟨j, i, by omega, hi, hrest⟩
    | some i =>
      have hcarried : (flowAt returnsValue code (k + 1)).carried =
          (flowAt returnsValue code k).carried ++ i.operand.labels.map fun l =>
            (l, i.depthAtTarget returnsValue ((flowAt returnsValue code k).depthAt i)) := by
        rw [flowAt_succ hk]
        rfl
      rw [hcarried, List.mem_append, ih]
      constructor
      · rintro (⟨j, i', hj, hi⟩ | hmem)
        · exact ⟨j, i', by omega, hi⟩
        · obtain ⟨l', hl', heq⟩ := List.mem_map.mp hmem
          cases heq
          exact ⟨k, i, Nat.lt_succ_self k, hk, hl', rfl⟩
      · rintro ⟨j, i', hj, hi', hl, hd⟩
        by_cases hjk : j = k
        · subst hjk
          rw [hk, Option.some.injEq] at hi'
          subst hi'
          exact Or.inr (List.mem_map.mpr ⟨l, hl, by rw [hd]⟩)
        · exact Or.inl ⟨j, i', by omega, hi', hl, hd⟩

/-- The pass counts at the next instruction at least the depth behind this one. -/
lemma le_depthAt_next {j : Nat} {i : Instruction} (hi : code[j]? = some i)
    (hflow : i.opcode.endsFlow = false) (next : Instruction) :
    i.depthBehind returnsValue ((flowAt returnsValue code j).depthAt i) ≤
      (flowAt returnsValue code (j + 1)).depthAt next := by
  apply StackFlow.le_depthAt_of_falling
  rw [falling_flowAt_succ hi, hflow]
  rfl

/-- The pass counts at the target of a jump further down at least the depth that the jump carries
there. -/
lemma le_depthAt_target {j k : Nat} {i target : Instruction} {l : Label} (hi : code[j]? = some i)
    (hl : l ∈ i.operand.labels) (hjk : j < k) (hlabel : target.label = some l) :
    i.depthAtTarget returnsValue ((flowAt returnsValue code j).depthAt i) ≤
      (flowAt returnsValue code k).depthAt target :=
  StackFlow.le_depthAt_of_carried (mem_carried_flowAt.mpr ⟨j, i, hjk, hi, hl, rfl⟩) hlabel

lemma peak_flowAt_succ {j : Nat} {i : Instruction} (hi : code[j]? = some i) :
    (flowAt returnsValue code (j + 1)).peak = max (flowAt returnsValue code j).peak
      (i.depthBehind returnsValue ((flowAt returnsValue code j).depthAt i)) := by
  rw [flowAt_succ hi]
  rfl

lemma depthBehind_le_peak {j : Nat} {i : Instruction} (hi : code[j]? = some i) :
    i.depthBehind returnsValue ((flowAt returnsValue code j).depthAt i) ≤
      (flowAt returnsValue code (j + 1)).peak := by
  rw [peak_flowAt_succ hi]
  exact Nat.le_max_right _ _

lemma peak_flowAt_le (j : Nat) :
    (flowAt returnsValue code j).peak ≤ (code.foldl (StackFlow.step returnsValue) .start).peak := by
  have hall : code.foldl (StackFlow.step returnsValue) .start =
      (code.drop j).foldl (StackFlow.step returnsValue) (flowAt returnsValue code j) := by
    unfold flowAt
    rw [← List.foldl_append, List.take_append_drop]
  rw [hall]
  exact StackFlow.peak_le_foldl

/-- Control is at place `j` of a piece of code with depth `d`. From there the rest of the code fits,
and the measuring pass has counted the depth. -/
structure Inside (returnsValue : Bool) (outer : Label → Prop) (code : List Instruction)
    (j d : Nat) : Prop where
  fits : Fits returnsValue outer d (code.drop j) 0
  le : d ≤ j
  measured : ∀ i, code[j]? = some i → d ≤ (flowAt returnsValue code j).depthAt i
  peak : d ≤ (flowAt returnsValue code j).peak

namespace Inside

variable {outer : Label → Prop} {j d : Nat} {i : Instruction}

lemma start (h : Fits returnsValue outer 0 code 0) : Inside returnsValue outer code 0 0 := by
  refine ⟨?_, Nat.le_refl 0, fun i _ => Nat.zero_le _, Nat.zero_le _⟩
  simpa using h

lemma fits_cons (h : Inside returnsValue outer code j d) (hi : code[j]? = some i) :
    Fits returnsValue outer d (i :: code.drop (j + 1)) 0 := by
  obtain ⟨hj, hget⟩ := List.getElem?_eq_some_iff.mp hi
  have hfits := h.fits
  rw [List.drop_eq_getElem_cons hj, hget] at hfits
  exact hfits

lemma pops_le (h : Inside returnsValue outer code j d) (hi : code[j]? = some i) :
    ((i.stackEffect returnsValue).pops : Int) ≤ d :=
  (h.fits_cons hi).1

/-- The depth behind the instruction is counted where control comes out of it. -/
lemma counted (h : Inside returnsValue outer code j d) (hi : code[j]? = some i) :
    i.depthBehind returnsValue d ≤ (flowAt returnsValue code (j + 1)).peak := by
  have hle := i.depthBehind_mono returnsValue (h.measured i hi)
  exact Nat.le_trans hle (depthBehind_le_peak hi)

lemma next (h : Inside returnsValue outer code j d) (hi : code[j]? = some i)
    (hflow : i.opcode.endsFlow = false) :
    Inside returnsValue outer code (j + 1) (i.depthBehind returnsValue d) := by
  have hpops := h.pops_le hi
  have hbehind := Instruction.depthBehind_le hpops
  have hle := h.le
  refine ⟨?_, by omega, ?_, h.counted hi⟩
  · have hrest := (h.fits_cons hi).2.2
    rw [← Instruction.depthBehind_eq hpops] at hrest
    exact hrest
  · intro next _
    have hmono := i.depthBehind_mono returnsValue (h.measured i hi)
    exact Nat.le_trans hmono (le_depthAt_next hi hflow next)

/-- A jump goes out with the empty stack or down to a place with the right depth. -/
lemma jump (h : Inside returnsValue outer code j d) (hi : code[j]? = some i) {l : Label}
    (hl : l ∈ i.operand.labels) :
    (outer l ∧ i.depthAtTarget returnsValue d = 0) ∨
      ∃ k, j < k ∧ (∃ i', code[k]? = some i' ∧ i'.label = some l) ∧
        Inside returnsValue outer code k (i.depthAtTarget returnsValue d) := by
  have hpops := h.pops_le hi
  have hdepth := Instruction.depthBehind_eq hpops
  obtain ⟨-, hjumps, hrest⟩ := h.fits_cons hi
  unfold Instruction.depthAtTarget
  rcases hjumps l hl with ⟨houter, hempty⟩ | ⟨hleave, skipped, i', after, hdrop, hlabel, hskipped⟩
  · refine Or.inl ⟨houter, ?_⟩
    split_ifs with hcase
    · rfl
    · rcases hempty with hleave | hzero
      · exact absurd hleave hcase
      · omega
  · rw [if_neg hleave]
    have hget : code[j + 1 + skipped.length]? = some i' := by
      rw [← List.getElem?_drop, hdrop, List.getElem?_append_right (Nat.le_refl _), Nat.sub_self]
      rfl
    have hbehind := Instruction.depthBehind_le hpops
    have hle := h.le
    refine Or.inr ⟨j + 1 + skipped.length, by omega, ⟨i', hget, hlabel⟩, ?_, by omega, ?_, ?_⟩
    · rw [hdrop] at hrest
      have hfits := hrest.behind
      rw [hskipped, Int.add_zero, ← hdepth] at hfits
      rw [← List.drop_drop, hdrop, List.drop_left]
      exact hfits
    · intro target htarget
      rw [hget, Option.some.injEq] at htarget
      have hmono := i.depthAtTarget_mono returnsValue (h.measured i hi)
      have hdown : j < j + 1 + skipped.length := by omega
      have hcarried := Nat.le_trans hmono (le_depthAt_target hi hl hdown (htarget ▸ hlabel))
      rwa [Instruction.depthAtTarget, if_neg hleave] at hcarried
    · apply Nat.le_trans (h.counted hi)
      rw [flowAt_add (j + 1) skipped.length]
      exact StackFlow.peak_le_foldl

end Inside

end CilBackend
