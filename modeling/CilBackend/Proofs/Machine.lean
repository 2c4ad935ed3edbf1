import CilBackend.Proofs.Labels
import Mathlib.Logic.Relation

/-!
# Stack machines

A machine runs code on a stack of values and on locals. It fixes what `nop`, `ldnull`, `dup`,
`pop`, `br` and `brtrue` do; all other instructions are open. `Machine.Performs` says that a
stretch of a body does to every state what a given action does.
-/

namespace CilBackend

structure MachineState (Value Locals : Type) where
  locals : Locals
  stack : List Value

/-- `execute` gives the instructions that control passes through their effect, `transfer` gives
those that can send it elsewhere their effect and the label that they go to, if they do. Both may
have no result: the machine stops there. -/
structure Machine where
  Value : Type
  Locals : Type
  null : Value
  /-- The values at which `brtrue` does not jump. -/
  isNull : Value → Bool
  isNull_null : isNull null = true
  execute : Opcode → Operand → MachineState Value Locals → Option (MachineState Value Locals)
  transfer : Opcode → Operand → MachineState Value Locals →
    Option (Option Label × MachineState Value Locals)

/-- The place of the first instruction that is bound to a label. -/
def position? (code : List Instruction) (l : Label) : Option Nat :=
  code.findIdx? fun i => i.label = some l

namespace Machine

abbrev State (M : Machine) := MachineState M.Value M.Locals

/-- What a piece of code does to the state, if it gets through. -/
abbrev Action (M : Machine) := M.State → Option M.State

/-- The effect of an instruction that control passes through. -/
def effect (M : Machine) (op : Opcode) (operand : Operand) : M.Action
  | st =>
    match op, st.stack with
    | .nop, _ => some st
    | .ldnull, stack => some { st with stack := M.null :: stack }
    | .dup, [] => none
    | .dup, v :: rest => some { st with stack := v :: v :: rest }
    | .pop, [] => none
    | .pop, _ :: rest => some { st with stack := rest }
    | _, _ => M.execute op operand st

/-- The effect of an instruction, and the label that it sends control to, if it does. -/
def perform (M : Machine) (op : Opcode) (operand : Operand) (st : M.State) :
    Option (Option Label × M.State) :=
  match op, operand, st.stack with
  | .br, .label l, _ => some (some l, st)
  | .brtrue, .label _, [] => none
  | .brtrue, .label l, v :: rest =>
    some (if M.isNull v then none else some l, { st with stack := rest })
  | _, _, _ =>
    if op.isBranch || op.endsFlow then M.transfer op operand st
    else (M.effect op operand st).map fun st => (none, st)

structure Config (M : Machine) where
  position : Nat
  state : M.State

/-- Goes on at the instruction that the label is bound to, or behind the one at `k`. -/
def continueAt (M : Machine) (body : List Instruction) (k : Nat) (st : M.State) :
    Option Label → Option M.Config
  | none => some ⟨k + 1, st⟩
  | some l => (position? body l).map fun target => ⟨target, st⟩

def step (M : Machine) (body : List Instruction) (c : M.Config) : Option M.Config := do
  let i ← body[c.position]?
  let (target, st) ← M.perform i.opcode i.operand c.state
  M.continueAt body c.position st target

/-- Any number of steps from places between `low` and, without it, `high`. -/
def Reaches (M : Machine) (body : List Instruction) (low high : Nat) : M.Config → M.Config → Prop :=
  Relation.ReflTransGen fun c c' =>
    (low ≤ c.position ∧ c.position < high) ∧ M.step body c = some c'

/-- From `k` on the body does to every state what the action does and comes to `n`. Where the action
has no result, the machine stops on the way. It does not leave the stretch in between. -/
structure Performs (M : Machine) (body : List Instruction) (k n : Nat) (action : M.Action) :
    Prop where
  ordered : k ≤ n
  arrives : ∀ st st', action st = some st' → M.Reaches body k n ⟨k, st⟩ ⟨n, st'⟩
  stops : ∀ st, action st = none → ∃ c, M.Reaches body k n ⟨k, st⟩ c ∧
    (k ≤ c.position ∧ c.position < n) ∧ M.step body c = none

end Machine

/-- The code stands in the body from place `k` on, with any offsets. -/
def CodeAt (body : List Instruction) (k : Nat) (code : List Instruction) : Prop :=
  ∀ j i, code[j]? = some i → ∃ i', body[k + j]? = some i' ∧ i'.unplaced = i.unplaced

namespace CodeAt

variable {body a b code : List Instruction} {k : Nat}

lemma left (h : CodeAt body k (a ++ b)) : CodeAt body k a := by
  intro j i hi
  have hj : j < a.length := (List.getElem?_eq_some_iff.mp hi).1
  apply h
  rw [List.getElem?_append_left hj, hi]

lemma right (h : CodeAt body k (a ++ b)) : CodeAt body (k + a.length) b := by
  intro j i hi
  rw [Nat.add_assoc]
  apply h
  rw [List.getElem?_append_right (Nat.le_add_right _ _), Nat.add_sub_cancel_left, hi]

lemma of_append (before code after : List Instruction) :
    CodeAt (before ++ code ++ after) before.length code := by
  intro j i hi
  have hj : j < code.length := (List.getElem?_eq_some_iff.mp hi).1
  refine ⟨i, ?_, rfl⟩
  rw [List.append_assoc, List.getElem?_append_right (Nat.le_add_right _ _),
    Nat.add_sub_cancel_left, List.getElem?_append_left hj, hi]

/-- A label that the body binds once is found where the code binds it. -/
lemma position?_eq (h : CodeAt body k code) {j : Nat} {i : Instruction} {l : Label}
    (hi : code[j]? = some i) (hl : i.label = some l) (honce : (boundLabels body).count l = 1) :
    position? body l = some (k + j) := by
  obtain ⟨i', hi', hsame⟩ := h j i hi
  obtain ⟨-, -, hlabel⟩ := Instruction.eq_of_unplaced_eq hsame
  obtain ⟨hlt, hget⟩ := List.getElem?_eq_some_iff.mp hi'
  unfold position?
  rw [List.findIdx?_eq_some_iff_getElem]
  refine ⟨hlt, ?_, ?_⟩
  · rw [hget, hlabel, hl]
    exact decide_eq_true rfl
  · intro m hm hbound
    have hfirst : body[m]? = some body[m] := List.getElem?_eq_getElem (Nat.lt_trans hm hlt)
    have heq := position_unique_of_count (Nat.le_of_eq honce) hfirst hi'
      (of_decide_eq_true hbound) (hlabel.trans hl)
    omega

end CodeAt

namespace Machine

variable {M : Machine} {body : List Instruction}

lemma perform_of_passes {op : Opcode} (hbranch : op.isBranch = false) (hflow : op.endsFlow = false)
    (operand : Operand) (st : M.State) :
    M.perform op operand st = (M.effect op operand st).map fun st => (none, st) := by
  unfold perform
  split
  · cases hflow
  · cases hbranch
  · cases hbranch
  · rw [hbranch, hflow]
    rfl

lemma step_of_codeAt {k : Nat} {code : List Instruction} (h : CodeAt body k code) {j : Nat}
    {i : Instruction} (hi : code[j]? = some i) (st : M.State) :
    M.step body ⟨k + j, st⟩ =
      (M.perform i.opcode i.operand st).bind fun (target, st) =>
        M.continueAt body (k + j) st target := by
  obtain ⟨i', hi', hsame⟩ := h j i hi
  obtain ⟨hopcode, hoperand, -⟩ := Instruction.eq_of_unplaced_eq hsame
  rw [← hopcode, ← hoperand]
  unfold step
  dsimp only
  rw [hi']
  rfl

lemma Reaches.mono {low high low' high' : Nat} {c c' : M.Config}
    (h : M.Reaches body low high c c') (hlow : low' ≤ low) (hhigh : high ≤ high') :
    M.Reaches body low' high' c c' := by
  refine Relation.ReflTransGen.mono ?_ _ _ h
  rintro d d' ⟨⟨hge, hlt⟩, hstep⟩
  exact ⟨⟨Nat.le_trans hlow hge, Nat.lt_of_lt_of_le hlt hhigh⟩, hstep⟩

lemma Reaches.of_step {low high : Nat} {c d : M.Config} (hlow : low ≤ c.position)
    (hhigh : c.position < high) (hstep : M.step body c = some d) : M.Reaches body low high c d :=
  Relation.ReflTransGen.single ⟨⟨hlow, hhigh⟩, hstep⟩

namespace Performs

variable {k m n : Nat} {f g : M.Action}

/-- Code that is not there leaves the state as it is. -/
lemma nil (k : Nat) : M.Performs body k k some := by
  refine ⟨Nat.le_refl k, ?_, ?_⟩
  · intro st st' h
    cases h
    exact Relation.ReflTransGen.refl
  · intro st h
    cases h

lemma andThen (hf : M.Performs body k m f) (hg : M.Performs body m n g) :
    M.Performs body k n (f >=> g) := by
  have hkm := hf.ordered
  have hmn := hg.ordered
  refine ⟨Nat.le_trans hkm hmn, ?_, ?_⟩
  · intro st st' h
    obtain ⟨middle, hfirst, hsecond⟩ := Option.bind_eq_some_iff.mp h
    exact ((hf.arrives st middle hfirst).mono (Nat.le_refl k) hmn).trans
      ((hg.arrives middle st' hsecond).mono hkm (Nat.le_refl n))
  · intro st h
    cases hfirst : f st with
    | none =>
      obtain ⟨c, hreach, hinside, hstop⟩ := hf.stops st hfirst
      exact ⟨c, hreach.mono (Nat.le_refl k) hmn, by omega, hstop⟩
    | some middle =>
      have hsecond : g middle = none := by
        have hbind : (f st).bind g = none := h
        rw [hfirst] at hbind
        exact hbind
      obtain ⟨c, hreach, hinside, hstop⟩ := hg.stops middle hsecond
      refine ⟨c, ?_, by omega, hstop⟩
      exact ((hf.arrives st middle hfirst).mono (Nat.le_refl k) hmn).trans
        (hreach.mono hkm (Nat.le_refl n))

/-- An instruction that control passes through. -/
lemma passes {code : List Instruction} (h : CodeAt body k code) {j : Nat} {i : Instruction}
    (hi : code[j]? = some i) (hbranch : i.opcode.isBranch = false)
    (hflow : i.opcode.endsFlow = false) :
    M.Performs body (k + j) (k + j + 1) (M.effect i.opcode i.operand) := by
  refine ⟨Nat.le_succ _, ?_, ?_⟩
  · intro st st' heffect
    refine Reaches.of_step (Nat.le_refl (k + j)) (Nat.lt_succ_self (k + j)) ?_
    rw [step_of_codeAt h hi, perform_of_passes hbranch hflow, heffect]
    rfl
  · intro st heffect
    refine ⟨_, Relation.ReflTransGen.refl, ⟨Nat.le_refl _, Nat.lt_succ_self _⟩, ?_⟩
    rw [step_of_codeAt h hi, perform_of_passes hbranch hflow, heffect]
    rfl

end Performs

end Machine

end CilBackend
