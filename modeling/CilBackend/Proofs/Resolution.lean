import CilBackend.Proofs.Declarations

/-!
# Resolved operands

What the operand of a template instruction is resolved to, said without the texts of diagnostics,
and when it can be resolved.
-/

namespace CilBackend

variable {σ : Type}

/-- The variable that an operand names. -/
def Operand.varId? : Operand → Option VarId
  | var id => some id
  | _ => Option.none

lemma exists_label?_iff {h : Headers} {m : BlockId} : (∃ l, h.label? m = some l) ↔ m < h.count := by
  unfold Headers.label?
  by_cases hm : m < h.count
  · rw [if_pos hm]
    exact ⟨fun _ => hm, fun _ => ⟨_, rfl⟩⟩
  · rw [if_neg hm]
    simp [hm]

lemma LocalTable.exists_slot?_iff {t : LocalTable} {id : VarId} :
    (∃ slot, t.slot? id = some slot) ↔ id ∈ t.ids := by
  rw [List.mem_iff_getElem?]
  exact exists_congr fun slot => LocalTable.slot?_eq_some

namespace Scope

variable {scope : Scope σ} {node : SyntaxNode}

/-- `o'` is `o` with header labels in the place of blocks and slots in that of variables. -/
def Resolves (scope : Scope σ) : (o o' : Operand) → Prop
  | .block m, o' => ∃ l, scope.headers.label? m = some l ∧ o' = .label l
  | .blockTable ms, o' => ∃ ls, List.Forall₂ (fun m l => scope.headers.label? m = some l) ms ls ∧
      o' = .labelTable ls
  | .var id, o' => ∃ slot, scope.locals.slot? id = some slot ∧ o' = .slot slot
  | o, o' => o' = o

lemma resolveOperand_eq_ok {o o' : Operand} :
    scope.resolveOperand node o = .ok o' ↔ scope.Resolves o o' := by
  cases o with
  | block m =>
    unfold resolveOperand
    rw [except_bind_eq_ok]
    constructor
    · rintro ⟨l, hl, heq⟩
      cases heq
      exact ⟨l, header_eq_ok.mp hl, rfl⟩
    · rintro ⟨l, hl, rfl⟩
      exact ⟨l, header_eq_ok.mpr hl, rfl⟩
  | blockTable ms =>
    unfold resolveOperand
    rw [except_bind_eq_ok]
    simp only [except_mapM_eq_ok, header_eq_ok]
    constructor
    · rintro ⟨ls, hls, heq⟩
      cases heq
      exact ⟨ls, hls, rfl⟩
    · rintro ⟨ls, hls, rfl⟩
      exact ⟨ls, hls, rfl⟩
  | var id =>
    unfold resolveOperand
    rw [except_bind_eq_ok]
    constructor
    · rintro ⟨slot, hslot, heq⟩
      cases heq
      exact ⟨slot, slot_eq_ok.mp hslot, rfl⟩
    · rintro ⟨slot, hslot, rfl⟩
      exact ⟨slot, slot_eq_ok.mpr hslot, rfl⟩
  | _ =>
    constructor
    · intro h
      cases h
      rfl
    · intro h
      cases h
      rfl

/-- An operand can be resolved when the blocks that it names have headers and its variable has a
slot. -/
lemma exists_resolves_iff {o : Operand} :
    (∃ o', scope.Resolves o o') ↔ (∀ m ∈ o.blocks, m < scope.headers.count) ∧
      ∀ id, o.varId? = some id → id ∈ scope.locals.ids := by
  cases o with
  | block m =>
    simp only [Resolves, Operand.blocks, Operand.varId?, List.forall_mem_singleton]
    rw [← exists_label?_iff]
    constructor
    · rintro ⟨_, l, hl, rfl⟩
      exact ⟨⟨l, hl⟩, by simp⟩
    · rintro ⟨⟨l, hl⟩, -⟩
      exact ⟨_, l, hl, rfl⟩
  | blockTable ms =>
    simp only [Resolves, Operand.blocks, Operand.varId?]
    constructor
    · rintro ⟨_, ls, hls, rfl⟩
      refine ⟨?_, by simp⟩
      intro m hm
      obtain ⟨l, -, hl⟩ := forall₂_mem_left hls hm
      exact exists_label?_iff.mp ⟨l, hl⟩
    · rintro ⟨hms, -⟩
      refine ⟨_, ms.map fun m => ⟨scope.headers.first + .ofNat m⟩, ?_, rfl⟩
      rw [List.forall₂_map_right_iff, List.forall₂_same]
      intro m hm
      exact if_pos (hms m hm)
  | var id =>
    simp only [Resolves, Operand.blocks, Operand.varId?, Option.some.injEq]
    constructor
    · rintro ⟨_, slot, hslot, rfl⟩
      refine ⟨by simp, ?_⟩
      rintro _ rfl
      exact LocalTable.exists_slot?_iff.mp ⟨slot, hslot⟩
    · rintro ⟨-, hid⟩
      obtain ⟨slot, hslot⟩ := LocalTable.exists_slot?_iff.mpr (hid id rfl)
      exact ⟨_, slot, hslot, rfl⟩
  | _ => simp [Resolves, Operand.blocks, Operand.varId?]

end Scope

end CilBackend
