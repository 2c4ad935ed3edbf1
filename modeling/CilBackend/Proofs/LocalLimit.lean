import CilBackend.Proofs.Declarations
import Mathlib.Data.Finset.Card

/-!
# The limit of local tables

A table takes new variables until all slots of sixteen bits are in use. There is one more of them
than the message for a full table says.
-/

namespace CilBackend.LocalTable

/-- The table after each variable of a list was registered or refused. -/
def registerAll (vs : List Variable) (t : LocalTable) : LocalTable :=
  vs.foldl (fun t v => finalState (register v t)) t

/-- The table was asked to take variables with the given ids: it has no others, and all of them
unless it is full. -/
structure AskedFor (t : LocalTable) (ids : Finset VarId) : Prop where
  subset : t.ids.toFinset ⊆ ids
  all : t.size < slotLimit → t.ids.toFinset = ids

lemma card_ids (t : LocalTable) : t.ids.toFinset.card = t.size := by
  unfold ids LocalTable.size
  rw [List.toFinset_card_of_nodup t.ids_nodup, List.length_map, Array.length_toList]

lemma AskedFor.size_eq {t : LocalTable} {ids : Finset VarId} (h : t.AskedFor ids) :
    t.size = min ids.card slotLimit := by
  have hle : t.size ≤ slotLimit := t.size_le
  have hcard := Finset.card_le_card h.subset
  rw [card_ids] at hcard
  by_cases hroom : t.size < slotLimit
  · have hall : ids.card = t.size := by rw [← h.all hroom, card_ids]
    omega
  · omega

lemma AskedFor.register {t : LocalTable} {ids : Finset VarId} (h : t.AskedFor ids) (v : Variable) :
    (finalState (register v t)).AskedFor (insert v.id ids) := by
  obtain ⟨hmem, hrun⟩ | ⟨hnew, hfull, hrun⟩ | ⟨hnew, hroom, t', hrun, hentries⟩ :=
    register_cases v t
  · rw [hrun]
    have hin : v.id ∈ ids := h.subset (List.mem_toFinset.mpr hmem)
    rw [Finset.insert_eq_of_mem hin]
    exact h
  · rw [hrun]
    refine ⟨h.subset.trans (Finset.subset_insert _ _), ?_⟩
    intro hroom
    change t.size < slotLimit at hroom
    omega
  · rw [hrun]
    have hids : t'.ids.toFinset = insert v.id ids := by
      rw [ids_of_push hentries, List.toFinset_append, h.all hroom]
      simp
    exact ⟨hids.subset, fun _ => hids⟩

lemma AskedFor.registerAll {t : LocalTable} {ids : Finset VarId} (h : t.AskedFor ids)
    (vs : List Variable) :
    (registerAll vs t).AskedFor (ids ∪ (vs.map Variable.id).toFinset) := by
  induction vs generalizing t ids with
  | nil =>
    rw [List.map_nil, List.toFinset_nil, Finset.union_empty]
    exact h
  | cons v rest ih =>
    have hrest := ih (h.register v)
    rw [List.map_cons, List.toFinset_cons, Finset.union_insert, ← Finset.insert_union]
    exact hrest

lemma askedFor_registerAll_empty (vs : List Variable) :
    (registerAll vs empty).AskedFor (vs.map Variable.id).toFinset := by
  have hempty : empty.AskedFor ∅ := ⟨Finset.Subset.refl _, fun _ => rfl⟩
  simpa using hempty.registerAll vs

/-- However variables are registered, a table holds one for each id until it holds 65536 of them,
and a new variable is refused exactly when it holds that many. -/
theorem registerAll_limit (vs : List Variable) :
    (registerAll vs empty).size = min (vs.map Variable.id).toFinset.card 65536 ∧
      ∀ v, v.id ∉ (registerAll vs empty).ids →
        ((∃ t, register v (registerAll vs empty) = .error .tooManyLocals t) ↔
          (registerAll vs empty).size = 65536) := by
  refine ⟨(askedFor_registerAll_empty vs).size_eq, ?_⟩
  intro v hnew
  obtain ⟨hmem, -⟩ | ⟨-, hfull, hrun⟩ | ⟨-, hroom, t', hrun, -⟩ :=
    register_cases v (registerAll vs empty)
  · exact absurd hmem hnew
  · exact ⟨fun _ => hfull, fun _ => ⟨_, hrun⟩⟩
  · rw [hrun]
    constructor
    · rintro ⟨t, herror⟩
      cases herror
    · intro hfull
      change _ < 65536 at hroom
      omega

/-- Variables with the numbers below `count`. -/
def numbered (count : Nat) : List Variable :=
  (List.range count).map fun n => .unnamed ⟨n⟩ .int32

lemma ids_numbered (count : Nat) :
    (numbered count).map Variable.id = (List.range count).map VarId.mk := by
  unfold numbered
  rw [List.map_map]
  rfl

lemma size_registerAll_numbered (count : Nat) :
    (registerAll (numbered count) empty).size = min count slotLimit := by
  have hnodup : ((List.range count).map VarId.mk).Nodup := by
    apply List.nodup_range.map
    intro m n h
    cases h
    rfl
  rw [(askedFor_registerAll_empty _).size_eq, ids_numbered, List.toFinset_card_of_nodup hnodup,
    List.length_map, List.length_range]

/-- A number that was not registered is not in the table. -/
lemma notMem_ids_numbered {count n : Nat} (h : count ≤ n) :
    (⟨n⟩ : VarId) ∉ (registerAll (numbered count) empty).ids := by
  intro hmem
  have hin := (askedFor_registerAll_empty _).subset (List.mem_toFinset.mpr hmem)
  rw [List.mem_toFinset, ids_numbered, List.mem_map] at hin
  obtain ⟨m, hm, heq⟩ := hin
  cases heq
  rw [List.mem_range] at hm
  omega

theorem numbered_limit :
    (registerAll (numbered 65536) empty).size = 65536 ∧
      (Variable.unnamed ⟨65536⟩ .int32).id ∉ (registerAll (numbered 65536) empty).ids ∧
      ∃ t, register (.unnamed ⟨65536⟩ .int32) (registerAll (numbered 65536) empty) =
        .error .tooManyLocals t := by
  have hsize : (registerAll (numbered 65536) empty).size = 65536 := size_registerAll_numbered 65536
  have hnew := notMem_ids_numbered (Nat.le_refl 65536)
  exact ⟨hsize, hnew, ((registerAll_limit (numbered 65536)).2 (.unnamed ⟨65536⟩ .int32) hnew).mpr
    hsize⟩

/-- A table with 65535 variables takes one more. -/
theorem numbered_exceeds_message :
    Violation.message .tooManyLocals = "more than 65535 local variables" ∧
      (registerAll (numbered 65535) empty).size = 65535 ∧
      ∃ t, register (.unnamed ⟨65535⟩ .int32) (registerAll (numbered 65535) empty) =
        .ok 65535 t ∧ t.size = 65536 := by
  have hsize : (registerAll (numbered 65535) empty).size = 65535 := size_registerAll_numbered 65535
  have hnew := notMem_ids_numbered (Nat.le_refl 65535)
  refine ⟨rfl, hsize, ?_⟩
  obtain ⟨hmem, -⟩ | ⟨-, hfull, -⟩ | ⟨-, -, t, hrun, hentries⟩ :=
    register_cases (.unnamed ⟨65535⟩ .int32) (registerAll (numbered 65535) empty)
  · exact absurd hmem hnew
  · rw [hsize] at hfull
    cases hfull
  · rw [hsize] at hrun
    refine ⟨t, hrun, ?_⟩
    unfold LocalTable.size at hsize ⊢
    rw [hentries, Array.size_push, hsize]

end CilBackend.LocalTable
