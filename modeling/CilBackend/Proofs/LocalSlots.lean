import CilBackend.Proofs.LocalLimit

/-!
# Slots of registered variables

A table is only changed by registering variables, one call after the other, and some of the calls
are refused. After any such sequence the table holds the variables of the other calls in their
order, a variable's slot is its place among them, and no later call moves it.
-/

namespace CilBackend.LocalTable

/-- The variables of the calls that succeed when all of a list are registered in turn. -/
def registered : List Variable → LocalTable → List Variable
  | [], _ => []
  | v :: rest, t =>
    match register v t with
    | .ok _ t' => v :: registered rest t'
    | .error _ t' => registered rest t'

/-- Every call that succeeds puts its variable behind those that are there. -/
lemma entries_registerAll (vs : List Variable) (t : LocalTable) :
    (registerAll vs t).entries.toList = t.entries.toList ++ registered vs t := by
  induction vs generalizing t with
  | nil => exact (List.append_nil _).symm
  | cons v rest ih =>
    have hnext : registerAll (v :: rest) t = registerAll rest (finalState (register v t)) := rfl
    rw [hnext, ih, registered]
    obtain ⟨-, hrun⟩ | ⟨-, -, hrun⟩ | ⟨-, -, t', hrun, hentries⟩ := register_cases v t
    · rw [hrun]
      rfl
    · rw [hrun]
      rfl
    · rw [hrun]
      dsimp only [finalState]
      rw [hentries, Array.toList_push, List.append_assoc, List.singleton_append]

lemma entries_registerAll_empty (vs : List Variable) :
    (registerAll vs empty).entries.toList = registered vs empty :=
  entries_registerAll vs empty

lemma slot?_iff_registered (vs : List Variable) (id : VarId) (i : Nat) :
    (registerAll vs empty).slot? id = some i ↔
      (registered vs empty)[i]?.map Variable.id = some id := by
  rw [slot?_eq_some, ids, entries_registerAll_empty, List.getElem?_map]

lemma registered_ids_nodup (vs : List Variable) :
    ((registered vs empty).map Variable.id).Nodup := by
  rw [← entries_registerAll_empty]
  exact ids_nodup _

/-- Registering further variables keeps every slot. -/
lemma slot?_registerAll {t : LocalTable} {id : VarId} {i : Nat} (h : t.slot? id = some i)
    (more : List Variable) : (registerAll more t).slot? id = some i := by
  rw [slot?_eq_some] at h ⊢
  obtain ⟨hlt, -⟩ := List.getElem?_eq_some_iff.mp h
  have hids : (registerAll more t).ids = t.ids ++ (registered more t).map Variable.id := by
    unfold ids
    rw [entries_registerAll, List.map_append]
  rw [hids, List.getElem?_append_left hlt]
  exact h

/-- The slot that a call returns is the one that its variable has from then on. -/
lemma slot?_of_register {v : Variable} {t t' : LocalTable} {i : Nat}
    (h : register v t = .ok i t') : i = t.size ∧ t'.slot? v.id = some i := by
  obtain ⟨-, hrun⟩ | ⟨-, -, hrun⟩ | ⟨-, -, found, hrun, hentries⟩ := register_cases v t
  · rw [hrun] at h
    cases h
  · rw [hrun] at h
    cases h
  · rw [hrun] at h
    cases h
    have hlength : t.ids.length = t.size := by
      unfold ids LocalTable.size
      rw [List.length_map, Array.length_toList]
    refine ⟨rfl, ?_⟩
    rw [slot?_eq_some, ids_of_push hentries, ← hlength, List.getElem?_concat_length]

lemma eq_of_register_error {v : Variable} {t t' : LocalTable} {e : RegisterError}
    (h : register v t = .error e t') : t' = t := by
  obtain ⟨-, hrun⟩ | ⟨-, -, hrun⟩ | ⟨-, -, found, hrun, -⟩ := register_cases v t
  all_goals
    rw [hrun] at h
    cases h
  all_goals rfl

/-- A call succeeds when no call before it had the same id and there is a slot left. -/
lemma exists_register_iff (vs : List Variable) (v : Variable) :
    (∃ i t, register v (registerAll vs empty) = .ok i t) ↔
      v.id ∉ vs.map Variable.id ∧ (vs.map Variable.id).toFinset.card < slotLimit := by
  have hasked := askedFor_registerAll_empty vs
  have hsize := hasked.size_eq
  obtain ⟨hmem, hrun⟩ | ⟨hnew, hfull, hrun⟩ | ⟨hnew, hroom, t, hrun, -⟩ :=
    register_cases v (registerAll vs empty)
  · have hold : v.id ∈ vs.map Variable.id :=
      List.mem_toFinset.mp (hasked.subset (List.mem_toFinset.mpr hmem))
    simp [hrun, hold]
  · have hmany : ¬ (vs.map Variable.id).toFinset.card < slotLimit := by omega
    simp [hrun, hmany]
  · refine ⟨fun _ => ⟨?_, by omega⟩, fun _ => ⟨_, t, hrun⟩⟩
    rw [← List.mem_toFinset, ← hasked.all hroom, List.mem_toFinset]
    exact hnew

/-- After any sequence of calls on an empty table, refused ones included, the table holds the
variables of the calls that succeeded, in their order and each with an id of its own; an id has the
slot at which its variable stands among them, and keeps it in all calls that follow. The slot that
a call returns is that of its variable, and a refused call changes nothing; it is refused exactly
when its id came before or all slots are in use. -/
theorem registerAll_represents (vs : List Variable) :
    (registerAll vs empty).entries.toList = registered vs empty ∧
      ((registered vs empty).map Variable.id).Nodup ∧
      (∀ id i, (registerAll vs empty).slot? id = some i ↔
        (registered vs empty)[i]?.map Variable.id = some id) ∧
      (∀ id i more, (registerAll vs empty).slot? id = some i →
        (registerAll (vs ++ more) empty).slot? id = some i) ∧
      (∀ v i t more, register v (registerAll vs empty) = .ok i t →
        (registerAll more t).slot? v.id = some i) ∧
      (∀ v e t, register v (registerAll vs empty) = .error e t → t = registerAll vs empty) ∧
      ∀ v, (∃ i t, register v (registerAll vs empty) = .ok i t) ↔
        v.id ∉ vs.map Variable.id ∧ (vs.map Variable.id).toFinset.card < slotLimit := by
  refine ⟨entries_registerAll_empty vs, registered_ids_nodup vs, slot?_iff_registered vs, ?_, ?_,
    fun v e t => eq_of_register_error, exists_register_iff vs⟩
  · intro id i more hslot
    unfold registerAll at hslot ⊢
    rw [List.foldl_append]
    exact slot?_registerAll hslot more
  · intro v i t more hrun
    exact slot?_registerAll (slot?_of_register hrun).2 more

/-- Three variables, the first of them registered again with another type. -/
def redeclared : List Variable :=
  [.unnamed ⟨4⟩ .int32, .unnamed ⟨7⟩ .object, .unnamed ⟨4⟩ .object, .unnamed ⟨2⟩ .int32]

/-- The repeated call leaves no trace: the ids 4, 7 and 2 have the slots 0, 1 and 2, also after a
further call for id 9, which gets slot 3. -/
theorem redeclared_represents : ∃ t,
    registered redeclared empty =
        [.unnamed ⟨4⟩ .int32, .unnamed ⟨7⟩ .object, .unnamed ⟨2⟩ .int32] ∧
      (registerAll redeclared empty).slot? ⟨2⟩ = some 2 ∧
      (registerAll (redeclared ++ redeclared) empty).slot? ⟨2⟩ = some 2 ∧
      register (.unnamed ⟨9⟩ .object) (registerAll redeclared empty) = .ok 3 t ∧
      (registerAll redeclared t).slot? ⟨9⟩ = some 3 ∧
      ¬ ∃ i t, register (.unnamed ⟨7⟩ .int32) (registerAll redeclared empty) = .ok i t := by
  obtain ⟨-, -, hslots, hkept, hreturned, -, haccepted⟩ := registerAll_represents redeclared
  obtain ⟨t, hrun⟩ : ∃ t, register (.unnamed ⟨9⟩ .object) (registerAll redeclared empty) =
      .ok 3 t := ⟨_, rfl⟩
  have hregistered : registered redeclared empty =
      [.unnamed ⟨4⟩ .int32, .unnamed ⟨7⟩ .object, .unnamed ⟨2⟩ .int32] := rfl
  have hslot : (registerAll redeclared empty).slot? ⟨2⟩ = some 2 := (hslots ⟨2⟩ 2).mpr rfl
  refine ⟨t, hregistered, hslot, hkept ⟨2⟩ 2 redeclared hslot, hrun,
    hreturned _ 3 t redeclared hrun, ?_⟩
  rw [haccepted]
  exact fun h => h.1 (by decide)

end CilBackend.LocalTable
