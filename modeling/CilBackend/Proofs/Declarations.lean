import CilBackend.Proofs.BodyInvariant

/-!
# Declaring variables

Variables can be declared exactly when none of them is in the table or declared twice and all of
them get a slot. They then follow the variables that were in the table before, in their order.
-/

namespace CilBackend.LocalTable

/-- The ids of the variables in the order of their slots. -/
def ids (t : LocalTable) : List VarId :=
  t.entries.toList.map Variable.id

lemma slot?_eq_some {t : LocalTable} {id : VarId} {i : Nat} :
    t.slot? id = some i ↔ t.ids[i]? = some id := by
  unfold LocalTable.slot? ids
  rw [List.getElem?_map, Array.getElem?_toList]
  exact t.slots_iff id i

lemma mem_slots {t : LocalTable} {id : VarId} : id.index ∈ t.slots ↔ id ∈ t.ids := by
  rw [Std.TreeMap.mem_iff_isSome_getElem?, Option.isSome_iff_exists, List.mem_iff_getElem?]
  exact exists_congr fun i => slot?_eq_some

/-- What registering does: a variable that is in the table already is refused, and so is a new one
when no slot is left; any other one comes last. -/
lemma register_cases (v : Variable) (t : LocalTable) :
    (v.id ∈ t.ids ∧ register v t = .error .duplicate t) ∨
      (v.id ∉ t.ids ∧ t.size = slotLimit ∧ register v t = .error .tooManyLocals t) ∨
      (v.id ∉ t.ids ∧ t.size < slotLimit ∧
        ∃ t', register v t = .ok t.size t' ∧ t'.entries = t.entries.push v) := by
  rw [← mem_slots]
  have hle := t.size_le
  obtain ⟨entries, slots, hslots, hsize⟩ := t
  unfold register LocalTable.size
  dsimp only at hle ⊢
  by_cases hv : v.id.index ∈ slots
  · rw [dif_pos hv]
    exact Or.inl ⟨hv, rfl⟩
  · rw [dif_neg hv]
    by_cases hroom : entries.size < slotLimit
    · rw [dif_pos hroom]
      exact Or.inr (Or.inr ⟨hv, hroom, _, rfl, rfl⟩)
    · rw [dif_neg hroom]
      exact Or.inr (Or.inl ⟨hv, by omega, rfl⟩)

/-- A variable is declared when it is new and there is a slot left; it comes last then. -/
lemma declare_eq_ok {v : Variable} {t t' : LocalTable} (h : declare v t = .ok () t') :
    v.id ∉ t.ids ∧ t.size < slotLimit ∧ t'.entries = t.entries.push v := by
  obtain ⟨-, hrun⟩ | ⟨-, -, hrun⟩ | ⟨hv, hroom, found, hrun, hentries⟩ := register_cases v t
  · simp only [declare, hrun] at h
    cases h
  · simp only [declare, hrun] at h
    cases h
  · simp only [declare, hrun] at h
    cases h
    exact ⟨hv, hroom, hentries⟩

lemma exists_declare {v : Variable} {t : LocalTable} (hv : v.id ∉ t.ids)
    (hroom : t.size < slotLimit) : ∃ t', declare v t = .ok () t' := by
  obtain ⟨hmem, -⟩ | ⟨-, hfull, -⟩ | ⟨-, -, t', hrun, -⟩ := register_cases v t
  · exact absurd hmem hv
  · omega
  · exact ⟨t', by simp only [declare, hrun]⟩

lemma declareAll_entries {vs : List Variable} {t t' : LocalTable}
    (h : declareAll vs t = .ok () t') : t'.entries.toList = t.entries.toList ++ vs := by
  induction vs generalizing t with
  | nil =>
    obtain ⟨-, rfl⟩ := run_pure_eq_ok.mp h
    rw [List.append_nil]
  | cons v rest ih =>
    obtain ⟨_, middle, hdeclare, hrest⟩ := run_bind_eq_ok.mp h
    obtain ⟨-, -, hentries⟩ := declare_eq_ok hdeclare
    rw [ih hrest, hentries, Array.toList_push, List.append_assoc, List.singleton_append]

lemma declareAll_ids {vs : List Variable} {t t' : LocalTable} (h : declareAll vs t = .ok () t') :
    t'.ids = t.ids ++ vs.map Variable.id := by
  unfold ids
  rw [declareAll_entries h, List.map_append]

lemma ids_of_push {v : Variable} {t t' : LocalTable} (h : t'.entries = t.entries.push v) :
    t'.ids = t.ids ++ [v.id] := by
  unfold ids
  rw [h, Array.toList_push, List.map_append]
  rfl

theorem exists_declareAll_iff (vs : List Variable) (t : LocalTable) :
    (∃ t', declareAll vs t = .ok () t') ↔
      (t.ids ++ vs.map Variable.id).Nodup ∧ t.size + vs.length ≤ slotLimit := by
  induction vs generalizing t with
  | nil =>
    rw [List.map_nil, List.append_nil]
    exact ⟨fun _ => ⟨t.ids_nodup, t.size_le⟩, fun _ => ⟨t, rfl⟩⟩
  | cons v rest ih =>
    -- After the first declaration the table has one more variable, and the rest is asked of it.
    have hnext : ∀ middle : LocalTable, middle.entries = t.entries.push v →
        ((∃ t', declareAll rest middle = .ok () t') ↔
          (t.ids ++ v.id :: rest.map Variable.id).Nodup ∧
            t.size + (rest.length + 1) ≤ slotLimit) := by
      intro middle hmiddle
      have hsize : middle.size = t.size + 1 := by
        unfold LocalTable.size
        rw [hmiddle, Array.size_push]
      rw [ih, ids_of_push hmiddle, hsize, List.append_assoc, List.singleton_append, Nat.add_assoc,
        Nat.add_comm 1]
    rw [List.map_cons, List.length_cons]
    constructor
    · rintro ⟨t', h⟩
      obtain ⟨_, middle, hdeclare, hrest⟩ := run_bind_eq_ok.mp h
      obtain ⟨-, -, hentries⟩ := declare_eq_ok hdeclare
      exact (hnext middle hentries).mp ⟨t', hrest⟩
    · rintro ⟨hnodup, hroom⟩
      have hnew : v.id ∉ t.ids := by
        intro hmem
        exact (List.nodup_append.mp hnodup).2.2 v.id hmem v.id List.mem_cons_self rfl
      obtain ⟨middle, hdeclare⟩ := exists_declare hnew (by omega)
      obtain ⟨-, -, hentries⟩ := declare_eq_ok hdeclare
      obtain ⟨t', hrest⟩ := (hnext middle hentries).mpr ⟨hnodup, hroom⟩
      exact ⟨t', run_bind_eq_ok.mpr ⟨(), middle, hdeclare, hrest⟩⟩

end CilBackend.LocalTable
