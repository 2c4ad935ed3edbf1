import Std.Data.TreeMap
import CilBackend.Code.Variable

/-!
# The table of local variables

Locals are numbered in the order in which they are registered. Registering finds a variable's
slot by its id, and the table carries the proof that both views agree.
-/

namespace CilBackend

/-- Slots are numbers of sixteen bits. -/
def slotLimit : Nat := 65536

structure LocalTable where
  entries : Array Variable
  slots : Std.TreeMap Nat Nat
  slots_iff : ∀ (id : VarId) (i : Nat),
    slots[id.index]? = some i ↔ entries[i]?.map Variable.id = some id
  size_le : entries.size ≤ slotLimit

inductive RegisterError where
  | duplicate
  | tooManyLocals
deriving DecidableEq

namespace LocalTable

def empty : LocalTable where
  entries := #[]
  slots := ∅
  slots_iff := by simp
  size_le := by simp [slotLimit]

def size (t : LocalTable) : Nat :=
  t.entries.size

def slot? (t : LocalTable) (id : VarId) : Option Nat :=
  t.slots[id.index]?

theorem slots_iff_push {entries : Array Variable} {slots : Std.TreeMap Nat Nat}
    (h : ∀ (id : VarId) (i : Nat), slots[id.index]? = some i ↔ entries[i]?.map Variable.id = some id)
    (v : Variable) (hv : ¬ v.id.index ∈ slots) (id : VarId) (i : Nat) :
    (slots.insert v.id.index entries.size)[id.index]? = some i ↔
      (entries.push v)[i]?.map Variable.id = some id := by
  have hfresh : ∀ j : Nat, entries[j]?.map Variable.id ≠ some v.id := by
    intro j hj
    have hslot := (h v.id j).mpr hj
    rw [Std.TreeMap.getElem?_eq_none hv] at hslot
    cases hslot
  rw [Std.TreeMap.getElem?_insert, Array.getElem?_push]
  by_cases hid : v.id = id
  · subst hid
    rw [if_pos Std.ReflCmp.compare_self]
    by_cases hi : i = entries.size
    · rw [if_pos hi, hi]
      exact ⟨fun _ => rfl, fun _ => rfl⟩
    · rw [if_neg hi]
      exact ⟨fun hslot => absurd (Option.some.inj hslot).symm hi, fun hmap => absurd hmap (hfresh i)⟩
  · have hcompare : ¬ compare v.id.index id.index = .eq := by
      intro hcompare
      apply hid
      have hindex : v.id.index = id.index := Std.LawfulEqCmp.eq_of_compare hcompare
      exact VarId.ext hindex
    rw [if_neg hcompare]
    by_cases hi : i = entries.size
    · rw [if_pos hi, hi]
      constructor
      · intro hslot
        have hmap := (h id entries.size).mp hslot
        rw [Array.getElem?_size] at hmap
        cases hmap
      · intro hmap
        exact absurd (Option.some.inj hmap) hid
    · rw [if_neg hi]
      exact h id i

/-- Gives a new variable the next slot. A variable that is already in the table is refused, and so
is a new one when all slots are taken; the table is then left as it was. -/
def register (v : Variable) : EStateM RegisterError LocalTable Nat
  | ⟨entries, slots, hslots, hsize⟩ =>
    if hv : v.id.index ∈ slots then
      .error .duplicate ⟨entries, slots, hslots, hsize⟩
    else if hroom : entries.size < slotLimit then
      .ok entries.size
        ⟨entries.push v, slots.insert v.id.index entries.size, slots_iff_push hslots v hv, by
          rw [Array.size_push]
          exact hroom⟩
    else
      .error .tooManyLocals ⟨entries, slots, hslots, hsize⟩

end LocalTable

end CilBackend
