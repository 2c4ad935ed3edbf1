/-!
# Checked sums

Labels and offsets are numbers of 32 bits, and stack depths are numbers of 64 bits with a sign. A
sum that its width does not hold has no value, so that whoever asks for it cannot go on.
-/

namespace CilBackend

/-- The number `distance` above `n`, if 32 bits hold it. -/
def addChecked (n : UInt32) (distance : Nat) : Option UInt32 :=
  if n.toNat + distance < UInt32.size then some (.ofNat (n.toNat + distance)) else none

theorem addChecked_eq_some {n m : UInt32} {distance : Nat} :
    addChecked n distance = some m ↔ m.toNat = n.toNat + distance := by
  unfold addChecked
  by_cases hfits : n.toNat + distance < UInt32.size
  · rw [if_pos hfits, Option.some.injEq, ← UInt32.toNat_inj, UInt32.toNat_ofNat_of_lt' hfits]
    exact eq_comm
  · rw [if_neg hfits]
    have hm : m.toNat < UInt32.size := m.toNat_lt
    constructor
    · intro hnone
      cases hnone
    · intro hsum
      exact absurd (hsum ▸ hm) hfits

theorem toNat_add_ofNat {n : UInt32} {distance : Nat} (h : n.toNat + distance < UInt32.size) :
    (n + .ofNat distance).toNat = n.toNat + distance := by
  have hdistance : distance < UInt32.size := Nat.lt_of_le_of_lt (Nat.le_add_left _ _) h
  rw [UInt32.toNat_add, UInt32.toNat_ofNat_of_lt' hdistance]
  exact Nat.mod_eq_of_lt h

theorem addChecked_of_lt {n : UInt32} {distance : Nat} (h : n.toNat + distance < UInt32.size) :
    addChecked n distance = some (n + .ofNat distance) :=
  addChecked_eq_some.mpr (toNat_add_ofNat h)

theorem addChecked_eq_none {n : UInt32} {distance : Nat} :
    addChecked n distance = none ↔ UInt32.size ≤ n.toNat + distance := by
  unfold addChecked
  split <;> simp <;> omega

/-- The number that a signed number of 64 bits becomes by a change, if 64 bits hold it. -/
def changeChecked (n : Int64) (change : Int) : Option Int64 :=
  if Int64.minValue.toInt ≤ n.toInt + change ∧ n.toInt + change ≤ Int64.maxValue.toInt then
    some (.ofInt (n.toInt + change))
  else none

theorem changeChecked_eq_some {n m : Int64} {change : Int} :
    changeChecked n change = some m ↔ m.toInt = n.toInt + change := by
  unfold changeChecked
  rw [Int64.toInt_minValue, Int64.toInt_maxValue]
  by_cases hfits : -2 ^ 63 ≤ n.toInt + change ∧ n.toInt + change ≤ 2 ^ 63 - 1
  · rw [if_pos hfits, Option.some.injEq, ← Int64.toInt_inj,
      Int64.toInt_ofInt_of_le hfits.1 (Int.lt_of_le_sub_one hfits.2)]
    exact eq_comm
  · rw [if_neg hfits]
    have hlow := m.le_toInt
    have hhigh := m.toInt_lt
    constructor
    · intro hnone
      cases hnone
    · intro hsum
      exact absurd ⟨hsum ▸ hlow, Int.le_sub_one_of_lt (hsum ▸ hhigh)⟩ hfits

theorem changeChecked_eq_none {n : Int64} {change : Int} :
    changeChecked n change = none ↔
      n.toInt + change < Int64.minValue.toInt ∨ Int64.maxValue.toInt < n.toInt + change := by
  unfold changeChecked
  by_cases hfits : Int64.minValue.toInt ≤ n.toInt + change ∧
      n.toInt + change ≤ Int64.maxValue.toInt
  · rw [if_pos hfits]
    constructor
    · intro hsome
      cases hsome
    · intro hout
      omega
  · rw [if_neg hfits]
    exact ⟨fun _ => by omega, fun _ => rfl⟩

end CilBackend
