import CilBackend.Routine.Flag
import Mathlib.Data.Fintype.Defs
import Mathlib.Data.Nat.Bitwise
import Mathlib.Logic.Pairwise

/-!
# Masks of flag sets

The mask of a flag set has one bit for every member, at the place where a machine keeps the flag.
Places are positions modulo eight, so several flags may share one. Masks of unions are unions of
masks in every layout, and sets can be told from their masks exactly when no place is shared.
-/

namespace CilBackend

/-! ## Bits of a byte -/

lemma toNat_one_shiftLeft (p : UInt8) : ((1 : UInt8) <<< p).toNat = 2 ^ (p.toNat % 8) := by
  have hlt : p.toNat % 8 < 8 := Nat.mod_lt _ (by decide)
  rw [UInt8.toNat_shiftLeft, UInt8.toNat_one, Nat.one_shiftLeft]
  exact Nat.mod_eq_of_lt (Nat.pow_lt_pow_right (by decide) hlt)

lemma byte_eq_of_testBit {a b : UInt8}
    (h : ∀ i, a.toNat.testBit i = true ↔ b.toNat.testBit i = true) : a = b := by
  apply UInt8.toNat_inj.mp
  apply Nat.eq_of_testBit_eq
  intro i
  exact Bool.eq_iff_iff.mpr (h i)

/-! ## Members -/

lemma Flag.mem_all (f : Flag) : f ∈ Flag.all := by
  cases f <;> decide

instance : Fintype Flag :=
  ⟨⟨Flag.all, by decide⟩, Flag.mem_all⟩

namespace FlagLayout

/-- The bit of the flag byte that holds a flag. -/
def place (l : FlagLayout) (f : Flag) : Nat :=
  (l.position f).toNat % 8

lemma exists_standard_place {i : Nat} (hi : i < 8) : ∃ f, standard.place f = i := by
  have hall : ∀ i : Fin 8, ∃ f, standard.place f = i := by decide
  exact hall ⟨i, hi⟩

end FlagLayout

/-- Flag sets keep their members as the standard layout does. -/
lemma Flag.toNat_bit (f : Flag) : f.bit.toNat = 2 ^ FlagLayout.standard.place f := by
  cases f <;> rfl

namespace FlagSet

@[simp] lemma mem_members {s : FlagSet} {f : Flag} : f ∈ s.members ↔ s.contains f = true := by
  unfold members
  rw [List.mem_filter]
  exact and_iff_right f.mem_all

lemma contains_eq_testBit (s : FlagSet) (f : Flag) :
    s.contains f = s.bits.toNat.testBit (FlagLayout.standard.place f) := by
  unfold contains
  rw [Bool.eq_iff_iff, bne_iff_ne, ne_eq, ← UInt8.toNat_inj, UInt8.toNat_and,
    Flag.toNat_bit, Nat.and_two_pow]
  simp

@[simp] lemma contains_union (s t : FlagSet) (f : Flag) :
    (s.union t).contains f = (s.contains f || t.contains f) := by
  rw [contains_eq_testBit, contains_eq_testBit, contains_eq_testBit, union, UInt8.toNat_or,
    Nat.testBit_or]

/-- The set of one flag. -/
def single (f : Flag) : FlagSet :=
  ⟨f.bit⟩

@[simp] lemma members_single (f : Flag) : (single f).members = [f] := by
  cases f <;> rfl

lemma single_injective : Function.Injective single := by
  intro f g h
  have hmembers := congrArg members h
  rw [members_single, members_single] at hmembers
  exact List.singleton_inj.mp hmembers

end FlagSet

/-! ## Masks -/

namespace FlagLayout

/-- Each flag that is entered sets the bit at its place and keeps all others. -/
lemma testBit_enter (l : FlagLayout) (mask : UInt8) (f : Flag) (i : Nat) :
    (mask ||| 1 <<< l.position f).toNat.testBit i = true ↔
      mask.toNat.testBit i = true ∨ l.place f = i := by
  rw [UInt8.toNat_or, toNat_one_shiftLeft, Nat.testBit_or, Nat.testBit_two_pow, Bool.or_eq_true,
    decide_eq_true_iff]
  rfl

lemma testBit_enterAll (l : FlagLayout) (fs : List Flag) (mask : UInt8) (i : Nat) :
    (fs.foldl (fun mask f => mask ||| 1 <<< l.position f) mask).toNat.testBit i = true ↔
      mask.toNat.testBit i = true ∨ ∃ f ∈ fs, l.place f = i := by
  induction fs generalizing mask with
  | nil => simp
  | cons f rest ih =>
    rw [List.foldl_cons, ih, testBit_enter, or_assoc]
    simp

/-- The bits of a mask are the places of the members. -/
lemma testBit_mask (l : FlagLayout) (s : FlagSet) (i : Nat) :
    (l.mask s).toNat.testBit i = true ↔ ∃ f, s.contains f = true ∧ l.place f = i := by
  unfold mask
  rw [testBit_enterAll]
  simp

lemma mask_union (l : FlagLayout) (s t : FlagSet) :
    l.mask (s.union t) = l.mask s ||| l.mask t := by
  apply byte_eq_of_testBit
  intro i
  rw [UInt8.toNat_or, Nat.testBit_or, Bool.or_eq_true, testBit_mask, testBit_mask, testBit_mask,
    ← exists_or]
  apply exists_congr
  intro f
  rw [FlagSet.contains_union, Bool.or_eq_true, or_and_right]

lemma mask_single (l : FlagLayout) (f : Flag) :
    l.mask (.single f) = 1 <<< l.position f := by
  unfold mask
  rw [FlagSet.members_single, List.foldl_cons, List.foldl_nil, UInt8.zero_or]

/-- In the standard layout a set is its own mask. -/
lemma standard_mask (s : FlagSet) : standard.mask s = s.bits := by
  apply byte_eq_of_testBit
  intro i
  rw [testBit_mask]
  constructor
  · rintro ⟨f, hmem, rfl⟩
    rwa [FlagSet.contains_eq_testBit] at hmem
  · intro hbit
    have hle : 2 ^ i ≤ s.bits.toNat := Nat.ge_two_pow_of_testBit hbit
    have hlt : i < 8 :=
      (Nat.pow_lt_pow_iff_right (by decide)).mp (hle.trans_lt s.bits.toNat_lt)
    obtain ⟨f, rfl⟩ := exists_standard_place hlt
    exact ⟨f, by rwa [FlagSet.contains_eq_testBit], rfl⟩

end FlagLayout

/-- Flag sets with the same members are equal. -/
lemma FlagSet.eq_of_contains {s t : FlagSet} (h : ∀ f, s.contains f = t.contains f) : s = t := by
  have hmembers : s.members = t.members := List.filter_congr fun f _ => h f
  -- Masks are made from the members, and those of the standard layout are the bits.
  have hbits : s.bits = t.bits := by
    rw [← FlagLayout.standard_mask s, ← FlagLayout.standard_mask t]
    unfold FlagLayout.mask
    rw [hmembers]
  cases s
  cases t
  exact congrArg FlagSet.mk hbits

namespace FlagLayout

variable {l : FlagLayout}

/-- A flag that shares its place with no other can be read off a mask. -/
lemma contains_eq_testBit_mask {f : Flag} (h : ∀ g, l.place g = l.place f → g = f) (s : FlagSet) :
    s.contains f = (l.mask s).toNat.testBit (l.place f) := by
  rw [Bool.eq_iff_iff, testBit_mask]
  constructor
  · intro hmem
    exact ⟨f, hmem, rfl⟩
  · rintro ⟨g, hmem, hplace⟩
    rwa [← h g hplace]

lemma mask_injective (h : Function.Injective l.place) : Function.Injective l.mask := by
  intro s t hmask
  apply FlagSet.eq_of_contains
  intro f
  have hown : ∀ g, l.place g = l.place f → g = f := fun g => @h g f
  rw [contains_eq_testBit_mask hown, contains_eq_testBit_mask hown, hmask]

/-- Flags that share a place have the same mask, so a layout that tells all sets apart shares
none. -/
lemma place_injective (h : Function.Injective l.mask) : Function.Injective l.place := by
  intro f g hplace
  apply FlagSet.single_injective
  apply h
  rw [mask_single, mask_single, ← UInt8.toNat_inj, toNat_one_shiftLeft, toNat_one_shiftLeft]
  exact congrArg (2 ^ ·) hplace

/-- A mask has the bits at the positions of the members, counted modulo eight. So the mask of a
union is the union of the masks, and masks tell all flag sets apart exactly when the positions of
the eight flags differ modulo eight. -/
theorem mask_union_and_injective_iff (l : FlagLayout) :
    (∀ s i, (l.mask s).toNat.testBit i = true ↔
        ∃ f, s.contains f = true ∧ (l.position f).toNat % 8 = i) ∧
      (∀ s t, l.mask (s.union t) = l.mask s ||| l.mask t) ∧
      (Function.Injective l.mask ↔
        Pairwise fun f g => (l.position f).toNat % 8 ≠ (l.position g).toNat % 8) := by
  refine ⟨l.testBit_mask, l.mask_union, ?_⟩
  have hpairwise : Function.Injective l.place ↔ Pairwise fun f g => l.place f ≠ l.place g :=
    Function.injective_iff_pairwise_ne
  exact Iff.trans ⟨place_injective, mask_injective⟩ hpairwise

/-- A layout with several positions beyond the byte. -/
def wrapped : FlagLayout :=
  ⟨7, 3, 8, 5, 12, 9, 6, 250⟩

/-- A carry flag at position 15 would share the place of the overflow flag, which is at 7. -/
theorem wrapped_mask_injective :
    (Pairwise fun f g => (wrapped.position f).toNat % 8 ≠ (wrapped.position g).toNat % 8) ∧
      Function.Injective wrapped.mask ∧
      ¬ Function.Injective { wrapped with carry := 15 }.mask := by
  have hdistinct : Pairwise fun f g =>
      (wrapped.position f).toNat % 8 ≠ (wrapped.position g).toNat % 8 := by
    unfold Pairwise
    decide
  refine ⟨hdistinct, (mask_union_and_injective_iff wrapped).2.2.mpr hdistinct, ?_⟩
  rw [(mask_union_and_injective_iff _).2.2]
  intro hall
  exact hall (show Flag.overflow ≠ Flag.carry by decide) rfl

end FlagLayout

end CilBackend
