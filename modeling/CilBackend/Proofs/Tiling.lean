import CilBackend.Proofs.Offsets
import CilBackend.Proofs.Order
import Mathlib.Data.List.Pairwise

/-!
# Tiling

The blocks of a placement stand one behind the other without gaps, every one of them with at least
its header, and no block stands twice. So the offsets at which blocks start are in the order of the
blocks, and a byte of the code belongs to one block.
-/

namespace CilBackend

variable {σ : Type}

lemma PlacedBlock.start_lt_stop (p : PlacedBlock) : p.start < p.stop := by
  have hheader : 0 < p.code.instructions.length := Nat.succ_pos _
  have hlength := length_le_codeSize p.code.instructions
  have hstop := p.stop_eq
  rw [UInt32.lt_iff_toNat_lt]
  omega

namespace Placement

/-- The blocks stand one behind the other from the offset `first` up to `behind`. -/
def Tiles : UInt32 → Placement → UInt32 → Prop
  | first, [], behind => first = behind
  | first, p :: rest, behind => p.start = first ∧ Tiles p.stop rest behind

lemma tiles_append {first behind : UInt32} {before after : Placement} :
    Tiles first (before ++ after) behind ↔
      ∃ middle, Tiles first before middle ∧ Tiles middle after behind := by
  induction before generalizing first with
  | nil => simp [Tiles]
  | cons p rest ih =>
    simp only [List.cons_append, Tiles, ih]
    constructor
    · rintro ⟨hstart, middle, hrest, hafter⟩
      exact ⟨middle, ⟨hstart, hrest⟩, hafter⟩
    · rintro ⟨middle, ⟨hstart, hrest⟩, hafter⟩
      exact ⟨hstart, middle, hrest, hafter⟩

namespace Tiles

variable {first behind : UInt32} {placement : Placement}

lemma le (h : Tiles first placement behind) : first ≤ behind := by
  induction placement generalizing first with
  | nil => exact UInt32.le_of_eq h
  | cons p rest ih =>
    have hrest := ih h.2
    have hstart := h.1
    have hlt := p.start_lt_stop
    grind

lemma bounds (h : Tiles first placement behind) {p : PlacedBlock} (hp : p ∈ placement) :
    first ≤ p.start ∧ p.stop ≤ behind := by
  obtain ⟨before, after, rfl⟩ := List.append_of_mem hp
  obtain ⟨middle, hbefore, hstart, hafter⟩ := tiles_append.mp h
  have hlow := hbefore.le
  have hhigh := hafter.le
  exact ⟨hstart ▸ hlow, hhigh⟩

/-- What stands before a block ends where the block starts, and what stands behind it starts where
the block stops. -/
lemma split {before after : Placement} {p : PlacedBlock}
    (h : Tiles first (before ++ p :: after) behind) :
    Tiles first before p.start ∧ Tiles p.stop after behind := by
  obtain ⟨middle, hbefore, hstart, hafter⟩ := tiles_append.mp h
  rw [hstart]
  exact ⟨hbefore, hafter⟩

lemma ordered (h : Tiles first placement behind) :
    placement.Pairwise fun p q => p.stop ≤ q.start := by
  induction placement generalizing first with
  | nil => exact List.Pairwise.nil
  | cons p rest ih => exact List.Pairwise.cons (fun q hq => (h.2.bounds hq).1) (ih h.2)

/-- Every byte of the code lies in a block. -/
lemma cover (h : Tiles first placement behind) {x : UInt32} (hfirst : first ≤ x)
    (hbehind : x < behind) : ∃ p ∈ placement, p.start ≤ x ∧ x < p.stop := by
  induction placement generalizing first with
  | nil =>
    have heq : first = behind := h
    grind
  | cons p rest ih =>
    by_cases hx : x < p.stop
    · exact ⟨p, List.mem_cons_self, h.1 ▸ hfirst, hx⟩
    · obtain ⟨q, hq, hinside⟩ := ih h.2 (UInt32.not_lt.mp hx)
      exact ⟨q, List.mem_cons_of_mem p hq, hinside⟩

end Tiles

/-- The blocks of a routine in the code: without gaps, with their positions counted from zero on,
and none of them twice. -/
structure LaidOut (placement : Placement) (first behind : UInt32) : Prop where
  tiles : Tiles first placement behind
  position : ∀ (k : Nat) (p : PlacedBlock), placement[k]? = some p → p.position = k
  nodup : (placement.map PlacedBlock.block).Nodup

namespace LaidOut

variable {placement : Placement} {first behind : UInt32} {p q : PlacedBlock}

lemma eq_of_block (h : placement.LaidOut first behind) (hp : p ∈ placement) (hq : q ∈ placement)
    (hblock : p.block = q.block) : p = q :=
  List.inj_on_of_nodup_map h.nodup hp hq hblock

/-- Of two blocks one ends before the other starts. -/
lemma apart (h : placement.LaidOut first behind) (hp : p ∈ placement) (hq : q ∈ placement) :
    p = q ∨ p.stop ≤ q.start ∨ q.stop ≤ p.start := by
  have hall := h.tiles.ordered
  apply List.Pairwise.forall_of_forall_of_flip
    (R := fun p q => p = q ∨ p.stop ≤ q.start ∨ q.stop ≤ p.start) (fun x _ => Or.inl rfl) _ _ hp hq
  · exact hall.imp fun hle => Or.inr (Or.inl hle)
  · exact hall.imp fun hle => Or.inr (Or.inr hle)

lemma eq_of_start (h : placement.LaidOut first behind) (hp : p ∈ placement) (hq : q ∈ placement)
    (hstart : p.start = q.start) : p = q := by
  have hpstop := p.start_lt_stop
  have hqstop := q.start_lt_stop
  rcases h.apart hp hq with heq | hle | hle
  · exact heq
  · grind
  · grind

lemma stop_le_of_start_lt (h : placement.LaidOut first behind) (hp : p ∈ placement)
    (hq : q ∈ placement) (hlt : p.start < q.start) : p.stop ≤ q.start := by
  have hqstop := q.start_lt_stop
  rcases h.apart hp hq with rfl | hle | hle
  · grind
  · exact hle
  · grind

/-- The byte `x` belongs to one block only. -/
lemma eq_of_byte (h : placement.LaidOut first behind) (hp : p ∈ placement) (hq : q ∈ placement)
    {x : UInt32} (hxp : p.start ≤ x ∧ x < p.stop) (hxq : q.start ≤ x ∧ x < q.stop) : p = q := by
  rcases h.apart hp hq with heq | hle | hle
  · exact heq
  · grind
  · grind

lemma get?_eq_some (h : placement.LaidOut first behind) {n : BlockId} :
    placement.get? n = some p ↔ p ∈ placement ∧ p.block = n := by
  unfold Placement.get?
  constructor
  · intro hfound
    exact ⟨List.mem_of_find?_eq_some hfound, by simpa using List.find?_some hfound⟩
  · rintro ⟨hp, rfl⟩
    cases hfound : placement.find? fun b => b.block = p.block with
    | none => simpa using List.find?_eq_none.mp hfound p hp
    | some q =>
      have hblock : q.block = p.block := by simpa using List.find?_some hfound
      rw [h.eq_of_block (List.mem_of_find?_eq_some hfound) hp hblock]

lemma after?_eq (h : placement.LaidOut first behind) {before after : Placement}
    (hsplit : placement = before ++ p :: after) : placement.after? p.block = after.head? := by
  subst hsplit
  have hfound := h.get?_eq_some.mpr ⟨List.mem_append_right before List.mem_cons_self, rfl⟩
  have hposition : p.position = before.length := h.position _ p (by simp)
  unfold Placement.after?
  rw [hfound, Option.bind_eq_bind, Option.bind_some, hposition,
    List.getElem?_append_right (Nat.le_add_right _ _), Nat.add_sub_cancel_left]
  exact List.head?_eq_getElem?.symm

/-- A block with another one behind it is followed by a block. -/
lemma exists_after? (h : placement.LaidOut first behind) (hp : p ∈ placement) (hq : q ∈ placement)
    (hle : p.stop ≤ q.start) : ∃ next, placement.after? p.block = some next := by
  obtain ⟨before, after, hsplit⟩ := List.append_of_mem hp
  have htiles := h.tiles
  have hstop := (htiles.bounds hq).2
  have hlt := q.start_lt_stop
  rw [h.after?_eq hsplit]
  rw [hsplit] at htiles
  cases after with
  | nil =>
    have hlast : p.stop = behind := htiles.split.2
    grind
  | cons next rest => exact ⟨next, rfl⟩

/-- The block that follows starts where this one stops. -/
lemma start_of_after? (h : placement.LaidOut first behind) (hp : p ∈ placement)
    (hnext : placement.after? p.block = some q) : q.start = p.stop := by
  obtain ⟨before, after, hsplit⟩ := List.append_of_mem hp
  rw [h.after?_eq hsplit, List.head?_eq_some_iff] at hnext
  obtain ⟨rest, rfl⟩ := hnext
  have htiles := h.tiles
  rw [hsplit] at htiles
  exact htiles.split.2.1

end LaidOut

end Placement

/-! ## Compiled routines -/

lemma Scope.place_tiles {scope : Scope σ} {r : Routine} {order : List BlockId} {position : Nat}
    {start : UInt32} {s s' : CodeState σ} {placement : Placement}
    (h : scope.place r order position start s = .ok placement s') :
    placement.Tiles start (start + .ofNat (codeSize placement.rawCode)) := by
  induction order generalizing position start s placement with
  | nil =>
    obtain ⟨rfl, -⟩ := Scope.place_nil_eq_ok h
    exact (UInt32.add_zero start).symm
  | cons n rest ih =>
    obtain ⟨p, t, following, -, -, rfl, -, hrest, rfl⟩ := Scope.place_cons_eq_ok h
    have htiles := ih hrest
    rw [Placement.rawCode_cons, codeSize_append, UInt32.ofNat_add, ← UInt32.add_assoc,
      ← p.stop_eq_add]
    exact ⟨rfl, htiles⟩

lemma Scope.place_laidOut {scope : Scope σ} {r : Routine} {order : List BlockId} {start : UInt32}
    {s s' : CodeState σ} {placement : Placement} (horder : r.graph.order r.entry = .ok order)
    (h : scope.place r order 0 start s = .ok placement s') :
    placement.LaidOut start (start + .ofNat (codeSize placement.rawCode)) := by
  refine ⟨Scope.place_tiles h, ?_, ?_⟩
  · intro k p hp
    rw [Scope.place_positions h hp, Nat.zero_add]
  · rw [Scope.place_blocks h]
    exact Graph.order_nodup horder

/-- A successful run has laid the blocks of the routine out in their order, and its handlers were
found in them. -/
lemma compile_laidOut {services : Services σ} {options : Options} {r : Routine}
    {w w' : Workspace σ} (h : compile services options r w = .ok () w') :
    ∃ placement order handlers first behind,
      compiledPlacement services options r w = some placement ∧
      r.graph.order r.entry = .ok order ∧ placement.map PlacedBlock.block = order ∧
      placement.LaidOut first behind ∧
      w'.body.instructions = w.body.instructions ++ placement.instructions ∧
      FrameScope.handlers ⟨r, placement, services.describe, options.tryEnd⟩ = .ok handlers ∧
      w'.body.handlers = w.body.handlers ++ handlers := by
  obtain ⟨locals, placement, handlers, hdeclare, hplace, hhandlers, hbody⟩ := compile_eq_ok h
  obtain ⟨headers, start, order, t, -, horder, hrun, -⟩ := placeRoutine_eq_ok.mp hplace
  exact ⟨placement, order, handlers, start, _, compiledPlacement_eq_some hdeclare hplace, horder,
    Scope.place_blocks hrun, Scope.place_laidOut horder hrun, by rw [hbody], hhandlers,
    by rw [hbody]⟩

end CilBackend
