import CilBackend.Proofs.Offsets
import CilBackend.Proofs.Order
import Mathlib.Data.List.Nodup

/-!
# Labels of lowered code

Lowering binds only labels that it has just taken from the supply, each of them once. So the code
of a routine binds no label twice, and none that the body had before.
-/

namespace CilBackend

variable {σ : Type}

/-- The labels that a piece of code binds, in the order of the code. -/
def boundLabels (code : List Instruction) : List Label :=
  code.filterMap Instruction.label

@[simp] lemma boundLabels_nil : boundLabels [] = [] := rfl

@[simp] lemma boundLabels_append (a b : List Instruction) :
    boundLabels (a ++ b) = boundLabels a ++ boundLabels b :=
  List.filterMap_append

lemma mem_boundLabels {code : List Instruction} {l : Label} :
    l ∈ boundLabels code ↔ ∃ i ∈ code, i.label = some l :=
  List.mem_filterMap

lemma mem_boundLabels_of_getElem? {code : List Instruction} {k : Nat} {i : Instruction} {l : Label}
    (hi : code[k]? = some i) (hl : i.label = some l) : l ∈ boundLabels code :=
  mem_boundLabels.mpr ⟨i, List.mem_of_getElem? hi, hl⟩

lemma boundLabels_eq_nil {code : List Instruction} (h : ∀ i ∈ code, i.label = none) :
    boundLabels code = [] :=
  List.filterMap_eq_nil_iff.mpr h

@[simp] lemma boundLabels_placeFrom (start : UInt32) (code : List Instruction) :
    boundLabels (placeFrom start code) = boundLabels code := by
  induction code generalizing start with
  | nil => rfl
  | cons i rest ih =>
    unfold boundLabels at ih ⊢
    rw [placeFrom, List.filterMap_cons, List.filterMap_cons, ih]

/-- A label that is bound once has one position. -/
lemma position_unique_of_count {code : List Instruction} {l : Label}
    (h : (boundLabels code).count l ≤ 1) {k k' : Nat} {i j : Instruction}
    (hi : code[k]? = some i) (hj : code[k']? = some j) (hil : i.label = some l)
    (hjl : j.label = some l) : k = k' := by
  induction code generalizing k k' with
  | nil => simp at hi
  | cons first rest ih =>
    have hcons : boundLabels (first :: rest) = first.label.toList ++ boundLabels rest := by
      unfold boundLabels
      rw [List.filterMap_cons]
      cases first.label with
      | none => rfl
      | some l => rfl
    rw [hcons, List.count_append] at h
    cases k with
    | zero =>
      cases k' with
      | zero => rfl
      | succ k' =>
        rw [List.getElem?_cons_zero, Option.some.injEq] at hi
        rw [List.getElem?_cons_succ] at hj
        have hrest : 0 < (boundLabels rest).count l :=
          List.count_pos_iff.mpr (mem_boundLabels_of_getElem? hj hjl)
        rw [hi, hil, Option.toList_some, List.count_singleton_self] at h
        omega
    | succ k =>
      rw [List.getElem?_cons_succ] at hi
      cases k' with
      | zero =>
        rw [List.getElem?_cons_zero, Option.some.injEq] at hj
        have hrest : 0 < (boundLabels rest).count l :=
          List.count_pos_iff.mpr (mem_boundLabels_of_getElem? hi hil)
        rw [hj, hjl, Option.toList_some, List.count_singleton_self] at h
        omega
      | succ k' =>
        rw [List.getElem?_cons_succ] at hj
        rw [ih (by omega) hi hj]

/-- The labels that a piece of code binds are distinct and have numbers from `low` up to, and
without, `high`. -/
structure LabelsWithin (low high : Nat) (code : List Instruction) : Prop where
  ordered : low ≤ high
  inside : ∀ l ∈ boundLabels code, low ≤ l.index.toNat ∧ l.index.toNat < high
  nodup : (boundLabels code).Nodup

namespace LabelsWithin

lemma of_none {code : List Instruction} (h : ∀ i ∈ code, i.label = none) (n : Nat) :
    LabelsWithin n n code := by
  have hnil := boundLabels_eq_nil h
  refine ⟨Nat.le_refl n, ?_, ?_⟩
  · rw [hnil]
    simp
  · rw [hnil]
    exact List.nodup_nil

lemma append {low middle high : Nat} {a b : List Instruction} (ha : LabelsWithin low middle a)
    (hb : LabelsWithin middle high b) : LabelsWithin low high (a ++ b) := by
  have hle := Nat.le_trans ha.ordered hb.ordered
  refine ⟨hle, ?_, ?_⟩
  · intro l hl
    rw [boundLabels_append, List.mem_append] at hl
    rcases hl with hl | hl
    · have hin := ha.inside l hl
      have hmiddle := hb.ordered
      omega
    · have hin := hb.inside l hl
      have hmiddle := ha.ordered
      omega
  · rw [boundLabels_append]
    apply List.Nodup.append ha.nodup hb.nodup
    intro l hla hlb
    have hlow := (ha.inside l hla).2
    have hhigh := (hb.inside l hlb).1
    omega

lemma append_none {low high : Nat} {a b : List Instruction} (ha : LabelsWithin low high a)
    (hb : ∀ i ∈ b, i.label = none) : LabelsWithin low high (a ++ b) :=
  ha.append (of_none hb high)

end LabelsWithin

/-! ## Expressions -/

/-- The labels that the code in a request binds. -/
def FlagRequest.boundLabels : FlagRequest → List Label
  | unary argument template _ _ => CilBackend.boundLabels (argument ++ template)
  | binary left right template _ _ _ => CilBackend.boundLabels (left ++ right ++ template)

/-- Expanding flags binds no new label, and no label twice that the code in the request binds only
once. -/
def Services.KeepsLabels (services : Services σ) : Prop :=
  ∀ request state,
    (∀ l ∈ boundLabels (services.expandFlags request state).1, l ∈ request.boundLabels) ∧
      (request.boundLabels.Nodup → (boundLabels (services.expandFlags request state).1).Nodup)

/-- The template of an expression binds no label, and its flags, if it updates any, are expanded
by services that keep labels. -/
def Expr.LabelSafe (services : Services σ) (e : Expr) : Prop :=
  (∀ i ∈ e.template, i.label = none) ∧ (e.flags ≠ none → services.KeepsLabels)

lemma Expr.labelSafe_of_no_flags {e : Expr} (hflags : e.flags = none)
    (htemplate : ∀ i ∈ e.template, i.label = none) (services : Services σ) :
    e.LabelSafe services :=
  ⟨htemplate, fun hsome => absurd hflags hsome⟩

namespace Scope

variable {scope : Scope σ}

lemma resolveTemplate_unlabelled {node : SyntaxNode} {template resolved : List Instruction}
    (h : scope.resolveTemplate node template = .ok resolved)
    (htemplate : ∀ i ∈ template, i.label = none) : ∀ i ∈ resolved, i.label = none := by
  intro j hj
  obtain ⟨i, hi, hresolve⟩ := except_mapM_mem h hj
  obtain ⟨-, operand, -, rfl⟩ := resolve_eq_ok.mp hresolve
  exact htemplate i hi

lemma afterObject_next {t : CodeState σ} (h : t.supply.next.toNat + 2 < UInt32.size) :
    (scope.afterObject t).supply.next.toNat = t.supply.next.toNat + 2 :=
  toNat_add_ofNat h

lemma objectCode_labelsWithin {t : CodeState σ} (h : t.supply.next.toNat + 2 < UInt32.size) :
    LabelsWithin t.supply.next.toNat (scope.afterObject t).supply.next.toNat
      (scope.objectCode t) := by
  have hlabels : boundLabels (scope.objectCode t) =
      [⟨t.supply.next⟩, ⟨t.supply.next + 1⟩] := rfl
  have hsecond := toNat_add_one (Nat.lt_of_succ_lt h)
  rw [afterObject_next h]
  refine ⟨Nat.le_add_right _ _, ?_, ?_⟩
  · rw [hlabels]
    simp only [List.mem_cons, List.not_mem_nil, or_false]
    rintro l (rfl | rfl)
    · dsimp only
      omega
    · dsimp only
      omega
  · rw [hlabels, List.nodup_cons, List.mem_singleton, Label.mk.injEq]
    refine ⟨?_, List.nodup_singleton _⟩
    intro heq
    rw [← heq] at hsecond
    omega

lemma labelsWithin_of_request {low high : Nat} {services : Services σ} (h : services.KeepsLabels)
    {request : FlagRequest} {code : List Instruction} {state state' : σ}
    (hrun : services.expandFlags request state = (code, state'))
    {given : List Instruction} (hgiven : request.boundLabels = boundLabels given)
    (hwithin : LabelsWithin low high given) : LabelsWithin low high code := by
  have hkeeps := h request state
  rw [hrun, hgiven] at hkeeps
  exact ⟨hwithin.ordered, fun l hl => hwithin.inside l (hkeeps.1 l hl), hkeeps.2 hwithin.nodup⟩

/-- The code of an expression binds labels that were unused before it, each of them once. -/
theorem exprCode_labelsWithin (scope : Scope σ) :
    (∀ e s code s', scope.exprCode e s = .ok code s' →
      (∀ x ∈ e.parts, x.LabelSafe scope.services) →
      LabelsWithin s.supply.next.toNat s'.supply.next.toNat code) ∧
    ∀ es s codes s', scope.exprCodes es s = .ok codes s' →
      (∀ x ∈ Expr.partsOfAll es, x.LabelSafe scope.services) →
      LabelsWithin s.supply.next.toNat s'.supply.next.toNat codes.flatten := by
  apply scope.exprCode_induction
    (fun e s code s' => (∀ x ∈ e.parts, x.LabelSafe scope.services) →
      LabelsWithin s.supply.next.toNat s'.supply.next.toNat code)
    (fun es s code s' => (∀ x ∈ Expr.partsOfAll es, x.LabelSafe scope.services) →
      LabelsWithin s.supply.next.toNat s'.supply.next.toNat code)
  case var =>
    intro id type slot s _ _
    exact LabelsWithin.of_none (by simp) _
  case object =>
    intro value target type s code t ih _ hfits hsafe
    have hvalue := ih (fun x hx => hsafe x (List.mem_cons_of_mem _ hx))
    exact hvalue.append (objectCode_labelsWithin hfits)
  case typed =>
    intro value target type s code t name ih _ _ hsafe
    have hvalue := ih (fun x hx => hsafe x (List.mem_cons_of_mem _ hx))
    exact hvalue.append_none (by simp [Scope.typedCode, typedConversion])
  case plain =>
    intro template arguments type node s code t resolved ih hresolved _ hsafe
    have harguments := ih (fun x hx => hsafe x (List.mem_cons_of_mem _ hx))
    have hself := hsafe _ (Expr.self_mem_parts _)
    exact harguments.append_none (resolveTemplate_unlabelled hresolved hself.1)
  case unary =>
    intro template argument update type node s code t resolved ih hresolved result services hrun
      hsafe
    have hself := hsafe _ (Expr.self_mem_parts _)
    have hargument := ih (fun x hx => hsafe x (List.mem_cons_of_mem _ (by
      rw [Expr.inner, Expr.partsOfAll_cons]
      exact List.mem_append_left _ hx)))
    exact labelsWithin_of_request (hself.2 (Option.some_ne_none update)) hrun rfl
      (hargument.append_none (resolveTemplate_unlabelled hresolved hself.1))
  case binary =>
    intro template left right update type node s code t code' u resolved ihl ihr hresolved result
      services hrun hsafe
    have hself := hsafe _ (Expr.self_mem_parts _)
    have hinner : ∀ x, x ∈ left.parts ∨ x ∈ right.parts → x.LabelSafe scope.services := by
      intro x hx
      apply hsafe x (List.mem_cons_of_mem _ _)
      rw [Expr.inner, Expr.partsOfAll_cons, Expr.partsOfAll_cons, List.mem_append,
        List.mem_append]
      tauto
    have hleft := ihl (fun x hx => hinner x (Or.inl hx))
    have hright := ihr (fun x hx => hinner x (Or.inr hx))
    exact labelsWithin_of_request (hself.2 (Option.some_ne_none update)) hrun rfl
      ((hleft.append hright).append_none (resolveTemplate_unlabelled hresolved hself.1))
  case nil =>
    intro s _
    exact LabelsWithin.of_none (by simp) _
  case cons =>
    intro e rest s code t codes u ihe ihrest hsafe
    rw [Expr.partsOfAll_cons] at hsafe
    exact (ihe (fun x hx => hsafe x (List.mem_append_left _ hx))).append
      (ihrest (fun x hx => hsafe x (List.mem_append_right _ hx)))

/-! ## Blocks and placements -/

lemma Stores_unlabelled {st : Statement} {store : List Instruction} (h : scope.Stores st store) :
    ∀ i ∈ store, i.label = none := by
  cases st with
  | expression value =>
    cases h
    simp
  | assignment target value =>
    obtain ⟨slot, -, rfl⟩ := h
    simp

lemma statementCode_labelsWithin {st : Statement} {s s' : CodeState σ} {code : List Instruction}
    (h : scope.statementCode st s = .ok code s')
    (hsafe : ∀ x ∈ st.value.parts, x.LabelSafe scope.services) :
    LabelsWithin s.supply.next.toNat s'.supply.next.toNat code := by
  obtain ⟨value, store, hvalue, hstore, rfl⟩ := statementCode_eq_ok h
  exact ((exprCode_labelsWithin scope).1 _ _ _ _ hvalue hsafe).append_none
    (Stores_unlabelled hstore)

lemma statementCodes_labelsWithin {b : Block} {s s' : CodeState σ}
    {codes : List (List Instruction)} (h : scope.statementCodes b s = .ok codes s')
    (hsafe : ∀ x ∈ Block.parts b, x.LabelSafe scope.services) :
    LabelsWithin s.supply.next.toNat s'.supply.next.toNat codes.flatten := by
  induction b generalizing s codes with
  | nil =>
    rw [Scope.statementCodes] at h
    obtain ⟨rfl, rfl⟩ := run_pure_eq_ok.mp h
    exact LabelsWithin.of_none (by simp) _
  | cons st rest ih =>
    obtain ⟨code, t, following, hcode, hrest, rfl⟩ := statementCodes_cons_eq_ok h
    unfold Block.parts at hsafe ih
    rw [List.flatMap_cons, List.forall_mem_append] at hsafe
    rw [List.flatten_cons]
    exact (statementCode_labelsWithin hcode hsafe.1).append (ih hrest hsafe.2)

variable {r : Routine}

lemma jump_unlabelled {n : BlockId} {next : Option BlockId} {jump : Option Instruction}
    (h : scope.fallThroughJump r n next = .ok jump) : ∀ i ∈ jump.toList, i.label = none := by
  obtain ⟨-, rfl⟩ | ⟨target, -, ⟨-, rfl⟩ | ⟨-, label, -, rfl⟩⟩ := fallThroughJump_eq_ok h
  · simp
  · simp
  · simp

/-- A block binds its header label and, inside, labels that were unused before. -/
lemma blockCode_labels {n : BlockId} {next : Option BlockId} {s s' : CodeState σ}
    {code : BlockCode} (h : scope.blockCode r n next s = .ok code s')
    (hsafe : ∀ x ∈ r.parts, x.LabelSafe scope.services) :
    ∃ inner, code.instructions = Instruction.header code.header :: inner ∧
      scope.headers.label? n = some code.header ∧
      LabelsWithin s.supply.next.toNat s'.supply.next.toNat inner := by
  obtain ⟨statements, hblock, hheader, hcodes, hjump⟩ := blockCode_eq_ok h
  refine ⟨_, rfl, hheader, ?_⟩
  have hstatements := statementCodes_labelsWithin hcodes
    (fun x hx => hsafe x (Routine.mem_parts_of_block hblock hx))
  exact hstatements.append_none (jump_unlabelled hjump)

end Scope

lemma label?_eq_some {h : Headers} {n : BlockId} {l : Label} :
    h.label? n = some l ↔
      l.index.toNat = h.first.toNat + n ∧ l.index.toNat < h.first.toNat + h.count := by
  unfold Headers.label?
  have hfits := h.fits
  by_cases hn : n < h.count
  · have hsum := toNat_add_ofNat (Nat.lt_trans (Nat.add_lt_add_left hn h.first.toNat) hfits)
    rw [if_pos hn, Option.some.injEq]
    constructor
    · rintro rfl
      exact ⟨hsum, hsum ▸ Nat.add_lt_add_left hn _⟩
    · rintro ⟨hindex, -⟩
      obtain ⟨index⟩ := l
      exact congrArg Label.mk (UInt32.toNat_inj.mp (hsum.trans hindex.symm))
  · rw [if_neg hn]
    constructor
    · intro hnone
      cases hnone
    · rintro ⟨hindex, hlt⟩
      rw [hindex] at hlt
      exact absurd (Nat.lt_of_add_lt_add_left hlt) hn

lemma label?_injective {h : Headers} {n m : BlockId} {l : Label} (hn : h.label? n = some l)
    (hm : h.label? m = some l) : n = m :=
  Nat.add_left_cancel ((label?_eq_some.mp hn).1.symm.trans (label?_eq_some.mp hm).1)

namespace Scope

variable {scope : Scope σ} {r : Routine}

/-- Every label of placed code is the header label of a placed block or was unused before. -/
lemma place_labels {order : List BlockId} {position : Nat} {start : UInt32} {s s' : CodeState σ}
    {placement : Placement} (h : scope.place r order position start s = .ok placement s')
    (hsafe : ∀ x ∈ r.parts, x.LabelSafe scope.services) :
    s.supply.next.toNat ≤ s'.supply.next.toNat ∧
    (∀ l ∈ boundLabels placement.rawCode, (∃ n ∈ order, scope.headers.label? n = some l) ∨
      (s.supply.next.toNat ≤ l.index.toNat ∧ l.index.toNat < s'.supply.next.toNat)) ∧
    (order.Nodup →
      scope.headers.first.toNat + scope.headers.count ≤ s.supply.next.toNat →
      (boundLabels placement.rawCode).Nodup) := by
  induction order generalizing position start s placement with
  | nil =>
    obtain ⟨rfl, rfl⟩ := place_nil_eq_ok h
    simp [Placement.rawCode]
  | cons n rest ih =>
    obtain ⟨p, t, following, -, -, -, hcode, hrest, rfl⟩ := place_cons_eq_ok h
    obtain ⟨inner, hinner, hheader, hwithin⟩ := blockCode_labels hcode hsafe
    obtain ⟨hle, hlabels, hnodup⟩ := ih hrest
    have hraw : boundLabels (Placement.rawCode (p :: following)) =
        p.code.header :: (boundLabels inner ++ boundLabels following.rawCode) := by
      rw [Placement.rawCode_cons, boundLabels_append, hinner]
      rfl
    have hordered := hwithin.ordered
    rw [hraw]
    refine ⟨by omega, ?_, ?_⟩
    · intro l hl
      rw [List.mem_cons, List.mem_append] at hl
      rcases hl with rfl | hl | hl
      · exact Or.inl ⟨n, List.mem_cons_self, hheader⟩
      · have hin := hwithin.inside l hl
        exact Or.inr (by omega)
      · rcases hlabels l hl with ⟨m, hm, hlabel⟩ | hin
        · exact Or.inl ⟨m, List.mem_cons_of_mem n hm, hlabel⟩
        · exact Or.inr (by omega)
    · intro horder hfirst
      obtain ⟨hn, horder⟩ := List.nodup_cons.mp horder
      have hsmall := (label?_eq_some.mp hheader).2
      refine List.nodup_cons.mpr ⟨?_, ?_⟩
      · rw [List.mem_append]
        rintro (hl | hl)
        · have hin := hwithin.inside _ hl
          omega
        · rcases hlabels _ hl with ⟨m, hm, hlabel⟩ | hin
          · exact hn (label?_injective hheader hlabel ▸ hm)
          · omega
      · apply List.Nodup.append hwithin.nodup (hnodup horder (by omega))
        intro l hl hl'
        have hin := hwithin.inside l hl
        rcases hlabels l hl' with ⟨m, hm, hlabel⟩ | hin'
        · have hlt := (label?_eq_some.mp hlabel).2
          omega
        · omega

end Scope

lemma toNat_max (a b : UInt32) : (max a b).toNat = max a.toNat b.toNat := by
  change (if a ≤ b then b else a).toNat = if a.toNat ≤ b.toNat then b.toNat else a.toNat
  rw [apply_ite UInt32.toNat]
  exact if_congr UInt32.le_iff_toNat_le rfl rfl

namespace LabelSupply

/-- A supply is raised exactly when there is a label above the one that it is raised above. -/
lemma above_eq_some {s s' : LabelSupply} {l : Label} :
    s.above l = some s' ↔ s'.next.toNat = max s.next.toNat (l.index.toNat + 1) := by
  unfold LabelSupply.above
  rw [Option.bind_eq_bind, Option.bind_eq_some_iff]
  constructor
  · rintro ⟨next, hnext, hraise⟩
    rw [← addChecked_eq_some.mp hnext, ← toNat_max]
    cases hraise
    rfl
  · intro hmax
    have hlt : s'.next.toNat < UInt32.size := s'.next.toNat_lt
    have hfits : l.index.toNat + 1 < UInt32.size := by omega
    refine ⟨_, addChecked_of_lt hfits, ?_⟩
    obtain ⟨next⟩ := s'
    refine congrArg (some ∘ LabelSupply.mk) (UInt32.toNat_inj.mp ?_)
    rw [toNat_max, toNat_add_ofNat hfits, hmax]

lemma above_all {labels : List Label} {s s' : LabelSupply} (h : labels.foldlM above s = some s') :
    s.next.toNat ≤ s'.next.toNat ∧ ∀ l ∈ labels, l.index.toNat < s'.next.toNat := by
  induction labels generalizing s with
  | nil =>
    cases h
    simp
  | cons first rest ih =>
    rw [List.foldlM_cons, Option.bind_eq_bind, Option.bind_eq_some_iff] at h
    obtain ⟨raised, hraised, hrest⟩ := h
    have hmax := above_eq_some.mp hraised
    obtain ⟨hle, hall⟩ := ih hrest
    rw [List.forall_mem_cons]
    exact ⟨by omega, by omega, hall⟩

end LabelSupply

/-- All labels that code mentions are below the supply that continues it. -/
lemma lt_continuing {code : List Instruction} {supply : LabelSupply}
    (h : LabelSupply.continuing code = some supply) {i : Instruction} (hi : i ∈ code) {l : Label}
    (hl : l ∈ i.mentionedLabels) : l.index.toNat < supply.next.toNat :=
  (LabelSupply.above_all h).2 l (List.mem_flatMap.mpr ⟨i, hi, hl⟩)

lemma boundLabel_lt_continuing {code : List Instruction} {supply : LabelSupply}
    (h : LabelSupply.continuing code = some supply) {l : Label} (hl : l ∈ boundLabels code) :
    l.index.toNat < supply.next.toNat := by
  obtain ⟨i, hi, hlabel⟩ := mem_boundLabels.mp hl
  apply lt_continuing h hi
  unfold Instruction.mentionedLabels
  rw [hlabel]
  simp

/-! ## Placed routines -/

/-- The labels of a placement behind old code: header labels name the blocks, which are all there,
the labels inside blocks are above them, and no label is bound twice or was used before. -/
structure FreshlyLabelled (old : List Instruction) (headers : Headers) (placement : Placement) :
    Prop where
  old_lt : ∀ l ∈ boundLabels old, l.index.toNat < headers.first.toNat
  header : ∀ p ∈ placement, headers.label? p.block = some p.code.header
  inner : ∀ p ∈ placement, ∀ l ∈ boundLabels p.code.instructions.tail,
    headers.first.toNat + headers.count ≤ l.index.toNat
  nodup : (boundLabels placement.rawCode).Nodup
  complete : ∀ n < headers.count, ∃ p ∈ placement, p.block = n

/-- An instruction of a placement belongs to one of its blocks. -/
lemma Placement.rawCode_getElem? {placement : Placement} {k : Nat} {i : Instruction}
    (h : placement.rawCode[k]? = some i) :
    ∃ (before : Placement) (p : PlacedBlock) (after : Placement) (j : Nat),
      placement = before ++ p :: after ∧ k = before.rawCode.length + j ∧
      p.code.instructions[j]? = some i := by
  induction placement generalizing k with
  | nil => simp [Placement.rawCode] at h
  | cons first rest ih =>
    rw [Placement.rawCode_cons] at h
    by_cases hk : k < first.code.instructions.length
    · rw [List.getElem?_append_left hk] at h
      exact ⟨[], first, rest, k, rfl, (Nat.zero_add k).symm, h⟩
    · rw [List.getElem?_append_right (by omega)] at h
      obtain ⟨before, p, after, j, rfl, hj, hi⟩ := ih h
      refine ⟨first :: before, p, after, j, rfl, ?_, hi⟩
      rw [Placement.rawCode_cons, List.length_append]
      omega

namespace FreshlyLabelled

variable {old : List Instruction} {headers : Headers} {placement : Placement}

/-- A header label is bound at the start of its block and nowhere else. -/
lemma header_position (h : FreshlyLabelled old headers placement) {m : BlockId} {l : Label}
    (hm : headers.label? m = some l) {k : Nat} {j : Instruction}
    (hj : (old ++ placement.rawCode)[k]? = some j) (hl : j.label = some l) :
    ∃ (before : Placement) (q : PlacedBlock) (after : Placement),
      placement = before ++ q :: after ∧ q.block = m ∧ k = old.length + before.rawCode.length := by
  obtain ⟨hindex, hlt⟩ := label?_eq_some.mp hm
  by_cases hk : k < old.length
  · rw [List.getElem?_append_left hk] at hj
    have hold := h.old_lt l (mem_boundLabels_of_getElem? hj hl)
    omega
  · rw [List.getElem?_append_right (by omega)] at hj
    obtain ⟨before, q, after, n, rfl, hn, hq⟩ := Placement.rawCode_getElem? hj
    have hmem : q ∈ before ++ q :: after := by simp
    cases n with
    | zero =>
      have hheader : some (Instruction.header q.code.header) = some j := hq
      cases hheader
      have hlabel := h.header q hmem
      cases hl
      exact ⟨before, q, after, rfl, label?_injective hlabel hm, by omega⟩
    | succ n =>
      have htail : q.code.instructions.tail[n]? = some j := by
        rw [List.getElem?_tail]
        exact hq
      have hge := h.inner q hmem l (mem_boundLabels_of_getElem? htail hl)
      omega

lemma first_le (h : FreshlyLabelled old headers placement) {l : Label}
    (hl : l ∈ boundLabels placement.rawCode) : headers.first.toNat ≤ l.index.toNat := by
  obtain ⟨i, hi, hlabel⟩ := mem_boundLabels.mp hl
  obtain ⟨k, hk⟩ := List.mem_iff_getElem?.mp hi
  obtain ⟨before, p, after, j, hsplit, -, hj⟩ := Placement.rawCode_getElem? hk
  have hmem : p ∈ placement := by
    rw [hsplit]
    simp
  cases j with
  | zero =>
    have heq : Instruction.header p.code.header = i := Option.some.inj hj
    have hown : p.code.header = l := by
      rw [← heq] at hlabel
      exact Option.some.inj hlabel
    have hheader := (label?_eq_some.mp (h.header p hmem)).1
    rw [hown] at hheader
    omega
  | succ j =>
    have htail : p.code.instructions.tail[j]? = some i := by
      rw [List.getElem?_tail]
      exact hj
    have hge := h.inner p hmem l (mem_boundLabels_of_getElem? htail hlabel)
    omega

/-- A label from the first header label on is bound at one position at most. -/
lemma position_unique (h : FreshlyLabelled old headers placement) {l : Label}
    (hl : headers.first.toNat ≤ l.index.toNat) {k k' : Nat} {i j : Instruction}
    (hi : (old ++ placement.rawCode)[k]? = some i) (hj : (old ++ placement.rawCode)[k']? = some j)
    (hil : i.label = some l) (hjl : j.label = some l) : k = k' := by
  apply position_unique_of_count _ hi hj hil hjl
  rw [boundLabels_append, List.count_append]
  have hold : (boundLabels old).count l = 0 := by
    rw [List.count_eq_zero]
    intro hmem
    have hlt := h.old_lt l hmem
    omega
  have hnew := List.nodup_iff_count_le_one.mp h.nodup l
  omega

end FreshlyLabelled

namespace Scope

variable {scope : Scope σ} {r : Routine}

lemma place_inner {order : List BlockId} {position : Nat} {start : UInt32} {s s' : CodeState σ}
    {placement : Placement} (h : scope.place r order position start s = .ok placement s')
    (hsafe : ∀ x ∈ r.parts, x.LabelSafe scope.services) :
    ∀ p ∈ placement, scope.headers.label? p.block = some p.code.header ∧
      ∀ l ∈ boundLabels p.code.instructions.tail, s.supply.next.toNat ≤ l.index.toNat := by
  induction order generalizing position start s placement with
  | nil =>
    obtain ⟨rfl, rfl⟩ := place_nil_eq_ok h
    simp
  | cons n rest ih =>
    obtain ⟨first, t, following, rfl, -, -, hcode, hrest, rfl⟩ := place_cons_eq_ok h
    obtain ⟨inner, hinner, hheader, hwithin⟩ := blockCode_labels hcode hsafe
    have hordered := hwithin.ordered
    rw [List.forall_mem_cons]
    refine ⟨⟨hheader, ?_⟩, ?_⟩
    · intro l hl
      rw [hinner, List.tail_cons] at hl
      exact (hwithin.inside l hl).1
    · intro p hp
      obtain ⟨hlabel, hge⟩ := ih hrest p hp
      refine ⟨hlabel, fun l hl => ?_⟩
      have hle := hge l hl
      omega

end Scope

lemma place_freshlyLabelled {services : Services σ} {options : Options} {r : Routine}
    {body : MethodBody} {headers : Headers} {start : UInt32} {locals : LocalTable} {s : σ}
    {order : List BlockId} {placement : Placement} {t : CodeState σ}
    (hsite : Site r body headers start) (horder : r.graph.order r.entry = .ok order)
    (hplace : (routineScope services options r locals headers).place r order 0 start
      ⟨headers.rest, s⟩ = .ok placement t)
    (hsafe : ∀ x ∈ r.parts, x.LabelSafe services) :
    FreshlyLabelled body.instructions headers placement := by
  have hinner := Scope.place_inner hplace hsafe
  have hrest := headers.toNat_rest
  refine ⟨fun l hl => boundLabel_lt_continuing hsite.labels hl, fun p hp => (hinner p hp).1,
    fun p hp l hl => hrest ▸ (hinner p hp).2 l hl, ?_, ?_⟩
  · exact (Scope.place_labels hplace hsafe).2.2 (Graph.order_nodup horder) (Nat.le_of_eq hrest.symm)
  · intro n hn
    have hmem := (Graph.mem_order horder).mpr (hsite.count ▸ hn)
    rw [← Scope.place_blocks hplace, List.mem_map] at hmem
    exact hmem

end CilBackend
