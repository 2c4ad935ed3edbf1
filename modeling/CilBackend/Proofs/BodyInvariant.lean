import CilBackend.Proofs.HandlerRuns
import CilBackend.Proofs.Labels
import Mathlib.Algebra.GroupWithZero.Nat

/-!
# Invariant of method bodies

However often routines are compiled into a body, and whether compilation succeeds or fails, the
offsets of its code stay gapless, its labels and variables stay distinct, and its handlers keep
naming places in its code. What was in the body before a call is never changed.
-/

namespace CilBackend

/-- The state in which a run ends, with or without success. -/
def finalState {ε τ α : Type} : EStateM.Result ε τ α → τ
  | .ok _ s => s
  | .error _ s => s

/-- A routine to compile, with the services and options for it. -/
structure CompileCall where
  State : Type
  services : Services State
  state : State
  options : Options
  routine : Routine

namespace CompileCall

/-- The body after the call, whether it succeeds or not. -/
def run (c : CompileCall) (b : MethodBody) : MethodBody :=
  (finalState (compile c.services c.options c.routine ⟨b, c.state⟩)).body

def runAll (calls : List CompileCall) (b : MethodBody) : MethodBody :=
  calls.foldl (fun b c => c.run b) b

/-- No template binds a label, and flags are expanded without new labels and without binding one
twice. -/
def LabelSafe (c : CompileCall) : Prop :=
  ∀ e ∈ c.routine.parts, e.LabelSafe c.services

end CompileCall

namespace MethodBody

structure WellFormed (b : MethodBody) : Prop where
  first_offset : ∀ i, b.instructions[0]? = some i → i.offset = 0
  next_offset : ∀ k i j, b.instructions[k]? = some i → b.instructions[k + 1]? = some j →
    j.offset.toNat = i.offset.toNat + i.size
  codeSize_eq : ∃ size, b.codeSize? = some size ∧
    size.toNat = (b.instructions.map Instruction.size).sum
  labels_nodup : (boundLabels b.instructions).Nodup
  anchored : ∀ h ∈ b.handlers, ∀ a ∈ h.anchors,
    ∃ i ∈ b.instructions, i.label = some a.label ∧ i.offset = a.offset
  labelOffset_anchor : ∀ h ∈ b.handlers, ∀ a ∈ h.anchors, b.labelOffset? a.label = some a.offset
  variables_nodup : (b.locals.entries.toList.map Variable.id).Nodup

/-- Everything in `b` is in `b'` as well, at the same place. -/
structure ExtendedBy (b b' : MethodBody) : Prop where
  instructions : b.instructions <+: b'.instructions
  handlers : b.handlers <+: b'.handlers
  locals : b.locals.entries.toList <+: b'.locals.entries.toList
  maxStack : b.maxStack ≤ b'.maxStack

end MethodBody

/-! ## Variables -/

namespace LocalTable

lemma ids_nodup (t : LocalTable) : (t.entries.toList.map Variable.id).Nodup := by
  rw [List.nodup_iff_getElem?_ne_getElem?]
  intro i j hij hj heq
  have hi : i < (t.entries.toList.map Variable.id).length := Nat.lt_trans hij hj
  obtain ⟨id, hid⟩ : ∃ id, (t.entries.toList.map Variable.id)[i]? = some id :=
    ⟨_, List.getElem?_eq_getElem hi⟩
  have hslot : ∀ k, (t.entries.toList.map Variable.id)[k]? = some id →
      t.slots[id.index]? = some k := by
    intro k hk
    rw [List.getElem?_map, Array.getElem?_toList] at hk
    exact (t.slots_iff id k).mpr hk
  have hsame := (hslot i hid).symm.trans (hslot j (heq ▸ hid))
  have hindex := Option.some.inj hsame
  omega

lemma register_prefix (v : Variable) (t : LocalTable) :
    t.entries.toList <+: (finalState (LocalTable.register v t)).entries.toList := by
  obtain ⟨entries, slots, hslots, hsize⟩ := t
  unfold LocalTable.register
  dsimp only
  split_ifs
  · exact List.prefix_refl _
  · dsimp only [finalState]
    rw [Array.toList_push]
    exact List.prefix_append _ _
  · exact List.prefix_refl _

lemma declare_prefix (v : Variable) (t : LocalTable) :
    t.entries.toList <+: (finalState (LocalTable.declare v t)).entries.toList := by
  have hregister := register_prefix v t
  cases hrun : LocalTable.register v t with
  | ok slot t' =>
    rw [hrun] at hregister
    simp only [LocalTable.declare, hrun]
    exact hregister
  | error e t' =>
    rw [hrun] at hregister
    simp only [LocalTable.declare, hrun]
    exact hregister

lemma declareAll_prefix (vs : List Variable) (t : LocalTable) :
    t.entries.toList <+: (finalState (LocalTable.declareAll vs t)).entries.toList := by
  induction vs generalizing t with
  | nil => exact List.prefix_refl _
  | cons v rest ih =>
    have hdeclare := declare_prefix v t
    have hbind : LocalTable.declareAll (v :: rest) t =
        EStateM.bind (LocalTable.declare v) (fun _ => LocalTable.declareAll rest) t := rfl
    rw [hbind]
    unfold EStateM.bind
    cases hrun : LocalTable.declare v t with
    | ok u t' =>
      rw [hrun] at hdeclare
      exact hdeclare.trans (ih t')
    | error f t' =>
      rw [hrun] at hdeclare
      exact hdeclare

end LocalTable

/-! ## Code -/

/-- Code whose offsets are right already keeps them when it is placed. -/
lemma placeFrom_placeFrom (start start' : UInt32) (code : List Instruction) :
    placeFrom start (placeFrom start' code) = placeFrom start code := by
  induction code generalizing start start' with
  | nil => rfl
  | cons i rest ih =>
    rw [placeFrom, placeFrom, placeFrom, ih]
    rfl

lemma codeSize_eq_sum (code : List Instruction) :
    codeSize code = (code.map Instruction.size).sum := by
  induction code with
  | nil => rfl
  | cons i rest ih => rw [codeSize, ih, List.map_cons, List.sum_cons]

lemma offset_placeFrom {start : UInt32} {k : Nat} {code : List Instruction} {i : Instruction}
    (h : (placeFrom start code)[k]? = some i) :
    i.offset = start + .ofNat (codeSize (code.take k)) := by
  induction code generalizing start k with
  | nil => simp [placeFrom] at h
  | cons first rest ih =>
    cases k with
    | zero =>
      rw [placeFrom, List.getElem?_cons_zero, Option.some.injEq] at h
      rw [← h]
      exact (UInt32.add_zero start).symm
    | succ k =>
      rw [placeFrom, List.getElem?_cons_succ] at h
      rw [ih h, List.take_succ_cons, codeSize, UInt32.ofNat_add, UInt32.add_assoc]

namespace MethodBody

/-- The part of the invariant that carries over from call to call. -/
structure Sound (b : MethodBody) : Prop where
  placed : b.instructions = placeFrom 0 b.instructions
  fits : codeSize b.instructions < UInt32.size
  labels_nodup : (boundLabels b.instructions).Nodup
  anchored : ∀ h ∈ b.handlers, ∀ a ∈ h.anchors,
    ∃ i ∈ b.instructions, i.label = some a.label ∧ i.offset = a.offset

lemma labelOffset?_eq {b : MethodBody} (hnodup : (boundLabels b.instructions).Nodup)
    {i : Instruction} (hi : i ∈ b.instructions) {l : Label} (hl : i.label = some l) :
    b.labelOffset? l = some i.offset := by
  unfold labelOffset?
  cases hfind : b.instructions.find? fun i => i.label == some l with
  | none =>
    have hnone := List.find?_eq_none.mp hfind i hi
    simp [hl] at hnone
  | some j =>
    have hjl : j.label = some l := by simpa using List.find?_some hfind
    obtain ⟨k, hk⟩ := List.mem_iff_getElem?.mp hi
    obtain ⟨k', hk'⟩ := List.mem_iff_getElem?.mp (List.mem_of_find?_eq_some hfind)
    have hcount := List.nodup_iff_count_le_one.mp hnodup l
    have hplace := position_unique_of_count hcount hk hk' hl hjl
    rw [hplace, hk', Option.some.injEq] at hk
    rw [hk]
    rfl

lemma Sound.codeSize_eq {b : MethodBody} (h : b.Sound) :
    ∃ size, b.codeSize? = some size ∧ size.toNat = codeSize b.instructions := by
  by_cases hnil : b.instructions = []
  · unfold MethodBody.codeSize?
    rw [hnil]
    exact ⟨0, rfl, rfl⟩
  · have hcode : b.instructions = [] ++ placeFrom 0 b.instructions := h.placed
    have hsize := UInt32.toNat_ofNat_of_lt' h.fits
    exact ⟨_, codeSize?_of_placeFrom hcode hnil (hsize.trans (Nat.zero_add _).symm), hsize⟩

lemma Sound.offset_eq {b : MethodBody} (h : b.Sound) {k : Nat} {i : Instruction}
    (hi : b.instructions[k]? = some i) :
    i.offset.toNat = codeSize (b.instructions.take k) := by
  rw [h.placed] at hi
  rw [offset_placeFrom hi, UInt32.zero_add]
  exact UInt32.toNat_ofNat_of_lt' (Nat.lt_of_le_of_lt (codeSize_take_le k _) h.fits)

lemma Sound.wellFormed {b : MethodBody} (h : b.Sound) : b.WellFormed := by
  refine ⟨?_, ?_, ?_, h.labels_nodup, h.anchored, ?_, b.locals.ids_nodup⟩
  · intro i hi
    exact UInt32.toNat_inj.mp (h.offset_eq hi)
  · intro k i j hi hj
    rw [h.offset_eq hi, h.offset_eq hj, List.take_add_one, hi, codeSize_append]
    rfl
  · rw [← codeSize_eq_sum]
    exact h.codeSize_eq
  · intro handler hhandler a ha
    obtain ⟨i, hi, hlabel, hoffset⟩ := h.anchored handler hhandler a ha
    rw [labelOffset?_eq h.labels_nodup hi hlabel, hoffset]

end MethodBody

/-! ## Calls -/

namespace CompileCall

/-- What a call can do to a body: declare variables and stop, or append the code of all blocks, and
handlers that name these blocks. -/
lemma run_cases (c : CompileCall) (b : MethodBody) :
    ∃ locals : LocalTable, b.locals.entries.toList <+: locals.entries.toList ∧
      (c.run b = { b with locals } ∨
        ∃ placement headers start order t handlers maxStack,
          Site c.routine b headers start ∧ c.routine.graph.order c.routine.entry = .ok order ∧
          (routineScope c.services c.options c.routine locals headers).place c.routine order 0
            start ⟨headers.rest, c.state⟩ = .ok placement t ∧
          (∀ h ∈ handlers, ∀ a ∈ h.anchors, ∃ p ∈ placement, a = p.header) ∧
          b.maxStack ≤ maxStack ∧
          c.run b = {
            locals
            instructions := b.instructions ++ placement.instructions
            handlers := b.handlers ++ handlers
            maxStack }) := by
  have hprefix := LocalTable.declareAll_prefix c.routine.declarations b.locals
  cases hdeclare : LocalTable.declareAll c.routine.declarations b.locals with
  | error f locals =>
    rw [hdeclare] at hprefix
    refine ⟨locals, hprefix, Or.inl ?_⟩
    simp only [run, compile, hdeclare, finalState]
  | ok u locals =>
    rw [hdeclare] at hprefix
    refine ⟨locals, hprefix, ?_⟩
    cases hplace : placeRoutine c.services c.options c.routine { b with locals } c.state with
    | error f s =>
      left
      simp only [run, compile, hdeclare, hplace, finalState]
    | ok placement s =>
      right
      obtain ⟨headers, start, order, t, ⟨hlabels, hcount, hoffset⟩, horder, hrun, -⟩ :=
        placeRoutine_eq_ok.mp hplace
      have hsite : Site c.routine b headers start := ⟨hlabels, hcount, hoffset⟩
      cases hhandlers : FrameScope.handlers
          ⟨c.routine, placement, c.services.describe, c.options.tryEnd⟩ with
      | error d =>
        refine ⟨placement, headers, start, order, t, [], b.maxStack, hsite, horder, hrun, by simp,
          Nat.le_refl _, ?_⟩
        simp only [run, compile, hdeclare, hplace, hhandlers, finalState, List.append_nil]
      | ok handlers =>
        refine ⟨placement, headers, start, order, t, handlers,
          max b.maxStack (placement.peak c.routine.returnsValue), hsite, horder, hrun, ?_,
          Nat.le_max_left _ _, ?_⟩
        · intro h hh a ha
          exact FrameScope.handlersFrom_anchored hhandlers hh ha
        · simp only [run, compile, hdeclare, hplace, hhandlers, finalState]

lemma extendedBy_run (c : CompileCall) (b : MethodBody) : b.ExtendedBy (c.run b) := by
  obtain ⟨locals, hlocals, hrun | ⟨placement, headers, start, order, t, handlers, maxStack, -, -, -,
    -, hmax, hrun⟩⟩ := c.run_cases b
  · rw [hrun]
    exact ⟨List.prefix_refl _, List.prefix_refl _, hlocals, Nat.le_refl _⟩
  · rw [hrun]
    exact ⟨List.prefix_append _ _, List.prefix_append _ _, hlocals, hmax⟩

lemma sound_run {c : CompileCall} (hsafe : c.LabelSafe) {b : MethodBody} (h : b.Sound) :
    (c.run b).Sound := by
  obtain ⟨locals, -, hrun | ⟨placement, headers, start, order, t, handlers, maxStack, hsite, horder,
    hplace, hanchors, -, hrun⟩⟩ := c.run_cases b
  · rw [hrun]
    exact ⟨h.placed, h.fits, h.labels_nodup, h.anchored⟩
  · have hlabelled := place_freshlyLabelled hsite horder hplace hsafe
    have hcode := Scope.place_instructions hplace
    obtain ⟨size, hsize, hstart⟩ := h.codeSize_eq
    obtain rfl : size = start := Option.some.inj (hsize.symm.trans hsite.offset)
    rw [hrun]
    refine ⟨?_, ?_, ?_, ?_⟩
    · dsimp only
      rw [placeFrom_append, ← h.placed, hcode, ← hstart, UInt32.ofNat_toNat, UInt32.zero_add,
        placeFrom_placeFrom]
    · dsimp only
      rw [codeSize_append, hcode, codeSize_placeFrom, ← hstart]
      exact Scope.place_codeSize_lt hplace
    · dsimp only
      rw [hcode, boundLabels_append, boundLabels_placeFrom]
      apply List.Nodup.append h.labels_nodup hlabelled.nodup
      intro l hold hnew
      have hlt := hlabelled.old_lt l hold
      have hge := hlabelled.first_le hnew
      omega
    · intro handler hhandler a ha
      dsimp only at hhandler ⊢
      rcases List.mem_append.mp hhandler with hold | hnew
      · obtain ⟨i, hi, hlabel, hoffset⟩ := h.anchored handler hold a ha
        exact ⟨i, List.mem_append_left _ hi, hlabel, hoffset⟩
      · obtain ⟨p, hp, rfl⟩ := hanchors handler hnew a ha
        have hheader : { Instruction.header p.code.header with offset := p.start } ∈
            p.instructions := List.mem_cons_self
        refine ⟨_, List.mem_append_right _ (List.mem_flatMap.mpr ⟨p, hp, hheader⟩), rfl, rfl⟩

lemma sound_runAll {calls : List CompileCall} (hsafe : ∀ c ∈ calls, c.LabelSafe) {b : MethodBody}
    (h : b.Sound) : (runAll calls b).Sound := by
  induction calls generalizing b with
  | nil => exact h
  | cons c rest ih =>
    rw [List.forall_mem_cons] at hsafe
    exact ih hsafe.2 (sound_run hsafe.1 h)

end CompileCall

/-- After every call of a sequence on an empty body, the body is well formed and holds all that was
in it before the call. -/
theorem runAll_wellFormed_extendedBy {calls : List CompileCall} {c : CompileCall}
    (hsafe : ∀ c' ∈ calls ++ [c], c'.LabelSafe) :
    (CompileCall.runAll (calls ++ [c]) {}).WellFormed ∧
      (CompileCall.runAll calls {}).ExtendedBy (CompileCall.runAll (calls ++ [c]) {}) := by
  have hempty : ({} : MethodBody).Sound := ⟨rfl, by decide, List.nodup_nil, by simp⟩
  refine ⟨(CompileCall.sound_runAll hsafe hempty).wellFormed, ?_⟩
  unfold CompileCall.runAll
  rw [List.foldl_append]
  exact c.extendedBy_run _

/-- Three blocks, the first of them with a filter. -/
def filteredReturn : Routine where
  declarations := [.unnamed ⟨0⟩ .object]
  graph := {
    blocks := [
      [.expression (.instruction [{ opcode := .leave, operand := .block 2 }] [] none .void)],
      [.expression (.instruction [{ opcode := .leave, operand := .block 2 }] [] none .void)],
      [.expression (.instruction [{ opcode := .ret }] [] none .void)]]
    edges := [⟨0, 1, .exceptional⟩, ⟨0, 2, .branch⟩, ⟨1, 2, .branch⟩]
    edges_inside := by decide }
  entry := 0
  frames := [⟨1, [0], [1], none⟩]
  returnsValue := false

def plainCall (r : Routine) : CompileCall :=
  ⟨Unit, plainServices, (), {}, r⟩

/-- The filter, and the filter with an entry that is no block. The second call fails and leaves its
variable behind. -/
def filteredCalls : List CompileCall :=
  [plainCall filteredReturn,
    plainCall { filteredReturn with declarations := [.unnamed ⟨1⟩ .object], entry := 7 }]

theorem filteredCalls_wellFormed_extendedBy : ∃ before after : MethodBody,
    CompileCall.runAll filteredCalls {} = before ∧
    CompileCall.runAll
      (filteredCalls ++ [plainCall { filteredReturn with declarations := [] }]) {} = after ∧
    before.instructions.length = 6 ∧ before.locals.entries.size = 2 ∧
    after.instructions.length = 12 ∧ after.handlers.length = 2 ∧
    after.WellFormed ∧ before.ExtendedBy after := by
  have hparts : ∀ e ∈ filteredReturn.parts,
      (∀ i ∈ e.template, i.label = none) ∧ e.flags = none := by
    decide
  have hsafe : ∀ c ∈ filteredCalls ++ [plainCall { filteredReturn with declarations := [] }],
      c.LabelSafe := by
    have hcall : ∀ declarations entry,
        (plainCall { filteredReturn with declarations, entry }).LabelSafe := by
      intro declarations entry e he
      exact Expr.labelSafe_of_no_flags (hparts e he).2 (hparts e he).1 _
    intro c hc
    simp only [filteredCalls, List.cons_append, List.nil_append, List.mem_cons, List.not_mem_nil,
      or_false] at hc
    rcases hc with rfl | rfl | rfl
    all_goals exact hcall _ _
  obtain ⟨hwell, hextended⟩ := runAll_wellFormed_extendedBy hsafe
  exact ⟨_, _, rfl, rfl, rfl, rfl, rfl, rfl, hwell, hextended⟩

end CilBackend
