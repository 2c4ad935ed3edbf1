import CilBackend.Proofs.GaugeRuns
import CilBackend.Proofs.Meaning
import CilBackend.Proofs.StackDepth

/-!
# Balance of lowered expressions

A template is checked alone, from the depth that the types of its arguments declare. The gauge then
accepts the whole code of an expression from every depth from which the depths on the way fit, and
ends at the depth that the type of the expression declares, although it reads the code from top to
bottom and follows no jump.
-/

namespace CilBackend

variable {σ : Type}

/-- Read from top to bottom from depth `d` on, the code finds everywhere the values that it takes
and ends at depth `final`. -/
def Gauges (returnsValue : Bool) (d : Int) (code : List Instruction) (final : Int) : Prop :=
  Sustains d (stackEffects returnsValue code) ∧ d + netSum (stackEffects returnsValue code) = final

section

variable {returnsValue : Bool} {d e final : Int} {a b code : List Instruction}

@[simp] lemma gauges_nil : Gauges returnsValue d [] final ↔ d = final := by
  simp [Gauges, Sustains]

@[simp] lemma gauges_cons {i : Instruction} : Gauges returnsValue d (i :: code) final ↔
    ((i.stackEffect returnsValue).pops : Int) ≤ d ∧
      Gauges returnsValue (d + (i.stackEffect returnsValue).net) code final := by
  rw [Gauges, Gauges, stackEffects_cons, netSum_cons, Sustains, and_assoc, Int.add_assoc]

namespace Gauges

lemma append (ha : Gauges returnsValue d a e) (hb : Gauges returnsValue e b final) :
    Gauges returnsValue d (a ++ b) final := by
  induction a generalizing d with
  | nil =>
    rw [gauges_nil.mp ha]
    exact hb
  | cons i rest ih =>
    obtain ⟨hpops, hrest⟩ := gauges_cons.mp ha
    exact gauges_cons.mpr ⟨hpops, ih hrest⟩

/-- More values below the code stay there. -/
lemma above (h : Gauges returnsValue d code final) {below : Int} (hbelow : 0 ≤ below) :
    Gauges returnsValue (below + d) code (below + final) := by
  induction code generalizing d with
  | nil => rw [gauges_nil.mp h, gauges_nil]
  | cons i rest ih =>
    obtain ⟨hpops, hrest⟩ := gauges_cons.mp h
    rw [gauges_cons, Int.add_assoc]
    exact ⟨by omega, ih hrest⟩

end Gauges

/-- Where jumps keep to the depths on the way from top to bottom, the gauge measures these. -/
lemma Fits.gauges {outer : Label → Prop} (h : Fits returnsValue outer d code final) :
    Gauges returnsValue d code final := by
  induction code generalizing d with
  | nil => exact gauges_nil.mpr h
  | cons i rest ih =>
    obtain ⟨hpops, -, hrest⟩ := h
    exact gauges_cons.mpr ⟨hpops, ih hrest⟩

end

namespace Scope

/-- A conversion replaces the value that stands in front of it. -/
lemma unbox_gauges {returnsValue : Bool} {value : Expr} {target type : Signature}
    {code conversion : List Instruction} {d : Int}
    (hunbox : (Expr.unbox value target type).HasValue)
    (hcode : Gauges returnsValue d code (d + value.netEffect))
    (hconversion : Gauges returnsValue (d + 1) conversion (d + 1)) :
    Gauges returnsValue d (code ++ conversion) (d + (Expr.unbox value target type).netEffect) := by
  have hvoid : (Expr.unbox value target type).type.isVoid = false := hunbox.1
  rw [Expr.netEffect_eq_one hunbox.2] at hcode
  rw [Expr.netEffect_eq_one hvoid]
  exact hcode.append hconversion

/-- From any depth on, the gauge ends where the type of the expression says. -/
theorem exprCode_gauges (scope : Scope σ) (hnet : scope.checkNet = true)
    (himport : scope.services.KeepsCounts) :
    (∀ e s code s', scope.exprCode e s = .ok code s' →
      (∀ x ∈ e.parts, x.flags = none ∧ x.HasValue) →
      ∀ d : Int, 0 ≤ d → Gauges scope.returnsValue d code (d + e.netEffect)) ∧
    ∀ es s codes s', scope.exprCodes es s = .ok codes s' →
      (∀ x ∈ Expr.partsOfAll es, x.flags = none ∧ x.HasValue) →
      ∀ d : Int, 0 ≤ d → Gauges scope.returnsValue d codes.flatten (d + Expr.netEffects es) := by
  apply scope.exprCode_induction
    (fun e _ code _ => (∀ x ∈ e.parts, x.flags = none ∧ x.HasValue) →
      ∀ d : Int, 0 ≤ d → Gauges scope.returnsValue d code (d + e.netEffect))
    (fun es _ code _ => (∀ x ∈ Expr.partsOfAll es, x.flags = none ∧ x.HasValue) →
      ∀ d : Int, 0 ≤ d → Gauges scope.returnsValue d code (d + Expr.netEffects es))
  case var =>
    intro id type slot s _ hparts d hd
    have hvalue : (Expr.var id type).type.isVoid = false := (hparts _ (Expr.self_mem_parts _)).2
    rw [Expr.netEffect_eq_one hvalue, gauges_cons, gauges_nil]
    exact ⟨hd, rfl⟩
  case object =>
    intro value target type s code t ih _ _ hparts d hd
    have hcode := ih (fun x hx => hparts x (List.mem_cons_of_mem _ hx)) d hd
    have hconversion := objectCode_fits himport (fun _ => False) t (d := d + 1) (by omega)
    exact unbox_gauges (hparts _ (Expr.self_mem_parts _)).2 hcode hconversion.gauges
  case typed =>
    intro value target type s code t name ih _ _ hparts d hd
    have hcode := ih (fun x hx => hparts x (List.mem_cons_of_mem _ hx)) d hd
    have hconversion := typedCode_fits himport (fun _ => False) name t (d := d + 1) (by omega)
    exact unbox_gauges (hparts _ (Expr.self_mem_parts _)).2 hcode hconversion.gauges
  case plain =>
    intro template arguments type node s code t resolved ih _ hcheck hparts d hd
    have harguments := ih (fun x hx => hparts x (List.mem_cons_of_mem _ hx)) d hd
    -- The check started with nothing below the values of the arguments.
    obtain ⟨depth, g, hinitial, hrun, hfinal⟩ := checkTemplate_eq_ok.mp hcheck
    obtain ⟨hsustains, -, hdepth⟩ := StackGauge.runFrom_eq_ok hrun
    have htemplate : Gauges scope.returnsValue depth.toInt resolved _ :=
      ⟨hsustains, hdepth.symm.trans (hfinal hnet)⟩
    rw [hinitial] at htemplate
    exact harguments.append (htemplate.above hd)
  case unary =>
    intro template argument update type node s code t resolved _ _ result services _ hparts
    exact absurd (hparts _ (Expr.self_mem_parts _)).1 (Option.some_ne_none update)
  case binary =>
    intro template left right update type node s code t code' u resolved _ _ _ result services _
      hparts
    exact absurd (hparts _ (Expr.self_mem_parts _)).1 (Option.some_ne_none update)
  case nil =>
    intro s _ d _
    rw [gauges_nil, Expr.netEffects, Int.add_zero]
  case cons =>
    intro e rest s code t codes u ihe ihrest hparts d hd
    rw [Expr.partsOfAll_cons] at hparts
    have hfirst := ihe (fun x hx => hparts x (List.mem_append_left _ hx)) d hd
    have hnonneg := e.netEffect_nonneg
    have hrest := ihrest (fun x hx => hparts x (List.mem_append_right _ hx)) (d + e.netEffect)
      (by omega)
    rw [Expr.netEffects, ← Int.add_assoc]
    exact hfirst.append hrest

end Scope

namespace Gauges

variable {returnsValue : Bool} {d : Int64} {code : List Instruction} {final : Int}

/-- With the values there, only the room for them decides. -/
lemma exists_run_iff (h : Gauges returnsValue d.toInt code final) :
    (∃ g, StackGauge.run returnsValue code (.startingAt d) = .ok () g) ↔
      ∀ k ≤ code.length, depthAfter returnsValue d.toInt code k ≤ gaugeLimit := by
  rw [StackGauge.exists_run_iff_sustains, holds_iff]
  constructor
  · rintro ⟨-, hholds⟩ k hk
    cases k with
    | zero =>
      rw [depthAfter_zero]
      exact StackGauge.depth_le_limit (.startingAt d)
    | succ k =>
      have hi := List.getElem?_eq_getElem hk
      rw [depthAfter_succ hi]
      exact hholds k _ hi
  · intro hfits
    refine ⟨h.1, fun k i hi => ?_⟩
    rw [← depthAfter_succ hi]
    exact hfits (k + 1) (List.getElem?_eq_some_iff.mp hi).1

lemma depth_of_run (h : Gauges returnsValue d.toInt code final) {g : StackGauge}
    (hrun : StackGauge.run returnsValue code (.startingAt d) = .ok () g) :
    g.depth.toInt = final :=
  (StackGauge.runFrom_eq_ok hrun).2.2.trans h.2

lemma error_eq_overflow (h : Gauges returnsValue d.toInt code final) {e : GaugeError}
    {g : StackGauge} (hrun : StackGauge.run returnsValue code (.startingAt d) = .error e g) :
    e = .overflow := by
  obtain ⟨k, i, hi, hstops, -⟩ := StackGauge.run_eq_error_iff.mp hrun
  cases e with
  | overflow => rfl
  | violation cause => exact absurd hstops.1 (Int.not_lt.mpr (sustains_iff.mp h.1 k i hi))

end Gauges

/-- The gauge accepts the code of an expression from every depth that leaves room for the depths on
the way and ends at the depth that the type of the expression declares, if the templates passed the
check of net stack effects and nothing void is loaded or unboxed. It never finds too few values:
without the room it ends with an overflow. -/
theorem exprCode_stackBalanced (scope : Scope σ) (hnet : scope.checkNet = true)
    (himport : scope.services.KeepsCounts) {e : Expr} {s s' : CodeState σ}
    {code : List Instruction} (h : scope.exprCode e s = .ok code s')
    (hflags : ∀ x ∈ e.parts, x.flags = none) (hvalues : ∀ x ∈ e.parts, x.HasValue)
    {d : Int64} (hd : 0 ≤ d.toInt) :
    ((∃ g, StackGauge.run scope.returnsValue code (.startingAt d) = .ok () g) ↔
      ∀ k ≤ code.length, depthAfter scope.returnsValue d.toInt code k ≤ gaugeLimit) ∧
    (∀ g, StackGauge.run scope.returnsValue code (.startingAt d) = .ok () g →
      g.depth.toInt = d.toInt + e.netEffect) ∧
    ∀ error g, StackGauge.run scope.returnsValue code (.startingAt d) = .error error g →
      error = .overflow := by
  have hgauges := (scope.exprCode_gauges hnet himport).1 e s code s' h
    (fun x hx => ⟨hflags x hx, hvalues x hx⟩) d.toInt hd
  exact ⟨hgauges.exists_run_iff, fun g => hgauges.depth_of_run,
    fun error g => hgauges.error_eq_overflow⟩

/-- Compares two variables, each of them unboxed, and branches in the middle of the second
argument. -/
def guardedComparison : Expr :=
  .instruction [{ opcode := .ceq }]
    [.unbox (.var ⟨0⟩ .object) .object .object,
      .instruction [{ opcode := .dup }, { opcode := .brtrue, operand := .label ⟨9⟩ }]
        [.unbox (.var ⟨1⟩ .object) .int32 .object] none .object]
    none .bool

/-- Above three values there is room for the comparison, above the greatest number of them none. -/
theorem guardedComparison_stackBalanced : ∃ code s' g,
    twoObjects.exprCode guardedComparison ⟨⟨0⟩, ()⟩ = .ok code s' ∧ code.length = 17 ∧
      StackGauge.run false code (.startingAt 3) = .ok () g ∧ g.depth.toInt = 4 ∧
      ¬ ∃ g, StackGauge.run false code (.startingAt Int64.maxValue) = .ok () g := by
  obtain ⟨code, s', hcode, hlength, hroom, hfull⟩ : ∃ code s',
      twoObjects.exprCode guardedComparison ⟨⟨0⟩, ()⟩ = .ok code s' ∧ code.length = 17 ∧
        (∀ k ≤ code.length, depthAfter false 3 code k ≤ gaugeLimit) ∧
        gaugeLimit < depthAfter false Int64.maxValue.toInt code 1 :=
    ⟨_, _, rfl, rfl, by decide, by decide⟩
  obtain ⟨hfits, hdepth, -⟩ := exprCode_stackBalanced twoObjects rfl
    (fun _ _ => ⟨rfl, rfl, rfl⟩) hcode (by decide) (by decide) (d := 3) (by decide)
  obtain ⟨hoverfull, -, -⟩ := exprCode_stackBalanced twoObjects rfl
    (fun _ _ => ⟨rfl, rfl, rfl⟩) hcode (by decide) (by decide) (d := Int64.maxValue) (by decide)
  obtain ⟨g, hrun⟩ := hfits.mpr hroom
  refine ⟨code, s', g, hcode, hlength, hrun, hdepth g hrun, fun hsome => ?_⟩
  have hle := hoverfull.mp hsome 1 (by omega)
  exact absurd hfull (Int.not_lt.mpr hle)

/-- The code that loads a variable is well balanced, and from the greatest depth it is not
accepted. -/
theorem variable_overflows_at_limit : ∃ code s',
    twoObjects.exprCode (.var ⟨0⟩ .object) ⟨⟨0⟩, ()⟩ = .ok code s' ∧
      twoObjects.checkNet = true ∧ twoObjects.services.KeepsCounts ∧
      (∀ x ∈ (Expr.var ⟨0⟩ .object).parts, x.flags = none ∧ x.HasValue) ∧
      0 ≤ Int64.maxValue.toInt ∧
      StackGauge.run twoObjects.returnsValue code (.startingAt Int64.maxValue) =
        .error .overflow (.startingAt Int64.maxValue) :=
  ⟨_, _, rfl, rfl, fun _ _ => ⟨rfl, rfl, rfl⟩, by decide, by decide, rfl⟩

end CilBackend
