import CilBackend.Fault.Diagnostic
import CilBackend.Proofs.LoweringRuns
import CilBackend.Proofs.Order

/-!
# Child lists

The children of all blocks can be kept in a table with one list for each block: the blocks are gone
through once, and each but the entry is put into the list of its immediate dominator. A walk along
these lists gives the block order. Neither filling the table nor walking along it comes to a number
that has no list, also when the graph turns out to have no order.
-/

namespace CilBackend

/-! ## Tables -/

lemma StrictlyDominates.reachable {successors : BlockId → List BlockId} {entry d n : BlockId}
    (h : StrictlyDominates successors entry d n) (hn : Walk successors (fun _ => True) entry n) :
    Walk successors (fun _ => True) entry d := by
  by_contra hcut
  apply h.2
  clear h
  induction hn with
  | here _ =>
    apply Walk.here
    rintro rfl
    exact hcut (Walk.here trivial)
  | next hwalk hedge _ ih =>
    apply ih.next hedge
    rintro rfl
    exact hcut (hwalk.next hedge trivial)

namespace Graph

variable {g : Graph} {entry : BlockId}

/-- Two immediate dominators of a reachable block are the same, since its dominators form a
chain. -/
lemma ImmediatelyDominates.unique {p q c : BlockId} (hp : g.ImmediatelyDominates entry p c)
    (hq : g.ImmediatelyDominates entry q c) (hc : Walk g.successors (fun _ => True) entry c) :
    p = q := by
  obtain ⟨hplt, -, hpc, hpbetween⟩ := hp
  obtain ⟨hqlt, -, hqc, hqbetween⟩ := hq
  by_contra hne
  rcases hpc.chain hc hqc hne with hpq | hqp
  · exact hpbetween q hqlt ⟨hpq, hqc⟩
  · exact hqbetween p hplt ⟨hqp, hpc⟩

variable (refuse : LayoutError → Failure) {table : Array (List BlockId)} {blocks : List BlockId}

end Graph

end CilBackend
