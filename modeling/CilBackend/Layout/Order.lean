import CilBackend.Fault.Violation
import CilBackend.Layout.DominatorTree

/-!
# Block order

Blocks are laid out along the dominator tree, parents before children, so that every block comes
after those that dominate it and what a block dominates stays in one piece. Children follow in the
order in which control comes to them from their parent.
-/

namespace CilBackend

/-- Why the blocks of a graph have no order: the entry is no block, or a block is cut off from the
entry. -/
inductive LayoutError where
  | unknownBlock (block : BlockId)
  | unreachableBlock (block : BlockId)
deriving DecidableEq

namespace LayoutError

def block : LayoutError → BlockId
  | unknownBlock block => block
  | unreachableBlock block => block

def violation : LayoutError → Violation
  | unknownBlock block => .unknownBlock block
  | unreachableBlock block => .unreachableBlock block

end LayoutError

/-- How directly control comes along an edge; lower numbers come first. -/
def EdgeKind.rank : EdgeKind → Nat
  | fallThrough => 0
  | exceptional => 1
  | branch => 2

namespace Graph

/-- The lowest rank of the edges from a block to one of its children in the dominator tree. A child
that is reached through other blocks only comes last. -/
def approach (g : Graph) (parent child : BlockId) : Nat :=
  (((g.edgesFrom parent).filter fun e => e.target = child).map fun e => e.kind.rank).min?.getD 3

/-- Children are sorted by their approach, and by their numbers when the approach is the same. -/
def MayPrecede (g : Graph) (parent a b : BlockId) : Prop :=
  g.approach parent a < g.approach parent b ∨ (g.approach parent a = g.approach parent b ∧ a ≤ b)

instance (g : Graph) (parent : BlockId) : DecidableRel (g.MayPrecede parent) :=
  fun a b => inferInstanceAs (Decidable (_ ∨ _ ∧ a ≤ b))

def byApproach (g : Graph) (parent : BlockId) (children : List BlockId) : List BlockId :=
  sortBy (g.MayPrecede parent) children

/-- The blocks that have `parent` as their immediate dominator, in the order of their approach. -/
def children (g : Graph) (tree : DominatorTree) (parent : BlockId) : List BlockId :=
  g.byApproach parent (g.nodes.filter (tree.isParent g.nodes parent))

/-- Puts blocks on a stack, the last one first, so that the first one comes to lie on top. -/
def pushAll (blocks stack : List BlockId) : List BlockId :=
  blocks.reverse.foldl (fun stack block => block :: stack) stack

/-- Takes blocks from the top of a stack until it is empty, and puts the children of each block
there in its place. Every step lists a block, so that as many steps as there are blocks are
enough. -/
def unstack (g : Graph) (tree : DominatorTree) : (steps : Nat) → (stack : List BlockId) →
    List BlockId
  | 0, _ => []
  | _ + 1, [] => []
  | steps + 1, block :: stack =>
    block :: g.unstack tree steps (pushAll (g.children tree block) stack)

/-- The order in which blocks are emitted. The entry must be a block, and every block must be
reachable from it. -/
def order (g : Graph) (entry : BlockId) : Except LayoutError (List BlockId) :=
  if entry < g.size then
    match g.unreachable entry with
    | block :: _ => .error (.unreachableBlock block)
    | [] => .ok (g.unstack (.ofGraph g entry) g.size [entry])
  else
    .error (.unknownBlock entry)

end Graph

end CilBackend
