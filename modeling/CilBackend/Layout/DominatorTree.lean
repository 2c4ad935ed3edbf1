import CilBackend.Layout.Reach

/-!
# Dominator trees

A block strictly dominates those blocks that the entry no longer reaches when the block is taken
away. Its children in the tree are the blocks that it strictly dominates with no third block
between them.
-/

namespace CilBackend

/-- For every block a row of marks for the blocks that it strictly dominates. -/
structure DominatorTree where
  rows : Array (Array Bool)

namespace DominatorTree

def ofGraph (g : Graph) (entry : BlockId) : DominatorTree :=
  let neighbours := (g.nodes.map g.neighbours).toArray
  ⟨(g.nodes.map fun b => g.unseenFrom (fun c => neighbours.getD c []) entry (· != b)).toArray⟩

/-- Whether `block` strictly dominates `other`. -/
def dominates (t : DominatorTree) (block other : BlockId) : Bool :=
  (t.rows.getD block #[]).getD other false

/-- Whether `parent` is the immediate dominator of `child` among `nodes`. -/
def isParent (t : DominatorTree) (nodes : List BlockId) (parent child : BlockId) : Bool :=
  t.dominates parent child && nodes.all fun b => !(t.dominates parent b && t.dominates b child)

end DominatorTree

end CilBackend
