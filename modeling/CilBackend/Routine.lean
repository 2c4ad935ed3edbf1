import CilBackend.Body.Handler
import CilBackend.Routine.ExprText
import CilBackend.Routine.Graph

/-!
# Routines

A recovered method: its variables, its graph with the entry block and its exception frames.
-/

namespace CilBackend

/-- Kinds of exception frames are numbered. -/
def HandlerKind.ofFrameKind? : Nat → Option HandlerKind
  | 0 => some .catch
  | 1 => some .filter
  | 2 => some .fault
  | 3 => some .finally
  | _ => none

/-- The blocks that a handler protects and the blocks of the handler itself. -/
structure Frame where
  kind : Nat
  tryBody : List BlockId
  handlerBody : List BlockId
  catchType : Option TypeName

/-- Whether going from one block to another leaves one of the two regions of the frame. -/
def Frame.isLeftBy (f : Frame) (source target : BlockId) : Bool :=
  (f.tryBody.contains source && !f.tryBody.contains target) ||
    (f.handlerBody.contains source && !f.handlerBody.contains target)

structure Routine where
  declarations : List Variable
  graph : Graph
  entry : BlockId
  frames : List Frame
  returnsValue : Bool

/-- The text of a block; a number without a block is shown as it is. -/
def Routine.blockText (r : Routine) (describe : SyntaxNode → String) (block : BlockId) : String :=
  match r.graph.blocks[block]? with
  | some b => describe (.block b)
  | none => "<block " ++ toString block ++ ">"

end CilBackend
