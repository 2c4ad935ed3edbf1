import CilBackend.Compile.Placement
import CilBackend.Fault.Diagnostic

/-!
# Handler tables

Finds the ranges of exception frames in placed code. A frame is accepted when the range of its
handler comes behind the protected range and the blocks that it lists lie inside their ranges.
-/

namespace CilBackend

/-- Where the protected range ends: at the handler, or right behind the last protected block. -/
inductive TryEnd where
  | handlerStart
  | tryBodyEnd
deriving DecidableEq

/-- The placed blocks of a region and the ones with the lowest and the highest offset. -/
structure RegionBlocks where
  blocks : List PlacedBlock
  lowest : PlacedBlock
  highest : PlacedBlock

/-- The routine, its placed code and how its nodes are shown. -/
structure FrameScope where
  routine : Routine
  placement : Placement
  describe : SyntaxNode → String
  tryEnd : TryEnd

namespace FrameScope

def reject (s : FrameScope) (area : Area) (block : BlockId) (cause : Violation) : Diagnostic :=
  .of area (s.routine.blockText s.describe block) cause

/-- The block of a region; every block of a frame has to be part of the routine. -/
def regionBlock (s : FrameScope) (index : Nat) (region : Region) (block : BlockId) :
    Except Diagnostic PlacedBlock :=
  match s.placement.get? block with
  | some placed => .ok placed
  | none =>
    .error (.of .frame
      ("<" ++ region.name ++ " region of exception frame " ++ toString index ++ ">")
      (.unknownBlock block))

/-- A region has at least one block. -/
def regionBlocks (s : FrameScope) (index : Nat) (region : Region) (blocks : List BlockId) :
    Except Diagnostic RegionBlocks := do
  match ← blocks.mapM (s.regionBlock index region) with
  | [] =>
    throw (.of .frame ("<exception frame " ++ toString index ++ ">") (.emptyRegion index region))
  | b :: rest =>
    return {
      blocks := b :: rest
      lowest := rest.foldl (fun low c => if c.start < low.start then c else low) b
      highest := rest.foldl (fun high c => if high.start < c.start then c else high) b }

def handlerKind (s : FrameScope) (f : Frame) (tryBlocks : RegionBlocks) :
    Except Diagnostic HandlerKind :=
  match HandlerKind.ofFrameKind? f.kind with
  | some kind => .ok kind
  | none => .error (s.reject .frame tryBlocks.lowest.block (.unsupportedFrameKind f.kind))

def tryEndAnchor (s : FrameScope) (tryBlocks handlerBlocks : RegionBlocks) :
    Except Diagnostic Anchor :=
  match s.tryEnd with
  | .handlerStart => .ok handlerBlocks.lowest.header
  | .tryBodyEnd =>
    let last := tryBlocks.highest.block
    match s.placement.after? last with
    | some next => .ok next.header
    | none => .error (s.reject .frame last (.tryEndPastMethodEnd last))

/-- The handler ends where control goes from its last block. -/
def handlerEndAnchor (s : FrameScope) (handlerBlocks : RegionBlocks) : Except Diagnostic Anchor :=
  let last := handlerBlocks.highest.block
  match s.routine.graph.successors last with
  | [successor] =>
    match s.placement.get? successor with
    | some placed => .ok placed.header
    | none => .error (s.reject .graph successor (.unknownBlock successor))
  | successors => .error (s.reject .graph last (.handlerSuccessors last successors.length))

/-- Every block of a region, with the jump at its end, lies inside the range of the region. -/
def checkInside (s : FrameScope) (index : Nat) (region : Region) (r : RegionBlocks)
    (first behind : Anchor) : Except Diagnostic Unit :=
  match r.blocks.find? fun b => b.start < first.offset || behind.offset < b.stop with
  | some b => .error (s.reject .frame b.block (.blockOutsideRegion index region b.block))
  | none => .ok ()

/-- The handler of a frame. The ranges must follow each other: protected blocks, handler, and the
block to which the handler goes. -/
def handler (s : FrameScope) (index : Nat) (f : Frame) : Except Diagnostic Handler := do
  let tryBlocks ← s.regionBlocks index .tryBody f.tryBody
  let handlerBlocks ← s.regionBlocks index .handlerBody f.handlerBody
  let kind ← s.handlerKind f tryBlocks
  let tryStart := tryBlocks.lowest.header
  let handlerStart := handlerBlocks.lowest.header
  let tryEnd ← s.tryEndAnchor tryBlocks handlerBlocks
  let handlerEnd ← s.handlerEndAnchor handlerBlocks
  if tryStart.offset < tryEnd.offset ∧ tryEnd.offset ≤ handlerStart.offset ∧
      handlerStart.offset < handlerEnd.offset then
    s.checkInside index .tryBody tryBlocks tryStart tryEnd
    s.checkInside index .handlerBody handlerBlocks handlerStart handlerEnd
    return {
      kind, tryStart, tryEnd, handlerStart, handlerEnd
      catchType := if kind = .catch then f.catchType else none
      filterStart := if kind = .filter then some handlerStart else none }
  else
    throw (s.reject .frame handlerBlocks.highest.block
      (.regionOrder index tryStart.offset.toNat tryEnd.offset.toNat handlerStart.offset.toNat
        handlerEnd.offset.toNat))

def handlersFrom (s : FrameScope) : Nat → List Frame → Except Diagnostic (List Handler)
  | _, [] => .ok []
  | index, f :: rest => do
    let h ← s.handler index f
    let following ← s.handlersFrom (index + 1) rest
    return h :: following

/-- One handler for each frame, in the order of the frames. -/
def handlers (s : FrameScope) : Except Diagnostic (List Handler) :=
  s.handlersFrom 0 s.routine.frames

end FrameScope

end CilBackend
