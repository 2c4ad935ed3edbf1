import CilBackend.Code.Label
import CilBackend.Metadata.Signature
import CilBackend.Text.Hex

/-!
# Exception handlers

A row of a method's handler table: the protected range, the range of the handler and what the
handler reacts to.
-/

namespace CilBackend

/-- A place in the code: its label and, after placing, its offset. -/
structure Anchor where
  label : Label
  offset : UInt32
deriving DecidableEq

/-- The name of an offset in listings. -/
def offsetText (offset : UInt32) : String :=
  "IL_" ++ Text.hexPadded 4 offset.toNat

def Anchor.text (a : Anchor) : String :=
  offsetText a.offset

inductive HandlerKind where
  | catch
  | filter
  | fault
  | finally
deriving DecidableEq

def HandlerKind.text : HandlerKind → String
  | .catch => "catch"
  | .filter => "filter"
  | .fault => "fault"
  | .finally => "finally"

/-- All ranges run from their start up to, and without, their end. -/
structure Handler where
  kind : HandlerKind
  tryStart : Anchor
  tryEnd : Anchor
  handlerStart : Anchor
  handlerEnd : Anchor
  catchType : Option TypeName
  filterStart : Option Anchor
deriving DecidableEq

namespace Handler

/-- The clause between the two ranges. A type is shown with `catch` and a start with `filter`. -/
def clauseText (h : Handler) : String :=
  match h.kind, h.catchType, h.filterStart with
  | .catch, some type, _ => "catch " ++ type.fullName
  | .filter, _, some start => "filter " ++ start.text
  | kind, _, _ => kind.text

def text (h : Handler) : String :=
  ".try " ++ h.tryStart.text ++ " to " ++ h.tryEnd.text ++ " " ++ h.clauseText ++
    " handler " ++ h.handlerStart.text ++ " to " ++ h.handlerEnd.text

end Handler

end CilBackend
