/-!
# Sorting

Sorts lists and drops what stands in them twice.
-/

namespace CilBackend

variable {α : Type}

/-- Puts an element in front of the first one that it may precede. -/
def insertSorted (le : α → α → Prop) [DecidableRel le] (a : α) : List α → List α
  | [] => [a]
  | b :: rest => if le a b then a :: b :: rest else b :: insertSorted le a rest

def sortBy (le : α → α → Prop) [DecidableRel le] : List α → List α
  | [] => []
  | a :: rest => insertSorted le a (sortBy le rest)

/-- Keeps one of several equal elements that follow each other. -/
def dropRepeats [DecidableEq α] : List α → List α
  | [] => []
  | [a] => [a]
  | a :: b :: rest => if a = b then dropRepeats (b :: rest) else a :: dropRepeats (b :: rest)

end CilBackend
