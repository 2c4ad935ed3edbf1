/-!
# Lines of a text

A line ends with a line feed, or with a carriage return and a line feed. What stands behind the
last line feed is a line too, unless it is empty.
-/

namespace CilBackend.Text

def lineChars : List Char → List (List Char)
  | [] => []
  | '\n' :: rest => [] :: lineChars rest
  | '\r' :: '\n' :: rest => [] :: lineChars rest
  | c :: rest =>
    match lineChars rest with
    | [] => [[c]]
    | line :: others => (c :: line) :: others

def lines (s : String) : List String :=
  (lineChars s.toList).map String.ofList

end CilBackend.Text
