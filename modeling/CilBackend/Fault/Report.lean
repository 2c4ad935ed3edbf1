import CilBackend.Fault.Diagnostic
import CilBackend.Text.Blank
import CilBackend.Text.Lines

/-!
# Reports

A diagnostic drawn for the terminal: the offending node on a source line of its own, underlined
from end to end, with the headline hanging from the middle of the underline.
-/

namespace CilBackend.Report

/-- Terminal colours: the default one, a basic colour or an entry of the large palette. -/
inductive Colour where
  | default
  | basic (code : Nat)
  | palette (index : Nat)

structure Span where
  colour : Colour
  text : String

abbrev Line := List Span

def plain (text : String) : Span :=
  ⟨.default, text⟩

/-- Frame lines that carry the source. -/
def frame (text : String) : Span :=
  ⟨.palette 246, text⟩

/-- Frame lines beside the underline, arrow and note. -/
def margin (text : String) : Span :=
  ⟨.palette 240, text⟩

/-- The node, its underline and the arrow. -/
def mark (text : String) : Span :=
  ⟨.palette 155, text⟩

def noteTitle (text : String) : Span :=
  ⟨.palette 115, text⟩

/-- Drawn character by character, so that each has a colour of its own. -/
def marks (text : String) : List Span :=
  text.toList.map fun c => mark (String.singleton c)

def blanks (n : Nat) : String :=
  String.ofList (List.replicate n ' ')

def dashes (n : Nat) : String :=
  String.ofList (List.replicate n '─')

/-- An underline of `width` columns with a tee in its middle; an empty node has a bare stem. -/
def underline (width : Nat) : Line :=
  if width = 0 then marks "│" ++ [plain " "]
  else marks (dashes (width / 2) ++ "┬" ++ dashes (width - width / 2 - 1)) ++ [plain "  "]

/-- The arrow starts below the tee and ends one column behind the underline. -/
def arrow (width : Nat) : Line :=
  plain (blanks (width / 2)) :: marks ("╰" ++ dashes (width + 1 - width / 2))

def besideMargin (content : Line) : Line :=
  [plain " ", margin "  │", plain " "] ++ content

/-- A note under its title. Further lines stand below the first one; an empty note has not even
the title. -/
def titled (note : List String) : List Line :=
  match note with
  | [] => []
  | first :: others =>
    besideMargin [noteTitle "Note", plain (": " ++ first)] ::
      others.map fun line => besideMargin [plain (blanks 6 ++ line)]

def noteLines (d : Diagnostic) : List Line :=
  match d.cause with
  | none => []
  | some _ => besideMargin [] :: titled (Text.lines d.explanation)

/-- A character of the node as the source line shows it: all blanks look alike. -/
def shown (c : Char) : Char :=
  if Text.isBlank c then ' ' else c

def lines (d : Diagnostic) : List Line :=
  let width := d.node.length
  [[⟨.basic 31, "Error:"⟩, plain (" " ++ d.headline)],
   [plain "   ", frame "╭", frame "─", frame "[", plain " <ast>:1:1 ", frame "]"],
   [plain "   ", frame "│"],
   [plain " ", frame "1 │", plain " "] ++ marks (String.ofList (d.node.toList.map shown)),
   besideMargin (underline width),
   besideMargin (arrow width ++ [plain (" " ++ d.headline)])] ++
  noteLines d ++
  [[frame "───╯"]]

def escapeSequence (code : String) : String :=
  "\x1b[" ++ code ++ "m"

def Span.coloured (s : Span) : String :=
  match s.colour with
  | .default => s.text
  | .basic code => escapeSequence (toString code) ++ s.text ++ escapeSequence "0"
  | .palette index =>
    escapeSequence ("38;5;" ++ toString index) ++ s.text ++ escapeSequence "0"

/-- The report with or without colours; every line ends with a line feed. -/
def render (colours : Bool) (d : Diagnostic) : String :=
  String.join ((lines d).map fun line =>
    String.join (line.map fun s => if colours then s.coloured else s.text) ++ "\n")

end CilBackend.Report
