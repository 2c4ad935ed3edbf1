import CilBackend.Text.Hex
import CilBackend.Text.Ranges
import CilBackend.Text.GraphemeExtend
import CilBackend.Text.DefaultIgnorable
import CilBackend.Text.Unprintable

/-!
# Quoted text

A string between double quotes, in which every character that would not show as itself is
written as an escape.
-/

namespace CilBackend.Text

/-- The halfwidth sound marks. They extend a grapheme, but are letters that take a column of their
own. -/
def isSpacingExtender (c : Char) : Bool :=
  inRanges [(0xFF9E, 0xFF9F)] c

/-- Whether a character shows as itself, standing alone. -/
def showsAsItself (c : Char) : Bool :=
  if c.toNat < 127 then 32 ≤ c.toNat
  else if inRanges graphemeExtendRanges c then isSpacingExtender c
  else !inRanges defaultIgnorableRanges c && !inRanges unprintableRanges c

/-- Short escapes for the characters that have one, code points in hexadecimal for the others. -/
def escape (c : Char) : List Char :=
  match c with
  | '\x00' => ['\\', '0']
  | '\t' => ['\\', 't']
  | '\r' => ['\\', 'r']
  | '\n' => ['\\', 'n']
  | '"' => ['\\', '"']
  | '\\' => ['\\', '\\']
  | c =>
    if showsAsItself c then [c]
    else ['\\', 'u', '\x7b'] ++ hexDigits c.toNat ++ ['\x7d']

def quoted (s : String) : String :=
  String.ofList (['"'] ++ s.toList.flatMap escape ++ ['"'])

end CilBackend.Text
