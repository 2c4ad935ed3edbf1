import CilBackend.Routine.Expr

/-!
# Texts of expressions, statements and blocks
-/

namespace CilBackend

/-- A single instruction stands alone, any other number of them in braces. -/
def templateText : List Instruction → String
  | [i] => i.text
  | template => "\x7b" ++ "; ".intercalate (template.map Instruction.text) ++ "\x7d"

def FlagUpdate.text (u : FlagUpdate) : String :=
  " [flags " ++ (if u.inverted then "!" else "") ++ u.flags.text ++ "]"

namespace Expr

mutual

def text : Expr → String
  | instruction template arguments flags _ =>
    templateText template ++
      (if arguments.isEmpty then "" else "(" ++ ", ".intercalate (texts arguments) ++ ")") ++
      (flags.map FlagUpdate.text).getD ""
  | unbox value target _ => "unbox<" ++ target.text ++ ">(" ++ value.text ++ ")"
  | var id _ => id.text

def texts : List Expr → List String
  | [] => []
  | e :: rest => e.text :: texts rest

end

end Expr

def Statement.text : Statement → String
  | expression value => value.text
  | assignment target value => target.text ++ " = " ++ value.text

def Block.text (b : Block) : String :=
  "\x7b" ++ String.join (b.map fun s => " " ++ s.text ++ ";") ++ " \x7d"

def SyntaxNode.text : SyntaxNode → String
  | block b => b.text
  | statement s => s.text
  | expression e => e.text

end CilBackend
