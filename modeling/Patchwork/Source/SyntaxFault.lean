import Patchwork.Source.Token

/-!
# Faults of a text

Why a text is not a program, and where.
-/

namespace Patchwork

namespace SyntaxFault

/-- In `expected` the text found is missing where the input has ended. -/
inductive Cause where
  | strayCharacter (text : String)
  | hexLength (text : String)
  | expected (kind : Token.Kind) (found : Option String)
  | trailing (text : String)
  | noDesign
  | noAnchor
  | colorAsName (text : String)
  | unexpected (text : String)
  | unexpectedEnd
  | numberTooLarge (text : String)
  | tooDeep (limit : Nat)
  deriving DecidableEq, Repr

def foundText : Option String → String
  | some text => "'" ++ text ++ "'"
  | none => "end of input"

def Cause.message : Cause → String
  | strayCharacter text => "unexpected character '" ++ text ++ "'"
  | hexLength text => "hex color '" ++ text ++ "' must have 3 or 6 digits"
  | expected kind found => "expected " ++ kind.name ++ ", found " ++ foundText found
  | trailing text => "unexpected '" ++ text ++ "' after design expression"
  | noDesign => "expected a design expression"
  | noAnchor => "expected an anchor (TL, TR, BL, BR or C)"
  | colorAsName text => "'" ++ text ++ "' is a color and cannot be used as a name"
  | unexpected text => "unexpected '" ++ text ++ "'"
  | unexpectedEnd => "unexpected end of input"
  | numberTooLarge text => "number '" ++ text ++ "' is too large"
  | tooDeep limit => "nesting too deep (more than " ++ toString limit ++ " levels)"

end SyntaxFault

structure SyntaxFault where
  cause : SyntaxFault.Cause
  position : Position
  deriving DecidableEq, Repr

def SyntaxFault.message (fault : SyntaxFault) : String :=
  "[line " ++ toString fault.position.line ++ ", column " ++ toString fault.position.column ++
    "] " ++ fault.cause.message

end Patchwork
