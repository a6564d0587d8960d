import Patchwork.Source.Expression
import Patchwork.Source.Scan

/-!
# Programs from texts

Definitions first, then one expression and perhaps a semicolon behind it. The name of a dye cannot
be bound, since it would always be read as a color.
-/

namespace Patchwork

def DeclaredKind.ofToken? : Token.Kind → Option DeclaredKind
  | .rect => some .rect
  | .design => some .design
  | .number => some .number
  | .color => some .color
  | .angle => some .angle
  | _ => none

namespace Reading

/-- A name that can be bound. -/
def binder : Reading String := do
  let tokens ← get
  let t ← expect .identifier
  if isDyeName t.text then throw ⟨.colorAsName t.text, tokens⟩
  else return t.text

section Definitions

variable (expr : Reading Expr)

def parameters : Reading (List String) := do
  if ← skip? .rightParen then return []
  else
    let (first, others) ← separated .comma binder
    discard (expect .rightParen)
    return first :: others

def function : Reading Definition := do
  advance
  let name ← binder
  discard (expect .leftParen)
  let xs ← parameters
  discard (expect .equal)
  let body ← expr
  discard (expect .semicolon)
  return .function name xs body

/-- A name, its value and the semicolon. -/
def binding : Reading (String × Expr) := do
  let name ← binder
  discard (expect .equal)
  let value ← expr
  discard (expect .semicolon)
  return (name, value)

def declared (kind : DeclaredKind) : Reading Definition := do
  advance
  let (name, value) ← binding expr
  return .declared kind name value

def assigned : Reading Definition := do
  let (name, value) ← binding expr
  return .assigned name value

/-- What the next two tokens begin. A word for a kind starts a declaration only in front of an
identifier, and an identifier an assignment only in front of an equals sign. -/
def nextDefinition? (tokens : List Token) : Option (Reading Definition) :=
  match tokens with
  | t :: following =>
    if t.kind = .function then some (function expr)
    else
      match following with
      | u :: _ =>
        if u.kind = .identifier then (DeclaredKind.ofToken? t.kind).map (declared expr)
        else if t.kind = .identifier && u.kind = .equal then some (assigned expr)
        else none
      | [] => none
  | [] => none

/-- Definitions as long as one comes next. Each takes a token at least, so that there are no more of
them than tokens ahead. -/
def definitions (ahead : List Token) : Reading (List Definition) :=
  match ahead with
  | [] => pure []
  | _ :: ahead => do
    match nextDefinition? expr (← get) with
    | some definition =>
      let first ← definition
      let others ← definitions ahead
      return first :: others
    | none => return []

/-- Definitions alone are no program. -/
def more : Reading Unit := do
  match ← peek with
  | some _ => return ()
  | none => fail .noDesign

/-- Nothing follows the goal. -/
def finish : Reading Unit := do
  match ← peek with
  | some t => fail (.trailing t.text)
  | none => return ()

def program : Reading Program := do
  let ds ← definitions expr (← get)
  more
  let goal ← expr
  discard (skip? .semicolon)
  finish
  return ⟨ds, goal⟩

end Definitions

end Reading

/-- Reads a whole list of tokens with at most `maxDepth` levels of nesting. -/
def Program.ofTokens (maxDepth : Nat) (tokens : List Token) : Except SyntaxFault Program :=
  match (Reading.program (Reading.expression maxDepth)).run tokens with
  | .ok (program, _) => .ok program
  | .error failure => .error (failure.locate tokens)

def Program.ofText (maxDepth : Nat) (text : String) : Except SyntaxFault Program := do
  let tokens ← scan text
  Program.ofTokens maxDepth tokens

end Patchwork
