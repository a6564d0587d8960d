import Patchwork.Source.SyntaxFault

/-!
# Reading tokens

Steps that take tokens from the front of a list. A step that fails names the tokens that were left
where it failed; the first of them is the offending one. The fault is placed there, or at the last
token where the input has ended too early.
-/

namespace Patchwork

structure Reading.Failure where
  cause : SyntaxFault.Cause
  rest : List Token
  deriving DecidableEq, Repr

abbrev Reading := StateT (List Token) (Except Reading.Failure)

namespace Reading

variable {A : Type}

def fail (cause : SyntaxFault.Cause) : Reading A :=
  fun tokens => .error ⟨cause, tokens⟩

def peek : Reading (Option Token) := do
  return (← get).head?

/-- Drops the next token. -/
def advance : Reading Unit :=
  modify List.tail

def nextIs (kind : Token.Kind) : Reading Bool := do
  return (← peek).any fun t => t.kind == kind

/-- Takes a token of the kind if it comes next. -/
def skip? (kind : Token.Kind) : Reading Bool := do
  if ← nextIs kind then
    advance
    return true
  else return false

def expect (kind : Token.Kind) : Reading Token := do
  match ← peek with
  | some t =>
    if t.kind = kind then
      advance
      return t
    else fail (.expected kind (some t.text))
  | none => fail (.expected kind none)

/-- Further items, each behind a separator. Each takes a token at least, so that there are no more
of them than tokens ahead. -/
def further (separator : Token.Kind) (item : Reading A) (ahead : List Token) : Reading (List A) :=
  match ahead with
  | [] => pure []
  | _ :: ahead => do
    if ← skip? separator then
      let a ← item
      let as ← further separator item ahead
      return a :: as
    else return []

/-- One item or more, with separators between them. -/
def separated (separator : Token.Kind) (item : Reading A) : Reading (A × List A) := do
  let a ← item
  let as ← further separator item (← get)
  return (a, as)

/-- The fault of a list of tokens that failed in this way. -/
def Failure.locate (tokens : List Token) (failure : Failure) : SyntaxFault :=
  match failure.rest.head?.or tokens.getLast? with
  | some t => ⟨failure.cause, t.position⟩
  | none => ⟨failure.cause, .start⟩

end Reading

end Patchwork
