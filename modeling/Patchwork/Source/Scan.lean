import Patchwork.Source.SyntaxFault

/-!
# Scanning

A text is cut from left to right into blanks, comments and tokens, each piece as long as it can be.
Only the tokens are kept. The first place where no piece starts, or where a hex color of a wrong
length starts, is a fault of the text.
-/

namespace Patchwork

namespace Scan

def isBlank (c : Char) : Bool :=
  c == ' ' || c == '\t' || c == '\r' || c == '\n'

def isInLine (c : Char) : Bool :=
  c != '\n'

def isInString (c : Char) : Bool :=
  c != '"' && c != '\n'

def isHexDigit (c : Char) : Bool :=
  c.isDigit || ('a' ≤ c && c ≤ 'f') || ('A' ≤ c && c ≤ 'F')

def isWordStart (c : Char) : Bool :=
  c.isAlpha || c == '_'

def isWordPart (c : Char) : Bool :=
  c.isAlphanum || c == '_'

inductive PieceKind where
  | blank
  | comment
  | token (kind : Token.Kind)
  deriving DecidableEq, Repr

/-- A piece at the front of a text, and the text behind it. -/
structure Piece where
  kind : PieceKind
  text : List Char
  rest : List Char
  deriving DecidableEq, Repr

/-- The piece that goes on with all following characters of a class. -/
def run (kind : PieceKind) (opening : List Char) (p : Char → Bool) (cs : List Char) : Piece :=
  ⟨kind, opening ++ cs.takeWhile p, cs.dropWhile p⟩

/-- A comment behind its first slash, up to the end of the line. -/
def comment? : List Char → Option Piece
  | '/' :: cs => some (run .comment ['/', '/'] isInLine cs)
  | _ => none

/-- A string behind its first quote. It ends in the line it starts in. -/
def string? (cs : List Char) : Option Piece :=
  match cs.dropWhile isInString with
  | '"' :: rest => some ⟨.token .string, '"' :: cs.takeWhile isInString ++ ['"'], rest⟩
  | _ => none

/-- A hex color behind its sign. Any number of digits is taken, so that a wrong number shows. -/
def hex? (cs : List Char) : Option Piece :=
  match cs.takeWhile isHexDigit with
  | [] => none
  | _ => some (run (.token .hex) ['#'] isHexDigit cs)

/-- A keyword is a word of its own: with more letters behind it, it is an identifier. -/
def word (c : Char) (cs : List Char) : Piece :=
  run (.token (Token.Kind.ofWord (String.ofList (c :: cs.takeWhile isWordPart)))) [c] isWordPart cs

def mark? (c : Char) (cs : List Char) : Option Piece :=
  (Token.Kind.ofMark? c).map fun kind => ⟨.token kind, [c], cs⟩

/-- The piece that starts with `c`. No two of the classes of first characters overlap. -/
def piece? (c : Char) (cs : List Char) : Option Piece :=
  if isBlank c then some (run .blank [c] isBlank cs)
  else if c = '/' then comment? cs
  else if c = '"' then string? cs
  else if c = '#' then hex? cs
  else if c.isDigit then some (run (.token .integer) [c] Char.isDigit cs)
  else if isWordStart c then some (word c cs)
  else mark? c cs

/-- What is shown where no piece starts: a string that is not closed in its line, or one
character. -/
def stray (c : Char) (cs : List Char) : List Char :=
  if c = '"' then c :: cs.takeWhile isInString else [c]

theorem length_dropWhile_le (p : Char → Bool) (cs : List Char) :
    (cs.dropWhile p).length ≤ cs.length :=
  (List.dropWhile_suffix p).length_le

theorem length_comment? {cs : List Char} {piece : Piece} (h : comment? cs = some piece) :
    piece.rest.length ≤ cs.length := by
  unfold comment? at h
  split at h
  · cases h
    exact Nat.le_succ_of_le (length_dropWhile_le _ _)
  · cases h

theorem length_string? {cs : List Char} {piece : Piece} (h : string? cs = some piece) :
    piece.rest.length ≤ cs.length := by
  unfold string? at h
  split at h
  · next rest hr =>
    cases h
    have := length_dropWhile_le isInString cs
    simp only [hr, List.length_cons] at this
    simp only
    omega
  · cases h

theorem length_hex? {cs : List Char} {piece : Piece} (h : hex? cs = some piece) :
    piece.rest.length ≤ cs.length := by
  unfold hex? at h
  split at h
  · cases h
  · cases h
    exact length_dropWhile_le _ _

theorem length_mark? {c : Char} {cs : List Char} {piece : Piece} (h : mark? c cs = some piece) :
    piece.rest.length ≤ cs.length := by
  obtain ⟨kind, _, rfl⟩ := Option.map_eq_some_iff.1 h
  exact Nat.le_refl _

/-- A piece holds its first character, so less is left behind it. -/
theorem length_piece? {c : Char} {cs : List Char} {piece : Piece} (h : piece? c cs = some piece) :
    piece.rest.length ≤ cs.length := by
  unfold piece? at h
  split at h
  · cases h; exact length_dropWhile_le _ _
  split at h
  · exact length_comment? h
  split at h
  · exact length_string? h
  split at h
  · exact length_hex? h
  split at h
  · cases h; exact length_dropWhile_le _ _
  split at h
  · cases h; exact length_dropWhile_le _ _
  · exact length_mark? h

/-- A hex color has three or six digits behind its sign. -/
def isWellSized (piece : Piece) : Bool :=
  piece.kind != .token .hex || piece.text.length == 4 || piece.text.length == 7

/-- The tokens with a piece in front of them. -/
def keep (piece : Piece) (p : Position) (tokens : List Token) : List Token :=
  match piece.kind with
  | .token kind => ⟨kind, String.ofList piece.text, p⟩ :: tokens
  | _ => tokens

/-- Scans a text that starts at `p`. The tokens before it are in `earlier`, the last one first. -/
def scanFrom (p : Position) (cs : List Char) (earlier : List Token) :
    Except SyntaxFault (List Token) :=
  match cs with
  | [] => .ok earlier.reverse
  | c :: cs =>
    match _ : piece? c cs with
    | none => .error ⟨.strayCharacter (String.ofList (stray c cs)), p⟩
    | some piece =>
      if isWellSized piece then
        scanFrom (p.after piece.text) piece.rest (keep piece p earlier)
      else .error ⟨.hexLength (String.ofList piece.text), p⟩
  termination_by cs.length
  decreasing_by
    have := length_piece? ‹piece? c cs = some piece›
    simp only [List.length_cons]
    omega

end Scan

def scan (text : String) : Except SyntaxFault (List Token) :=
  Scan.scanFrom .start text.toList []

end Patchwork
