import Patchwork.Command.Arguments
import Patchwork.Drafting

/-!
# Running a command

A command reads one text, and either prints the finished design or writes it to a file. Nothing is
printed or written before the design is complete, so a command that fails leaves nothing behind.
-/

namespace Patchwork

namespace Command

/-- What can be wrong with a file. -/
inductive Trouble where
  | missing
  | notDirectory
  | isDirectory
  | nameTooLong
  | notText
  | other (text : String)
  deriving DecidableEq, Repr

def Trouble.message : Trouble → String
  | missing => "No such file or directory (os error 2)"
  | notDirectory => "Not a directory (os error 20)"
  | isDirectory => "Is a directory (os error 21)"
  | nameTooLong => "File name too long (os error 36)"
  | notText => "stream did not contain valid UTF-8"
  | other text => text

/-- Where a command runs: what it asks of the system. -/
structure Host (m : Type → Type) where
  input : m (Except Trouble ByteArray)
  readFile : String → m (Except Trouble ByteArray)
  writeFile : String → String → m (Except Trouble Unit)

structure Outcome where
  code : Nat
  output : String
  /-- What is said about a failure. -/
  report : String
  deriving DecidableEq, Repr

namespace Outcome

def printed (text : String) : Outcome :=
  ⟨0, text, ""⟩

def silent : Outcome :=
  ⟨0, "", ""⟩

def failed (message : String) : Outcome :=
  ⟨1, "", "Error: " ++ message ++ "\n"⟩

def misused : Outcome :=
  ⟨2, "", "error: the command line was not understood\n"⟩

end Outcome

def versionText : String :=
  "quilt 0.1.0\n"

def hint : String :=
  "quilt - evaluate a quilt file, e.g.: quilt design.quilt --format svg\n"

def trimmedEnd (text : String) : String :=
  String.ofList (text.toList.reverse.dropWhile Char.isWhitespace).reverse

def troubleText (doing : String) (trouble : Trouble) : String :=
  doing ++ "\n\nCaused by:\n    " ++ trouble.message

def decode (bytes : ByteArray) : Except Trouble String :=
  match String.fromUTF8? bytes with
  | some text => .ok text
  | none => .error .notText

/-- The written design of a text, or what is said about its failure. -/
def Options.render (options : Options) (text : String) : Except String String :=
  match designOfText (K := Float) options.limits text with
  | .ok d => .ok (d.render options.style)
  | .error failure => .error failure.message

variable {m : Type → Type} [Monad m]

/-- The text of a file, where a dash stands for the standard input. -/
def Host.source (host : Host m) (file : String) : m (Except String String) := do
  if file = "-" then
    let found ← host.input
    return (found.bind decode).mapError (troubleText "reading stdin")
  else
    let found ← host.readFile file
    return (found.bind decode).mapError (troubleText ("reading " ++ file))

/-- Puts a finished text where it was asked for. What is printed ends in one line break. -/
def Host.deliver (host : Host m) (output : Option String) (text : String) : m Outcome := do
  match output with
  | none => return .printed (trimmedEnd text ++ "\n")
  | some path =>
    match ← host.writeFile path text with
    | .ok () => return .silent
    | .error trouble => return .failed (troubleText ("writing " ++ path) trouble)

def Host.evaluate (host : Host m) (options : Options) (file : String) : m Outcome := do
  match ← host.source file with
  | .error message => return .failed message
  | .ok source =>
    match options.render source with
    | .error message => return .failed message
    | .ok text => host.deliver options.output text

/-- What is done once the command line has been read. -/
def Host.perform (host : Host m) (reading : Except Stop Options) : m Outcome := do
  match reading with
  | .error .version => return .printed versionText
  | .error .misused => return .misused
  | .ok options =>
    match options.file with
    | none => return .printed hint
    | some file => host.evaluate options file

def run (host : Host m) (environment : String → Option String) (words : List String) :
    m Outcome :=
  host.perform (Options.read environment words)

end Command

end Patchwork
