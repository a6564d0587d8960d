import Patchwork.Decimal.Form
import Patchwork.Decimal.Reader
import Patchwork.Output.Format
import Patchwork.Session

/-!
# Command lines

The words of a command line are read from left to right and each is settled where it stands: asking
for the version ends the reading there, and so does the first word that makes no sense. What the
words leave open is taken from the environment, and then from the defaults.
-/

namespace Patchwork

namespace Command

inductive Setting where
  | format
  | scale
  | output
  | maxDepth
  | maxPatches
  deriving DecidableEq, Repr

namespace Setting

def names : List (String × Setting) :=
  [("format", format), ("scale", scale), ("output", output), ("max-depth", maxDepth),
    ("max-patches", maxPatches)]

def letters : List (Char × Setting) :=
  [('f', format), ('o', output)]

end Setting

/-- What a word of a command line is by its form. A setting may have its value attached. -/
inductive Word where
  | file (name : String)
  | setting (s : Setting) (attached : Option String)
  | debug
  | version
  | filesOnly
  | unknown
  deriving DecidableEq, Repr

namespace Word

/-- The text behind an equals sign, if there is one. -/
def behindEquals : List Char → Option String
  | '=' :: value => some (String.ofList value)
  | _ => none

def ofLong (cs : List Char) : Word :=
  let name := String.ofList (cs.takeWhile (· != '='))
  let attached := behindEquals (cs.dropWhile (· != '='))
  if name = "debug" && attached.isNone then debug
  else
    match Setting.names.lookup name with
    | some s => setting s attached
    | none => unknown

/-- A value may follow its letter with or without an equals sign. -/
def ofShort (letter : Char) (cs : List Char) : Word :=
  if letter = 'V' then version
  else
    match Setting.letters.lookup letter with
    | none => unknown
    | some s =>
      if cs.isEmpty then setting s none
      else setting s ((behindEquals cs).or (some (String.ofList cs)))

/-- A dash alone is a file. -/
def ofText (text : String) : Word :=
  match text.toList with
  | ['-', '-'] => filesOnly
  | '-' :: '-' :: cs => ofLong cs
  | '-' :: letter :: cs => ofShort letter cs
  | _ => file text

end Word

/-- Why the reading of a command line ends early. -/
inductive Stop where
  | version
  | misused
  deriving DecidableEq, Repr

/-- What the words have settled so far. -/
structure Given where
  file : Option String
  format : Option Format
  scale : Option Float
  output : Option String
  maxDepth : Option Nat
  maxPatches : Option Nat
  debug : Bool

namespace Given

def nothing : Given :=
  ⟨none, none, none, none, none, none, false⟩

/-- A slot is filled once, with a value that makes sense. -/
def fill {A : Type} (slot value : Option A) : Except Stop (Option A) :=
  if slot.isSome || value.isNone then .error .misused else .ok value

def path? (text : String) : Option String :=
  if text.isEmpty then none else some text

def format? (text : String) : Option Format :=
  (Format.ofName text).toOption

def setFile (given : Given) (text : String) : Except Stop Given := do
  let slot ← fill given.file (path? text)
  return { given with file := slot }

def setDebug (given : Given) : Except Stop Given :=
  if given.debug then .error .misused else .ok { given with debug := true }

def set (given : Given) (s : Setting) (text : String) : Except Stop Given := do
  match s with
  | .format =>
    let slot ← fill given.format (format? text)
    return { given with format := slot }
  | .scale =>
    let slot ← fill given.scale (Decimal.float? text)
    return { given with scale := slot }
  | .output =>
    let slot ← fill given.output (path? text)
    return { given with output := slot }
  | .maxDepth =>
    let slot ← fill given.maxDepth (Decimal.count? text)
    return { given with maxDepth := slot }
  | .maxPatches =>
    let slot ← fill given.maxPatches (Decimal.count? text)
    return { given with maxPatches := slot }

end Given

/-- What the next word may be: anything, the value of a setting, or only a file. -/
inductive Expecting where
  | anything
  | value (s : Setting)
  | file
  deriving DecidableEq, Repr

def readWord (expecting : Expecting) (given : Given) (text : String) :
    Except Stop (Expecting × Given) := do
  match expecting, Word.ofText text with
  | .anything, .file name => return (.anything, ← given.setFile name)
  | .anything, .setting s none => return (.value s, given)
  | .anything, .setting s (some value) => return (.anything, ← given.set s value)
  | .anything, .debug => return (.anything, ← given.setDebug)
  | .anything, .version => throw .version
  | .anything, .filesOnly => return (.file, given)
  | .anything, .unknown => throw .misused
  | .value s, .file value => return (.anything, ← given.set s value)
  | .value _, _ => throw .misused
  | .file, _ => return (.file, ← given.setFile text)

def readWords (words : List String) : Except Stop Given := do
  let (expecting, given) ← words.foldlM (fun state text => readWord state.1 state.2 text)
    (Expecting.anything, Given.nothing)
  match expecting with
  | .value _ => throw .misused
  | _ => return given

structure Options where
  file : Option String
  output : Option String
  style : Style Float
  limits : Limits

/-- A limit that the words leave open. An empty variable is not the same as none. -/
def settleLimit (given : Option Nat) (fallback : Option String) (standard : Nat) :
    Except Stop Nat :=
  match given, fallback with
  | some n, _ => .ok n
  | none, none => .ok standard
  | none, some text =>
    match Decimal.count? text with
    | some n => .ok n
    | none => .error .misused

def Given.settle (given : Given) (environment : String → Option String) :
    Except Stop Options := do
  let maxDepth ← settleLimit given.maxDepth (environment "QUILT_MAX_DEPTH")
    Limits.standard.maxDepth
  let maxPatches ← settleLimit given.maxPatches (environment "QUILT_MAX_PATCHES")
    Limits.standard.maxPatches
  let standard : Style Float := Style.standard
  return ⟨given.file, given.output,
    ⟨given.format.getD standard.format, given.scale.getD standard.scale⟩, ⟨maxDepth, maxPatches⟩⟩

end Command

/-- The options of a command line. -/
def Command.Options.read (environment : String → Option String) (words : List String) :
    Except Command.Stop Command.Options := do
  let given ← Command.readWords words
  given.settle environment

end Patchwork
