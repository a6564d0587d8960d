import Patchwork.Design

/-!
# Designs as data

A design is written as one JSON object, an entry a line and two blanks further in on each level.
Colors go by their names. A number that is not finite is written as null.
-/

namespace Patchwork

namespace Json

def hexDigit (n : Nat) : Char :=
  Nat.digitChar (n % 16)

/-- How a character stands in a quoted text. Only what JSON demands is escaped. -/
def escaped (c : Char) : List Char :=
  if c = '"' then ['\\', '"']
  else if c = '\\' then ['\\', '\\']
  else if c = '\n' then ['\\', 'n']
  else if c = '\r' then ['\\', 'r']
  else if c = '\t' then ['\\', 't']
  else if c = '\x08' then ['\\', 'b']
  else if c = '\x0c' then ['\\', 'f']
  else if c.toNat < 32 then ['\\', 'u', '0', '0', hexDigit (c.toNat / 16), hexDigit c.toNat]
  else [c]

def quoted (text : String) : String :=
  String.ofList ('"' :: text.toList.flatMap escaped ++ ['"'])

def margin (level : Nat) : String :=
  String.ofList (List.replicate (2 * level) ' ')

/-- Entries between brackets, each on a line of its own one level further in. -/
def block (opening closing : String) (level : Nat) (entries : List String) : String :=
  if entries.isEmpty then opening ++ closing
  else
    opening ++ "\n" ++ ",\n".intercalate (entries.map fun e => margin (level + 1) ++ e) ++ "\n" ++
      margin level ++ closing

def array (level : Nat) (entries : List String) : String :=
  block "[" "]" level entries

def object (level : Nat) (fields : List (String × String)) : String :=
  block "\x7b" "\x7d" level (fields.map fun field => quoted field.1 ++ ": " ++ field.2)

variable {K : Type} [Scalar K] [Numeral K]

def number (x : K) : String :=
  if Scalar.finite x then Numeral.exact x else "null"

end Json

variable {K : Type} [Scalar K] [Numeral K]

def Patch.toJson (level : Nat) (p : Patch K) : String :=
  Json.object level
    [("x", Json.number p.x), ("y", Json.number p.y), ("width", Json.number p.width),
      ("height", Json.number p.height), ("color", Json.quoted p.color.name)]

def Design.toJson (d : Design K) : String :=
  Json.object 0
    [("width", Json.number d.width), ("height", Json.number d.height),
      ("patches", Json.array 1 (d.patches.map (Patch.toJson 2)))]

end Patchwork
