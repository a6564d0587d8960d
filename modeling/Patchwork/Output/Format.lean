import Patchwork.Output.Json
import Patchwork.Output.Svg

/-!
# Output formats

The formats a design can be written in, and their names.
-/

namespace Patchwork

inductive Format where
  | json
  | svg
  deriving DecidableEq, Repr

namespace Format

def name : Format → String
  | json => "json"
  | svg => "svg"

/-- Names are taken without regard to case. -/
def normalName (text : String) : String :=
  text.map Char.toLower

/-- The format of a name, or what is said about a name that no format has. -/
def ofName (text : String) : Except String Format :=
  let plain := normalName text
  if plain = json.name then .ok json
  else if plain = svg.name then .ok svg
  else .error ("unknown output format '" ++ plain ++ "' (expected json or svg)")

end Format

/-- How a design is to be written. Data ignores the scale. -/
structure Style (K : Type) where
  format : Format
  /-- The length in a drawing that stands for one unit. -/
  scale : K
  deriving Repr

variable {K : Type} [Scalar K]

def Style.standard : Style K :=
  ⟨.json, Scalar.ofInt 50⟩

variable [Numeral K]

def Design.render (style : Style K) (d : Design K) : String :=
  match style.format with
  | .json => d.toJson
  | .svg => d.toSvg style.scale

end Patchwork
