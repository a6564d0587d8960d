import Patchwork.Design

/-!
# Designs as drawings

A drawing has one filled rectangle for each patch, in the order of the patches, so that later ones
are painted over earlier ones. All lengths are multiplied by a scale.
-/

namespace Patchwork

namespace Svg

/-- How a character stands in an attribute: it can neither end the attribute nor open a tag. -/
def escaped (c : Char) : List Char :=
  if c = '&' then "&amp;".toList
  else if c = '"' then "&quot;".toList
  else if c = '<' then "&lt;".toList
  else if c = '>' then "&gt;".toList
  else [c]

def escapedText (text : String) : String :=
  String.ofList (text.toList.flatMap escaped)

variable {K : Type} [Scalar K] [Numeral K]

def length (scale x : K) : String :=
  Numeral.plain (x * scale)

def header (scale width height : K) : String :=
  "<svg xmlns=\"http://www.w3.org/2000/svg\" width=\"" ++ length scale width ++ "\" height=\"" ++
    length scale height ++ "\" viewBox=\"0 0 " ++ length scale width ++ " " ++
    length scale height ++ "\">\n"

def rect (scale : K) (p : Patch K) : String :=
  "  <rect x=\"" ++ length scale p.x ++ "\" y=\"" ++ length scale p.y ++ "\" width=\"" ++
    length scale p.width ++ "\" height=\"" ++ length scale p.height ++ "\" fill=\"" ++
    escapedText p.color.fill ++ "\"/>\n"

def footer : String :=
  "</svg>\n"

end Svg

variable {K : Type} [Scalar K] [Numeral K]

def Design.toSvg (scale : K) (d : Design K) : String :=
  Svg.header scale d.width d.height ++ String.join (d.patches.map (Svg.rect scale)) ++ Svg.footer

end Patchwork
