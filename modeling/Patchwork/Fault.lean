import Patchwork.Value

/-!
# Faults

Why an evaluation can fail. A fault carries its cause; the wording is in `Fault.message`, and the
category under which a fault is reported in `Fault.category`.
-/

namespace Patchwork

/-- The ways of putting elements together. -/
inductive Arrangement where
  | strip (axis : Axis)
  | overlay
  deriving DecidableEq, Repr

def Arrangement.name : Arrangement → String
  | strip .horizontal => "hor"
  | strip .vertical => "vert"
  | overlay => "over"

/-- A place in a program that only takes values of certain kinds. -/
inductive Place where
  | operand (op : Operator)
  | rectWidth
  | rectHeight
  | rectColor
  | element (arrangement : Arrangement)
  | turnAngle
  | turnTarget
  | repCount
  | repTarget
  | callee (name : String)
  | declaration (name : String) (kind : DeclaredKind)
  | goal
  deriving DecidableEq, Repr

inductive Fault (K : Type) where
  | unbound (name : String)
  | wrongKind (place : Place) (found : Kind)
  | unequalSides (axis : Axis) (expected found : K)
  | unsupportedAngle (degrees : Int)
  | fractionalAngle (degrees : K)
  | unsupportedAnchor (text : String)
  | emptyArrangement (arrangement : Arrangement)
  | unusableSize (width height : K)
  | badCount (count : K)
  | zeroCount
  | wrongArity (name : String) (expected found : Nat)
  | tooDeep (limit : Nat)
  | tooManyPatches (limit : Nat)
  deriving DecidableEq, Repr

namespace Fault

inductive Category where
  | unboundName
  | type
  | dimensionMismatch
  | unsupportedAngle
  | unsupportedAnchor
  | invalidArgument
  | resourceLimit
  deriving DecidableEq, Repr

def Category.name : Category → String
  | unboundName => "UnboundNameError"
  | type => "TypeError"
  | dimensionMismatch => "DimensionMismatchError"
  | unsupportedAngle => "UnsupportedAngleError"
  | unsupportedAnchor => "UnsupportedAnchorError"
  | invalidArgument => "InvalidArgumentError"
  | resourceLimit => "ResourceLimitError"

variable {K : Type}

def category : Fault K → Category
  | unbound _ => .unboundName
  | wrongKind _ _ => .type
  | unequalSides _ _ _ => .dimensionMismatch
  | unsupportedAngle _ => .unsupportedAngle
  | fractionalAngle _ => .unsupportedAngle
  | unsupportedAnchor _ => .unsupportedAnchor
  | emptyArrangement _ => .invalidArgument
  | unusableSize _ _ => .invalidArgument
  | badCount _ => .invalidArgument
  | zeroCount => .invalidArgument
  | wrongArity _ _ _ => .invalidArgument
  | tooDeep _ => .resourceLimit
  | tooManyPatches _ => .resourceLimit

end Fault

/-- What a place says about a value of the wrong kind. -/
def Place.complaint (found : Kind) : Place → String
  | operand op => op.sign ++ " expects a number, got " ++ found.name
  | rectWidth => "rect width expects a number, got " ++ found.name
  | rectHeight => "rect height expects a number, got " ++ found.name
  | rectColor => "rect color must be a color, got " ++ found.name
  | element arrangement =>
    arrangement.name ++ " expects patches or designs, got " ++ found.name
  | turnAngle => "rotation angle must be a number, got " ++ found.name
  | turnTarget => "rotation target must be a patch or design, got " ++ found.name
  | repCount => "rep count expects a number, got " ++ found.name
  | repTarget => "rep expects a patch or design, got " ++ found.name
  | callee name => "'" ++ name ++ "' is a " ++ found.name ++ ", not a function"
  | declaration name kind =>
    "'" ++ name ++ "' is declared " ++ kind.name ++ " but bound to a " ++ found.name
  | goal => "a quilt must evaluate to a patch or design, got " ++ found.name

namespace Fault

variable {K : Type} [Numeral K]

def unequalSidesText (axis : Axis) : String :=
  match axis with
  | .horizontal => "heights must match for horizontal composition"
  | .vertical => "widths must match for vertical composition"

/-- What is said after the category. -/
def detail : Fault K → String
  | unbound name => "'" ++ name ++ "' is not defined"
  | wrongKind place found => place.complaint found
  | unequalSides axis expected found =>
    unequalSidesText axis ++ " (expected " ++ Numeral.plain expected ++ ", got " ++
      Numeral.plain found ++ ")"
  | unsupportedAngle degrees =>
    "rotation angle " ++ toString degrees ++ " is not one of 0, 90, 180, 270"
  | fractionalAngle degrees =>
    "rotation angle " ++ Numeral.plain degrees ++ " is not one of 0, 90, 180, 270"
  | unsupportedAnchor text => "anchor '" ++ text ++ "' is not one of TL, TR, BL, BR, C"
  | emptyArrangement arrangement => arrangement.name ++ " needs at least one element"
  | unusableSize width height =>
    "rect dimensions must be positive, got " ++ Numeral.plain width ++ " x " ++
      Numeral.plain height
  | badCount count =>
    "repetition count must be a positive integer, got " ++ Numeral.plain count
  | zeroCount => "repetition count must be positive"
  | wrongArity name expected found =>
    "'" ++ name ++ "' takes " ++ toString expected ++ " argument(s), got " ++ toString found
  | tooDeep limit => "evaluation nested deeper than " ++ toString limit ++ " levels"
  | tooManyPatches limit => "design would exceed " ++ toString limit ++ " patches"

def message (fault : Fault K) : String :=
  fault.category.name ++ ": " ++ fault.detail

end Fault

end Patchwork
