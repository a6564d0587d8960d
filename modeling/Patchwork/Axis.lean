/-!
# Axes

The two directions in which elements are put side by side.
-/

namespace Patchwork

inductive Axis where
  | horizontal
  | vertical
  deriving DecidableEq, Repr

end Patchwork
