import Patchwork.Proofs.Names

/-!
# The shape of expressions

What stands directly below a node, and how deep nodes stand inside each other. Sums and products are
not counted, since a text needs no deeper nesting for a longer sum.
-/

namespace Patchwork

namespace Expr

/-- The expressions directly below a node. -/
def parts : Expr → List Expr
  | number _ => []
  | angle _ => []
  | color _ => []
  | name _ => []
  | call _ arguments => arguments
  | arithmetic _ left right => [left, right]
  | rect width height fill => [width, height, fill]
  | strip _ items => items
  | overlay _ items => items
  | rot turn target => [turn, target]
  | rep count target => [count, target]

/-- A sum or a product. -/
def IsArithmetic : Expr → Prop
  | arithmetic _ _ _ => True
  | _ => False

def IsCall : Expr → Prop
  | call _ _ => True
  | _ => False

/-- All nodes of the expression have the property. -/
inductive Each (property : Expr → Prop) : Expr → Prop
  | intro {e : Expr} : property e → (∀ part ∈ e.parts, Each property part) → Each property e

theorem Each.leaf {property : Expr → Prop} {e : Expr} (h : property e) (alone : e.parts = []) :
    e.Each property :=
  .intro h (by simp [alone])

theorem Each.here {property : Expr → Prop} {e : Expr} (h : e.Each property) : property e := by
  cases h with
  | intro here _ => exact here

theorem Each.inside {property : Expr → Prop} {e part : Expr} (h : e.Each property)
    (member : part ∈ e.parts) : part.Each property := by
  cases h with
  | intro _ inside => exact inside part member

mutual

/-- How many nodes that are neither sums nor products stand inside each other. -/
def height : Expr → Nat
  | number _ => 1
  | angle _ => 1
  | color _ => 1
  | name _ => 1
  | call _ arguments => heightAll arguments + 1
  | arithmetic _ left right => max left.height right.height
  | rect width height fill => max width.height (max height.height fill.height) + 1
  | strip _ items => heightAll items + 1
  | overlay _ items => heightAll items + 1
  | rot turn target => max turn.height target.height + 1
  | rep count target => max count.height target.height + 1

def heightAll : List Expr → Nat
  | [] => 0
  | e :: es => max e.height (heightAll es)

end

theorem heightAll_le_iff {es : List Expr} {n : Nat} :
    heightAll es ≤ n ↔ ∀ e ∈ es, e.height ≤ n := by
  induction es with
  | nil => simp [heightAll]
  | cons e es ih => rw [heightAll, Nat.max_le, ih, List.forall_mem_cons]

theorem height_arithmetic_le_iff {op : Operator} {left right : Expr} {n : Nat} :
    (arithmetic op left right).height ≤ n ↔ left.height ≤ n ∧ right.height ≤ n := by
  rw [height, Nat.max_le]

/-- All other nodes are a level above their parts. -/
theorem height_le_succ_iff {e : Expr} {n : Nat} (counted : ¬e.IsArithmetic) :
    e.height ≤ n + 1 ↔ ∀ part ∈ e.parts, part.height ≤ n := by
  cases e with
  | arithmetic op left right => exact (counted trivial).elim
  | call f arguments => simp [height, parts, heightAll_le_iff]
  | strip axis items => simp [height, parts, heightAll_le_iff]
  | overlay anchor items => simp [height, parts, heightAll_le_iff]
  | rect width height fill =>
    rw [Expr.height, Nat.add_le_add_iff_right, Nat.max_le, Nat.max_le]
    simp [parts]
  | rot turn target | rep count target =>
    rw [height, Nat.add_le_add_iff_right, Nat.max_le]
    simp [parts]
  | number n | angle degrees | color text | name x => simp [height, parts]

theorem height_pos (e : Expr) : 0 < e.height := by
  cases e with
  | arithmetic op left right =>
    have := height_pos left
    rw [height]
    omega
  | _ => simp [height]

theorem mem_uses_of_part {e part : Expr} {u : Use} (member : part ∈ e.parts)
    (used : u ∈ part.uses) : u ∈ e.uses := by
  have below {es : List Expr} (member : part ∈ es) : u ∈ usesAll es :=
    mem_usesAll.2 ⟨part, member, used⟩
  cases e with
  | number n | angle degrees | color text | name x => simp [parts] at member
  | call f arguments => exact List.mem_cons_of_mem _ (below member)
  | strip axis items | overlay anchor items => exact below member
  | arithmetic op left right | rot left right | rep left right =>
    simpa [uses, usesAll, parts] using below member
  | rect width height fill => simpa [uses, usesAll, parts] using below member

end Expr

/-- The expression that is bound, or the body of the function that is. -/
def Definition.content : Definition → Expr
  | declared _ _ value => value
  | assigned _ value => value
  | function _ _ body => body

namespace Program

/-- What the program consists of: the contents of its definitions, and its goal. -/
def contents (p : Program) : List Expr :=
  p.definitions.map Definition.content ++ [p.goal]

def height (p : Program) : Nat :=
  Expr.heightAll p.contents

theorem forall_mem_contents_iff {p : Program} {holds : Expr → Prop} :
    (∀ e ∈ p.contents, holds e) ↔
      (∀ d ∈ p.definitions, holds d.content) ∧ holds p.goal := by
  simp [contents, or_imp, forall_and]

end Program

end Patchwork
