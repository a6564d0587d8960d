import Patchwork.Value

/-!
# Names in expressions

Where an expression asks for names, and the expression with others in their places. A name that
stands for a value can be exchanged for any expression, a callee only for another callee. Nothing in
an expression binds a name, so that nothing can be captured.
-/

namespace Patchwork

/-- A place where an expression asks for a name. -/
inductive Use where
  | value (name : String)
  | callee (name : String)
  deriving DecidableEq, Repr

def Use.name : Use → String
  | value x => x
  | callee f => f

namespace Expr

mutual

/-- The uses of names in an expression, from left to right. -/
def uses : Expr → List Use
  | number _ => []
  | angle _ => []
  | color _ => []
  | name x => [.value x]
  | call f arguments => .callee f :: usesAll arguments
  | arithmetic _ left right => left.uses ++ right.uses
  | rect width height fill => width.uses ++ height.uses ++ fill.uses
  | strip _ items => usesAll items
  | overlay _ items => usesAll items
  | rot turn target => turn.uses ++ target.uses
  | rep count target => count.uses ++ target.uses

def usesAll : List Expr → List Use
  | [] => []
  | e :: es => e.uses ++ usesAll es

end

/-- The name occurs in the expression, for its value or as a callee. -/
def Mentions (e : Expr) (x : String) : Prop :=
  x ∈ e.uses.map Use.name

instance (e : Expr) (x : String) : Decidable (e.Mentions x) :=
  inferInstanceAs (Decidable (x ∈ e.uses.map Use.name))

theorem mentions_value {e : Expr} {x : String} (h : .value x ∈ e.uses) : e.Mentions x :=
  List.mem_map_of_mem h

theorem mentions_callee {e : Expr} {f : String} (h : .callee f ∈ e.uses) : e.Mentions f :=
  List.mem_map_of_mem h

theorem mem_usesAll {u : Use} {es : List Expr} :
    u ∈ usesAll es ↔ ∃ e ∈ es, u ∈ e.uses := by
  induction es with
  | nil => simp [usesAll]
  | cons e es ih => simp [usesAll, ih]

section Exchange

variable (values : String → Expr) (callees : String → String)

mutual

/-- The expression with every name and every callee exchanged. -/
def exchange : Expr → Expr
  | number n => number n
  | angle degrees => angle degrees
  | color text => color text
  | name x => values x
  | call f arguments => call (callees f) (exchangeAll arguments)
  | arithmetic op left right => arithmetic op left.exchange right.exchange
  | rect width height fill => rect width.exchange height.exchange fill.exchange
  | strip axis items => strip axis (exchangeAll items)
  | overlay anchor items => overlay anchor (exchangeAll items)
  | rot turn target => rot turn.exchange target.exchange
  | rep count target => rep count.exchange target.exchange

def exchangeAll : List Expr → List Expr
  | [] => []
  | e :: es => e.exchange :: exchangeAll es

end

theorem exchangeAll_eq_map (es : List Expr) :
    exchangeAll values callees es = es.map (exchange values callees) := by
  induction es with
  | nil => rfl
  | cons e es ih => rw [exchangeAll, ih, List.map_cons]

end Exchange

mutual

theorem exchange_self (e : Expr) : e.exchange .name id = e := by
  cases e with
  | number n | angle degrees | color text | name x => rfl
  | call f arguments => rw [exchange, exchangeAll_self arguments, id_eq]
  | arithmetic op left right => rw [exchange, exchange_self left, exchange_self right]
  | rect width height fill =>
    rw [exchange, exchange_self width, exchange_self height, exchange_self fill]
  | strip axis items => rw [exchange, exchangeAll_self items]
  | overlay anchor items => rw [exchange, exchangeAll_self items]
  | rot turn target => rw [exchange, exchange_self turn, exchange_self target]
  | rep count target => rw [exchange, exchange_self count, exchange_self target]

theorem exchangeAll_self (es : List Expr) : exchangeAll .name id es = es := by
  cases es with
  | nil => rfl
  | cons e es => rw [exchangeAll, exchange_self e, exchangeAll_self es]

end

/-- Expressions in the places of some names. Callees stay as they are. -/
def substitute (bindings : List (String × Expr)) (e : Expr) : Expr :=
  e.exchange (fun x => (bindings.lookup x).getD (.name x)) id

/-- Other names in the places of names, callees included. -/
def rename (naming : String → String) (e : Expr) : Expr :=
  e.exchange (fun x => .name (naming x)) naming

theorem rename_id (e : Expr) : e.rename id = e :=
  e.exchange_self

end Expr

def Function.rename (naming : String → String) (fn : Function) : Function :=
  ⟨fn.parameters.map naming, fn.body.rename naming⟩

theorem Function.rename_id (fn : Function) : fn.rename id = fn := by
  rw [rename, List.map_id, Expr.rename_id]

/-- The naming that gives one name the place of another. -/
def replacing (a b : String) (x : String) : String :=
  if x = a then b else x

end Patchwork
