import Patchwork.Proofs.Output.Number

/-!
# JSON values as rows of symbols

A JSON text is a row of symbols with blanks between them, and a value has exactly one row of
symbols. No other value has the same row, so that a text stands for one value at most.
-/

namespace Patchwork

namespace Json

inductive Atom where
  | null
  | boolean (b : Bool)
  | number (n : Number)
  | text (t : String)

inductive Value where
  | atom (a : Atom)
  | array (items : List Value)
  | object (fields : List (String × Value))

/-- A bracket, a separator, a word without quotes, or a quoted text as what it stands for. -/
inductive Symbol where
  | mark (c : Char)
  | word (text : String)
  | quoted (text : String)
  deriving DecidableEq, Repr

def Atom.symbol : Atom → Symbol
  | null => .word "null"
  | boolean true => .word "true"
  | boolean false => .word "false"
  | number n => .word n.text
  | text t => .quoted t

/-- Entries with a comma between any two of them. -/
def separated (entries : List (List Symbol)) : List Symbol :=
  [Symbol.mark ','].intercalate entries

namespace Value

mutual

def symbols : Value → List Symbol
  | atom a => [a.symbol]
  | array items => .mark '[' :: (separated (itemSymbols items) ++ [.mark ']'])
  | object fields => .mark '\x7b' :: (separated (fieldSymbols fields) ++ [.mark '\x7d'])

def itemSymbols : List Value → List (List Symbol)
  | [] => []
  | v :: items => v.symbols :: itemSymbols items

def fieldSymbols : List (String × Value) → List (List Symbol)
  | [] => []
  | (name, v) :: fields => (.quoted name :: .mark ':' :: v.symbols) :: fieldSymbols fields

end

/-- A name, a colon and the value under the name. -/
def fieldRow (field : String × Value) : List Symbol :=
  .quoted field.1 :: .mark ':' :: field.2.symbols

theorem itemSymbols_eq_map (items : List Value) : itemSymbols items = items.map symbols := by
  induction items with
  | nil => rfl
  | cons v items ih => rw [itemSymbols, ih, List.map_cons]

theorem fieldSymbols_eq_map (fields : List (String × Value)) :
    fieldSymbols fields = fields.map fieldRow := by
  induction fields with
  | nil => rfl
  | cons field fields ih => rw [fieldSymbols, ih, List.map_cons, fieldRow]

/-- To show something of all values it is enough to take it from the parts to the whole. -/
@[elab_as_elim]
theorem induct {motive : Value → Prop} (atom : ∀ a, motive (atom a))
    (array : ∀ items, (∀ v ∈ items, motive v) → motive (array items))
    (object : ∀ fields, (∀ field ∈ fields, motive field.2) → motive (object fields))
    (v : Value) : motive v :=
  @Value.rec motive (fun items => ∀ v ∈ items, motive v)
    (fun fields => ∀ field ∈ fields, motive field.2) (fun field => motive field.2)
    atom array object (by simp) (fun _ _ head tail => List.forall_mem_cons.2 ⟨head, tail⟩)
    (by simp) (fun _ _ head tail => List.forall_mem_cons.2 ⟨head, tail⟩) (fun _ _ value => value) v

end Value

section Unambiguous

variable {α : Type} {row : α → List Symbol}

/-- Whatever follows, the row shows where it ends and what it is the row of. -/
def IsSelfEnding (row : α → List Symbol) (x : α) : Prop :=
  ∀ y rest rest', row x ++ rest = row y ++ rest' → x = y ∧ rest = rest'

theorem separated_cons (entry : List Symbol) (entries : List (List Symbol)) :
    separated (entry :: entries) = entry ++ entries.flatMap (.mark ',' :: ·) := by
  induction entries generalizing entry with
  | nil => simp [separated]
  | cons next entries ih =>
    rw [separated, List.intercalate_cons_cons]
    have := ih next
    rw [separated] at this
    simp [this]

theorem eq_of_commas {c : Char} (closing : c ≠ ',') {xs ys : List α} {rest rest' : List Symbol}
    (each : ∀ x ∈ xs, IsSelfEnding row x)
    (same : (xs.flatMap fun x => .mark ',' :: row x) ++ .mark c :: rest =
      (ys.flatMap fun y => .mark ',' :: row y) ++ .mark c :: rest') : xs = ys ∧ rest = rest' := by
  induction xs generalizing ys with
  | nil =>
    cases ys with
    | nil => simpa using same
    | cons y ys => simp [closing] at same
  | cons x xs ih =>
    cases ys with
    | nil => simp [closing.symm] at same
    | cons y ys =>
      rw [List.forall_mem_cons] at each
      simp only [List.flatMap_cons, List.cons_append, List.append_assoc, List.cons.injEq,
        true_and] at same
      obtain ⟨rfl, further⟩ := each.1 _ _ _ same
      obtain ⟨rfl, behind⟩ := ih each.2 further
      exact ⟨rfl, behind⟩

theorem eq_of_separated {c : Char} (closing : c ≠ ',') {xs ys : List α} {rest rest' : List Symbol}
    (opens : ∀ x s t, row x ++ s ≠ .mark c :: t)
    (each : ∀ x ∈ xs, IsSelfEnding row x)
    (same : separated (xs.map row) ++ .mark c :: rest =
      separated (ys.map row) ++ .mark c :: rest') : xs = ys ∧ rest = rest' := by
  cases xs with
  | nil =>
    cases ys with
    | nil => simpa [separated] using same
    | cons y ys =>
      rw [List.map_cons, separated_cons, List.append_assoc] at same
      exact absurd same.symm (opens y _ _)
  | cons x xs =>
    cases ys with
    | nil =>
      rw [List.map_cons, separated_cons, List.append_assoc] at same
      exact absurd same (opens x _ _)
    | cons y ys =>
      rw [List.forall_mem_cons] at each
      simp only [List.map_cons, separated_cons, List.append_assoc, List.flatMap_map] at same
      obtain ⟨rfl, further⟩ := each.1 _ _ _ same
      obtain ⟨rfl, behind⟩ := eq_of_commas closing each.2 further
      exact ⟨rfl, behind⟩

end Unambiguous

namespace Atom

theorem symbol_ne_mark (a : Atom) (c : Char) : a.symbol ≠ .mark c := by
  cases a with
  | boolean b => cases b <;> simp [symbol]
  | _ => simp [symbol]

theorem symbol_injective : Function.Injective symbol := by
  rintro (_ | (_ | _) | n | s) (_ | (_ | _) | m | t) same
  all_goals grind [Atom.symbol, Number.text_ne, Number.ext]

end Atom

namespace Value

/-- No value starts like the end of a list. -/
theorem symbols_append_ne {c : Char} (closing : c ∈ [']', '\x7d']) (v : Value)
    (rest others : List Symbol) : v.symbols ++ rest ≠ .mark c :: others := by
  intro same
  cases v with
  | atom a => exact a.symbol_ne_mark c (List.cons.inj same).1
  | array items =>
    cases (List.cons.inj same).1
    simp at closing
  | object fields =>
    cases (List.cons.inj same).1
    simp at closing

theorem isSelfEnding_fieldRow {field : String × Value} (h : IsSelfEnding symbols field.2) :
    IsSelfEnding fieldRow field := by
  intro other rest rest' same
  simp only [fieldRow, List.cons_append, List.cons.injEq, Symbol.quoted.injEq, true_and] at same
  obtain ⟨value, behind⟩ := h _ _ _ same.2
  exact ⟨Prod.ext same.1 value, behind⟩

theorem isSelfEnding (v : Value) : IsSelfEnding symbols v := by
  -- The first symbol tells atoms, arrays and objects apart; inside of two arrays or two objects the
  -- parts agree one by one.
  induction v using induct with
  | atom a =>
    intro w rest rest' same
    cases w with
    | atom b =>
      obtain ⟨first, behind⟩ := List.cons.inj same
      exact ⟨congrArg _ (Atom.symbol_injective first), behind⟩
    | array items => exact absurd (List.cons.inj same).1 (a.symbol_ne_mark _)
    | object fields => exact absurd (List.cons.inj same).1 (a.symbol_ne_mark _)
  | array items ih =>
    intro w rest rest' same
    cases w with
    | atom b => exact absurd (List.cons.inj same).1.symm (b.symbol_ne_mark _)
    | array others =>
      simp only [symbols, itemSymbols_eq_map, List.cons_append, List.append_assoc, List.nil_append,
        List.cons.injEq, true_and] at same
      have inside := eq_of_separated (by decide) (symbols_append_ne (by decide)) ih same
      exact ⟨congrArg _ inside.1, inside.2⟩
    | object fields => exact absurd (List.cons.inj same).1 (by decide)
  | object fields ih =>
    intro w rest rest' same
    cases w with
    | atom b => exact absurd (List.cons.inj same).1.symm (b.symbol_ne_mark _)
    | array items => exact absurd (List.cons.inj same).1 (by decide)
    | object others =>
      simp only [symbols, fieldSymbols_eq_map, List.cons_append, List.append_assoc, List.nil_append,
        List.cons.injEq, true_and] at same
      have inside := eq_of_separated (by decide) (by simp [fieldRow])
        (fun field member => isSelfEnding_fieldRow (ih field member)) same
      exact ⟨congrArg _ inside.1, inside.2⟩

theorem symbols_injective : Function.Injective symbols := by
  intro v w same
  exact (v.isSelfEnding w [] [] (by rw [same])).1

end Value

end Json

end Patchwork
