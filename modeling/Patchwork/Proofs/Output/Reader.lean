import Patchwork.Proofs.Source.Lexeme

/-!
# Readers

A reader takes something off the front of a text, at least one character of it. So it can be asked
again and again, either until it refuses or until the text is used up.
-/

namespace Patchwork

structure Reader (α : Type) where
  read : List Char → Option (α × List Char)
  shorter {cs rest : List Char} {x : α} : read cs = some (x, rest) → rest.length < cs.length

namespace Reader

variable {α : Type} (r : Reader α) {cs rest : List Char} {x : α}

/-- As much as can be read, and the text behind it. -/
def many (cs : List Char) : List α × List Char :=
  match _ : r.read cs with
  | none => ([], cs)
  | some (x, rest) => (x :: (many rest).1, (many rest).2)
  termination_by cs.length
  decreasing_by all_goals exact r.shorter ‹_›

/-- All of the text, with blanks before, between and behind. -/
def all? : List Char → Option (List α)
  | [] => some []
  | c :: cs =>
    if Scan.isBlank c then all? cs
    else
      match _ : r.read (c :: cs) with
      | none => none
      | some (x, rest) => (all? rest).map (x :: ·)
  termination_by cs => cs.length
  decreasing_by
    · exact Nat.lt_succ_self _
    · exact r.shorter ‹_›

theorem many_of_read (h : r.read cs = some (x, rest)) :
    r.many cs = (x :: (r.many rest).1, (r.many rest).2) := by
  rw [many]
  split
  · next refused => rw [h] at refused; cases refused
  · next found => rw [h] at found; cases found; rfl

theorem many_of_refused (h : r.read cs = none) : r.many cs = ([], cs) := by
  rw [many]
  split
  · rfl
  · next found => rw [h] at found; cases found

theorem length_many_le (cs : List Char) : (r.many cs).2.length ≤ cs.length := by
  fun_induction many r cs with
  | case1 cs refused => exact Nat.le_refl _
  | case2 cs x rest found ih => exact Nat.le_trans ih (Nat.le_of_lt (r.shorter found))

/-- A row of texts that are read one by one is read as a whole, up to where the reader refuses. -/
theorem many_flatMap (text : α → List Char) (xs : List α) (refused : r.read rest = none)
    (each : ∀ x ∈ xs, ∀ rest, r.read (text x ++ rest) = some (x, rest)) :
    r.many (xs.flatMap text ++ rest) = (xs, rest) := by
  induction xs with
  | nil => exact r.many_of_refused refused
  | cons x xs ih =>
    rw [List.forall_mem_cons] at each
    rw [List.flatMap_cons, List.append_assoc, r.many_of_read (each.1 _), ih each.2]

theorem all?_nil : r.all? [] = some [] := by
  rw [all?]

theorem all?_blanks {blanks : List Char} (h : blanks.all Scan.isBlank) :
    r.all? (blanks ++ rest) = r.all? rest := by
  induction blanks with
  | nil => rfl
  | cons c blanks ih =>
    obtain ⟨first, h⟩ := Bool.and_eq_true_iff.1 h
    rw [List.cons_append, all?, if_pos first, ih h]

theorem all?_of_read {c : Char} (solid : Scan.isBlank c = false)
    (h : r.read (c :: cs) = some (x, rest)) : r.all? (c :: cs) = (r.all? rest).map (x :: ·) := by
  rw [all?, if_neg (ne_true_of_eq_false solid)]
  split
  · next refused => rw [h] at refused; cases refused
  · next found => rw [h] at found; cases found; rfl

end Reader

end Patchwork
