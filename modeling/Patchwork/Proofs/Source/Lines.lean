import Mathlib.Data.List.Induction
import Patchwork.Source.Position

/-!
# Lines of a text

A position by counting in the text before it: newlines for the line, and characters behind the last
newline for the column. Moving over a text, character by character, comes to the same position.
-/

namespace Patchwork

/-- What stands behind the last newline, or the whole text where there is none. -/
def lastLine (cs : List Char) : List Char :=
  (cs.reverse.takeWhile (· ≠ '\n')).reverse

namespace Position

/-- The position right behind a text, by counting. -/
def behind (before : List Char) : Position :=
  ⟨before.count '\n' + 1, (lastLine before).length + 1⟩

end Position

variable {cs ds : List Char}

theorem lastLine_newline (cs : List Char) : lastLine (cs ++ ['\n']) = [] := by
  simp [lastLine]

theorem inLine_of_undivided (undivided : '\n' ∉ ds) : ∀ d ∈ ds, decide (d ≠ '\n') := by
  intro d member
  refine decide_eq_true ?_
  rintro rfl
  exact undivided member

/-- A text without newlines goes on with the last line. -/
theorem lastLine_append (cs : List Char) (undivided : '\n' ∉ ds) :
    lastLine (cs ++ ds) = lastLine cs ++ ds := by
  have inside := inLine_of_undivided (mt List.mem_reverse.1 undivided)
  rw [lastLine, List.reverse_append, List.takeWhile_append_of_pos inside, List.reverse_append,
    List.reverse_reverse, lastLine]

namespace Position

theorem behind_append (before : List Char) (undivided : '\n' ∉ ds) :
    behind (before ++ ds) = ⟨(behind before).line, (behind before).column + ds.length⟩ := by
  rw [behind, lastLine_append before undivided, List.count_append, List.count_eq_zero.2 undivided,
    List.length_append, behind]
  simp only [Nat.add_zero, mk.injEq, true_and]
  omega

theorem next_behind (before : List Char) (c : Char) :
    (behind before).next c = behind (before ++ [c]) := by
  by_cases newline : c = '\n'
  · subst newline
    rw [next, if_pos rfl, behind, behind, lastLine_newline, List.count_append]
    rfl
  · have undivided : '\n' ∉ [c] := mt List.mem_singleton.1 (Ne.symm newline)
    rw [next, if_neg newline, behind_append before undivided, List.length_singleton]

/-- Moving over a text is counting in it. -/
theorem after_behind (before cs : List Char) :
    (behind before).after cs = behind (before ++ cs) := by
  induction cs generalizing before with
  | nil => rw [List.append_nil, after, List.foldl_nil]
  | cons c cs ih =>
    rw [after, List.foldl_cons, next_behind]
    have moved := ih (before ++ [c])
    rwa [List.append_assoc, List.singleton_append] at moved

end Position

section Splitting

theorem length_splitOn (cs : List Char) : (cs.splitOn '\n').length = cs.count '\n' + 1 := by
  induction cs with
  | nil => rfl
  | cons c cs ih =>
    rw [List.splitOn_cons_eq_if_modifyHead, List.count_cons]
    split <;> simp [ih]

theorem head_splitOn (cs : List Char) :
    (cs.splitOn '\n')[0]? = some (cs.takeWhile (· ≠ '\n')) := by
  induction cs with
  | nil => rfl
  | cons c cs ih =>
    rw [List.splitOn_cons_eq_if_modifyHead, List.takeWhile_cons]
    by_cases newline : c = '\n'
    · simp [newline]
    · obtain ⟨line, lines, split⟩ := List.exists_cons_of_ne_nil (List.splitOn_ne_nil '\n' cs)
      rw [split] at ih ⊢
      cases ih
      simp [newline]

/-- The line that goes on behind a text is as many lines down as there are newlines in the text. -/
theorem getElem?_splitOn_append (cs rest : List Char) :
    ((cs ++ rest).splitOn '\n')[cs.count '\n']? =
      some (lastLine cs ++ rest.takeWhile (· ≠ '\n')) := by
  -- From the end of the text, so that its last character moves over to what goes on.
  induction cs using List.reverseRecOn generalizing rest with
  | nil => exact head_splitOn rest
  | append_singleton cs c ih =>
    rw [List.append_assoc, List.singleton_append, List.count_append]
    by_cases newline : c = '\n'
    · subst newline
      have skipped : (cs.splitOn '\n').length = cs.count '\n' + ['\n'].count '\n' :=
        length_splitOn cs
      rw [List.splitOn_append_cons_self, lastLine_newline, List.nil_append, ← skipped,
        List.getElem?_append_right (Nat.le_refl _), Nat.sub_self, head_splitOn]
    · have undivided : '\n' ∉ [c] := mt List.mem_singleton.1 (Ne.symm newline)
      have taken : (c :: rest).takeWhile (· ≠ '\n') = c :: rest.takeWhile (· ≠ '\n') :=
        List.takeWhile_cons_of_pos (decide_eq_true newline)
      rw [List.count_eq_zero.2 undivided, Nat.add_zero, ih, lastLine_append cs undivided, taken,
        List.append_assoc, List.singleton_append]

end Splitting

end Patchwork
