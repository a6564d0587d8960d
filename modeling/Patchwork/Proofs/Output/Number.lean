/-!
# Numbers as JSON spells them

A sign, digits without a zero in front of them, and perhaps a fraction and an exponent.
-/

namespace Patchwork

namespace Json

def IsDigits (cs : List Char) : Prop :=
  cs ≠ [] ∧ ∀ c ∈ cs, c.isDigit

/-- The part of a number in front of the point: no zero stands before another digit. -/
inductive IsWhole : List Char → Prop
  | zero : IsWhole ['0']
  | digits {c : Char} {cs : List Char} : c ≠ '0' → IsDigits (c :: cs) → IsWhole (c :: cs)

inductive IsFraction : List Char → Prop
  | none : IsFraction []
  | digits {cs : List Char} : IsDigits cs → IsFraction ('.' :: cs)

inductive IsExponent : List Char → Prop
  | none : IsExponent []
  | digits {c : Char} {sign cs : List Char} :
      c ∈ ['e', 'E'] → sign ∈ [[], ['+'], ['-']] → IsDigits cs → IsExponent (c :: (sign ++ cs))

/-- The spellings of a number. -/
inductive IsNumber : List Char → Prop
  | parts {sign whole fraction exponent : List Char} :
      sign ∈ [[], ['-']] → IsWhole whole → IsFraction fraction → IsExponent exponent →
      IsNumber (sign ++ whole ++ fraction ++ exponent)

/-- The characters that words and numbers consist of. -/
def isInWord (c : Char) : Bool :=
  c.isAlphanum || c ∈ ['+', '-', '.']

theorem isInWord_of_isDigit {c : Char} (h : c.isDigit) : isInWord c := by
  simp [isInWord, Char.isAlphanum, h]

variable {cs : List Char}

theorem IsWhole.isDigits (h : IsWhole cs) : IsDigits cs := by
  cases h with
  | zero => exact ⟨by simp, List.all_eq_true.1 (by decide)⟩
  | digits _ digits => exact digits

theorem IsDigits.isInWord (h : IsDigits cs) : ∀ c ∈ cs, isInWord c :=
  fun c member => isInWord_of_isDigit (h.2 c member)

theorem IsFraction.isInWord (h : IsFraction cs) : ∀ c ∈ cs, isInWord c := by
  cases h with
  | none => simp
  | digits digits => exact List.forall_mem_cons.2 ⟨by decide, digits.isInWord⟩

theorem IsExponent.isInWord (h : IsExponent cs) : ∀ c ∈ cs, isInWord c := by
  cases h with
  | none => simp
  | @digits mark sign _ marked signed digits =>
    have mark : ∀ c ∈ ['e', 'E'], Json.isInWord c := List.all_eq_true.1 (by decide)
    have sign : ∀ sign ∈ [[], ['+'], ['-']], ∀ c ∈ sign, Json.isInWord c := by simp [Json.isInWord]
    refine List.forall_mem_cons.2 ⟨mark _ marked, ?_⟩
    exact List.forall_mem_append.2 ⟨sign _ signed, digits.isInWord⟩

theorem IsNumber.isInWord (h : IsNumber cs) : ∀ c ∈ cs, isInWord c := by
  cases h with
  | parts signed whole fraction exponent =>
    have sign : ∀ sign ∈ [[], ['-']], ∀ c ∈ sign, Json.isInWord c := by simp [Json.isInWord]
    simp only [List.forall_mem_append]
    exact ⟨⟨⟨sign _ signed, whole.isDigits.isInWord⟩, fraction.isInWord⟩, exponent.isInWord⟩

theorem IsNumber.head (h : IsNumber cs) : ∃ c ∈ cs.head?, c = '-' ∨ c.isDigit := by
  cases h with
  | @parts _ whole _ _ signed isWhole _ _ =>
    obtain ⟨some, digits⟩ := isWhole.isDigits
    cases whole with
    | nil => exact absurd rfl some
    | cons d ds =>
      rcases List.mem_cons.1 signed with rfl | signed
      · exact ⟨d, rfl, .inr (digits d List.mem_cons_self)⟩
      · cases List.mem_singleton.1 signed
        exact ⟨'-', rfl, .inl rfl⟩

@[ext]
structure Number where
  text : String
  spelled : IsNumber text.toList

/-- No number is spelled like a word. -/
theorem Number.text_ne (n : Number) :
    n.text ≠ "" ∧ n.text ≠ "null" ∧ n.text ≠ "true" ∧ n.text ≠ "false" := by
  have heads : ∀ word ∈ ["", "null", "true", "false"],
      ¬∃ c ∈ word.toList.head?, c = '-' ∨ c.isDigit := by
    simp [Char.isDigit]
  have outside : n.text ∉ ["", "null", "true", "false"] := fun word => heads _ word n.spelled.head
  simpa using outside

end Json

end Patchwork
