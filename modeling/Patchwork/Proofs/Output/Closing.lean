import Patchwork.Command.Run

/-!
# How written designs end

The last character of a written design can be seen, but for the line break that closes a drawing.
So nothing except this line break is lost where the blanks at the end are taken away.
-/

namespace Patchwork

/-- There is a last character, and it is one of those that are printed with ink. -/
def EndsSolid (text : String) : Prop :=
  ∃ front last, text.toList = front ++ [last] ∧ '!' ≤ last ∧ last ≤ '~'

theorem not_isWhitespace {c : Char} (solid : '!' ≤ c) : ¬c.isWhitespace = true := by
  intro blank
  have either : (decide (c = ' ') || decide (c = '\t') || decide (c = '\r') ||
      decide (c = '\n')) = true := blank
  simp only [Bool.or_eq_true, decide_eq_true_eq] at either
  rcases either with ((rfl | rfl) | rfl) | rfl <;> exact absurd solid (by decide)

theorem EndsSolid.append {text : String} (solid : EndsSolid text) (before : String) :
    EndsSolid (before ++ text) := by
  obtain ⟨front, last, shown, inked⟩ := solid
  refine ⟨before.toList ++ front, last, ?_, inked⟩
  rw [String.toList_append, shown, List.append_assoc]

/-- Of blanks behind a character that can be seen, all are taken away and nothing else. -/
theorem EndsSolid.trimmedEnd_append {text blank : String} (solid : EndsSolid text)
    (blanks : ∀ c ∈ blank.toList, c.isWhitespace = true) :
    Command.trimmedEnd (text ++ blank) = text := by
  obtain ⟨front, last, shown, inked, -⟩ := solid
  have behind : ∀ c ∈ blank.toList.reverse, c.isWhitespace = true :=
    fun c member => blanks c (List.mem_reverse.1 member)
  have kept : ((text ++ blank).toList.reverse.dropWhile Char.isWhitespace).reverse =
      text.toList := by
    rw [String.toList_append, List.reverse_append, List.dropWhile_append_of_pos behind, shown,
      List.reverse_append, List.reverse_singleton, List.singleton_append,
      List.dropWhile_cons_of_neg (not_isWhitespace inked), List.reverse_cons, List.reverse_reverse]
  rw [Command.trimmedEnd, kept, String.ofList_toList]

/-- What a format ends in behind its last sign. -/
def Format.closing : Format → String
  | json => ""
  | svg => "\n"

theorem Format.closing_blank (format : Format) :
    ∀ c ∈ format.closing.toList, c.isWhitespace = true := by
  intro c member
  cases format with
  | json => exact absurd member List.not_mem_nil
  | svg =>
    rw [List.mem_singleton.1 member]
    rfl

namespace Design

variable {K : Type} [Scalar K] [Numeral K]

theorem endsSolid_toJson (d : Design K) : EndsSolid d.toJson := by
  have brace : EndsSolid "\x7d" := ⟨[], '\x7d', rfl, by decide⟩
  exact brace.append _

/-- The whole drawing but for the line break at its end. -/
theorem exists_toSvg_eq (d : Design K) (scale : K) :
    ∃ body, EndsSolid body ∧ d.toSvg scale = body ++ "\n" := by
  have tag : EndsSolid "</svg>" := ⟨"</svg".toList, '>', rfl, by decide⟩
  refine ⟨_, tag.append (Svg.header scale d.width d.height ++
    String.join (d.patches.map (Svg.rect scale))), ?_⟩
  rw [String.append_assoc]
  rfl

theorem exists_render_eq (d : Design K) (style : Style K) :
    ∃ body, EndsSolid body ∧ d.render style = body ++ style.format.closing := by
  rw [render]
  cases style.format with
  | json => exact ⟨d.toJson, d.endsSolid_toJson, String.append_empty.symm⟩
  | svg => exact d.exists_toSvg_eq style.scale

/-- Only what the format closes with is taken away. -/
theorem trimmedEnd_render (d : Design K) (style : Style K) :
    EndsSolid (Command.trimmedEnd (d.render style)) ∧
      d.render style = Command.trimmedEnd (d.render style) ++ style.format.closing := by
  obtain ⟨body, solid, shown⟩ := d.exists_render_eq style
  rw [shown, solid.trimmedEnd_append style.format.closing_blank]
  exact ⟨solid, rfl⟩

end Design

end Patchwork
