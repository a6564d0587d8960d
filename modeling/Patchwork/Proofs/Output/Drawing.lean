import Patchwork.Output.Svg
import Patchwork.Proofs.Decimal.Written
import Patchwork.Proofs.Output.Markup

/-!
# What a drawing holds

A drawing is read back as its canvas, one figure for each patch and the closing tag, whatever the
colors are: an escaped text neither ends its attribute nor opens a tag, and stands for one text
only.
-/

namespace Patchwork

namespace Svg

/-- The characters with a meaning of their own, and the entities that stand for them. -/
def entities : List (Char × String) :=
  [('&', "&amp;"), ('"', "&quot;"), ('<', "&lt;"), ('>', "&gt;")]

/-- A character that stands for itself. -/
def isPlain (c : Char) : Bool :=
  c ∉ ['&', '"', '<', '>']

/-- The text that an attribute stands for, decoded from left to right. Nothing but an entity can
stand for one of the characters that are escaped. -/
def decoded? : List Char → Option (List Char)
  | [] => some []
  | '&' :: 'a' :: 'm' :: 'p' :: ';' :: cs => (decoded? cs).map ('&' :: ·)
  | '&' :: 'q' :: 'u' :: 'o' :: 't' :: ';' :: cs => (decoded? cs).map ('"' :: ·)
  | '&' :: 'l' :: 't' :: ';' :: cs => (decoded? cs).map ('<' :: ·)
  | '&' :: 'g' :: 't' :: ';' :: cs => (decoded? cs).map ('>' :: ·)
  | c :: cs => if isPlain c then (decoded? cs).map (c :: ·) else none

/-- No quote and no angle bracket stands in the text, and every ampersand opens an entity. -/
structure IsGuarded (text : List Char) : Prop where
  inside : ∀ c ∈ text, Markup.isInValue c
  entity : ∀ cs, '&' :: cs <:+ text → ∃ e ∈ entities, e.2.toList <+: '&' :: cs

theorem escaped_cases (c : Char) :
    isPlain c ∧ escaped c = [c] ∨ ∃ e, (c, e) ∈ entities ∧ escaped c = e.toList := by
  cases plain : isPlain c with
  | true => exact .inl ⟨rfl, by simp_all [escaped, isPlain]⟩
  | false =>
    have special : c ∈ ['&', '"', '<', '>'] := Decidable.not_not.1 (of_decide_eq_false plain)
    refine .inr ?_
    simp only [List.mem_cons, List.not_mem_nil, or_false] at special
    rcases special with rfl | rfl | rfl | rfl
    · exact ⟨"&amp;", by decide, rfl⟩
    · exact ⟨"&quot;", by decide, rfl⟩
    · exact ⟨"&lt;", by decide, rfl⟩
    · exact ⟨"&gt;", by decide, rfl⟩

theorem decoded?_plain {c : Char} (plain : isPlain c) (cs : List Char) :
    decoded? (c :: cs) = (decoded? cs).map (c :: ·) := by
  rw [decoded?.eq_def]
  split <;> simp_all [isPlain]

theorem decoded?_entity {c : Char} {e : String} (member : (c, e) ∈ entities) (cs : List Char) :
    decoded? (e.toList ++ cs) = (decoded? cs).map (c :: ·) := by
  simp only [entities, List.mem_cons, List.not_mem_nil, or_false, Prod.mk.injEq] at member
  rcases member with ⟨rfl, rfl⟩ | ⟨rfl, rfl⟩ | ⟨rfl, rfl⟩ | ⟨rfl, rfl⟩ <;> rfl

theorem decoded?_flatMap_escaped (cs : List Char) : decoded? (cs.flatMap escaped) = some cs := by
  induction cs with
  | nil => rfl
  | cons c cs ih =>
    rw [List.flatMap_cons]
    obtain ⟨plain, same⟩ | ⟨e, member, same⟩ := escaped_cases c
    · rw [same, List.singleton_append, decoded?_plain plain, ih, Option.map_some]
    · rw [same, decoded?_entity member, ih, Option.map_some]

theorem isInValue_of_isPlain {c : Char} (h : isPlain c) : Markup.isInValue c := by
  simp_all [isPlain, Markup.isInValue]

theorem IsGuarded.cons {c : Char} {cs : List Char} (h : IsGuarded cs)
    (inside : Markup.isInValue c)
    (entity : c = '&' → ∃ e ∈ entities, e.2.toList <+: c :: cs) : IsGuarded (c :: cs) := by
  refine ⟨List.forall_mem_cons.2 ⟨inside, h.inside⟩, fun rest suffix => ?_⟩
  rcases List.suffix_cons_iff.1 suffix with same | suffix
  · cases same
    exact entity rfl
  · exact h.entity rest suffix

theorem IsGuarded.plain_append {cs rest : List Char} (h : IsGuarded rest)
    (plain : cs.all isPlain) : IsGuarded (cs ++ rest) := by
  induction cs with
  | nil => exact h
  | cons c cs ih =>
    obtain ⟨first, plain⟩ := Bool.and_eq_true_iff.1 plain
    refine (ih plain).cons (isInValue_of_isPlain first) fun same => ?_
    rw [same] at first
    exact absurd first (by decide)

/-- An ampersand is the first character of an entity, and the rest of it is plain. -/
theorem entities_spelled : ∀ e ∈ entities,
    e.2.toList = '&' :: e.2.toList.tail ∧ e.2.toList.tail.all isPlain := by
  decide

theorem IsGuarded.entity_append {e : Char × String} {cs : List Char} (h : IsGuarded cs)
    (member : e ∈ entities) : IsGuarded (e.2.toList ++ cs) := by
  obtain ⟨spelled, plain⟩ := entities_spelled e member
  have opened : e.2.toList <+: '&' :: (e.2.toList.tail ++ cs) := by
    rw [← List.cons_append, ← spelled]
    exact List.prefix_append _ _
  rw [spelled, List.cons_append]
  exact (h.plain_append plain).cons (by decide) fun _ => ⟨e, member, opened⟩

theorem isGuarded_flatMap_escaped (cs : List Char) : IsGuarded (cs.flatMap escaped) := by
  induction cs with
  | nil => exact ⟨by simp, by simp⟩
  | cons c cs ih =>
    rw [List.flatMap_cons]
    obtain ⟨plain, same⟩ | ⟨e, member, same⟩ := escaped_cases c
    · rw [same]
      exact ih.plain_append (by simp [plain])
    · rw [same]
      exact ih.entity_append member

theorem escapedText_injective : Function.Injective escapedText := by
  intro s t same
  have same := congrArg (decoded? ∘ String.toList) same
  simpa [escapedText, decoded?_flatMap_escaped, String.toList_inj] using same

variable {K : Type} [Scalar K] [Numeral K]

/-- The tag that frames a drawing. -/
def canvas (scale : K) (d : Design K) : Markup.Tag :=
  .opening "svg"
    [⟨"xmlns", "http://www.w3.org/2000/svg"⟩, ⟨"width", length scale d.width⟩,
      ⟨"height", length scale d.height⟩,
      ⟨"viewBox", "0 0 " ++ length scale d.width ++ " " ++ length scale d.height⟩]

/-- The tag of a patch. -/
def figure (scale : K) (p : Patch K) : Markup.Tag :=
  .empty "rect"
    [⟨"x", length scale p.x⟩, ⟨"y", length scale p.y⟩, ⟨"width", length scale p.width⟩,
      ⟨"height", length scale p.height⟩, ⟨"fill", escapedText p.color.fill⟩]

theorem header_eq (scale : K) (d : Design K) :
    header scale d.width d.height = (canvas scale d).text ++ "\n" := by
  unfold header
  simp [← String.toList_inj, canvas, Markup.Tag.text, Markup.Attribute.text]

theorem rect_eq (scale : K) (p : Patch K) :
    rect scale p = "  " ++ (figure scale p).text ++ "\n" := by
  unfold rect
  simp [← String.toList_inj, figure, Markup.Tag.text, Markup.Attribute.text]

theorem footer_eq : footer = (Markup.Tag.closing "svg").text ++ "\n" := by
  decide

/-- The written form of a scalar has no character in it that is escaped. -/
def PlainNumerals (K : Type) [Numeral K] : Prop :=
  ∀ x : K, ∀ c ∈ (Numeral.plain x).toList, isPlain c

section Sound

variable (plain : PlainNumerals K) (scale : K)

include plain

theorem length_inside (x : K) : (length scale x).toList.all Markup.isInValue :=
  List.all_eq_true.2 fun c member => isInValue_of_isPlain (plain (x * scale) c member)

theorem canvas_isSound (d : Design K) : (canvas scale d).isSound := by
  have inside := length_inside plain scale
  have viewBox : ("0 0 " ++ length scale d.width ++ " " ++ length scale d.height).toList.all
      Markup.isInValue := by
    simp only [String.toList_append, List.all_append, inside, Bool.and_true]
    decide
  simp only [canvas, Markup.Tag.isSound, Markup.Tag.name, Markup.Tag.attributes,
    Markup.Attribute.isSound, List.all_cons, List.all_nil, inside, viewBox, Bool.and_true]
  decide

theorem figure_isSound (p : Patch K) : (figure scale p).isSound := by
  have inside := length_inside plain scale
  have fill : (escapedText p.color.fill).toList.all Markup.isInValue := by
    rw [escapedText, String.toList_ofList, List.all_eq_true]
    exact (isGuarded_flatMap_escaped p.color.fill.toList).inside
  simp only [figure, Markup.Tag.isSound, Markup.Tag.name, Markup.Tag.attributes,
    Markup.Attribute.isSound, List.all_cons, List.all_nil, inside, fill, Bool.and_true]
  decide

theorem all?_figures (patches : List (Patch K)) {rest : List Char} {tags : List Markup.Tag}
    (h : Markup.Tag.reader.all? rest = some tags) :
    Markup.Tag.reader.all? ((String.join (patches.map (rect scale))).toList ++ rest) =
      some (patches.map (figure scale) ++ tags) := by
  induction patches with
  | nil => simpa using h
  | cons p patches ih =>
    have spelled : (String.join ((p :: patches).map (rect scale))).toList ++ rest =
        [' ', ' '] ++ ((figure scale p).text.toList ++ (['\n'] ++
          ((String.join (patches.map (rect scale))).toList ++ rest))) := by
      rw [List.map_cons, String.join_cons, rect_eq]
      simp
    rw [spelled, Markup.Tag.reader.all?_blanks (by decide),
      Markup.all?_tag _ (figure_isSound plain scale p),
      Markup.Tag.reader.all?_blanks (by decide), ih]
    rfl

end Sound

end Svg

section Drawing

variable {K : Type} [Scalar K] [Numeral K]

theorem Design.toSvg_eq (scale : K) (d : Design K) :
    d.toSvg scale = (Svg.canvas scale d).text ++ "\n" ++
      String.join (d.patches.map fun p => "  " ++ (Svg.figure scale p).text ++ "\n") ++
      "</svg>\n" := by
  unfold Design.toSvg
  rw [Svg.header_eq, ← funext (Svg.rect_eq scale)]
  rfl

theorem Design.tags?_toSvg (plain : Svg.PlainNumerals K) (scale : K) (d : Design K) :
    Markup.tags? (d.toSvg scale) =
      some (Svg.canvas scale d :: d.patches.map (Svg.figure scale) ++ [.closing "svg"]) := by
  have closed : Markup.Tag.reader.all? Svg.footer.toList = some [.closing "svg"] := by
    rw [Svg.footer_eq, String.toList_append, Markup.all?_tag _ (by decide)]
    simp [Reader.all?, Scan.isBlank]
  have spelled : (d.toSvg scale).toList = (Svg.canvas scale d).text.toList ++ (['\n'] ++
      ((String.join (d.patches.map (Svg.rect scale))).toList ++ Svg.footer.toList)) := by
    unfold Design.toSvg
    rw [Svg.header_eq]
    simp
  rw [Markup.tags?, spelled, Markup.all?_tag _ (Svg.canvas_isSound plain scale d),
    Markup.Tag.reader.all?_blanks (by decide), Svg.all?_figures plain scale d.patches closed]
  rfl

/-- Whatever the colors are, a drawing is its canvas, one figure for each patch in their order and
the closing tag, written as well as read. What stands under the fill of a figure is guarded and
decodes to what the patch is filled with, so that different fills are written differently. -/
theorem Design.no_color_breaks_out (plain : Svg.PlainNumerals K) (scale : K) (d : Design K) :
    d.toSvg scale = (Svg.canvas scale d).text ++ "\n" ++
      String.join (d.patches.map fun p => "  " ++ (Svg.figure scale p).text ++ "\n") ++
      "</svg>\n" ∧
    Markup.tags? (d.toSvg scale) =
      some (Svg.canvas scale d :: d.patches.map (Svg.figure scale) ++ [.closing "svg"]) ∧
    (∀ p ∈ d.patches, ∃ written, (Svg.figure scale p).value? "fill" = some written ∧
      Svg.IsGuarded written.toList ∧ Svg.decoded? written.toList = some p.color.fill.toList) ∧
    ∀ p ∈ d.patches, ∀ q ∈ d.patches,
      (Svg.figure scale p).value? "fill" = (Svg.figure scale q).value? "fill" →
        p.color.fill = q.color.fill := by
  have filled (p : Patch K) :
      (Svg.figure scale p).value? "fill" = some (Svg.escapedText p.color.fill) := rfl
  refine ⟨d.toSvg_eq scale, d.tags?_toSvg plain scale, fun p _ => ⟨_, filled p, ?_, ?_⟩,
    fun p _ q _ same => ?_⟩
  · rw [Svg.escapedText, String.toList_ofList]
    exact Svg.isGuarded_flatMap_escaped _
  · rw [Svg.escapedText, String.toList_ofList, Svg.decoded?_flatMap_escaped]
  · rw [filled, filled] at same
    exact Svg.escapedText_injective (Option.some.inj same)

end Drawing

theorem Svg.isPlain_of_isInWord {c : Char} (h : Json.isInWord c) : Svg.isPlain c := by
  have none : ['&', '"', '<', '>'].any Json.isInWord = false := by decide
  exact decide_eq_true fun member => List.any_eq_false.1 none c member h

theorem Svg.plainNumerals_binary64 : Svg.PlainNumerals Float := by
  intro x c member
  change c ∈ (Decimal.Form.plain.text x).toList at member
  cases finite : Binary64.isFinite x with
  | true =>
    have number := Decimal.Form.plain.isNumber_text finite
    exact Svg.isPlain_of_isInWord (number.isInWord c member)
  | false =>
    have names : ∀ name ∈ ["NaN", "inf", "-inf"], name.toList.all Svg.isPlain := by decide
    have named := Decimal.Form.plain.text_of_not_isFinite finite
    exact List.all_eq_true.1 (names _ named) c member

/-- A color that tries to close its tag and to open another one, and one that looks escaped
already. -/
def Design.hostile : Design Float :=
  ⟨2, 1, [⟨0, 0, 1, 1, .css "\"/><script>"⟩, ⟨1, 0, 1, 1, .css "&quot;"⟩]⟩

theorem Design.hostile_stays_inside :
    Svg.PlainNumerals Float ∧
    Markup.tags? (Design.hostile.toSvg 50) =
      some (Svg.canvas 50 hostile :: hostile.patches.map (Svg.figure 50) ++ [.closing "svg"]) ∧
    hostile.patches.map (fun p => (Svg.figure 50 p).value? "fill") =
      [some "&quot;/&gt;&lt;script&gt;", some "&amp;quot;"] :=
  ⟨Svg.plainNumerals_binary64,
    (Design.no_color_breaks_out Svg.plainNumerals_binary64 50 hostile).2.1, rfl⟩

end Patchwork
