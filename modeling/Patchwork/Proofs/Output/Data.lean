import Mathlib.Data.List.Forall2
import Patchwork.Proofs.Decimal.Written
import Patchwork.Proofs.Output.Denotation

/-!
# What data holds

A design that is written as data is read back as one object with its measures and its patches in
their order, and as nothing else, whatever the colors are.
-/

namespace Patchwork

namespace Json

theorem reads_margin {text : List Char} {row : List Symbol} (h : Reads text row) (level : Nat) :
    Reads ((margin level).toList ++ text) row := by
  refine h.blanks _ (List.all_eq_true.2 fun c member => ?_)
  rw [margin, String.toList_ofList] at member
  rw [List.eq_of_mem_replicate member]
  rfl

section Entries

variable {entries : List String} {rows : List (List Symbol)} (level : Nat)

theorem reads_lines (each : List.Forall₂ (fun e row => Reads e.toList row) entries rows) :
    Reads (",\n".intercalate (entries.map fun e => margin level ++ e)).toList (separated rows) := by
  rw [String.toList_intercalate, List.map_map]
  induction each with
  | nil => exact reads_nil
  | @cons e row entries rows first each ih =>
    have first := reads_margin first level
    cases each with
    | nil => simpa [separated] using first
    | cons second each =>
      have behind := (ih.blanks ['\n'] (by decide)).mark ',' (by decide)
      have both := first.append behind (ends_cons (by decide))
      simpa [separated, List.intercalate_cons_cons] using both

theorem reads_block (opening closing : Char) (opens : isMark opening) (closes : isMark closing)
    (each : List.Forall₂ (fun e row => Reads e.toList row) entries rows) :
    Reads (block (String.singleton opening) (String.singleton closing) level entries).toList
      (.mark opening :: (separated rows ++ [.mark closing])) := by
  have last : Reads [closing] [.mark closing] := reads_nil.mark closing closes
  cases each with
  | nil => simpa [block, separated] using last.mark opening opens
  | cons first each =>
    have lines := reads_lines (level + 1) (.cons first each)
    have ending := (reads_margin last level).blanks ['\n'] (by decide)
    have inside := lines.append ending (ends_cons (by decide))
    have all := (inside.blanks ['\n'] (by decide)).mark opening opens
    simpa [block] using all

end Entries

theorem writes_array {level : Nat} {entries : List String} {items : List Value}
    (each : List.Forall₂ Writes entries items) :
    Writes (array level entries) (.array items) := by
  have rows : List.Forall₂ (fun e row => Reads e.toList row) entries (items.map Value.symbols) :=
    List.forall₂_map_right_iff.2 each
  simpa [Writes, array, Value.symbols, Value.itemSymbols_eq_map] using
    reads_block level '[' ']' (by decide) (by decide) rows

/-- A text under a name can stand for a value under the same name. -/
def WritesField (field : String × String) (value : String × Value) : Prop :=
  field.1 = value.1 ∧ Writes field.2 value.2

theorem reads_field {field : String × String} {value : String × Value}
    (h : WritesField field value) :
    Reads (quoted field.1 ++ ": " ++ field.2).toList (Value.fieldRow value) := by
  obtain ⟨same, value⟩ := h
  have behind := (value.blanks [' '] (by decide)).mark ':' (by decide)
  have both := (reads_quoted field.1).append behind (ends_cons (by decide))
  simpa [Value.fieldRow, same] using both

theorem writes_object {level : Nat} {fields : List (String × String)}
    {values : List (String × Value)} (each : List.Forall₂ WritesField fields values) :
    Writes (object level fields) (.object values) := by
  have rows : List.Forall₂ (fun e row => Reads e.toList row)
      (fields.map fun field => quoted field.1 ++ ": " ++ field.2) (values.map Value.fieldRow) :=
    List.forall₂_map_left_iff.2 (List.forall₂_map_right_iff.2 (each.imp fun _ _ => reads_field))
  simpa [Writes, object, Value.symbols, Value.fieldSymbols_eq_map] using
    reads_block level '\x7b' '\x7d' (by decide) (by decide) rows

theorem writes_quoted (t : String) : Writes (quoted t) (.atom (.text t)) :=
  reads_quoted t

theorem writes_null : Writes "null" (.atom .null) :=
  reads_word (by decide) (List.all_eq_true.1 (by decide))

theorem writes_number (n : Number) : Writes n.text (.atom (.number n)) :=
  reads_word n.text_ne.1 n.spelled.isInWord

/-- What is written for a finite scalar in data is a number of JSON. -/
def ExactNumerals (K : Type) [Scalar K] [Numeral K] : Prop :=
  ∀ x : K, Scalar.finite x → IsNumber (Numeral.exact x).toList

end Json

section Data

variable {K : Type} [Scalar K] [Numeral K] (numerals : Json.ExactNumerals K)

/-- The written form of a finite scalar; there is no other number in data. -/
def Json.ofScalar (x : K) : Json.Value :=
  if h : Scalar.finite x then .atom (.number ⟨Numeral.exact x, numerals x h⟩) else .atom .null

def Patch.data (p : Patch K) : Json.Value :=
  .object [("x", Json.ofScalar numerals p.x), ("y", Json.ofScalar numerals p.y),
    ("width", Json.ofScalar numerals p.width), ("height", Json.ofScalar numerals p.height),
    ("color", .atom (.text p.color.name))]

def Design.data (d : Design K) : Json.Value :=
  .object [("width", Json.ofScalar numerals d.width), ("height", Json.ofScalar numerals d.height),
    ("patches", .array (d.patches.map (Patch.data numerals)))]

theorem Json.writes_ofScalar (x : K) : Json.Writes (Json.number x) (Json.ofScalar numerals x) := by
  unfold Json.number Json.ofScalar
  split
  · next finite => exact Json.writes_number ⟨Numeral.exact x, numerals x finite⟩
  · exact Json.writes_null

theorem Patch.writes_toJson (level : Nat) (p : Patch K) :
    Json.Writes (p.toJson level) (p.data numerals) := by
  have scalar (x : K) := Json.writes_ofScalar numerals x
  exact Json.writes_object (.cons ⟨rfl, scalar p.x⟩ (.cons ⟨rfl, scalar p.y⟩
    (.cons ⟨rfl, scalar p.width⟩ (.cons ⟨rfl, scalar p.height⟩
      (.cons ⟨rfl, Json.writes_quoted _⟩ .nil)))))

theorem Design.writes_toJson (d : Design K) : Json.Writes d.toJson (d.data numerals) := by
  have scalar (x : K) := Json.writes_ofScalar numerals x
  have patches : List.Forall₂ Json.Writes (d.patches.map (Patch.toJson 2))
      (d.patches.map (Patch.data numerals)) := by
    simp only [List.forall₂_map_left_iff, List.forall₂_map_right_iff]
    exact List.forall₂_same.2 fun p _ => p.writes_toJson numerals 2
  exact Json.writes_object (.cons ⟨rfl, scalar d.width⟩ (.cons ⟨rfl, scalar d.height⟩
    (.cons ⟨rfl, Json.writes_array patches⟩ .nil)))

/-- What is written as data stands for the data of the design and for no other value. -/
theorem Design.denotes_toJson_iff (d : Design K) (v : Json.Value) :
    Json.Denotes d.toJson v ↔ v = d.data numerals := by
  have written : Json.Denotes d.toJson (d.data numerals) := by
    have all := d.writes_toJson numerals [] Json.ends_nil
    simpa [Json.Denotes, Reader.all?_nil] using all
  refine ⟨fun h => h.unique written, ?_⟩
  rintro rfl
  exact written

end Data

theorem Json.exactNumerals_binary64 : Json.ExactNumerals Float :=
  fun _ finite => Decimal.Form.data.isNumber_text finite

/-- A color with a quote, a backslash, a line break, a control character and a letter beyond
ASCII. -/
def Design.awkward : Design Float :=
  ⟨1, 1, [⟨0, 0, 1, 1, .css "\"\\\n\x01é"⟩]⟩

theorem Design.awkward_reads_back :
    Json.ExactNumerals Float ∧
    Json.Denotes awkward.toJson (awkward.data Json.exactNumerals_binary64) ∧
    awkward.patches.map (fun p => Json.quoted p.color.name) = ["\"\\\"\\\\\\n\\u0001é\""] :=
  ⟨Json.exactNumerals_binary64,
    (awkward.denotes_toJson_iff Json.exactNumerals_binary64 _).2 rfl, by decide⟩

end Patchwork
