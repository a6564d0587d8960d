import Patchwork.Proofs.Output.Reader

/-!
# Markup

A text is read as tags with attributes, with blanks between them and nothing else. What stands in an
attribute ends with the next quote and holds no angle bracket, so that tags that are written with
such values are read as what they are, whatever follows.
-/

namespace Patchwork

namespace Markup

structure Attribute where
  name : String
  value : String
  deriving DecidableEq, Repr

inductive Tag where
  | opening (name : String) (attributes : List Attribute)
  /-- A tag that needs no closing one. -/
  | empty (name : String) (attributes : List Attribute)
  | closing (name : String)
  deriving DecidableEq, Repr

def Attribute.text (a : Attribute) : String :=
  " " ++ a.name ++ "=\"" ++ a.value ++ "\""

def Tag.text : Tag → String
  | opening name attributes => "<" ++ name ++ String.join (attributes.map Attribute.text) ++ ">"
  | empty name attributes => "<" ++ name ++ String.join (attributes.map Attribute.text) ++ "/>"
  | closing name => "</" ++ name ++ ">"

def Tag.name : Tag → String
  | opening name _ => name
  | empty name _ => name
  | closing name => name

def Tag.attributes : Tag → List Attribute
  | opening _ attributes => attributes
  | empty _ attributes => attributes
  | closing _ => []

/-- What the tag has under a name. -/
def Tag.value? (t : Tag) (name : String) : Option String :=
  (t.attributes.find? (·.name == name)).map Attribute.value

def isInName (c : Char) : Bool :=
  c.isAlphanum

def isInValue (c : Char) : Bool :=
  c != '"' && c != '<' && c != '>'

def isName (name : String) : Bool :=
  !name.toList.isEmpty && name.toList.all isInName

def Attribute.isSound (a : Attribute) : Bool :=
  isName a.name && a.value.toList.all isInValue

def Tag.isSound (t : Tag) : Bool :=
  isName t.name && t.attributes.all Attribute.isSound

/-- A name in front of a text, and the text behind it. -/
def name? (cs : List Char) : Option (String × List Char) :=
  match cs.takeWhile isInName with
  | [] => none
  | name => some (String.ofList name, cs.dropWhile isInName)

/-- What stands in front of a quote, and the text behind the quote. -/
def value? (cs : List Char) : Option (String × List Char) :=
  match cs.dropWhile isInValue with
  | '"' :: rest => some (String.ofList (cs.takeWhile isInValue), rest)
  | _ => none

section Lengths

variable {cs rest : List Char} {text : String}

theorem length_name? (h : name? cs = some (text, rest)) : rest.length ≤ cs.length := by
  unfold name? at h
  split at h
  · cases h
  · cases h
    exact Scan.length_dropWhile_le _ _

theorem length_value? (h : value? cs = some (text, rest)) : rest.length ≤ cs.length := by
  unfold value? at h
  split at h
  · next same =>
    cases h
    have := Scan.length_dropWhile_le isInValue cs
    rw [same, List.length_cons] at this
    omega
  · cases h

end Lengths

/-- An attribute with the space in front of it. -/
def Attribute.reader : Reader Attribute where
  read
    | ' ' :: cs =>
      match name? cs with
      | some (name, '=' :: '"' :: rest) => (value? rest).map fun found => (⟨name, found.1⟩, found.2)
      | _ => none
    | _ => none
  shorter {cs rest a} h := by
    split at h
    · split at h
      · next named =>
        obtain ⟨found, valued, same⟩ := Option.map_eq_some_iff.1 h
        cases same
        have := length_name? named
        have := length_value? valued
        simp only [List.length_cons] at *
        omega
      · cases h
    · cases h

/-- How a tag with a name and attributes ends. -/
def ending? (name : String) (attributes : List Attribute) : List Char → Option (Tag × List Char)
  | '/' :: '>' :: rest => some (.empty name attributes, rest)
  | '>' :: rest => some (.opening name attributes, rest)
  | _ => none

def Tag.reader : Reader Tag where
  read
    | '<' :: '/' :: cs =>
      match name? cs with
      | some (name, '>' :: rest) => some (.closing name, rest)
      | _ => none
    | '<' :: cs =>
      match name? cs with
      | some (name, rest) =>
        ending? name (Attribute.reader.many rest).1 (Attribute.reader.many rest).2
      | none => none
    | _ => none
  shorter {cs rest found} h := by
    split at h
    · split at h
      · next named =>
        cases h
        have := length_name? named
        simp only [List.length_cons] at *
        omega
      · cases h
    · split at h
      · next between named =>
        have := length_name? named
        have := Attribute.reader.length_many_le between
        unfold ending? at h
        split at h
        · next same => cases h; simp only [same, List.length_cons] at *; omega
        · next same => cases h; simp only [same, List.length_cons] at *; omega
        · cases h
      · cases h
    · cases h

/-- All tags of a text. -/
def tags? (text : String) : Option (List Tag) :=
  Tag.reader.all? text.toList

section Spelled

variable (rest : List Char)

theorem name?_append {name : String} (sound : isName name)
    (outside : ∀ d ∈ rest.head?, isInName d = false) :
    name? (name.toList ++ rest) = some (name, rest) := by
  obtain ⟨some, inside⟩ := Bool.and_eq_true_iff.1 sound
  have inside := List.all_eq_true.1 inside
  unfold name?
  rw [Scan.takeWhile_append_outside inside outside, Scan.dropWhile_append_outside inside outside]
  split
  · next none => simp [none] at some
  · rw [String.ofList_toList]

/-- A name does not start like the end of a closing tag. -/
theorem name_append_ne {name : String} (sound : isName name) {cs : List Char} :
    name.toList ++ rest ≠ '/' :: cs := by
  obtain ⟨some, inside⟩ := Bool.and_eq_true_iff.1 sound
  cases letters : name.toList with
  | nil => simp [letters] at some
  | cons d more =>
    rw [letters, List.all_cons] at inside
    rintro ⟨⟩
    exact absurd inside (by simp [isInName])

theorem value?_append {value : String} (inside : ∀ d ∈ value.toList, isInValue d) :
    value? (value.toList ++ '"' :: rest) = some (value, rest) := by
  have outside : ∀ d ∈ ('"' :: rest).head?, isInValue d = false := by simp [isInValue]
  simp [value?, Scan.dropWhile_append_outside inside outside,
    Scan.takeWhile_append_outside inside outside]

theorem attribute_read {a : Attribute} (sound : a.isSound) :
    Attribute.reader.read (a.text.toList ++ rest) = some (a, rest) := by
  obtain ⟨name, value⟩ := Bool.and_eq_true_iff.1 sound
  have named := name?_append ('=' :: '"' :: (a.value.toList ++ '"' :: rest)) name
    (by simp [isInName])
  have valued := value?_append rest (List.all_eq_true.1 value)
  simp [Attribute.reader, Attribute.text, named, valued]

/-- A name and attributes are read up to where the tag ends. -/
theorem tag_read_of_ending {name : String} {attributes : List Attribute} (named : isName name)
    (sound : attributes.all Attribute.isSound) {c : Char} (last : c = '/' ∨ c = '>') :
    Tag.reader.read
        ('<' :: (name.toList ++ ((attributes.flatMap fun a => a.text.toList) ++ c :: rest))) =
      ending? name attributes (c :: rest) := by
  have outside : ∀ d ∈ ((attributes.flatMap fun a => a.text.toList) ++ c :: rest).head?,
      isInName d = false := by
    cases attributes with
    | nil => rcases last with rfl | rfl <;> simp [isInName]
    | cons a attributes => simp [Attribute.text, isInName]
  have refused : Attribute.reader.read (c :: rest) = none := by
    rcases last with rfl | rfl <;> simp [Attribute.reader]
  have attributed := Attribute.reader.many_flatMap _ attributes refused fun a member _ =>
    attribute_read _ (List.all_eq_true.1 sound a member)
  have read := name?_append _ named outside
  simp only [Tag.reader]
  split
  · next same => exact absurd (List.cons.inj same).2 (name_append_ne _ named)
  · next same =>
    cases same
    rw [read]
    simp only [attributed]
  · next other => exact absurd rfl (other _)

theorem tag_read {t : Tag} (sound : t.isSound) :
    Tag.reader.read (t.text.toList ++ rest) = some (t, rest) := by
  cases t with
  | opening name attributes =>
    obtain ⟨(named : isName name), (sound : attributes.all Attribute.isSound)⟩ :=
      Bool.and_eq_true_iff.1 sound
    simpa [Tag.text, List.flatMap_map, ending?] using
      tag_read_of_ending rest named sound (.inr rfl)
  | empty name attributes =>
    obtain ⟨(named : isName name), (sound : attributes.all Attribute.isSound)⟩ :=
      Bool.and_eq_true_iff.1 sound
    simpa [Tag.text, List.flatMap_map, ending?] using
      tag_read_of_ending ('>' :: rest) named sound (.inl rfl)
  | closing name =>
    have named : isName name := (Bool.and_eq_true_iff.1 sound).1
    have read := name?_append ('>' :: rest) named (by simp [isInName])
    simp [Tag.reader, Tag.text, read]

theorem all?_tag {t : Tag} (sound : t.isSound) :
    Tag.reader.all? (t.text.toList ++ rest) = (Tag.reader.all? rest).map (t :: ·) := by
  have opened : ∃ cs, t.text.toList ++ rest = '<' :: cs := by
    cases t <;> exact ⟨_, by simp [Tag.text]; rfl⟩
  obtain ⟨cs, spelled⟩ := opened
  have read := tag_read rest sound
  rw [spelled] at read ⊢
  exact Tag.reader.all?_of_read (by decide) read

end Spelled

end Markup

end Patchwork
