import Patchwork.Output.Json
import Patchwork.Proofs.Output.Reader
import Patchwork.Proofs.Output.Symbols

/-!
# What a JSON text stands for

A text is cut into marks, words and quoted texts, with blanks between them. It stands for the value
whose symbols these are. A number or a word goes on as long as it can, so that what is written is
read back wherever something else follows it.
-/

namespace Patchwork

namespace Json

def hexValue? (c : Char) : Option Nat :=
  if c.isDigit then some (c.toNat - '0'.toNat)
  else if 'a' ≤ c && c ≤ 'f' then some (c.toNat - 'a'.toNat + 10)
  else if 'A' ≤ c && c ≤ 'F' then some (c.toNat - 'A'.toNat + 10)
  else none

/-- The number in four hexadecimal digits, and the text behind them. -/
def unit? : List Char → Option (Nat × List Char)
  | a :: b :: c :: d :: rest =>
    ([a, b, c, d].mapM hexValue?).map fun digits => (digits.foldl (fun n d => 16 * n + d) 0, rest)
  | _ => none

/-- The character beyond the first 65536 that two surrogates are written for. -/
def joined? (high low : Nat) : Option Char :=
  if 0xd800 ≤ high && high < 0xdc00 && 0xdc00 ≤ low && low < 0xe000 then
    some (Char.ofNat (0x10000 + (high - 0xd800) * 0x400 + (low - 0xdc00)))
  else none

/-- The characters that a letter behind a backslash can stand for. -/
def letters : List (Char × Char) :=
  [('"', '"'), ('\\', '\\'), ('/', '/'), ('b', '\x08'), ('f', '\x0c'), ('n', '\n'), ('r', '\r'),
    ('t', '\t')]

/-- The character that is written behind a backslash, and the text behind it. -/
def escape? : List Char → Option (Char × List Char)
  | [] => none
  | c :: cs =>
    if c = 'u' then
      (unit? cs).bind fun (n, rest) =>
        if n < 0xd800 || 0xe000 ≤ n then some (Char.ofNat n, rest)
        else
          match rest with
          | '\\' :: 'u' :: rest => (unit? rest).bind fun (m, rest) => (joined? n m).map (·, rest)
          | _ => none
    else (letters.lookup c).map (·, cs)

theorem length_unit? {cs rest : List Char} {n : Nat} (h : unit? cs = some (n, rest)) :
    rest.length < cs.length := by
  unfold unit? at h
  split at h
  · obtain ⟨digits, _, same⟩ := Option.map_eq_some_iff.1 h
    cases same
    simp only [List.length_cons]
    omega
  · cases h

theorem length_escape? {cs rest : List Char} {c : Char} (h : escape? cs = some (c, rest)) :
    rest.length < cs.length := by
  unfold escape? at h
  split at h
  · cases h
  split at h
  · obtain ⟨⟨n, behind⟩, first, h⟩ := Option.bind_eq_some_iff.1 h
    have := length_unit? first
    simp only at h
    split at h
    · cases h
      simp only [List.length_cons]
      omega
    split at h
    · obtain ⟨⟨m, behind⟩, second, h⟩ := Option.bind_eq_some_iff.1 h
      have := length_unit? second
      obtain ⟨_, _, same⟩ := Option.map_eq_some_iff.1 h
      cases same
      simp only [List.length_cons] at *
      omega
    · cases h
  · obtain ⟨_, _, same⟩ := Option.map_eq_some_iff.1 h
    cases same
    exact Nat.lt_succ_self _

/-- A character of a quoted text. It is written as itself or behind a backslash. -/
def character : Reader Char where
  read
    | [] => none
    | c :: cs =>
      if c = '\\' then escape? cs
      else if c = '"' || c.toNat < 32 then none
      else some (c, cs)
  shorter {cs rest c} h := by
    split at h
    · cases h
    split at h
    · exact Nat.lt_succ_of_lt (length_escape? h)
    split at h
    · cases h
    · cases h
      exact Nat.lt_succ_self _

def isMark (c : Char) : Bool :=
  c ∈ ['[', ']', '\x7b', '\x7d', ',', ':']

def Symbol.reader : Reader Symbol where
  read
    | [] => none
    | c :: cs =>
      if isMark c then some (.mark c, cs)
      else if c = '"' then
        match character.many cs with
        | (text, '"' :: rest) => some (.quoted (String.ofList text), rest)
        | _ => none
      else if isInWord c then
        some (.word (String.ofList (c :: cs.takeWhile isInWord)), cs.dropWhile isInWord)
      else none
  shorter {cs rest symbol} h := by
    cases cs with
    | nil => cases h
    | cons c cs =>
      simp only at h
      split at h
      · cases h
        exact Nat.lt_succ_self _
      split at h
      · split at h
        · next same =>
          cases h
          have := character.length_many_le cs
          rw [same, List.length_cons] at this
          rw [List.length_cons]
          omega
        · cases h
      split at h
      · cases h
        exact Nat.lt_succ_of_le (Scan.length_dropWhile_le _ _)
      · cases h

/-- The text is JSON for the value. -/
def Denotes (text : String) (v : Value) : Prop :=
  Symbol.reader.all? text.toList = some v.symbols

theorem Denotes.unique {text : String} {v w : Value} (hv : Denotes text v) (hw : Denotes text w) :
    v = w :=
  Value.symbols_injective (Option.some.inj (hv.symm.trans hw))

section Escapes

theorem hexValue?_hexDigit (n : Nat) : hexValue? (hexDigit n) = some (n % 16) := by
  have values : ∀ m < 16, hexValue? (Nat.digitChar m) = some m := by decide
  exact values _ (Nat.mod_lt n (by decide))

theorem escape?_unit {n : Nat} (small : n < 32) (rest : List Char) :
    escape? ('u' :: '0' :: '0' :: hexDigit (n / 16) :: hexDigit n :: rest) =
      some (Char.ofNat n, rest) := by
  have zero : hexValue? '0' = some 0 := by decide
  have value : 16 * (n / 16 % 16) + n % 16 = n := by omega
  have inside : n < 0xd800 := by omega
  simp [escape?, unit?, zero, hexValue?_hexDigit, value, inside]

theorem character_read (c : Char) (rest : List Char) :
    character.read (escaped c ++ rest) = some (c, rest) := by
  unfold escaped
  -- The quote, the backslash and the five characters with a letter of their own.
  iterate 7
    split
    · next same => subst same; rfl
  split
  -- The other control characters.
  · next small =>
    have read := escape?_unit small rest
    rw [Char.ofNat_toNat] at read
    simpa [character] using read
  · simp_all [character]

end Escapes

/-- No word goes on into the text. -/
def Ends (rest : List Char) : Prop :=
  ∀ c ∈ rest.head?, isInWord c = false

/-- The text is cut into the symbols, whatever follows, unless a word goes on there. -/
def Reads (text : List Char) (row : List Symbol) : Prop :=
  ∀ rest, Ends rest →
    Symbol.reader.all? (text ++ rest) = (Symbol.reader.all? rest).map (row ++ ·)

/-- The text can stand for the value inside of another text. -/
def Writes (text : String) (v : Value) : Prop :=
  Reads text.toList v.symbols

section Reads

variable {text rest : List Char} {row : List Symbol}

theorem ends_nil : Ends [] := by
  simp [Ends]

theorem ends_cons {c : Char} (h : isInWord c = false) : Ends (c :: rest) := by
  simpa [Ends] using h

theorem Ends.append (h : Ends text) (behind : Ends rest) : Ends (text ++ rest) := by
  cases text with
  | nil => exact behind
  | cons c text => exact h

theorem isBlank_of_isMark {c : Char} (h : isMark c) : Scan.isBlank c = false := by
  have marks : ∀ c ∈ ['[', ']', '\x7b', '\x7d', ',', ':'], Scan.isBlank c = false := by
    simp [Scan.isBlank]
  exact marks c (of_decide_eq_true h)

theorem reads_nil : Reads [] [] := by
  intro rest _
  simp

theorem Reads.blanks (h : Reads text row) (blanks : List Char)
    (blank : blanks.all Scan.isBlank) : Reads (blanks ++ text) row := by
  intro rest ends
  rw [List.append_assoc, Symbol.reader.all?_blanks blank, h rest ends]

theorem Reads.mark (h : Reads text row) (c : Char) (mark : isMark c) :
    Reads (c :: text) (.mark c :: row) := by
  intro rest ends
  have read : Symbol.reader.read (c :: (text ++ rest)) = some (.mark c, text ++ rest) := by
    simp [Symbol.reader, mark]
  rw [List.cons_append, Symbol.reader.all?_of_read (isBlank_of_isMark mark) read, h rest ends,
    Option.map_map]
  rfl

theorem Reads.append {text' : List Char} {row' : List Symbol} (h : Reads text row)
    (behind : Reads text' row') (ends : Ends text') : Reads (text ++ text') (row ++ row') := by
  intro rest last
  rw [List.append_assoc, h _ (ends.append last), behind rest last, Option.map_map]
  simp [Function.comp_def]

theorem reads_quoted (t : String) : Reads (quoted t).toList [.quoted t] := by
  intro rest _
  have refused : character.read ('"' :: rest) = none := by simp [character]
  have inside := character.many_flatMap escaped t.toList refused fun c _ => character_read c
  have read : Symbol.reader.read ('"' :: (t.toList.flatMap escaped ++ '"' :: rest)) =
      some (.quoted t, rest) := by
    simp [Symbol.reader, isMark, inside]
  simpa [quoted] using Symbol.reader.all?_of_read (by decide) read

/-- A word starts like nothing else. -/
theorem isInWord_solid {c : Char} (h : isInWord c) :
    Scan.isBlank c = false ∧ isMark c = false ∧ c ≠ '"' := by
  have outside : c ∉ [' ', '\t', '\r', '\n', '[', ']', '\x7b', '\x7d', ',', ':', '"'] := by
    have none : [' ', '\t', '\r', '\n', '[', ']', '\x7b', '\x7d', ',', ':', '"'].any isInWord =
        false := by decide
    exact fun member => List.any_eq_false.1 none c member h
  simpa [Scan.isBlank, isMark, and_assoc] using outside

theorem reads_word {word : String} (some : word ≠ "") (inside : ∀ c ∈ word.toList, isInWord c) :
    Reads word.toList [.word word] := by
  intro rest ends
  cases letters : word.toList with
  | nil => exact absurd (String.toList_eq_nil_iff.1 letters) some
  | cons c cs =>
    rw [letters, List.forall_mem_cons] at inside
    obtain ⟨first, inside⟩ := inside
    obtain ⟨solid, noMark, noQuote⟩ := isInWord_solid first
    have read : Symbol.reader.read (c :: (cs ++ rest)) = Option.some (.word word, rest) := by
      simp [Symbol.reader, noMark, noQuote, first, Scan.takeWhile_append_outside inside ends,
        Scan.dropWhile_append_outside inside ends, ← String.toList_inj, letters]
    exact Symbol.reader.all?_of_read solid read

end Reads

end Json

end Patchwork
