import Mathlib.Data.List.DropRight
import Mathlib.Data.List.Forall2
import MemberOrder.Toml.Document

/-! Reading a TOML text line by line: lines that hold nothing, and lines that give a bare key a
boolean or an array of strings. A string may write its characters in any of the ways that there
are for them; whatever it writes, the reader gives it back and leaves what stands behind it. -/
namespace MemberOrder.Toml

open Text

variable {c mark : Char} {s rest more line figures written : List Char} {held bound depth : Nat}
  {digits : List Nat} {text key : String}

section Strings

def isPlain (c : Char) : Bool :=
  c == '\t' || (0x20 ≤ c.toNat && c.toNat != 0x7f)

def shortEscapes : List (Char × Char) :=
  [('b', '\x08'), ('t', '\t'), ('n', '\n'), ('f', '\x0c'), ('r', '\r'), ('"', '"'), ('\\', '\\')]

def WritesDigit (n : Nat) (d : Char) : Prop :=
  n < 16 ∧ (d = n.digitChar ∨ d = n.digitChar.toUpper)

/-- The ways to write a character between double quotes: as itself, unless it is a quote, a
backslash or a control character other than tab, by a short escape, or by its code. -/
inductive Spells (c : Char) : List Char → Prop
  | plain (noQuote : c ≠ '"') (noBackslash : c ≠ '\\') (noControl : isPlain c = true) : Spells c [c]
  | short {mark : Char} (escape : (mark, c) ∈ shortEscapes) : Spells c ['\\', mark]
  | code {mark : Char} {digits : List Nat} {figures : List Char}
      (size : (mark, digits.length) ∈ [('u', 4), ('U', 8)])
      (spelled : List.Forall₂ WritesDigit digits figures)
      (number : digits.foldl (fun n d => n * 16 + d) 0 = c.toNat) : Spells c ('\\' :: mark :: figures)

def Quotes (text : String) (written : List Char) : Prop :=
  ∃ pieces, List.Forall₂ Spells text.toList pieces ∧ written = '"' :: (pieces.flatten ++ ['"'])

theorem lineChars_short (escape : (mark, c) ∈ shortEscapes) :
    lineChars .plain ('\\' :: mark :: rest) = (lineChars .plain rest).map fun r => (c :: r.1, r.2) := by
  have known : shortEscape? mark = some c := by
    simp only [shortEscapes, List.mem_cons, Prod.mk.injEq, List.not_mem_nil, or_false] at escape
    rcases escape with ⟨rfl, rfl⟩ | ⟨rfl, rfl⟩ | ⟨rfl, rfl⟩ | ⟨rfl, rfl⟩ | ⟨rfl, rfl⟩ | ⟨rfl, rfl⟩ |
      ⟨rfl, rfl⟩ <;> rfl
  simp [lineChars, known]

theorem hexValue?_of_writesDigit {n : Nat} (spelled : WritesDigit n c) :
    hexValue? c = some n := by
  obtain ⟨small, rfl | rfl⟩ := spelled
  · exact hexValue?_digitChar small
  · exact hexValue?_toUpper_digitChar small

/-- Digits are taken one by one until none is missing. -/
theorem lineChars_figures (spelled : List.Forall₂ WritesDigit digits figures) (some_digit : digits ≠ [])
    (number : digits.foldl (fun n d => n * 16 + d) held = c.toNat) (rest : List Char) :
    lineChars (.code digits.length held) (figures ++ rest) =
      (lineChars .plain rest).map fun r => (c :: r.1, r.2) := by
  induction spelled generalizing held with
  | nil => exact absurd rfl some_digit
  | @cons n d digits figures first others ih =>
    have known := hexValue?_of_writesDigit first
    rw [List.foldl_cons] at number
    rw [List.cons_append, lineChars]
    simp only [known]
    cases others with
    | nil =>
      rw [List.foldl_nil] at number
      have valid : c.toNat.isValidChar := c.valid
      have scalar : scalar? (held * 16 + n) = some c := by
        rw [scalar?, number, if_pos valid, Char.ofNat_toNat]
      simp [scalar]
    | cons second others => simpa using ih (by simp) number

theorem lineChars_code (size : (mark, digits.length) ∈ [('u', 4), ('U', 8)])
    (spelled : List.Forall₂ WritesDigit digits figures)
    (number : digits.foldl (fun n d => n * 16 + d) 0 = c.toNat) :
    lineChars .plain ('\\' :: mark :: (figures ++ rest)) =
      (lineChars .plain rest).map fun r => (c :: r.1, r.2) := by
  have known : shortEscape? mark = none ∧ codeLength? mark = some digits.length := by
    simp only [List.mem_cons, Prod.mk.injEq, List.not_mem_nil, or_false] at size
    rcases size with ⟨rfl, four⟩ | ⟨rfl, eight⟩
    · exact ⟨rfl, by rw [four]; rfl⟩
    · exact ⟨rfl, by rw [eight]; rfl⟩
  have some_digit : digits ≠ [] := by
    rintro rfl
    simp at size
  have read := lineChars_figures spelled some_digit number rest
  simp [lineChars, known, read]

/-- Whatever writes a character is read as that character. -/
theorem lineChars_spells {piece : List Char} (spelled : Spells c piece) (rest : List Char) :
    lineChars .plain (piece ++ rest) = (lineChars .plain rest).map fun r => (c :: r.1, r.2) := by
  cases spelled with
  | plain noQuote noBackslash noControl =>
    have noControl : isTextChar c = true := noControl
    simp [lineChars, noQuote, noBackslash, noControl]
  | short escape => exact lineChars_short escape
  | code size spelled number => exact lineChars_code size spelled number

theorem lineChars_pieces {pieces : List (List Char)} (spelled : List.Forall₂ Spells s pieces)
    (rest : List Char) :
    lineChars .plain (pieces.flatten ++ '"' :: rest) = some (s, rest) := by
  induction spelled with
  | nil => rfl
  | cons first _ ih =>
    rw [List.flatten_cons, List.append_assoc, lineChars_spells first, ih]
    rfl

/-- No character is written beginning with a quote. -/
theorem Spells.ne_quote {piece : List Char} (spelled : Spells c piece) :
    ∃ d more, piece = d :: more ∧ d ≠ '"' := by
  cases spelled with
  | plain noQuote => exact ⟨_, _, rfl, noQuote⟩
  | short => exact ⟨_, _, rfl, by decide⟩
  | code => exact ⟨_, _, rfl, by decide⟩

/-- Two quotes begin a text only if it is empty and another quote follows. -/
theorem pieces_ne_quotes {pieces : List (List Char)} (spelled : List.Forall₂ Spells s pieces)
    (other : rest.head? ≠ some '"') : pieces.flatten ++ '"' :: rest ≠ '"' :: '"' :: more := by
  intro block
  cases spelled with
  | nil =>
    obtain ⟨-, behind⟩ := List.cons.inj block
    exact other (congrArg List.head? behind)
  | cons first =>
    obtain ⟨d, _, rfl, noQuote⟩ := first.ne_quote
    exact noQuote (List.cons.inj block).1

/-- A text in quotes is read up to its closing quote. In front of another quote the quotes of an
empty text would open a block. -/
theorem anyString_quotes (quotes : Quotes text written) (other : rest.head? ≠ some '"') :
    anyString (written ++ rest) = some (text, rest) := by
  obtain ⟨pieces, spelled, rfl⟩ := quotes
  have read := lineChars_pieces spelled rest
  rw [List.cons_append, List.append_assoc, List.singleton_append]
  unfold anyString
  split
  · next block => exact absurd (List.cons.inj block).2 (pieces_ne_quotes spelled other)
  · next block => exact absurd (List.cons.inj block).1 (by decide)
  · rw [lineString, read, Option.map_some, String.ofList_toList]

def codeDigits (n : Nat) : List Nat :=
  [n / 16 / 16 / 16 / 16 / 16 / 16 / 16 % 16, n / 16 / 16 / 16 / 16 / 16 / 16 % 16,
    n / 16 / 16 / 16 / 16 / 16 % 16, n / 16 / 16 / 16 / 16 % 16, n / 16 / 16 / 16 % 16,
    n / 16 / 16 % 16, n / 16 % 16, n % 16]

theorem spells_codeDigits (c : Char) :
    Spells c ('\\' :: 'U' :: (codeDigits c.toNat).map Nat.digitChar) := by
  have small : c.toNat < 0x110000 := by
    have valid : c.toNat < 0xd800 ∨ 0xdfff < c.toNat ∧ c.toNat < 0x110000 := c.valid
    omega
  have each : ∀ d ∈ codeDigits c.toNat, WritesDigit d d.digitChar := by
    intro d member
    refine ⟨?_, .inl rfl⟩
    simp only [codeDigits, List.mem_cons, List.not_mem_nil, or_false] at member
    omega
  have spelled : List.Forall₂ WritesDigit (codeDigits c.toNat)
      ((codeDigits c.toNat).map Nat.digitChar) := by
    rw [List.forall₂_map_right_iff]
    exact List.forall₂_same.mpr each
  refine .code (by simp [codeDigits]) spelled ?_
  simp only [codeDigits, List.foldl_cons, List.foldl_nil]
  omega

/-- Every text can be written. -/
theorem exists_quotes (text : String) : ∃ written, Quotes text written := by
  refine ⟨_, text.toList.map fun c => '\\' :: 'U' :: (codeDigits c.toNat).map Nat.digitChar, ?_, rfl⟩
  rw [List.forall₂_map_right_iff]
  exact List.forall₂_same.mpr fun c _ => spells_codeDigits c

end Strings

section Values

variable {names : List String} {texts : List (List Char)} {node : Node}

theorem readValue_quotes (bound depth : Nat) (quotes : Quotes text written)
    (other : rest.head? ≠ some '"') :
    ∃ node, readValue (bound + 1) depth (written ++ rest) = some (node, rest) ∧
      form node = .string text := by
  have read := anyString_quotes quotes other
  obtain ⟨pieces, _, rfl⟩ := quotes
  rw [List.cons_append] at read ⊢
  refine ⟨.string ⟨bytesLeft ('"' :: (pieces.flatten ++ ['"'] ++ rest)), bytesLeft rest⟩ text, ?_, rfl⟩
  simp only [readValue, read, Option.map_some]

theorem Quotes.eq_cons (quotes : Quotes text written) :
    ∃ more, written = '"' :: more ∧ more ≠ [] := by
  obtain ⟨pieces, _, rfl⟩ := quotes
  exact ⟨_, rfl, by simp⟩

/-- No layout stands in front of an item, a comma or the closing bracket. -/
theorem skipLayout_solid (solid : c ∈ ['"', ',', ']']) : skipLayout false (c :: s) = c :: s := by
  simp only [List.mem_cons, List.not_mem_nil, or_false] at solid
  rcases solid with rfl | rfl | rfl <;> simp [skipLayout, isBlank]

theorem readItems_closing (closing : skipLayout false s = ']' :: rest) :
    readItems (bound + 1) depth s = some ([], rest) := by
  simp only [readItems, closing]

/-- The last item, in front of the bracket. -/
theorem readItems_last (bound depth : Nat) (quotes : Quotes text written)
    (begins : skipLayout false s = written ++ ']' :: rest) :
    ∃ node, readItems (bound + 2) depth s = some ([node], rest) ∧ form node = .string text := by
  have other : (']' :: rest).head? ≠ some '"' := by simp
  obtain ⟨node, item, string⟩ := readValue_quotes bound depth quotes other
  obtain ⟨more, rfl, _⟩ := quotes.eq_cons
  rw [List.cons_append] at begins item
  exact ⟨node, by simp [readItems, begins, item, skipLayout_solid], string⟩

/-- An item in front of a comma. -/
theorem readItems_comma (bound depth : Nat) (quotes : Quotes text written)
    (begins : skipLayout false s = written ++ ',' :: rest) :
    ∃ node, readItems (bound + 2) depth s =
        (readItems (bound + 1) depth rest).map (fun r => (node :: r.1, r.2)) ∧
      form node = .string text := by
  have other : (',' :: rest).head? ≠ some '"' := by simp
  obtain ⟨node, item, string⟩ := readValue_quotes bound depth quotes other
  obtain ⟨more, rfl, _⟩ := quotes.eq_cons
  rw [List.cons_append] at begins item
  exact ⟨node, by simp [readItems, begins, item, skipLayout_solid], string⟩

/-- Items one behind the other, up to the bracket behind the last. -/
def itemsText (items : List (List Char)) : List Char :=
  [',', ' '].intercalate items ++ [']']

theorem itemsText_cons_cons (first second : List Char) :
    itemsText (first :: second :: texts) = first ++ ',' :: ' ' :: itemsText (second :: texts) := by
  simp [itemsText, List.intercalate_cons_cons]

theorem skipLayout_itemsText (quoted : List.Forall₂ Quotes names texts) (rest : List Char) :
    skipLayout false (itemsText texts ++ rest) = itemsText texts ++ rest := by
  cases quoted with
  | nil => exact skipLayout_solid (by decide)
  | cons quotes quoted =>
    obtain ⟨more, rfl, _⟩ := quotes.eq_cons
    cases quoted with
    | nil =>
      rw [itemsText, List.intercalate_singleton]
      exact skipLayout_solid (by decide)
    | cons second quoted =>
      rw [itemsText_cons_cons]
      exact skipLayout_solid (by decide)

theorem skipLayout_space_itemsText (quoted : List.Forall₂ Quotes names texts) :
    skipLayout false (' ' :: (itemsText texts ++ rest)) = itemsText texts ++ rest := by
  have space : skipLayout false (' ' :: (itemsText texts ++ rest)) =
      skipLayout false (itemsText texts ++ rest) := by
    simp [skipLayout, isBlank]
  rw [space, skipLayout_itemsText quoted rest]

/-- Names are read one by one up to the bracket. -/
theorem readItems_itemsText (depth : Nat) (quoted : List.Forall₂ Quotes names texts)
    (begins : skipLayout false s = itemsText texts ++ rest) (long : names.length < bound) :
    ∃ items, readItems bound depth s = some (items, rest) ∧ items.map form = names.map .string := by
  induction quoted generalizing s bound with
  | nil =>
    obtain ⟨bound, rfl⟩ : ∃ b, bound = b + 1 := ⟨bound - 1, by omega⟩
    exact ⟨[], readItems_closing begins, rfl⟩
  | @cons name first names others quotes quoted ih =>
    rw [List.length_cons] at long
    obtain ⟨bound, rfl⟩ : ∃ b, bound = b + 2 := ⟨bound - 2, by omega⟩
    cases quoted with
    | nil =>
      rw [itemsText, List.intercalate_singleton, List.append_assoc] at begins
      obtain ⟨node, read, string⟩ := readItems_last bound depth quotes begins
      exact ⟨[node], read, by simp [string]⟩
    | cons second quoted =>
      rw [itemsText_cons_cons, List.append_assoc] at begins
      obtain ⟨node, read, string⟩ := readItems_comma bound depth quotes begins
      obtain ⟨items, others, strings⟩ :=
        @ih _ (bound + 1) (skipLayout_space_itemsText (.cons second quoted)) (by omega)
      exact ⟨node :: items, by simpa [others] using read, by simp [string, strings]⟩

/-- Each item takes a character, at least. -/
theorem length_lt_itemsText (quoted : List.Forall₂ Quotes names texts) :
    names.length < (itemsText texts).length := by
  induction quoted with
  | nil => decide
  | cons quotes quoted ih =>
    obtain ⟨more, rfl, _⟩ := quotes.eq_cons
    cases quoted with
    | nil => simp [itemsText]
    | cons second quoted =>
      rw [itemsText_cons_cons]
      simp only [List.length_cons, List.length_append] at ih ⊢
      omega

theorem value_array (quoted : List.Forall₂ Quotes names texts) (rest : List Char) :
    ∃ node items, value ('[' :: (itemsText texts ++ rest)) = some (node, rest) ∧
      form node = .sequence items ∧ items.map form = names.map .string := by
  have long : names.length < ('[' :: (itemsText texts ++ rest)).length := by
    have := length_lt_itemsText quoted
    simp only [List.length_cons, List.length_append]
    omega
  obtain ⟨items, read, strings⟩ := readItems_itemsText 1 quoted (skipLayout_itemsText quoted rest) long
  refine ⟨.array ⟨bytesLeft ('[' :: (itemsText texts ++ rest)), bytesLeft rest⟩ items, items, ?_, rfl,
    strings⟩
  simp only [value, readValue, depthLimit, read]
  rfl

theorem value_boolean (b : Bool) (rest : List Char) :
    ∃ node, value ((toString b).toList ++ rest) = some (node, rest) ∧ form node = .boolean b := by
  cases b with
  | true =>
    exact ⟨.boolean ⟨bytesLeft (['t', 'r', 'u', 'e'] ++ rest), bytesLeft rest⟩ true, rfl, rfl⟩
  | false =>
    exact ⟨.boolean ⟨bytesLeft (['f', 'a', 'l', 's', 'e'] ++ rest), bytesLeft rest⟩ false, rfl, rfl⟩

end Values

section Keys

theorem ne_of_isBareKeyChar {d : Char} (bare : isBareKeyChar c = true)
    (other : isBareKeyChar d = false) : c ≠ d := by
  rintro rfl
  rw [bare] at other
  contradiction

theorem skipBlanks_bare (bare : isBareKeyChar c = true) : skipBlanks (c :: s) = c :: s := by
  have space : c ≠ ' ' := ne_of_isBareKeyChar bare (by decide)
  have tab : c ≠ '\t' := ne_of_isBareKeyChar bare (by decide)
  exact List.dropWhile_cons_of_neg (by simp [isBlank, space, tab])

/-- A key of letters, digits, dashes and underscores needs no quotes. -/
def IsBare (key : String) : Prop :=
  key.toList ≠ [] ∧ key.toList.all isBareKeyChar = true

theorem IsBare.of_mem (bare : IsBare key) : ∀ c ∈ key.toList, isBareKeyChar c = true :=
  List.all_eq_true.mp bare.2

theorem IsBare.eq_cons (bare : IsBare key) :
    ∃ c more, key.toList = c :: more ∧ isBareKeyChar c = true := by
  obtain ⟨c, more, chars⟩ := List.exists_cons_of_ne_nil bare.1
  exact ⟨c, more, chars, bare.of_mem c (by simp [chars])⟩

theorem simpleKey_bare (bare : IsBare key) (rest : List Char) :
    ∃ k, simpleKey (key.toList ++ ' ' :: rest) = some (k, ' ' :: rest) ∧ k.name = key := by
  have front : (key.toList ++ ' ' :: rest).takeWhile isBareKeyChar = key.toList := by
    rw [List.takeWhile_append_of_pos bare.of_mem]
    simp [isBareKeyChar]
  have behind : (key.toList ++ ' ' :: rest).dropWhile isBareKeyChar = ' ' :: rest := by
    rw [List.dropWhile_append_of_pos bare.of_mem]
    exact List.dropWhile_cons_of_neg (by decide)
  refine ⟨⟨key, bytesLeft (key.toList ++ ' ' :: rest), bytesLeft (' ' :: rest)⟩, ?_, rfl⟩
  unfold simpleKey
  split
  · next none => exact absurd (front.symm.trans none) bare.1
  · rw [front, behind, String.ofList_toList]

theorem keyParts_bare (bare : IsBare key) (limit : Nat) (rest : List Char) :
    ∃ k, keyParts (limit + 1) (key.toList ++ ' ' :: '=' :: rest) = some ([k], '=' :: rest) ∧
      k.name = key := by
  obtain ⟨k, read, name⟩ := simpleKey_bare bare ('=' :: rest)
  obtain ⟨c, more, chars, solid⟩ := bare.eq_cons
  have front : skipBlanks (key.toList ++ ' ' :: '=' :: rest) = key.toList ++ ' ' :: '=' :: rest := by
    rw [chars]
    exact skipBlanks_bare solid
  have behind : skipBlanks (' ' :: '=' :: rest) = '=' :: rest := rfl
  exact ⟨k, by simp [keyParts, front, read, behind], name⟩

theorem dottedKey_bare (bare : IsBare key) (rest : List Char) :
    ∃ k, dottedKey (key.toList ++ ' ' :: '=' :: rest) = some ([], k, '=' :: rest) ∧ k.name = key := by
  obtain ⟨k, read, name⟩ := keyParts_bare bare 78 rest
  exact ⟨k, by simp [dottedKey, depthLimit, read], name⟩

end Keys

section Lines

variable {lines : List (List Char)} {node : Node} {read : List Statement}

def isFiller (line : List Char) : Bool :=
  match line.dropWhile fun c => c == ' ' || c == '\t' with
  | [] => true
  | '#' :: comment => comment.all isPlain
  | _ => false

def assignment (key : String) (written : List Char) : List Char :=
  key.toList ++ ' ' :: '=' :: ' ' :: written

/-- The lines of a text. The last may be without an end. -/
inductive LinesOf : List (List Char) → List Char → Prop
  | none : LinesOf [] []
  | last (front : List Char) : LinesOf [front] front
  | lineFeed {front below : List Char} {others : List (List Char)} (more : LinesOf others below) :
      LinesOf (front :: others) (front ++ '\n' :: below)
  | carriage {front below : List Char} {others : List (List Char)} (more : LinesOf others below) :
      LinesOf (front :: others) (front ++ '\r' :: '\n' :: below)

/-- What stands behind the content of a line: its end and more lines, or nothing. -/
def EndsLine (rest more : List Char) : Prop :=
  rest = [] ∧ more = [] ∨ rest = '\n' :: more ∨ rest = '\r' :: '\n' :: more

theorem LinesOf.eq_append (cut : LinesOf (line :: lines) s) :
    ∃ rest more, s = line ++ rest ∧ EndsLine rest more ∧ LinesOf lines more := by
  cases cut with
  | last => exact ⟨[], [], (List.append_nil _).symm, .inl ⟨rfl, rfl⟩, .none⟩
  | lineFeed below => exact ⟨_, _, rfl, .inr (.inl rfl), below⟩
  | carriage below => exact ⟨_, _, rfl, .inr (.inr rfl), below⟩

theorem lineEnd?_of_ends (ends : EndsLine rest more) : lineEnd? rest = some more := by
  rcases ends with ⟨rfl, rfl⟩ | rfl | rfl <;> rfl

theorem EndsLine.dropWhile_isTextChar (ends : EndsLine rest more) :
    rest.dropWhile isTextChar = rest := by
  rcases ends with ⟨rfl, rfl⟩ | rfl | rfl <;> rfl

/-- Nothing is left of a line that holds nothing. -/
theorem lineEnd?_filler (filler : isFiller line = true) (ends : EndsLine rest more) :
    lineEnd? (line ++ rest) = some more := by
  unfold isFiller at filler
  split at filler
  · next blank =>
    have skipped : skipBlanks (line ++ rest) = skipBlanks rest := by
      have blank : line.dropWhile isBlank = [] := blank
      rw [skipBlanks, List.dropWhile_append, blank]
      rfl
    have behind := lineEnd?_of_ends ends
    rwa [lineEnd?, ← skipped] at behind
  · next comment hash =>
    have skipped : skipBlanks (line ++ rest) = '#' :: (comment ++ rest) := by
      have hash : line.dropWhile isBlank = '#' :: comment := hash
      rw [skipBlanks, List.dropWhile_append, hash]
      rfl
    have plain : ∀ c ∈ comment, isTextChar c = true := List.all_eq_true.mp filler
    have past : skipComment ('#' :: (comment ++ rest)) = rest := by
      rw [skipComment, List.dropWhile_append_of_pos plain, ends.dropWhile_isTextChar]
    rw [lineEnd?, skipped, past]
    rcases ends with ⟨rfl, rfl⟩ | rfl | rfl <;> rfl
  · contradiction

/-- The statements of a text, under any bound that its length allows. -/
def Yields (s : List Char) (read : List Statement) : Prop :=
  ∀ bound, s.length < bound → statements bound s = some read

theorem yields_nil : Yields [] [] := by
  intro bound long
  obtain ⟨bound, rfl⟩ : ∃ b, bound = b + 1 := ⟨bound - 1, by omega⟩
  rfl

theorem statements_blank (bound : Nat) (blank : skipBlanks s = []) :
    statements (bound + 1) s = some [] := by
  simp only [statements, blank]

theorem statements_past (begins : skipBlanks s = c :: rest)
    (ended : lineEnd? (c :: rest) = some more) :
    statements (bound + 1) s = statements bound more := by
  simp only [statements, begins, ended]

theorem EndsLine.length_lt (ends : EndsLine rest more) (line : List Char)
    (someChar : line ++ rest ≠ []) : more.length < (line ++ rest).length := by
  rcases ends with ⟨rfl, rfl⟩ | rfl | rfl
  · exact List.length_pos_iff.mpr someChar
  · simp only [List.length_append, List.length_cons]
    omega
  · simp only [List.length_append, List.length_cons]
    omega

/-- A line that holds nothing adds no statement. -/
theorem yields_filler (filler : isFiller line = true) (ends : EndsLine rest more)
    (behind : Yields more read) : Yields (line ++ rest) read := by
  intro bound long
  obtain ⟨bound, rfl⟩ : ∃ b, bound = b + 1 := ⟨bound - 1, by omega⟩
  have ended := lineEnd?_filler filler ends
  cases begins : skipBlanks (line ++ rest) with
  | nil =>
    -- blanks up to the end of the text, which takes no further step
    obtain rfl : [] = more := by simpa [lineEnd?, begins, skipComment] using ended
    rw [statements_blank bound begins, ← @statements_blank [] 0 rfl]
    exact behind 1 (by decide)
  | cons c below =>
    have shorter := ends.length_lt line (by rintro empty; rw [empty] at begins; cases begins)
    have same : lineEnd? (c :: below) = lineEnd? (line ++ rest) := by
      rw [← begins, lineEnd?, lineEnd?, skipBlanks, skipBlanks, List.dropWhile_idempotent]
    rw [statements_past begins (same.trans ended)]
    exact behind bound (by omega)

theorem readStatement_assignment (bare : IsBare key)
    (solid : skipBlanks (written ++ rest) = written ++ rest)
    (given : value (written ++ rest) = some (node, rest)) :
    ∃ l : Line, readStatement (assignment key written ++ rest) = some (.line l, rest) ∧
      l.path = [] ∧ l.key.name = key ∧ l.value = node := by
  obtain ⟨k, keyed, name⟩ := dottedKey_bare bare (' ' :: (written ++ rest))
  obtain ⟨c, more, chars, first⟩ := bare.eq_cons
  have noBracket : c ≠ '[' := ne_of_isBareKeyChar first (by decide)
  have text : assignment key written ++ rest =
      key.toList ++ ' ' :: '=' :: ' ' :: (written ++ rest) := by
    simp [assignment]
  have space : skipBlanks (' ' :: (written ++ rest)) = written ++ rest := solid
  have line : readLine (key.toList ++ ' ' :: '=' :: ' ' :: (written ++ rest)) =
      some (⟨[], k, node⟩, rest) := by
    simp [readLine, keyed, space, given]
  refine ⟨⟨[], k, node⟩, ?_, rfl, name, rfl⟩
  rw [text]
  unfold readStatement
  split
  · next bracket =>
    rw [chars] at bracket
    exact absurd (List.cons.inj bracket).1 noBracket
  · rw [line]
    rfl

theorem statements_statement {statement : Statement} (begins : skipBlanks s = c :: line)
    (unended : lineEnd? (c :: line) = none)
    (first : readStatement (c :: line) = some (statement, rest)) (ended : lineEnd? rest = some more) :
    statements (bound + 1) s = (statements bound more).map (statement :: ·) := by
  rw [statements, begins]
  simp only [unended, first, Option.bind_eq_bind, Option.bind_some, ended]
  cases statements bound more <;> rfl

/-- A line does not end where a key begins. -/
theorem lineEnd?_bare (bare : isBareKeyChar c = true) : lineEnd? (c :: s) = none := by
  have hash : c ≠ '#' := ne_of_isBareKeyChar bare (by decide)
  have feed : c ≠ '\n' := ne_of_isBareKeyChar bare (by decide)
  have ret : c ≠ '\r' := ne_of_isBareKeyChar bare (by decide)
  simp [lineEnd?, skipBlanks_bare bare, skipComment, newline?, hash, feed, ret]

/-- A line that gives a key a value is a statement. -/
theorem yields_assignment (bare : IsBare key) (solid : skipBlanks (written ++ rest) = written ++ rest)
    (given : value (written ++ rest) = some (node, rest)) (ends : EndsLine rest more)
    (behind : Yields more read) :
    ∃ l : Line, Yields (assignment key written ++ rest) (.line l :: read) ∧
      l.path = [] ∧ l.key.name = key ∧ l.value = node := by
  obtain ⟨l, statement, path, name, same⟩ := readStatement_assignment bare solid given
  refine ⟨l, fun bound long => ?_, path, name, same⟩
  obtain ⟨bound, rfl⟩ : ∃ b, bound = b + 1 := ⟨bound - 1, by omega⟩
  obtain ⟨c, chars, eq, first⟩ := bare.eq_cons
  have text : assignment key written ++ rest =
      c :: (chars ++ ' ' :: '=' :: ' ' :: (written ++ rest)) := by
    simp [assignment, eq]
  have shorter := ends.length_lt (assignment key written) (by simp [text])
  rw [text] at statement shorter long ⊢
  rw [statements_statement (skipBlanks_bare first) (lineEnd?_bare first) statement
    (lineEnd?_of_ends ends), behind bound (by omega), Option.map_some]

end Lines

section Documents

variable {ls : List Line} {entries : List (String × Node)}

def entriesOf (ls : List Line) : List (String × Node) :=
  ls.map fun l => (l.key.name, l.value)

theorem sections_lines (ls : List Line) : sections (ls.map .line) = (ls, []) := by
  induction ls with
  | nil => rfl
  | cons l ls ih => rw [List.map_cons, sections, ih]

theorem enterLine_top (span : Span) {l : Line} (top : l.path = [])
    (new : l.key.name ∉ entries.map Prod.fst) :
    ∃ span', (Node.table span .header entries).enterLine l =
      some (.table span' .header (entries ++ [(l.key.name, l.value)])) := by
  have missing : entries.lookup l.key.name = none := by
    refine List.lookup_eq_none_iff.mpr fun e member => ?_
    exact bne_iff_ne.mpr fun same => new (List.mem_map.mpr ⟨e, member, same.symm⟩)
  exact ⟨⟨span.start, l.value.span.stop⟩, by simp [Node.enterLine, Node.within, Node.enterValue,
    Node.reachTo, top, missing]⟩

/-- Lines of distinct keys enter one behind the other. -/
theorem foldlM_enterLine_top (span : Span) (entries : List (String × Node))
    (top : ∀ l ∈ ls, l.path = []) (distinct : ((entries ++ entriesOf ls).map Prod.fst).Nodup) :
    ∃ span', ls.foldlM Node.enterLine (.table span .header entries) =
      some (.table span' .header (entries ++ entriesOf ls)) := by
  induction ls generalizing entries span with
  | nil => exact ⟨span, by simp [entriesOf]⟩
  | cons l ls ih =>
    have next : entries ++ entriesOf (l :: ls) =
        (entries ++ [(l.key.name, l.value)]) ++ entriesOf ls := by
      simp [entriesOf]
    rw [next] at distinct ⊢
    have new : l.key.name ∉ entries.map Prod.fst := by
      rw [List.map_append, List.map_append] at distinct
      have apart := (List.nodup_append.mp (List.nodup_append.mp distinct).1).2.2
      exact fun known => apart _ known _ (by simp) rfl
    obtain ⟨middle, entered⟩ := enterLine_top span (top l List.mem_cons_self) new
    obtain ⟨span', rest⟩ := ih middle _ (fun m member => top m (List.mem_cons_of_mem l member))
      distinct
    exact ⟨span', by rw [List.foldlM_cons, entered]; exact rest⟩

theorem sections?_of_yields (yields : Yields s (ls.map .line))
    (unmarked : skipByteOrderMark s = s) : sections? s = some (ls, []) := by
  rw [sections?, unmarked, yields _ (Nat.lt_succ_self _), Option.map_some, sections_lines]

/-- A text of nothing but lines of distinct keys is a document of their entries. -/
theorem Document.read?_of_yields (yields : Yields s (ls.map .line))
    (unmarked : skipByteOrderMark s = s) (top : ∀ l ∈ ls, l.path = [])
    (distinct : ((entriesOf ls).map Prod.fst).Nodup) :
    ∃ span, Document.read? (String.ofList s) = some ⟨span, entriesOf ls⟩ := by
  obtain ⟨span, entered⟩ := foldlM_enterLine_top ⟨bytesLeft s, bytesLeft s⟩ [] top distinct
  refine ⟨span, ?_⟩
  rw [read?, String.toList_ofList, ofChars?, sections?_of_yields yields unmarked]
  change (ls.foldlM Node.enterLine _).bind _ = _
  rw [entered]
  rfl

end Documents

end MemberOrder.Toml
