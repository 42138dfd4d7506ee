import MemberOrder.Json.Reader
import MemberOrder.Json.Writer

/-! Reading JSON undoes writing it, in either layout. The reader is followed through the text
piece by piece: an escape gives back its character, digits give back their number, and an item
ends where its comma or bracket begins. Left out are doubles, which have shorter texts than
they have digits, and integers that a reader turns into doubles. -/
namespace MemberOrder.Json

variable {c : Char} {s rest blanks : List Char} {v : Json} {layout outer : Layout} {bound n : Nat}

section Blanks

theorem skipBlanks_blanks (blank : ∀ c ∈ blanks, isBlank c = true) :
    skipBlanks (blanks ++ s) = skipBlanks s := by
  induction blanks with
  | nil => rfl
  | cons c blanks ih =>
    have here := blank c List.mem_cons_self
    have further := ih fun d member => blank d (List.mem_cons_of_mem c member)
    rw [List.cons_append, skipBlanks, List.dropWhile_cons_of_pos here]
    exact further

theorem skipBlanks_of_not_blank (solid : isBlank c = false) : skipBlanks (c :: s) = c :: s :=
  List.dropWhile_cons_of_neg (by simp [solid])

theorem isBlank_of_mem_lineBreak (member : c ∈ layout.lineBreak) : isBlank c = true := by
  cases layout with
  | compact => simp [Layout.lineBreak] at member
  | spread level =>
    rcases List.mem_cons.mp member with rfl | blank
    · rfl
    · rw [List.eq_of_mem_replicate blank]
      rfl

theorem skipBlanks_lineBreak : skipBlanks (layout.lineBreak ++ s) = skipBlanks s :=
  skipBlanks_blanks fun _ => isBlank_of_mem_lineBreak

/-- A colon, and behind it nothing or a blank. -/
theorem colon_eq (layout : Layout) :
    ∃ blanks, layout.colon = ':' :: blanks ∧ ∀ c ∈ blanks, isBlank c = true := by
  cases layout with
  | compact => exact ⟨[], rfl, by simp⟩
  | spread => exact ⟨[' '], rfl, by simp [isBlank]⟩

theorem colon_deeper (layout : Layout) : layout.deeper.colon = layout.colon := by
  cases layout <;> rfl

end Blanks

section Strings

/-- The escape of a control character is read as its code. -/
theorem stringChars_hexPair (control : c.toNat < 0x20) :
    stringChars .plain (['\\', 'u', '0', '0'] ++ hexPair c.toNat ++ rest) =
      (stringChars .plain rest).map fun r => (c :: r.1, r.2) := by
  have high := Text.hexValue?_digitChar (d := c.toNat / 16) (by omega)
  have low := Text.hexValue?_digitChar (d := c.toNat % 16) (by omega)
  have zero : Text.hexValue? '0' = some 0 := rfl
  have code : c.toNat / 16 * 16 + c.toNat % 16 = c.toNat := by omega
  have unit : StringState.afterUnit none c.toNat = some (.plain, some c) := by
    have high : ¬0xD800 ≤ c.toNat := by omega
    have low : ¬0xDC00 ≤ c.toNat := by omega
    simp [StringState.afterUnit, high, low, Char.ofNat_toNat]
  simp [stringChars, hexPair, zero, high, low, code, unit]

/-- What is written for a character is read as that character. -/
theorem stringChars_escapeChar (c : Char) (rest : List Char) :
    stringChars .plain (escapeChar c ++ rest) =
      (stringChars .plain rest).map fun r => (c :: r.1, r.2) := by
  unfold escapeChar
  split
  · next quote => subst quote; rfl
  split
  · next backslash => subst backslash; rfl
  split
  · next newline => subst newline; rfl
  split
  · next ret => subst ret; rfl
  split
  · next tab => subst tab; rfl
  split
  · next eight =>
    obtain rfl : c = '\x08' := by rw [← Char.ofNat_toNat c, eight]
    rfl
  split
  · next twelve =>
    obtain rfl : c = '\x0c' := by rw [← Char.ofNat_toNat c, twelve]
    rfl
  split
  · next control => exact stringChars_hexPair control
  · next noQuote noBackslash _ _ _ _ _ noControl =>
    simp [stringChars, noQuote, noBackslash, noControl]

theorem stringChars_flatMap_escapeChar (s rest : List Char) :
    stringChars .plain (s.flatMap escapeChar ++ '"' :: rest) = some (s, rest) := by
  induction s with
  | nil => rfl
  | cons c s ih =>
    rw [List.flatMap_cons, List.append_assoc, stringChars_escapeChar, ih]
    rfl

theorem readString_writeString (text : String) (rest : List Char) :
    ∃ s, writeString text ++ rest = '"' :: s ∧ readString s = some (text, rest) := by
  refine ⟨text.toList.flatMap escapeChar ++ '"' :: rest, by simp [writeString], ?_⟩
  rw [readString, stringChars_flatMap_escapeChar, Option.map_some, String.ofList_toList]

end Strings

section Numbers

/-- A number that stands before this text ends there. -/
def EndsNumber (rest : List Char) : Prop :=
  ∀ c ∈ rest.head?, c.isDigit = false ∧ c ≠ '.' ∧ c ≠ 'e' ∧ c ≠ 'E'

theorem digits_append (figures : ∀ c ∈ s, c.isDigit = true) (ends : EndsNumber rest) :
    digits (s ++ rest) = (s.map digitValue, rest) := by
  have stops : rest.takeWhile Char.isDigit = [] ∧ rest.dropWhile Char.isDigit = rest := by
    cases rest with
    | nil => exact ⟨rfl, rfl⟩
    | cons c rest =>
      have other := (ends c rfl).1
      simp [other]
  rw [digits, List.takeWhile_append_of_pos figures, List.dropWhile_append_of_pos figures, stops.1,
    stops.2, List.append_nil]

theorem isDigit_of_mem_toDigits (member : c ∈ Nat.toDigits 10 n) : c.isDigit = true :=
  Nat.isDigit_of_mem_toDigits (by omega) (by omega) member

theorem exists_toDigits_eq_cons (n : Nat) :
    ∃ first further, Nat.toDigits 10 n = first :: further ∧ first.isDigit = true := by
  obtain ⟨first, further, eq⟩ :=
    List.exists_cons_of_ne_nil (Nat.toDigits_ne_nil (n := n) (b := 10))
  exact ⟨first, further, eq, isDigit_of_mem_toDigits (n := n) (by simp [eq])⟩

theorem ne_of_isDigit {b : Char} (figure : c.isDigit = true) (noFigure : b.isDigit = false) :
    c ≠ b := by
  rintro rfl
  rw [figure] at noFigure
  contradiction

theorem ofDigits_toDigits (n : Nat) : ofDigits ((Nat.toDigits 10 n).map digitValue) = n := by
  have value := Nat.ofDigitChars_toDigits (b := 10) (n := n) (by omega) (by omega)
  rw [Nat.ofDigitChars] at value
  rw [ofDigits, List.foldl_map]
  simpa only [Nat.mul_comm, digitValue] using value

theorem head?_toDigits_ne (positive : 0 < n) :
    ((Nat.toDigits 10 n).map digitValue).head? ≠ some 0 := by
  induction n using Nat.strongRecOn with
  | ind n ih =>
    by_cases small : n < 10
    · have checked : ∀ m < 10, 0 < m → digitValue (Nat.digitChar m) ≠ 0 := by decide
      rw [Nat.toDigits_of_lt_base small]
      simpa using checked n small positive
    · -- the digits of the quotient stand in front, and they begin with no zero
      have ahead := ih (n / 10) (by omega) (by omega)
      obtain ⟨first, further, eq, _⟩ := exists_toDigits_eq_cons (n / 10)
      rw [eq] at ahead
      rw [Nat.toDigits_of_base_le (by omega) (by omega), eq]
      exact ahead

/-- A zero stands in front of no other digit. -/
theorem properDigits (n : Nat) :
    ¬(((Nat.toDigits 10 n).map digitValue).isEmpty = true ∨
      ((Nat.toDigits 10 n).map digitValue).head? = some 0 ∧
        1 < ((Nat.toDigits 10 n).map digitValue).length) := by
  rintro (empty | ⟨zero, long⟩)
  · simp at empty
  · rcases Nat.eq_zero_or_pos n with rfl | positive
    · simp at long
    · exact head?_toDigits_ne positive zero

/-- No fraction and no exponent begins where a number ends. -/
theorem fractionPart_of_ends (ends : EndsNumber rest) : fractionPart rest = some (none, rest) := by
  cases rest with
  | nil => rfl
  | cons c rest =>
    have noPoint := (ends c rfl).2.1
    unfold fractionPart
    split
    · next point => exact absurd (List.cons.inj point).1 noPoint
    · rfl

theorem exponentPart_of_ends (ends : EndsNumber rest) : exponentPart rest = some (none, rest) := by
  cases rest with
  | nil => rfl
  | cons c rest =>
    have noMark := (ends c rfl).2.2
    simp [exponentPart, noMark]

theorem wholeNumber_toDigits (fits : n < UInt64.size) :
    wholeNumber false ((Nat.toDigits 10 n).map digitValue) = some (.integer n) := by
  simp [wholeNumber, ofDigits_toDigits, fits]

/-- The digits of a natural number are read as that number. -/
theorem number_toDigits (fits : n < UInt64.size) (ends : EndsNumber rest) :
    number (Nat.toDigits 10 n ++ rest) = some (.integer n, rest) := by
  have figures := digits_append (fun c => isDigit_of_mem_toDigits (c := c) (n := n)) ends
  unfold number
  split
  next negative unsigned signed =>
    have sign : negative = false ∧ unsigned = Nat.toDigits 10 n ++ rest := by
      split at signed
      · next behind minus =>
        obtain ⟨first, further, eq, figure⟩ := exists_toDigits_eq_cons n
        rw [eq, List.cons_append] at minus
        exact absurd (List.cons.inj minus).1 (ne_of_isDigit figure rfl)
      · exact ⟨(Prod.mk.inj signed).1.symm, (Prod.mk.inj signed).2.symm⟩
    obtain ⟨rfl, rfl⟩ := sign
    simp only [figures, if_neg (properDigits n), fractionPart_of_ends ends,
      wholeNumber_toDigits fits]
    simp [exponentPart_of_ends ends]

end Numbers

section Values

inductive Exact : Json → Prop
  | null : Exact .null
  | boolean (b : Bool) : Exact (.boolean b)
  | natural {n : Nat} (fits : n < UInt64.size) : Exact (.integer n)
  | string (text : String) : Exact (.string text)
  | array {items : List Json} (each : ∀ v ∈ items, Exact v) : Exact (.array items)
  | object {members : List (String × Json)} (each : ∀ m ∈ members, Exact m.2) :
      Exact (.object members)

/-- The text of the value is read as the value, in either layout and whatever follows. -/
def ReadsBack (v : Json) : Prop :=
  ∀ layout bound rest, (v.write layout).length ≤ bound → EndsNumber rest →
    readValue bound (v.write layout ++ rest) = some (v, rest)

theorem write_natural (layout : Layout) (n : Nat) :
    (Json.integer n).write layout = Nat.toDigits 10 n := by
  rw [write]
  exact Nat.toList_repr

theorem isBlank_of_isDigit (figure : c.isDigit = true) : isBlank c = false := by
  simp [isBlank, ne_of_isDigit figure]

/-- No value begins like a blank or like the end of an array. -/
theorem Exact.write_eq_cons (plain : Exact v) (layout : Layout) :
    ∃ c s, v.write layout = c :: s ∧ isBlank c = false ∧ c ≠ ']' := by
  cases plain with
  | null => exact ⟨_, _, rfl, rfl, by decide⟩
  | boolean b => cases b <;> exact ⟨_, _, rfl, rfl, by decide⟩
  | @natural n fits =>
    obtain ⟨first, further, eq, figure⟩ := exists_toDigits_eq_cons n
    exact ⟨first, further, (write_natural layout n).trans eq, isBlank_of_isDigit figure,
      ne_of_isDigit figure rfl⟩
  | string text => exact ⟨_, _, rfl, rfl, by decide⟩
  | @array items each => cases items <;> exact ⟨_, _, rfl, rfl, by decide⟩
  | @object members each =>
    rcases members with _ | ⟨⟨name, v⟩, rest⟩ <;> exact ⟨_, _, rfl, rfl, by decide⟩

theorem endsNumber_lineBreak {rest : List Char} (ends : EndsNumber rest) :
    EndsNumber (outer.lineBreak ++ rest) := by
  cases outer with
  | compact => exact ends
  | spread level =>
    rintro c ⟨⟩
    decide

theorem endsNumber_cons (ends : c ∈ [',', ']', '\x7d']) : EndsNumber (c :: rest) := by
  rintro d ⟨⟩
  simp only [List.mem_cons, List.not_mem_nil, or_false] at ends
  rcases ends with rfl | rfl | rfl <;> decide

/-- What follows an item ends a number that the item may be. -/
theorem endsNumber_writeItems (layout : Layout) (items : List Json) :
    EndsNumber (writeItems layout items ++ (outer.lineBreak ++ ']' :: rest)) := by
  cases items with
  | nil =>
    rw [writeItems, List.nil_append]
    exact endsNumber_lineBreak (endsNumber_cons (by decide))
  | cons v items =>
    rw [writeItems]
    exact endsNumber_cons (by decide)

/-- Items are read one by one up to the bracket behind them. -/
theorem readItems_write {items : List Json} (plain : ∀ w ∈ v :: items, Exact w)
    (readsBack : ∀ w ∈ v :: items, ReadsBack w)
    (long : (v.write layout ++ writeItems layout items).length < bound) :
    readItems bound (v.write layout ++
      (writeItems layout items ++ (outer.lineBreak ++ ']' :: rest))) =
      some (v :: items, rest) := by
  induction items generalizing v bound with
  | nil =>
    obtain ⟨bound, rfl⟩ : ∃ b, bound = b + 1 := ⟨bound - 1, by omega⟩
    rw [List.length_append] at long
    rw [readItems, readsBack v List.mem_cons_self layout bound _ (by omega)
      (endsNumber_writeItems layout [])]
    simp only [writeItems, List.nil_append, skipBlanks_lineBreak]
    rw [skipBlanks_of_not_blank (by decide)]
    rfl
  | cons w items ih =>
    obtain ⟨bound, rfl⟩ : ∃ b, bound = b + 1 := ⟨bound - 1, by omega⟩
    have shorter : (w.write layout ++ writeItems layout items).length < bound := by
      simp only [writeItems, List.length_append, List.length_cons] at long ⊢
      omega
    have further := ih (fun u member => plain u (List.mem_cons_of_mem v member))
      (fun u member => readsBack u (List.mem_cons_of_mem v member)) shorter
    obtain ⟨c, s, begins, solid, _⟩ := (plain w (by simp)).write_eq_cons layout
    have skipped : skipBlanks (layout.lineBreak ++ (w.write layout ++ (writeItems layout items ++
        (outer.lineBreak ++ ']' :: rest)))) =
        w.write layout ++ (writeItems layout items ++ (outer.lineBreak ++ ']' :: rest)) := by
      rw [skipBlanks_lineBreak, begins]
      exact skipBlanks_of_not_blank solid
    rw [List.length_append] at long
    rw [readItems, readsBack v List.mem_cons_self layout bound _ (by omega)
      (endsNumber_writeItems layout _)]
    simp only [writeItems, List.cons_append, List.append_assoc]
    rw [skipBlanks_of_not_blank (by decide)]
    simp only [skipped, further, Option.map_some]

def memberText (layout : Layout) (m : String × Json) : List Char :=
  writeString m.1 ++ layout.colon ++ m.2.write layout

theorem endsNumber_writeMembers (layout : Layout) (members : List (String × Json)) :
    EndsNumber (writeMembers layout members ++ (outer.lineBreak ++ '\x7d' :: rest)) := by
  cases members with
  | nil =>
    rw [writeMembers, List.nil_append]
    exact endsNumber_lineBreak (endsNumber_cons (by decide))
  | cons m members =>
    rw [writeMembers]
    exact endsNumber_cons (by decide)

/-- The stages in which a member is read: its name, and the value behind its colon. -/
theorem memberText_stages {m : String × Json} (plain : Exact m.2) (readsBack : ReadsBack m.2)
    (long : (memberText layout m).length ≤ bound) (ends : EndsNumber rest) :
    ∃ s t, memberText layout m ++ rest = '"' :: s ∧ readString s = some (m.1, ':' :: t) ∧
      readValue bound (skipBlanks t) = some (m.2, rest) := by
  obtain ⟨name, v⟩ := m
  obtain ⟨gap, colon, blank⟩ := colon_eq layout
  obtain ⟨c, _, begins, solid, _⟩ := plain.write_eq_cons layout
  obtain ⟨s, quoted, read⟩ := readString_writeString name (':' :: (gap ++ (v.write layout ++ rest)))
  have text : memberText layout (name, v) ++ rest = '"' :: s := by
    rw [← quoted, memberText, colon]
    simp
  have value : skipBlanks (gap ++ (v.write layout ++ rest)) = v.write layout ++ rest := by
    rw [skipBlanks_blanks blank, begins]
    exact skipBlanks_of_not_blank solid
  have short : (v.write layout).length ≤ bound := by
    simp only [memberText, List.length_append] at long
    omega
  refine ⟨s, _, text, read, ?_⟩
  rw [value]
  exact readsBack layout bound rest short ends

/-- A member is read up to the end of its value, and a comma calls for further ones. -/
theorem readMembers_comma {m : String × Json} {more : List Char} (plain : Exact m.2)
    (readsBack : ReadsBack m.2) (long : (memberText layout m).length ≤ bound)
    (ends : EndsNumber rest) (comma : skipBlanks rest = ',' :: more) :
    readMembers (bound + 1) (memberText layout m ++ rest) =
      (readMembers bound (skipBlanks more)).map fun r => (m :: r.1, r.2) := by
  obtain ⟨s, t, text, name, value⟩ := memberText_stages plain readsBack long ends
  have colon : skipBlanks (':' :: t) = ':' :: t := skipBlanks_of_not_blank rfl
  rw [text]
  simp only [readMembers, name, colon, value, comma]

theorem readMembers_brace {m : String × Json} {more : List Char} (plain : Exact m.2)
    (readsBack : ReadsBack m.2) (long : (memberText layout m).length ≤ bound)
    (ends : EndsNumber rest) (brace : skipBlanks rest = '\x7d' :: more) :
    readMembers (bound + 1) (memberText layout m ++ rest) = some ([m], more) := by
  obtain ⟨s, t, text, name, value⟩ := memberText_stages plain readsBack long ends
  have colon : skipBlanks (':' :: t) = ':' :: t := skipBlanks_of_not_blank rfl
  rw [text]
  simp only [readMembers, name, colon, value, brace]

theorem write_memberText (layout : Layout) (m : String × Json) (members : List (String × Json)) :
    writeMembers layout (m :: members) =
      ',' :: (layout.lineBreak ++ (memberText layout m ++ writeMembers layout members)) := by
  simp [writeMembers, memberText]

theorem skipBlanks_memberText (layout : Layout) (m : String × Json) (rest : List Char) :
    skipBlanks (layout.lineBreak ++ (memberText layout m ++ rest)) =
      memberText layout m ++ rest := by
  rw [skipBlanks_lineBreak]
  exact skipBlanks_of_not_blank (by decide)

/-- Members are read one by one up to the brace behind them. -/
theorem readMembers_write {m : String × Json} {members : List (String × Json)}
    (plain : ∀ e ∈ m :: members, Exact e.2) (readsBack : ∀ e ∈ m :: members, ReadsBack e.2)
    (long : (memberText layout m ++ writeMembers layout members).length < bound) :
    readMembers bound (memberText layout m ++
      (writeMembers layout members ++ (outer.lineBreak ++ '\x7d' :: rest))) =
      some (m :: members, rest) := by
  obtain ⟨bound, rfl⟩ : ∃ b, bound = b + 1 := ⟨bound - 1, by omega⟩
  -- every member takes one step of the bound, and its text is at least that long
  induction members generalizing m bound with
  | nil =>
    rw [List.length_append] at long
    refine readMembers_brace (plain m List.mem_cons_self) (readsBack m List.mem_cons_self)
      (by omega) (endsNumber_writeMembers layout []) ?_
    rw [writeMembers, List.nil_append, skipBlanks_lineBreak]
    exact skipBlanks_of_not_blank rfl
  | cons e members ih =>
    have shorter : (memberText layout e ++ writeMembers layout members).length < bound := by
      simp only [write_memberText, List.length_append, List.length_cons] at long ⊢
      omega
    obtain ⟨bound, rfl⟩ : ∃ b, bound = b + 1 := ⟨bound - 1, by omega⟩
    have further := ih (fun f member => plain f (List.mem_cons_of_mem m member))
      (fun f member => readsBack f (List.mem_cons_of_mem m member)) bound shorter
    rw [List.length_append] at long
    have comma : skipBlanks (writeMembers layout (e :: members) ++
        (outer.lineBreak ++ '\x7d' :: rest)) = ',' :: (layout.lineBreak ++ (memberText layout e ++
          (writeMembers layout members ++ (outer.lineBreak ++ '\x7d' :: rest)))) := by
      rw [write_memberText, List.cons_append, List.append_assoc, List.append_assoc]
      exact skipBlanks_of_not_blank rfl
    rw [readMembers_comma (plain m List.mem_cons_self) (readsBack m List.mem_cons_self)
      (by omega) (endsNumber_writeMembers layout _) comma, skipBlanks_memberText, further,
      Option.map_some]

theorem readValue_natural (fits : n < UInt64.size) (ends : EndsNumber rest) :
    readValue (bound + 1) (Nat.toDigits 10 n ++ rest) = some (.integer n, rest) := by
  have read := number_toDigits fits ends
  obtain ⟨first, further, eq, figure⟩ := exists_toDigits_eq_cons n
  rw [eq, List.cons_append] at read ⊢
  rw [readValue]
  all_goals simp [ne_of_isDigit figure, read]

theorem readValue_string (text : String) (rest : List Char) :
    readValue (bound + 1) (writeString text ++ rest) = some (.string text, rest) := by
  obtain ⟨s, quoted, read⟩ := readString_writeString text rest
  rw [quoted]
  simp only [readValue, read, Option.map_some]

theorem readValue_array {items : List Json} (plain : ∀ v ∈ items, Exact v)
    (readsBack : ∀ v ∈ items, ReadsBack v)
    (long : ((Json.array items).write layout).length ≤ bound + 1) :
    readValue (bound + 1) ((Json.array items).write layout ++ rest) =
      some (.array items, rest) := by
  cases items with
  | nil => rfl
  | cons v items =>
    obtain ⟨c, s, begins, solid, open_⟩ := (plain v List.mem_cons_self).write_eq_cons layout.deeper
    have short : (v.write layout.deeper ++ writeItems layout.deeper items).length < bound := by
      simp only [write, List.cons_append, List.length_cons, List.length_append] at long ⊢
      omega
    have read : readItems bound (v.write layout.deeper ++ (writeItems layout.deeper items ++
        (layout.lineBreak ++ ']' :: rest))) = some (v :: items, rest) :=
      readItems_write plain readsBack short
    simp only [write, List.cons_append, List.append_assoc, List.nil_append]
    rw [begins, List.cons_append] at read ⊢
    simp only [readValue, skipBlanks_lineBreak, skipBlanks_of_not_blank solid]
    split
    · next closing => exact absurd (List.cons.inj closing).1 open_
    · rw [read]
      rfl

theorem readValue_object {members : List (String × Json)} (plain : ∀ m ∈ members, Exact m.2)
    (readsBack : ∀ m ∈ members, ReadsBack m.2)
    (long : ((Json.object members).write layout).length ≤ bound + 1) :
    readValue (bound + 1) ((Json.object members).write layout ++ rest) =
      some (.object members, rest) := by
  cases members with
  | nil => rfl
  | cons m members =>
    have text : (Json.object (m :: members)).write layout = '\x7b' :: (layout.deeper.lineBreak ++
        (memberText layout.deeper m ++ (writeMembers layout.deeper members ++
          (layout.lineBreak ++ ['\x7d'])))) := by
      simp [write, memberText, colon_deeper]
    rw [text] at long ⊢
    have short : (memberText layout.deeper m ++
        writeMembers layout.deeper members).length < bound := by
      simp only [List.length_cons, List.length_append] at long ⊢
      omega
    have read : readMembers bound (memberText layout.deeper m ++
        (writeMembers layout.deeper members ++ (layout.lineBreak ++ '\x7d' :: rest))) =
        some (m :: members, rest) := readMembers_write plain readsBack short
    simp only [List.cons_append, List.append_assoc, List.nil_append]
    simp only [readValue, skipBlanks_memberText]
    split
    · next closing => exact absurd (List.cons.inj closing).1 (by decide)
    · rw [read]
      rfl

theorem ReadsBack.of_succ (plain : Exact v)
    (reads : ∀ layout bound rest, (v.write layout).length ≤ bound + 1 → EndsNumber rest →
      readValue (bound + 1) (v.write layout ++ rest) = some (v, rest)) : ReadsBack v := by
  intro layout bound rest long ends
  obtain ⟨c, s, begins, _⟩ := plain.write_eq_cons layout
  cases bound with
  | zero => simp [begins] at long
  | succ bound => exact reads layout bound rest long ends

/-- Every value is read back from its text. -/
theorem Exact.readsBack (plain : Exact v) : ReadsBack v := by
  induction plain with
  | null => exact .of_succ .null fun _ _ _ _ _ => rfl
  | boolean b =>
    refine .of_succ (.boolean b) fun _ _ _ _ _ => ?_
    cases b <;> rfl
  | natural fits =>
    refine .of_succ (.natural fits) fun layout bound rest _ ends => ?_
    rw [write_natural]
    exact readValue_natural fits ends
  | string text =>
    exact .of_succ (.string text) fun _ _ rest _ _ => readValue_string text rest
  | array each ih =>
    exact .of_succ (.array each) fun _ _ _ long _ => readValue_array each ih long
  | object each ih =>
    exact .of_succ (.object each) fun _ _ _ long _ => readValue_object each ih long

/-- A text of a value, with or without blanks behind it, stands for that value. -/
theorem read?_write (plain : Exact v) (layout : Layout) (blank : ∀ c ∈ blanks, isBlank c = true) :
    read? (String.ofList (v.write layout ++ blanks)) = some v := by
  obtain ⟨c, s, begins, solid, _⟩ := plain.write_eq_cons layout
  have ends : EndsNumber blanks := by
    intro c first
    have here := blank c (List.mem_of_mem_head? first)
    revert here
    simp only [isBlank, Bool.or_eq_true, beq_iff_eq]
    rintro (((rfl | rfl) | rfl) | rfl) <;> decide
  have front : skipBlanks (v.write layout ++ blanks) = v.write layout ++ blanks := by
    rw [begins]
    exact skipBlanks_of_not_blank solid
  have back : skipBlanks blanks = [] := by
    rw [← List.append_nil blanks, skipBlanks_blanks blank]
    rfl
  have long : (v.write layout).length ≤ (v.write layout ++ blanks).length + 1 := by
    rw [List.length_append]
    omega
  simp only [read?, String.toList_ofList, front, plain.readsBack layout _ blanks long ends, back]
  rfl

end Values

end MemberOrder.Json
