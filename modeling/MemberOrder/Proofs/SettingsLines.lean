import MemberOrder.Proofs.SettingsFormats
import MemberOrder.Proofs.TomlLines

/-! Settings written line by line. Lines that hold nothing may stand anywhere; each field has at
most one line, under either of its names. Such a text means what its lines list. -/
namespace MemberOrder.Settings

open Toml

inductive Lists : List (List Char) → Option Bool → Option (List String) → Prop
  | nil : Lists [] none none
  | filler {line : List Char} {lines : List (List Char)} {flag : Option Bool}
      {order : Option (List String)} (empty : isFiller line = true) (below : Lists lines flag order) :
      Lists (line :: lines) flag order
  | strict {key : String} {lines : List (List Char)} {order : Option (List String)} (b : Bool)
      (named : key ∈ ["use_class_attributes_order_strict_mode", "strict"])
      (below : Lists lines none order) :
      Lists (assignment key (toString b).toList :: lines) (some b) order
  | order {key : String} {lines texts : List (List Char)} {flag : Option Bool} {names : List String}
      (named : key ∈ ["class_attributes_order", "order"]) (quoted : List.Forall₂ Quotes names texts)
      (below : Lists lines flag none) :
      Lists (assignment key ('[' :: itemsText texts) :: lines) flag (some names)

section Reading

variable {lines : List (List Char)} {line s rest more written : List Char} {flag : Option Bool}
  {order : Option (List String)} {key : String} {v : Node} {entries : List (String × Node)}
  {d d' : Draft}

theorem ofKey?_eq_strict (named : key ∈ ["use_class_attributes_order_strict_mode", "strict"]) :
    Field.ofKey? key = some .strict := by
  simp only [List.mem_cons, List.not_mem_nil, or_false] at named
  rcases named with rfl | rfl <;> decide

theorem ofKey?_eq_order (named : key ∈ ["class_attributes_order", "order"]) :
    Field.ofKey? key = some .order := by
  simp only [List.mem_cons, List.not_mem_nil, or_false] at named
  rcases named with rfl | rfl <;> decide

theorem isBare_of_ofKey? (named : Field.ofKey? key ≠ none) : IsBare key := by
  rw [Ne, ofKey?_eq_none_iff, not_not] at named
  simp only [fieldNames, List.mem_cons, List.not_mem_nil, or_false] at named
  rcases named with rfl | rfl | rfl | rfl <;> exact ⟨by decide +kernel, by decide +kernel⟩

/-- An entry that fills a field has another name than those before it. -/
theorem Filled.not_mem (filled : Filled entries d) (named : Field.ofKey? key ≠ none)
    (entered : d.enter key v = .ok d') : key ∉ entries.map Prod.fst := by
  rintro known
  obtain ⟨e, member, rfl⟩ := List.mem_map.mp known
  obtain ⟨other, -⟩ | ⟨strict, isOpen, -⟩ | ⟨order, isOpen, -⟩ := Draft.enter_eq_ok_iff.mp entered
  · exact named other
  · exact filled.strict_eq_none_iff.mp isOpen e member strict
  · exact filled.order_eq_none_iff.mp isOpen e member order

/-- A text of lines of distinct keys, whose entries fill the fields of a draft. -/
def Reads (s : List Char) (d : Draft) : Prop :=
  ∃ ls : List Line, Yields s (ls.map .line) ∧ (∀ l ∈ ls, l.path = []) ∧
    ((entriesOf ls).map Prod.fst).Nodup ∧ Filled (entriesOf ls) d

theorem reads_nil : Reads [] {} :=
  ⟨[], yields_nil, by simp, List.nodup_nil, filled_nil_iff.mpr rfl⟩

theorem reads_filler (empty : isFiller line = true) (ends : EndsLine rest more) (below : Reads more d) :
    Reads (line ++ rest) d := by
  obtain ⟨ls, yields, reads⟩ := below
  exact ⟨ls, yields_filler empty ends yields, reads⟩

/-- A line of a field that is left open below fills it. -/
theorem reads_assignment (named : Field.ofKey? key ≠ none)
    (solid : skipBlanks (written ++ rest) = written ++ rest)
    (given : value (written ++ rest) = some (v, rest)) (entered : d.enter key v = .ok d')
    (ends : EndsLine rest more) (below : Reads more d) : Reads (assignment key written ++ rest) d' := by
  obtain ⟨ls, yields, top, distinct, filled⟩ := below
  obtain ⟨l, yields, path, rfl, rfl⟩ :=
    yields_assignment (isBare_of_ofKey? named) solid given ends yields
  refine ⟨l :: ls, yields, List.forall_mem_cons.mpr ⟨path, top⟩,
    List.nodup_cons.mpr ⟨filled.not_mem named entered, distinct⟩, ?_⟩
  -- the entry stands in front, and fills the same as behind all others
  exact (filled.enter entered).perm (List.perm_append_singleton _ _)

/-- The lines are read as they are listed. -/
theorem Lists.reads (lists : Lists lines flag order) (cut : LinesOf lines s) :
    Reads s { strict := flag, order := order.map some } := by
  induction lists generalizing s with
  | nil =>
    cases cut
    exact reads_nil
  | filler empty _ ih =>
    obtain ⟨rest, more, rfl, ends, cut⟩ := cut.eq_append
    exact reads_filler empty ends (ih cut)
  | @strict key lines order b named _ ih =>
    obtain ⟨rest, more, rfl, ends, cut⟩ := cut.eq_append
    obtain ⟨node, given, boolean⟩ := value_boolean b rest
    have field := ofKey?_eq_strict named
    refine reads_assignment (by simp [field]) ?_ given ?_ ends (ih cut)
    · cases b <;> rfl
    · rw [Draft.enter_strict field rfl, decodeFlag_of_reads (.boolean boolean)]
      rfl
  | @order key lines texts flag names named quoted _ ih =>
    obtain ⟨rest, more, rfl, ends, cut⟩ := cut.eq_append
    obtain ⟨node, items, given, sequence, strings⟩ := value_array quoted rest
    have field := ofKey?_eq_order named
    refine reads_assignment (by simp [field]) rfl given ?_ ends (ih cut)
    rw [Draft.enter_order field rfl, decodeOrder_of_reads (.names sequence strings)]
    rfl

theorem skipByteOrderMark_cons {c : Char} (ascii : c.toNat < 128) :
    skipByteOrderMark (c :: s) = c :: s := by
  rw [skipByteOrderMark, if_neg (by omega)]

theorem skipByteOrderMark_of_ends (ends : EndsLine rest more) : skipByteOrderMark rest = rest := by
  rcases ends with ⟨rfl, rfl⟩ | rfl | rfl <;> rfl

/-- A line that holds nothing begins with a blank or a comment, if it has a character at all. -/
theorem skipByteOrderMark_filler (empty : isFiller line = true) (ends : EndsLine rest more) :
    skipByteOrderMark (line ++ rest) = line ++ rest := by
  cases line with
  | nil => exact skipByteOrderMark_of_ends ends
  | cons c line =>
    have ascii : c = ' ' ∨ c = '\t' ∨ c = '#' := by
      by_contra other
      simp only [not_or] at other
      simp [isFiller, other] at empty
    rcases ascii with rfl | rfl | rfl <;> exact skipByteOrderMark_cons (by decide)

theorem skipByteOrderMark_assignment (named : Field.ofKey? key ≠ none) :
    skipByteOrderMark (assignment key written ++ rest) = assignment key written ++ rest := by
  rw [Ne, ofKey?_eq_none_iff, not_not] at named
  simp only [fieldNames, List.mem_cons, List.not_mem_nil, or_false] at named
  rcases named with rfl | rfl | rfl | rfl <;> exact skipByteOrderMark_cons (by decide)

/-- None of the lines begins with a byte order mark. -/
theorem Lists.skipByteOrderMark (lists : Lists lines flag order) (cut : LinesOf lines s) :
    skipByteOrderMark s = s := by
  cases lists with
  | nil =>
    cases cut
    rfl
  | filler empty =>
    obtain ⟨rest, more, rfl, ends, -⟩ := cut.eq_append
    exact skipByteOrderMark_filler empty ends
  | strict b named =>
    obtain ⟨rest, more, rfl, -⟩ := cut.eq_append
    exact skipByteOrderMark_assignment (by simp [ofKey?_eq_strict named])
  | order named =>
    obtain ⟨rest, more, rfl, -⟩ := cut.eq_append
    exact skipByteOrderMark_assignment (by simp [ofKey?_eq_order named])

/-- What the lines list is what the text means. -/
theorem Lists.parse (lists : Lists lines flag order) (cut : LinesOf lines s) :
    parse (String.ofList s) = .ok { strict := flag.getD false, order := order } := by
  obtain ⟨ls, yields, top, distinct, filled⟩ := lists.reads cut
  obtain ⟨span, read⟩ :=
    Document.read?_of_yields yields (lists.skipByteOrderMark cut) top distinct
  refine (parse_eq_ok_iff read).mpr (ofEntries_eq_ok_iff.mpr ⟨_, filled, ?_⟩)
  cases order <;> rfl

end Reading

/-- Every text can be written as a string, in one way or another; and whatever a text of settings
lists, line by line, is read from it. A field without a line has its default. -/
theorem parse_of_lists :
    (∀ text, ∃ written, Quotes text written) ∧
      ∀ lines s flag order, Lists lines flag order → LinesOf lines s →
        parse (String.ofList s) = .ok { strict := flag.getD false, order := order } :=
  ⟨exists_quotes, fun _ _ _ _ lists cut => lists.parse cut⟩

/-- A comment with a bracket and a quote in it, names with escapes and without characters, lines
of either end, and no end of the last. -/
theorem parse_of_lists_commented :
    let lines := ["# order = [\"".toList,
      assignment "order" ('[' :: itemsText ["\"\"".toList, "\"\\u00e9\\\"é\"".toList]), "\t".toList,
      assignment "strict" "true".toList]
    let s := "# order = [\"\norder = [\"\", \"\\u00e9\\\"é\"]\r\n\t\nstrict = true".toList
    Lists lines (some true) (some ["", "é\"é"]) ∧ LinesOf lines s ∧
      parse (String.ofList s) = .ok { strict := true, order := some ["", "é\"é"] } := by
  intro lines s
  have empty : Quotes "" "\"\"".toList := ⟨[], .nil, by decide⟩
  have accent : List.Forall₂ WritesDigit [0, 0, 14, 9] ['0', '0', 'e', '9'] :=
    .cons ⟨by decide, .inl rfl⟩ (.cons ⟨by decide, .inl rfl⟩ (.cons ⟨by decide, .inl rfl⟩
      (.cons ⟨by decide, .inl rfl⟩ .nil)))
  have escaped : Quotes "é\"é" "\"\\u00e9\\\"é\"".toList :=
    ⟨[['\\', 'u', '0', '0', 'e', '9'], ['\\', '"'], ['é']],
      .cons (.code (by decide) accent rfl) (.cons (.short (by decide))
        (.cons (.plain (by decide) (by decide) (by decide)) .nil)), by decide⟩
  have lists : Lists lines (some true) (some ["", "é\"é"]) :=
    .filler (by decide) (.order (by decide) (.cons empty (.cons escaped .nil)) (.filler (by decide)
      (.strict true (by decide) .nil)))
  have cut : LinesOf lines s := .lineFeed (.carriage (.lineFeed (.last _)))
  exact ⟨lists, cut, parse_of_lists.2 lines s _ _ lists cut⟩

end MemberOrder.Settings
