import MemberOrder.Lists
import MemberOrder.Proofs.Comparison
import MemberOrder.Proofs.JsonText
import MemberOrder.Proofs.WeightsRun

/-! What the two reports on a weight table say. The text lists the entries by weight, one row each,
and a row read from the left gives back its entry however wide the weight is; the JSON text reads
as the object of all names and weights. -/
namespace MemberOrder

namespace Report

variable {t : WeightTable} {e a b : Category × Weight} {w : Weight} {texts : List String}

section Rows

/-- Rows stand by weight, and in canonical order where the weights are equal. -/
def RowBefore (a b : Category × Weight) : Prop :=
  a.2 < b.2 ∨ a.2 = b.2 ∧ a.1 < b.1

instance (a b : Category × Weight) : Decidable (RowBefore a b) :=
  inferInstanceAs (Decidable (_ ∨ _))

theorem RowBefore.asymm (ab : RowBefore a b) : ¬RowBefore b a := by
  rintro (lighter | ⟨same, before⟩)
  · rcases ab with heavier | ⟨same, _⟩
    · exact UInt32.lt_asymm lighter heavier
    · exact UInt32.lt_irrefl _ (same ▸ lighter)
  · rcases ab with heavier | ⟨_, behind⟩
    · exact UInt32.lt_irrefl _ (same ▸ heavier)
    · exact Nat.lt_asymm before behind

theorem weight_le_trans (a b c : Category × Weight) (ab : decide (a.2 ≤ b.2) = true)
    (bc : decide (b.2 ≤ c.2) = true) : decide (a.2 ≤ c.2) = true := by
  rw [decide_eq_true_eq] at ab bc ⊢
  exact UInt32.le_trans ab bc

theorem weight_le_total (a b : Category × Weight) :
    (decide (a.2 ≤ b.2) || decide (b.2 ≤ a.2)) = true := by
  rw [Bool.or_eq_true, decide_eq_true_eq, decide_eq_true_eq]
  exact UInt32.le_total a.2 b.2

theorem byWeight_perm (t : WeightTable) : (byWeight t).Perm t.entries :=
  List.mergeSort_perm t.entries _

theorem pairwise_byWeight (t : WeightTable) : (byWeight t).Pairwise fun a b => a.2 ≤ b.2 :=
  (List.pairwise_mergeSort weight_le_trans weight_le_total t.entries).imp of_decide_eq_true

/-- Sorting leaves the entries of one weight in their order. -/
theorem filter_byWeight (t : WeightTable) (w : Weight) :
    (byWeight t).filter (·.2 = w) = t.entries.filter (·.2 = w) := by
  have level : (t.entries.filter (·.2 = w)).Pairwise fun a b => decide (a.2 ≤ b.2) = true := by
    refine List.pairwise_of_forall_mem_list fun a ha b hb => ?_
    have left : a.2 = w := by simpa using (List.mem_filter.mp ha).2
    have right : b.2 = w := by simpa using (List.mem_filter.mp hb).2
    simp [left, right]
  have kept : (t.entries.filter (·.2 = w)).Sublist (byWeight t) :=
    List.sublist_mergeSort weight_le_trans weight_le_total level List.filter_sublist
  have among := kept.filter (·.2 = w)
  rw [List.filter_filter] at among
  simp only [Bool.and_self] at among
  exact (among.eq_of_length ((byWeight_perm t).filter _).length_eq.symm).symm

theorem rowBefore_byWeight (t : WeightTable) : (byWeight t).Pairwise RowBefore := by
  rw [List.pairwise_iff_forall_sublist]
  intro a b stand
  rcases UInt32.lt_or_eq_of_le
    (List.pairwise_iff_forall_sublist.mp (pairwise_byWeight t) stand) with lighter | same
  · exact .inl lighter
  · -- among the entries of this weight the canonical order decides
    have among := stand.filter (·.2 = b.2)
    rw [filter_byWeight] at among
    simp only [same, decide_true, List.filter_cons_of_pos, List.filter_nil] at among
    have stand := among.trans List.filter_sublist
    exact .inr ⟨same, List.pairwise_iff_forall_sublist.mp t.ascending stand⟩

end Rows

section Lines

theorem toList_lines_cons (text : String) (texts : List String) :
    (lines (text :: texts)).toList = text.toList ++ '\n' :: (lines texts).toList := by
  simp [lines]

/-- Lines without a line break in them are found again by cutting at the line breaks, and nothing
follows the last. -/
theorem cut_lines (whole : ∀ text ∈ texts, '\n' ∉ text.toList) :
    Text.cut '\n' (lines texts).toList = texts.map String.toList ++ [[]] := by
  induction texts with
  | nil => simp [lines, Text.cut]
  | cons text texts ih =>
    have here := Text.cut_of_not_mem (whole text List.mem_cons_self)
    have further := ih fun other member => whole other (List.mem_cons_of_mem text member)
    rw [toList_lines_cons, Text.cut_append_separator, here, further, List.map_cons,
      List.singleton_append, List.cons_append]

/-- A row read from the left: a decimal weight, at least one blank, and a name. -/
def readRow? (row : List Char) : Option (String × Nat) :=
  match Json.digits row with
  | ([], _) => none
  | (figures, ' ' :: rest) =>
    some (String.ofList (rest.dropWhile (· = ' ')), Json.ofDigits figures)
  | _ => none

theorem not_mem_name (c : Category) : '\n' ∉ c.name.toList := by
  cases c <;> decide

theorem dropWhile_name (c : Category) :
    c.name.toList.dropWhile (· = ' ') = c.name.toList := by
  cases c <;> rfl

/-- Weight and name stay apart: however wide the weight is, a blank stands between them. -/
theorem toList_weightRow (e : Category × Weight) :
    ∃ gap, (weightRow e).toList = Nat.toDigits 10 e.2.toNat ++ ' ' ::
      (List.replicate gap ' ' ++ e.1.name.toList) := by
  refine ⟨8 - (toString e.2.toNat).length, ?_⟩
  have figures : (toString e.2.toNat).toList = Nat.toDigits 10 e.2.toNat := Nat.toList_repr
  have shift : ∀ gap, List.replicate gap ' ' ++ [' '] = ' ' :: List.replicate gap ' ' := by
    intro gap
    rw [← List.replicate_succ', List.replicate_succ]
  have blank : " ".toList = [' '] := rfl
  rw [weightRow, padRight, String.toList_append, String.toList_append, String.toList_append,
    String.toList_ofList, figures, blank, List.append_assoc _ _ [' '], shift, List.append_assoc,
    List.cons_append]

theorem not_mem_weightRow (e : Category × Weight) : '\n' ∉ (weightRow e).toList := by
  obtain ⟨gap, row⟩ := toList_weightRow e
  rw [row]
  intro member
  rcases List.mem_append.mp member with figure | member
  · have isDigit := Json.isDigit_of_mem_toDigits figure
    contradiction
  · rcases List.mem_append.mp (List.mem_of_ne_of_mem (by decide) member) with blank | named
    · exact absurd (List.eq_of_mem_replicate blank) (by decide)
    · exact not_mem_name e.1 named

theorem readRow?_weightRow (e : Category × Weight) :
    readRow? (weightRow e).toList = some (e.1.name, e.2.toNat) := by
  obtain ⟨gap, row⟩ := toList_weightRow e
  obtain ⟨first, further, eq, _⟩ := Json.exists_toDigits_eq_cons e.2.toNat
  have ends : Json.EndsNumber (' ' :: (List.replicate gap ' ' ++ e.1.name.toList)) := by
    rintro c ⟨⟩
    decide
  have figures := Json.digits_append (fun _ => Json.isDigit_of_mem_toDigits (n := e.2.toNat)) ends
  have value := Json.ofDigits_toDigits e.2.toNat
  have blanks : ∀ c ∈ List.replicate gap ' ', decide (c = ' ') = true := by
    intro c member
    exact decide_eq_true (List.eq_of_mem_replicate member)
  rw [row, readRow?, figures]
  rw [eq] at value ⊢
  simp only [List.map_cons] at value ⊢
  rw [value, List.dropWhile_append_of_pos blanks, dropWhile_name, String.ofList_toList]

def heading : List String :=
  ["Weight   Category", "----------------------------------------"]

theorem weightsText_eq (t : WeightTable) :
    weightsText t = lines (heading ++ (byWeight t).map weightRow) := by
  have columns : padRight 8 "Weight" ++ " Category" = "Weight   Category" := by decide
  have ruled : rule 40 = "----------------------------------------" := by decide
  rw [weightsText, columns, ruled]
  rfl

/-- Cut into lines, the text is its heading and a row for every entry. -/
theorem cut_weightsText (t : WeightTable) :
    Text.cut '\n' (weightsText t).toList = heading.map String.toList ++
      (byWeight t).map (fun e => (weightRow e).toList) ++ [[]] := by
  have whole : ∀ text ∈ heading ++ (byWeight t).map weightRow, '\n' ∉ text.toList := by
    intro text member
    rcases List.mem_append.mp member with above | row
    · have checked : ∀ text ∈ heading, '\n' ∉ text.toList := by decide
      exact checked text above
    · obtain ⟨e, _, rfl⟩ := List.mem_map.mp row
      exact not_mem_weightRow e
  rw [weightsText_eq, cut_lines whole, List.map_append, List.map_map]
  rfl

end Lines

section Head

open Resolution

variable {s : Settings} {order : List String} {c : Category}

theorem mem_byWeight_iff : (c, w) ∈ byWeight t ↔ t.get c = some w := by
  rw [(byWeight_perm t).mem_iff, WeightTable.mem_entries_iff]

theorem nodup_byWeight (t : WeightTable) : (byWeight t).Nodup :=
  (byWeight_perm t).nodup_iff.mpr (t.distinct_entries.of_map _)

/-- Behind an order the entries that cannot be placed are the head of the class. -/
theorem filter_fixed_perm (given : s.customOrder = some order) :
    ((byWeight s.resolve.table).filter fun e => !e.1.isConfigurable).Perm fixedHead := by
  refine (List.perm_ext_iff_of_nodup ((nodup_byWeight _).filter _) (by decide)).mpr ?_
  rintro ⟨c, w⟩
  simp only [List.mem_filter, mem_byWeight_iff, Bool.not_eq_true', ← exists_mem_fixedHead_iff]
  constructor
  · rintro ⟨found, v, member⟩
    rw [Settings.get_resolve_of_mem_fixedHead given member] at found
    exact Option.some.inj found ▸ member
  · intro member
    exact ⟨Settings.get_resolve_of_mem_fixedHead given member, w, member⟩

/-- The head of the class comes first, since an order gives no weight below its own. -/
theorem byWeight_of_order (given : s.customOrder = some order) :
    byWeight s.resolve.table = fixedHead ++
      (byWeight s.resolve.table).filter fun e => e.1.isConfigurable := by
  have ordered := rowBefore_byWeight s.resolve.table
  have headFirst : ∀ a ∈ fixedHead,
      ∀ b ∈ (byWeight s.resolve.table).filter fun e => e.1.isConfigurable, RowBefore a b := by
    rintro a fixed ⟨c, w⟩ placed
    obtain ⟨found, configurable⟩ := List.mem_filter.mp placed
    obtain ⟨p, i, _, rfl⟩ := Settings.exists_placedBy given (mem_byWeight_iff.mp found) configurable
    have low : ∀ e ∈ fixedHead, e.2.toNat < 4 := by decide
    have small := low a fixed
    refine .inl (UInt32.lt_iff_toNat_lt.mpr ?_)
    rw [toNat_weightAt]
    omega
  have split : (byWeight s.resolve.table).Perm (fixedHead ++
      (byWeight s.resolve.table).filter fun e => e.1.isConfigurable) :=
    (List.filter_append_perm _ _).symm.trans
      (List.perm_append_comm.trans ((filter_fixed_perm given).append_right _))
  refine List.Perm.eq_of_pairwise (fun a b _ _ ab ba => absurd ba ab.asymm) ordered ?_ split
  exact List.pairwise_append.mpr ⟨by decide, ordered.filter _, headFirst⟩

end Head

section Formats

theorem exact_toJson (t : WeightTable) : t.toJson.Exact := by
  refine .object fun m member => ?_
  obtain ⟨e, _, rfl⟩ := List.mem_map.mp member
  exact .natural (Nat.lt_trans e.2.toNat_lt (by decide))

theorem read?_weights_json (t : WeightTable) : Json.read? (weights t .json) = some t.toJson := by
  have spread : weights t .json = String.ofList (t.toJson.write (.spread 0) ++ ['\n']) := by
    rw [weights, Json.pretty, String.ofList_append]
  rw [spread]
  exact Json.read?_write (exact_toJson t) (.spread 0) (by simp [Json.isBlank])

/-- Either report of a run tells the whole table of the settings in force, in rows by weight or as
an object in canonical order. -/
theorem stdout_tells_table (loaded : Settings) (strict : Bool) (order : Option (List String)) :
    let s := loaded.override strict order
    let t := s.resolve.table
    (∀ env view args, Weighs env view args loaded strict order .text →
      ∃ (rows : List (Category × Weight)) (texts : List (List Char)),
        Text.cut '\n' (CommandLine.run env view args).stdout.toList =
          heading.map String.toList ++ texts ++ [[]] ∧
        texts.map readRow? = rows.map (fun e => some (e.1.name, e.2.toNat)) ∧
        rows.Perm t.entries ∧ rows.Pairwise RowBefore ∧
        (s.customOrder ≠ none →
          (rows.take 4).map Prod.fst = [.docstring, .pass, .expression, .ifBlock])) ∧
      ∀ env view args, Weighs env view args loaded strict order .json →
        Json.read? (CommandLine.run env view args).stdout =
          some (.object (t.entries.map fun e => (e.1.name, .integer e.2.toNat))) := by
  intro s t
  refine ⟨fun env view args weighs => ?_, fun env view args weighs => ?_⟩
  · have printed : (CommandLine.run env view args).stdout = weightsText t :=
      (run_of_weighs weighs).2.1
    refine ⟨byWeight t, (byWeight t).map fun e => (weightRow e).toList, ?_, ?_, byWeight_perm t,
      rowBefore_byWeight t, fun ordered => ?_⟩
    · rw [printed, cut_weightsText]
    · simp only [List.map_map, Function.comp_def, readRow?_weightRow]
    · obtain ⟨names, given⟩ := Option.ne_none_iff_exists'.mp ordered
      rw [byWeight_of_order given]
      rfl
  · have printed : (CommandLine.run env view args).stdout = weights t .json :=
      (run_of_weighs weighs).2.1
    rw [printed, read?_weights_json]
    rfl

/-- Strict settings in a file that the user names, with an order given beside them. -/
theorem stdout_tells_table_named :
    let view : View := fun _ => .file "strict=true".toUTF8
    let args := ["weights", "-cf", "--order=field,x"]
    let t := (⟨true, some ["field", "x"]⟩ : Settings).resolve.table
    (∃ (rows : List (Category × Weight)) (texts : List (List Char)),
      Text.cut '\n' (CommandLine.run {} view args).stdout.toList =
        heading.map String.toList ++ texts ++ [[]] ∧
      texts.map readRow? = rows.map (fun e => some (e.1.name, e.2.toNat)) ∧
      rows.Perm t.entries ∧ rows.Pairwise RowBefore ∧
      (rows.take 4).map Prod.fst = [.docstring, .pass, .expression, .ifBlock]) ∧
      Json.read? (CommandLine.run {} view (args ++ ["-fjson"])).stdout =
        some (.object (t.entries.map fun e => (e.1.name, .integer e.2.toNat))) := by
  intro view args t
  have parsed : Settings.parse "strict=true" = .ok ⟨true, none⟩ :=
    Except.toOption_eq_some_iff.mp (by decide +kernel)
  have text : Weighs {} view args ⟨true, none⟩ false (some ["field", "x"]) .text :=
    weighs_of_named rfl rfl parsed
  have json : Weighs {} view (args ++ ["-fjson"]) ⟨true, none⟩ false (some ["field", "x"]) .json :=
    weighs_of_named rfl rfl parsed
  obtain ⟨asText, asJson⟩ := stdout_tells_table ⟨true, none⟩ false (some ["field", "x"])
  obtain ⟨rows, texts, lines, read, entries, sorted, first⟩ := asText _ _ _ text
  exact ⟨⟨rows, texts, lines, read, entries, sorted, first (Option.some_ne_none _)⟩, asJson _ _ _ json⟩

end Formats

end Report

end MemberOrder
