import MemberOrder.Proofs.TableLookup
import MemberOrder.Resolution

/-! Tables over their histories: a table to start from, and insertions one after the other. The
last insertion for a category decides its weight, whatever came before, so histories that agree on
the weights they leave have led to one and the same table, listed in canonical order. -/
namespace MemberOrder.WeightTable

variable {c : Category} {w : Weight} {pairs : List (Category × Weight)}

inductive Start
  | empty
  | default
  | strict
  | fixed
  | resolved (s : Settings)
  | collected (pairs : List (Category × Weight))

def Start.table : Start → WeightTable
  | empty => .empty
  | default => .default
  | strict => .strict
  | fixed => .fixed
  | resolved s => s.resolve.table
  | collected pairs => ofList pairs

/-- Inserts pairs one by one: what each insertion answers, and the table they leave. -/
def insertAll (t : WeightTable) : List (Category × Weight) → List (Option Weight) × WeightTable
  | [] => ([], t)
  | e :: rest =>
    let here := t.replace e.1 e.2
    let further := here.2.insertAll rest
    (here.1 :: further.1, further.2)

structure History where
  start : Start
  inserts : List (Category × Weight)

namespace History

def table (h : History) : WeightTable :=
  (h.start.table.insertAll h.inserts).2

def answers (h : History) : List (Option Weight) :=
  (h.start.table.insertAll h.inserts).1

def insert (h : History) (c : Category) (w : Weight) : History :=
  { h with inserts := h.inserts ++ [(c, w)] }

end History

def LastGiven (pairs : List (Category × Weight)) (c : Category) (w : Weight) : Prop :=
  ∃ front back, pairs = front ++ (c, w) :: back ∧ ∀ e ∈ back, e.1 ≠ c

def Start.Gives : Start → Category → Weight → Prop
  | collected pairs, c, w => LastGiven pairs c w
  | start, c, w => start.table.get c = some w

/-- A table lists each category that has a weight once, in the order of the constructors, and
counts what it lists. -/
structure Canonical (t : WeightTable) : Prop where
  keys : t.entries.map Prod.fst = Category.all.filter t.contains
  ascending : t.entries.Pairwise fun a b => a.1.ctorIdx < b.1.ctorIdx
  weights : ∀ c w, (c, w) ∈ t.entries ↔ t.get c = some w
  size : t.size = Category.all.countP t.contains
  isEmpty : t.isEmpty = true ↔ t.size = 0
  contains : ∀ c, t.contains c = true ↔ ∃ w, t.get c = some w

section Listing

theorem contains_iff {t : WeightTable} : t.contains c = true ↔ ∃ w, t.get c = some w :=
  Option.isSome_iff_exists

theorem keys_eq (t : WeightTable) : t.entries.map Prod.fst = Category.all.filter t.contains := by
  have listed : (t.entries.map Prod.fst).Pairwise (· < ·) := List.pairwise_map.mpr t.ascending
  have canonical : (Category.all.filter t.contains).Pairwise (· < ·) :=
    List.Pairwise.filter _ (by decide)
  have : Std.Antisymm (fun a b : Category => a < b) :=
    ⟨fun _ _ before after => absurd before (Nat.lt_asymm after)⟩
  have : Std.Irrefl (fun a b : Category => a < b) := ⟨fun _ => Nat.lt_irrefl _⟩
  refine listed.eq_of_mem_iff canonical fun c => ?_
  simp [contains_iff, Category.mem_all, mem_entries_iff]

/-- The canonical order is the order in which the constructors stand. -/
theorem index_eq_ctorIdx (c : Category) : c.index = c.ctorIdx := by
  cases c <;> rfl

theorem canonical (t : WeightTable) : Canonical t where
  keys := keys_eq t
  ascending := t.ascending.imp fun {a b} before => by
    rw [← index_eq_ctorIdx, ← index_eq_ctorIdx]
    exact before
  weights := mem_entries_iff t
  size := by rw [size, List.countP_eq_length_filter, ← keys_eq, List.length_map]
  isEmpty := by rw [isEmpty, size, List.isEmpty_iff, List.length_eq_zero_iff]
  contains _ := contains_iff

end Listing

section Insertions

theorem lastGiven_iff : LastGiven pairs c w ↔ pairs.reverse.lookup c = some w := by
  rw [List.lookup_eq_some_iff]
  constructor
  · rintro ⟨front, back, rfl, others⟩
    refine ⟨back.reverse, front.reverse, by simp, fun e member => ?_⟩
    simpa using Ne.symm (others e (List.mem_reverse.mp member))
  · rintro ⟨back, front, split, others⟩
    refine ⟨front.reverse, back.reverse, ?_, fun e member => ?_⟩
    · rw [← List.reverse_reverse pairs, split]
      simp
    · have apart := others e (List.mem_reverse.mp member)
      exact Ne.symm (by simpa using apart)

theorem not_given_iff : (∀ e ∈ pairs, e.1 ≠ c) ↔ pairs.reverse.lookup c = none := by
  simp only [List.lookup_eq_none_iff, List.mem_reverse, bne_iff_ne, ne_comm]

/-- One more insertion answers with the weight that stood there. -/
theorem insertAll_concat (t : WeightTable) (pairs : List (Category × Weight))
    (e : Category × Weight) :
    t.insertAll (pairs ++ [e]) =
      ((t.insertAll pairs).1 ++ [(t.insertAll pairs).2.get e.1],
        (t.insertAll pairs).2.insert e.1 e.2) := by
  induction pairs generalizing t with
  | nil => rfl
  | cons first rest ih => simp only [List.cons_append, insertAll, ih]

/-- Insertions leave the weight of the last one, and elsewhere what was there. -/
theorem get_insertAll (t : WeightTable) (pairs : List (Category × Weight)) (c : Category) :
    (t.insertAll pairs).2.get c = (pairs.reverse.lookup c).or (t.get c) := by
  induction pairs using List.reverseRecOn with
  | nil => rfl
  | append_singleton pairs e ih =>
    rw [insertAll_concat, get_insert, ih, List.reverse_concat, lookup_entry]
    split <;> rfl

theorem insertAll_empty (pairs : List (Category × Weight)) :
    (empty.insertAll pairs).2 = ofList pairs := by
  refine eq_of_get_eq fun c => ?_
  rw [get_insertAll, get_ofList, get_empty, Option.or_none]

theorem gives_iff {start : Start} : start.Gives c w ↔ start.table.get c = some w := by
  cases start with
  | collected pairs => exact lastGiven_iff.trans (by rw [Start.table, get_ofList])
  | _ => exact Iff.rfl

theorem History.get_eq_some_iff (h : History) :
    h.table.get c = some w ↔
      LastGiven h.inserts c w ∨ (∀ e ∈ h.inserts, e.1 ≠ c) ∧ h.start.Gives c w := by
  rw [table, get_insertAll, Option.or_eq_some_iff, lastGiven_iff, not_given_iff, gives_iff]

end Insertions

/-- After any history a table is the finite map of what was given last, in its canonical form. -/
theorem history_leaves_map (h : History) :
    Canonical h.table ∧
    (∀ c w, h.table.get c = some w ↔
      LastGiven h.inserts c w ∨ (∀ e ∈ h.inserts, e.1 ≠ c) ∧ h.start.Gives c w) ∧
    (∀ c w, (h.insert c w).answers = h.answers ++ [h.table.get c] ∧
      (h.insert c w).table.get c = some w ∧
      ∀ d, d ≠ c → (h.insert c w).table.get d = h.table.get d) ∧
    (∀ pairs, ofList pairs = (History.mk .empty pairs).table) ∧
    (∀ pairs, pairs.Perm h.table.entries → ofList pairs = h.table) ∧
    ∀ g : History, h.table = g.table ↔ ∀ c, h.table.get c = g.table.get c := by
  refine ⟨canonical h.table, fun c w => h.get_eq_some_iff, fun c w => ⟨?_, ?_, fun d other => ?_⟩,
    fun pairs => (insertAll_empty pairs).symm, fun pairs => ofList_of_perm,
    fun g => ⟨fun same c => congrArg (get · c) same, eq_of_get_eq⟩⟩
  · rw [History.answers, History.insert, insertAll_concat]
    rfl
  · rw [History.table, History.insert, insertAll_concat, get_insert, if_pos rfl]
  · rw [History.table, History.insert, insertAll_concat, get_insert, if_neg other]
    rfl

/-- A table with one weight given anew is collected again from its rows read backwards. -/
theorem history_leaves_map_backwards :
    let h : History :=
      ⟨.collected [(.field, 5), (.pass, 1), (.field, 6)], [(.save, 4000000000), (.pass, 2)]⟩
    h.answers = [none, some 1] ∧ h.table.entries.reverse.Perm h.table.entries ∧
      ofList h.table.entries.reverse = h.table := by
  intro h
  have backwards : h.table.entries.reverse.Perm h.table.entries := List.reverse_perm _
  obtain ⟨_, _, _, _, rebuilt, _⟩ := history_leaves_map h
  exact ⟨rfl, backwards, rebuilt _ backwards⟩

end MemberOrder.WeightTable
