import Mathlib.Data.List.Infix

/-!
# Lists

Searches of lists, and runs of steps that may fail, whatever the lists hold.
-/

namespace List

section Searches

variable {α β γ : Type}

theorem find?_bind_eq_findSome? (get : α → Option β) (holds : β → Bool) (l : List α) :
    (l.find? fun a => (get a).any holds).bind get = l.findSome? fun a => (get a).filter holds := by
  induction l with
  | nil => rfl
  | cons a l ih =>
    cases got : get a with
    | none => simpa [got] using ih
    | some b => cases held : holds b <;> simp [got, held, ih, Option.filter]

theorem findSome?_flatMap (pieces : α → List β) (look : β → Option γ) (l : List α) :
    (l.flatMap pieces).findSome? look = l.findSome? fun a => (pieces a).findSome? look := by
  induction l with
  | nil => rfl
  | cons a l ih =>
    rw [flatMap_cons, findSome?_append, ih, findSome?_cons]
    cases (pieces a).findSome? look <;> rfl

theorem findSome?_congr {l : List α} {look look' : α → Option β}
    (same : ∀ a ∈ l, look a = look' a) : l.findSome? look = l.findSome? look' := by
  induction l with
  | nil => rfl
  | cons a l ih =>
    rw [findSome?_cons, findSome?_cons, same a mem_cons_self,
      ih fun b member => same b (mem_cons_of_mem _ member)]

theorem mapM_map_eq_some {f : α → Option β} {g : β → α} (inverse : ∀ b, f (g b) = some b)
    (l : List β) : (l.map g).mapM f = some l := by
  induction l with
  | nil => rfl
  | cons b l ih => simp [inverse, ih]

/-- The first inits of a concatenation end in front of the second list. -/
theorem inits_append_eq (front rest : List α) :
    (front ++ rest).inits = front.inits.dropLast ++ rest.inits.map (front ++ ·) := by
  induction front with
  | nil => simp
  | cons a front ih =>
    have some_init : front.inits ≠ [] := by cases front <;> simp
    simp [ih, dropLast_cons_of_ne_nil, some_init, map_dropLast]

end Searches

section Runs

variable {δ ε ρ : Type} {step : δ → ε → Except ρ δ} {start d : δ} {l front rest : List ε} {e : ε}
  {reason : ρ}

theorem foldlM_concat (step : δ → ε → Except ρ δ) (start : δ) (l : List ε) (e : ε) :
    (l ++ [e]).foldlM step start = (l.foldlM step start).bind fun d => step d e := by
  rw [foldlM_append]
  refine congrArg (l.foldlM step start).bind (funext fun d => ?_)
  rw [foldlM_cons]
  cases step d e <;> rfl

/-- A run that fails does so at a step, behind steps that do not. -/
theorem exists_of_foldlM_eq_error (failed : l.foldlM step start = .error reason) :
    ∃ front e rest d, l = front ++ e :: rest ∧ front.foldlM step start = .ok d ∧
      step d e = .error reason := by
  induction l generalizing start with
  | nil => cases failed
  | cons first l ih =>
    rw [foldlM_cons] at failed
    cases taken : step start first with
    | error r =>
      rw [taken] at failed
      cases failed
      exact ⟨[], first, l, start, rfl, rfl, taken⟩
    | ok next =>
      rw [taken] at failed
      obtain ⟨front, e, rest, d, rfl, run, failed⟩ := ih failed
      refine ⟨first :: front, e, rest, d, rfl, ?_, failed⟩
      rw [foldlM_cons, taken]
      exact run

theorem foldlM_eq_error (run : front.foldlM step start = .ok d) (failed : step d e = .error reason)
    (rest : List ε) : (front ++ e :: rest).foldlM step start = .error reason := by
  rw [foldlM_append, run]
  change (step d e).bind _ = _
  rw [failed]
  rfl

/-- In front of a run that succeeds no step fails. -/
theorem exists_of_foldlM_append_eq_ok (run : (front ++ rest).foldlM step start = .ok d) :
    ∃ d', front.foldlM step start = .ok d' := by
  rw [foldlM_append] at run
  cases first : front.foldlM step start with
  | error r =>
    rw [first] at run
    cases run
  | ok d' => exact ⟨d', rfl⟩

end Runs

end List

theorem Option.eq_or_iff {α : Type} {a b : Option α} : a = a.or b ↔ a ≠ none ∨ b = none := by
  cases a <;> simp [eq_comm]

theorem Except.toOption_eq_some_iff {α ε : Type} {x : Except ε α} {a : α} :
    x.toOption = some a ↔ x = .ok a := by
  cases x <;> simp [Except.toOption]
