import MemberOrder.Category

/-! Facts about the fallback paths that every statement on inheritance rests on: a path
begins with its own category, runs through configurable categories only, and gets
shorter with every step away from its category. -/
namespace MemberOrder.Category

theorem mem_configurable_iff (c : Category) : c ∈ configurable ↔ c.isConfigurable = true := by
  simp [configurable, mem_all]

theorem path_eq_cons {c : Category} (configurable : c.isConfigurable = true) :
    c.path = c :: c.path.tail := by
  revert configurable
  cases c <;> decide

theorem nodup_path (c : Category) : c.path.Nodup := by
  cases c <;> decide

theorem isConfigurable_of_mem_path {c a : Category} (onPath : a ∈ c.path) :
    a.isConfigurable = true := by
  have checked : ∀ c ∈ all, ∀ a ∈ c.path, a.isConfigurable = true := by decide
  exact checked c (mem_all c) a onPath

/-- Behind a category its path goes on as the path of the next one on it. -/
theorem tail_path_eq {c p : Category} (next : c.path[1]? = some p) : c.path.tail = p.path := by
  revert next
  cases c <;> rintro ⟨⟩ <;> rfl

theorem mem_path_of_mem_path {c a b : Category} (onPath : a ∈ c.path) (further : b ∈ a.path) :
    b ∈ c.path := by
  have checked : ∀ c ∈ all, ∀ a ∈ c.path, ∀ b ∈ a.path, b ∈ c.path := by decide
  exact checked c (mem_all c) a onPath b further

theorem length_path_lt {c a : Category} (above : a ∈ c.path.tail) :
    a.path.length < c.path.length := by
  have checked : ∀ c ∈ all, ∀ a ∈ c.path.tail, a.path.length < c.path.length := by decide
  exact checked c (mem_all c) a above

/-- What passes from all categories further up the path to the category holds everywhere. -/
theorem path_induction {motive : Category → Prop}
    (step : ∀ c, (∀ a ∈ c.path.tail, motive a) → motive c) (c : Category) : motive c :=
  step c fun a _ => path_induction step a
termination_by c.path.length
decreasing_by exact length_path_lt ‹_›

end MemberOrder.Category
