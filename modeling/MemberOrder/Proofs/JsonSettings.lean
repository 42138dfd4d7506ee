import MemberOrder.Proofs.FieldDecoding
import MemberOrder.Proofs.JsonEntries
import MemberOrder.Settings.Json

/-! Which JSON values are settings, and which error the others get. The relation below names
the checks in their order: the order field under its two names, then the strict field under
its two names, and for an array both fields by position before the number of items. -/
namespace MemberOrder.Settings

open Json (entries)

variable {β : Type} {reads : Json → Except (DecodeError Json) β → Prop}
  {decode : Json → Except (DecodeError Json) β} {field : Field}
  {members : List (String × Json)} {items : List Json} {first second : Option Json}

/-- What a field is given by the values under two names, visited in this order. With both
names present the second value is not looked at. -/
inductive ReadsField (reads : Json → Except (DecodeError Json) β → Prop) (field : Field) :
    Option Json → Option Json → Except (DecodeError Json) (Option β) → Prop
  | absent : ReadsField reads field none none (.ok none)
  | first {v r} (read : reads v r) : ReadsField reads field (some v) none (r.map some)
  | second {v r} (read : reads v r) : ReadsField reads field none (some v) (r.map some)
  | refused {v w reason} (read : reads v (.error reason)) :
      ReadsField reads field (some v) (some w) (.error reason)
  | twice {v w x} (read : reads v (.ok x)) :
      ReadsField reads field (some v) (some w) (.error (.duplicateField field))

/-- What an object holds under a name; of several members of one name the last counts. -/
def member? (members : List (String × Json)) (name : String) : Option Json :=
  members.reverse.lookup name

def ReadsOrderIn (members : List (String × Json)) :=
  ReadsField ReadsOrder .order (member? members "class_attributes_order") (member? members "order")

def ReadsStrictIn (members : List (String × Json)) :=
  ReadsField ReadsFlag .strict (member? members "strict")
    (member? members "use_class_attributes_order_strict_mode")

def ReadsStrictAt (items : List Json) :=
  ReadsField ReadsFlag .strict items[0]? none

def ReadsOrderAt (items : List Json) :=
  ReadsField ReadsOrder .order items[1]? none

/-- Reading settings: the error is that of the first check that fails. -/
inductive Decodes : Json → Except (DecodeError Json) Settings → Prop
  | object {members order strict} (readsOrder : ReadsOrderIn members (.ok order))
      (readsStrict : ReadsStrictIn members (.ok strict)) :
      Decodes (.object members) (.ok { strict := strict.getD false, order := order.getD none })
  | objectOrder {members reason} (refused : ReadsOrderIn members (.error reason)) :
      Decodes (.object members) (.error reason)
  | objectStrict {members order reason} (readsOrder : ReadsOrderIn members (.ok order))
      (refused : ReadsStrictIn members (.error reason)) : Decodes (.object members) (.error reason)
  | array {items strict order} (readsStrict : ReadsStrictAt items (.ok strict))
      (readsOrder : ReadsOrderAt items (.ok order)) (fits : items.length ≤ 2) :
      Decodes (.array items) (.ok { strict := strict.getD false, order := order.getD none })
  | arrayStrict {items reason} (refused : ReadsStrictAt items (.error reason)) :
      Decodes (.array items) (.error reason)
  | arrayOrder {items strict reason} (readsStrict : ReadsStrictAt items (.ok strict))
      (refused : ReadsOrderAt items (.error reason)) : Decodes (.array items) (.error reason)
  | arrayLength {items strict order} (readsStrict : ReadsStrictAt items (.ok strict))
      (readsOrder : ReadsOrderAt items (.ok order)) (tooMany : 2 < items.length) :
      Decodes (.array items) (.error (.tooManyItems items.length))
  | other {v} (noObject : ∀ members, v ≠ .object members) (noArray : ∀ items, v ≠ .array items) :
      Decodes v (.error (.wrongType v .settings))

theorem exists_readsField (total : ∀ v, ∃ r, reads v r) (first second : Option Json) :
    ∃ r, ReadsField reads field first second r := by
  cases first with
  | none =>
    cases second with
    | none => exact ⟨_, .absent⟩
    | some v =>
      obtain ⟨r, read⟩ := total v
      exact ⟨_, .second read⟩
  | some v =>
    obtain ⟨r, read⟩ := total v
    cases second with
    | none => exact ⟨_, .first read⟩
    | some w =>
      cases r with
      | error reason => exact ⟨_, .refused read⟩
      | ok x => exact ⟨_, .twice read⟩

theorem exists_readsOrder_field (first second : Option Json) :
    ∃ r, ReadsField ReadsOrder .order first second r :=
  exists_readsField exists_readsOrder first second

theorem exists_readsFlag_field (first second : Option Json) :
    ∃ r, ReadsField ReadsFlag .strict first second r :=
  exists_readsField (fun v => ⟨_, readsFlag_decodeFlag v⟩) first second

/-- Every value has a result. -/
theorem exists_decodes (v : Json) : ∃ r, Decodes v r := by
  cases v with
  | object members =>
    obtain ⟨order, readsOrder⟩ := exists_readsOrder_field (member? members "class_attributes_order")
      (member? members "order")
    obtain ⟨strict, readsStrict⟩ := exists_readsFlag_field (member? members "strict")
      (member? members "use_class_attributes_order_strict_mode")
    cases order with
    | error reason => exact ⟨_, .objectOrder readsOrder⟩
    | ok order =>
      cases strict with
      | error reason => exact ⟨_, .objectStrict readsOrder readsStrict⟩
      | ok strict => exact ⟨_, .object readsOrder readsStrict⟩
  | array items =>
    obtain ⟨strict, readsStrict⟩ := exists_readsFlag_field items[0]? none
    obtain ⟨order, readsOrder⟩ := exists_readsOrder_field items[1]? none
    cases strict with
    | error reason => exact ⟨_, .arrayStrict readsStrict⟩
    | ok strict =>
      cases order with
      | error reason => exact ⟨_, .arrayOrder readsStrict readsOrder⟩
      | ok order =>
        rcases Nat.lt_or_ge 2 items.length with tooMany | fits
        · exact ⟨_, .arrayLength readsStrict readsOrder tooMany⟩
        · exact ⟨_, .array readsStrict readsOrder fits⟩
  | _ => exact ⟨_, .other (fun _ => Json.noConfusion) (fun _ => Json.noConfusion)⟩

def visited (name name' : String) (first second : Option Json) : List (String × Json) :=
  (first.map (name, ·)).toList ++ (second.map (name', ·)).toList

/-- Visiting the two names of a field that is still open fills it with what it is given. The
field is told by how it is set, by what its names do while it is open, and by what the second
name does after the first. -/
theorem foldlM_visited {r : Except (DecodeError Json) (Option β)} {name name' : String}
    (given : ReadsField reads field first second r) (agrees : ∀ v r, reads v r → decode v = r)
    (set : Option β → Draft)
    (opens : ∀ v : Json, (set none).enter name v = (decode v).map fun x => set (some x))
    (opens' : ∀ v : Json, (set none).enter name' v = (decode v).map fun x => set (some x))
    (again : ∀ x (v : Json), (set (some x)).enter name' v = .error (.duplicateField field)) :
    (visited name name' first second).foldlM (fun (d : Draft) e => d.enter e.1 e.2) (set none) =
      r.map set := by
  have once (name : String) (v : Json) :
      [(name, v)].foldlM (fun (d : Draft) e => d.enter e.1 e.2) (set none) =
        (set none).enter name v := by
    rw [List.foldlM_cons]
    cases (set none).enter name v <;> rfl
  have both (v w : Json) :
      [(name, v), (name', w)].foldlM (fun (d : Draft) e => d.enter e.1 e.2) (set none) =
        ((decode v).map fun x => set (some x)).bind fun _ => .error (.duplicateField field) := by
    rw [List.foldlM_cons, opens v]
    cases decode v with
    | error reason => rfl
    | ok x => exact congrArg (·.bind pure) (again x w)
  cases given with
  | absent => rfl
  | @first v r read =>
    refine (once name v).trans ((opens v).trans ?_)
    rw [agrees _ _ read]
    cases r <;> rfl
  | @second v r read =>
    refine (once name' v).trans ((opens' v).trans ?_)
    rw [agrees _ _ read]
    cases r <;> rfl
  | @refused v w reason read =>
    refine (both v w).trans ?_
    rw [agrees _ _ read]
    rfl
  | @twice v w x read =>
    refine (both v w).trans ?_
    rw [agrees _ _ read]
    rfl

theorem foldlM_visited_order {r : Except (DecodeError Json) (Option (Option (List String)))}
    (given : ReadsField ReadsOrder .order first second r) :
    (visited "class_attributes_order" "order" first second).foldlM
      (fun (d : Draft) e => d.enter e.1 e.2) {} = r.map fun order => { order } :=
  foldlM_visited given (fun _ _ => decodeOrder_of_reads) (fun order => { order })
    (fun _ => Draft.enter_order rfl rfl) (fun _ => Draft.enter_order rfl rfl)
    (fun x _ => Draft.enter_order_again rfl (Option.some_ne_none x))

theorem foldlM_visited_strict {r : Except (DecodeError Json) (Option Bool)}
    (given : ReadsField ReadsFlag .strict first second r) (order : Option (Option (List String))) :
    (visited "strict" "use_class_attributes_order_strict_mode" first second).foldlM
      (fun (d : Draft) e => d.enter e.1 e.2) { order } = r.map fun strict => { strict, order } :=
  foldlM_visited given (fun _ _ => decodeFlag_of_reads) (fun strict => { strict, order })
    (fun _ => Draft.enter_strict rfl rfl) (fun _ => Draft.enter_strict rfl rfl)
    (fun x _ => Draft.enter_strict_again rfl (Option.some_ne_none x))

def fieldEntries (members : List (String × Json)) : List (String × Json) :=
  visited "class_attributes_order" "order" (member? members "class_attributes_order")
      (member? members "order") ++
    visited "strict" "use_class_attributes_order_strict_mode" (member? members "strict")
      (member? members "use_class_attributes_order_strict_mode")

theorem filter_entries_fieldNames :
    (entries members).filter (fun e => fieldNames.contains e.1) = fieldEntries members := by
  rw [Json.filter_entries (by decide), List.filterMap_eq_flatMap_toList]
  simp [fieldNames, fieldEntries, visited, member?]

/-- Of an object only the members that name fields count, and they are visited by ascending
name. -/
theorem foldlM_entries (d : Draft) :
    (entries members).foldlM (fun (d : Draft) e => d.enter e.1 e.2) d =
      (fieldEntries members).foldlM (fun (d : Draft) e => d.enter e.1 e.2) d := by
  have passed (d : Draft) (e : String × Json) :
      (if fieldNames.contains e.1 then d.enter e.1 e.2 else pure d) = d.enter e.1 e.2 := by
    split
    · rfl
    · next apart =>
      have other := ofKey?_eq_none_iff.mpr fun member => apart (List.contains_iff_mem.mpr member)
      exact (Draft.enter_other other).symm
  rw [← filter_entries_fieldNames, List.foldlM_filter]
  simp only [passed]

theorem ofJson_object {order : Except (DecodeError Json) (Option (Option (List String)))}
    {strict : Except (DecodeError Json) (Option Bool)} (readsOrder : ReadsOrderIn members order)
    (readsStrict : ReadsStrictIn members strict) :
    ofJson (.object members) = order.bind fun order => strict.map fun strict =>
      { strict := strict.getD false, order := order.getD none } := by
  rw [ofJson, ofEntries, foldlM_entries, fieldEntries, List.foldlM_append,
    foldlM_visited_order readsOrder]
  cases order with
  | error reason => rfl
  | ok order =>
    refine (congrArg (Except.map Draft.settings) (foldlM_visited_strict readsStrict order)).trans ?_
    cases strict <;> rfl

theorem decodeFlag_at {v : Json} {rest : List Json} {r : Except (DecodeError Json) (Option Bool)}
    (readsStrict : ReadsStrictAt (v :: rest) r) : (decodeFlag v).map some = r := by
  cases readsStrict with
  | first read => rw [decodeFlag_of_reads read]

theorem decodeOrder_at {v w : Json} {rest : List Json}
    {r : Except (DecodeError Json) (Option (Option (List String)))}
    (readsOrder : ReadsOrderAt (v :: w :: rest) r) : (decodeOrder w).map some = r := by
  cases readsOrder with
  | first read => rw [decodeOrder_of_reads read]

theorem ofJson_array {order : Except (DecodeError Json) (Option (Option (List String)))}
    {strict : Except (DecodeError Json) (Option Bool)} (readsStrict : ReadsStrictAt items strict)
    (readsOrder : ReadsOrderAt items order) :
    ofJson (.array items) = strict.bind fun strict => order.bind fun order =>
      if items.length ≤ 2 then .ok { strict := strict.getD false, order := order.getD none }
      else .error (.tooManyItems items.length) := by
  match items with
  | [] =>
    cases readsStrict
    cases readsOrder
    rfl
  | [flag] =>
    cases readsOrder
    rw [ofJson, ofItems, ← decodeFlag_at readsStrict]
    cases decodeFlag flag <;> rfl
  | flag :: names :: rest =>
    rw [ofJson, ofItems, ← decodeFlag_at readsStrict, ← decodeOrder_at readsOrder]
    cases decodeFlag flag with
    | error reason => rfl
    | ok strict =>
      cases decodeOrder names with
      | error reason => rfl
      | ok order => cases rest <;> rfl

theorem ofJson_of_decodes {v : Json} {r : Except (DecodeError Json) Settings} (decodes : Decodes v r) :
    ofJson v = r := by
  cases decodes with
  | object readsOrder readsStrict => exact ofJson_object readsOrder readsStrict
  | @objectOrder members _ refused =>
    obtain ⟨strict, readsStrict⟩ := exists_readsFlag_field (member? members "strict")
      (member? members "use_class_attributes_order_strict_mode")
    exact ofJson_object refused readsStrict
  | objectStrict readsOrder refused => exact ofJson_object readsOrder refused
  | array readsStrict readsOrder fits =>
    exact (ofJson_array readsStrict readsOrder).trans (if_pos fits)
  | @arrayStrict items _ refused =>
    obtain ⟨order, readsOrder⟩ := exists_readsOrder_field items[1]? none
    exact ofJson_array refused readsOrder
  | arrayOrder readsStrict refused => exact ofJson_array readsStrict refused
  | arrayLength readsStrict readsOrder tooMany =>
    exact (ofJson_array readsStrict readsOrder).trans (if_neg (Nat.not_le.mpr tooMany))
  | other noObject noArray =>
    unfold ofJson
    split
    · next members => exact absurd rfl (noObject members)
    · next items => exact absurd rfl (noArray items)
    · rfl

/-- Settings are read from a value exactly as told, with the error of the first check that fails
or with none. -/
theorem ofJson_eq_iff_decodes (v : Json) :
    (∀ r, ofJson v = r ↔ Decodes v r) ∧
      (.duplicateField .order : DecodeError Json).message =
        "duplicate field `class_attributes_order`" ∧
      (.duplicateField .strict : DecodeError Json).message =
        "duplicate field `use_class_attributes_order_strict_mode`" := by
  refine ⟨fun r => ⟨fun decoded => ?_, ofJson_of_decodes⟩, rfl, rfl⟩
  obtain ⟨r', decodes⟩ := exists_decodes v
  rwa [← decoded, ofJson_of_decodes decodes]

/-- The order is found twice, by a second value that is not looked at, before the strict mode is
refused. -/
example :
    ofJson (.object [("strict", .null), ("order", .integer 1), ("class_attributes_order", .null)]) =
      .error (.duplicateField .order) := rfl

end MemberOrder.Settings
