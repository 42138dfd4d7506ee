import MemberOrder.Proofs.JsonSettings
import MemberOrder.Proofs.JsonText

/-! Settings come back from their own JSON text as they were written, an empty order apart from
none. So the text determines the settings. -/
namespace MemberOrder.Settings

theorem exact_toJson (s : Settings) : s.toJson.Exact := by
  have order : ∀ names : List String, (Json.array (names.map .string)).Exact := by
    intro names
    refine .array fun v member => ?_
    obtain ⟨name, _, rfl⟩ := List.mem_map.mp member
    exact .string name
  refine .object fun m member => ?_
  rcases List.mem_pair.mp member with rfl | rfl
  · exact .boolean s.strict
  · cases s.order with
    | none => exact .null
    | some names => exact order names

/-- Each field is written under its long name, and as what its decoder reads. -/
theorem reads_toJson (s : Settings) :
    ∃ members, s.toJson = .object members ∧ ReadsOrderIn members (.ok (some s.order)) ∧
      ReadsStrictIn members (.ok (some s.strict)) := by
  refine ⟨_, rfl, ?_, .second (r := .ok s.strict) (.boolean rfl)⟩
  cases s.order with
  | none => exact .first (r := .ok none) (.null rfl)
  | some names =>
    have strings : (names.map Json.string).map form = names.map .string := by
      simp [form]
    exact .first (r := .ok (some names)) (.names rfl strings)

theorem ofJson_toJson (s : Settings) : ofJson s.toJson = .ok s := by
  obtain ⟨members, written, readsOrder, readsStrict⟩ := reads_toJson s
  rw [written, ofJson_object readsOrder readsStrict]
  rfl

theorem read?_compact_toJson (s : Settings) : Json.read? s.toJson.compact = some s.toJson := by
  have read : Json.read? (String.ofList (s.toJson.write .compact ++ [])) = some s.toJson :=
    Json.read?_write (exact_toJson s) .compact (by simp)
  rwa [List.append_nil] at read

/-- Decoding undoes encoding, and no two settings share a text. -/
theorem ofJson_read?_compact (s : Settings) :
    (Json.read? s.toJson.compact).map ofJson = some (.ok s) ∧
      ∀ t : Settings, s.toJson.compact = t.toJson.compact ↔ s = t := by
  have decoded : ∀ s : Settings, (Json.read? s.toJson.compact).map ofJson = some (.ok s) := by
    intro s
    rw [read?_compact_toJson, Option.map_some, ofJson_toJson]
  refine ⟨decoded s, fun t => ⟨fun sameText => ?_, ?_⟩⟩
  · have same := decoded s
    rw [sameText, decoded t] at same
    exact (Except.ok.inj (Option.some.inj same)).symm
  · rintro rfl
    rfl

end MemberOrder.Settings
