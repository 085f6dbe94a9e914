import RenderPlan.Proofs.Description.Step
import Mathlib.Data.List.Forall2
/-!
Outcomes of lists that are read entry by entry. Either every entry is read, and the results stand in
the order of the entries, or one cannot be read while all before it can; this one is reported, on
the line of the field that the list belongs to.
-/
namespace RenderPlan.Description

open RenderPlan.Text

section MapM

variable {ε α β : Type} {f : α → Except ε β} {as : List α}

theorem mapM_eq_ok_iff {bs : List β} :
    as.mapM f = .ok bs ↔ List.Forall₂ (fun a b => f a = .ok b) as bs := by
  induction as generalizing bs with
  | nil =>
    rw [List.mapM_nil, List.forall₂_nil_left_iff]
    constructor
    · intro h
      cases h
      rfl
    · rintro rfl
      rfl
  | cons a as ih =>
    rw [List.mapM_cons, List.forall₂_cons_left_iff]
    constructor
    · intro h
      obtain ⟨b, hb, h⟩ := exists_of_bind_eq_ok h
      obtain ⟨cs, hcs, h⟩ := exists_of_bind_eq_ok h
      cases h
      exact ⟨b, cs, hb, ih.mp hcs, rfl⟩
    · rintro ⟨b, cs, hb, hcs, rfl⟩
      rw [hb, ih.mpr hcs]
      rfl

/-- The first entry that cannot be read is the error. -/
theorem mapM_eq_error_iff {e : ε} :
    as.mapM f = .error e ↔ ∃ front a back, as = front ++ a :: back ∧
      (∀ x ∈ front, ∃ b, f x = .ok b) ∧ f a = .error e := by
  induction as with
  | nil =>
    constructor
    · intro h
      cases h
    · rintro ⟨front, a, back, h, -⟩
      simp at h
  | cons a as ih =>
    rw [List.mapM_cons]
    constructor
    · intro h
      rcases error_or_of_bind_eq_error h with ha | ⟨b, hb, h⟩
      · exact ⟨[], a, as, rfl, by simp, ha⟩
      · rcases error_or_of_bind_eq_error h with has | ⟨bs, -, h⟩
        · obtain ⟨front, x, back, rfl, hfront, hx⟩ := ih.mp has
          exact ⟨a :: front, x, back, rfl, List.forall_mem_cons.mpr ⟨⟨b, hb⟩, hfront⟩, hx⟩
        · cases h
    · rintro ⟨front, x, back, h, hfront, hx⟩
      cases front with
      | nil =>
        cases h
        rw [hx]
        rfl
      | cons y front =>
        cases h
        obtain ⟨⟨b, hb⟩, hfront⟩ := List.forall_mem_cons.mp hfront
        rw [hb, ih.mpr ⟨front, x, back, rfl, hfront, hx⟩]
        rfl

end MapM

theorem map_eq_ok_iff {ε α β : Type} {x : Except ε α} {f : α → β} {b : β} :
    x.map f = .ok b ↔ ∃ a, x = .ok a ∧ f a = b := by
  constructor
  · exact exists_of_map_eq_ok
  · rintro ⟨a, rfl, rfl⟩
    rfl

theorem map_eq_error_iff {ε α β : Type} {x : Except ε α} {f : α → β} {e : ε} :
    x.map f = .error e ↔ x = .error e := by
  constructor
  · exact eq_error_of_map_eq_error
  · rintro rfl
    rfl

section Closed

variable {plan : Plan} {field : ListField} {line : Nat} {opening inner rest : List Char}

theorem continueList_closed (h : trim rest = []) :
    continueList plan field line opening (.closed inner rest) =
      match field.fill inner with
      | .ok block => .ok (.inBlock plan block)
      | .error found => malformedList field line found := by
  cases hfill : field.fill inner <;> simp only [continueList, if_pos h, hfill]

theorem continueList_closed_eq_error_iff (h : trim rest = []) {e : Error} :
    continueList plan field line opening (.closed inner rest) = .error e ↔
      ∃ found, field.fill inner = .error found ∧
        e = ⟨line, .malformedList field.kind (String.ofList found)⟩ := by
  rw [continueList_closed h]
  cases field.fill inner with
  | ok b => simp
  | error found => simp [malformedList, fail, eq_comm]

end Closed
end RenderPlan.Description
