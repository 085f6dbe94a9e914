import RenderPlan.Description.Reading
/-!
Outcomes of readings whose lines are numbered differently. A renumbering moves every number that a
line, a field, an open stage or an error carries. Two outcomes are alike under a renumbering if both
are results that a relation holds of, or if both are the same error, the second one moved.
-/
namespace RenderPlan.Description

def Line.renumber (ρ : Nat → Nat) (l : Line) : Line := { l with number := ρ l.number }

def Field.renumber (ρ : Nat → Nat) (f : Field) : Field := { f with line := ρ f.line }

def OpenStage.renumber (ρ : Nat → Nat) (st : OpenStage) : OpenStage :=
  { st with line := ρ st.line }

def Error.renumber (ρ : Nat → Nat) (e : Error) : Error := { e with line := ρ e.line }

@[simp] theorem Line.text_renumber (ρ : Nat → Nat) (l : Line) : (l.renumber ρ).text = l.text := rfl
@[simp] theorem Line.number_renumber (ρ : Nat → Nat) (l : Line) :
    (l.renumber ρ).number = ρ l.number := rfl
@[simp] theorem Field.line_renumber (ρ : Nat → Nat) (f : Field) :
    (f.renumber ρ).line = ρ f.line := rfl
@[simp] theorem Field.keyword_renumber (ρ : Nat → Nat) (f : Field) :
    (f.renumber ρ).keyword = f.keyword := rfl
@[simp] theorem Field.value_renumber (ρ : Nat → Nat) (f : Field) :
    (f.renumber ρ).value = f.value := rfl
@[simp] theorem Field.text_renumber (ρ : Nat → Nat) (f : Field) :
    (f.renumber ρ).text = f.text := rfl
@[simp] theorem Field.atLineStart_renumber (ρ : Nat → Nat) (f : Field) :
    (f.renumber ρ).atLineStart = f.atLineStart := rfl
@[simp] theorem OpenStage.stage_renumber (ρ : Nat → Nat) (st : OpenStage) :
    (st.renumber ρ).stage = st.stage := rfl
@[simp] theorem OpenStage.line_renumber (ρ : Nat → Nat) (st : OpenStage) :
    (st.renumber ρ).line = ρ st.line := rfl
@[simp] theorem OpenStage.hasSource_renumber (ρ : Nat → Nat) (st : OpenStage) :
    (st.renumber ρ).hasSource = st.hasSource := rfl
@[simp] theorem Error.line_renumber (ρ : Nat → Nat) (e : Error) :
    (e.renumber ρ).line = ρ e.line := rfl
@[simp] theorem Error.cause_renumber (ρ : Nat → Nat) (e : Error) :
    (e.renumber ρ).cause = e.cause := rfl

/-- A line is the same field wherever it stands. -/
theorem Line.field?_renumber (ρ : Nat → Nat) (l : Line) :
    (l.renumber ρ).field? = l.field?.map (Field.renumber ρ) := by
  simp only [Line.field?, Field.read?, Option.map_map, Line.text_renumber, Line.number_renumber]
  rfl

inductive Alike (ρ : Nat → Nat) (R : α → β → Prop) : Except Error α → Except Error β → Prop
  | ok {a : α} {b : β} (h : R a b) : Alike ρ R (.ok a) (.ok b)
  | error (e : Error) : Alike ρ R (.error e) (.error (e.renumber ρ))

namespace Alike

variable {ρ : Nat → Nat} {R : α → β → Prop} {x : Except Error α} {y : Except Error β}

theorem fail (R : α → β → Prop) (n : Nat) (c : Cause) :
    Alike ρ R (fail n c) (Description.fail (ρ n) c) := .error ⟨n, c⟩

theorem bind {S : γ → δ → Prop} {f : α → Except Error γ} {g : β → Except Error δ}
    (h : Alike ρ R x y) (hfg : ∀ a b, R a b → Alike ρ S (f a) (g b)) :
    Alike ρ S (x >>= f) (y >>= g) := by
  cases h with
  | ok h => exact hfg _ _ h
  | error e => exact .error e

theorem map {S : γ → δ → Prop} {f : α → γ} {g : β → δ} (h : Alike ρ R x y)
    (hfg : ∀ a b, R a b → S (f a) (g b)) : Alike ρ S (x.map f) (y.map g) := by
  cases h with
  | ok h => exact .ok (hfg _ _ h)
  | error e => exact .error e

/-- Outcomes that are alike stay so where more is known of their results. -/
theorem imp {S : α → β → Prop} (h : Alike ρ R x y)
    (hs : ∀ a b, x = .ok a → y = .ok b → R a b → S a b) : Alike ρ S x y := by
  cases h with
  | ok h => exact .ok (hs _ _ rfl rfl h)
  | error e => exact .error e

theorem error_eq {e e' : Error} (h : Alike ρ R (.error e) (.error e')) : e' = e.renumber ρ := by
  cases h
  rfl

/-- A choice by conditions that say the same. -/
theorem ite {c d : Prop} [Decidable c] [Decidable d] (hcd : c ↔ d)
    {x' : Except Error α} {y' : Except Error β} (h : c → Alike ρ R x y)
    (h' : ¬ c → Alike ρ R x' y') : Alike ρ R (if c then x else x') (if d then y else y') := by
  by_cases hc : c
  · rw [if_pos hc, if_pos (hcd.mp hc)]
    exact h hc
  · rw [if_neg hc, if_neg fun hd => hc (hcd.mpr hd)]
    exact h' hc

/-- Of outcomes whose results are equal, the second is the first with its error moved. -/
theorem toOption_eq {x y : Except Error α} (h : Alike ρ Eq x y) : x.toOption = y.toOption := by
  cases h with
  | ok h => rw [h]
  | error e => rfl

theorem eq_mapError {x y : Except Error α} (h : Alike ρ Eq x y) :
    y = x.mapError (Error.renumber ρ) := by
  cases h with
  | ok h => rw [h]; rfl
  | error e => rfl

end Alike

@[simp] theorem State.feedAll_nil (s : State) : s.feedAll [] = .ok s := rfl

theorem State.feedAll_cons (s : State) (l : Line) (ls : List Line) :
    s.feedAll (l :: ls) = s.feed l >>= fun t => t.feedAll ls := by
  simp only [State.feedAll, List.foldlM_cons]

theorem State.feedAll_append (s : State) (ls ms : List Line) :
    s.feedAll (ls ++ ms) = s.feedAll ls >>= fun t => t.feedAll ms := by
  simp only [State.feedAll, List.foldlM_append]

/-- A text describes a plan if its lines lead to a state that may end with that plan. -/
theorem read_eq_ok_iff {source : String} {p : Plan} :
    read source = .ok p ↔
      ∃ s, State.initial.feedAll (linesOf source.toList) = .ok s ∧ s.finish = .ok p := by
  unfold read readLines
  cases State.initial.feedAll (linesOf source.toList) with
  | error e =>
    constructor
    · intro h
      cases h
    · rintro ⟨s, hs, -⟩
      cases hs
  | ok s =>
    constructor
    · intro h
      exact ⟨s, rfl, h⟩
    · rintro ⟨t, ht, h⟩
      cases ht
      exact h

/-- If one line takes alike states to alike outcomes, so does a run over any lines. -/
theorem Alike.feedAll {ρ : Nat → Nat} {R : State → State → Prop}
    (step : ∀ s t, R s t → ∀ l : Line, Alike ρ R (s.feed l) (t.feed (l.renumber ρ)))
    {s t : State} (h : R s t) (ls : List Line) :
    Alike ρ R (s.feedAll ls) (t.feedAll (ls.map (Line.renumber ρ))) := by
  induction ls generalizing s t with
  | nil => exact .ok h
  | cons l ls ih =>
    rw [List.map_cons, State.feedAll_cons, State.feedAll_cons]
    exact (step s t h l).bind fun _ _ h => ih h

theorem map_text_numberFrom (n : Nat) (ts : List (List Char)) :
    (numberFrom n ts).map Line.text = ts := by
  induction ts generalizing n with
  | nil => rfl
  | cons t ts ih => simp [ih]

/-- Numbered lines, all numbers moved, are the same texts numbered from elsewhere. -/
theorem map_renumber_numberFrom {ρ : Nat → Nat} {m n : Nat} (ts : List (List Char))
    (h : ∀ i, i < ts.length → ρ (m + i) = n + i) :
    (numberFrom m ts).map (Line.renumber ρ) = numberFrom n ts := by
  induction ts generalizing m n with
  | nil => rfl
  | cons t ts ih =>
    have h₀ : ρ m = n := h 0 (by simp)
    have hs : (numberFrom (m + 1) ts).map (Line.renumber ρ) = numberFrom (n + 1) ts := by
      apply ih
      intro i hi
      have := h (i + 1) (by simpa using hi)
      rw [Nat.add_assoc, Nat.add_comm 1, this]
      omega
    simp [hs, Line.renumber, h₀]

end RenderPlan.Description
