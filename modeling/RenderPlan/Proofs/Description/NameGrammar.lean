import Mathlib.Data.List.Basic
import RenderPlan.Proofs.Description.ListText
/-!
The grammar of lists of names. The names of a list are its longest runs of characters that end no
name. A name is read as an input exactly if it has one dot, which stands neither first nor last.
-/
namespace RenderPlan.Description

open RenderPlan.Text

/-- The names of a list, scanned from left to right. A name goes on to the first character that ends
it, so another can only start behind that character. -/
inductive Names : List Char → List (List Char) → Prop
  | nil : Names [] []
  | gap {c : Char} {s : List Char} {ws : List (List Char)} (hc : endsName c = true)
      (h : Names s ws) : Names (c :: s) ws
  | name {run rest : List Char} {ws : List (List Char)} (hne : run ≠ [])
      (hrun : ∀ c ∈ run, endsName c = false) (hrest : ∀ c ∈ rest.head?, endsName c = true)
      (h : Names rest ws) : Names (run ++ rest) (run :: ws)

theorem words_of_no_sep {sep : Char → Bool} {run : List Char} (hne : run ≠ [])
    (h : ∀ c ∈ run, sep c = false) : words sep run = [run] := by
  rw [words, pieces_of_no_sep h]
  simp [hne]

/-- A run up to a separator, or to the end, is the first word. -/
theorem words_run_append {sep : Char → Bool} {run rest : List Char} (hne : run ≠ [])
    (hrun : ∀ c ∈ run, sep c = false) (hrest : ∀ c ∈ rest.head?, sep c = true) :
    words sep (run ++ rest) = run :: words sep rest := by
  cases rest with
  | nil => rw [List.append_nil, words_of_no_sep hne hrun, words_of_all_sep (by simp)]
  | cons c rest =>
    have hc : sep c = true := hrest c rfl
    rw [words_append hc, words_of_no_sep hne hrun, words_cons_sep hc]
    rfl

/-- The words of a list are its names. -/
theorem Names.words {s : List Char} {ws : List (List Char)} (h : Names s ws) :
    words endsName s = ws := by
  induction h with
  | nil => rfl
  | gap hc _ ih => rw [words_cons_sep hc, ih]
  | name hne hrun hrest _ ih => rw [words_run_append hne hrun hrest, ih]

/-- Every list has its names. A character before them is a gap, a name of its own, or the first one
of the name behind it. -/
theorem exists_names (s : List Char) : ∃ ws, Names s ws := by
  induction s with
  | nil => exact ⟨[], .nil⟩
  | cons c s ih =>
    obtain ⟨ws, h⟩ := ih
    cases hc : endsName c with
    | true => exact ⟨ws, .gap hc h⟩
    | false =>
      have halone : ∀ d ∈ [c], endsName d = false := by simpa using hc
      cases h with
      | nil => exact ⟨[[c]], .name (by simp) halone (by simp) .nil⟩
      | gap hd h => exact ⟨[c] :: ws, .name (by simp) halone (by simpa using hd) (.gap hd h)⟩
      | @name run rest ws hne hrun hrest h =>
        have hlonger : ∀ d ∈ c :: run, endsName d = false :=
          List.forall_mem_cons.mpr ⟨hc, hrun⟩
        exact ⟨(c :: run) :: ws, .name (by simp) hlonger hrest h⟩

theorem names_iff {s : List Char} {ws : List (List Char)} : Names s ws ↔ words endsName s = ws := by
  refine ⟨Names.words, fun h => ?_⟩
  obtain ⟨ws', h'⟩ := exists_names s
  rwa [← h, h'.words]

/-- A name with one dot, which stands neither first nor last. -/
structure Dotted (w : List Char) : Prop where
  one : w.count '.' = 1
  not_first : w.head? ≠ some '.'
  not_last : w.getLast? ≠ some '.'

/-- A dotted name is two names without dots, with a dot between them. -/
theorem dotted_append_iff {b t : List Char} :
    Dotted (b ++ '.' :: t) ↔ b ≠ [] ∧ t ≠ [] ∧ '.' ∉ b ∧ '.' ∉ t := by
  have hcount : (b ++ '.' :: t).count '.' = 1 ↔ '.' ∉ b ∧ '.' ∉ t := by
    rw [List.count_append, List.count_cons_self, ← List.count_eq_zero, ← List.count_eq_zero]
    omega
  constructor
  · rintro ⟨hone, hfirst, hlast⟩
    refine ⟨?_, ?_, hcount.mp hone⟩
    · rintro rfl
      exact hfirst rfl
    · rintro rfl
      exact hlast (by simp)
  · rintro ⟨hb, ht, hno⟩
    refine ⟨hcount.mpr hno, fun hfirst => ?_, fun hlast => ?_⟩
    · rw [List.head?_append_of_ne_nil _ hb] at hfirst
      exact hno.1 (List.mem_of_head? hfirst)
    · rw [List.getLast?_append_of_ne_nil _ (by simp), List.getLast?_cons_of_ne_nil ht] at hlast
      exact hno.2 (List.mem_of_getLast? hlast)

theorem Dotted.exists_input {w : List Char} (h : Dotted w) :
    ∃ i : InputTexture, i.buffer.toList ++ '.' :: i.texture.toList = w := by
  have hmem : '.' ∈ w := List.count_pos_iff.mp (h.one ▸ Nat.one_pos)
  obtain ⟨b, t, rfl⟩ := List.append_of_mem hmem
  exact ⟨⟨String.ofList b, String.ofList t⟩, by simp⟩

/-- A name is read as an input exactly if it has its dot inside, and as the input it spells. -/
theorem readInput?_eq_some_iff {w : List Char} {i : InputTexture} :
    readInput? w = some i ↔ Dotted w ∧ i.buffer.toList ++ '.' :: i.texture.toList = w := by
  constructor
  · intro h
    unfold readInput? at h
    split at h
    · next b t hcut =>
      obtain ⟨rfl, hb⟩ := cutAt_eq_some_iff.mp hcut
      split at h
      · cases h
      · next hn =>
        cases h
        simp only [Bool.or_eq_true, List.isEmpty_iff, List.contains_iff_mem, not_or] at hn
        exact ⟨dotted_append_iff.mpr ⟨hn.1.1, hn.1.2, hb, hn.2⟩, by simp⟩
    · cases h
  · rintro ⟨hdotted, rfl⟩
    obtain ⟨hb, ht, hbdot, htdot⟩ := dotted_append_iff.mp hdotted
    simp only [readInput?, cutAt_eq_some_iff.mpr ⟨rfl, hbdot⟩]
    simp [hb, ht, htdot]

end RenderPlan.Description
