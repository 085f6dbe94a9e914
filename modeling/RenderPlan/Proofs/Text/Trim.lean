import RenderPlan.Text.Blank
/-!
Trimmed texts. What trimming leaves neither starts nor ends with a blank character and has only
characters of the text, so a second trimming removes nothing. Texts without blank characters, and
all that begins with one that is not blank, keep their start.
-/
namespace RenderPlan.Text

/-- A scan takes a text whose characters all belong to it, up to the first that does not. -/
theorem scan_append {α : Type} {p : α → Bool} {w r : List α} (hw : ∀ c ∈ w, p c = true)
    (hr : ∀ c ∈ r.head?, p c = false) :
    (w ++ r).takeWhile p = w ∧ (w ++ r).dropWhile p = r := by
  rw [List.takeWhile_append_of_pos hw, List.dropWhile_append_of_pos hw]
  cases r with
  | nil => simp
  | cons c r => simp [hr c rfl]

/-- A text is cut in one way only into what a scan takes and what it leaves. -/
theorem scan_inj {α : Type} {p : α → Bool} {w w' r r' : List α} (hw : ∀ c ∈ w, p c = true)
    (hw' : ∀ c ∈ w', p c = true) (hr : ∀ c ∈ r.head?, p c = false)
    (hr' : ∀ c ∈ r'.head?, p c = false) (h : w ++ r = w' ++ r') : w = w' ∧ r = r' := by
  obtain ⟨htake, hdrop⟩ := scan_append hw hr
  obtain ⟨htake', hdrop'⟩ := scan_append hw' hr'
  rw [h] at htake hdrop
  exact ⟨htake.symm.trans htake', hdrop.symm.trans hdrop'⟩

theorem trimStart_cons_blank {c : Char} (h : isBlank c = true) (s : List Char) :
    trimStart (c :: s) = trimStart s := by
  simp [trimStart, h]

theorem trimStart_cons_solid {c : Char} (h : isBlank c = false) (s : List Char) :
    trimStart (c :: s) = c :: s := by
  simp [trimStart, h]

/-- A word at the start of a text is not trimmed. -/
theorem trimStart_append_of_solid {w : List Char} (hne : w ≠ []) (h : ∀ c ∈ w, isBlank c = false)
    (r : List Char) : trimStart (w ++ r) = w ++ r := by
  obtain ⟨c, w, rfl⟩ := List.exists_cons_of_ne_nil hne
  exact trimStart_cons_solid (h c (by simp)) (w ++ r)

theorem trimStart_suffix (s : List Char) : trimStart s <:+ s := List.dropWhile_suffix _

/-- What is trimmed from the start is blank. -/
theorem exists_blank_append (s : List Char) :
    ∃ u, s = u ++ trimStart s ∧ ∀ c ∈ u, isBlank c = true :=
  ⟨s.takeWhile isBlank, List.takeWhile_append_dropWhile.symm,
    List.all_eq_true.mp List.all_takeWhile⟩

/-- What is left at the start stands behind blank characters. -/
theorem exists_gap {s r : List Char} (h : trimStart s = r) :
    ∃ w, s = w ++ r ∧ ∀ c ∈ w, isBlank c = true := by
  obtain ⟨w, hw, hblank⟩ := exists_blank_append s
  exact ⟨w, h ▸ hw, hblank⟩

/-- What is left at the start is not blank. -/
theorem isBlank_of_trimStart {s r : List Char} {c : Char} (h : trimStart s = c :: r) :
    isBlank c = false := by
  induction s with
  | nil => simp at h
  | cons d s ih =>
    cases hd : isBlank d with
    | true =>
      rw [trimStart_cons_blank hd] at h
      exact ih h
    | false =>
      rw [trimStart_cons_solid hd] at h
      cases h
      exact hd

theorem isBlank_of_mem_head?_trimStart {s : List Char} :
    ∀ c ∈ (trimStart s).head?, isBlank c = false := by
  cases h : trimStart s with
  | nil => simp
  | cons d r => simpa using isBlank_of_trimStart h

@[simp] theorem trimStart_trimStart (s : List Char) : trimStart (trimStart s) = trimStart s := by
  cases h : trimStart s with
  | nil => rfl
  | cons c r => exact trimStart_cons_solid (isBlank_of_trimStart h) r

theorem trimEnd_prefix_self (s : List Char) : trimEnd s <+: s := by
  induction s with
  | nil => exact List.prefix_refl _
  | cons c r ih =>
    simp only [trimEnd]
    cases h : trimEnd r with
    | nil =>
      cases hc : isBlank c with
      | true => exact List.nil_prefix
      | false => simp
    | cons d t =>
      rw [h] at ih
      simpa [List.cons_prefix_cons] using ih

/-- Nothing before a character that is not blank is trimmed from the end. -/
theorem trimEnd_append_cons {c : Char} (h : isBlank c = false) (s t : List Char) :
    trimEnd (s ++ c :: t) = s ++ c :: trimEnd t := by
  induction s with
  | nil =>
    rw [List.nil_append, List.nil_append, trimEnd]
    cases trimEnd t with
    | nil => simp [h]
    | cons d u => rfl
  | cons d s ih =>
    simp only [List.cons_append, trimEnd, ih]
    cases s <;> rfl

/-- What is left at the end is not blank. -/
theorem trimEnd_eq_nil_or_append (s : List Char) :
    trimEnd s = [] ∨ ∃ t c, trimEnd s = t ++ [c] ∧ isBlank c = false := by
  induction s with
  | nil => exact .inl rfl
  | cons c r ih =>
    rcases ih with h | ⟨t, d, h, hd⟩
    · cases hc : isBlank c with
      | true => exact .inl (by simp [trimEnd, h, hc])
      | false => exact .inr ⟨[], c, by simp [trimEnd, h, hc], hc⟩
    · refine .inr ⟨c :: t, d, ?_, hd⟩
      simp only [trimEnd, h]
      cases t <;> rfl

@[simp] theorem trimEnd_trimEnd (s : List Char) : trimEnd (trimEnd s) = trimEnd s := by
  rcases trimEnd_eq_nil_or_append s with h | ⟨t, c, h, hc⟩
  · rw [h, trimEnd_nil]
  · rw [h, trimEnd_append_cons hc, trimEnd_nil]

theorem trim_cons_blank {c : Char} (h : isBlank c = true) (s : List Char) :
    trim (c :: s) = trim s := by
  simp only [trim, trimStart_cons_blank h]

/-- The first character stays where it is not blank. -/
theorem trim_cons_solid {c : Char} (h : isBlank c = false) (s : List Char) :
    trim (c :: s) = c :: trimEnd s := by
  rw [trim, trimStart_cons_solid h]
  exact trimEnd_append_cons h [] s

theorem trimEnd_of_all_solid {s : List Char} (h : ∀ c ∈ s, isBlank c = false) :
    trimEnd s = s := by
  rcases List.eq_nil_or_concat s with rfl | ⟨t, c, rfl⟩
  · rfl
  · rw [List.concat_eq_append] at *
    exact trimEnd_append_cons (h c (by simp)) t []

/-- Trimming leaves a text without blank characters as it is. -/
theorem trim_of_all_solid {s : List Char} (h : ∀ c ∈ s, isBlank c = false) : trim s = s := by
  cases s with
  | nil => rfl
  | cons c r =>
    rw [trim, trimStart_cons_solid (h c (by simp))]
    exact trimEnd_of_all_solid h

/-- The start of a trimmed text is not blank, so trimming its end keeps it trimmed. -/
theorem trimStart_trim (s : List Char) : trimStart (trim s) = trim s := by
  cases h : trim s with
  | nil => rfl
  | cons c r =>
    have hp := trimEnd_prefix_self (trimStart s)
    rw [show trimEnd (trimStart s) = c :: r from h] at hp
    obtain ⟨u, hu⟩ := hp
    exact trimStart_cons_solid (isBlank_of_trimStart hu.symm) r

@[simp] theorem trim_trim (s : List Char) : trim (trim s) = trim s := by
  rw [trim, trimStart_trim, trim, trimEnd_trimEnd]

theorem trimStart_isInfix (s : List Char) : trimStart s <:+: s := (trimStart_suffix s).isInfix

theorem trim_isInfix (s : List Char) : trim s <:+: s :=
  (trimEnd_prefix_self _).isInfix.trans (trimStart_isInfix s)

theorem mem_of_mem_trimStart {c : Char} {s : List Char} (h : c ∈ trimStart s) : c ∈ s :=
  (trimStart_suffix s).subset h

/-- Trimming keeps only characters of the text. -/
theorem mem_of_mem_trim {c : Char} {s : List Char} (h : c ∈ trim s) : c ∈ s :=
  mem_of_mem_trimStart ((trimEnd_prefix_self _).subset h)

theorem trimStart_eq_nil_iff {s : List Char} : trimStart s = [] ↔ ∀ c ∈ s, isBlank c = true := by
  induction s with
  | nil => simp
  | cons c r ih =>
    cases hc : isBlank c with
    | true => simp [trimStart_cons_blank hc, ih, hc]
    | false => simp [trimStart_cons_solid hc, hc]

theorem trimStart_blank_append {w : List Char} (h : ∀ c ∈ w, isBlank c = true) (s : List Char) :
    trimStart (w ++ s) = trimStart s :=
  List.dropWhile_append_of_pos h

/-- What stands behind the first character that is not blank is not trimmed from the start. -/
theorem trimStart_append_of_ne_nil {s : List Char} (h : trimStart s ≠ []) (r : List Char) :
    trimStart (s ++ r) = trimStart s ++ r := by
  rw [trimStart, trimStart, List.dropWhile_append, ← trimStart]
  simp [h]

theorem trimEnd_of_all_blank {s : List Char} (h : ∀ c ∈ s, isBlank c = true) : trimEnd s = [] := by
  induction s with
  | nil => rfl
  | cons c s ih => simp [trimEnd, ih fun d hd => h d (by simp [hd]), h c (by simp)]

theorem trimEnd_append_blank {v : List Char} (h : ∀ c ∈ v, isBlank c = true) (s : List Char) :
    trimEnd (s ++ v) = trimEnd s := by
  induction s with
  | nil => exact trimEnd_of_all_blank h
  | cons c s ih => simp only [List.cons_append, trimEnd, ih]

theorem trim_blank_append {w : List Char} (h : ∀ c ∈ w, isBlank c = true) (s : List Char) :
    trim (w ++ s) = trim s := by
  rw [trim, trimStart_blank_append h, trim]

theorem trim_append_blank {v : List Char} (h : ∀ c ∈ v, isBlank c = true) (s : List Char) :
    trim (s ++ v) = trim s := by
  by_cases hs : trimStart s = []
  · have hall : ∀ c ∈ s ++ v, isBlank c = true :=
      List.forall_mem_append.mpr ⟨trimStart_eq_nil_iff.mp hs, h⟩
    rw [trim, trimStart_eq_nil_iff.mpr hall, trim, hs]
  · rw [trim, trimStart_append_of_ne_nil hs, trimEnd_append_blank h, trim]

/-- What is trimmed from the end is blank. -/
theorem exists_append_blank (s : List Char) :
    ∃ v, s = trimEnd s ++ v ∧ ∀ c ∈ v, isBlank c = true := by
  induction s with
  | nil => exact ⟨[], rfl, by simp⟩
  | cons c s ih =>
    obtain ⟨v, hv, hblank⟩ := ih
    cases ht : trimEnd s with
    | nil =>
      rw [ht, List.nil_append] at hv
      subst hv
      cases hc : isBlank c with
      | true => exact ⟨c :: s, by simp [trimEnd, ht, hc], by simpa [hc] using hblank⟩
      | false => exact ⟨s, by simp [trimEnd, ht, hc], hblank⟩
    | cons d t =>
      have hcons : trimEnd (c :: s) = c :: trimEnd s := by simp [trimEnd, ht]
      exact ⟨v, by rw [hcons, List.cons_append, ← hv], hblank⟩

/-- A text is its trimmed text between two blank ones. -/
theorem exists_margins (s : List Char) :
    ∃ w v, s = w ++ (trim s ++ v) ∧ (∀ c ∈ w, isBlank c = true) ∧ ∀ c ∈ v, isBlank c = true := by
  obtain ⟨w, hw, hblank⟩ := exists_blank_append s
  obtain ⟨v, hv, hblank'⟩ := exists_append_blank (trimStart s)
  exact ⟨w, v, by rw [trim, ← hv, ← hw], hblank, hblank'⟩

@[simp] theorem trim_trimStart (s : List Char) : trim (trimStart s) = trim s := by
  rw [trim, trimStart_trimStart, trim]

/-- Trimming the end does not touch the first character that is not blank. -/
theorem head?_trim (s : List Char) : (trim s).head? = (trimStart s).head? := by
  rw [← trim_trimStart]
  cases h : trimStart s with
  | nil => rfl
  | cons c r =>
    rw [trim_cons_solid (isBlank_of_trimStart h)]
    rfl

theorem trim_eq_nil_iff {s : List Char} : trim s = [] ↔ ∀ c ∈ s, isBlank c = true := by
  rw [← trimStart_eq_nil_iff, ← List.head?_eq_none_iff, head?_trim, List.head?_eq_none_iff]

/-- Texts that are equal but for blank characters at the start are trimmed to one text. -/
theorem trim_eq_of_trimStart_eq {s t : List Char} (h : trimStart s = trimStart t) :
    trim s = trim t := by
  rw [trim, h, trim]

/-- Texts that are equal but for blank characters at the end are trimmed to one text. -/
theorem trim_eq_of_trimEnd_eq {s t : List Char} (h : trimEnd s = trimEnd t) : trim s = trim t := by
  obtain ⟨v, hv, hblank⟩ := exists_append_blank s
  obtain ⟨v', hv', hblank'⟩ := exists_append_blank t
  rw [hv, hv', trim_append_blank hblank, trim_append_blank hblank', h]

end RenderPlan.Text
