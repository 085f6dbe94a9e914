import RenderPlan.Proofs.Description.AttachmentGrammar
/-!
What is reported of a list that cannot be read. It is an entry, a word or a name of the list as it
stands there, so it is not empty and keeps to one line of the list.
-/
namespace RenderPlan.Description

open RenderPlan.Text

/-- Where a list cannot be read, one of its entries cannot. -/
theorem exists_of_mapM_eq_error {ε α β : Type} {f : α → Except ε β} {as : List α} {e : ε}
    (h : as.mapM f = .error e) : ∃ a ∈ as, f a = .error e := by
  obtain ⟨front, a, back, rfl, -, ha⟩ := mapM_eq_error_iff.mp h
  exact ⟨a, by simp, ha⟩

/-- A text that is quoted of a list: a part of one of its lines. -/
structure QuotedFrom (inner found : List Char) : Prop where
  ne_nil : found ≠ []
  newline : '\n' ∉ found
  isInfix : found <:+: inner

/-- A part of a piece is quoted of the whole, if a line feed ends pieces. -/
theorem quotedFrom_of_piece {sep : Char → Bool} (hsep : sep '\n' = true) {inner p found : List Char}
    (hp : p ∈ pieces sep inner) (hf : found <:+: p) (hne : found ≠ []) :
    QuotedFrom inner found where
  ne_nil := hne
  newline hm := by
    have := (mem_of_mem_pieces hp '\n' (hf.subset hm)).2
    rw [hsep] at this
    cases this
  isInfix := hf.trans (infix_of_mem_pieces hp)

theorem quotedFrom_of_readVariables {inner found : List Char}
    (h : readVariables inner = .error found) : QuotedFrom inner found := by
  obtain ⟨e, he, hfound⟩ := exists_of_mapM_eq_error h
  split at hfound
  · cases hfound
  · cases hfound
    obtain ⟨hmap, hne⟩ := List.mem_filter.mp he
    obtain ⟨p, hp, rfl⟩ := List.mem_map.mp hmap
    exact quotedFrom_of_piece (by rfl) hp (trim_isInfix p) (by simpa using hne)

theorem quotedFrom_of_readInputs {inner found : List Char}
    (h : readInputs inner = .error found) : QuotedFrom inner found := by
  obtain ⟨w, hw, hfound⟩ := exists_of_mapM_eq_error h
  split at hfound
  · cases hfound
  · cases hfound
    obtain ⟨hp, hne⟩ := List.mem_filter.mp hw
    exact quotedFrom_of_piece (by rfl) hp (List.infix_refl _) (by simpa using hne)

theorem quotedFrom_of_readAttachments {inner found : List Char}
    (h : readAttachments inner = .error found) : QuotedFrom inner found := by
  obtain ⟨p, hp, hfound⟩ := exists_of_mapM_eq_error (eq_error_of_map_eq_error h)
  obtain ⟨tokens, hscans, hmisfit⟩ := readWords_wordsOf_eq_error_iff.mp hfound
  obtain ⟨hin, hne⟩ := hscans.isInfix_of_mem found hmisfit.mem
  exact quotedFrom_of_piece (by rfl) hp hin hne

/-- What is reported of a list of any kind is quoted from it. -/
theorem quotedFrom_of_fill {field : ListField} {inner found : List Char}
    (h : field.fill inner = .error found) : QuotedFrom inner found := by
  cases field with
  | attributes s st => exact quotedFrom_of_readVariables (eq_error_of_map_eq_error h)
  | uniforms s => exact quotedFrom_of_readVariables (eq_error_of_map_eq_error h)
  | varyings s => exact quotedFrom_of_readVariables (eq_error_of_map_eq_error h)
  | attachments b => exact quotedFrom_of_readAttachments (eq_error_of_map_eq_error h)
  | inputs p => exact quotedFrom_of_readInputs (eq_error_of_map_eq_error h)
  | outputs p buffer => cases h

end RenderPlan.Description
