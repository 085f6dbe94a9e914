import RenderPlan.Proofs.Description.Likeness
import RenderPlan.Proofs.Text.Lines
import RenderPlan.Proofs.Text.Trim
/-!
The text of a list, line by line. A line feed ends an entry of every kind of list, so the entries of
a text that runs over several lines are those of its lines, and a blank line among them has none.
-/
namespace RenderPlan.Description

open RenderPlan.Text

theorem variableEntries_append (a b : List Char) :
    variableEntries (a ++ '\n' :: b) = variableEntries a ++ variableEntries b := by
  rw [variableEntries, pieces_append_sep (by rfl), List.map_append, List.filter_append]
  rfl

theorem variableEntries_blank {x : List Char} (h : ∀ c ∈ x, isBlank c = true) :
    variableEntries x = [] := by
  rw [variableEntries, List.filter_eq_nil_iff]
  intro e he
  obtain ⟨p, hp, rfl⟩ := List.mem_map.mp he
  rw [trim_eq_nil_iff.mpr fun c hc => h c (mem_of_mem_pieces hp c hc).1]
  decide

/-- A scale is its name, a colon and whatever stands behind, with blank characters around the
colon. -/
theorem afterScale?_eq_some_iff {s r : List Char} :
    afterScale? s = some r ↔ ∃ q t, s = 's' :: 'c' :: 'a' :: 'l' :: 'e' :: q ∧
      trimStart q = ':' :: t ∧ trimStart t = r := by
  constructor
  · intro h
    unfold afterScale? at h
    split at h
    · next q =>
      split at h
      · next t ht =>
        cases h
        exact ⟨q, t, rfl, ht, rfl⟩
      · cases h
    · cases h
  · rintro ⟨q, t, rfl, ht, rfl⟩
    simp [afterScale?, ht]

theorem wordsOf_blank {x : List Char} (h : ∀ c ∈ x, isBlank c = true) : wordsOf x = [] := by
  induction x with
  | nil => simp [wordsOf]
  | cons c x ih =>
    have hc : inWord c = false := by simp [inWord, h c (by simp)]
    rw [wordsOf]
    simp only [hc, Bool.false_eq_true, dite_false]
    exact ih fun d hd => h d (by simp [hd])

theorem readAttachments_append (a b : List Char) :
    readAttachments (a ++ '\n' :: b) =
      readAttachments a >>= fun ts => (readAttachments b).map (ts ++ ·) := by
  simp only [readAttachments, pieces_append_sep (show endsAttachment '\n' = true from rfl),
    List.mapM_append]
  cases (pieces endsAttachment a).mapM fun e => readWords (wordsOf e) with
  | error found => rfl
  | ok ts =>
    cases (pieces endsAttachment b).mapM fun e => readWords (wordsOf e) with
    | error found => rfl
    | ok us => exact congrArg Except.ok (List.filterMap_append)

theorem readAttachments_blank {x : List Char} (h : ∀ c ∈ x, isBlank c = true) :
    readAttachments x = .ok [] := by
  have key : ∀ ps : List (List Char), (∀ p ∈ ps, ∀ c ∈ p, isBlank c = true) →
      (ps.mapM fun e => readWords (wordsOf e)).map (List.filterMap id) = .ok [] := by
    intro ps hps
    induction ps with
    | nil => rfl
    | cons p ps ih =>
      have hp : readWords (wordsOf p) = .ok none := by
        rw [wordsOf_blank (hps p (by simp))]
        rfl
      obtain ⟨ts, hts, hnone⟩ : ∃ ts, (ps.mapM fun e => readWords (wordsOf e)) = .ok ts ∧
          ts.filterMap id = [] := by
        have := ih fun q hq => hps q (by simp [hq])
        cases hm : ps.mapM fun e => readWords (wordsOf e) with
        | error found =>
          rw [hm] at this
          cases this
        | ok ts =>
          rw [hm] at this
          exact ⟨ts, rfl, Except.ok.inj this⟩
      rw [List.mapM_cons, hp, hts]
      exact congrArg Except.ok hnone
  exact key _ fun p hp c hc => h c (mem_of_mem_pieces hp c hc).1

theorem words_append {sep : Char → Bool} {c : Char} (h : sep c = true) (a b : List Char) :
    words sep (a ++ c :: b) = words sep a ++ words sep b := by
  rw [words, pieces_append_sep h, List.filter_append]
  rfl

theorem words_cons_sep {sep : Char → Bool} {c : Char} (h : sep c = true) (s : List Char) :
    words sep (c :: s) = words sep s := by
  rw [words, pieces_cons_sep h]
  rfl

theorem words_cons_blank {c : Char} (h : isBlank c = true) (s : List Char) :
    words endsName (c :: s) = words endsName s :=
  words_cons_sep (by simp [endsName, h]) s

theorem words_of_all_sep {sep : Char → Bool} {x : List Char} (h : ∀ c ∈ x, sep c = true) :
    words sep x = [] := by
  induction x with
  | nil => rfl
  | cons c x ih =>
    obtain ⟨hc, hx⟩ := List.forall_mem_cons.mp h
    rw [words_cons_sep hc, ih hx]

/-- A blank line among the names of a list adds none. -/
theorem words_insert_blank {x : List Char} (h : ∀ c ∈ x, isBlank c = true) (a y : List Char) :
    words endsName (a ++ '\n' :: (x ++ '\n' :: y)) = words endsName (a ++ '\n' :: y) := by
  have hx : words endsName x = [] := by
    apply words_of_all_sep
    intro c hc
    simp [endsName, h c hc]
  have hn : endsName '\n' = true := rfl
  rw [words_append hn, words_append hn, words_append hn, hx, List.nil_append]

theorem SameList.trans {k : ListKind} {a b c : List Char} (h : SameList k a b)
    (h' : SameList k b c) : SameList k a c := by
  cases k <;> exact Eq.trans h h'

theorem SameOpenList.trans {k : ListKind} {a b c : List Char} (h : SameOpenList k a b)
    (h' : SameOpenList k b c) : SameOpenList k a c :=
  fun x => (h x).trans (h' x)

/-- A blank line says nothing in a list of any kind. -/
theorem sameOpenList_blank (k : ListKind) (a : List Char) {x : List Char}
    (h : ∀ c ∈ x, isBlank c = true) : SameOpenList k a (a ++ '\n' :: x) := by
  intro y
  rw [List.append_assoc, List.cons_append]
  cases k with
  | uniform =>
    have he : variableEntries (a ++ '\n' :: y)
        = variableEntries (a ++ '\n' :: (x ++ '\n' :: y)) := by
      rw [variableEntries_append, variableEntries_append, variableEntries_append,
        variableEntries_blank h, List.nil_append]
    simp only [SameList, readVariables, he]
  | texture =>
    change readAttachments _ = readAttachments _
    rw [readAttachments_append, readAttachments_append, readAttachments_append,
      readAttachments_blank h]
    cases readAttachments y <;> rfl
  | input => simp only [SameList, readInputs, words_insert_blank h]
  | output => simp only [SameList, readOutputs, words_insert_blank h]

end RenderPlan.Description
