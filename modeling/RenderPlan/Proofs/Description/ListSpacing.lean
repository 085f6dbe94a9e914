import RenderPlan.Proofs.Description.ListText
/-!
Blank characters at the ends of the lines of a list. At the start of a line they say nothing, in a
list of any kind. At the end of a line they change no list that can be read; only the text that an
error quotes may end with them, where a scale is given without a number.
-/
namespace RenderPlan.Description

open RenderPlan.Text

/-- Two outcomes are results that `R` holds of, or errors that `E` holds of. -/
inductive Related (E : ε → ε → Prop) (R : α → β → Prop) : Except ε α → Except ε β → Prop
  | ok {a : α} {b : β} (h : R a b) : Related E R (.ok a) (.ok b)
  | error {e e' : ε} (h : E e e') : Related E R (.error e) (.error e')

namespace Related

variable {E : ε → ε → Prop} {R : α → β → Prop} {x : Except ε α} {y : Except ε β}

theorem refl (hE : ∀ e, E e e) (x : Except ε α) : Related E Eq x x := by
  cases x with
  | ok a => exact .ok rfl
  | error e => exact .error (hE e)

theorem of_eq (hE : ∀ e, E e e) {x y : Except ε α} (h : x = y) : Related E Eq x y := by
  rw [h]
  exact refl hE y

theorem map {S : γ → δ → Prop} {f : α → γ} {g : β → δ} (h : Related E R x y)
    (hfg : ∀ a b, R a b → S (f a) (g b)) : Related E S (x.map f) (y.map g) := by
  cases h with
  | ok h => exact .ok (hfg _ _ h)
  | error h => exact .error h

theorem bind {S : γ → δ → Prop} {f : α → Except ε γ} {g : β → Except ε δ} (h : Related E R x y)
    (hfg : ∀ a b, R a b → Related E S (f a) (g b)) : Related E S (x >>= f) (y >>= g) := by
  cases h with
  | ok h => exact hfg _ _ h
  | error h => exact .error h

theorem symm (hE : ∀ a b, E a b → E b a) {x y : Except ε α} (h : Related E Eq x y) :
    Related E Eq y x := by
  cases h with
  | ok h => exact .ok h.symm
  | error h => exact .error (hE _ _ h)

theorem trans (hE : ∀ a b c, E a b → E b c → E a c) {x y z : Except ε α}
    (h : Related E Eq x y) (h' : Related E Eq y z) : Related E Eq x z := by
  cases h with
  | ok h =>
    cases h' with
    | ok h' => exact .ok (h.trans h')
  | error h =>
    cases h' with
    | error h' => exact .error (hE _ _ _ h h')

theorem eq (hE : ∀ a b, E a b → a = b) {x y : Except ε α} (h : Related E Eq x y) : x = y := by
  cases h with
  | ok h => rw [h]
  | error h => rw [hE _ _ h]

theorem toOption_eq {x y : Except ε α} (h : Related E Eq x y) : x.toOption = y.toOption := by
  cases h with
  | ok h => rw [h]
  | error h => rfl

end Related

/-- Two texts hold the same list of a kind, or faults that are quoted by texts `q` relates. -/
def SimilarList (q : List Char → List Char → Prop) : ListKind → List Char → List Char → Prop
  | .uniform, a, b => Related q Eq (readVariables a) (readVariables b)
  | .texture, a, b => Related q Eq (readAttachments a) (readAttachments b)
  | .input, a, b => Related q Eq (readInputs a) (readInputs b)
  | .output, a, b => readOutputs a = readOutputs b

section Similar

variable {q : List Char → List Char → Prop}

theorem SimilarList.of_sameList (hq : ∀ a, q a a) {k : ListKind} {a b : List Char}
    (h : SameList k a b) : SimilarList q k a b := by
  cases k with
  | uniform => exact .of_eq hq h
  | texture => exact .of_eq hq h
  | input => exact .of_eq hq h
  | output => exact h

theorem SimilarList.symm (hq : ∀ a b, q a b → q b a) {k : ListKind} {a b : List Char}
    (h : SimilarList q k a b) : SimilarList q k b a := by
  cases k with
  | uniform => exact Related.symm hq h
  | texture => exact Related.symm hq h
  | input => exact Related.symm hq h
  | output => exact Eq.symm h

theorem SimilarList.trans (hq : ∀ a b c, q a b → q b c → q a c) {k : ListKind}
    {a b c : List Char} (h : SimilarList q k a b) (h' : SimilarList q k b c) :
    SimilarList q k a c := by
  cases k with
  | uniform => exact Related.trans hq h h'
  | texture => exact Related.trans hq h h'
  | input => exact Related.trans hq h h'
  | output => exact Eq.trans h h'

theorem mapM_append_eq {ε α β : Type} (f : α → Except ε β) (as bs : List α) :
    (as ++ bs).mapM f = as.mapM f >>= fun xs => (bs.mapM f).map (xs ++ ·) := by
  rw [List.mapM_append]
  cases as.mapM f with
  | error e => rfl
  | ok xs =>
    cases bs.mapM f with
    | error e => rfl
    | ok ys => rfl

theorem readVariables_append (a b : List Char) :
    readVariables (a ++ '\n' :: b) =
      readVariables a >>= fun vs => (readVariables b).map (vs ++ ·) := by
  rw [readVariables, variableEntries_append, mapM_append_eq]
  rfl

theorem readInputs_append (a b : List Char) :
    readInputs (a ++ '\n' :: b) = readInputs a >>= fun is => (readInputs b).map (is ++ ·) := by
  rw [readInputs, words_append (by rfl), mapM_append_eq]
  rfl

theorem readOutputs_append (a b : List Char) :
    readOutputs (a ++ '\n' :: b) = readOutputs a ++ readOutputs b := by
  rw [readOutputs, words_append (by rfl), List.map_append]
  rfl

/-- A line that says the same in a list says the same behind other lines. -/
theorem SimilarList.behind (hq : ∀ a, q a a) {k : ListKind} {a b : List Char}
    (h : SimilarList q k a b) (p : List Char) :
    SimilarList q k (p ++ '\n' :: a) (p ++ '\n' :: b) := by
  cases k with
  | uniform =>
    simp only [SimilarList, readVariables_append]
    exact (Related.refl hq (readVariables p)).bind fun _ _ hp =>
      Related.map h fun _ _ hab => by rw [hp, hab]
  | texture =>
    simp only [SimilarList, readAttachments_append]
    exact (Related.refl hq (readAttachments p)).bind fun _ _ hp =>
      Related.map h fun _ _ hab => by rw [hp, hab]
  | input =>
    simp only [SimilarList, readInputs_append]
    exact (Related.refl hq (readInputs p)).bind fun _ _ hp =>
      Related.map h fun _ _ hab => by rw [hp, hab]
  | output =>
    have h : readOutputs a = readOutputs b := h
    simp only [SimilarList, readOutputs_append, h]

/-- Two unfinished texts hold the same list whatever further line ends them. -/
def SimilarOpenList (q : List Char → List Char → Prop) (k : ListKind) (a b : List Char) : Prop :=
  ∀ x, SimilarList q k (a ++ '\n' :: x) (b ++ '\n' :: x)

/-- Lines that say the same in a list may be followed by others. -/
theorem SimilarList.isOpen (hq : ∀ a, q a a) {k : ListKind} {a b : List Char}
    (h : SimilarList q k a b) : SimilarOpenList q k a b := by
  intro x
  cases k with
  | uniform =>
    simp only [SimilarList, readVariables_append]
    exact Related.bind h fun _ _ hab => .of_eq hq (by rw [hab])
  | texture =>
    simp only [SimilarList, readAttachments_append]
    exact Related.bind h fun _ _ hab => .of_eq hq (by rw [hab])
  | input =>
    simp only [SimilarList, readInputs_append]
    exact Related.bind h fun _ _ hab => .of_eq hq (by rw [hab])
  | output =>
    have h : readOutputs a = readOutputs b := h
    simp only [SimilarList, readOutputs_append, h]

end Similar

theorem variableEntries_cons_blank {c : Char} (h : isBlank c = true) (s : List Char) :
    variableEntries (c :: s) = variableEntries s := by
  rw [variableEntries, variableEntries]
  cases hc : endsVariable c with
  | true => rw [pieces_cons_sep hc]; rfl
  | false =>
    obtain ⟨p, ps, hs⟩ := List.exists_cons_of_ne_nil (pieces_ne_nil endsVariable s)
    rw [pieces_cons_keep hc hs, hs, List.map_cons, List.map_cons, trim_cons_blank h]

theorem readAttachments_cons_blank {c : Char} (h : isBlank c = true) (s : List Char) :
    readAttachments (c :: s) = readAttachments s := by
  cases hc : endsAttachment c with
  | true =>
    rw [readAttachments, readAttachments, pieces_cons_sep hc, List.mapM_cons, wordsOf]
    cases (pieces endsAttachment s).mapM fun e => readWords (wordsOf e) <;> rfl
  | false =>
    obtain ⟨p, ps, hs⟩ := List.exists_cons_of_ne_nil (pieces_ne_nil endsAttachment s)
    have hw : wordsOf (c :: p) = wordsOf p := by
      have hin : inWord c = false := by simp [inWord, h]
      rw [wordsOf]
      simp [hin]
    rw [readAttachments, readAttachments, pieces_cons_keep hc hs, hs, List.mapM_cons,
      List.mapM_cons, hw]

/-- Blank characters at the start of a list say nothing. -/
theorem sameList_blank_append (k : ListKind) {w : List Char} (h : ∀ c ∈ w, isBlank c = true)
    (s : List Char) : SameList k (w ++ s) s := by
  induction w with
  | nil => exact .refl k s
  | cons c w ih =>
    have hc : isBlank c = true := h c (by simp)
    refine SameList.trans ?_ (ih fun d hd => h d (by simp [hd]))
    cases k with
    | uniform =>
      simp only [SameList, List.cons_append, readVariables, variableEntries_cons_blank hc]
    | texture => exact readAttachments_cons_blank hc (w ++ s)
    | input => simp only [SameList, List.cons_append, readInputs, words_cons_blank hc]
    | output => simp only [SameList, List.cons_append, readOutputs, words_cons_blank hc]

/-- Lists that are equal but for blank characters at the start. -/
theorem sameList_of_trimStart_eq (k : ListKind) {a b : List Char}
    (h : trimStart a = trimStart b) : SameList k a b := by
  obtain ⟨w, hw, hblank⟩ := exists_blank_append a
  obtain ⟨w', hw', hblank'⟩ := exists_blank_append b
  have ha := sameList_blank_append k hblank (trimStart a)
  have hb := sameList_blank_append k hblank' (trimStart b)
  rw [← hw] at ha
  rw [← hw', ← h] at hb
  refine ha.trans ?_
  cases k <;> exact Eq.symm hb

/-- Texts that are equal but for blank characters at the end. -/
def SameEnd (a b : List Char) : Prop := trimEnd a = trimEnd b

@[simp] theorem SameEnd.refl (a : List Char) : SameEnd a a := rfl

theorem SameEnd.symm {a b : List Char} (h : SameEnd a b) : SameEnd b a := Eq.symm h

theorem SameEnd.trans {a b c : List Char} (h : SameEnd a b) (h' : SameEnd b c) : SameEnd a c :=
  Eq.trans h h'

theorem SameEnd.append_blank {v : List Char} (h : ∀ c ∈ v, isBlank c = true) (s : List Char) :
    SameEnd (s ++ v) s := trimEnd_append_blank h s

theorem variableEntries_append_blank {v : List Char} (h : ∀ c ∈ v, isBlank c = true)
    (hn : '\n' ∉ v) (s : List Char) : variableEntries (s ++ v) = variableEntries s := by
  have hsep : ∀ c ∈ v, endsVariable c = false := by
    intro c hc
    have hb := h c hc
    have hcomma : c ≠ ',' := by
      rintro rfl
      simp at hb
    have hnew : c ≠ '\n' := ne_of_mem_of_not_mem hc hn
    simp [endsVariable, hcomma, hnew]
  obtain ⟨ps, p, hs, hv⟩ := pieces_append_keep hsep s
  rw [variableEntries, variableEntries, hs, hv, List.map_append, List.map_append, List.map_cons,
    List.map_cons, trim_append_blank h]

theorem words_append_blank {v : List Char} (h : ∀ c ∈ v, isBlank c = true) (s : List Char) :
    words endsName (s ++ v) = words endsName s := by
  have hsep : ∀ c ∈ v, endsName c = true := fun c hc => by simp [endsName, h c hc]
  cases v with
  | nil => rw [List.append_nil]
  | cons c v =>
    have hv : words endsName v = [] := words_of_all_sep fun d hd => hsep d (by simp [hd])
    rw [words_append (hsep c (by simp)), hv, List.append_nil]

/-- Blank characters behind a text do not make a scale of it. -/
theorem afterScale?_append_blank {v : List Char} (h : ∀ c ∈ v, isBlank c = true) {s r : List Char}
    (hr : afterScale? (s ++ v) = some r) : ∃ r', afterScale? s = some r' := by
  obtain ⟨q, t, hq, ht, -⟩ := afterScale?_eq_some_iff.mp hr
  -- The name of a scale has no blank characters, so it stands in `s`.
  obtain ⟨q', rfl, hq'⟩ : ∃ q', s = 's' :: 'c' :: 'a' :: 'l' :: 'e' :: q' ∧ q = q' ++ v := by
    rcases List.append_eq_append_iff.mp (show s ++ v = ['s', 'c', 'a', 'l', 'e'] ++ q from hq) with
      ⟨u, hname, hv⟩ | ⟨u, hs, hv⟩
    · cases u with
      | nil =>
        rw [List.append_nil] at hname
        exact ⟨[], by rw [← hname], by simpa using hv.symm⟩
      | cons c u =>
        have hc : isBlank c = true := h c (by simp [hv])
        have hmem : c ∈ ['s', 'c', 'a', 'l', 'e'] := by simp [hname]
        have hsolid : (['s', 'c', 'a', 'l', 'e'].all fun d => !isBlank d) = true := by rfl
        have hnot := List.all_eq_true.mp hsolid c hmem
        rw [hc] at hnot
        cases hnot
    · exact ⟨u, hs, hv⟩
  rw [hq'] at ht
  cases hstart : trimStart q' with
  | nil =>
    have hall : ∀ c ∈ q' ++ v, isBlank c = true :=
      List.forall_mem_append.mpr ⟨trimStart_eq_nil_iff.mp hstart, h⟩
    rw [trimStart_eq_nil_iff.mpr hall] at ht
    cases ht
  | cons c t' =>
    rw [trimStart_append_of_ne_nil (by simp [hstart]), hstart] at ht
    injection ht with hc _
    exact ⟨trimStart t', afterScale?_eq_some_iff.mpr ⟨q', t', rfl, by rw [hstart, hc], rfl⟩⟩

/-- What follows the colon of a scale goes on with the text behind, unless it is blank so far. -/
theorem afterScale?_append_of_some {v : List Char} {s r : List Char} (hr : afterScale? s = some r)
    (hne : r ≠ []) : afterScale? (s ++ v) = some (r ++ v) := by
  obtain ⟨q, t, rfl, ht, rfl⟩ := afterScale?_eq_some_iff.mp hr
  refine afterScale?_eq_some_iff.mpr ⟨q ++ v, t ++ v, rfl, ?_, trimStart_append_of_ne_nil hne v⟩
  rw [trimStart_append_of_ne_nil (by simp [ht]), ht, List.cons_append]

theorem afterScale?_append_of_nil {v : List Char} (h : ∀ c ∈ v, isBlank c = true) {s : List Char}
    (hr : afterScale? s = some []) : afterScale? (s ++ v) = some [] := by
  obtain ⟨q, t, rfl, ht, hnil⟩ := afterScale?_eq_some_iff.mp hr
  refine afterScale?_eq_some_iff.mpr ⟨q ++ v, t ++ v, rfl, ?_, ?_⟩
  · rw [trimStart_append_of_ne_nil (by simp [ht]), ht, List.cons_append]
  · exact trimStart_eq_nil_iff.mpr (List.forall_mem_append.mpr ⟨trimStart_eq_nil_iff.mp hnil, h⟩)

/-- A scan of word characters does not go on into blank characters. -/
theorem scanWord_append_blank {v : List Char} (h : ∀ c ∈ v, isBlank c = true) (s : List Char) :
    (s ++ v).takeWhile inWord = s.takeWhile inWord ∧
      (s ++ v).dropWhile inWord = s.dropWhile inWord ++ v := by
  have hv : ∀ c ∈ v.head?, inWord c = false := by
    intro c hc
    have hmem : c ∈ v := List.mem_of_head? hc
    simp [inWord, h c hmem]
  induction s with
  | nil => exact scan_append (w := []) (by simp) hv
  | cons c s ih =>
    cases hc : inWord c with
    | true => simp [hc, ih]
    | false => simp [hc]

/-- Blank characters behind an entry change none of its words, but that a scale without a number
at the end has them in its text. -/
theorem wordsOf_append_blank {v : List Char} (h : ∀ c ∈ v, isBlank c = true) (s : List Char) :
    wordsOf (s ++ v) = wordsOf s ∨ ∃ ws t, ':' ∈ t ∧ wordsOf s = ws ++ [.scale t []] ∧
      wordsOf (s ++ v) = ws ++ [.scale (t ++ v) []] := by
  -- The induction is on what is left of the entry; the words before are equal.
  have cons : ∀ (w : Word) {r r' : List Char}, (wordsOf r' = wordsOf r ∨ ∃ ws t, ':' ∈ t ∧
      wordsOf r = ws ++ [.scale t []] ∧ wordsOf r' = ws ++ [.scale (t ++ v) []]) →
      (w :: wordsOf r' = w :: wordsOf r ∨ ∃ ws t, ':' ∈ t ∧
        w :: wordsOf r = ws ++ [.scale t []] ∧ w :: wordsOf r' = ws ++ [.scale (t ++ v) []]) := by
    rintro w r r' (h | ⟨ws, t, ht, h, h'⟩)
    · exact .inl (by rw [h])
    · exact .inr ⟨w :: ws, t, ht, by rw [h]; rfl, by rw [h']; rfl⟩
  fun_induction wordsOf s with
  | case1 => exact .inl (by rw [List.nil_append, wordsOf_blank h])
  | case3 c s hc ih =>
    rw [List.cons_append, wordsOf]
    simpa [hc] using ih
  | case2 c s hc w ih =>
    have hword : wordsOf (c :: s ++ v) =
        (takeWord (c :: s ++ v)).1 :: wordsOf (takeWord (c :: s ++ v)).2 := by
      rw [List.cons_append, wordsOf]
      simp [hc]
    obtain ⟨htake, hdrop⟩ := scanWord_append_blank h (c :: s)
    rw [hword]
    cases hscale : afterScale? (c :: s) with
    | none =>
      have hscale' : afterScale? (c :: s ++ v) = none := by
        cases hr : afterScale? (c :: s ++ v) with
        | none => rfl
        | some r =>
          obtain ⟨r', hr'⟩ := afterScale?_append_blank h hr
          rw [hscale] at hr'
          cases hr'
      have hw : w = (.plain ((c :: s).takeWhile inWord), (c :: s).dropWhile inWord) := by
        simp only [w, takeWord, hscale]
      have hw' : takeWord (c :: s ++ v) = (w.1, w.2 ++ v) := by
        simp only [takeWord, hscale', htake, hdrop, hw]
      rw [hw']
      exact cons w.1 ih
    | some r =>
      by_cases hr : r = []
      · subst hr
        have hw : w = (.scale (c :: s) [], []) := by simp [w, takeWord, hscale]
        have hw' : takeWord (c :: s ++ v) = (.scale (c :: s ++ v) [], []) := by
          simp only [takeWord, afterScale?_append_of_nil h hscale]
          simp [List.take_of_length_le]
        obtain ⟨q, t, hq, ht, -⟩ := afterScale?_eq_some_iff.mp hscale
        have hcolon : ':' ∈ c :: s := by
          have : ':' ∈ q := mem_of_mem_trimStart (by simp [ht])
          simp [hq, this]
        rw [hw, hw', wordsOf]
        exact .inr ⟨[], c :: s, hcolon, rfl, rfl⟩
      · obtain ⟨hvalue, hrest⟩ := scanWord_append_blank h r
        have htext : (c :: s ++ v).take ((c :: s ++ v).length - (r.dropWhile inWord ++ v).length) =
            (c :: s).take ((c :: s).length - (r.dropWhile inWord).length) := by
          rw [List.length_append, List.length_append, Nat.add_sub_add_right,
            List.take_append_of_le_length (Nat.sub_le _ _)]
        have hw : w = (.scale ((c :: s).take ((c :: s).length - (r.dropWhile inWord).length))
            (r.takeWhile inWord), r.dropWhile inWord) := by
          simp only [w, takeWord, hscale]
        have hw' : takeWord (c :: s ++ v) = (w.1, w.2 ++ v) := by
          simp only [takeWord, afterScale?_append_of_some hscale hr, hvalue, hrest, htext, hw]
        rw [hw']
        exact cons w.1 ih

/-- A scale without a number at the end of an entry is refused, if nothing before it is. -/
theorem readWords_append_scale {ws : List Word} {t t' : List Char} (ht : ':' ∈ t) (ht' : ':' ∈ t')
    (h : SameEnd t t') :
    Related SameEnd Eq (readWords (ws ++ [.scale t []])) (readWords (ws ++ [.scale t' []])) := by
  cases ws with
  | nil =>
    simp only [List.nil_append, readWords, Word.text, ht, ht', if_true]
    exact .error h
  | cons name ws =>
    simp only [List.cons_append, readWords]
    split
    · exact .error rfl
    · refine Related.map ?_ fun _ _ h => congrArg some h
      rw [List.foldlM_append, List.foldlM_append]
      refine (Related.refl SameEnd.refl _).bind ?_
      rintro x _ rfl
      exact .error h

theorem readWords_append_blank {v : List Char} (h : ∀ c ∈ v, isBlank c = true) (s : List Char) :
    Related SameEnd Eq (readWords (wordsOf (s ++ v))) (readWords (wordsOf s)) := by
  rcases wordsOf_append_blank h s with hw | ⟨ws, t, ht, hs, hv⟩
  · rw [hw]
    exact .refl SameEnd.refl _
  · rw [hs, hv]
    exact readWords_append_scale (by simp [ht]) ht (.append_blank h t)

theorem readAttachments_append_blank {v : List Char} (h : ∀ c ∈ v, isBlank c = true)
    (hn : '\n' ∉ v) (s : List Char) :
    Related SameEnd Eq (readAttachments (s ++ v)) (readAttachments s) := by
  have hsep : ∀ c ∈ v, endsAttachment c = false := by
    intro c hc
    have hb := h c hc
    have hsemi : c ≠ ';' := by
      rintro rfl
      exact absurd hb (by decide)
    have hnew : c ≠ '\n' := ne_of_mem_of_not_mem hc hn
    simp [endsAttachment, hsemi, hnew]
  obtain ⟨ps, p, hs, hv⟩ := pieces_append_keep hsep s
  have hlast : Related SameEnd Eq ([p ++ v].mapM fun e => readWords (wordsOf e))
      ([p].mapM fun e => readWords (wordsOf e)) := by
    rw [List.mapM_cons, List.mapM_cons]
    refine (readWords_append_blank h p).bind ?_
    rintro o _ rfl
    exact .ok rfl
  rw [readAttachments, readAttachments, hs, hv, mapM_append_eq, mapM_append_eq]
  refine Related.map ?_ fun _ _ h => congrArg (List.filterMap id) h
  refine (Related.refl SameEnd.refl _).bind ?_
  rintro xs _ rfl
  exact hlast.map fun _ _ hab => by rw [hab]

/-- Blank characters at the end of a line of a list change at most the end of a quoted text. -/
theorem similarList_append_blank (k : ListKind) {v : List Char} (h : ∀ c ∈ v, isBlank c = true)
    (hn : '\n' ∉ v) (s : List Char) : SimilarList SameEnd k (s ++ v) s := by
  cases k with
  | uniform =>
    simp only [SimilarList, readVariables, variableEntries_append_blank h hn]
    exact .refl SameEnd.refl _
  | texture => exact readAttachments_append_blank h hn s
  | input =>
    simp only [SimilarList, readInputs, words_append_blank h]
    exact .refl SameEnd.refl _
  | output => simp only [SimilarList, readOutputs, words_append_blank h]

/-- Lines of a list that are equal but for blank characters at the end. -/
theorem similarList_of_trimEnd_eq (k : ListKind) {a b : List Char} (h : trimEnd a = trimEnd b)
    (ha : '\n' ∉ a) (hb : '\n' ∉ b) : SimilarList SameEnd k a b := by
  obtain ⟨v, hv, hblank⟩ := exists_append_blank a
  obtain ⟨v', hv', hblank'⟩ := exists_append_blank b
  have hnv : '\n' ∉ v := fun hm => ha (by rw [hv]; simp [hm])
  have hnv' : '\n' ∉ v' := fun hm => hb (by rw [hv']; simp [hm])
  have hva := similarList_append_blank k hblank hnv (trimEnd a)
  have hvb := similarList_append_blank k hblank' hnv' (trimEnd b)
  rw [← hv] at hva
  rw [← hv', ← h] at hvb
  exact SimilarList.trans (q := SameEnd) (fun _ _ _ => SameEnd.trans) hva
    (SimilarList.symm (q := SameEnd) (fun _ _ => SameEnd.symm) hvb)

end RenderPlan.Description
