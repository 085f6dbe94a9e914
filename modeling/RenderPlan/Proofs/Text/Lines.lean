import RenderPlan.Text.Split
/-!
Pieces and lines of texts put together. Where a separator stands between two texts, the pieces of
the whole are the pieces of both; so the lines of a text that ends with a line feed are not changed
by what is written behind it. Every list of texts without line feeds is the list of lines of some
text: a carriage return is written before each line feed, so that none of a text itself is dropped.
-/
namespace RenderPlan.Text

theorem cutAt_append_left {c : Char} {w : List Char} (h : c ∉ w) (s : List Char) :
    cutAt c (w ++ s) = (cutAt c s).map fun p => (w ++ p.1, p.2) := by
  induction w with
  | nil => simp
  | cons d w ih =>
    rw [List.mem_cons, not_or] at h
    rw [List.cons_append, cutAt, if_neg (Ne.symm h.1), ih h.2, Option.map_map]
    rfl

theorem cutAt_append_right {c : Char} {v : List Char} (h : c ∉ v) (s : List Char) :
    cutAt c (s ++ v) = (cutAt c s).map fun p => (p.1, p.2 ++ v) := by
  induction s with
  | nil => simpa using cutAt_eq_none_iff.mpr h
  | cons d s ih =>
    rw [List.cons_append, cutAt, cutAt, ih]
    split
    · rfl
    · rw [Option.map_map, Option.map_map]
      rfl

@[simp] theorem pieces_nil (sep : Char → Bool) : pieces sep [] = [[]] := rfl

theorem pieces_cons_sep {sep : Char → Bool} {c : Char} (h : sep c = true) (s : List Char) :
    pieces sep (c :: s) = [] :: pieces sep s := by
  simp [pieces, h]

/-- A character that separates nothing goes into the first piece. -/
theorem pieces_cons_keep {sep : Char → Bool} {c : Char} (h : sep c = false) {s p : List Char}
    {ps : List (List Char)} (hs : pieces sep s = p :: ps) :
    pieces sep (c :: s) = (c :: p) :: ps := by
  simp [pieces, h, hs]

/-- A separator between two texts keeps their pieces apart. -/
theorem pieces_append_sep {sep : Char → Bool} {c : Char} (h : sep c = true) (a b : List Char) :
    pieces sep (a ++ c :: b) = pieces sep a ++ pieces sep b := by
  induction a with
  | nil => exact pieces_cons_sep h b
  | cons d a ih =>
    cases hd : sep d with
    | true => simp [pieces_cons_sep hd, ih]
    | false =>
      obtain ⟨p, ps, ha⟩ := List.exists_cons_of_ne_nil (pieces_ne_nil sep a)
      have hb : pieces sep (a ++ c :: b) = p :: (ps ++ pieces sep b) := by simp [ih, ha]
      simp [pieces_cons_keep hd ha, pieces_cons_keep hd hb]

/-- A text without separators is one piece. -/
theorem pieces_of_no_sep {sep : Char → Bool} {s : List Char} (h : ∀ c ∈ s, sep c = false) :
    pieces sep s = [s] := by
  induction s with
  | nil => rfl
  | cons c s ih => exact pieces_cons_keep (h c (by simp)) (ih fun d hd => h d (by simp [hd]))

/-- A text without separators that is written behind another goes into its last piece. -/
theorem pieces_append_keep {sep : Char → Bool} {v : List Char} (h : ∀ c ∈ v, sep c = false)
    (s : List Char) : ∃ ps p, pieces sep s = ps ++ [p] ∧ pieces sep (s ++ v) = ps ++ [p ++ v] := by
  induction s with
  | nil => exact ⟨[], [], rfl, pieces_of_no_sep h⟩
  | cons c s ih =>
    obtain ⟨ps, p, hs, hv⟩ := ih
    cases hc : sep c with
    | true =>
      refine ⟨[] :: ps, p, ?_, ?_⟩
      · rw [pieces_cons_sep hc, hs, List.cons_append]
      · rw [List.cons_append, pieces_cons_sep hc, hv, List.cons_append]
    | false =>
      cases ps with
      | nil => exact ⟨[], c :: p, pieces_cons_keep hc hs, pieces_cons_keep hc hv⟩
      | cons q ps => exact ⟨(c :: q) :: ps, p, pieces_cons_keep hc hs, pieces_cons_keep hc hv⟩

/-- Texts without separators, each ended by one, are the pieces but for the empty one behind. -/
theorem pieces_flatMap_ended {sep : Char → Bool} {c : Char} (hc : sep c = true)
    {ls : List (List Char)} (h : ∀ l ∈ ls, ∀ d ∈ l, sep d = false) :
    pieces sep (ls.flatMap fun l => l ++ [c]) = ls ++ [[]] := by
  induction ls with
  | nil => rfl
  | cons l ls ih =>
    have hl := pieces_of_no_sep (h l (by simp))
    have hs := ih fun m hm => h m (by simp [hm])
    rw [List.flatMap_cons, List.append_assoc, List.singleton_append, pieces_append_sep hc, hl, hs]
    rfl

/-- The pieces of a text, each ended by the separator, are the text with one more behind it. -/
theorem flatMap_pieces (c : Char) (s : List Char) :
    ((pieces (· == c) s).flatMap fun p => p ++ [c]) = s ++ [c] := by
  induction s with
  | nil => rfl
  | cons d s ih =>
    cases hd : d == c with
    | true =>
      rw [pieces_cons_sep (by simpa using hd), List.flatMap_cons, ih, eq_of_beq hd]
      rfl
    | false =>
      obtain ⟨p, ps, hs⟩ := List.exists_cons_of_ne_nil (pieces_ne_nil (· == c) s)
      have hk : pieces (· == c) (d :: s) = (d :: p) :: ps :=
        pieces_cons_keep (by exact hd) hs
      rw [hs] at ih
      rw [hk]
      simpa using ih

/-- A piece holds no separator, and only characters of the text. -/
theorem mem_of_mem_pieces {sep : Char → Bool} {s p : List Char} (hp : p ∈ pieces sep s) :
    ∀ c ∈ p, c ∈ s ∧ sep c = false := by
  induction s generalizing p with
  | nil =>
    rw [pieces_nil, List.mem_singleton] at hp
    simp [hp]
  | cons d s ih =>
    cases hd : sep d with
    | true =>
      rw [pieces_cons_sep hd, List.mem_cons] at hp
      rcases hp with rfl | hp
      · simp
      · intro c hc
        have := ih hp c hc
        exact ⟨by simp [this.1], this.2⟩
    | false =>
      obtain ⟨q, qs, hs⟩ := List.exists_cons_of_ne_nil (pieces_ne_nil sep s)
      rw [pieces_cons_keep hd hs, List.mem_cons] at hp
      have key : ∀ r ∈ q :: qs, ∀ c ∈ r, c ∈ d :: s ∧ sep c = false := by
        intro r hr c hc
        have := ih (hs ▸ hr) c hc
        exact ⟨by simp [this.1], this.2⟩
      rcases hp with rfl | hp
      · intro c hc
        rcases List.mem_cons.mp hc with rfl | hc
        · exact ⟨by simp, hd⟩
        · exact key q (by simp) c hc
      · exact key p (by simp [hp])

/-- A piece stands in the text as it is. -/
theorem infix_of_mem_pieces {sep : Char → Bool} {s p : List Char} (hp : p ∈ pieces sep s) :
    p <:+: s := by
  -- A first piece may grow at its start, so it must be known to begin the text.
  have key : (∀ q ∈ (pieces sep s).head?, q <+: s) ∧ ∀ q ∈ pieces sep s, q <:+: s := by
    clear hp
    induction s with
    | nil => simp
    | cons c s ih =>
      obtain ⟨hfirst, hall⟩ := ih
      cases hc : sep c with
      | true =>
        rw [pieces_cons_sep hc]
        refine ⟨by simp, fun q hq => ?_⟩
        rcases List.mem_cons.mp hq with rfl | hq
        · exact List.nil_infix
        · exact List.infix_cons (hall q hq)
      | false =>
        obtain ⟨q, qs, hs⟩ := List.exists_cons_of_ne_nil (pieces_ne_nil sep s)
        have hq : c :: q <+: c :: s := by
          rw [List.cons_prefix_cons]
          exact ⟨rfl, hfirst q (by simp [hs])⟩
        rw [pieces_cons_keep hc hs]
        refine ⟨by simpa using hq, fun r hr => ?_⟩
        rcases List.mem_cons.mp hr with rfl | hr
        · exact hq.isInfix
        · exact List.infix_cons (hall r (by simp [hs, hr]))
  exact key.2 p hp

/-- A part of a text that a character divides, without that character, keeps to one side. -/
theorem infix_or_of_infix_append_cons {c : Char} {w a b : List Char} (hc : c ∉ w)
    (h : w <:+: a ++ c :: b) : w <:+: a ∨ w <:+: b := by
  have head : ∀ {y z : List Char}, c ∉ y → c :: b = y ++ z → y = [] := by
    intro y z hy h
    cases y with
    | nil => rfl
    | cons d y =>
      cases h
      exact absurd (List.mem_cons_self ..) hy
  obtain ⟨u, v, huv⟩ := h
  rw [List.append_assoc] at huv
  rcases List.append_eq_append_iff.mp huv with ⟨x, rfl, hx⟩ | ⟨x, rfl, hx⟩
  · rcases List.append_eq_append_iff.mp hx with ⟨y, rfl, -⟩ | ⟨y, rfl, hy⟩
    · exact .inl ⟨u, y, by simp⟩
    · have hnil : y = [] := head (fun hm => hc (by simp [hm])) hy
      subst hnil
      exact .inl ⟨u, [], by simp⟩
  · cases x with
    | nil =>
      rw [head hc hx]
      exact .inl List.nil_infix
    | cons d x =>
      cases hx
      exact .inr ⟨x, v, by simp⟩

theorem dropReturn_append_return (l : List Char) : dropReturn (l ++ ['\r']) = l := by
  induction l with
  | nil => rfl
  | cons c l ih => simp [dropReturn, ih]

theorem mem_of_mem_dropReturn {c : Char} {l : List Char} (h : c ∈ dropReturn l) : c ∈ l := by
  induction l with
  | nil => exact h
  | cons d l ih =>
    simp only [dropReturn] at h
    split at h
    · cases h
    · rcases List.mem_cons.mp h with rfl | h
      · simp
      · simp [ih h]

/-- All parts but those behind the last line feed are lines that a line feed ends. -/
theorem settleLines_append (ps : List (List Char)) {qs : List (List Char)} (hq : qs ≠ []) :
    settleLines (ps ++ qs) = ps.map dropReturn ++ settleLines qs := by
  induction ps with
  | nil => rfl
  | cons p ps ih =>
    obtain ⟨m, ms, hm⟩ := List.exists_cons_of_ne_nil (List.append_ne_nil_of_right_ne_nil ps hq)
    rw [List.cons_append, hm, settleLines, ← hm, ih]
    rfl

/-- A text that is empty or ends with a line feed, so that what follows starts a line of its own. -/
def EndsLine (s : List Char) : Prop := s = [] ∨ s.getLast? = some '\n'

instance (s : List Char) : Decidable (EndsLine s) := inferInstanceAs (Decidable (_ ∨ _))

theorem lines_append_newline (a b : List Char) :
    lines (a ++ '\n' :: b) = (pieces (· == '\n') a).map dropReturn ++ lines b := by
  rw [lines, pieces_append_sep (by rfl), settleLines_append _ (pieces_ne_nil _ b), lines]

theorem pieces_of_newline_not_mem {l : List Char} (h : '\n' ∉ l) :
    pieces (· == '\n') l = [l] := by
  apply pieces_of_no_sep
  intro c hc
  rw [beq_eq_false_iff_ne]
  exact ne_of_mem_of_not_mem hc h

/-- The first line of a text is what stands before its first line feed. -/
theorem lines_first {l : List Char} (h : '\n' ∉ l) (s : List Char) :
    lines (l ++ '\n' :: s) = dropReturn l :: lines s := by
  rw [lines_append_newline, pieces_of_newline_not_mem h]
  rfl

/-- What stands behind the end of a line does not change the lines before it. -/
theorem lines_append {a : List Char} (h : EndsLine a) (b : List Char) :
    lines (a ++ b) = lines a ++ lines b := by
  rcases h with rfl | h
  · rfl
  · obtain ⟨a', rfl⟩ := List.getLast?_eq_some_iff.mp h
    rw [List.append_assoc, List.singleton_append, lines_append_newline,
      lines_append_newline a' []]
    simp [lines, settleLines]

/-- The text of lines, each ended by a carriage return and a line feed. -/
def unlinesReturn (ls : List (List Char)) : List Char := ls.flatMap fun l => l ++ ['\r', '\n']

/-- Every list of texts without line feeds is the list of lines of a text. -/
theorem lines_unlinesReturn {ls : List (List Char)} (h : ∀ l ∈ ls, '\n' ∉ l) :
    lines (unlinesReturn ls) = ls := by
  induction ls with
  | nil => rfl
  | cons l ls ih =>
    have hl : '\n' ∉ l ++ ['\r'] := by simpa using h l (by simp)
    have hs : unlinesReturn (l :: ls) = (l ++ ['\r']) ++ '\n' :: unlinesReturn ls := by
      simp [unlinesReturn]
    rw [hs, lines_first hl, dropReturn_append_return, ih fun m hm => h m (by simp [hm])]

/-- A line holds no line feed. -/
theorem newline_not_mem_of_mem_lines {s l : List Char} (h : l ∈ lines s) : '\n' ∉ l := by
  have key : ∀ ps : List (List Char), (∀ p ∈ ps, '\n' ∉ p) → ∀ m ∈ settleLines ps, '\n' ∉ m := by
    intro ps
    fun_induction settleLines ps with
    | case1 => simp
    | case2 last hl => simp
    | case3 last hl =>
      intro hp m hm
      exact hp m (by simpa using hm)
    | case4 l m ls ih =>
      intro hp x hx
      rcases List.mem_cons.mp hx with rfl | hx
      · exact fun hn => hp l (by simp) (mem_of_mem_dropReturn hn)
      · exact ih (fun p hm => hp p (by simp [List.mem_cons.mp hm])) x hx
  apply key _ _ l h
  intro p hp hn
  have := (mem_of_mem_pieces hp '\n' hn).2
  simp at this

theorem dropReturn_of_not_mem {l : List Char} (h : '\r' ∉ l) : dropReturn l = l := by
  induction l with
  | nil => rfl
  | cons c l ih =>
    rw [List.mem_cons, not_or] at h
    have hc : (c == '\r') = false := by simpa using Ne.symm h.1
    simp [dropReturn, hc, ih h.2]

/-- Lines, each ended by a line feed, are the text without its returns, but that the end of the last
line may have been missing. -/
theorem flatMap_settleLines {ps : List (List Char)} (h : ∀ p ∈ ps, '\r' ∉ p) :
    settleLines ps = ps ∨
      ((settleLines ps).flatMap fun l => l ++ ['\n']) ++ ['\n'] =
        ps.flatMap fun l => l ++ ['\n'] := by
  fun_induction settleLines ps with
  | case1 => exact .inl rfl
  | case2 last hl =>
    rw [List.isEmpty_iff] at hl
    subst hl
    exact .inr rfl
  | case3 last hl => exact .inl rfl
  | case4 l m ls ih =>
    rw [dropReturn_of_not_mem (h l (by simp))]
    rcases ih fun p hp => h p (by simp [List.mem_cons.mp hp]) with ih | ih
    · exact .inl (by rw [ih])
    · refine .inr ?_
      rw [List.flatMap_cons, List.append_assoc, ih]
      rfl

/-- Consecutive lines of a text without carriage returns stand in it as they are, each ended by
a line feed; of the last line the end may be missing, so one more line must follow. -/
theorem infix_of_lines {s : List Char} (h : '\r' ∉ s) {front middle below : List (List Char)}
    {l : List Char} (hs : lines s = front ++ middle ++ l :: below) :
    (middle.flatMap fun l => l ++ ['\n']) <:+: s := by
  have hp : ∀ p ∈ pieces (· == '\n') s, '\r' ∉ p := fun p hp hr => h (mem_of_mem_pieces hp _ hr).1
  have hends : ((lines s).flatMap fun l => l ++ ['\n']) = s ++ ['\n'] ∨
      ((lines s).flatMap fun l => l ++ ['\n']) ++ ['\n'] = s ++ ['\n'] := by
    rw [← flatMap_pieces]
    rcases flatMap_settleLines hp with h | h
    · exact .inl (by rw [lines, h])
    · exact .inr h
  obtain ⟨init, last, hlast⟩ : ∃ init last, l :: below = init ++ [last] := by
    rcases List.eq_nil_or_concat (l :: below) with h | ⟨init, last, h⟩
    · cases h
    · exact ⟨init, last, by rw [h, List.concat_eq_append]⟩
  rw [hs, hlast] at hends
  simp only [List.flatMap_append, List.flatMap_cons, List.flatMap_nil, List.append_nil,
    ← List.append_assoc, List.append_left_inj] at hends
  rcases hends with hends | hends
  · rw [← hends, List.append_assoc _ _ last]
    exact List.infix_append _ _ _
  · rw [← hends, List.append_assoc _ _ ['\n'], List.append_assoc _ _ (last ++ ['\n'])]
    exact List.infix_append _ _ _

end RenderPlan.Text
