import RenderPlan.Proofs.Description.PassGrammar
import Mathlib.Data.List.TakeWhile
/-!
Lists of a pass that are left open. Collecting a list knows nothing of fields: it takes the lines
below, comments left out, up to the first closing bracket, whatever they look like. A list of
outputs takes any names, those of a field of the pass too. A list of inputs takes such a line only
if its keyword, the colon and the start of the value make up one dotted name. Where no closing
bracket follows, or something stands behind it, the list is reported on the line of its own field.
-/
namespace RenderPlan.Description

open RenderPlan.Text

/-- A text is read up to the lines `below`, and there a list is open. -/
def OpenList (source : String) (plan : Plan) (field : ListField) (n : Nat)
    (opening inner : List Char) (below : List Line) : Prop :=
  ∃ before, linesOf source.toList = before ++ below ∧
    State.initial.feedAll before = .ok ⟨plan, .list field n opening inner⟩

/-- A line that would be a field of a pass. -/
def Line.IsPassField (l : Line) : Prop :=
  ∃ f k, l.field? = some f ∧ Keyword.ofText? (String.ofList f.keyword) = some k ∧
    k ∈ Loop.pass.owned

/-- The text of a line before its first closing bracket. -/
def Line.upToBracket (l : Line) : List Char := l.text.takeWhile (· ≠ ']')

/-- The first name of a line, which goes on to the first character that ends it or the list. -/
def Line.firstName (l : Line) : List Char := (trimStart l.upToBracket).takeWhile (!endsName ·)

/-- A line that starts with the keyword of a pass field, a colon and the start of a value, all in
one dotted name. -/
def Line.StartsDotted (l : Line) : Prop :=
  Dotted l.firstName ∧ ∃ k ∈ Loop.pass.owned, k.spelling.toList ++ [':'] <+: l.firstName

theorem Line.IsPassField.not_comment {l : Line} (h : l.IsPassField) : isComment l.text = false := by
  obtain ⟨f, k, hf, hk, -⟩ := h
  have hi := (line_of_keyword hf hk).1
  rw [isIgnorable, Bool.or_eq_false_iff] at hi
  exact hi.2

/-- Reading on joins each line on behind a line feed. -/
theorem exists_of_closeBracket {inner text rest : List Char} {ls : List Line} {d : Cursor}
    (h : Cursor.closeBracket inner ls = (some (text, rest), d)) :
    ∃ more, text = inner ++ '\n' :: more := by
  induction ls generalizing inner with
  | nil => cases h
  | cons l ls ih =>
    rw [Cursor.closeBracket] at h
    split at h
    · exact ih h
    · simp only [Bracket.extend] at h
      cases hcut : cutAt ']' l.text with
      | none =>
        rw [hcut] at h
        obtain ⟨more, rfl⟩ := ih h
        exact ⟨l.text ++ '\n' :: more, by simp⟩
      | some p =>
        rw [hcut] at h
        cases h
        exact ⟨_, rfl⟩

theorem upToBracket_of_cutAt_eq_none {l : Line} (h : cutAt ']' l.text = none) :
    l.upToBracket = l.text := by
  refine List.takeWhile_eq_self_iff.mpr fun c hc => decide_eq_true ?_
  exact ne_of_mem_of_not_mem hc (cutAt_eq_none_iff.mp h)

theorem upToBracket_of_cutAt_eq_some {l : Line} {last rest : List Char}
    (h : cutAt ']' l.text = some (last, rest)) : l.upToBracket = last := by
  obtain ⟨htext, hlast⟩ := cutAt_eq_some_iff.mp h
  rw [Line.upToBracket, htext]
  exact (scan_append (fun c hc => decide_eq_true (ne_of_mem_of_not_mem hc hlast)) (by simp)).1

/-- A closed list has taken the next line up to its closing bracket, if the line is no comment. -/
theorem exists_of_closeBracket_cons {inner text rest : List Char} {l : Line} {ls : List Line}
    {d : Cursor} (hl : isComment l.text = false)
    (h : Cursor.closeBracket inner (l :: ls) = (some (text, rest), d)) :
    ∃ more, text = inner ++ '\n' :: (l.upToBracket ++ more) ∧ ∀ c ∈ more.head?, c = '\n' := by
  rw [Cursor.closeBracket, if_neg (by simp [hl])] at h
  simp only [Bracket.extend] at h
  cases hcut : cutAt ']' l.text with
  | none =>
    rw [hcut] at h
    obtain ⟨more, rfl⟩ := exists_of_closeBracket h
    refine ⟨'\n' :: more, ?_, by simp⟩
    rw [upToBracket_of_cutAt_eq_none hcut]
    simp
  | some p =>
    rw [hcut] at h
    cases h
    refine ⟨[], ?_, by simp⟩
    rw [upToBracket_of_cutAt_eq_some hcut, List.append_nil]

/-- The names that a closed list has taken from the next line, among the others. -/
theorem words_of_closeBracket_cons {inner text rest : List Char} {l : Line} {ls : List Line}
    {d : Cursor} (hl : isComment l.text = false)
    (h : Cursor.closeBracket inner (l :: ls) = (some (text, rest), d)) :
    ∃ ws, words endsName text =
      words endsName inner ++ (words endsName l.upToBracket ++ ws) := by
  obtain ⟨more, rfl, hmore⟩ := exists_of_closeBracket_cons hl h
  have hnewline : endsName '\n' = true := rfl
  rw [words_append hnewline]
  cases more with
  | nil => exact ⟨[], by simp⟩
  | cons c more =>
    obtain rfl : c = '\n' := hmore c rfl
    exact ⟨words endsName more, by rw [words_append hnewline]⟩

/-- No list is closed by lines without a closing bracket. -/
theorem closeBracket_of_not_mem {ls : List Line} (inner : List Char)
    (h : ∀ l ∈ ls, isComment l.text = false → ']' ∉ l.text) :
    (Cursor.closeBracket inner ls).1 = none := by
  induction ls generalizing inner with
  | nil => rfl
  | cons l ls ih =>
    obtain ⟨hl, hls⟩ := List.forall_mem_cons.mp h
    rw [Cursor.closeBracket]
    split
    · exact ih inner hls
    · next hcomment =>
      simp only [Bracket.extend, cutAt_eq_none_iff.mpr (hl (Bool.eq_false_iff.mpr hcomment))]
      exact ih _ hls

/-- The spelling of a pass field starts a name, and has neither a dot nor a closing bracket. -/
theorem spelling_of_owned {k : Keyword} (h : k ∈ Loop.pass.owned) :
    (∃ c r, k.spelling.toList = c :: r ∧ endsName c = false ∧ isBlank c = false) ∧
      '.' ∉ k.spelling.toList ∧ ']' ∉ k.spelling.toList := by
  cases k <;> first
    | exact absurd h (by decide)
    | exact ⟨⟨_, _, rfl, by decide, by decide⟩, by decide, by decide⟩

theorem words_trimStart (s : List Char) : words endsName (trimStart s) = words endsName s := by
  induction s with
  | nil => rfl
  | cons c s ih =>
    cases hc : isBlank c with
    | true => rw [trimStart_cons_blank hc, ih, words_cons_sep (by simp [endsName, hc])]
    | false => rw [trimStart_cons_solid hc]

/-- The first word of a text that starts with one. -/
theorem takeWhile_mem_words {sep : Char → Bool} {c : Char} (h : sep c = false) (s : List Char) :
    (c :: s).takeWhile (!sep ·) ∈ words sep (c :: s) := by
  have hrun : ∀ d ∈ (c :: s).takeWhile (!sep ·), sep d = false := fun d hd => by
    simpa using List.mem_takeWhile_imp hd
  have hrest : ∀ d ∈ ((c :: s).dropWhile (!sep ·)).head?, sep d = true := fun d hd => by
    have := List.head?_dropWhile_not (!sep ·) (c :: s)
    rw [Option.mem_def.mp hd] at this
    simpa using this
  have hwords := words_run_append (by simp [h]) hrun hrest
  rw [List.takeWhile_append_dropWhile] at hwords
  rw [hwords]
  exact List.mem_cons_self

/-- A dotted name goes over all that stands before its dot. -/
theorem solid_of_dotted {a b : List Char} (ha : '.' ∉ a)
    (h : Dotted ((a ++ b).takeWhile (!endsName ·))) : ∀ c ∈ a, endsName c = false := by
  rw [List.takeWhile_append] at h
  split at h
  · next hlen =>
    have hall : a.takeWhile (!endsName ·) = a := (List.takeWhile_prefix _).eq_of_length hlen
    simpa using List.takeWhile_eq_self_iff.mp hall
  · have hmem : '.' ∈ a.takeWhile (!endsName ·) := List.count_pos_iff.mp (h.one ▸ Nat.one_pos)
    exact absurd ((List.takeWhile_prefix _).subset hmem) ha

/-- The parts of a pass field: its keyword, with blank characters around it, and the value. -/
theorem Line.IsPassField.exists_parts {l : Line} (h : l.IsPassField) :
    ∃ k ∈ Loop.pass.owned, ∃ lead gap v, l.text = lead ++ (k.spelling.toList ++ gap ++ ':' :: v) ∧
      (∀ c ∈ lead, isBlank c = true) ∧ ∀ c ∈ gap, isBlank c = true := by
  obtain ⟨f, k, hf, hk, howned⟩ := h
  obtain ⟨⟨key, v⟩, hcut, rfl⟩ := Option.map_eq_some_iff.mp hf
  obtain ⟨htext, -⟩ := cutAt_eq_some_iff.mp hcut
  have hspell : k.spelling.toList = trim key := by
    rw [Keyword.ofText?_eq_some_iff.mp hk, String.toList_ofList]
  obtain ⟨lead, gap, hkey, hlead, hgap⟩ := exists_margins key
  refine ⟨k, howned, lead, gap, v, ?_, hlead, hgap⟩
  rw [htext, hspell]
  nth_rewrite 1 [hkey]
  simp

/-- Blank characters, dots and closing brackets are different characters. -/
theorem ne_of_isBlank {c : Char} (h : isBlank c = true) : c ≠ '.' ∧ c ≠ ']' := by
  constructor <;> rintro rfl <;> exact absurd h (by decide)

/-- The first closing bracket of a pass field stands behind its colon. -/
theorem Line.IsPassField.exists_upToBracket {l : Line} (h : l.IsPassField) :
    ∃ k ∈ Loop.pass.owned, ∃ gap v,
      trimStart l.upToBracket = k.spelling.toList ++ gap ++ ':' :: v ∧
      ∀ c ∈ gap, isBlank c = true := by
  obtain ⟨k, howned, lead, gap, v, htext, hlead, hgap⟩ := h.exists_parts
  obtain ⟨⟨c, r, hc, -, hblank⟩, hplain⟩ := spelling_of_owned howned
  refine ⟨k, howned, gap, v.takeWhile (· ≠ ']'), ?_, hgap⟩
  have hbefore : ∀ d ∈ lead ++ (k.spelling.toList ++ (gap ++ [':'])), decide (d ≠ ']') = true := by
    simp only [List.mem_append, List.mem_singleton, decide_eq_true_eq]
    rintro d (hd | hd | hd | rfl)
    · exact (ne_of_isBlank (hlead d hd)).2
    · exact ne_of_mem_of_not_mem hd hplain.2
    · exact (ne_of_isBlank (hgap d hd)).2
    · decide
  have hup : l.upToBracket =
      lead ++ (k.spelling.toList ++ gap ++ ':' :: v.takeWhile (· ≠ ']')) := by
    have hscan : (lead ++ (k.spelling.toList ++ (gap ++ [':'])) ++ v).takeWhile (· ≠ ']') = _ :=
      List.takeWhile_append_of_pos hbefore
    simpa [Line.upToBracket, htext] using hscan
  rw [hup, trimStart_blank_append hlead, hc]
  exact trimStart_cons_solid hblank _

/-- Where all names of a pass field up to its closing bracket are dotted, it starts with one. -/
theorem Line.IsPassField.startsDotted {l : Line} (h : l.IsPassField)
    (hall : ∀ w ∈ words endsName l.upToBracket, Dotted w) : l.StartsDotted := by
  obtain ⟨k, howned, gap, v, hup, hgap⟩ := h.exists_upToBracket
  obtain ⟨⟨c, r, hc, hsolid, -⟩, hplain⟩ := spelling_of_owned howned
  have hdotted : Dotted l.firstName := by
    refine hall _ ?_
    rw [← words_trimStart, Line.firstName, hup, hc]
    exact takeWhile_mem_words hsolid _
  refine ⟨hdotted, k, howned, ?_⟩
  rw [Line.firstName, hup] at hdotted ⊢
  have hfront : ∀ d ∈ k.spelling.toList ++ gap, endsName d = false := by
    refine solid_of_dotted (fun hdot => ?_) hdotted
    rcases List.mem_append.mp hdot with hdot | hdot
    · exact hplain.1 hdot
    · exact (ne_of_isBlank (hgap _ hdot)).1 rfl
  -- a blank before the colon would end the name
  obtain rfl : gap = [] := by
    refine List.eq_nil_iff_forall_not_mem.mpr fun d hd => ?_
    have hends := hfront d (List.mem_append_right _ hd)
    simp [endsName, hgap d hd] at hends
  have hname : ∀ d ∈ k.spelling.toList ++ [':'], (!endsName d) = true := by
    simp only [List.append_nil] at hfront
    refine List.forall_mem_append.mpr ⟨fun d hd => by simp [hfront d hd], by simp [endsName]⟩
  refine ⟨v.takeWhile (!endsName ·), ?_⟩
  rw [← List.takeWhile_append_of_pos hname]
  simp

section Lists

variable {source : String} {plan : Plan} {field : ListField} {p : Pass} {n : Nat}
  {opening inner : List Char} {l : Line} {below after : List Line}

theorem OpenList.read_eq (h : OpenList source plan field n opening inner below) :
    read source = State.run ⟨plan, .list field n opening inner⟩ below := by
  obtain ⟨before, hlines, hfeed⟩ := h
  change State.run .initial (linesOf source.toList) = _
  rw [hlines, State.run_append, hfeed]
  rfl

/-- A list without a closing bracket is reported with the text that opened it. -/
theorem OpenList.read_unclosed (h : OpenList source plan field n opening inner below)
    (hno : ∀ m ∈ below, isComment m.text = false → ']' ∉ m.text) :
    read source = .error ⟨n, .malformedList field.kind (String.ofList opening)⟩ := by
  have hnone := closeBracket_of_not_mem inner hno
  rw [h.read_eq, run_list]
  rcases hclose : Cursor.closeBracket inner below with ⟨_ | ⟨text, rest⟩, d⟩
  · rfl
  · rw [hclose] at hnone
    cases hnone

/-- A list with something behind its closing bracket is reported with that. -/
theorem OpenList.read_trailing (h : OpenList source plan field n opening inner below)
    {text rest : List Char} {d : Cursor}
    (hclose : Cursor.closeBracket inner below = (some (text, rest), d)) (hrest : trim rest ≠ []) :
    read source = .error ⟨n, .malformedList field.kind (String.ofList (trim rest))⟩ := by
  rw [h.read_eq, run_list, hclose]
  simp only [continueList, if_neg hrest]
  rfl

/-- An open list of inputs takes a pass field only where that starts with a dotted name. -/
theorem OpenList.read_inputs
    (h : OpenList source plan (.inputs p) n opening inner (l :: after)) (hl : l.IsPassField)
    (hno : ¬l.StartsDotted) :
    ∃ found, read source = .error ⟨n, .malformedList .input (String.ofList found)⟩ := by
  rcases hclose : Cursor.closeBracket inner (l :: after) with ⟨_ | ⟨text, rest⟩, d⟩
  · refine ⟨opening, ?_⟩
    rw [h.read_eq, run_list, hclose]
    rfl
  · by_cases hrest : trim rest = []
    · have hnames : Names text (words endsName text) := names_iff.mpr rfl
      have hread := hnames.inputsOf_iff.mpr rfl
      rw [h.read_eq, run_list, hclose]
      simp only [continueList_closed hrest, ListField.fill]
      generalize readInputs text = r at hread
      cases hread with
      | error _ _ _ => exact ⟨_, rfl⟩
      | ok hall _ =>
        obtain ⟨ws, hws⟩ := words_of_closeBracket_cons hl.not_comment hclose
        rw [hws] at hall
        refine absurd (hl.startsDotted fun w hw => hall w ?_) hno
        exact List.mem_append_right _ (List.mem_append_left _ hw)
    · exact ⟨_, h.read_trailing hclose hrest⟩

/-- An open list of outputs takes the names of any line. -/
theorem OpenList.read_outputs {b : List Char} {result : Plan}
    (h : OpenList source plan (.outputs p b) n opening inner (l :: after))
    (hl : isComment l.text = false) (hread : read source = .ok result) :
    ∃ text rest d ws ws' ws'', Cursor.closeBracket inner (l :: after) = (some (text, rest), d) ∧
      Names inner ws ∧ Names l.upToBracket ws' ∧ Names text (ws ++ (ws' ++ ws'')) ∧
      State.run (.inBlock plan (.pass
        (withOutputs p b ((ws ++ (ws' ++ ws'')).map String.ofList)))) d.remaining = .ok result := by
  rw [h.read_eq] at hread
  obtain ⟨text, rest, d, block, hclose, -, hfill, hrun⟩ := exists_of_run_list hread
  obtain ⟨ws, hws⟩ := words_of_closeBracket_cons hl hclose
  cases hfill
  rw [readOutputs, hws] at hrun
  exact ⟨text, rest, d, _, _, ws, hclose, names_iff.mpr rfl, names_iff.mpr rfl,
    names_iff.mpr hws, hrun⟩

end Lists

/-- What an open list of a pass takes. A list of inputs takes a line that would be a field of
the pass only where that starts with one dotted name, and else it is reported; a list of outputs
takes the names of any line. Without a closing bracket, and with something behind it, a list is
reported as well, on the line of its field. -/
theorem openPassList_takes {source : String} {plan : Plan} {field : ListField} {n : Nat}
    {opening inner : List Char} {below : List Line}
    (h : OpenList source plan field n opening inner below) :
    (∀ p l after, field = .inputs p → below = l :: after → l.IsPassField → ¬l.StartsDotted →
      ∃ found, read source = .error ⟨n, .malformedList .input (String.ofList found)⟩) ∧
    (∀ p b l after result, field = .outputs p b → below = l :: after →
      isComment l.text = false → read source = .ok result →
      ∃ text rest d ws ws' ws'', Cursor.closeBracket inner below = (some (text, rest), d) ∧
        Names inner ws ∧ Names l.upToBracket ws' ∧ Names text (ws ++ (ws' ++ ws'')) ∧
        State.run (.inBlock plan (.pass
          (withOutputs p b ((ws ++ (ws' ++ ws'')).map String.ofList)))) d.remaining =
            .ok result) ∧
    ((∀ m ∈ below, isComment m.text = false → ']' ∉ m.text) →
      read source = .error ⟨n, .malformedList field.kind (String.ofList opening)⟩) ∧
    ∀ text rest d, Cursor.closeBracket inner below = (some (text, rest), d) → trim rest ≠ [] →
      read source = .error ⟨n, .malformedList field.kind (String.ofList (trim rest))⟩ := by
  refine ⟨?_, ?_, h.read_unclosed, fun text rest d => h.read_trailing⟩
  · rintro p l after rfl rfl hl hno
    exact h.read_inputs hl hno
  · rintro p b l after result rfl rfl hl hread
    exact h.read_outputs hl hread

/-- The two words of a keyword are no dotted name, and no bracket follows the list of outputs. -/
theorem openPassList_takes_reported :
    (∃ found, read "pass: p\n  inputs: [a.b\n\n  clear depth:c.d]\n" =
      .error ⟨2, .malformedList .input (String.ofList found)⟩) ∧
    read "pass: p\n  outputs: b [x\n- ]\n  draw: quad\n" =
      .error ⟨2, .malformedList .output "[x"⟩ := by
  have hinputs : OpenList "pass: p\n  inputs: [a.b\n\n  clear depth:c.d]\n" {}
      (.inputs { name := "p" }) 2 "[a.b".toList "a.b\n".toList [⟨4, "  clear depth:c.d]".toList⟩] :=
    ⟨[⟨1, "pass: p".toList⟩, ⟨2, "  inputs: [a.b".toList⟩, ⟨3, []⟩], rfl, rfl⟩
  have houtputs : OpenList "pass: p\n  outputs: b [x\n- ]\n  draw: quad\n" {}
      (.outputs { name := "p" } "b".toList) 2 "[x".toList "x".toList
      [⟨3, "- ]".toList⟩, ⟨4, "  draw: quad".toList⟩] :=
    ⟨[⟨1, "pass: p".toList⟩, ⟨2, "  outputs: b [x".toList⟩], rfl, rfl⟩
  refine ⟨?_, (openPassList_takes houtputs).2.2.1 (by decide)⟩
  refine (openPassList_takes hinputs).1 _ _ _ rfl rfl ⟨_, .clearDepth, rfl, rfl, by decide⟩ ?_
  exact fun hdotted => absurd hdotted.1.one (by decide)

/-- A list of outputs that is left open takes two fields of its pass as names, and a list of inputs
takes one that is written as a dotted name. -/
theorem openPassList_takes_fields :
    (read "pass: p\n  outputs: b [x\n  draw: quad\n  inputs: [a.b]\n" =
        .ok { passes := [{ name := "p", outputBuffer := "b",
                           outputTextures := ["x", "draw:", "quad", "inputs:", "[a.b"] }] } ∧
      OpenList "pass: p\n  outputs: b [x\n  draw: quad\n  inputs: [a.b]\n" {}
        (.outputs { name := "p" } "b".toList) 2 "[x".toList "x".toList
        [⟨3, "  draw: quad".toList⟩, ⟨4, "  inputs: [a.b]".toList⟩] ∧
      Line.IsPassField ⟨3, "  draw: quad".toList⟩ ∧
      Line.IsPassField ⟨4, "  inputs: [a.b]".toList⟩) ∧
    read "pass: p\n  inputs: [a.b\n  draw:c.d]\n" =
        .ok { passes := [{ name := "p", inputs := [⟨"a", "b"⟩, ⟨"draw:c", "d"⟩] }] } ∧
      OpenList "pass: p\n  inputs: [a.b\n  draw:c.d]\n" {} (.inputs { name := "p" }) 2
        "[a.b".toList "a.b".toList [⟨3, "  draw:c.d]".toList⟩] ∧
      Line.IsPassField ⟨3, "  draw:c.d]".toList⟩ := by
  refine ⟨⟨by rfl, ?_, ?_, ?_⟩, by rfl, ?_, ?_⟩
  · exact ⟨[⟨1, "pass: p".toList⟩, ⟨2, "  outputs: b [x".toList⟩], rfl, rfl⟩
  · exact ⟨_, .draw, rfl, rfl, by decide⟩
  · exact ⟨_, .inputs, rfl, rfl, by decide⟩
  · exact ⟨[⟨1, "pass: p".toList⟩, ⟨2, "  inputs: [a.b".toList⟩], rfl, rfl⟩
  · exact ⟨_, .draw, rfl, rfl, by decide⟩

end RenderPlan.Description
