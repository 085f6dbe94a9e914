import RenderPlan.Proofs.Description.Passage
import RenderPlan.Proofs.Description.Spacing
/-!
Layouts of list fields. A list may start in its field or on the line below it, and the buffer of an
`outputs` field may stand on a line of its own as well. A reading comes to the opening bracket with
the same block to fill in every layout, and the text that it finds there differs at most in blank
characters at the end of the line. So what it reads from there on is the same plan, or an error in
each layout.
-/
namespace RenderPlan.Description

open RenderPlan.Text

theorem isIgnorable_of_opening {text : List Char} (h : startsWith '[' text = true) :
    isIgnorable text = false := by
  obtain ⟨o, ho⟩ := exists_of_startsWith h
  simp [isIgnorable, isComment, startsWith, ho]

/-- Blank characters behind the line that opens a list do not matter, whatever follows it. -/
theorem toOption_run_openList {text : List Char} (hb : startsWith '[' text = true)
    (hn : '\n' ∉ text) (plan : Plan) (field : ListField) (n : Nat) (ls : List Line) :
    (openList plan field n (trimStart text) >>= fun t => t.run ls).toOption =
      (openList plan field n (trim text) >>= fun t => t.run ls).toOption := by
  have hr : Respaced SameEnd (trimStart text) (trim text) :=
    respaced_of_trimEnd_eq (trimEnd_trimEnd _) (fun hm => hn (mem_of_mem_trimStart hm))
      fun hm => hn (mem_of_mem_trim hm)
  have hopen := openList_respaced hr (by rwa [startsWith, trimStart_trimStart]) plan field n
  rw [trimStart_trimStart, trimStart_trim] at hopen
  have hrun := hopen.bind fun _ _ hs => (hs.feedAll ls).bind fun _ _ ht => ht.finish
  exact hrun.toOption_eq

/-- The line of a field, the line of the same field without its value, and the value on a line of
its own. -/
def MovesValue (text emptied moved : List Char) : Prop :=
  ∃ key value v, text = key ++ ':' :: value ∧ ':' ∉ key ∧ emptied = key ++ ':' :: v ∧
    (∀ c ∈ v, isBlank c = true) ∧ trim moved = trim value

theorem MovesValue.exists_field {text emptied moved : List Char}
    (h : MovesValue text emptied moved) {n : Nat} {f : Field} (hf : Field.read? n text = some f) :
    trim moved = f.value ∧ ∃ g, Field.read? n emptied = some g ∧ g.line = f.line ∧
      g.keyword = f.keyword ∧ g.value = [] := by
  obtain ⟨key, value, v, rfl, hkey, rfl, hv, hmoved⟩ := h
  rw [Field.read?, cutAt_eq_some_iff.mpr ⟨rfl, hkey⟩] at hf
  cases hf
  refine ⟨hmoved, ⟨n, trim key, [], !isIndented (key ++ ':' :: v)⟩, ?_, rfl, rfl, rfl⟩
  have hempty : trim v = [] := trim_eq_nil_iff.mpr hv
  rw [Field.read?, cutAt_eq_some_iff.mpr ⟨rfl, hkey⟩]
  simp only [Option.map_some, hempty]

section Lists

variable {plan p : Plan} {block : Block} {field : ListField} {s : State}

/-- A list field without a value, and below it the line that opens its list. -/
theorem Settled.run_list_below (hs : Settled plan block s) {gap : List Line}
    (hgap : ∀ g ∈ gap, isIgnorable g.text = true) {l : Line} {f : Field} {k : Keyword}
    (hf : l.field? = some f) (hk : Keyword.ofText? (String.ofList f.keyword) = some k)
    (h : Lists block k field) (hv : f.value = []) {m : Line} (hm : startsWith '[' m.text = true)
    (ls : List Line) : s.run (gap ++ l :: m :: ls) =
      openList plan field f.line (trimStart m.text) >>= fun t => t.run ls := by
  have hskip : isIgnorable m.text = false := isIgnorable_of_opening hm
  have hfeed : State.feed ⟨plan, .expectList field f.line⟩ m =
      openList plan field f.line (trimStart m.text) := by
    rw [State.feed, show Mode.skips (.expectList field f.line) m.text = false from hskip]
    simp [consume, hm]
  rw [hs.run_field hf hk hgap, blockField_of_lists f h, listField, if_pos hv]
  change State.run ⟨plan, .expectList field f.line⟩ (m :: ls) = _
  rw [State.run_cons, hfeed]

/-- A group of a list keyword fills the list of its keyword. -/
theorem exists_lists_of_groupStep {plan' : Plan} {block' : Block} {g : Group}
    (h : GroupStep plan block g plan' block')
    (hk : g.keyword ∈ [Keyword.attributes, .uniforms, .varying, .textures, .inputs]) :
    ∃ field, Lists block g.keyword field := by
  generalize hkey : g.keyword = k at hk
  cases h with
  | name hname | version hname =>
    rw [← hkey, hname] at hk
    exact absurd hk (by decide)
  | opens ho =>
    rw [hkey] at ho
    have hopens : k.opensBlock = true := (Bool.and_eq_true_iff.mp ho).1
    have hnone : ∀ k ∈ [Keyword.attributes, .uniforms, .varying, .textures, .inputs],
        k.opensBlock = false := by decide
    rw [hnone k hk] at hopens
    cases hopens
  | field _ ht =>
    cases ht with
    | sets h =>
      rw [hkey] at h
      cases h <;> exact absurd hk (by decide)
    | list h =>
      rw [hkey] at h
      exact ⟨_, h⟩
    | outputs _ hkey' | source _ _ hkey' =>
      rw [← hkey, hkey'] at hk
      exact absurd hk (by decide)

/-- The list of a field that is read may be moved to a line of its own. -/
theorem run_moved (hs : Settled plan block s) {c d : Cursor} {x : Span} {after : List Span}
    (hspans : Spans c (x :: after) d) (hrun : s.run c.remaining = .ok p)
    (hk : x.group.keyword ∈ [Keyword.attributes, .uniforms, .varying, .textures, .inputs])
    (hb : startsWith '[' x.group.field.value = true) :
    ∃ l ls, x.lines = l :: ls ∧ ∀ emptied moved : Line, emptied.number = l.number →
      MovesValue l.text emptied.text moved.text → '\n' ∉ moved.text →
      s.run (x.gap ++ emptied :: moved :: (ls ++ (after.flatMap Span.all ++ d.remaining))) =
        .ok p := by
  obtain ⟨l, ls, e, hlines, hf, hkey, hgap, hc, hafter⟩ := hspans.exists_of_cons
  refine ⟨l, ls, hlines, fun emptied moved hnum hmoves hn => ?_⟩
  obtain ⟨field, hlists⟩ : ∃ field, Lists block x.group.keyword field := by
    obtain ⟨_, _, _, hsteps, -⟩ := hspans.exists_feedAll_of_run hs hrun
    cases hsteps with
    | cons hstep => exact exists_lists_of_groupStep hstep hk
  obtain ⟨hmoved, f, hf', hline, hkeyword, hvalue⟩ := hmoves.exists_field hf
  have hopening : startsWith '[' moved.text = true := by
    rw [← hb, ← hmoved]
    exact startsWith_congr (trim_trim moved.text).symm '['
  have hne : x.group.field.value ≠ [] := by
    rintro hnil
    rw [hnil] at hb
    cases hb
  have hfield : (openList plan field f.line (trim moved.text) >>= fun t =>
      t.run (ls ++ e.remaining)) = .ok p := by
    rw [hc, hs.run_field hf hkey hgap, blockField_of_lists _ hlists, listField, if_neg hne] at hrun
    rw [hmoved, hline]
    exact hrun
  have hbelow : s.run (x.gap ++ emptied :: moved :: (ls ++ e.remaining)) =
      openList plan field f.line (trimStart moved.text) >>= fun t => t.run (ls ++ e.remaining) :=
    hs.run_list_below hgap (by rw [Line.field?, hnum]; exact hf') (by rw [hkeyword]; exact hkey)
      hlists hvalue hopening _
  have hsame := toOption_run_openList hopening hn plan field f.line (ls ++ e.remaining)
  rw [← hbelow, hfield] at hsame
  rw [← hafter.remaining]
  exact eq_ok_of_toOption hsame

/-- The same of a whole text. -/
theorem read_moved {source : String} (h : read source = .ok p) {before after : List Span} {x : Span}
    {d : Cursor} (hspans : Spans (Cursor.ofText source.toList) (before ++ x :: after) d)
    (hk : x.group.keyword ∈ [Keyword.attributes, .uniforms, .varying, .textures, .inputs])
    (hb : x.group.field.value.head? = some '[') :
    ∃ l ls, x.lines = l :: ls ∧ ∀ (emptied moved : List Char) (source' : String),
      MovesValue l.text emptied moved →
      lines source'.toList = (before.flatMap Span.all ++ x.gap).map Line.text ++
        emptied :: moved :: (ls ++ (after.flatMap Span.all ++ d.remaining)).map Line.text →
      read source' = .ok p := by
  obtain ⟨c, hbefore, hrest⟩ := hspans.split
  have hinitial : Settled {} .root State.initial := .fields .root
  obtain ⟨plan, block, s, -, hfeed, hs, hrun⟩ := hbefore.exists_feedAll_of_run hinitial h
  obtain ⟨r, hr⟩ := List.head?_eq_some_iff.mp hb
  have hopening : startsWith '[' x.group.field.value = true := by
    rw [startsWith, hr, trimStart_cons_solid isBlank_opening]
    rfl
  obtain ⟨l, ls, hlines, hmoved⟩ := run_moved hs hrest hrun hk hopening
  refine ⟨l, ls, hlines, fun emptied moved source' hmoves hsource => ?_⟩
  have hn : '\n' ∉ moved := newline_not_mem_of_mem_lines (s := source'.toList) (by simp [hsource])
  have hnew := hmoved ⟨l.number, emptied⟩ ⟨0, moved⟩ rfl hmoves hn
  have hall : State.run .initial (before.flatMap Span.all ++ (x.gap ++ ⟨l.number, emptied⟩ ::
      ⟨0, moved⟩ :: (ls ++ (after.flatMap Span.all ++ d.remaining)))) = .ok p := by
    rw [State.run_append, hfeed]
    exact hnew
  refine run_of_texts ?_ hall
  rw [linesOf, map_text_numberFrom, hsource]
  simp

end Lists

/-- A text that names a buffer in every layout. -/
structure IsBuffer (text : List Char) : Prop where
  ne_nil : text ≠ []
  solid : ∀ c ∈ text, isBlank c = false
  no_colon : ':' ∉ text
  no_opening : '[' ∉ text
  not_comment : text.head? ≠ some '-'

/-- The line of an `outputs` field with a value. -/
def IsOutputs (value text : List Char) : Prop :=
  ∃ key v, text = key ++ ':' :: v ∧ trim key = Keyword.outputs.spelling.toList ∧
    trim v = trim value

/-- The layouts of an `outputs` field with a buffer and a list, up to the line that opens the list:
each of the two in the line of the field or behind a line break, with blank lines and comments in
between. -/
inductive OutputsLayout (buffer opening : List Char) : List (List Char) → Prop
  | inField {x w : List Char} (hw : ∀ c ∈ w, isBlank c = true)
      (hx : IsOutputs (buffer ++ (w ++ opening)) x) : OutputsLayout buffer opening [x]
  | bufferBelow {x y w : List Char} {gap : List (List Char)} (hx : IsOutputs [] x)
      (hgap : ∀ t ∈ gap, isIgnorable t = true) (hw : ∀ c ∈ w, isBlank c = true)
      (hy : trim y = trim (buffer ++ (w ++ opening))) :
      OutputsLayout buffer opening (x :: (gap ++ [y]))
  | listBelow {x z : List Char} {gap : List (List Char)} (hx : IsOutputs buffer x)
      (hgap : ∀ t ∈ gap, isIgnorable t = true) (hz : trim z = trim opening) :
      OutputsLayout buffer opening (x :: (gap ++ [z]))
  | bothBelow {x y z : List Char} {gap gap' : List (List Char)} (hx : IsOutputs [] x)
      (hgap : ∀ t ∈ gap, isIgnorable t = true) (hy : trim y = buffer)
      (hgap' : ∀ t ∈ gap', isIgnorable t = true) (hz : trim z = trim opening) :
      OutputsLayout buffer opening (x :: (gap ++ y :: (gap' ++ [z])))

section Outputs

variable {plan : Plan} {p : Pass} {s : State} {buffer opened w : List Char}

/-- A settled reading takes an `outputs` field of a pass. -/
theorem Settled.run_outputs (hs : Settled plan (.pass p) s) {value x : List Char}
    (hx : IsOutputs value x) (n : Nat) (ls : List Line) : s.run (⟨n, x⟩ :: ls) =
      (if trim value = [] then .ok ⟨plan, .expectBuffer p n⟩
        else outputsValue plan p n (trim value) (trim value)) >>= fun t => t.run ls := by
  obtain ⟨key, v, rfl, hkey, hv⟩ := hx
  have hcolon : ':' ∉ key := by
    obtain ⟨u, u', hu, hblank, hblank'⟩ := exists_margins key
    rw [hu, hkey]
    simp [not_mem_of_all_blank isBlank_colon hblank, not_mem_of_all_blank isBlank_colon hblank',
      Keyword.spelling]
  have hf : Line.field? ⟨n, key ++ ':' :: v⟩ = some
      ⟨n, Keyword.outputs.spelling.toList, trim value, !isIndented (key ++ ':' :: v)⟩ := by
    rw [Line.field?, Field.read?, cutAt_eq_some_iff.mpr ⟨rfl, hcolon⟩]
    simp only [Option.map_some, hkey, hv]
  have hk : Keyword.ofText? (String.ofList Keyword.outputs.spelling.toList) = some .outputs := by
    rw [String.ofList_toList]
    exact Keyword.ofText?_eq_some_iff.mpr rfl
  have hnone : ∀ g ∈ ([] : List Line), isIgnorable g.text = true := by simp
  exact hs.run_field hf hk hnone ls

theorem IsBuffer.isBufferName (hb : IsBuffer buffer) : isBufferName buffer = true := by
  simpa [Description.isBufferName, hb.ne_nil] using hb.solid

theorem outputsValue_buffer (hb : IsBuffer buffer) (quoted : List Char) (n : Nat) :
    outputsValue plan p n quoted buffer = .ok ⟨plan, .expectOutputs p n buffer⟩ := by
  simp [outputsValue, splitOutputs, cutAt_eq_none_iff.mpr hb.no_opening, hb.isBufferName]

theorem outputsValue_opening (hb : IsBuffer buffer) (hw : ∀ c ∈ w, isBlank c = true)
    (quoted : List Char) (n : Nat) :
    outputsValue plan p n quoted (trim (buffer ++ (w ++ '[' :: opened))) =
      openList plan (.outputs p buffer) n (trim ('[' :: opened)) := by
  have htrim : trim (buffer ++ (w ++ '[' :: opened)) = (buffer ++ w) ++ '[' :: trimEnd opened := by
    rw [trim, trimStart_append_of_solid hb.ne_nil hb.solid, ← List.append_assoc,
      trimEnd_append_cons isBlank_opening]
  have hfree : '[' ∉ buffer ++ w :=
    List.not_mem_append hb.no_opening (not_mem_of_all_blank isBlank_opening hw)
  have hsplit : splitOutputs (trim (buffer ++ (w ++ '[' :: opened))) =
      (buffer, some (trim ('[' :: opened))) := by
    rw [htrim, splitOutputs, cutAt_eq_some_iff.mpr ⟨rfl, hfree⟩]
    simp only [trim_append_blank hw, trim_of_all_solid hb.solid, trim_cons_solid isBlank_opening]
  rw [outputsValue, hsplit]
  simp only [hb.isBufferName, if_true]

/-- The line that a mode waits for, behind blank lines and comments. -/
theorem run_gap {m : Mode} (hm : ∀ text, m.skips text = isIgnorable text)
    {gap : List (List Char)} (hgap : ∀ t ∈ gap, isIgnorable t = true) {y : List Char}
    (hy : isIgnorable y = false) (n : Nat) (ls : List (List Char)) (rest : List Line) :
    State.run ⟨plan, m⟩ (numberFrom n (gap ++ y :: ls) ++ rest) =
      consume plan ⟨n + gap.length, y⟩ m >>= fun t =>
        t.run (numberFrom (n + gap.length + 1) ls ++ rest) := by
  have hskip : State.feedAll ⟨plan, m⟩ (numberFrom n gap) = .ok ⟨plan, m⟩ := by
    refine feedAll_of_skips fun l hl => (hm l.text).trans (hgap l.text ?_)
    rw [← map_text_numberFrom n gap]
    exact List.mem_map_of_mem hl
  have hfeed : State.feed ⟨plan, m⟩ ⟨n + gap.length, y⟩ = consume plan ⟨n + gap.length, y⟩ m := by
    rw [State.feed, hm, hy]
    rfl
  rw [numberFrom_append, List.append_assoc, State.run_append, hskip]
  change State.run ⟨plan, m⟩ (⟨n + gap.length, y⟩ :: _) = _
  rw [State.run_cons, hfeed]
  rfl

/-- A line that begins with a buffer is neither blank nor a comment. -/
theorem IsBuffer.isIgnorable_eq_false (hb : IsBuffer buffer) {r y : List Char}
    (hy : trim y = trim (buffer ++ r)) : isIgnorable y = false := by
  obtain ⟨c, t, rfl⟩ := List.exists_cons_of_ne_nil hb.ne_nil
  have hc : c ≠ '-' := fun h => hb.not_comment (by rw [h]; rfl)
  rw [isIgnorable_congr hy]
  simp [isIgnorable, isComment, startsWith, trimStart_cons_solid (hb.solid c (by simp)), hc]

theorem IsBuffer.trim_append_ne_nil (hb : IsBuffer buffer) (r : List Char) :
    trim (buffer ++ r) ≠ [] := by
  obtain ⟨c, t, rfl⟩ := List.exists_cons_of_ne_nil hb.ne_nil
  simp [trim_cons_solid (hb.solid c (by simp))]

/-- The line below an `outputs` field without a value. -/
theorem run_expectBuffer (hb : IsBuffer buffer) {gap : List (List Char)}
    (hgap : ∀ t ∈ gap, isIgnorable t = true) {r y : List Char} (hr : ':' ∉ r)
    (hy : trim y = trim (buffer ++ r)) (n m : Nat) (ls : List (List Char)) (rest : List Line) :
    State.run ⟨plan, .expectBuffer p n⟩ (numberFrom m (gap ++ y :: ls) ++ rest) =
      outputsValue plan p n [] (trim (buffer ++ r)) >>= fun t =>
        t.run (numberFrom (m + gap.length + 1) ls ++ rest) := by
  have hcolon : ':' ∉ y := by
    rw [colon_mem_congr hy]
    exact List.not_mem_append hb.no_colon hr
  rw [run_gap (fun _ => rfl) hgap (hb.isIgnorable_eq_false hy), consume, if_neg hcolon, hy]

/-- The line below a buffer that opens its list. -/
theorem toOption_run_expectOutputs {gap : List (List Char)}
    (hgap : ∀ t ∈ gap, isIgnorable t = true) {z : List Char} (hz : trim z = trim ('[' :: opened))
    (hn : '\n' ∉ z) (n m : Nat) (rest : List Line) :
    (State.run ⟨plan, .expectOutputs p n buffer⟩ (numberFrom m (gap ++ [z]) ++ rest)).toOption =
      (openList plan (.outputs p buffer) n (trim ('[' :: opened)) >>= fun t =>
        t.run rest).toOption := by
  have hopening : startsWith '[' z = true := by
    rw [startsWith_congr hz, startsWith, trimStart_cons_solid isBlank_opening]
    rfl
  rw [run_gap (fun _ => rfl) hgap (isIgnorable_of_opening hopening), consume, if_pos hopening, ← hz]
  exact toOption_run_openList hopening hn plan _ n rest

/-- In every layout a reading comes to the same list of the same buffer. -/
theorem OutputsLayout.toOption_run {ls : List (List Char)}
    (h : OutputsLayout buffer ('[' :: opened) ls) (hb : IsBuffer buffer) (ho : ':' ∉ opened)
    (hn : ∀ t ∈ ls, '\n' ∉ t) (hs : Settled plan (.pass p) s) (n : Nat) (rest : List Line) :
    (s.run (numberFrom n ls ++ rest)).toOption =
      (openList plan (.outputs p buffer) n (trim ('[' :: opened)) >>= fun t =>
        t.run rest).toOption := by
  cases h with
  | inField hw hx =>
    rw [numberFrom_cons, List.cons_append, hs.run_outputs hx, if_neg (hb.trim_append_ne_nil _),
      outputsValue_opening hb hw]
    rfl
  | @bufferBelow x y w gap hx hgap hw hy =>
    have hcolon : ':' ∉ w ++ '[' :: opened :=
      List.not_mem_append (not_mem_of_all_blank isBlank_colon hw) (by simpa using ho)
    rw [numberFrom_cons, List.cons_append, hs.run_outputs hx, if_pos trim_nil]
    change (State.run ⟨plan, .expectBuffer p n⟩ _).toOption = _
    rw [run_expectBuffer hb hgap hcolon hy, outputsValue_opening hb hw]
    rfl
  | listBelow hx hgap hz =>
    have hbuffer : trim buffer = buffer := trim_of_all_solid hb.solid
    rw [numberFrom_cons, List.cons_append, hs.run_outputs hx, hbuffer, if_neg hb.ne_nil,
      outputsValue_buffer hb]
    exact toOption_run_expectOutputs hgap hz (hn _ (by simp)) n _ rest
  | bothBelow hx hgap hy hgap' hz =>
    have hbuffer : trim (buffer ++ []) = buffer := by
      rw [List.append_nil]
      exact trim_of_all_solid hb.solid
    rw [numberFrom_cons, List.cons_append, hs.run_outputs hx, if_pos trim_nil]
    change (State.run ⟨plan, .expectBuffer p n⟩ _).toOption = _
    rw [run_expectBuffer hb hgap (r := []) (by simp) (hy.trans hbuffer.symm), hbuffer,
      outputsValue_buffer hb]
    exact toOption_run_expectOutputs hgap' hz (hn _ (by simp)) n _ rest

end Outputs

/-- Lines behind which a field of a pass may be read. -/
def AtPass (front : List (List Char)) : Prop :=
  ∃ plan p s, State.initial.feedAll (numberFrom 1 front) = .ok s ∧ Settled plan (.pass p) s

/-- What two texts describe that differ in the layout of an `outputs` field. -/
theorem toOption_read_of_layouts {buffer opened : List Char} (hb : IsBuffer buffer)
    (ho : ':' ∉ opened) {front rest ls ms : List (List Char)} (hfront : AtPass front)
    (hls : OutputsLayout buffer ('[' :: opened) ls) (hms : OutputsLayout buffer ('[' :: opened) ms)
    {source source' : String} (hs : lines source.toList = front ++ (ls ++ rest))
    (hs' : lines source'.toList = front ++ (ms ++ rest)) :
    (read source).toOption = (read source').toOption := by
  obtain ⟨plan, p, s, hfeed, hsettled⟩ := hfront
  -- The lines behind the layouts are numbered alike, as their numbers do not matter.
  have key {source : String} {ls : List (List Char)} (h : OutputsLayout buffer ('[' :: opened) ls)
      (hs : lines source.toList = front ++ (ls ++ rest)) : (read source).toOption =
        (openList plan (.outputs p buffer) 0 (trim ('[' :: opened)) >>= fun t =>
          t.run (numberFrom 0 rest)).toOption := by
    have hn : ∀ t ∈ ls, '\n' ∉ t := fun t ht =>
      newline_not_mem_of_mem_lines (s := source.toList) (by simp [hs, ht])
    have htexts : (linesOf source.toList).map Line.text =
        (numberFrom 1 front ++ (numberFrom 0 ls ++ numberFrom 0 rest)).map Line.text := by
      simp [linesOf, map_text_numberFrom, hs]
    rw [← h.toOption_run hb ho hn hsettled 0 (numberFrom 0 rest)]
    refine (toOption_run_of_texts .initial htexts).trans ?_
    rw [State.run_append, hfeed]
    rfl
  rw [key hls hs, key hms hs']

/-- The layouts of a list field are equivalent. In a text that is read, the list of a field may
be moved to a line of its own below the field. At any place where a pass may have a field, an
`outputs` field with a buffer and a list may be laid out in each of four ways: all are read to the
same plan, or all are errors. -/
theorem list_layouts :
    (∀ (source : String) (plan : Plan), read source = .ok plan →
      (∃ xs d, Spans (Cursor.ofText source.toList) xs d ∧ d.peek? = none) ∧
      ∀ before x after d, Spans (Cursor.ofText source.toList) (before ++ x :: after) d →
        x.group.keyword ∈ [Keyword.attributes, .uniforms, .varying, .textures, .inputs] →
        x.group.field.value.head? = some '[' →
        ∃ l ls, x.lines = l :: ls ∧ ∀ (emptied moved : List Char) (source' : String),
          MovesValue l.text emptied moved →
          lines source'.toList = (before.flatMap Span.all ++ x.gap).map Line.text ++
            emptied :: moved :: (ls ++ (after.flatMap Span.all ++ d.remaining)).map Line.text →
          read source' = .ok plan) ∧
    (∀ buffer opened, IsBuffer buffer → ':' ∉ opened → ∀ front, AtPass front →
      ∀ ls ms, OutputsLayout buffer ('[' :: opened) ls → OutputsLayout buffer ('[' :: opened) ms →
      ∀ (rest : List (List Char)) (source source' : String),
        lines source.toList = front ++ (ls ++ rest) →
        lines source'.toList = front ++ (ms ++ rest) →
        (read source).toOption = (read source').toOption) := by
  refine ⟨fun source plan h => ⟨exists_spans_of_read h, fun before x after d hspans hk hb => ?_⟩,
    fun buffer opened hb ho front hfront ls ms hls hms rest source source' hs hs' => ?_⟩
  · exact read_moved h hspans hk hb
  · exact toOption_read_of_layouts hb ho hfront hls hms hs hs'

/-- Inputs moved below their field, and outputs over three lines with a comment in between. -/
theorem list_layouts_moved :
    ∃ plan plan', read "pass: p\n inputs: [b.c,\n d.e]\n" = .ok plan ∧
      read "pass: p\n inputs: \n\t[b.c,\n d.e]\n" = .ok plan ∧
      read "pass: p\n outputs: b [x,\n y]\n" = .ok plan' ∧
      read "pass: p\n outputs:\n- note\n  b\n [x,\n y]\n" = .ok plan' := by
  have h : read "pass: p\n inputs: [b.c,\n d.e]\n" = .ok
      { passes := [{ name := "p", inputs := [⟨"b", "c"⟩, ⟨"d", "e"⟩] }] } := by rfl
  have h' : read "pass: p\n outputs: b [x,\n y]\n" = .ok
      { passes := [{ name := "p", outputBuffer := "b", outputTextures := ["x", "y"] }] } := by rfl
  refine ⟨_, _, h, ?_, h', ?_⟩
  · let opener : Span := ⟨[], [⟨1, "pass: p".toList⟩],
      ⟨1, "pass".toList, "p".toList, true⟩, .pass, .nothing⟩
    let inputs : Span := ⟨[], [⟨2, " inputs: [b.c,".toList⟩, ⟨3, " d.e]".toList⟩],
      ⟨2, "inputs".toList, "[b.c,".toList, false⟩, .inputs, .list "b.c,\n d.e".toList⟩
    have hspans : Spans (Cursor.ofText "pass: p\n inputs: [b.c,\n d.e]\n".toList)
        ([opener] ++ inputs :: []) ⟨[]⟩ :=
      .cons rfl rfl (by decide) (by decide) <| .cons rfl rfl (by decide) (by decide) <| .nil _
    obtain ⟨l, ls, hl, hmoved⟩ :=
      (list_layouts.1 _ _ h).2 _ _ _ _ hspans (by decide) (by decide)
    cases hl
    exact hmoved " inputs: ".toList "\t[b.c,".toList _
      ⟨" inputs".toList, " [b.c,".toList, [' '], rfl, by decide, rfl, by simp, rfl⟩ rfl
  · have hb : IsBuffer ['b'] := ⟨by decide, List.forall_mem_singleton.mpr (by decide), by decide,
      by decide, by decide⟩
    have hfront : AtPass ["pass: p".toList] := ⟨{}, { name := "p" }, _, rfl, .fields _⟩
    have hfield : OutputsLayout ['b'] "[x,".toList [" outputs: b [x,".toList] :=
      .inField (w := [' ']) (by simp) ⟨" outputs".toList, " b [x,".toList, rfl, rfl, rfl⟩
    have hbelow : OutputsLayout ['b'] "[x,".toList
        (" outputs:".toList :: (["- note".toList] ++ "  b".toList :: ([] ++ [" [x,".toList]))) :=
      .bothBelow ⟨" outputs".toList, [], rfl, rfl, rfl⟩ (by decide) rfl (by decide) rfl
    have hsame := list_layouts.2 ['b'] ['x', ','] hb (by decide) _ hfront _ _ hfield hbelow
      [" y]".toList] "pass: p\n outputs: b [x,\n y]\n"
      "pass: p\n outputs:\n- note\n  b\n [x,\n y]\n" rfl rfl
    rw [h'] at hsame
    exact eq_ok_of_toOption hsame.symm

end RenderPlan.Description
