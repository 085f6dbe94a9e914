import RenderPlan.Proofs.Description.Declarations
import RenderPlan.Proofs.Description.Likeness
/-!
The lines of groups. Between two groups a reading is settled: it may take a field, and blank lines
and comments change nothing. From there the lines of a group lead it to where it is settled again,
with the block that the group leaves. So each group of a text that is read has its lines, and what
they do depends on their texts and the open block only, not on their numbers.
-/
namespace RenderPlan.Description

open RenderPlan.Text

namespace Likeness

/-- The likeness of readings whose lines have any numbers. -/
def unnumbered : Likeness := .ofRenumbering fun _ => 0

theorem exists_ofBlock (b : Block) : ∃ c, unnumbered.OfBlock b c := by
  cases b with
  | root => exact ⟨_, .root trivial⟩
  | buffer b => exact ⟨_, .buffer b⟩
  | pass p => exact ⟨_, .pass p⟩
  | texture t => exact ⟨_, .texture t⟩
  | shader s st => exact ⟨_, .shader st rfl⟩

theorem exists_ofListField (f : ListField) : ∃ g, unnumbered.OfListField f g := by
  cases f with
  | attributes s st => exact ⟨_, .attributes st rfl⟩
  | uniforms s => exact ⟨_, .uniforms rfl⟩
  | varyings s => exact ⟨_, .varyings rfl⟩
  | attachments b => exact ⟨_, .attachments b⟩
  | inputs p => exact ⟨_, .inputs p⟩
  | outputs p buffer => exact ⟨_, .outputs p buffer⟩

/-- Every state has its like without numbers. -/
theorem exists_ofState (s : State) : ∃ t, unnumbered.OfState s t := by
  obtain ⟨plan, m⟩ := s
  suffices h : ∃ n, unnumbered.OfMode m n by
    obtain ⟨n, hn⟩ := h
    exact ⟨⟨plan, n⟩, rfl, hn⟩
  cases m with
  | fields b =>
    obtain ⟨c, h⟩ := exists_ofBlock b
    exact ⟨_, .fields h⟩
  | expectList f n =>
    obtain ⟨g, h⟩ := exists_ofListField f
    exact ⟨_, .expectList n h⟩
  | list f n opening inner =>
    obtain ⟨g, h⟩ := exists_ofListField f
    exact ⟨_, .list n opening h (.refl _ inner)⟩
  | expectBuffer p n => exact ⟨_, .expectBuffer p n⟩
  | expectOutputs p n buffer => exact ⟨_, .expectOutputs p n buffer⟩
  | expectFence s st n => exact ⟨_, .expectFence st n rfl⟩
  | body s st n captured => exact ⟨_, .body st n captured rfl⟩

end Likeness

open Likeness (unnumbered)

theorem map_renumber_congr {ls ms : List Line} (h : ls.map Line.text = ms.map Line.text) :
    ls.map (Line.renumber unnumbered.line) = ms.map (Line.renumber unnumbered.line) := by
  have htexts (ls : List Line) :
      ls.map (Line.renumber unnumbered.line) = (ls.map Line.text).map fun t => ⟨0, t⟩ := by
    rw [List.map_map]
    rfl
  rw [htexts, htexts, h]

/-- What lines describe does not depend on their numbers, nor whether they describe a plan. -/
theorem toOption_run_of_texts (s : State) {ls ms : List Line}
    (h : ls.map Line.text = ms.map Line.text) : (s.run ls).toOption = (s.run ms).toOption := by
  obtain ⟨u, hu⟩ := Likeness.exists_ofState s
  have hls := (Likeness.finishAfter_alike hu ls).toOption_eq
  have hms := (Likeness.finishAfter_alike hu ms).toOption_eq
  rw [map_renumber_congr h] at hls
  exact hls.trans hms.symm

theorem run_of_texts {s : State} {ls ms : List Line} {p : Plan}
    (h : ls.map Line.text = ms.map Line.text) (hs : s.run ls = .ok p) : s.run ms = .ok p := by
  apply eq_ok_of_toOption
  rw [← toOption_run_of_texts s h, hs]
  rfl

/-- Where a block is open and a field may be read: behind an `outputs` field without a list, the
pass has none. -/
inductive Settled (plan : Plan) : Block → State → Prop
  | fields (block : Block) : Settled plan block ⟨plan, .fields block⟩
  | outputs (p : Pass) (n : Nat) (buffer : List Char) :
      Settled plan (.pass (withOutputs p buffer [])) ⟨plan, .expectOutputs p n buffer⟩

namespace Settled

variable {plan : Plan} {block : Block} {s : State}

theorem skips (h : Settled plan block s) (text : List Char) :
    s.mode.skips text = isIgnorable text := by
  cases h <;> rfl

theorem finish (h : Settled plan block s) : s.finish = closeBlock plan block := by
  cases h <;> rfl

/-- A line that does not start as a list does is taken as a field. -/
theorem feed (h : Settled plan block s) {l : Line} (hi : isIgnorable l.text = false)
    (hb : startsWith '[' l.text = false) : s.feed l = fieldLine plan block l := by
  rw [State.feed, h.skips, hi]
  cases h with
  | fields block => rfl
  | outputs p n buffer => simp [consume, hb]

end Settled

/-- Lines that a state passes over leave it as it is. -/
theorem feedAll_of_skips {s : State} {ls : List Line} (h : ∀ l ∈ ls, s.mode.skips l.text = true) :
    s.feedAll ls = .ok s := by
  induction ls with
  | nil => rfl
  | cons l ls ih =>
    obtain ⟨hl, hls⟩ := List.forall_mem_cons.mp h
    have hfeed : s.feed l = .ok s := by rw [State.feed, if_pos hl]
    rw [State.feedAll_cons, hfeed]
    exact ih hls

/-- A line begins, behind blank characters, with the keyword of its field. -/
theorem exists_trimStart_of_field {l : Line} {f : Field} {c : Char} {k : List Char}
    (hf : l.field? = some f) (hk : f.keyword = c :: k) : ∃ r, trimStart l.text = c :: r := by
  rw [Line.field?, Field.read?, Option.map_eq_some_iff] at hf
  obtain ⟨⟨key, v⟩, hcut, rfl⟩ := hf
  have hstart : ∃ r, trimStart key = c :: r := by
    obtain ⟨r, hr⟩ := trimEnd_prefix_self (trimStart key)
    exact ⟨k ++ r, by rw [← hr, show trimEnd (trimStart key) = c :: k from hk]; rfl⟩
  obtain ⟨r, hr⟩ := hstart
  obtain ⟨u, hu, hblank⟩ := exists_blank_append key
  refine ⟨r ++ ':' :: v, ?_⟩
  rw [(cutAt_eq_some_iff.mp hcut).1, hu, hr, List.append_assoc, trimStart_blank_append hblank]
  exact trimStart_cons_solid (isBlank_of_trimStart hr) _

/-- No keyword begins as a comment or a list does. -/
theorem line_of_keyword {l : Line} {f : Field} {k : Keyword} (hf : l.field? = some f)
    (hk : Keyword.ofText? (String.ofList f.keyword) = some k) :
    isIgnorable l.text = false ∧ startsWith '[' l.text = false := by
  have hspell := congrArg String.toList (Keyword.ofText?_eq_some_iff.mp hk)
  rw [String.toList_ofList] at hspell
  obtain ⟨c, r, hkey, hdash, hopen⟩ : ∃ c r, f.keyword = c :: r ∧ c ≠ '-' ∧ c ≠ '[' := by
    rw [← hspell]
    cases k <;> exact ⟨_, _, rfl, by decide, by decide⟩
  obtain ⟨r, hr⟩ := exists_trimStart_of_field hf hkey
  simp [isIgnorable, isComment, startsWith, hr, hdash, hopen]

namespace Settled

variable {plan : Plan} {block : Block} {s : State} {l : Line} {f : Field} {k : Keyword}
  (hs : Settled plan block s) (hf : l.field? = some f)
  (hk : Keyword.ofText? (String.ofList f.keyword) = some k)

include hs hf hk

/-- A settled reading takes the line of a field as that field of its block. -/
theorem feed_field : s.feed l = blockField plan block f k := by
  obtain ⟨hi, hb⟩ := line_of_keyword hf hk
  rw [hs.feed hi hb, fieldLine, hf]
  simp only [hk]

/-- The same behind blank lines and comments. -/
theorem run_field {gap : List Line} (hgap : ∀ g ∈ gap, isIgnorable g.text = true)
    (ls : List Line) :
    s.run (gap ++ l :: ls) = blockField plan block f k >>= fun t => t.run ls := by
  have hskip : s.feedAll gap = .ok s :=
    feedAll_of_skips fun g hg => (hs.skips g.text).trans (hgap g hg)
  rw [State.run_append, hskip]
  change State.run s (l :: ls) = _
  rw [State.run_cons, hs.feed_field hf hk]

end Settled

/-- The lines before the one that a cursor finds, and that line. -/
theorem Cursor.exists_gap_of_peek? {c : Cursor} {l : Line} (h : c.peek? = some l) :
    ∃ gap, c.remaining = gap ++ l :: c.next.remaining ∧
      (∀ g ∈ gap, isIgnorable g.text = true) ∧ isIgnorable l.text = false := by
  refine ⟨c.remaining.takeWhile fun l => isIgnorable l.text, ?_, ?_, ?_⟩
  · rw [← Cursor.skip_eq_cons h]
    exact List.takeWhile_append_dropWhile.symm
  · exact List.all_eq_true.mp List.all_takeWhile
  · have := List.head?_dropWhile_not (fun l : Line => isIgnorable l.text) c.remaining
    rw [show (c.remaining.dropWhile fun l => isIgnorable l.text).head? = some l from h] at this
    simpa using this

/-- Where blank lines and comments are passed over, the line that a cursor finds is the next. -/
theorem exists_feedAll_of_peek? (plan : Plan) (m : Mode)
    (hm : ∀ text, m.skips text = isIgnorable text) {c : Cursor} {l : Line}
    (h : c.peek? = some l) : ∃ gap, c.remaining = gap ++ l :: c.next.remaining ∧
      ∀ ms, State.feedAll ⟨plan, m⟩ (gap ++ l :: ms) =
        consume plan l m >>= fun t => t.feedAll ms := by
  obtain ⟨gap, hgap, hall, hl⟩ := Cursor.exists_gap_of_peek? h
  refine ⟨gap, hgap, fun ms => ?_⟩
  have hskip : State.feedAll ⟨plan, m⟩ gap = .ok ⟨plan, m⟩ :=
    feedAll_of_skips fun g hg => (hm g.text).trans (hall g hg)
  have hfeed : State.feed ⟨plan, m⟩ l = consume plan l m := by
    rw [State.feed, hm, hl]
    rfl
  rw [State.feedAll_append, hskip]
  change State.feedAll _ (l :: ms) = _
  rw [State.feedAll_cons, hfeed]

section Content

variable (plan : Plan) (field : ListField) (n : Nat) {c d : Cursor}

/-- The lines of an open list, the closing one the last. -/
theorem exists_feedAll_of_closeBracket (opening : List Char) {inner text rest : List Char}
    {ls : List Line} (h : Cursor.closeBracket inner ls = (some (text, rest), d)) :
    ∃ ms, ls = ms ++ d.remaining ∧ State.feedAll ⟨plan, .list field n opening inner⟩ ms =
      continueList plan field n opening (.closed text rest) := by
  induction ls generalizing inner with
  | nil => cases h
  | cons l ls ih =>
    rw [Cursor.closeBracket] at h
    cases hl : isComment l.text with
    | true =>
      rw [if_pos hl] at h
      obtain ⟨ms, rfl, hms⟩ := ih h
      refine ⟨l :: ms, rfl, ?_⟩
      rw [State.feedAll_cons, State.feed,
        show Mode.skips (.list field n opening inner) l.text = true from hl, if_pos rfl]
      exact hms
    | false =>
      have hfeed : State.feed ⟨plan, .list field n opening inner⟩ l =
          continueList plan field n opening (.extend inner l.text) := by
        rw [State.feed, show Mode.skips (.list field n opening inner) l.text = false from hl]
        rfl
      rw [hl, if_neg Bool.false_ne_true] at h
      cases hb : Bracket.extend inner l.text with
      | unclosed more =>
        rw [hb] at h hfeed
        obtain ⟨ms, rfl, hms⟩ := ih h
        refine ⟨l :: ms, rfl, ?_⟩
        rw [State.feedAll_cons, hfeed]
        exact hms
      | closed text' rest' =>
        rw [hb] at h hfeed
        cases h
        refine ⟨[l], rfl, ?_⟩
        rw [State.feedAll_cons, hfeed]
        cases continueList plan field n opening (.closed text rest) <;> rfl

variable {field} {inner : List Char} {block : Block} (hf : field.fill inner = .ok block)

include hf

theorem exists_feedAll_of_closed? {text : List Char}
    (h : c.closed? text = some (inner, d)) :
    ∃ s ms, openList plan field n text = .ok s ∧ c.remaining = ms ++ d.remaining ∧
      s.feedAll ms = .ok (.inBlock plan block) := by
  have hclosed {rest : List Char} (hr : trim rest = []) (opening : List Char) :
      continueList plan field n opening (.closed inner rest) = .ok (.inBlock plan block) := by
    rw [continueList_closed hr, hf]
  unfold Cursor.closed? at h
  split at h
  · next inner' rest d' hcollect =>
    split at h
    · next hr =>
      cases h
      unfold Cursor.collect at hcollect
      split at hcollect
      · next opened =>
        rw [openList]
        cases hb : Bracket.start opened with
        | unclosed more =>
          rw [hb] at hcollect
          obtain ⟨ms, hms, hfeed⟩ :=
            exists_feedAll_of_closeBracket plan field n ('[' :: opened) hcollect
          exact ⟨_, ms, rfl, hms, hfeed.trans (hclosed hr _)⟩
        | closed inner' rest' =>
          rw [hb] at hcollect
          cases hcollect
          exact ⟨_, [], hclosed hr _, rfl, rfl⟩
      · cases hcollect
    · cases h
  · cases h

/-- The lines below a list field without a value. -/
theorem exists_feedAll_of_list? (h : c.list? [] = some (inner, d)) :
    ∃ ms, c.remaining = ms ++ d.remaining ∧
      State.feedAll ⟨plan, .expectList field n⟩ ms = .ok (.inBlock plan block) := by
  rw [Cursor.list?, if_pos rfl] at h
  obtain ⟨l, hl, hclosed⟩ := Option.bind_eq_some_iff.mp h
  obtain ⟨gap, hgap, hfeed⟩ := exists_feedAll_of_peek? plan (.expectList field n)
    (fun _ => rfl) hl
  obtain ⟨s, ms, hopen, hms, hs⟩ := exists_feedAll_of_closed? plan n hf hclosed
  refine ⟨gap ++ l :: ms, by rw [hgap, hms]; simp, ?_⟩
  have hbracket : startsWith '[' l.text = true := by
    obtain ⟨opened, hopened, -⟩ := listStep_of_openList hopen
    simp [startsWith, hopened]
  rw [hfeed, consume, if_pos hbracket, hopen]
  exact hs

end Content

section Outputs

variable (plan : Plan) (a : Pass) (n : Nat) {c d : Cursor} {buffer : List Char}
  {inner : Option (List Char)}

/-- The lines below a buffer without a list: those of the list that starts there, or none. -/
theorem exists_feedAll_of_listBelow? (buffer : List Char) (h : c.listBelow? = some (inner, d)) :
    ∃ ms t, c.remaining = ms ++ d.remaining ∧
      State.feedAll ⟨plan, .expectOutputs a n buffer⟩ ms = .ok t ∧
      Settled plan (.pass (passWithOutputs a buffer inner)) t := by
  unfold Cursor.listBelow? at h
  split at h
  · next l hl =>
    split at h
    · next hbracket =>
      obtain ⟨⟨text, e⟩, hclosed, heq⟩ := Option.map_eq_some_iff.mp h
      cases heq
      obtain ⟨gap, hgap, hfeed⟩ := exists_feedAll_of_peek? plan (.expectOutputs a n buffer)
        (fun _ => rfl) hl
      have hfill : ListField.fill text (.outputs a buffer) = .ok _ := rfl
      obtain ⟨s, ms, hopen, hms, hs⟩ := exists_feedAll_of_closed? plan n hfill hclosed
      refine ⟨gap ++ l :: ms, _, by rw [hgap, hms]; simp, ?_, .fields _⟩
      rw [hfeed, consume, if_pos hbracket, hopen]
      exact hs
    · cases h
      exact ⟨[], _, rfl, rfl, .outputs a n buffer⟩
  · cases h
    exact ⟨[], _, rfl, rfl, .outputs a n buffer⟩

theorem exists_feedAll_of_outputsIn? (quoted : List Char) {value : List Char}
    (h : c.outputsIn? value = some (.outputs buffer inner, d)) :
    ∃ s ms t, outputsValue plan a n quoted value = .ok s ∧ c.remaining = ms ++ d.remaining ∧
      s.feedAll ms = .ok t ∧ Settled plan (.pass (passWithOutputs a buffer inner)) t := by
  cases hsplit : splitOutputs value with
  | mk name list =>
    simp only [Cursor.outputsIn?, hsplit] at h
    simp only [outputsValue, hsplit]
    by_cases hname : isBufferName name = true
    · rw [if_pos hname] at h ⊢
      cases list with
      | some text =>
        obtain ⟨⟨inner', e⟩, hclosed, heq⟩ := Option.map_eq_some_iff.mp h
        cases heq
        have hfill : ListField.fill inner' (.outputs a buffer) = .ok _ := rfl
        obtain ⟨s, ms, hopen, hms, hs⟩ := exists_feedAll_of_closed? plan n hfill hclosed
        exact ⟨s, ms, _, hopen, hms, hs, .fields _⟩
      | none =>
        obtain ⟨⟨inner', e⟩, hbelow, heq⟩ := Option.map_eq_some_iff.mp h
        cases heq
        obtain ⟨ms, t, hms, hs, ht⟩ := exists_feedAll_of_listBelow? plan a n buffer hbelow
        exact ⟨_, ms, t, rfl, hms, hs, ht⟩
    · rw [if_neg hname] at h
      cases h

/-- The lines below an `outputs` field without a value. -/
theorem exists_feedAll_of_outputs? (h : c.outputs? [] = some (.outputs buffer inner, d)) :
    ∃ ms t, c.remaining = ms ++ d.remaining ∧
      State.feedAll ⟨plan, .expectBuffer a n⟩ ms = .ok t ∧
      Settled plan (.pass (passWithOutputs a buffer inner)) t := by
  rw [Cursor.outputs?, if_pos rfl] at h
  obtain ⟨l, hl, h⟩ := Option.bind_eq_some_iff.mp h
  split at h
  · cases h
  · next hcolon =>
    obtain ⟨gap, hgap, hfeed⟩ := exists_feedAll_of_peek? plan (.expectBuffer a n)
      (fun _ => rfl) hl
    obtain ⟨s, ms, t, hvalue, hms, hs, ht⟩ :=
      exists_feedAll_of_outputsIn? plan a n [] h
    refine ⟨gap ++ l :: ms, t, by rw [hgap, hms]; simp, ?_, ht⟩
    rw [hfeed, consume, if_neg hcolon, hvalue]
    exact hs

end Outputs

section Bodies

variable (plan : Plan) (a : Shader) (st : OpenStage) (n : Nat) {c d : Cursor} {text : List Char}

/-- The lines of an open body, the fence the last. -/
theorem exists_feedAll_of_captureFrom (captured : List (List Char)) {ls : List Line}
    (h : Cursor.captureFrom ls = (some text, d)) :
    ∃ ms, ls = ms ++ d.remaining ∧ State.feedAll ⟨plan, .body a st n captured⟩ ms =
      .ok (.inBlock plan (shaderWithBody a st (bodyText captured ++ text))) := by
  induction ls generalizing captured text with
  | nil => cases h
  | cons l ls ih =>
    rw [Cursor.captureFrom] at h
    cases hl : isFence l.text with
    | true =>
      rw [hl, if_pos rfl] at h
      cases h
      refine ⟨[l], rfl, ?_⟩
      rw [State.feedAll_cons]
      simp [State.feed, Mode.skips, consume, hl, shaderWithBody, bind, Except.bind]
    | false =>
      rw [hl, if_neg Bool.false_ne_true] at h
      generalize hrest : Cursor.captureFrom ls = rest at h
      obtain ⟨_ | more, e⟩ := rest
      · cases h
      · cases h
        obtain ⟨ms, rfl, hms⟩ := ih (l.text :: captured) hrest
        refine ⟨l :: ms, rfl, ?_⟩
        have hfeed : State.feed ⟨plan, .body a st n captured⟩ l =
            .ok ⟨plan, .body a st n (l.text :: captured)⟩ := by
          simp [State.feed, Mode.skips, consume, hl]
        have hbody : bodyText captured ++ (l.text ++ '\n' :: more) =
            bodyText (l.text :: captured) ++ more := by
          simp [bodyText]
        rw [State.feedAll_cons, hfeed, hbody]
        exact hms

theorem exists_feedAll_of_fenced? {fence : List Char}
    (h : c.fenced? fence = some (text, d)) :
    ∃ ms, isFence fence = true ∧ openBody plan a st n fence = .ok ⟨plan, .body a st n []⟩ ∧
      c.remaining = ms ++ d.remaining ∧ State.feedAll ⟨plan, .body a st n []⟩ ms =
        .ok (.inBlock plan (shaderWithBody a st text)) := by
  unfold Cursor.fenced? at h
  split at h
  · next hfence =>
    obtain ⟨hf, ho⟩ := Bool.and_eq_true_iff.mp hfence
    split at h
    · next hcapture =>
      cases h
      obtain ⟨ms, hms, hfeed⟩ := exists_feedAll_of_captureFrom plan a st n [] hcapture
      exact ⟨ms, hf, by rw [openBody, if_pos ho], hms, hfeed⟩
    · cases h
  · cases h

/-- The lines below a `source` field without a value. -/
theorem exists_feedAll_of_body? (h : c.body? [] = some (text, d)) :
    ∃ ms, c.remaining = ms ++ d.remaining ∧ State.feedAll ⟨plan, .expectFence a st n⟩ ms =
      .ok (.inBlock plan (shaderWithBody a st text)) := by
  rw [Cursor.body?, if_pos rfl] at h
  obtain ⟨l, hl, h⟩ := Option.bind_eq_some_iff.mp h
  obtain ⟨gap, hgap, hfeed⟩ := exists_feedAll_of_peek? plan (.expectFence a st n)
    (fun _ => rfl) hl
  obtain ⟨ms, hf, hopen, hms, hs⟩ := exists_feedAll_of_fenced? plan a st l.number h
  refine ⟨gap ++ l :: ms, by rw [hgap, hms]; simp, ?_⟩
  rw [hfeed, consume, if_pos hf, hopen]
  exact hs

end Bodies

section Groups

variable {plan : Plan} {block block' : Block} {f : Field} {k : Keyword}

theorem blockField_of_sets (ho : opensBlockIn block f k = false) (h : Sets f block k block') :
    blockField plan block f k = .ok (.inBlock plan block') := by
  cases h <;> simp_all [blockField, newBlock?, bufferField, passField, textureField, shaderField,
    Field.literal, stageField, Except.map, bind, Except.bind]

theorem blockField_of_lists {field : ListField} (f : Field) (h : Lists block k field) :
    blockField plan block f k = listField plan field f := by
  cases h with
  | uniforms s hst | varyings s hst =>
    simp only [blockField, newBlock?, shaderField, hst]
    rfl
  | textures | inputs | attributes => rfl

variable {c d : Cursor} {content : Content}

theorem content?_of_lists {field : ListField} (h : Lists block k field) :
    c.content? f k = (c.list? f.value).map fun (inner, d) => (.list inner, d) := by
  cases h <;> rfl

theorem content?_of_sets (h : Sets f block k block') : c.content? f k = some (.nothing, c) := by
  cases h <;> rfl

/-- From the line of a field, the lines that it takes lead to what its group leaves. -/
theorem exists_feedAll_of_takes (ho : opensBlockIn block f k = false)
    (hc : c.content? f k = some (content, d)) (ht : Takes ⟨f, k, content⟩ block block') :
    ∃ s ms t, blockField plan block f k = .ok s ∧ c.remaining = ms ++ d.remaining ∧
      s.feedAll ms = .ok t ∧ Settled plan block' t := by
  cases ht with
  | sets h hcontent =>
    rw [content?_of_sets h] at hc
    cases hc
    exact ⟨_, [], _, blockField_of_sets ho h, rfl, rfl, .fields block'⟩
  | @list _ _ field inner h hcontent hf =>
    cases hcontent
    rw [content?_of_lists h] at hc
    obtain ⟨⟨inner', e⟩, hlist, heq⟩ := Option.map_eq_some_iff.mp hc
    cases heq
    rw [blockField_of_lists f h, listField]
    by_cases hv : f.value = []
    · rw [hv] at hlist
      obtain ⟨ms, hms, hs⟩ := exists_feedAll_of_list? plan f.line hf hlist
      exact ⟨_, ms, _, if_pos hv, hms, hs, .fields block'⟩
    · rw [Cursor.list?, if_neg hv] at hlist
      obtain ⟨s, ms, hopen, hms, hs⟩ := exists_feedAll_of_closed? plan f.line hf hlist
      exact ⟨s, ms, _, (if_neg hv).trans hopen, hms, hs, .fields block'⟩
  | @outputs a buffer inner hk hcontent =>
    cases hk
    cases hcontent
    have hout : c.outputs? f.value = some (.outputs buffer inner, d) := hc
    have hfield : blockField plan (.pass a) f .outputs =
        if f.value = [] then .ok ⟨plan, .expectBuffer a f.line⟩
        else outputsValue plan a f.line f.value f.value := rfl
    rw [hfield]
    by_cases hv : f.value = []
    · rw [hv] at hout
      obtain ⟨ms, t, hms, hs, ht⟩ := exists_feedAll_of_outputs? plan a f.line hout
      exact ⟨_, ms, t, if_pos hv, hms, hs, ht⟩
    · rw [Cursor.outputs?, if_neg hv] at hout
      obtain ⟨s, ms, t, hvalue, hms, hs, ht⟩ :=
        exists_feedAll_of_outputsIn? plan a f.line f.value hout
      exact ⟨s, ms, t, (if_neg hv).trans hvalue, hms, hs, ht⟩
  | @source a st text hk hcontent =>
    cases hk
    cases hcontent
    obtain ⟨⟨text', e⟩, hbody, heq⟩ := Option.map_eq_some_iff.mp
      (show (c.body? f.value).map _ = _ from hc)
    cases heq
    rw [show blockField plan (.shader a (some st)) f .source = sourceField plan a st f from rfl,
      sourceField]
    by_cases hv : f.value = []
    · rw [hv] at hbody
      obtain ⟨ms, hms, hs⟩ := exists_feedAll_of_body? plan a st f.line hbody
      exact ⟨_, ms, _, if_pos hv, hms, hs, .fields _⟩
    · rw [Cursor.body?, if_neg hv] at hbody
      obtain ⟨ms, hf, hopen, hms, hs⟩ := exists_feedAll_of_fenced? plan a st f.line hbody
      exact ⟨_, ms, _, by rw [if_neg hv, if_pos hf, hopen], hms, hs, .fields _⟩

/-- The same of a group that names the plan or opens a block, which takes its own line only. -/
theorem exists_feedAll_of_groupStep {plan' : Plan}
    (h : GroupStep plan block ⟨f, k, content⟩ plan' block')
    (hv : opensBlockIn block f k = true → f.value ≠ [])
    (hc : c.content? f k = some (content, d)) :
    ∃ s ms t, blockField plan block f k = .ok s ∧ c.remaining = ms ++ d.remaining ∧
      s.feedAll ms = .ok t ∧ Settled plan' block' t := by
  cases h with
  | name hk | version hk =>
    cases hk
    cases hc
    exact ⟨_, [], _, rfl, rfl, rfl, .fields _⟩
  | opens ho hn hclose =>
    have hcontent : c.content? f k = some (.nothing, c) := by
      have hopens : k.opensBlock = true := (Bool.and_eq_true_iff.mp ho).1
      cases k <;> first | rfl | cases hopens
    rw [hcontent] at hc
    cases hc
    refine ⟨.inBlock plan' block', [], _, ?_, rfl, rfl, .fields block'⟩
    unfold blockField
    rw [hn, ho]
    simp only [hclose]
    exact if_neg (hv ho)
  | field ho ht => exact exists_feedAll_of_takes ho hc ht

end Groups

/-- A group with the lines that it takes, and the blank lines and comments before them. -/
structure Span where
  gap : List Line
  lines : List Line
  group : Group
  deriving DecidableEq, Repr

/-- The lines that a cursor passes, group by group. -/
inductive Spans : Cursor → List Span → Cursor → Prop
  | nil (c : Cursor) : Spans c [] c
  | cons {c d e : Cursor} {x : Span} {xs : List Span} (h : c.group? = some (x.group, d))
      (hl : c.remaining = x.gap ++ (x.lines ++ d.remaining))
      (hgap : ∀ l ∈ x.gap, isIgnorable l.text = true)
      (hhead : ∀ l ∈ x.lines.head?, isIgnorable l.text = false) (hs : Spans d xs e) :
      Spans c (x :: xs) e

/-- All lines of a span. -/
def Span.all (x : Span) : List Line := x.gap ++ x.lines

/-- The lines of a span are those that its group takes where they stand. -/
def Span.Stands (x : Span) : Prop :=
  ∃ c d, Cursor.group? c = some (x.group, d) ∧ c.remaining = x.lines ++ d.remaining

theorem Cursor.group?_gap {gap : List Line} (h : ∀ l ∈ gap, isIgnorable l.text = true)
    (ls : List Line) : Cursor.group? ⟨gap ++ ls⟩ = Cursor.group? ⟨ls⟩ := by
  have hskip : Cursor.skip ⟨gap ++ ls⟩ = Cursor.skip ⟨ls⟩ := by
    rw [Cursor.skip, Cursor.skip, List.dropWhile_append_of_pos h]
  rw [Cursor.group?, Cursor.group?, Cursor.peek?, Cursor.peek?, Cursor.next, Cursor.next, hskip]

theorem Spans.stands {c d : Cursor} {xs : List Span} (h : Spans c xs d) :
    ∀ x ∈ xs, x.Stands := by
  induction h with
  | nil => simp
  | @cons c d _ x _ h hl hgap _ _ ih =>
    refine List.forall_mem_cons.mpr ⟨⟨⟨x.lines ++ d.remaining⟩, d, ?_, rfl⟩, ih⟩
    rw [← Cursor.group?_gap hgap, ← hl]
    exact h

theorem Spans.split {c e : Cursor} {xs ys : List Span} (h : Spans c (xs ++ ys) e) :
    ∃ d, Spans c xs d ∧ Spans d ys e := by
  induction xs generalizing c with
  | nil => exact ⟨c, .nil c, h⟩
  | cons x xs ih =>
    cases h with
    | cons h hl hgap hhead hs =>
      obtain ⟨d, hxs, hys⟩ := ih hs
      exact ⟨d, .cons h hl hgap hhead hxs, hys⟩

/-- The lines that a group takes, its field the first, and the gap before them. -/
theorem Cursor.exists_lines_of_group? {c d : Cursor} {g : Group} (h : c.group? = some (g, d)) :
    ∃ gap l ls, c.remaining = gap ++ l :: (ls ++ d.remaining) ∧
      (∀ m ∈ gap, isIgnorable m.text = true) ∧ isIgnorable l.text = false ∧
      l.field? = some g.field ∧
      Keyword.ofText? (String.ofList g.field.keyword) = some g.keyword := by
  obtain ⟨l, hl, hf, hk, hcontent⟩ := Cursor.exists_of_group? h
  obtain ⟨gap, hgap, hall, hline⟩ := Cursor.exists_gap_of_peek? hl
  obtain ⟨ls, hls⟩ := Cursor.content?_suffix hcontent
  exact ⟨gap, l, ls, by rw [hgap, ← hls], hall, hline, hf, hk⟩

/-- The first line of a span is that of its field. -/
theorem Spans.exists_of_cons {c e : Cursor} {x : Span} {xs : List Span} (h : Spans c (x :: xs) e) :
    ∃ l ls d, x.lines = l :: ls ∧ l.field? = some x.group.field ∧
      Keyword.ofText? (String.ofList x.group.field.keyword) = some x.group.keyword ∧
      (∀ g ∈ x.gap, isIgnorable g.text = true) ∧
      c.remaining = x.gap ++ l :: (ls ++ d.remaining) ∧ Spans d xs e := by
  cases h with
  | @cons _ d _ _ _ hg hl hgap hhead hs =>
    obtain ⟨own, l, ls, hown, hall, hline, hf, hk⟩ := Cursor.exists_lines_of_group? hg
    have hsplit : own ++ l :: ls = x.gap ++ x.lines := by
      rw [← List.append_left_inj d.remaining, List.append_assoc, List.append_assoc, ← hl, hown]
      rfl
    have hlines : l :: ls = x.lines :=
      (scan_inj (p := fun l : Line => isIgnorable l.text) hall hgap (by simpa using hline)
        hhead hsplit).2
    refine ⟨l, ls, d, hlines.symm, hf, hk, hgap, ?_, hs⟩
    rw [hl, ← hlines]
    rfl

theorem Spans.remaining {c d : Cursor} {xs : List Span} (h : Spans c xs d) :
    c.remaining = xs.flatMap Span.all ++ d.remaining := by
  induction h with
  | nil => rfl
  | cons _ hl _ _ _ ih => rw [hl, ih, List.flatMap_cons, Span.all]; simp

theorem Spans.grouping {c d : Cursor} {xs : List Span} (h : Spans c xs d)
    (hd : d.peek? = none) : Grouping c (xs.map Span.group) := by
  induction h with
  | nil => exact .nil hd
  | cons h _ _ _ _ ih => exact .cons h (ih hd)

/-- Every text that falls into groups has the lines of each. -/
theorem exists_spans_of_grouping {c : Cursor} {gs : List Group} (h : Grouping c gs) :
    ∃ xs d, Spans c xs d ∧ d.peek? = none ∧ xs.map Span.group = gs := by
  induction h with
  | nil h => exact ⟨[], _, .nil _, h, rfl⟩
  | @cons c d g gs h _ ih =>
    obtain ⟨xs, e, hxs, he, rfl⟩ := ih
    obtain ⟨gap, l, ls, hgap, hall, hline, -, -⟩ := Cursor.exists_lines_of_group? h
    refine ⟨⟨gap, l :: ls, g⟩ :: xs, e, .cons h hgap hall ?_ hxs, he, rfl⟩
    rintro m ⟨⟩
    exact hline

/-- What groups do one after the other. -/
inductive GroupSteps : Plan → Block → List Group → Plan → Block → Prop
  | nil {plan : Plan} {block : Block} : GroupSteps plan block [] plan block
  | cons {plan plan' plan'' : Plan} {block block' block'' : Block} {g : Group} {gs : List Group}
      (h : GroupStep plan block g plan' block') (hs : GroupSteps plan' block' gs plan'' block'') :
      GroupSteps plan block (g :: gs) plan'' block''

section Passing

variable {plan plan' p : Plan} {block block' : Block} {s : State} {x : Span}

/-- Where a group stands, or nothing more, settled states of a block go on alike. -/
theorem Settled.run (hs : Settled plan block s) {c : Cursor}
    (hc : c.peek? = none ∨ ∃ g d, c.group? = some (g, d)) :
    s.run c.remaining = State.run (.inBlock plan block) c.remaining := by
  rcases hc with hc | ⟨g, d, hg⟩
  · obtain ⟨splan, m⟩ := s
    have hm : ∀ text, m.skips text = isIgnorable text := hs.skips
    rw [run_of_peek?_eq_none hm hc, State.inBlock, run_of_peek?_eq_none (fun _ => rfl) hc,
      hs.finish]
    rfl
  · obtain ⟨gap, l, ls, hgap, hall, -, hf, hk⟩ := Cursor.exists_lines_of_group? hg
    rw [hgap, hs.run_field hf hk hall, State.inBlock, (Settled.fields block).run_field hf hk hall]

/-- The lines of a span lead a settled reading to where it is settled again, whatever blank
lines and comments stand before them. -/
theorem Span.Stands.exists_feedAll (hx : x.Stands) (hs : Settled plan block s)
    (h : GroupStep plan block x.group plan' block')
    (hv : opensBlockIn block x.group.field x.group.keyword = true → x.group.field.value ≠ [])
    {gap : List Line} (hgap : ∀ l ∈ gap, isIgnorable l.text = true) :
    ∃ t, s.feedAll (gap ++ x.lines) = .ok t ∧ Settled plan' block' t := by
  obtain ⟨c, d, hg, hlines⟩ := hx
  obtain ⟨l, hl, hf, hk, hcontent⟩ := Cursor.exists_of_group? hg
  obtain ⟨u, ms, t, hfield, hms, hfeed, ht⟩ := exists_feedAll_of_groupStep h hv hcontent
  obtain ⟨own, hown, hall, -⟩ := Cursor.exists_gap_of_peek? hl
  have hsplit : x.lines = own ++ l :: ms := by
    rw [← List.append_left_inj d.remaining, ← hlines, hown, hms]
    simp
  have hskip : s.feedAll (gap ++ own) = .ok s := by
    refine feedAll_of_skips fun m hm => (hs.skips m.text).trans ?_
    rcases List.mem_append.mp hm with hm | hm
    · exact hgap m hm
    · exact hall m hm
  have hline : s.feed l = .ok u := (hs.feed_field hf hk).trans hfield
  refine ⟨t, ?_, ht⟩
  rw [hsplit, ← List.append_assoc, State.feedAll_append, hskip]
  change State.feedAll s (l :: ms) = _
  rw [State.feedAll_cons, hline]
  exact hfeed

/-- An opener without a name is an error. -/
theorem value_ne_nil_of_run {c d : Cursor} {g : Group} (hg : c.group? = some (g, d))
    (hrun : State.run (.inBlock plan block) c.remaining = .ok p)
    (ho : opensBlockIn block g.field g.keyword = true) : g.field.value ≠ [] := by
  obtain ⟨gap, l, ls, hgap, hall, -, hf, hk⟩ := Cursor.exists_lines_of_group? hg
  rw [hgap, State.inBlock, (Settled.fields block).run_field hf hk hall] at hrun
  obtain ⟨t, ht, -⟩ := exists_of_bind_eq_ok hrun
  obtain ⟨next, hn⟩ := newBlock_of_opensBlock (Bool.and_eq_true_iff.mp ho).1 g.field.text
  unfold blockField at ht
  rw [hn, ho] at ht
  obtain ⟨plan', -, ht⟩ := exists_of_bind_eq_ok ht
  intro hv
  rw [if_pos hv] at ht
  cases ht

/-- A text that is read is passed span by span. -/
theorem Spans.exists_feedAll_of_run {c d : Cursor} {xs : List Span} (h : Spans c xs d)
    (hs : Settled plan block s) (hrun : s.run c.remaining = .ok p) :
    ∃ plan' block' t, GroupSteps plan block (xs.map Span.group) plan' block' ∧
      s.feedAll (xs.flatMap Span.all) = .ok t ∧ Settled plan' block' t ∧
      t.run d.remaining = .ok p := by
  induction h generalizing plan block s with
  | nil c => exact ⟨plan, block, s, .nil, rfl, hs, hrun⟩
  | @cons c d e x xs hg hl hgap hhead hxs ih =>
    have hblock : State.run (.inBlock plan block) c.remaining = .ok p := by
      rw [← hs.run (.inr ⟨_, _, hg⟩)]
      exact hrun
    obtain ⟨plan', block', hstep⟩ : ∃ plan' block', GroupStep plan block x.group plan' block' := by
      rcases exists_group_of_run hblock with ⟨hc, -⟩ | ⟨g, d', plan', block', hg', hstep, -⟩
      · rw [Cursor.group?_of_peek?_eq_none hc] at hg
        cases hg
      · cases hg.symm.trans hg'
        exact ⟨plan', block', hstep⟩
    have hstands : x.Stands :=
      (Spans.cons hg hl hgap hhead (.nil d)).stands x (List.mem_singleton.mpr rfl)
    obtain ⟨t, hfeed, ht⟩ := hstands.exists_feedAll hs hstep (value_ne_nil_of_run hg hblock) hgap
    have hrest : t.run d.remaining = .ok p := by
      rw [hl, ← List.append_assoc, State.run_append, hfeed] at hrun
      exact hrun
    obtain ⟨plan'', block'', u, hsteps, hfeeds, hu, hend⟩ := ih ht hrest
    refine ⟨plan'', block'', u, .cons hstep hsteps, ?_, hu, hend⟩
    rw [List.flatMap_cons, State.feedAll_append, Span.all, hfeed]
    exact hfeeds

/-- Every text that is read has spans. -/
theorem exists_spans_of_read {source : String} (h : read source = .ok p) :
    ∃ xs d, Spans (Cursor.ofText source.toList) xs d ∧ d.peek? = none := by
  obtain ⟨gs, hgs, -⟩ := exists_builds_of_read h
  obtain ⟨xs, d, hxs, hd, -⟩ := exists_spans_of_grouping hgs
  exact ⟨xs, d, hxs, hd⟩

end Passing

end RenderPlan.Description
