import RenderPlan.Proofs.Description.Group
import RenderPlan.Proofs.Description.Step
/-!
Reading group by group. From a state between two fields, a text that is read without an error is
taken group by group, and each group changes the block that is open or opens the next one. What a
mode waits for in the lines below a field is what a cursor takes off the text there: the list up to
its closing bracket, the buffer, the body up to its fence.
-/
namespace RenderPlan.Description

open RenderPlan.Text

/-- The plan at the end of lines that are read on from a state. -/
def State.run (s : State) (ls : List Line) : Except Error Plan := s.feedAll ls >>= State.finish

theorem State.run_cons (s : State) (l : Line) (ls : List Line) :
    s.run (l :: ls) = s.feed l >>= fun t => t.run ls := by
  rw [State.run, State.feedAll_cons]
  cases s.feed l <;> rfl

theorem State.run_append (s : State) (ls ms : List Line) :
    s.run (ls ++ ms) = s.feedAll ls >>= fun t => t.run ms := by
  rw [State.run, State.feedAll_append]
  cases s.feedAll ls <;> rfl

section Skip

variable {plan : Plan} {m : Mode} (hm : ∀ text, m.skips text = isIgnorable text)

include hm

/-- Blank lines and comments change nothing. -/
theorem run_skip (c : Cursor) :
    State.run ⟨plan, m⟩ c.remaining = State.run ⟨plan, m⟩ c.skip.remaining := by
  obtain ⟨ls⟩ := c
  induction ls with
  | nil => rfl
  | cons l ls ih =>
    by_cases hl : isIgnorable l.text = true
    · have hfeed : State.feed ⟨plan, m⟩ l = .ok ⟨plan, m⟩ := by
        rw [State.feed, hm, if_pos hl]
      rw [State.run_cons, hfeed]
      change State.run ⟨plan, m⟩ ls = _
      rw [ih]
      simp only [Cursor.skip, List.dropWhile_cons, hl, if_true]
    · simp only [Cursor.skip, List.dropWhile_cons, hl, Bool.false_eq_true, if_false]

theorem run_of_peek?_eq_none {c : Cursor} (h : c.peek? = none) :
    State.run ⟨plan, m⟩ c.remaining = State.finish ⟨plan, m⟩ := by
  rw [run_skip hm, List.head?_eq_none_iff.mp h]
  rfl

theorem run_of_peek? {c : Cursor} {l : Line} (h : c.peek? = some l) :
    State.run ⟨plan, m⟩ c.remaining =
      consume plan l m >>= fun t => t.run c.next.remaining := by
  have hl : isIgnorable l.text = false := by
    have := List.head?_dropWhile_not (fun l : Line => isIgnorable l.text) c.remaining
    rw [show (c.remaining.dropWhile fun l => isIgnorable l.text).head? = some l from h] at this
    simpa using this
  have hfeed : State.feed ⟨plan, m⟩ l = consume plan l m := by
    rw [State.feed, hm, hl]
    rfl
  rw [run_skip hm, Cursor.skip_eq_cons h, State.run_cons, hfeed]

end Skip

section Lists

variable {plan p : Plan} {field : ListField} {n : Nat}

/-- An open list is read up to its closing bracket, or to the end of the text. -/
theorem run_list (opening inner : List Char) (ls : List Line) :
    State.run ⟨plan, .list field n opening inner⟩ ls =
      match Cursor.closeBracket inner ls with
      | (none, _) => malformedList field n opening
      | (some (text, rest), d) =>
        continueList plan field n opening (.closed text rest) >>= fun t => t.run d.remaining := by
  induction ls generalizing inner with
  | nil => rfl
  | cons l ls ih =>
    rw [State.run_cons, Cursor.closeBracket]
    by_cases hl : isComment l.text = true
    · rw [State.feed, show Mode.skips (.list field n opening inner) l.text = true from hl,
        if_pos hl]
      exact ih inner
    · have hfeed : State.feed ⟨plan, .list field n opening inner⟩ l =
          continueList plan field n opening (.extend inner l.text) := by
        rw [State.feed, show Mode.skips (.list field n opening inner) l.text = false from
          Bool.eq_false_iff.mpr hl]
        rfl
      rw [hfeed, if_neg hl]
      cases Bracket.extend inner l.text with
      | unclosed more => exact ih more
      | closed text rest => rfl

/-- An open list is closed on a later line, and reading goes on behind that line. -/
theorem exists_of_run_list {opening inner : List Char} {ls : List Line}
    (h : State.run ⟨plan, .list field n opening inner⟩ ls = .ok p) :
    ∃ text rest d block, Cursor.closeBracket inner ls = (some (text, rest), d) ∧ trim rest = [] ∧
      field.fill text = .ok block ∧ State.run (.inBlock plan block) d.remaining = .ok p := by
  rw [run_list] at h
  generalize Cursor.closeBracket inner ls = r at h ⊢
  rcases r with ⟨_ | ⟨text, rest⟩, d⟩
  · cases h
  · obtain ⟨t, ht, hrun⟩ := exists_of_bind_eq_ok h
    cases listStep_of_continueList ht with
    | closed hr hf => exact ⟨text, rest, d, _, rfl, hr, hf, hrun⟩

/-- A list that was started is what a cursor finds between its brackets. -/
theorem exists_of_listStep {opened : List Char} {t : State} {c : Cursor}
    (ht : ListStep plan field n ('[' :: opened) (.start opened) t)
    (h : t.run c.remaining = .ok p) :
    ∃ text d block, c.closed? ('[' :: opened) = some (text, d) ∧ field.fill text = .ok block ∧
      State.run (.inBlock plan block) d.remaining = .ok p := by
  rw [Cursor.closed?, Cursor.collect]
  cases hb : Bracket.start opened with
  | unclosed inner =>
    rw [hb] at ht
    cases ht
    obtain ⟨text, rest, d, block, hclose, hr, hf, hrun⟩ := exists_of_run_list h
    exact ⟨text, d, block, by simp [hclose, hr], hf, hrun⟩
  | closed inner rest =>
    rw [hb] at ht
    cases ht with
    | closed hr hf => exact ⟨inner, c, _, by simp [hr], hf, h⟩

theorem exists_of_run_openList {text : List Char} {c : Cursor}
    (h : (openList plan field n text >>= fun t => t.run c.remaining) = .ok p) :
    ∃ inner d block, c.closed? text = some (inner, d) ∧ field.fill inner = .ok block ∧
      State.run (.inBlock plan block) d.remaining = .ok p := by
  obtain ⟨t, ht, hrun⟩ := exists_of_bind_eq_ok h
  obtain ⟨opened, rfl, hstep⟩ := listStep_of_openList ht
  exact exists_of_listStep hstep hrun

/-- A field without a value has its list on the next line. -/
theorem exists_of_run_expectList {c : Cursor}
    (h : State.run ⟨plan, .expectList field n⟩ c.remaining = .ok p) :
    ∃ inner d block, c.list? [] = some (inner, d) ∧ field.fill inner = .ok block ∧
      State.run (.inBlock plan block) d.remaining = .ok p := by
  cases hc : c.peek? with
  | none =>
    rw [run_of_peek?_eq_none (fun _ => rfl) hc] at h
    cases h
  | some l =>
    rw [run_of_peek? (fun _ => rfl) hc] at h
    simp only [consume] at h
    split at h
    · obtain ⟨inner, d, block, hclosed, hrest⟩ := exists_of_run_openList h
      exact ⟨inner, d, block, by simp [Cursor.list?, hc, hclosed], hrest⟩
    · cases h

end Lists

section Outputs

variable {plan p : Plan} {a : Pass} {n : Nat} {c : Cursor}

/-- The pass behind an `outputs` field that names a buffer and, it may be, a list. -/
def passWithOutputs (a : Pass) (buffer : List Char) (inner : Option (List Char)) : Pass :=
  withOutputs a buffer (inner.elim [] readOutputs)

/-- Behind a buffer without a list, a list may stand on the next line; if none does, the reading
goes on with that line. -/
theorem exists_of_run_expectOutputs {buffer : List Char}
    (h : State.run ⟨plan, .expectOutputs a n buffer⟩ c.remaining = .ok p) :
    ∃ inner d, c.listBelow? = some (inner, d) ∧
      State.run (.inBlock plan (.pass (passWithOutputs a buffer inner))) d.remaining = .ok p := by
  rw [Cursor.listBelow?]
  cases hc : c.peek? with
  | none =>
    rw [run_of_peek?_eq_none (fun _ => rfl) hc] at h
    refine ⟨none, c, rfl, ?_⟩
    rw [State.inBlock, run_of_peek?_eq_none (fun _ => rfl) hc]
    exact h
  | some l =>
    rw [run_of_peek? (fun _ => rfl) hc] at h
    simp only [consume] at h
    split at h
    · next hl =>
      obtain ⟨inner, d, block, hclosed, hfill, hrun⟩ := exists_of_run_openList h
      cases hfill
      exact ⟨some inner, d, by simp [hl, hclosed], hrun⟩
    · next hl =>
      refine ⟨none, c, by simp [hl], ?_⟩
      rw [State.inBlock, run_of_peek? (fun _ => rfl) hc]
      exact h

theorem exists_of_outputsStep {value : List Char} {t : State}
    (ht : OutputsStep plan a n value t) (h : t.run c.remaining = .ok p) :
    ∃ buffer inner d, c.outputsIn? value = some (.outputs buffer inner, d) ∧
      State.run (.inBlock plan (.pass (passWithOutputs a buffer inner))) d.remaining = .ok p := by
  cases ht with
  | @alone buffer hv hb =>
    obtain ⟨inner, d, hbelow, hrun⟩ := exists_of_run_expectOutputs h
    exact ⟨buffer, inner, d, by simp [Cursor.outputsIn?, hv, hb, hbelow], hrun⟩
  | @withList buffer opened _ hv hb ht =>
    obtain ⟨inner, d, block, hclosed, hfill, hrun⟩ := exists_of_listStep ht h
    cases hfill
    exact ⟨buffer, some inner, d, by simp [Cursor.outputsIn?, hv, hb, hclosed], hrun⟩

/-- A field without a value has its buffer on the next line. -/
theorem exists_of_run_expectBuffer
    (h : State.run ⟨plan, .expectBuffer a n⟩ c.remaining = .ok p) :
    ∃ buffer inner d, c.outputs? [] = some (.outputs buffer inner, d) ∧
      State.run (.inBlock plan (.pass (passWithOutputs a buffer inner))) d.remaining = .ok p := by
  cases hc : c.peek? with
  | none =>
    rw [run_of_peek?_eq_none (fun _ => rfl) hc] at h
    cases h
  | some l =>
    rw [run_of_peek? (fun _ => rfl) hc] at h
    obtain ⟨t, ht, h⟩ := exists_of_bind_eq_ok h
    simp only [consume] at ht
    split at ht
    · cases ht
    · next hl =>
      obtain ⟨buffer, inner, d, hin, hrun⟩ :=
        exists_of_outputsStep (outputsStep_of_outputsValue ht) h
      exact ⟨buffer, inner, d, by simp [Cursor.outputs?, hc, hl, hin], hrun⟩

end Outputs

section Bodies

variable {plan p : Plan} {s : Shader} {st : OpenStage} {n : Nat}

/-- The block behind the source of an open stage. -/
def shaderWithBody (s : Shader) (st : OpenStage) (text : List Char) : Block :=
  .shader (withBody s st.stage text) (some { st with hasSource := true })

/-- An open body is read up to the next fence, or to the end of the text. -/
theorem run_body (captured : List (List Char)) (ls : List Line) :
    State.run ⟨plan, .body s st n captured⟩ ls =
      match Cursor.captureFrom ls with
      | (none, _) => fail n .unexpectedEnd
      | (some text, d) =>
        State.run (.inBlock plan (shaderWithBody s st (bodyText captured ++ text)))
          d.remaining := by
  induction ls generalizing captured with
  | nil => rfl
  | cons l ls ih =>
    rw [State.run_cons, State.feed]
    simp only [Mode.skips, Bool.false_eq_true, if_false, consume]
    rw [Cursor.captureFrom]
    by_cases hl : isFence l.text = true
    · simp only [if_pos hl, List.append_nil]
      rfl
    · simp only [if_neg hl]
      change State.run ⟨plan, .body s st n (l.text :: captured)⟩ ls = _
      rw [ih]
      have hbody (text : List Char) : bodyText (l.text :: captured) ++ text =
          bodyText captured ++ (l.text ++ '\n' :: text) := by
        simp [bodyText]
      rcases Cursor.captureFrom ls with ⟨_ | text, d⟩
      · rfl
      · simp only [hbody, Option.map_some]

/-- An open body ends at a later fence, and reading goes on behind that line. -/
theorem exists_of_run_body {captured : List (List Char)} {ls : List Line}
    (h : State.run ⟨plan, .body s st n captured⟩ ls = .ok p) :
    ∃ text d, Cursor.captureFrom ls = (some text, d) ∧
      State.run (.inBlock plan (shaderWithBody s st (bodyText captured ++ text))) d.remaining =
        .ok p := by
  rw [run_body] at h
  generalize Cursor.captureFrom ls = r at h ⊢
  rcases r with ⟨_ | text, d⟩
  · cases h
  · exact ⟨text, d, rfl, h⟩

theorem exists_of_run_openBody {fence : List Char} {c : Cursor} (hf : isFence fence = true)
    (ho : isOpeningFence fence = true)
    (h : State.run ⟨plan, .body s st n []⟩ c.remaining = .ok p) :
    ∃ text d, c.fenced? fence = some (text, d) ∧
      State.run (.inBlock plan (shaderWithBody s st text)) d.remaining = .ok p := by
  obtain ⟨text, d, hd, hrun⟩ := exists_of_run_body h
  exact ⟨text, d, by simp [Cursor.fenced?, Cursor.capture, hf, ho, hd], hrun⟩

/-- A field without a value has its fence on the next line. -/
theorem exists_of_run_expectFence {c : Cursor}
    (h : State.run ⟨plan, .expectFence s st n⟩ c.remaining = .ok p) :
    ∃ text d, c.body? [] = some (text, d) ∧
      State.run (.inBlock plan (shaderWithBody s st text)) d.remaining = .ok p := by
  cases hc : c.peek? with
  | none =>
    rw [run_of_peek?_eq_none (fun _ => rfl) hc] at h
    cases h
  | some l =>
    rw [run_of_peek? (fun _ => rfl) hc] at h
    obtain ⟨t, ht, h⟩ := exists_of_bind_eq_ok h
    simp only [consume] at ht
    split at ht
    · next hf =>
      obtain ⟨ho, rfl⟩ := eq_of_openBody ht
      obtain ⟨text, d, hd, hrun⟩ := exists_of_run_openBody hf ho h
      exact ⟨text, d, by simp [Cursor.body?, hc, hd], hrun⟩
    · cases ht

end Bodies

/-- What a group that opens no block does to the block that is open. -/
inductive Takes (g : Group) : Block → Block → Prop
  | sets {block block' : Block} (h : Sets g.field block g.keyword block')
      (hc : g.content = .nothing) : Takes g block block'
  | list {block block' : Block} {field : ListField} {inner : List Char}
      (h : Lists block g.keyword field) (hc : g.content = .list inner)
      (hf : field.fill inner = .ok block') : Takes g block block'
  | outputs (a : Pass) {buffer : List Char} {inner : Option (List Char)}
      (hk : g.keyword = .outputs) (hc : g.content = .outputs buffer inner) :
      Takes g (.pass a) (.pass (passWithOutputs a buffer inner))
  | source (s : Shader) (st : OpenStage) {text : List Char} (hk : g.keyword = .source)
      (hc : g.content = .body text) : Takes g (.shader s (some st)) (shaderWithBody s st text)

/-- What a group does: it names the plan, opens the next block, or belongs to the open one. -/
inductive GroupStep (plan : Plan) : Block → Group → Plan → Block → Prop
  | name {g : Group} (hk : g.keyword = .name) :
      GroupStep plan .root g { plan with name := g.field.text } .root
  | version {g : Group} (hk : g.keyword = .version) :
      GroupStep plan .root g { plan with version := g.field.text } .root
  | opens {block next : Block} {g : Group} {plan' : Plan}
      (ho : opensBlockIn block g.field g.keyword = true)
      (hn : newBlock? g.field.text g.keyword = some next)
      (hc : closeBlock plan block = .ok plan') : GroupStep plan block g plan' next
  | field {block block' : Block} {g : Group}
      (ho : opensBlockIn block g.field g.keyword = false) (ht : Takes g block block') :
      GroupStep plan block g plan block'

/-- The plan that comes of groups, from the plan of the finished blocks and the open block. -/
inductive Builds : Plan → Block → List Group → Plan → Prop
  | close {plan p : Plan} {block : Block} (h : closeBlock plan block = .ok p) :
      Builds plan block [] p
  | step {plan plan' p : Plan} {block block' : Block} {g : Group} {gs : List Group}
      (h : GroupStep plan block g plan' block') (hs : Builds plan' block' gs p) :
      Builds plan block (g :: gs) p

section Groups

variable {plan p : Plan} {block : Block} {c : Cursor}

/-- A field that opens no block takes what it waits for, and its group does what the field does. -/
theorem exists_of_fieldStep {f : Field} {k : Keyword} {t : State}
    (ho : opensBlockIn block f k = false) (ht : FieldStep plan f block k t)
    (h : t.run c.remaining = .ok p) :
    ∃ content d plan' block', c.content? f k = some (content, d) ∧
      GroupStep plan block ⟨f, k, content⟩ plan' block' ∧
      State.run (.inBlock plan' block') d.remaining = .ok p := by
  cases ht with
  | name => exact ⟨.nothing, c, _, _, rfl, .name rfl, h⟩
  | version => exact ⟨.nothing, c, _, _, rfl, .version rfl, h⟩
  | opens ho' _ _ _ =>
    rw [ho] at ho'
    cases ho'
  | sets hs => exact ⟨.nothing, c, _, _, by cases hs <;> rfl, .field ho (.sets hs rfl), h⟩
  | awaitsList hl hv =>
    obtain ⟨inner, d, block', hlist, hfill, hrun⟩ := exists_of_run_expectList h
    have hcontent : c.content? f k = some (.list inner, d) := by
      cases hl <;> simp [Cursor.content?, hv, hlist]
    exact ⟨_, d, _, block', hcontent, .field ho (.list hl rfl hfill), hrun⟩
  | opensList hl hv ht =>
    rw [hv] at ht
    obtain ⟨inner, d, block', hlist, hfill, hrun⟩ := exists_of_listStep ht h
    have hcontent : c.content? f k = some (.list inner, d) := by
      cases hl <;> simp [Cursor.content?, Cursor.list?, hv, hlist]
    exact ⟨_, d, _, block', hcontent, .field ho (.list hl rfl hfill), hrun⟩
  | awaitsBuffer a hv =>
    obtain ⟨buffer, inner, d, hout, hrun⟩ := exists_of_run_expectBuffer h
    have hcontent : c.content? f .outputs = some (.outputs buffer inner, d) := by
      simp [Cursor.content?, hv, hout]
    exact ⟨_, d, _, _, hcontent, .field ho (.outputs a rfl rfl), hrun⟩
  | outputs a hv ht =>
    obtain ⟨buffer, inner, d, hout, hrun⟩ := exists_of_outputsStep ht h
    have hcontent : c.content? f .outputs = some (.outputs buffer inner, d) := by
      simp [Cursor.content?, Cursor.outputs?, hv, hout]
    exact ⟨_, d, _, _, hcontent, .field ho (.outputs a rfl rfl), hrun⟩
  | awaitsFence s st hv =>
    obtain ⟨text, d, hbody, hrun⟩ := exists_of_run_expectFence h
    have hcontent : c.content? f .source = some (.body text, d) := by
      simp [Cursor.content?, hv, hbody]
    exact ⟨_, d, _, _, hcontent, .field ho (.source s st rfl rfl), hrun⟩
  | opensBody s st hf hopen =>
    have hv : f.value ≠ [] := by
      intro hv
      rw [hv] at hf
      cases hf
    obtain ⟨text, d, hbody, hrun⟩ := exists_of_run_openBody hf hopen h
    have hcontent : c.content? f .source = some (.body text, d) := by
      simp [Cursor.content?, Cursor.body?, hv, hbody]
    exact ⟨_, d, _, _, hcontent, .field ho (.source s st rfl rfl), hrun⟩

/-- An opener is a group of its own, and ends the block that is open. -/
theorem exists_of_opener {f : Field} {k : Keyword} {t : State}
    (ho : opensBlockIn block f k = true) (ht : blockField plan block f k = .ok t) :
    c.content? f k = some (.nothing, c) ∧
      ∃ plan' next, GroupStep plan block ⟨f, k, .nothing⟩ plan' next ∧
        t = .inBlock plan' next := by
  have hopens : k.opensBlock = true :=
    (Bool.and_eq_true_iff.mp (show (k.opensBlock && _) = true from ho)).1
  obtain ⟨next, hn⟩ := newBlock_of_opensBlock hopens f.text
  have hcontent : c.content? f k = some (.nothing, c) := by
    cases k <;> first | rfl | cases hopens
  refine ⟨hcontent, ?_⟩
  unfold blockField at ht
  rw [hn, ho] at ht
  obtain ⟨plan', hc, ht⟩ := exists_of_bind_eq_ok ht
  split at ht
  · cases ht
  · cases ht
    exact ⟨plan', next, .opens ho hn hc, rfl⟩

/-- Between two fields, a text that is read goes on with a group or says nothing more. -/
theorem exists_group_of_run (h : State.run (.inBlock plan block) c.remaining = .ok p) :
    c.peek? = none ∧ closeBlock plan block = .ok p ∨
      ∃ g d plan' block', c.group? = some (g, d) ∧ GroupStep plan block g plan' block' ∧
        State.run (.inBlock plan' block') d.remaining = .ok p := by
  cases hc : c.peek? with
  | none =>
    rw [State.inBlock, run_of_peek?_eq_none (fun _ => rfl) hc] at h
    exact .inl ⟨rfl, h⟩
  | some l =>
    right
    rw [State.inBlock, run_of_peek? (fun _ => rfl) hc] at h
    obtain ⟨t, ht, hrun⟩ := exists_of_bind_eq_ok h
    simp only [consume, fieldLine] at ht
    split at ht
    · cases ht
    · next f hf =>
      split at ht
      · next k hk =>
        obtain ⟨content, d, plan', block', hcontent, hstep, hrest⟩ :
            ∃ content d plan' block', c.next.content? f k = some (content, d) ∧
              GroupStep plan block ⟨f, k, content⟩ plan' block' ∧
              State.run (.inBlock plan' block') d.remaining = .ok p := by
          cases ho : opensBlockIn block f k with
          | false => exact exists_of_fieldStep ho (fieldStep_of_blockField ht) hrun
          | true =>
            obtain ⟨hcontent, plan', next, hstep, rfl⟩ := exists_of_opener (c := c.next) ho ht
            exact ⟨_, _, plan', next, hcontent, hstep, hrun⟩
        exact ⟨_, d, plan', block', by simp [Cursor.group?, hc, hf, hk, hcontent], hstep, hrest⟩
      · cases ht

/-- A text that is read falls into groups, and the plan comes of them. The induction is on the
number of lines, of which every group takes some. -/
theorem exists_builds_of_run (h : State.run (.inBlock plan block) c.remaining = .ok p) :
    ∃ gs, Grouping c gs ∧ Builds plan block gs p := by
  generalize hn : c.remaining.length = n
  induction n using Nat.strongRecOn generalizing c plan block with
  | _ n ih =>
    rcases exists_group_of_run h with ⟨hc, hclose⟩ | ⟨g, d, plan', block', hg, hstep, hrun⟩
    · exact ⟨[], .nil hc, .close hclose⟩
    · have hlt : d.remaining.length < n := hn ▸ Cursor.length_group? hg
      obtain ⟨gs, hgs, hbuilds⟩ := ih _ hlt hrun rfl
      exact ⟨g :: gs, .cons hg hgs, .step hstep hbuilds⟩

theorem exists_builds_of_read {source : String} (h : read source = .ok p) :
    ∃ gs, Grouping (Cursor.ofText source.toList) gs ∧ Builds {} .root gs p :=
  exists_builds_of_run h

end Groups
end RenderPlan.Description
