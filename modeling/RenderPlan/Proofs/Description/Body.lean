import RenderPlan.Description.Cursor
import RenderPlan.Proofs.Description.Likeness
import RenderPlan.Proofs.Description.Step
import RenderPlan.Proofs.Text.Lines
/-!
Bodies of stages. Between the fence that opens a body and the next fence, every line is part of the
body as it is, and the reading goes on behind that fence. Nothing else depends on the lines of a
body: with other lines in their place the same plan is read but for this one body, which a later
source of the same stage may have replaced, or the same error is found, on its line behind the body.
-/
namespace RenderPlan.Description

open RenderPlan.Text

/-- Lines as one text, each ended by a line feed. -/
def linesText (ls : List (List Char)) : List Char := ls.flatMap fun l => l ++ ['\n']

theorem bodyText_reverse (ls : List (List Char)) : bodyText ls.reverse = linesText ls := by
  rw [bodyText, List.reverse_reverse]
  rfl

/-- A cursor before lines that are no fences captures them, and stands behind the fence then. -/
theorem captureFrom_fence {ls : List (List Char)} {fence : List Char}
    (h : ∀ l ∈ ls, isFence l = false) (hf : isFence fence = true) (n : Nat)
    (rest : List (List Char)) :
    Cursor.captureFrom (numberFrom n (ls ++ fence :: rest)) =
      (some (linesText ls), ⟨numberFrom (n + ls.length + 1) rest⟩) := by
  induction ls generalizing n with
  | nil => simp [Cursor.captureFrom, hf, linesText]
  | cons l ls ih =>
    have hl : isFence l = false := h l (by simp)
    have hls := ih (fun m hm => h m (by simp [hm])) (n + 1)
    rw [List.cons_append, numberFrom_cons, Cursor.captureFrom]
    simp only [hl, Bool.false_eq_true, if_false, hls]
    simp [linesText, Nat.add_assoc, Nat.add_comm 1]

/-- An open body takes the lines up to the next fence, and this fence ends it. -/
theorem feedAll_body_fence {plan : Plan} {s : Shader} {st : OpenStage} {n m : Nat}
    {ls : List (List Char)} {fence : List Char} (h : ∀ l ∈ ls, isFence l = false)
    (hf : isFence fence = true) :
    State.feedAll ⟨plan, .body s st n []⟩ (numberFrom m (ls ++ [fence])) =
      .ok (.inBlock plan (.shader (withBody s st.stage (linesText ls))
        (some { st with hasSource := true }))) := by
  have hend : State.feed ⟨plan, .body s st n (ls.reverse ++ [])⟩ ⟨m + ls.length, fence⟩ =
      .ok (.inBlock plan (.shader (withBody s st.stage (linesText ls))
        (some { st with hasSource := true }))) := by
    rw [List.append_nil, ← bodyText_reverse]
    simp [State.feed, Mode.skips, consume, hf]
  rw [numberFrom_append, State.feedAll_append, feedAll_body h]
  change State.feedAll _ _ = _
  rw [numberFrom_cons, numberFrom_nil, State.feedAll_cons, hend]
  rfl

/-- The body of one stage of a shader. -/
def bodyOf (s : Shader) : Stage → String
  | .vertex => s.vertexBody
  | .fragment => s.fragmentBody

/-- Two shaders are equal, or one stage has the body `old` in the first and `new` in the second. -/
inductive BodySwap (stage : Stage) (old new : List Char) (s : Shader) : Shader → Prop
  | refl : BodySwap stage old new s s
  | swap (h : bodyOf s stage = String.ofList old) :
      BodySwap stage old new s (withBody s stage new)

/-- Two plans are equal, or their only difference is that one stage of shader `i` has the body `old`
in the first and `new` in the second. -/
inductive BodySwapAt (i : Nat) (stage : Stage) (old new : List Char) (p : Plan) : Plan → Prop
  | refl : BodySwapAt i stage old new p p
  | swap {s : Shader} (hi : p.shaders[i]? = some s) (h : bodyOf s stage = String.ofList old) :
      BodySwapAt i stage old new p
        { p with shaders := p.shaders.set i (withBody s stage new) }

section Swap

variable {i : Nat} {stage : Stage} {old new : List Char}

@[simp] theorem bodyOf_withBody (s : Shader) (stage : Stage) (text : List Char) :
    bodyOf (withBody s stage text) stage = String.ofList text := by
  cases stage <;> rfl

@[simp] theorem withBody_withBody (s : Shader) (stage : Stage) (text text' : List Char) :
    withBody (withBody s stage text) stage text' = withBody s stage text' := by
  cases stage <;> rfl

/-- What neither reads nor sets the body of the stage keeps its difference. -/
theorem BodySwap.map {s t : Shader} (h : BodySwap stage old new s t) {f : Shader → Shader}
    (hbody : bodyOf (f s) stage = bodyOf s stage)
    (hcomm : f (withBody s stage new) = withBody (f s) stage new) :
    BodySwap stage old new (f s) (f t) := by
  cases h with
  | refl => exact .refl
  | swap h =>
    rw [hcomm]
    exact .swap (hbody.trans h)

/-- A later source replaces the body in both shaders; that of the other stage leaves it. -/
theorem BodySwap.withBody {s t : Shader} (h : BodySwap stage old new s t) (st : Stage)
    (text : List Char) : BodySwap stage old new (withBody s st text) (withBody t st text) := by
  by_cases hst : st = stage
  · subst hst
    cases h with
    | refl => exact .refl
    | swap h =>
      rw [withBody_withBody]
      exact .refl
  · apply h.map (f := fun u => Description.withBody u st text)
    · cases st <;> cases stage <;> first | rfl | exact absurd rfl hst
    · cases st <;> cases stage <;> first | rfl | exact absurd rfl hst

/-- Shader `i` becomes part of the plan, with its difference. -/
theorem BodySwap.addShader {s t : Shader} (h : BodySwap stage old new s t) {p : Plan}
    (hi : p.shaders.length = i) :
    BodySwapAt i stage old new { p with shaders := p.shaders ++ [s] }
      { p with shaders := p.shaders ++ [t] } := by
  cases h with
  | refl => exact .refl
  | swap h =>
    have hset : p.shaders ++ [Description.withBody s stage new] =
        (p.shaders ++ [s]).set i (Description.withBody s stage new) := by
      rw [List.set_append_right i _ (Nat.le_of_eq hi), hi, Nat.sub_self]
      rfl
    rw [hset]
    exact .swap (by simp [← hi]) h

/-- Shaders behind shader `i` do not change the difference. -/
theorem BodySwapAt.addShader {p q : Plan} (h : BodySwapAt i stage old new p q)
    (hi : i < p.shaders.length) (s : Shader) :
    BodySwapAt i stage old new { p with shaders := p.shaders ++ [s] }
      { q with shaders := q.shaders ++ [s] } := by
  cases h with
  | refl => exact .refl
  | @swap u hu h =>
    have hset : p.shaders.set i (Description.withBody u stage new) ++ [s] =
        (p.shaders ++ [s]).set i (Description.withBody u stage new) := by
      rw [List.set_append_left i _ hi]
    simp only
    rw [hset]
    exact .swap (by rw [List.getElem?_append_left hi, hu]) h

/-- What leaves the shaders of a plan as they are keeps the difference. -/
theorem BodySwapAt.map {p q : Plan} (h : BodySwapAt i stage old new p q) {f : Plan → Plan}
    (hp : (f p).shaders = p.shaders)
    (hf : ∀ ss, f { p with shaders := ss } = { f p with shaders := ss }) :
    BodySwapAt i stage old new (f p) (f q) := by
  cases h with
  | refl => exact .refl
  | @swap u hu h =>
    rw [hf (p.shaders.set i (Description.withBody u stage new)), ← hp]
    exact .swap (by rw [hp, hu]) h

end Swap

/-- While shader `i` is open, plans are equal and shaders differ in one body; nothing is said of
what comes behind. -/
def Likeness.openSwap (ρ : Nat → Nat) (i : Nat) (stage : Stage) (old new : List Char) : Likeness :=
  { ofRenumbering ρ with
    plan := fun p q =>
      (q = p ∧ p.shaders.length = i) ∨ (i < p.shaders.length ∧ i < q.shaders.length)
    shader := BodySwap stage old new
    root := False
    name := fun h => h.elim
    version := fun h => h.elim
    addBuffer := fun h b => h.imp (fun h => ⟨by rw [h.1], h.2⟩) id
    addPass := fun h a => h.imp (fun h => ⟨by rw [h.1], h.2⟩) id
    addTexture := fun h t => h.imp (fun h => ⟨by rw [h.1], h.2⟩) id
    addShader := fun h _ => by
      right
      simp only [List.length_append, List.length_singleton]
      rcases h with ⟨rfl, h⟩ | ⟨h, h'⟩ <;> omega
    newShader := fun _ => .refl
    attributes := fun h vs => h.map (f := fun s => { s with attributes := s.attributes ++ vs })
      (by cases stage <;> rfl) (by cases stage <;> rfl)
    uniforms := fun h vs => h.map (f := fun s => { s with uniforms := s.uniforms ++ vs })
      (by cases stage <;> rfl) (by cases stage <;> rfl)
    varyings := fun h vs => h.map (f := fun s => { s with varyings := s.varyings ++ vs })
      (by cases stage <;> rfl) (by cases stage <;> rfl)
    body := fun h st text => h.withBody st text }

/-- Behind shader `i`, plans differ in one body of that shader and the open shader is the same. -/
def Likeness.closedSwap (ρ : Nat → Nat) (i : Nat) (stage : Stage) (old new : List Char) :
    Likeness :=
  { ofRenumbering ρ with
    plan := fun p q => i < p.shaders.length ∧ BodySwapAt i stage old new p q
    root := False
    name := fun h => h.elim
    version := fun h => h.elim
    addBuffer := fun h b => ⟨h.1, h.2.map
      (f := fun p => { p with buffers := p.buffers ++ [b] }) rfl fun _ => rfl⟩
    addPass := fun h a => ⟨h.1, h.2.map
      (f := fun p => { p with passes := p.passes ++ [a] }) rfl fun _ => rfl⟩
    addTexture := fun h t => ⟨h.1, h.2.map
      (f := fun p => { p with textures := p.textures ++ [t] }) rfl fun _ => rfl⟩
    addShader := fun h hs => by
      cases hs
      refine ⟨?_, h.2.addShader h.1 _⟩
      simp only [List.length_append]
      omega }

theorem ListStep.plan_eq {plan : Plan} {field : ListField} {n : Nat} {opening : List Char}
    {b : Bracket} {t : State} (h : ListStep plan field n opening b t) : t.plan = plan := by
  cases h <;> rfl

theorem OutputsStep.plan_eq {plan : Plan} {p : Pass} {n : Nat} {value : List Char} {t : State}
    (h : OutputsStep plan p n value t) : t.plan = plan := by
  cases h with
  | alone _ _ => rfl
  | withList _ _ h => exact h.plan_eq

/-- Only the opener of the next block adds a shader to the plan: the one that was open. -/
theorem FieldStep.shaders_eq_or {plan : Plan} {f : Field} {block : Block} {k : Keyword} {t : State}
    (h : FieldStep plan f block k t) : t.plan.shaders = plan.shaders ∨
      ∃ s st next, block = .shader s st ∧ newBlock? f.text k = some next ∧
        t = .inBlock { plan with shaders := plan.shaders ++ [s] } next := by
  cases h with
  | opens ho hn hc hv =>
    cases block with
    | shader s st =>
      obtain ⟨_, _, rfl⟩ := exists_of_map_eq_ok hc
      exact .inr ⟨s, st, _, rfl, hn, rfl⟩
    | root | buffer _ | pass _ | texture _ =>
      cases hc
      exact .inl rfl
  | opensList hl hv ht => exact .inl (congrArg Plan.shaders ht.plan_eq)
  | outputs p hv ht => exact .inl (congrArg Plan.shaders ht.plan_eq)
  | name | version | sets _ | awaitsList _ _ | awaitsBuffer _ _ | awaitsFence _ _ _
  | opensBody _ _ _ _ => exact .inl rfl

theorem Step.shaders_eq_or {s t : State} {l : Line} (h : Step s l t) :
    t.plan.shaders = s.plan.shaders ∨
      ∃ a st f k next, s.mode = .fields (.shader a st) ∧ l.field? = some f ∧
        Keyword.ofText? (String.ofList f.keyword) = some k ∧ newBlock? f.text k = some next ∧
        t = .inBlock { s.plan with shaders := s.plan.shaders ++ [a] } next := by
  cases h with
  | field ht =>
    obtain ⟨f, k, hf, hk, ht⟩ := ht
    rcases ht.shaders_eq_or with h | ⟨a, st, next, rfl, hn, rfl⟩
    · exact .inl h
    · exact .inr ⟨a, st, f, k, next, rfl, hf, hk, hn, rfl⟩
  | noOutputs ht =>
    obtain ⟨f, k, hf, hk, ht⟩ := ht
    rcases ht.shaders_eq_or with h | ⟨a, st, next, hb, -, -⟩
    · exact .inl h
    · cases hb
  | openList _ ht => exact .inl (congrArg Plan.shaders ht.plan_eq)
  | extendList _ ht => exact .inl (congrArg Plan.shaders ht.plan_eq)
  | buffer _ ht => exact .inl (congrArg Plan.shaders ht.plan_eq)
  | openOutputs _ ht => exact .inl (congrArg Plan.shaders ht.plan_eq)
  | skip _ | fence _ _ | capture _ | endBody _ => exact .inl rfl

section Run

variable {ρ : Nat → Nat} {i : Nat} {stage : Stage} {old new : List Char}

/-- States of two readings that differ in one body of shader `i`, which is open or in the plan. -/
inductive StateSwap (ρ : Nat → Nat) (i : Nat) (stage : Stage) (old new : List Char)
    (s t : State) : Prop
  | opened (h : (Likeness.openSwap ρ i stage old new).OfState s t) (hp : t.plan = s.plan)
      (hi : s.plan.shaders.length = i)
  | closed (h : (Likeness.closedSwap ρ i stage old new).OfState s t)

/-- The opener behind shader `i` takes the difference from the open block into the plan. -/
theorem StateSwap.of_added {s t u v : State} (h : (Likeness.openSwap ρ i stage old new).OfState s t)
    (hp : t.plan = s.plan) (hi : s.plan.shaders.length = i) {l : Line} (hu : Step s l u)
    (hv : Step t (l.renumber ρ) v) (hus : u.plan.shaders ≠ s.plan.shaders)
    (hvs : v.plan.shaders ≠ t.plan.shaders) : StateSwap ρ i stage old new u v := by
  obtain ⟨a, st, f, k, next, hsm, hf, hk, hn, rfl⟩ := hu.shaders_eq_or.resolve_left hus
  obtain ⟨b, st', f', k', next', htm, hf', hk', hn', rfl⟩ := hv.shaders_eq_or.resolve_left hvs
  rw [Line.field?_renumber, hf] at hf'
  cases hf'
  rw [Field.keyword_renumber, hk] at hk'
  cases hk'
  rw [Field.text_renumber, hn] at hn'
  cases hn'
  have hmode := h.mode
  rw [hsm, htm] at hmode
  cases hmode with
  | fields hb =>
    cases hb with
    | shader _ hab =>
      have hab : BodySwap stage old new a b := hab
      refine .closed (.inBlock ⟨?_, ?_⟩ (Likeness.newBlock_alike hn))
      · simp only [List.length_append, List.length_singleton]
        omega
      · rw [hp]
        exact hab.addShader hi

/-- A line takes states that differ in one body to outcomes that differ in this body only. -/
theorem StateSwap.feed {s t : State} (h : StateSwap ρ i stage old new s t) (l : Line) :
    Alike ρ (StateSwap ρ i stage old new) (s.feed l) (t.feed (l.renumber ρ)) := by
  cases h with
  | closed h => exact (Likeness.feed_alike h l).imp fun _ _ _ _ h => .closed h
  | opened h hp hi =>
    refine (Likeness.feed_alike h l).imp fun u v hu hv huv => ?_
    rcases huv.plan with ⟨hplan, hlen⟩ | ⟨hul, hvl⟩
    · exact .opened huv hplan hlen
    · apply StateSwap.of_added h hp hi (step_of_feed hu) (step_of_feed hv)
      · intro heq
        rw [heq] at hul
        omega
      · intro heq
        rw [heq, hp] at hvl
        omega

/-- At the end of the text, the difference is in the plan. -/
theorem StateSwap.finish {s t : State} (h : StateSwap ρ i stage old new s t) :
    Alike ρ (BodySwapAt i stage old new) s.finish t.finish := by
  cases h with
  | closed h => exact (Likeness.finish_alike h).imp fun _ _ _ _ h => h.2
  | opened h hp hi =>
    obtain ⟨p, m⟩ := s
    obtain ⟨q, n⟩ := t
    obtain ⟨-, hmode⟩ := h
    cases hp
    cases hmode with
    | fields hb =>
      cases hb with
      | root h => exact h.elim
      | buffer b => exact .ok .refl
      | pass a => exact .ok .refl
      | texture x => exact .ok .refl
      | shader st hab =>
        exact (Likeness.closeStage_alike ρ st).map fun _ _ _ => BodySwap.addShader hab hi
    | expectList n h => exact Likeness.malformedList_alike h _ n []
    | list n opening h hab => exact Likeness.malformedList_alike h _ n opening
    | expectBuffer a n => exact .fail _ n _
    | expectOutputs a n buffer => exact .ok .refl
    | expectFence st n h => exact .fail _ n _
    | body st n captured h => exact .fail _ n _

theorem StateSwap.finishAfter {s t : State} (h : StateSwap ρ i stage old new s t)
    (ls : List Line) :
    Alike ρ (BodySwapAt i stage old new) (s.feedAll ls >>= State.finish)
      (t.feedAll (ls.map (Line.renumber ρ)) >>= State.finish) :=
  (Alike.feedAll (fun _ _ h l => h.feed l) h ls).bind fun _ _ h => h.finish

end Run

section Texts

variable {front body body' rest : List (List Char)} {fence : List Char} {plan : Plan} {s : Shader}
  {st : OpenStage} {n : Nat}

/-- Behind a body, a text is read on from the block that holds it. -/
theorem readLines_behind_body
    (hstart : State.initial.feedAll (numberFrom 1 front) = .ok ⟨plan, .body s st n []⟩)
    (hbody : ∀ l ∈ body, isFence l = false) (hfence : isFence fence = true) :
    readLines (numberFrom 1 (front ++ body ++ fence :: rest)) =
      ((State.inBlock plan (.shader (withBody s st.stage (linesText body))
        (some { st with hasSource := true }))).feedAll
          (numberFrom (front.length + body.length + 2) rest) >>= State.finish) := by
  have hsplit : front ++ body ++ fence :: rest = front ++ ((body ++ [fence]) ++ rest) := by simp
  have hlen : 1 + front.length + (body ++ [fence]).length = front.length + body.length + 2 := by
    simp only [List.length_append, List.length_singleton]
    omega
  rw [readLines, hsplit, numberFrom_append, State.feedAll_append, hstart]
  change State.feedAll _ _ >>= _ = _
  rw [numberFrom_append, State.feedAll_append, feedAll_body_fence hbody hfence, hlen]
  rfl

theorem Likeness.OfMode.eq_body {r : Likeness} {c : List (List Char)} {m : Mode}
    (h : r.OfMode (.body s st n c) m) :
    ∃ t, m = .body t (st.renumber r.line) (r.line n) c := by
  cases h with
  | body _ _ _ _ => exact ⟨_, rfl⟩

/-- The line that opened a stage is one of those before the body. -/
theorem renumber_openStage {ρ : Nat → Nat} (hρ : ∀ m, m ≤ front.length → ρ m = m)
    (hstart : State.initial.feedAll (numberFrom 1 front) = .ok ⟨plan, .body s st n []⟩) :
    st.renumber ρ = st := by
  let r : Likeness := .ofRenumbering ρ
  have hinitial : r.OfState State.initial State.initial := ⟨rfl, .fields (.root trivial)⟩
  have hrun := Likeness.feedAll_alike hinitial (numberFrom 1 front)
  have hfront : (numberFrom 1 front).map (Line.renumber r.line) = numberFrom 1 front := by
    apply map_renumber_numberFrom
    intro i hi
    exact hρ (1 + i) (by omega)
  rw [hfront, hstart] at hrun
  cases hrun with
  | ok h =>
    obtain ⟨t, ht⟩ := h.mode.eq_body
    injection ht with _ hst
    exact hst.symm

/-- Texts that differ in the lines of one body are read alike, for every renumbering that keeps
the lines before the body and moves those behind it to their new places. -/
theorem readLines_swap
    (hstart : State.initial.feedAll (numberFrom 1 front) = .ok ⟨plan, .body s st n []⟩)
    (hbody : ∀ l ∈ body, isFence l = false) (hbody' : ∀ l ∈ body', isFence l = false)
    (hfence : isFence fence = true) {ρ : Nat → Nat} (hρ : ∀ m, m ≤ front.length → ρ m = m)
    (hρ' : ∀ m, ρ (front.length + body.length + 2 + m) = front.length + body'.length + 2 + m) :
    Alike ρ (BodySwapAt plan.shaders.length st.stage (linesText body) (linesText body'))
      (readLines (numberFrom 1 (front ++ body ++ fence :: rest)))
      (readLines (numberFrom 1 (front ++ body' ++ fence :: rest))) := by
  have hrest : (numberFrom (front.length + body.length + 2) rest).map (Line.renumber ρ) =
      numberFrom (front.length + body'.length + 2) rest :=
    map_renumber_numberFrom rest fun i _ => hρ' i
  let r : Likeness :=
    .openSwap ρ plan.shaders.length st.stage (linesText body) (linesText body')
  have hst : ({ st with hasSource := true } : OpenStage).renumber r.line =
      { st with hasSource := true } := by
    have hline : ρ st.line = st.line := congrArg OpenStage.line (renumber_openStage hρ hstart)
    exact congrArg (OpenStage.mk st.stage · true) hline
  have hswap : BodySwap st.stage (linesText body) (linesText body')
      (withBody s st.stage (linesText body)) (withBody s st.stage (linesText body')) := by
    rw [← withBody_withBody s st.stage (linesText body) (linesText body')]
    exact .swap (bodyOf_withBody s st.stage (linesText body))
  have hblock : r.OfBlock
      (.shader (withBody s st.stage (linesText body)) (some { st with hasSource := true }))
      (.shader (withBody s st.stage (linesText body')) (some { st with hasSource := true })) := by
    have := Likeness.OfBlock.shader (r := r) (some { st with hasSource := true }) hswap
    rwa [Option.map_some, hst] at this
  rw [readLines_behind_body hstart hbody hfence, readLines_behind_body hstart hbody' hfence,
    ← hrest]
  exact StateSwap.finishAfter (.opened (.inBlock (.inl ⟨rfl, rfl⟩) hblock) rfl rfl) _

/-- A body is captured as it is, and nothing else depends on it. Where the lines before lead to
the start of a body, its lines become the body of the stage and the reading goes on behind the fence
below them. With other lines in their place, a plan is read if one was read before, equal but for
this body; and an error is the same, on the line that its line has become. -/
theorem read_body {source other : String}
    (hsource : lines source.toList = front ++ body ++ fence :: rest)
    (hother : lines other.toList = front ++ body' ++ fence :: rest)
    (hstart : State.initial.feedAll (numberFrom 1 front) = .ok ⟨plan, .body s st n []⟩)
    (hbody : ∀ l ∈ body, isFence l = false) (hbody' : ∀ l ∈ body', isFence l = false)
    (hfence : isFence fence = true) :
    Cursor.capture ⟨numberFrom (front.length + 1) (body ++ fence :: rest)⟩ =
        (some (linesText body), ⟨numberFrom (front.length + body.length + 2) rest⟩) ∧
      State.initial.feedAll (numberFrom 1 (front ++ body ++ [fence])) =
        .ok (.inBlock plan (.shader (withBody s st.stage (linesText body))
          (some { st with hasSource := true }))) ∧
      ('\r' ∉ source.toList → linesText body <:+: source.toList) ∧
      (∀ p, read source = .ok p → ∃ q, read other = .ok q ∧
        BodySwapAt plan.shaders.length st.stage (linesText body) (linesText body') p q) ∧
      (∀ e, read source = .error e → ∃ e', read other = .error e' ∧ e'.cause = e.cause ∧
        (e.line ≤ front.length ∧ e'.line = e.line ∨
          front.length + body.length < e.line ∧
            e'.line + body.length = e.line + body'.length)) := by
  have hcapture := captureFrom_fence hbody hfence (front.length + 1) rest
  rw [show front.length + 1 + body.length + 1 = front.length + body.length + 2 by omega] at hcapture
  have hrun : State.initial.feedAll (numberFrom 1 (front ++ body ++ [fence])) =
      .ok (.inBlock plan (.shader (withBody s st.stage (linesText body))
        (some { st with hasSource := true }))) := by
    rw [List.append_assoc, numberFrom_append, State.feedAll_append, hstart]
    exact feedAll_body_fence hbody hfence
  -- No error is found inside the body, so where a renumbering sends its lines cannot matter.
  let ρ (inside m : Nat) : Nat :=
    if m ≤ front.length then m
    else if m ≤ front.length + body.length then inside
    else m - body.length + body'.length
  have halike : ∀ inside, Alike (ρ inside)
      (BodySwapAt plan.shaders.length st.stage (linesText body) (linesText body'))
      (read source) (read other) := by
    intro inside
    rw [read, read, linesOf, linesOf, hsource, hother]
    apply readLines_swap hstart hbody hbody' hfence
    · intro m hm
      simp only [ρ, hm, if_true]
    · intro m
      have h₁ : ¬ front.length + body.length + 2 + m ≤ front.length := by omega
      have h₂ : ¬ front.length + body.length + 2 + m ≤ front.length + body.length := by omega
      simp only [ρ, h₁, h₂, if_false]
      omega
  refine ⟨hcapture, hrun, fun hr => infix_of_lines hr hsource, ?_, ?_⟩
  · intro p hp
    have h := halike 0
    rw [hp] at h
    cases hq : read other with
    | ok q =>
      rw [hq] at h
      cases h with
      | ok h => exact ⟨q, rfl, h⟩
    | error e =>
      rw [hq] at h
      cases h
  · intro e he
    have hmoved : ∀ inside, read other = .error (e.renumber (ρ inside)) := by
      intro inside
      have h := halike inside
      rw [he] at h
      generalize read other = y at h
      cases h
      rfl
    refine ⟨e.renumber (ρ 0), hmoved 0, rfl, ?_⟩
    by_cases h₁ : e.line ≤ front.length
    · left
      exact ⟨h₁, by simp [ρ, h₁]⟩
    · by_cases h₂ : e.line ≤ front.length + body.length
      · have h := (hmoved 0).symm.trans (hmoved 1)
        injection h with h
        have := congrArg Error.line h
        simp [ρ, h₁, h₂] at this
      · right
        refine ⟨by omega, ?_⟩
        simp only [Error.line_renumber, ρ, h₁, h₂, if_false]
        omega

end Texts

/-- Lines that would be a comment and an opener elsewhere in place of a body: the field behind it is
refused as before, one line further on. -/
theorem read_body_before_error :
    State.initial.feedAll
        (numberFrom 1 ["shader: s".toList, " vsh:".toList, " source: ```".toList]) =
        .ok ⟨{}, .body { name := "s" } { stage := .vertex, line := 2 } 3 []⟩ ∧
      read "shader: s\n vsh:\n source: ```\nold\n ```\nname: x\n" =
        .error ⟨6, .unknownKeyword "name"⟩ ∧
      ∃ e, read "shader: s\n vsh:\n source: ```\n- new\nshader: t\n ```\nname: x\n" = .error e ∧
        e.cause = .unknownKeyword "name" ∧
        (6 ≤ 3 ∧ e.line = 6 ∨ 3 + 1 < 6 ∧ e.line + 1 = 6 + 2) := by
  have hstart : State.initial.feedAll
      (numberFrom 1 ["shader: s".toList, " vsh:".toList, " source: ```".toList]) =
      .ok ⟨{}, .body { name := "s" } { stage := .vertex, line := 2 } 3 []⟩ := by rfl
  have hsource : lines "shader: s\n vsh:\n source: ```\nold\n ```\nname: x\n".toList =
      ["shader: s".toList, " vsh:".toList, " source: ```".toList] ++ ["old".toList] ++
        " ```".toList :: ["name: x".toList] := by rfl
  have hother :
      lines "shader: s\n vsh:\n source: ```\n- new\nshader: t\n ```\nname: x\n".toList =
      ["shader: s".toList, " vsh:".toList, " source: ```".toList] ++
        ["- new".toList, "shader: t".toList] ++ " ```".toList :: ["name: x".toList] := by rfl
  have herror : read "shader: s\n vsh:\n source: ```\nold\n ```\nname: x\n" =
      .error ⟨6, .unknownKeyword "name"⟩ := by rfl
  have h := read_body hsource hother hstart (by decide) (by decide) (by decide)
  exact ⟨hstart, herror, h.2.2.2.2 _ herror⟩

end RenderPlan.Description
