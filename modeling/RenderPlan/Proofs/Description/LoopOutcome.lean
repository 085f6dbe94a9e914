import RenderPlan.Proofs.Description.Loop
/-!
What loops lead to. What a field takes off the text at once is what a reading line by line gathers
from it, error for error; so no turn of a loop changes what the text leads to, and every field that
a loop takes finds its arm there.
-/
namespace RenderPlan.Description

open RenderPlan.Text

section Lists

variable {plan : Plan} {field : ListField} {n : Nat}

theorem LoopState.filled_outcome (s : LoopState) (field : ListField) (n : Nat)
    (opening inner rest : List Char) :
    (continueList s.plan field n opening (.closed inner rest) >>= fun t =>
      t.run s.cursor.remaining) = s.filled field n inner rest >>= LoopState.outcome := by
  rw [continueList, LoopState.filled]
  by_cases hrest : trim rest = []
  · simp only [if_pos hrest]
    cases field.fill inner <;> rfl
  · simp only [if_neg hrest]
    rfl

theorem LoopState.bracketed_outcome (s : LoopState) (field : ListField) (n : Nat)
    (opening : List Char) :
    (openList s.plan field n opening >>= fun t => t.run s.cursor.remaining) =
      s.bracketed field n opening >>= LoopState.outcome := by
  unfold openList
  split
  · next opened =>
    rw [LoopState.bracketed, Cursor.collect]
    cases Bracket.start opened with
    | unclosed inner =>
      dsimp only
      rw [continueList]
      change State.run _ _ = _
      rw [run_list]
      rcases Cursor.closeBracket inner s.cursor.remaining with ⟨_ | ⟨text, rest⟩, d⟩
      · rfl
      · exact LoopState.filled_outcome { s with cursor := d } field n ('[' :: opened) text rest
    | closed inner rest => exact s.filled_outcome field n ('[' :: opened) inner rest
  · next hopening =>
    have hcollect : s.cursor.collect opening = (none, s.cursor) := by
      unfold Cursor.collect
      split
      · exact absurd rfl (hopening _)
      · rfl
    rw [LoopState.bracketed, hcollect]
    rfl

/-- A field without a value has its list below, or none. -/
theorem run_expectList (c : Cursor) : State.run ⟨plan, .expectList field n⟩ c.remaining =
    match c.below with
    | (some text, d) => openList plan field n text >>= fun t => t.run d.remaining
    | (none, _) => malformedList field n [] := by
  rw [Cursor.below]
  cases hc : c.peek? with
  | none => exact run_of_peek?_eq_none (fun _ => rfl) hc
  | some l =>
    rw [run_of_peek? (fun _ => rfl) hc, consume]
    by_cases hl : startsWith '[' l.text = true
    · simp only [if_pos hl]
    · simp only [if_neg hl]
      rfl

theorem LoopState.takeList_outcome (s : LoopState) (field : ListField) (f : Field) :
    (listField s.plan field f >>= fun t => t.run s.cursor.remaining) =
      s.takeList field f >>= LoopState.outcome := by
  rw [listField, LoopState.takeList, Cursor.opening]
  by_cases hvalue : f.value = []
  · simp only [if_pos hvalue]
    change State.run ⟨s.plan, .expectList field f.line⟩ s.cursor.remaining = _
    rw [run_expectList]
    rcases s.cursor.below with ⟨_ | text, d⟩
    · simp only [hvalue]
      exact LoopState.bracketed_outcome { s with cursor := d } field f.line []
    · exact LoopState.bracketed_outcome { s with cursor := d } field f.line text
  · simp only [if_neg hvalue]
    exact s.bracketed_outcome field f.line f.value

end Lists

/-- Behind a buffer without a list there is one below, or the reading goes on. -/
theorem run_expectOutputs (plan : Plan) (p : Pass) (n : Nat) (buffer : List Char) (c : Cursor) :
    State.run ⟨plan, .expectOutputs p n buffer⟩ c.remaining =
      match c.below with
      | (some text, d) => openList plan (.outputs p buffer) n text >>= fun t => t.run d.remaining
      | (none, d) => State.run (.inBlock plan (.pass (withOutputs p buffer []))) d.remaining := by
  rw [Cursor.below]
  cases hc : c.peek? with
  | none =>
    rw [run_of_peek?_eq_none (fun _ => rfl) hc]
    dsimp only
    rw [State.inBlock, ← run_skip (fun _ => rfl), run_of_peek?_eq_none (fun _ => rfl) hc]
    rfl
  | some l =>
    rw [run_of_peek? (fun _ => rfl) hc, consume]
    by_cases hl : startsWith '[' l.text = true
    · simp only [if_pos hl]
    · simp only [if_neg hl]
      rw [State.inBlock, ← run_skip (fun _ => rfl), run_of_peek? (fun _ => rfl) hc]
      rfl

theorem LoopState.outputsIn_outcome (s : LoopState) (p : Pass) {f : Field}
    (hf : String.ofList f.keyword = Keyword.outputs.spelling) (value : List Char) :
    (outputsValue s.plan p f.line f.value value >>= fun t => t.run s.cursor.remaining) =
      s.outputsIn p f value >>= LoopState.outcome := by
  rw [outputsValue, LoopState.outputsIn]
  obtain ⟨buffer, list⟩ := splitOutputs value
  by_cases hb : isBufferName buffer = true
  · simp only [if_pos hb]
    cases list with
    | some text => exact s.bracketed_outcome (.outputs p buffer) f.line text
    | none =>
      change State.run ⟨s.plan, .expectOutputs p f.line buffer⟩ s.cursor.remaining = _
      rw [run_expectOutputs]
      rcases s.cursor.below with ⟨_ | text, d⟩
      · rfl
      · exact LoopState.bracketed_outcome { s with cursor := d } (.outputs p buffer) f.line text
  · simp only [if_neg hb]
    rw [Field.malformedValue, hf]
    rfl

theorem LoopState.takeOutputs_outcome (s : LoopState) (p : Pass) {f : Field}
    (hf : String.ofList f.keyword = Keyword.outputs.spelling) :
    (passField s.plan p f .outputs >>= fun t => t.run s.cursor.remaining) =
      s.takeOutputs p f >>= LoopState.outcome := by
  rw [passField, LoopState.takeOutputs, LoopState.outputsText]
  by_cases hvalue : f.value = []
  · simp only [if_pos hvalue]
    change State.run ⟨s.plan, .expectBuffer p f.line⟩ s.cursor.remaining = _
    have hmalformed : (f.malformedValue : Except Error (List Char × Cursor)) =
        fail f.line (.malformedValue Keyword.outputs.spelling "") := by
      rw [Field.malformedValue, hf, hvalue]
    cases hc : s.cursor.peek? with
    | none =>
      rw [run_of_peek?_eq_none (fun _ => rfl) hc, hmalformed]
      rfl
    | some l =>
      rw [run_of_peek? (fun _ => rfl) hc, consume, hmalformed]
      by_cases hl : ':' ∈ l.text
      · simp only [if_pos hl]
        rfl
      · simp only [if_neg hl, ← hvalue]
        exact LoopState.outputsIn_outcome { s with cursor := s.cursor.next } p hf (trim l.text)
  · simp only [if_neg hvalue]
    exact s.outputsIn_outcome p hf f.value

theorem LoopState.fenced_outcome (s : LoopState) (sh : Shader) (st : OpenStage) (n : Nat)
    (fence : List Char) :
    (openBody s.plan sh st n fence >>= fun t => t.run s.cursor.remaining) =
      s.fenced sh st n fence >>= LoopState.outcome := by
  rw [openBody, LoopState.fenced]
  by_cases ho : isOpeningFence fence = true
  · simp only [if_pos ho]
    change State.run ⟨s.plan, .body sh st n []⟩ s.cursor.remaining = _
    rw [run_body, Cursor.capture]
    rcases Cursor.captureFrom s.cursor.remaining with ⟨_ | text, d⟩ <;> rfl
  · simp only [if_neg ho]
    rfl

theorem LoopState.takeSource_outcome (s : LoopState) (sh : Shader) (st : OpenStage) (f : Field) :
    (sourceField s.plan sh st f >>= fun t => t.run s.cursor.remaining) =
      s.takeSource sh st f >>= LoopState.outcome := by
  rw [sourceField, LoopState.takeSource]
  by_cases hvalue : f.value = []
  · have hfence : ¬isFence f.value = true := by
      rw [hvalue]
      decide
    simp only [if_pos hvalue, if_neg hfence]
    change State.run ⟨s.plan, .expectFence sh st f.line⟩ s.cursor.remaining = _
    cases hc : s.cursor.peek? with
    | none =>
      rw [run_of_peek?_eq_none (fun _ => rfl) hc]
      rfl
    | some l =>
      rw [run_of_peek? (fun _ => rfl) hc, consume]
      by_cases hl : isFence l.text = true
      · simp only [if_pos hl]
        exact LoopState.fenced_outcome { s with cursor := s.cursor.next } sh st l.number l.text
      · simp only [if_neg hl]
        rfl
  · simp only [if_neg hvalue]
    by_cases hfence : isFence f.value = true
    · simp only [if_pos hfence]
      exact s.fenced_outcome sh st f.line f.value
    · simp only [if_neg hfence]
      rfl

namespace LoopState

/-- A loop has an arm, which leads where a field leads that is read line by line. -/
def Follows (s : LoopState) (arm : Option (Except Error LoopState)) (r : Except Error State) :
    Prop :=
  ∃ next, arm = some next ∧ (r >>= fun t => t.run s.cursor.remaining) = next >>= outcome

theorem sets_outcome {β : Type} (s : LoopState) (x : Except Error β) (g : β → Block) :
    ((x.map fun v => State.inBlock s.plan (g v)) >>= fun t => t.run s.cursor.remaining) =
      s.sets (x.map g) >>= outcome := by
  cases x <;> rfl

theorem enters_outcome (s : LoopState) (block : Block) (f : Field) :
    ((if f.value = [] then f.malformedValue else .ok (State.inBlock s.plan block)) >>= fun t =>
      t.run s.cursor.remaining) = s.enters block f >>= outcome := by
  rw [enters]
  by_cases hvalue : f.value = []
  · simp only [if_pos hvalue]
    rfl
  · simp only [if_neg hvalue]
    rfl

theorem entersStage_outcome (s : LoopState) (sh : Shader) (stage : Stage) (f : Field) :
    (stageField s.plan sh stage f >>= fun t => t.run s.cursor.remaining) =
      s.entersStage sh stage f >>= outcome := by
  rw [stageField, entersStage]
  by_cases hvalue : f.value = []
  · simp only [if_pos hvalue]
    rfl
  · simp only [if_neg hvalue]
    rfl

section Arms

variable {s : LoopState} {f : Field} {k : Keyword}

theorem rootArm?_follows (hs : s.block = .root) (hk : k ∈ Loop.root.owned) :
    s.Follows (s.rootArm? f k) (blockField s.plan .root f k) := by
  have hopener (block : Block) : s.Follows (some (s.enters block f))
      (if f.value = [] then f.malformedValue else .ok (State.inBlock s.plan block)) :=
    ⟨_, rfl, s.enters_outcome block f⟩
  have hset (plan : Plan) : s.Follows (some (.ok { s with plan := plan }))
      (.ok (State.inBlock plan .root)) := by
    refine ⟨_, rfl, ?_⟩
    rw [← hs]
    rfl
  simp only [Loop.owned, List.mem_cons, List.not_mem_nil, or_false] at hk
  rcases hk with rfl | rfl | rfl | rfl | rfl | rfl
  · exact hset _
  · exact hset _
  all_goals
    simp only [blockField, newBlock?, opensBlockIn, Keyword.opensBlock, Bool.or_true,
      Bool.and_true]
    exact hopener _

theorem bufferArm?_follows (b : Buffer) (hk : k ∈ Loop.buffer.owned) :
    s.Follows (s.bufferArm? b f k) (blockField s.plan (.buffer b) f k) := by
  simp only [Loop.owned, List.mem_cons, List.not_mem_nil, or_false] at hk
  rcases hk with rfl | rfl
  · exact ⟨_, rfl, s.sets_outcome f.flag _⟩
  · exact ⟨_, rfl, s.takeList_outcome (.attachments b) f⟩

/-- A pass takes the keyword of a shader where it does not stand at the start of a line. -/
theorem passArm?_follows (p : Pass) (hf : String.ofList f.keyword = k.spelling)
    (hk : k ∈ Loop.pass.owned) (hstart : f.atLineStart = false ∨ k.opensBlock = false) :
    s.Follows (s.passArm? p f k) (blockField s.plan (.pass p) f k) := by
  simp only [Loop.owned, List.mem_cons, List.not_mem_nil, or_false] at hk
  rcases hk with rfl | rfl | rfl | rfl | rfl | rfl | rfl | rfl
  · have hline : f.atLineStart = false := by simpa [Keyword.opensBlock] using hstart
    simp only [blockField, newBlock?, opensBlockIn, Keyword.opensBlock, hline, Bool.or_false,
      Bool.and_false]
    exact ⟨_, rfl, rfl⟩
  · exact ⟨_, rfl, s.sets_outcome (f.literal (DrawMode.ofText? f.text)) _⟩
  · exact ⟨_, rfl, s.takeList_outcome (.inputs p) f⟩
  · exact ⟨_, rfl, s.takeOutputs_outcome p hf⟩
  · exact ⟨_, rfl, s.sets_outcome f.flag _⟩
  · exact ⟨_, rfl, s.sets_outcome f.flag _⟩
  · exact ⟨_, rfl, s.sets_outcome f.flag _⟩
  · exact ⟨_, rfl, s.sets_outcome (f.literal (DepthTest.ofText? f.text)) _⟩

theorem textureArm?_follows (t : Texture) (hk : k ∈ Loop.texture.owned) :
    s.Follows (s.textureArm? t f k) (blockField s.plan (.texture t) f k) := by
  simp only [Loop.owned, List.mem_cons, List.not_mem_nil, or_false] at hk
  rcases hk with rfl | rfl | rfl
  · exact ⟨_, rfl, rfl⟩
  · exact ⟨_, rfl, s.sets_outcome (f.literal (TexelFormat.ofText? f.text)) _⟩
  · exact ⟨_, rfl, s.sets_outcome (f.literal (Scale.read? f.value)) _⟩

theorem shaderArm?_follows (sh : Shader) (hk : k ∈ Loop.shader.owned) :
    s.Follows (s.shaderArm? sh f k) (blockField s.plan (.shader sh none) f k) := by
  simp only [Loop.owned, List.mem_cons, List.not_mem_nil, or_false] at hk
  rcases hk with rfl | rfl | rfl | rfl | rfl
  · exact ⟨_, rfl, s.takeList_outcome (.attributes sh none) f⟩
  · exact ⟨_, rfl, s.takeList_outcome (.uniforms sh) f⟩
  · exact ⟨_, rfl, s.takeList_outcome (.varyings sh) f⟩
  · exact ⟨_, rfl, s.entersStage_outcome sh .vertex f⟩
  · exact ⟨_, rfl, s.entersStage_outcome sh .fragment f⟩

theorem stageArm?_follows (sh : Shader) (st : OpenStage) (hk : k ∈ Loop.stage.owned) :
    s.Follows (s.stageArm? sh st f k) (blockField s.plan (.shader sh (some st)) f k) := by
  simp only [Loop.owned, List.mem_cons, List.not_mem_nil, or_false] at hk
  rcases hk with rfl | rfl
  · exact ⟨_, rfl, s.takeSource_outcome sh st f⟩
  · exact ⟨_, rfl, s.takeList_outcome (.attributes sh (some st)) f⟩

end Arms

end LoopState

section Verdicts

variable {loop : Loop} {f : Field} {k : Keyword}

theorem Loop.mem_owned_root_of_opensBlock (h : k.opensBlock = true) : k ∈ Loop.root.owned := by
  revert h
  cases k <;> decide

theorem Loop.of_verdict_takes (h : loop.verdict f k = .takes) : k ∈ loop.owned ∧
    (loop = .root ∨ f.atLineStart = false ∨ k.opensBlock = false) := by
  unfold verdict at h
  split at h
  · cases h
  · next hstart =>
    split at h
    · next hk => exact ⟨hk, by simpa only [not_and_or, not_not, Bool.not_eq_true] using hstart⟩
    · split at h <;> cases h

/-- A loop is left in front of an opener or of a field of a loop around. -/
theorem Loop.of_verdict_leaves (h : loop.verdict f k = .leaves) : loop ≠ .root ∧
    (k.opensBlock = true ∧ (f.atLineStart = true ∨ k ∉ loop.owned) ∨
      k ∉ loop.owned ∧ k ∈ loop.enclosing) := by
  unfold verdict at h
  split at h
  · next hstart => exact ⟨hstart.1, .inl ⟨hstart.2.2, .inl hstart.2.1⟩⟩
  · split at h
    · cases h
    · next hk =>
      split at h
      · next hor =>
        constructor
        · rintro rfl
          rcases hor with ho | he
          · exact hk (mem_owned_root_of_opensBlock ho)
          · cases he
        · exact hor.imp (fun ho => ⟨ho, .inr hk⟩) fun he => ⟨hk, he⟩
      · cases h

theorem Loop.of_verdict_refuses (h : loop.verdict f k = .refuses) :
    k ∉ loop.owned ∧ k.opensBlock = false ∧ k ∉ loop.enclosing := by
  unfold verdict at h
  split at h
  · cases h
  · split at h
    · cases h
    · next hk =>
      split at h
      · cases h
      · next hno =>
        rw [not_or, Bool.not_eq_true] at hno
        exact ⟨hk, hno⟩

end Verdicts

/-- A field in a loop that does not take it nor leave it is unknown. -/
theorem blockField_of_refuses (plan : Plan) {block : Block} {f : Field} {k : Keyword}
    (h : block.loop.verdict f k = .refuses) : blockField plan block f k = f.unknownKeyword := by
  obtain ⟨hown, hopen, henclosing⟩ := Loop.of_verdict_refuses h
  have hclosed : k.opensBlock ≠ true := by simp [hopen]
  -- Block by block, each keyword has no field there, is taken after all, or opens a block.
  cases block with
  | root => cases k <;> first | rfl | exact absurd (by decide) hown
  | buffer b =>
    change k ∉ Loop.buffer.owned at hown
    cases k <;> first | rfl | exact absurd (by decide) hown | exact absurd rfl hclosed
  | pass p =>
    change k ∉ Loop.pass.owned at hown
    cases k <;> first | rfl | exact absurd (by decide) hown | exact absurd rfl hclosed
  | texture t =>
    change k ∉ Loop.texture.owned at hown
    cases k <;> first | rfl | exact absurd (by decide) hown | exact absurd rfl hclosed
  | shader sh st =>
    cases st with
    | none =>
      change k ∉ Loop.shader.owned at hown
      cases k <;> first | rfl | exact absurd (by decide) hown | exact absurd rfl hclosed
    | some st =>
      change k ∉ Loop.stage.owned at hown
      change k ∉ Loop.shader.owned at henclosing
      cases k <;> first
        | rfl | exact absurd (by decide) hown | exact absurd (by decide) henclosing
        | exact absurd rfl hclosed

/-- A loop has an arm for every field that it takes. -/
theorem LoopState.arm?_follows {s : LoopState} {f : Field} {k : Keyword}
    (hf : k.spelling = String.ofList f.keyword) (h : s.block.loop.verdict f k = .takes) :
    s.Follows (s.arm? f k) (blockField s.plan s.block f k) := by
  obtain ⟨hk, hstart⟩ := Loop.of_verdict_takes h
  obtain ⟨plan, block, c⟩ := s
  cases block with
  | root => exact rootArm?_follows rfl hk
  | buffer b => exact bufferArm?_follows b hk
  | pass p => exact passArm?_follows p hf.symm hk (hstart.resolve_left (by simp [Block.loop]))
  | texture t => exact textureArm?_follows t hk
  | shader sh st =>
    cases st with
    | none => exact shaderArm?_follows sh hk
    | some st => exact stageArm?_follows sh st hk

theorem eq_of_leaveBlock {plan : Plan} {block : Block} {r : Plan × Block}
    (h : leaveBlock plan block = .ok r) :
    (∃ sh st, block = .shader sh (some st) ∧ r = (plan, .shader sh none)) ∨
      block.loop ≠ .stage ∧ r.2 = .root := by
  unfold leaveBlock at h
  split at h
  · next sh st =>
    obtain ⟨-, -, rfl⟩ := exists_of_map_eq_ok h
    exact .inl ⟨sh, st, rfl, rfl⟩
  · next hstage =>
    obtain ⟨plan, -, rfl⟩ := exists_of_map_eq_ok h
    refine .inr ⟨?_, rfl⟩
    unfold Block.loop
    split <;> first | exact absurd rfl (hstage _ _) | decide

theorem closeBlock_eq_leaveBlock (plan : Plan) (block : Block) :
    closeBlock plan block = leaveBlock plan block >>= fun r => closeBlock r.1 r.2 := by
  unfold leaveBlock
  split
  · rw [closeBlock]
    cases closeStage _ <;> rfl
  · cases closeBlock plan block <;> rfl

/-- An opener ends the block before it and enters the next one. -/
theorem blockField_of_opensBlockIn {next : Block} {f : Field} {k : Keyword}
    (hnext : newBlock? f.text k = some next) (plan : Plan) {block : Block}
    (ho : opensBlockIn block f k = true) :
    blockField plan block f k = closeBlock plan block >>= fun plan =>
      if f.value = [] then f.malformedValue else .ok (.inBlock plan next) := by
  simp only [blockField, hnext, ho]

theorem opensBlockIn_of_leaves {block : Block} {f : Field} {k : Keyword}
    (ho : k.opensBlock = true) (h : f.atLineStart = true ∨ k ∉ block.loop.owned) :
    opensBlockIn block f k = true := by
  unfold opensBlockIn
  rw [ho, Bool.true_and, Bool.or_eq_true]
  refine h.imp_right fun hown => ?_
  split
  · exact absurd (by decide : Keyword.shader ∈ Loop.pass.owned) hown
  · rfl

/-- Only a stage leaves a field to a block around it: to its shader. -/
theorem Block.exists_stage_of_mem_enclosing {block : Block} {k : Keyword}
    (h : k ∈ block.loop.enclosing) : ∃ sh st, block = .shader sh (some st) := by
  cases block with
  | root | buffer | pass | texture => cases h
  | shader sh stage =>
    cases stage with
    | none => cases h
    | some st => exact ⟨sh, st, rfl⟩

/-- A field that a loop is left for is read behind the loop as in it. -/
theorem blockField_eq_leaveBlock (plan : Plan) {block : Block} {f : Field} {k : Keyword}
    (h : block.loop.verdict f k = .leaves) :
    blockField plan block f k = leaveBlock plan block >>= fun r => blockField r.1 r.2 f k := by
  obtain ⟨hroot, ⟨ho, hwhere⟩ | ⟨hown, henclosing⟩⟩ := Loop.of_verdict_leaves h
  · obtain ⟨next, hnext⟩ := newBlock_of_opensBlock ho f.text
    rw [blockField_of_opensBlockIn hnext plan (opensBlockIn_of_leaves ho hwhere),
      closeBlock_eq_leaveBlock]
    cases hleave : leaveBlock plan block with
    | error e => rfl
    | ok r =>
      have hbehind : opensBlockIn r.2 f k = true := by
        rcases eq_of_leaveBlock hleave with ⟨sh, st, rfl, rfl⟩ | ⟨-, hr⟩
        · simp [opensBlockIn, ho]
        · simp [opensBlockIn, ho, hr]
      exact (blockField_of_opensBlockIn hnext r.1 hbehind).symm
  · obtain ⟨sh, st, rfl⟩ := Block.exists_stage_of_mem_enclosing henclosing
    have hk : k = .uniforms ∨ k = .varying ∨ k = .vertexStage ∨ k = .fragmentStage := by
      change k ∈ Loop.shader.owned at henclosing
      change k ∉ Loop.stage.owned at hown
      revert henclosing hown
      cases k <;> decide
    rw [leaveBlock]
    rcases hk with rfl | rfl | rfl | rfl <;> simp only [blockField, newBlock?, shaderField] <;>
      cases closeStage (some st) <;> rfl

theorem LoopState.leave_outcome {s : LoopState} {g : Plan → Block → Except Error Plan}
    (hrun : ∀ plan block, State.run (.inBlock plan block) s.cursor.remaining = g plan block)
    (hroot : s.block ≠ .root)
    (hleave : g s.plan s.block = leaveBlock s.plan s.block >>= fun r => g r.1 r.2) :
    s.outcome = s.leave >>= Turn.outcome := by
  have hskip (plan : Plan) (block : Block) :
      State.run (.inBlock plan block) s.cursor.skip.remaining = g plan block := by
    rw [State.inBlock, ← run_skip (fun _ => rfl)]
    exact hrun plan block
  have hs : s.leave = (leaveBlock s.plan s.block).map fun r =>
      .leaves ⟨r.1, r.2, s.cursor.skip⟩ := by
    unfold leave
    split
    · next h => exact absurd h hroot
    · rfl
  rw [outcome, hrun, hleave, hs]
  cases leaveBlock s.plan s.block with
  | error e => rfl
  | ok r => exact (hskip r.1 r.2).symm

/-- A turn of a loop leads where the text leads line by line, and a field that a loop takes
always has an arm. -/
theorem LoopState.exists_turn (s : LoopState) :
    ∃ r : Except Error Turn, s.turn = r.mapError .error ∧ s.outcome = r >>= Turn.outcome := by
  unfold turn
  cases hc : s.cursor.peek? with
  | none =>
    refine ⟨s.leave, rfl, ?_⟩
    have hrun (plan : Plan) (block : Block) :
        State.run (.inBlock plan block) s.cursor.remaining = closeBlock plan block :=
      run_of_peek?_eq_none (fun _ => rfl) hc
    by_cases hroot : s.block = .root
    · rw [outcome, hrun, leave, hroot]
      rfl
    · exact s.leave_outcome hrun hroot (closeBlock_eq_leaveBlock s.plan s.block)
  | some l =>
    have hrun (plan : Plan) (block : Block) :
        State.run (.inBlock plan block) s.cursor.remaining =
          fieldLine plan block l >>= fun t => t.run s.cursor.next.remaining :=
      run_of_peek? (fun _ => rfl) hc
    dsimp only
    cases hf : l.field? with
    | none =>
      refine ⟨.error _, rfl, ?_⟩
      rw [outcome, hrun, fieldLine, hf]
      rfl
    | some f =>
      dsimp only
      cases hk : Keyword.ofText? (String.ofList f.keyword) with
      | none =>
        refine ⟨f.unknownKeyword, rfl, ?_⟩
        rw [outcome, hrun, fieldLine, hf]
        simp only [hk]
        rfl
      | some k =>
        have hread (plan : Plan) (block : Block) :
            State.run (.inBlock plan block) s.cursor.remaining =
              blockField plan block f k >>= fun t => t.run s.cursor.next.remaining := by
          rw [hrun, fieldLine, hf]
          simp only [hk]
        dsimp only
        cases hverdict : s.block.loop.verdict f k with
        | refuses =>
          refine ⟨f.unknownKeyword, rfl, ?_⟩
          rw [outcome, hread, blockField_of_refuses s.plan hverdict]
          rfl
        | leaves =>
          have hroot : s.block ≠ .root := fun h =>
            (Loop.of_verdict_leaves hverdict).1 (by rw [h]; rfl)
          refine ⟨s.leave, rfl, s.leave_outcome hread hroot ?_⟩
          rw [blockField_eq_leaveBlock s.plan hverdict]
          cases leaveBlock s.plan s.block <;> rfl
        | takes =>
          obtain ⟨next, harm, hnext⟩ := LoopState.arm?_follows
            (s := { s with cursor := s.cursor.next }) (Keyword.ofText?_eq_some_iff.mp hk) hverdict
          refine ⟨next.map (.takes f k), ?_, ?_⟩
          · simp only [harm]
          · rw [outcome, hread]
            refine hnext.trans ?_
            cases next <;> rfl

end RenderPlan.Description
