import RenderPlan.Proofs.Description.Writing
/-!
The description of a plan. Blocks are written one behind the other, each field of a block once; a
pass without outputs and a texture without a path have no field that says so. Every well-formed
plan is read back from its description.
-/
namespace RenderPlan.Description

open RenderPlan.Text

def bufferLines (b : Buffer) : List (List Char) :=
  [lineText false .buffer b.name.toList,
   lineText true .hasDepth (flagText b.hasDepth),
   lineText true .textures (listText ';' (b.textures.map attachmentText))]

/-- A written buffer is read behind the blocks before it. -/
theorem leads_bufferLines {b : Buffer} (h : b.WellFormed) (p : Plan) :
    Leads (Holds p) (bufferLines b) (Holds { p with buffers := p.buffers ++ [b] }) := by
  have opener : Leads (Holds p) [lineText false .buffer b.name.toList]
      (At p (.buffer { name := b.name })) := .opener h.name rfl
  have depth : Leads (At p (.buffer { name := b.name }))
      [lineText true .hasDepth (flagText b.hasDepth)]
      (At p (.buffer { name := b.name, hasDepth := b.hasDepth })) :=
    .flag (fun v => .buffer { name := b.name, hasDepth := v }) (fun _ => rfl) b.hasDepth
  have textures : Leads (At p (.buffer { name := b.name, hasDepth := b.hasDepth }))
      [lineText true .textures (listText ';' (b.textures.map attachmentText))]
      (At p (.buffer b)) := by
    refine .list (by decide) ?_ ?_ fun _ => rfl
    · exact List.forall_mem_map.mpr fun t ht => isEntry_attachmentText (h.textures t ht)
    · simp only [ListField.fill, readAttachments_entriesText h.textures]
      rfl
  refine ((opener.append depth).append textures).weaken ?_
  rintro s rfl
  exact ⟨p, .buffer b, rfl, rfl⟩

def textureLines (t : Texture) : List (List Char) :=
  lineText false .texture t.name.toList ::
    ((t.path.toList.map fun path => lineText true .path path.toList) ++
      [lineText true .format t.format.name.toList, lineText true .scale t.scale.numeral])

/-- A written texture is read behind the blocks before it. -/
theorem leads_textureLines {t : Texture} (h : t.WellFormed) (p : Plan) :
    Leads (Holds p) (textureLines t) (Holds { p with textures := p.textures ++ [t] }) := by
  have opener : Leads (Holds p) [lineText false .texture t.name.toList]
      (At p (.texture { name := t.name })) := .opener h.name rfl
  have path : Leads (At p (.texture { name := t.name }))
      (t.path.toList.map fun path => lineText true .path path.toList)
      (At p (.texture { name := t.name, path := t.path })) := by
    cases hp : t.path with
    | none => exact .nil fun _ hs => hs
    | some path =>
      refine .setting (h.path path hp) fun n => ?_
      simp [blockField, newBlock?, textureField, Field.text]
  have format : Leads (At p (.texture { name := t.name, path := t.path }))
      [lineText true .format t.format.name.toList]
      (At p (.texture { name := t.name, path := t.path, format := t.format })) := by
    refine .literal (fun v => TexelFormat.ofText? (String.ofList v))
      (fun v => .texture { name := t.name, path := t.path, format := v }) (fun _ => rfl) ?_ ?_
    · exact isValue_of_all_solid t.format.isWord_name.2.isBlank_eq_false
    · simp [TexelFormat.ofText?_name]
  have scale : Leads (At p (.texture { name := t.name, path := t.path, format := t.format }))
      [lineText true .scale t.scale.numeral] (At p (.texture t)) :=
    .literal Scale.read? (fun v => .texture { t with scale := v }) (fun _ => rfl)
      (isValue_of_all_solid Scale.isBlank_of_mem_numeral) t.scale.read?_numeral
  refine (opener.append (path.append (format.append scale))).weaken ?_
  rintro s rfl
  exact ⟨p, .texture t, rfl, rfl⟩

def outputsText (p : Pass) : List Char :=
  p.outputBuffer.toList ++ listText ',' (p.outputTextures.map String.toList)

def outputsLines (p : Pass) : List (List Char) :=
  if p.outputBuffer = "" then [] else [lineText true .outputs (outputsText p)]

def passLines (p : Pass) : List (List Char) :=
  [lineText false .pass p.name.toList,
   lineText true .shader p.shader.toList,
   lineText true .draw p.draw.name.toList,
   lineText true .clearDepth (flagText p.clearDepth),
   lineText true .writeDepth (flagText p.writeDepth),
   lineText true .clearOutputs (flagText p.clearOutputs),
   lineText true .depthTest p.depthTest.spelling.toList,
   lineText true .inputs (listText ',' (p.inputs.map inputText))] ++ outputsLines p

/-- The buffer of an output is what stands before the list. -/
theorem outputsValue_outputsText {p : Pass} (h : p.WellFormed) (hb : p.outputBuffer ≠ "")
    (plan : Plan) (q : Pass) (n : Nat) (quoted : List Char) :
    outputsValue plan q n quoted (outputsText p) = .ok (.inBlock plan (.pass
      { q with outputBuffer := p.outputBuffer, outputTextures := p.outputTextures })) := by
  have hcut : cutAt '[' (outputsText p) = some (p.outputBuffer.toList,
      entriesText ',' (p.outputTextures.map String.toList) ++ [']']) :=
    cutAt_eq_some_iff.mpr ⟨rfl, fun hm => by simpa using h.outputBuffer _ hm⟩
  have hsolid : ∀ c ∈ p.outputBuffer.toList, isBlank c = false :=
    h.outputBuffer.isBlank_eq_false
  have hname : isBufferName p.outputBuffer.toList = true := by
    simpa [isBufferName, hb] using hsolid
  have hsplit : splitOutputs (outputsText p)
      = (p.outputBuffer.toList, some (listText ',' (p.outputTextures.map String.toList))) := by
    rw [splitOutputs, hcut]
    simp only [trim_of_all_solid hsolid]
    rfl
  simp only [outputsValue, hsplit, hname, if_true]
  refine openList_listText (by decide) ?_ ?_ n
  · exact List.forall_mem_map.mpr fun o ho => isEntry_of_isWord (h.outputTextures o ho)
  · simp [ListField.fill, withOutputs, readOutputs_entriesText h.outputTextures]

theorem leads_outputsLines {p : Pass} (h : p.WellFormed) (plan : Plan) {q : Pass}
    (hb : q.outputBuffer = "") (ht : q.outputTextures = []) :
    Leads (At plan (.pass q)) (outputsLines p) (At plan (.pass
      { q with outputBuffer := p.outputBuffer, outputTextures := p.outputTextures })) := by
  unfold outputsLines
  split
  · next hp =>
    rw [hp, h.outputsNamed hp, ← hb, ← ht]
    exact .nil fun _ hs => hs
  · next hp =>
    have hvalue : IsValue (outputsText p) := by
      refine isValue_of_all_solid fun c hc => ?_
      rcases List.mem_append.mp hc with hc | hc
      · exact h.outputBuffer.isBlank_eq_false c hc
      · exact isBlank_of_mem_listText (by decide)
          (List.forall_mem_map.mpr fun o ho => isEntry_of_isWord (h.outputTextures o ho)) c hc
    refine .setting hvalue fun n => ?_
    have hne : outputsText p ≠ [] := by simp [outputsText, listText]
    change (if outputsText p = [] then _ else outputsValue plan q n _ (outputsText p)) = _
    rw [if_neg hne]
    exact outputsValue_outputsText h hp plan q n _

/-- A written pass is read behind the blocks before it. -/
theorem leads_passLines {p : Pass} (h : p.WellFormed) (plan : Plan) :
    Leads (Holds plan) (passLines p) (Holds { plan with passes := plan.passes ++ [p] }) := by
  have opener : Leads (Holds plan) [lineText false .pass p.name.toList]
      (At plan (.pass { name := p.name })) := .opener h.name rfl
  have shader (q : Pass) : Leads (At plan (.pass q)) [lineText true .shader p.shader.toList]
      (At plan (.pass { q with shader := p.shader })) := by
    refine .setting h.shader fun n => ?_
    simp [blockField, newBlock?, opensBlockIn, passField, Field.text]
  have draw (q : Pass) : Leads (At plan (.pass q)) [lineText true .draw p.draw.name.toList]
      (At plan (.pass { q with draw := p.draw })) := by
    refine .literal (fun v => DrawMode.ofText? (String.ofList v))
      (fun v => .pass { q with draw := v }) (fun _ => rfl) ?_ ?_
    · cases p.draw <;> exact ⟨by decide, by decide⟩
    · simp [DrawMode.ofText?_name]
  have depthTest (q : Pass) : Leads (At plan (.pass q))
      [lineText true .depthTest p.depthTest.spelling.toList]
      (At plan (.pass { q with depthTest := p.depthTest })) := by
    refine .literal (fun v => DepthTest.ofText? (String.ofList v))
      (fun v => .pass { q with depthTest := v }) (fun _ => rfl) ?_ ?_
    · cases p.depthTest <;> exact ⟨by decide, by decide⟩
    · simp [DepthTest.ofText?_spelling]
  have clearDepth (q : Pass) : Leads (At plan (.pass q))
      [lineText true .clearDepth (flagText p.clearDepth)]
      (At plan (.pass { q with clearDepth := p.clearDepth })) :=
    .flag (fun v => .pass { q with clearDepth := v }) (fun _ => rfl) p.clearDepth
  have writeDepth (q : Pass) : Leads (At plan (.pass q))
      [lineText true .writeDepth (flagText p.writeDepth)]
      (At plan (.pass { q with writeDepth := p.writeDepth })) :=
    .flag (fun v => .pass { q with writeDepth := v }) (fun _ => rfl) p.writeDepth
  have clearOutputs (q : Pass) : Leads (At plan (.pass q))
      [lineText true .clearOutputs (flagText p.clearOutputs)]
      (At plan (.pass { q with clearOutputs := p.clearOutputs })) :=
    .flag (fun v => .pass { q with clearOutputs := v }) (fun _ => rfl) p.clearOutputs
  have inputs (q : Pass) : Leads (At plan (.pass q))
      [lineText true .inputs (listText ',' (p.inputs.map inputText))]
      (At plan (.pass { q with inputs := p.inputs })) := by
    refine .list (by decide) ?_ ?_ fun _ => rfl
    · exact List.forall_mem_map.mpr fun i hi => isEntry_inputText (h.inputs i hi)
    · simp only [ListField.fill, readInputs_entriesText h.inputs]
      rfl
  have settings := (((opener.append (shader _)).append (draw _)).append (clearDepth _)).append
    ((writeDepth _).append ((clearOutputs _).append (depthTest _)))
  refine ((settings.append (inputs _)).append (leads_outputsLines h plan rfl rfl)).weaken ?_
  rintro s rfl
  exact ⟨plan, .pass p, rfl, rfl⟩

/-- The lines of a body. -/
def bodyLines (body : String) : List (List Char) := (pieces (· == '\n') body.toList).dropLast

def fence : List Char := [fenceMark, fenceMark, fenceMark]

def stageLines (stage : Stage) (body : String) : List (List Char) :=
  lineText true stage.keyword [] :: lineText true .source fence :: (bodyLines body ++ [fence])

def shaderLines (s : Shader) : List (List Char) :=
  [lineText false .shader s.name.toList,
   lineText true .attributes (listText ',' (s.attributes.map variableText)),
   lineText true .uniforms (listText ',' (s.uniforms.map variableText)),
   lineText true .varying (listText ',' (s.varyings.map variableText))] ++
    (stageLines .vertex s.vertexBody ++ stageLines .fragment s.fragmentBody)

/-- Where a shader is known that has no stage, or one with a source. -/
def AtShader (plan : Plan) (s : Shader) (t : State) : Prop :=
  ∃ st, t = .inBlock plan (.shader s st) ∧ closeStage st = .ok ()

/-- Where the source of a stage has been captured as far as the given lines, the last one first. -/
def AtBody (plan : Plan) (s : Shader) (stage : Stage) (captured : List (List Char)) (t : State) :
    Prop :=
  ∃ opened n, t = ⟨plan, .body s { stage := stage, line := opened } n captured⟩

theorem leads_body {plan : Plan} {s : Shader} {stage : Stage} {ls : List (List Char)}
    (h : ∀ l ∈ ls, '\n' ∉ l ∧ isFence l = false) :
    Leads (AtBody plan s stage []) ls (AtBody plan s stage ls.reverse) where
  lines l hl := (h l hl).1
  run := by
    rintro t ⟨opened, m, rfl⟩ n
    refine ⟨_, feedAll_body fun l hl => (h l hl).2, opened, m, ?_⟩
    rw [List.append_nil]

/-- The lines of a body are captured as the body. -/
theorem bodyText_bodyLines {body : String} (h : IsBody body) :
    (∀ l ∈ bodyLines body, '\n' ∉ l ∧ isFence l = false) ∧
      bodyText (bodyLines body).reverse = body.toList := by
  obtain ⟨ls, hbody, hls⟩ := isBody_iff.mp h
  have hlines : bodyLines body = ls := by
    have hsep : ∀ l ∈ ls, ∀ c ∈ l, (c == '\n') = false := by
      intro l hl c hc
      simpa using ne_of_mem_of_not_mem hc (hls l hl).1
    rw [bodyLines, hbody, pieces_flatMap_ended (by rfl) hsep, List.dropLast_concat]
  refine ⟨hlines ▸ hls, ?_⟩
  rw [hlines, bodyText, List.reverse_reverse, ← hbody]

/-- A written stage gives the shader its body. -/
theorem leads_stageLines {body : String} (h : IsBody body) (plan : Plan) (s : Shader)
    (stage : Stage) :
    Leads (AtShader plan s) (stageLines stage body)
      (AtShader plan (withBody s stage body.toList)) := by
  obtain ⟨hlines, hbody⟩ := bodyText_bodyLines h
  have opener : Leads (AtShader plan s) [lineText true stage.keyword []]
      (fun t => ∃ n, t = .inBlock plan (.shader s (some { stage := stage, line := n }))) := by
    refine .field ⟨rfl, by simp⟩ ?_
    rintro t ⟨st, rfl, hst⟩
    refine ⟨plan, _, rfl, fun n => ⟨_, ?_, n, rfl⟩⟩
    cases stage <;>
      simp [Stage.keyword, blockField, newBlock?, shaderField, stageField, hst] <;> rfl
  have source : Leads
      (fun t => ∃ n, t = .inBlock plan (.shader s (some { stage := stage, line := n })))
      [lineText true .source fence] (AtBody plan s stage []) := by
    refine .field ⟨by decide, by decide⟩ ?_
    rintro t ⟨opened, rfl⟩
    exact ⟨plan, _, rfl, fun n => ⟨_, rfl, opened, n, rfl⟩⟩
  have close : Leads (AtBody plan s stage (bodyLines body).reverse) [fence]
      (AtShader plan (withBody s stage body.toList)) := by
    refine .single (by decide) ?_
    rintro t ⟨opened, m, rfl⟩ n
    have hend : State.feed ⟨plan, .body s { stage := stage, line := opened } m
        (bodyLines body).reverse⟩ ⟨n, fence⟩
        = .ok (.inBlock plan (.shader (withBody s stage (bodyText (bodyLines body).reverse))
          (some { stage := stage, line := opened, hasSource := true }))) := rfl
    rw [hbody] at hend
    exact ⟨_, hend, _, rfl, rfl⟩
  exact opener.append (source.append ((leads_body hlines).append close))

/-- A list of variables that goes into the open block. -/
theorem Leads.variables {plan : Plan} {block : Block} {k : Keyword} {field : ListField}
    (g : List Variable → Block) (h : ∀ f, blockField plan block f k = listField plan field f)
    (hfill : ∀ inner, field.fill inner = (readVariables inner).map g) {vs : List Variable}
    (hv : ∀ v ∈ vs, v.WellFormed) :
    Leads (At plan block) [lineText true k (listText ',' (vs.map variableText))]
      (At plan (g vs)) := by
  refine .list (by decide) ?_ ?_ h
  · exact List.forall_mem_map.mpr fun v hmem => isEntry_variableText (hv v hmem)
  · rw [hfill, readVariables_entriesText hv]
    rfl

/-- A written shader is read behind the blocks before it. -/
theorem leads_shaderLines {s : Shader} (h : s.WellFormed) (p : Plan) :
    Leads (Holds p) (shaderLines s) (Holds { p with shaders := p.shaders ++ [s] }) := by
  have opener : Leads (Holds p) [lineText false .shader s.name.toList]
      (At p (.shader { name := s.name } none)) := .opener h.name rfl
  have attributes : Leads (At p (.shader { name := s.name } none))
      [lineText true .attributes (listText ',' (s.attributes.map variableText))]
      (At p (.shader { name := s.name, attributes := s.attributes } none)) :=
    .variables (fun vs => .shader { name := s.name, attributes := vs } none) (fun _ => rfl)
      (fun _ => rfl) h.attributes
  have uniforms : Leads (At p (.shader { name := s.name, attributes := s.attributes } none))
      [lineText true .uniforms (listText ',' (s.uniforms.map variableText))]
      (At p (.shader { name := s.name, attributes := s.attributes, uniforms := s.uniforms }
        none)) :=
    .variables (fun vs => .shader
      { name := s.name, attributes := s.attributes, uniforms := vs } none) (fun _ => rfl)
      (fun _ => rfl) h.uniforms
  have varyings : Leads
      (At p (.shader { name := s.name, attributes := s.attributes, uniforms := s.uniforms } none))
      [lineText true .varying (listText ',' (s.varyings.map variableText))]
      (At p (.shader { s with vertexBody := "", fragmentBody := "" } none)) :=
    .variables (fun vs => .shader
      { s with vertexBody := "", fragmentBody := "", varyings := vs } none) (fun _ => rfl)
      (fun _ => rfl) h.varyings
  have lists := (opener.append (attributes.append (uniforms.append varyings))).weaken
    (R := AtShader p { s with vertexBody := "", fragmentBody := "" })
    fun t ht => ⟨none, ht, rfl⟩
  have vertex := leads_stageLines h.vertexBody p { s with vertexBody := "", fragmentBody := "" }
    .vertex
  have fragment := leads_stageLines h.fragmentBody p { s with fragmentBody := "" } .fragment
  simp only [withBody, String.ofList_toList] at vertex fragment
  refine (lists.append (vertex.append fragment)).weaken ?_
  rintro t ⟨st, rfl, hst⟩
  exact ⟨p, _, rfl, by rw [closeBlock, hst]; rfl⟩

def planLines (p : Plan) : List (List Char) :=
  [lineText false .name p.name.toList, lineText false .version p.version.toList] ++
    (p.buffers.flatMap bufferLines ++ (p.passes.flatMap passLines ++
      (p.shaders.flatMap shaderLines ++ p.textures.flatMap textureLines)))

/-- The description of a plan. -/
def describe (p : Plan) : String := String.ofList (unlinesReturn (planLines p))

theorem leads_planLines {p : Plan} (h : p.WellFormed) :
    Leads (At {} .root) (planLines p) (Holds p) := by
  have name : Leads (At {} .root) [lineText false .name p.name.toList]
      (At { name := p.name } .root) := by
    refine .setting h.name fun n => ?_
    simp [blockField, newBlock?, rootField, Field.text]
  have version : Leads (At { name := p.name } .root) [lineText false .version p.version.toList]
      (Holds { name := p.name, version := p.version }) := by
    refine .field h.version ?_
    rintro s rfl
    refine ⟨_, _, rfl, fun n => ⟨.inBlock { name := p.name, version := p.version } .root, ?_, ?_⟩⟩
    · simp [blockField, newBlock?, rootField, Field.text]
    · exact ⟨_, _, rfl, rfl⟩
  have buffers := Leads.flatMap (f := bufferLines)
    (P := fun bs => Holds { name := p.name, version := p.version, buffers := bs })
    (fun b hb before => leads_bufferLines (h.buffers b hb) _) []
  have passes := Leads.flatMap (f := passLines)
    (P := fun qs => Holds { name := p.name, version := p.version, buffers := p.buffers,
                            passes := qs })
    (fun q hq before => leads_passLines (h.passes q hq) _) []
  have shaders := Leads.flatMap (f := shaderLines)
    (P := fun ss => Holds { p with shaders := ss, textures := [] })
    (fun s hs before => leads_shaderLines (h.shaders s hs) _) []
  have textures := Leads.flatMap (f := textureLines)
    (P := fun ts => Holds { p with textures := ts })
    (fun t ht before => leads_textureLines (h.textures t ht) _) []
  exact (name.append version).append (buffers.append (passes.append (shaders.append textures)))

/-- Every well-formed plan is read back from its description. -/
theorem read_describe {p : Plan} (h : p.WellFormed) : read (describe p) = .ok p := by
  have hp := leads_planLines h
  obtain ⟨s, hs, plan, block, rfl, hclose⟩ := hp.run _ rfl 1
  have hlines : linesOf (describe p).toList = numberFrom 1 (planLines p) := by
    rw [describe, String.toList_ofList, linesOf, lines_unlinesReturn hp.lines]
  have hrun : State.initial.feedAll (linesOf (describe p).toList) = .ok (.inBlock plan block) := by
    rw [hlines]
    exact hs
  exact read_eq_ok_iff.mpr ⟨_, hrun, hclose⟩

/-- A plan whose texts look like marks of the language: an attachment called `scale`, names that
start with a dash or a bracket, a source of a variable that looks like an arrow, and a body with a
line that ends with a carriage return. -/
def markedPlan : Plan :=
  { name := "- ]"
    buffers := [{ name := "b: [", textures := [{ name := "scale", path := none }] }]
    passes := [{ name := "p", outputBuffer := "-", outputTextures := ["[.", "-"],
                 inputs := [⟨"-", "["⟩] }]
    shaders := [{ name := "s", fragmentBody := "\r\n  - ]\n\n",
                  attributes := [⟨"-[", .unknown, "<-"⟩] }]
    textures := [{ name := "x", path := some "" }] }

theorem read_describe_markedPlan :
    markedPlan.WellFormed ∧ read (describe markedPlan) = .ok markedPlan := by
  have h : markedPlan.WellFormed := by decide +kernel
  exact ⟨h, read_describe h⟩

end RenderPlan.Description
