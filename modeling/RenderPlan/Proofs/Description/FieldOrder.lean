import RenderPlan.Proofs.Description.Passage
/-!
The order of fields. Each value of a buffer, a pass or a texture comes of the last group of one
keyword, and groups of other keywords do not matter to it. So the groups of such a block may stand
in any order that keeps the order of those of one keyword: whatever a group reads ahead to find the
end of its list, no group begins as a list does.
-/
namespace RenderPlan.Description

open RenderPlan.Text

/-- The groups of a keyword. -/
def groupsOf (k : Keyword) (gs : List Group) : List Group := gs.filter fun g => g.keyword == k

/-- The value that the last group of a keyword gives, or the one before if there is none. -/
inductive LastWins {β : Type} (k : Keyword) (gives : Group → β → Prop) (gs : List Group)
    (before : β) : β → Prop
  | none (h : groupsOf k gs = []) : LastWins k gives gs before before
  | last {g : Group} {v : β} (h : (groupsOf k gs).getLast? = some g) (hv : gives g v) :
      LastWins k gives gs before v

namespace LastWins

variable {β : Type} {k : Keyword} {gives : Group → β → Prop} {g : Group} {gs hs : List Group}
  {d v w : β}

theorem nil : LastWins k gives [] d d := .none rfl

theorem cons_ne (h : LastWins k gives gs d v) (hk : g.keyword ≠ k) :
    LastWins k gives (g :: gs) d v := by
  have hgs : groupsOf k (g :: gs) = groupsOf k gs := List.filter_cons_of_neg (by simpa using hk)
  cases h with
  | none h => exact .none (hgs.trans h)
  | last h hv => exact .last (hgs ▸ h) hv

theorem cons_self (h : LastWins k gives gs w v) (hk : g.keyword = k) (hg : gives g w) :
    LastWins k gives (g :: gs) d v := by
  have hgs : groupsOf k (g :: gs) = g :: groupsOf k gs :=
    List.filter_cons_of_pos (by simpa using hk)
  cases h with
  | none h => exact .last (g := g) (by rw [hgs, h]; rfl) hg
  | @last g' _ h hv => exact .last (g := g') (by rw [hgs, List.getLast?_cons, h]; rfl) hv

/-- A group gives the value or leaves it as it is. -/
theorem cons (hg : g.keyword = k ∧ gives g w ∨ g.keyword ≠ k ∧ w = d)
    (h : LastWins k gives gs w v) : LastWins k gives (g :: gs) d v := by
  rcases hg with ⟨hk, hg⟩ | ⟨hk, rfl⟩
  · exact h.cons_self hk hg
  · exact h.cons_ne hk

/-- Groups of other keywords do not matter. -/
theorem unique (hgives : ∀ g v w, gives g v → gives g w → v = w)
    (hgs : groupsOf k gs = groupsOf k hs) (h : LastWins k gives gs d v)
    (h' : LastWins k gives hs d w) : v = w := by
  cases h with
  | none h =>
    cases h' with
    | none _ => rfl
    | last h' _ =>
      rw [← hgs, h] at h'
      cases h'
  | last h hv =>
    cases h' with
    | none h' =>
      rw [hgs, h'] at h
      cases h
    | last h' hw =>
      rw [hgs, h'] at h
      cases h
      exact hgives _ _ _ hv hw

end LastWins

/-- What a list field gives that is read in one way. -/
def Group.GivesList {β : Type} (read : List Char → Except (List Char) β) (g : Group) (v : β) :
    Prop :=
  ∃ inner, g.content = .list inner ∧ read inner = .ok v

/-- An `outputs` field gives a buffer and its textures; there are none without a list. -/
def Group.GivesOutputs (g : Group) (v : String × List String) : Prop :=
  ∃ buffer inner, g.content = .outputs buffer inner ∧
    v = (String.ofList buffer, inner.elim [] readOutputs)

/-- The buffer that groups make of another. -/
structure BufferFrom (gs : List Group) (a b : Buffer) : Prop where
  name : b.name = a.name
  hasDepth : LastWins .hasDepth (fun g v => g.field.flag = .ok v) gs a.hasDepth b.hasDepth
  textures : LastWins .textures (Group.GivesList readAttachments) gs a.textures b.textures

/-- The pass that groups make of another. -/
structure PassFrom (gs : List Group) (a b : Pass) : Prop where
  name : b.name = a.name
  shader : LastWins .shader (fun g v => g.field.text = v) gs a.shader b.shader
  draw : LastWins .draw (fun g v => DrawMode.ofText? g.field.text = some v) gs a.draw b.draw
  clearDepth : LastWins .clearDepth (fun g v => g.field.flag = .ok v) gs a.clearDepth b.clearDepth
  writeDepth : LastWins .writeDepth (fun g v => g.field.flag = .ok v) gs a.writeDepth b.writeDepth
  clearOutputs : LastWins .clearOutputs (fun g v => g.field.flag = .ok v) gs
    a.clearOutputs b.clearOutputs
  depthTest : LastWins .depthTest (fun g v => DepthTest.ofText? g.field.text = some v) gs
    a.depthTest b.depthTest
  inputs : LastWins .inputs (Group.GivesList readInputs) gs a.inputs b.inputs
  outputs : LastWins .outputs Group.GivesOutputs gs (a.outputBuffer, a.outputTextures)
    (b.outputBuffer, b.outputTextures)

/-- The texture that groups make of another. -/
structure TextureFrom (gs : List Group) (a b : Texture) : Prop where
  name : b.name = a.name
  path : LastWins .path (fun g v => some g.field.text = v) gs a.path b.path
  format : LastWins .format (fun g v => TexelFormat.ofText? g.field.text = some v) gs
    a.format b.format
  scale : LastWins .scale (fun g v => Scale.read? g.field.value = some v) gs a.scale b.scale

/-- The block that groups make of one without stages. -/
inductive BlockFrom (gs : List Group) : Block → Block → Prop
  | buffer {a b : Buffer} (h : BufferFrom gs a b) : BlockFrom gs (.buffer a) (.buffer b)
  | pass {a b : Pass} (h : PassFrom gs a b) : BlockFrom gs (.pass a) (.pass b)
  | texture {a b : Texture} (h : TextureFrom gs a b) : BlockFrom gs (.texture a) (.texture b)

/-- The keyword of a block without stages. -/
def Block.flat? : Block → Option Keyword
  | .buffer _ => some .buffer
  | .pass _ => some .pass
  | .texture _ => some .texture
  | _ => none

theorem blockFrom_nil {block : Block} (h : block.flat?.isSome) : BlockFrom [] block block := by
  cases block with
  | buffer b => exact .buffer ⟨rfl, .nil, .nil⟩
  | pass p => exact .pass ⟨rfl, .nil, .nil, .nil, .nil, .nil, .nil, .nil, .nil⟩
  | texture t => exact .texture ⟨rfl, .nil, .nil, .nil⟩
  | root | shader => cases h

section Takes

variable {g : Group} {gs : List Group}

theorem bufferFrom_cons {a : Buffer} {block block' : Block} (ht : Takes g (.buffer a) block)
    (h : BlockFrom gs block block') : BlockFrom (g :: gs) (.buffer a) block' := by
  cases ht with
  | sets hs hc =>
    generalize hk : g.keyword = k at hs
    cases hs with
    | hasDepth _ hv =>
      cases h with
      | buffer h =>
        exact .buffer ⟨h.name, h.hasDepth.cons_self hk hv, h.textures.cons_ne (by simp [hk])⟩
  | list hl hc hf =>
    generalize hk : g.keyword = k at hl
    cases hl with
    | textures =>
      obtain ⟨ts, hread, rfl⟩ := exists_of_map_eq_ok hf
      cases h with
      | buffer h =>
        exact .buffer ⟨h.name, h.hasDepth.cons_ne (by simp [hk]),
          h.textures.cons_self hk ⟨_, hc, hread⟩⟩

theorem passFrom_cons {a : Pass} {block block' : Block} (ht : Takes g (.pass a) block)
    (h : BlockFrom gs block block') : BlockFrom (g :: gs) (.pass a) block' := by
  cases ht with
  | sets hs hc =>
    generalize hk : g.keyword = k at hs
    cases hs <;> cases h with | pass h =>
      exact .pass ⟨h.name, .cons (by simp [*]) h.shader, .cons (by simp [*]) h.draw,
        .cons (by simp [*]) h.clearDepth, .cons (by simp [*]) h.writeDepth,
        .cons (by simp [*]) h.clearOutputs, .cons (by simp [*]) h.depthTest,
        .cons (by simp [*]) h.inputs, .cons (by simp [*]) h.outputs⟩
  | list hl hc hf =>
    generalize hk : g.keyword = k at hl
    cases hl with
    | inputs =>
      obtain ⟨is, hread, rfl⟩ := exists_of_map_eq_ok hf
      cases h with
      | pass h =>
        exact .pass ⟨h.name, h.shader.cons_ne (by simp [hk]), h.draw.cons_ne (by simp [hk]),
          h.clearDepth.cons_ne (by simp [hk]), h.writeDepth.cons_ne (by simp [hk]),
          h.clearOutputs.cons_ne (by simp [hk]), h.depthTest.cons_ne (by simp [hk]),
          h.inputs.cons_self hk ⟨_, hc, hread⟩, h.outputs.cons_ne (by simp [hk])⟩
  | outputs _ hk hc =>
    cases h with
    | pass h =>
      exact .pass ⟨h.name, h.shader.cons_ne (by simp [hk]), h.draw.cons_ne (by simp [hk]),
        h.clearDepth.cons_ne (by simp [hk]), h.writeDepth.cons_ne (by simp [hk]),
        h.clearOutputs.cons_ne (by simp [hk]), h.depthTest.cons_ne (by simp [hk]),
        h.inputs.cons_ne (by simp [hk]), h.outputs.cons_self hk ⟨_, _, hc, rfl⟩⟩

theorem textureFrom_cons {a : Texture} {block block' : Block} (ht : Takes g (.texture a) block)
    (h : BlockFrom gs block block') : BlockFrom (g :: gs) (.texture a) block' := by
  cases ht with
  | sets hs hc =>
    generalize hk : g.keyword = k at hs
    cases hs <;> cases h with | texture h =>
      exact .texture ⟨h.name, .cons (by simp [*]) h.path, .cons (by simp [*]) h.format,
        .cons (by simp [*]) h.scale⟩
  | list hl hc hf => generalize g.keyword = k at hl; cases hl

/-- A group of a block without stages gives one value and leaves the others as they are. -/
theorem blockFrom_cons {block block' block'' : Block} (hb : block.flat?.isSome)
    (ht : Takes g block block') (h : BlockFrom gs block' block'') :
    BlockFrom (g :: gs) block block'' := by
  cases block with
  | buffer a => exact bufferFrom_cons ht h
  | pass a => exact passFrom_cons ht h
  | texture a => exact textureFrom_cons ht h
  | root | shader => cases hb

end Takes

section Unique

variable {gs hs : List Group} (hgs : ∀ k, groupsOf k gs = groupsOf k hs)

theorem flag_unique (g : Group) (v w : Bool) (hv : g.field.flag = .ok v)
    (hw : g.field.flag = .ok w) : v = w := Except.ok.inj (hv.symm.trans hw)

theorem text_unique {β : Type} {read : Group → Option β} (g : Group) (v w : β)
    (hv : read g = some v) (hw : read g = some w) : v = w := Option.some.inj (hv.symm.trans hw)

theorem givesList_unique {β : Type} {read : List Char → Except (List Char) β} (g : Group)
    (v w : β) (hv : g.GivesList read v) (hw : g.GivesList read w) : v = w := by
  obtain ⟨inner, hc, hv⟩ := hv
  obtain ⟨inner', hc', hw⟩ := hw
  cases hc.symm.trans hc'
  exact Except.ok.inj (hv.symm.trans hw)

theorem givesOutputs_unique (g : Group) (v w : String × List String) (hv : g.GivesOutputs v)
    (hw : g.GivesOutputs w) : v = w := by
  obtain ⟨buffer, inner, hc, rfl⟩ := hv
  obtain ⟨buffer', inner', hc', rfl⟩ := hw
  cases hc.symm.trans hc'
  rfl

include hgs

theorem BufferFrom.unique {a b c : Buffer} (h : BufferFrom gs a b) (h' : BufferFrom hs a c) :
    b = c := by
  have hname := h.name.trans h'.name.symm
  have hdepth := h.hasDepth.unique flag_unique (hgs _) h'.hasDepth
  have htextures := h.textures.unique givesList_unique (hgs _) h'.textures
  cases b
  cases c
  simp_all

theorem PassFrom.unique {a b c : Pass} (h : PassFrom gs a b) (h' : PassFrom hs a c) : b = c := by
  have hname := h.name.trans h'.name.symm
  have hshader := h.shader.unique (fun _ _ _ hv hw => hv.symm.trans hw) (hgs _) h'.shader
  have hdraw := h.draw.unique text_unique (hgs _) h'.draw
  have hclear := h.clearDepth.unique flag_unique (hgs _) h'.clearDepth
  have hwrite := h.writeDepth.unique flag_unique (hgs _) h'.writeDepth
  have houts := h.clearOutputs.unique flag_unique (hgs _) h'.clearOutputs
  have htest := h.depthTest.unique text_unique (hgs _) h'.depthTest
  have hinputs := h.inputs.unique givesList_unique (hgs _) h'.inputs
  have houtputs := h.outputs.unique givesOutputs_unique (hgs _) h'.outputs
  cases b
  cases c
  simp_all

theorem TextureFrom.unique {a b c : Texture} (h : TextureFrom gs a b) (h' : TextureFrom hs a c) :
    b = c := by
  have hname := h.name.trans h'.name.symm
  have hpath := h.path.unique (fun _ _ _ hv hw => hv.symm.trans hw) (hgs _) h'.path
  have hformat := h.format.unique text_unique (hgs _) h'.format
  have hscale := h.scale.unique text_unique (hgs _) h'.scale
  cases b
  cases c
  simp_all

/-- What groups make of a block does not depend on how those of different keywords are mixed. -/
theorem BlockFrom.unique {a b c : Block} (h : BlockFrom gs a b) (h' : BlockFrom hs a c) :
    b = c := by
  cases h with
  | buffer h =>
    cases h' with
    | buffer h' => rw [h.unique hgs h']
  | pass h =>
    cases h' with
    | pass h' => rw [h.unique hgs h']
  | texture h =>
    cases h' with
    | texture h' => rw [h.unique hgs h']

end Unique

/-- What groups do to a block one after the other. -/
inductive TakesAll : Block → List Group → Block → Prop
  | nil (block : Block) : TakesAll block [] block
  | cons {block block' block'' : Block} {g : Group} {gs : List Group} (h : Takes g block block')
      (hs : TakesAll block' gs block'') : TakesAll block (g :: gs) block''

theorem flat?_of_takes {g : Group} {a b : Block} (h : Takes g a b) : b.flat? = a.flat? := by
  cases h with
  | sets hs hc =>
    generalize g.keyword = k at hs
    cases hs <;> rfl
  | list hl hc hf =>
    generalize g.keyword = k at hl
    cases hl <;> obtain ⟨_, _, rfl⟩ := exists_of_map_eq_ok hf <;> rfl
  | outputs => rfl
  | source => rfl

section Kind

variable {a a' b : Block} (ha : a.flat?.isSome) (hab : b.flat? = a.flat?)

include ha hab

theorem exists_sets {f : Field} {k : Keyword} (h : Sets f a k a') : ∃ b', Sets f b k b' := by
  cases h with
  | hasDepth _ hv =>
    cases b with
    | buffer b => exact ⟨_, .hasDepth b hv⟩
    | _ => cases hab
  | shader | draw | clearDepth | writeDepth | clearOutputs | depthTest =>
    cases b with
    | pass b => exact ⟨_, by constructor <;> assumption⟩
    | _ => cases hab
  | path | format | scale =>
    cases b with
    | texture b => exact ⟨_, by constructor <;> assumption⟩
    | _ => cases hab
  | vertexStage | fragmentStage => cases ha

/-- A group that a block takes, every other block of the kind takes as well. -/
theorem exists_takes {g : Group} (h : Takes g a a') : ∃ b', Takes g b b' := by
  cases h with
  | sets hs hc =>
    obtain ⟨b', hs'⟩ := exists_sets ha hab hs
    exact ⟨b', .sets hs' hc⟩
  | list hl hc hf =>
    generalize hk : g.keyword = k at hl
    cases hl with
    | textures a =>
      cases b with
      | buffer b =>
        obtain ⟨ts, hread, rfl⟩ := exists_of_map_eq_ok hf
        have hfill : ListField.fill _ (.attachments b) = .ok (.buffer { b with textures := ts }) :=
          map_eq_ok_iff.mpr ⟨ts, hread, rfl⟩
        exact ⟨_, .list (hk ▸ .textures b) hc hfill⟩
      | _ => cases hab
    | inputs a =>
      cases b with
      | pass b =>
        obtain ⟨is, hread, rfl⟩ := exists_of_map_eq_ok hf
        have hfill : ListField.fill _ (.inputs b) = .ok (.pass { b with inputs := is }) :=
          map_eq_ok_iff.mpr ⟨is, hread, rfl⟩
        exact ⟨_, .list (hk ▸ .inputs b) hc hfill⟩
      | _ => cases hab
    | attributes | uniforms | varyings => cases ha
  | outputs p hk hc =>
    cases b with
    | pass b => exact ⟨_, .outputs b hk hc⟩
    | _ => cases hab
  | source => cases ha

end Kind

/-- Groups that a kind of block takes one by one, every block of the kind takes in any order. -/
theorem exists_takesAll {gs : List Group} {a : Block} (ha : a.flat?.isSome)
    (h : ∀ g ∈ gs, ∃ b b', Takes g b b' ∧ b.flat? = a.flat?) : ∃ a', TakesAll a gs a' := by
  induction gs generalizing a with
  | nil => exact ⟨a, .nil a⟩
  | cons g gs ih =>
    obtain ⟨⟨b, b', htakes, hkind⟩, hgs⟩ := List.forall_mem_cons.mp h
    obtain ⟨a', ha'⟩ := exists_takes (hkind ▸ ha) hkind.symm htakes
    have hsame := flat?_of_takes ha'
    obtain ⟨a'', hall⟩ := ih (hsame ▸ ha) (hsame ▸ hgs)
    exact ⟨a'', .cons ha' hall⟩

theorem blockFrom_of_takesAll {gs : List Group} {a b : Block} (ha : a.flat?.isSome)
    (h : TakesAll a gs b) : BlockFrom gs a b := by
  induction h with
  | nil block => exact blockFrom_nil ha
  | cons ht _ ih => exact blockFrom_cons ha ht (ih (flat?_of_takes ht ▸ ha))

theorem TakesAll.exists_takes_of_mem {gs : List Group} {a b : Block} (h : TakesAll a gs b) :
    ∀ g ∈ gs, ∃ c c', Takes g c c' ∧ c.flat? = a.flat? := by
  induction h with
  | nil => simp
  | cons ht _ ih =>
    refine List.forall_mem_cons.mpr ⟨⟨_, _, ht, rfl⟩, ?_⟩
    rwa [flat?_of_takes ht] at ih

/-- Groups may be taken in any order that keeps the order of those of one keyword. -/
theorem TakesAll.reorder {gs hs : List Group} {a b : Block} (ha : a.flat?.isSome)
    (h : TakesAll a gs b) (hgs : ∀ k, groupsOf k gs = groupsOf k hs) : TakesAll a hs b := by
  have hmem : ∀ g ∈ hs, g ∈ gs := by
    intro g hg
    have hk : g ∈ groupsOf g.keyword hs := List.mem_filter.mpr ⟨hg, beq_self_eq_true _⟩
    rw [← hgs] at hk
    exact (List.mem_filter.mp hk).1
  obtain ⟨b', hb'⟩ := exists_takesAll ha fun g hg => h.exists_takes_of_mem g (hmem g hg)
  rwa [(blockFrom_of_takesAll ha h).unique hgs (blockFrom_of_takesAll ha hb')]

def Block.buffer? : Block → Option Buffer
  | .buffer b => some b
  | _ => none

def Block.pass? : Block → Option Pass
  | .pass p => some p
  | _ => none

def Block.texture? : Block → Option Texture
  | .texture t => some t
  | _ => none

/-- Blocks without stages, added to a plan in order. -/
structure Adds (plan : Plan) (blocks : List Block) (p : Plan) : Prop where
  buffers : p.buffers = plan.buffers ++ blocks.filterMap Block.buffer?
  passes : p.passes = plan.passes ++ blocks.filterMap Block.pass?
  textures : p.textures = plan.textures ++ blocks.filterMap Block.texture?

theorem Adds.trans {plan plan' p : Plan} {xs ys : List Block} (h : Adds plan xs plan')
    (h' : Adds plan' ys p) : Adds plan (xs ++ ys) p := by
  constructor
  · rw [h'.buffers, h.buffers, List.filterMap_append, List.append_assoc]
  · rw [h'.passes, h.passes, List.filterMap_append, List.append_assoc]
  · rw [h'.textures, h.textures, List.filterMap_append, List.append_assoc]

theorem adds_of_closeBlock {plan p : Plan} {block : Block} (h : closeBlock plan block = .ok p) :
    Adds plan [block] p := by
  cases block with
  | shader s st =>
    obtain ⟨_, -, rfl⟩ := exists_of_map_eq_ok h
    constructor <;> simp [Block.buffer?, Block.pass?, Block.texture?]
  | root | buffer b | pass q | texture t =>
    cases h
    constructor <;> simp [Block.buffer?, Block.pass?, Block.texture?]

/-- The block that comes of a section. -/
def Makes (b : Section) (x : Block) : Prop :=
  ∃ next, newBlock? b.opener.field.text b.opener.keyword = some next ∧ x.flat? = next.flat? ∧
    (next.flat?.isSome → BlockFrom b.fields next x)

/-- A plan has the blocks that come of the sections of its text, in order. The induction is on
the groups; the block that is open owns those up to the next opener. -/
theorem blocks_of_builds {plan p : Plan} {block : Block} {gs : List Group}
    (h : Builds plan block gs p) :
    ∃ x xs, Adds plan (x :: xs) p ∧ x.flat? = block.flat? ∧
      (block.flat?.isSome → BlockFrom (sections block.isPass gs).1 block x) ∧
      List.Forall₂ Makes (sections block.isPass gs).2 xs := by
  induction h with
  | @close _ _ block h => exact ⟨block, [], adds_of_closeBlock h, rfl, blockFrom_nil, .nil⟩
  | @step plan plan' p block block' g gs h _ ih =>
    obtain ⟨x, xs, hadds, hflat, hfrom, hmakes⟩ := ih
    cases h with
    | name hk | version hk =>
      have hopens : g.opens false = false := by simp [Group.opens, hk, Keyword.opensBlock]
      refine ⟨x, xs, ⟨hadds.buffers, hadds.passes, hadds.textures⟩, hflat, ?_, ?_⟩
      · rintro ⟨⟩
      · simpa [sections, Block.isPass, hopens] using hmakes
    | opens ho hn hc =>
      rw [opensBlockIn_eq_opens] at ho
      rw [isPass_of_newBlock? hn] at hfrom hmakes
      refine ⟨block, x :: xs, (adds_of_closeBlock hc).trans hadds, rfl, ?_, ?_⟩
      · simpa [sections, ho] using blockFrom_nil
      · simp only [sections, ho, if_true]
        exact .cons ⟨_, hn, hflat, hfrom⟩ hmakes
    | field ho ht =>
      rw [opensBlockIn_eq_opens] at ho
      rw [(kind_of_takes ht).1] at hfrom hmakes
      rw [flat?_of_takes ht] at hfrom hflat
      refine ⟨x, xs, hadds, hflat, ?_, ?_⟩
      · simpa [sections, ho] using fun hb => blockFrom_cons hb ht (hfrom hb)
      · simpa [sections, ho] using hmakes

def DeclaresBuffer (b : Section) (x : Buffer) : Prop :=
  BufferFrom b.fields { name := b.opener.field.text } x

def DeclaresPass (b : Section) (x : Pass) : Prop :=
  PassFrom b.fields { name := b.opener.field.text } x

def DeclaresTexture (b : Section) (x : Texture) : Prop :=
  TextureFrom b.fields { name := b.opener.field.text } x

/-- What a section declares, by its keyword. -/
inductive Declared (b : Section) : Keyword → Block → Prop
  | buffer {x : Buffer} (h : DeclaresBuffer b x) : Declared b .buffer (.buffer x)
  | pass {x : Pass} (h : DeclaresPass b x) : Declared b .pass (.pass x)
  | texture {x : Texture} (h : DeclaresTexture b x) : Declared b .texture (.texture x)
  | shader {x : Block} (h : x.flat? = none) : Declared b .shader x

theorem declared_of_makes {b : Section} {x : Block} (h : Makes b x) :
    Declared b b.opener.keyword x := by
  obtain ⟨next, hnext, hflat, hfrom⟩ := h
  generalize b.opener.keyword = k at hnext ⊢
  cases k <;> cases hnext
  case shader => exact .shader hflat
  all_goals
    cases hfrom rfl
    constructor
    assumption

/-- The sections of a keyword and the blocks that come of them. -/
theorem forall₂_sectionsOf {β : Type} {k : Keyword} {select : Block → Option β}
    {declares : Section → β → Prop} {bs : List Section} {xs : List Block}
    (hs : List.Forall₂ Makes bs xs)
    (h : ∀ b k' x, Declared b k' x →
      k' = k ∧ (∃ y, select x = some y ∧ declares b y) ∨ k' ≠ k ∧ select x = none) :
    List.Forall₂ declares (bs.filter fun b => b.opener.keyword == k) (xs.filterMap select) := by
  induction hs with
  | nil => exact .nil
  | cons hb _ ih =>
    rcases h _ _ _ (declared_of_makes hb) with ⟨hk, y, hy, hd⟩ | ⟨hk, hnone⟩
    · rw [List.filter_cons_of_pos (by simpa using hk), List.filterMap_cons_some hy]
      exact .cons hd ih
    · rw [List.filter_cons_of_neg (by simpa using hk), List.filterMap_cons_none hnone]
      exact ih

/-- What the sections of a text declare, kind by kind. -/
structure DeclaresAll (gs : List Group) (p : Plan) : Prop where
  buffers : List.Forall₂ DeclaresBuffer (sectionsOf .buffer gs) p.buffers
  passes : List.Forall₂ DeclaresPass (sectionsOf .pass gs) p.passes
  textures : List.Forall₂ DeclaresTexture (sectionsOf .texture gs) p.textures

theorem select_of_flat?_eq_none {x : Block} (h : x.flat? = none) :
    x.buffer? = none ∧ x.pass? = none ∧ x.texture? = none := by
  cases x with
  | root | shader => exact ⟨rfl, rfl, rfl⟩
  | buffer | pass | texture => cases h

/-- The buffers, passes and textures of a plan are what their sections declare. -/
theorem declaresAll_of_builds {p : Plan} {gs : List Group} (h : Builds {} .root gs p) :
    DeclaresAll gs p := by
  obtain ⟨x, xs, hadds, hflat, -, hmakes⟩ := blocks_of_builds h
  obtain ⟨hbuffer, hpass, htexture⟩ := select_of_flat?_eq_none hflat
  constructor
  · rw [hadds.buffers, List.filterMap_cons_none hbuffer]
    refine forall₂_sectionsOf hmakes fun b k x hx => ?_
    cases hx with
    | buffer h => exact .inl ⟨rfl, _, rfl, h⟩
    | pass | texture => exact .inr ⟨by decide, rfl⟩
    | shader h => exact .inr ⟨by decide, (select_of_flat?_eq_none h).1⟩
  · rw [hadds.passes, List.filterMap_cons_none hpass]
    refine forall₂_sectionsOf hmakes fun b k x hx => ?_
    cases hx with
    | pass h => exact .inl ⟨rfl, _, rfl, h⟩
    | buffer | texture => exact .inr ⟨by decide, rfl⟩
    | shader h => exact .inr ⟨by decide, (select_of_flat?_eq_none h).2.1⟩
  · rw [hadds.textures, List.filterMap_cons_none htexture]
    refine forall₂_sectionsOf hmakes fun b k x hx => ?_
    cases hx with
    | texture h => exact .inl ⟨rfl, _, rfl, h⟩
    | buffer | pass => exact .inr ⟨by decide, rfl⟩
    | shader h => exact .inr ⟨by decide, (select_of_flat?_eq_none h).2.2⟩

/-- Spans in another order in which those of one keyword keep theirs. Each has its own lines; the
blank lines and comments between them may be others. -/
structure Rearranged (xs ys : List Span) : Prop where
  order : ∀ k, (ys.filter fun y => y.group.keyword == k).map (fun y => (y.lines, y.group)) =
    (xs.filter fun x => x.group.keyword == k).map fun x => (x.lines, x.group)
  gaps : ∀ y ∈ ys, ∀ l ∈ y.gap, isIgnorable l.text = true

section Rearranged

variable {xs ys : List Span} (h : Rearranged xs ys)

include h

theorem Rearranged.groupsOf_eq (k : Keyword) :
    groupsOf k (ys.map Span.group) = groupsOf k (xs.map Span.group) := by
  have hmap (zs : List Span) : groupsOf k (zs.map Span.group) =
      ((zs.filter fun z => z.group.keyword == k).map fun z => (z.lines, z.group)).map Prod.snd := by
    rw [groupsOf, List.filter_map, List.map_map]
    rfl
  rw [hmap, hmap, h.order]

theorem Rearranged.exists_of_mem : ∀ y ∈ ys, ∃ x ∈ xs, x.lines = y.lines ∧ x.group = y.group := by
  intro y hy
  have hk : (y.lines, y.group) ∈ (xs.filter fun x => x.group.keyword == y.group.keyword).map
      fun x => (x.lines, x.group) := by
    rw [← h.order]
    exact List.mem_map_of_mem (List.mem_filter.mpr ⟨hy, beq_self_eq_true _⟩)
  obtain ⟨x, hx, heq⟩ := List.mem_map.mp hk
  exact ⟨x, (List.mem_filter.mp hx).1, congrArg Prod.fst heq, congrArg Prod.snd heq⟩

end Rearranged

/-- Groups that open no block change the open one only. -/
theorem takesAll_of_groupSteps {plan plan' : Plan} {a b : Block} {gs : List Group}
    (h : GroupSteps plan a gs plan' b) (ha : a.flat?.isSome)
    (hopens : ∀ g ∈ gs, g.opens a.isPass = false) : plan' = plan ∧ TakesAll a gs b := by
  induction h with
  | nil => exact ⟨rfl, .nil _⟩
  | cons hstep _ ih =>
    obtain ⟨hg, hgs⟩ := List.forall_mem_cons.mp hopens
    cases hstep with
    | name | version => cases ha
    | opens ho =>
      rw [opensBlockIn_eq_opens, hg] at ho
      cases ho
    | field _ ht =>
      obtain ⟨rfl, htakes⟩ := ih (flat?_of_takes ht ▸ ha) (by rwa [(kind_of_takes ht).1])
      exact ⟨rfl, .cons ht htakes⟩

/-- Spans lead a reading through what their groups take, wherever they were taken from. -/
theorem exists_feedAll_of_takesAll {plan : Plan} {a b : Block} {s : State} {ys : List Span}
    (hs : Settled plan a s) (h : TakesAll a (ys.map Span.group) b)
    (hopens : ∀ y ∈ ys, y.group.opens a.isPass = false) (hstands : ∀ y ∈ ys, y.Stands)
    (hgaps : ∀ y ∈ ys, ∀ l ∈ y.gap, isIgnorable l.text = true) :
    ∃ t, s.feedAll (ys.flatMap Span.all) = .ok t ∧ Settled plan b t := by
  induction ys generalizing a s with
  | nil =>
    cases h
    exact ⟨s, rfl, hs⟩
  | cons y ys ih =>
    obtain ⟨hopen, hopens⟩ := List.forall_mem_cons.mp hopens
    obtain ⟨hstand, hstands⟩ := List.forall_mem_cons.mp hstands
    obtain ⟨hgap, hgaps⟩ := List.forall_mem_cons.mp hgaps
    cases h with
    | cons ht htakes =>
      have ho : opensBlockIn a y.group.field y.group.keyword = false :=
        (opensBlockIn_eq_opens a y.group).trans hopen
      obtain ⟨t, hfeed, ht'⟩ := hstand.exists_feedAll hs (.field ho ht)
        (fun h => by rw [ho] at h; cases h) hgap
      rw [← (kind_of_takes ht).1] at hopens
      obtain ⟨u, hfeeds, hu⟩ := ih ht' htakes hopens hstands hgaps
      refine ⟨u, ?_, hu⟩
      rw [List.flatMap_cons, State.feedAll_append, Span.all, hfeed]
      exact hfeeds

theorem flat?_of_opener {plan plan' : Plan} {a b : Block} {g : Group}
    (hk : g.keyword ∈ [Keyword.buffer, .pass, .texture]) (h : GroupStep plan a g plan' b) :
    b.flat? = some g.keyword ∧ b.isPass = (g.keyword == .pass) := by
  have hopens : g.opens a.isPass = true := by
    simp only [List.mem_cons, List.not_mem_nil, or_false] at hk
    rcases hk with hk | hk | hk <;> simp [Group.opens, hk, Keyword.opensBlock]
  cases h with
  | name hk' | version hk' =>
    rw [hk'] at hk
    exact absurd hk (by decide)
  | opens _ hn _ =>
    refine ⟨?_, isPass_of_newBlock? hn⟩
    generalize g.keyword = k at hk hn ⊢
    simp only [List.mem_cons, List.not_mem_nil, or_false] at hk
    rcases hk with rfl | rfl | rfl <;> cases hn <;> rfl
  | field ho _ =>
    rw [opensBlockIn_eq_opens, hopens] at ho
    cases ho

/-- The fields of a block without stages may be rearranged in the text. -/
theorem readLines_rearranged {ls ms : List Line} {plan : Plan} (h : readLines ls = .ok plan)
    {before fields fields' after : List Span} {opener : Span} {d : Cursor}
    (hspans : Spans ⟨ls⟩ (before ++ opener :: (fields ++ after)) d) (hd : d.peek? = none)
    (hopener : opener.group.keyword ∈ [Keyword.buffer, .pass, .texture])
    (hfields : ∀ x ∈ fields, x.group.opens (opener.group.keyword == .pass) = false)
    (hre : Rearranged fields fields')
    (hms : ms.map Line.text = ((before ++ opener :: (fields' ++ after)).flatMap Span.all
      ++ d.remaining).map Line.text) : readLines ms = .ok plan := by
  obtain ⟨c₀, hbefore, hrest⟩ := hspans.split
  have hopened : Spans c₀ ([opener] ++ (fields ++ after)) d := hrest
  obtain ⟨c₁, hopen, hrest⟩ := hopened.split
  obtain ⟨c₂, hown, hafter⟩ := hrest.split
  have hinitial : Settled {} .root State.initial := .fields .root
  obtain ⟨plan₀, block₀, s₀, -, hfeed₀, hs₀, hrun₀⟩ := hbefore.exists_feedAll_of_run hinitial h
  obtain ⟨plan₁, block₁, s₁, hstep, hfeed₁, hs₁, hrun₁⟩ := hopen.exists_feedAll_of_run hs₀ hrun₀
  obtain ⟨hflat, hpass⟩ : block₁.flat? = some opener.group.keyword ∧
      block₁.isPass = (opener.group.keyword == .pass) := by
    cases hstep with
    | cons hstep hnil =>
      cases hnil
      exact flat?_of_opener hopener hstep
  have hflat : block₁.flat?.isSome := hflat ▸ rfl
  obtain ⟨plan₂, block₂, s₂, hsteps, -, hs₂, hrun₂⟩ := hown.exists_feedAll_of_run hs₁ hrun₁
  obtain ⟨rfl, htakes⟩ := takesAll_of_groupSteps hsteps hflat (by
    rw [hpass]
    exact List.forall_mem_map.mpr hfields)
  -- The same groups in the other order, from the same state.
  have htakes' : TakesAll block₁ (fields'.map Span.group) block₂ :=
    htakes.reorder hflat fun k => (hre.groupsOf_eq k).symm
  have hstands : ∀ y ∈ fields', y.Stands := by
    intro y hy
    obtain ⟨x, hx, hlines, hgroup⟩ := hre.exists_of_mem y hy
    have hx' := hown.stands x hx
    rwa [Span.Stands, hlines, hgroup] at hx'
  have hopens' : ∀ y ∈ fields', y.group.opens block₁.isPass = false := by
    intro y hy
    obtain ⟨x, hx, -, hgroup⟩ := hre.exists_of_mem y hy
    rw [hpass, ← hgroup]
    exact hfields x hx
  obtain ⟨t, hfeed, ht⟩ := exists_feedAll_of_takesAll hs₁ htakes' hopens' hstands hre.gaps
  have hend : t.run c₂.remaining = .ok plan := by
    have hc : c₂.peek? = none ∨ ∃ g e, c₂.group? = some (g, e) := by
      cases hafter with
      | nil => exact .inl hd
      | cons hg => exact .inr ⟨_, _, hg⟩
    rw [ht.run hc, ← hs₂.run hc]
    exact hrun₂
  -- The numbers of the lines do not matter.
  have hold : State.run .initial ((before ++ opener :: (fields' ++ after)).flatMap Span.all
      ++ d.remaining) = .ok plan := by
    rw [List.flatMap_append, List.flatMap_cons, List.flatMap_append, List.append_assoc,
      List.append_assoc, List.append_assoc, ← hafter.remaining, State.run_append, hfeed₀]
    change s₀.run _ = _
    rw [List.flatMap_cons, List.flatMap_nil, List.append_nil] at hfeed₁
    rw [State.run_append, hfeed₁]
    change s₁.run _ = _
    rw [State.run_append, hfeed]
    exact hend
  exact run_of_texts hms.symm hold

/-- In buffers, passes and textures the last field of each keyword counts, and fields of different
keywords may change places. Every text that is read is passed span by span. What a section
declares has each value from the last group of its keyword, an `outputs` group giving buffer and
textures together; and a text with the spans of a block rearranged describes the same plan. -/
theorem read_fields {source : String} {plan : Plan} (h : read source = .ok plan) :
    (∃ xs d, Spans (Cursor.ofText source.toList) xs d ∧ d.peek? = none) ∧
    ∀ xs d, Spans (Cursor.ofText source.toList) xs d → d.peek? = none →
      DeclaresAll (xs.map Span.group) plan ∧
      ∀ before opener fields fields' after, xs = before ++ opener :: (fields ++ after) →
        opener.group.keyword ∈ [Keyword.buffer, .pass, .texture] →
        (∀ x ∈ fields, x.group.opens (opener.group.keyword == .pass) = false) →
        Rearranged fields fields' → ∀ source' : String,
          lines source'.toList = ((before ++ opener :: (fields' ++ after)).flatMap Span.all
            ++ d.remaining).map Line.text →
          read source' = .ok plan := by
  refine ⟨exists_spans_of_read h, fun xs d hxs hd => ⟨?_, ?_⟩⟩
  · obtain ⟨gs, hgs, hbuilds⟩ := exists_builds_of_read h
    rw [hgs.unique (hxs.grouping hd)]
    exact declaresAll_of_builds hbuilds
  · rintro before opener fields fields' after rfl hopener hfields hre source' hlines
    refine readLines_rearranged h hxs hd hopener hfields hre ?_
    rw [← hlines, linesOf, map_text_numberFrom]

/-- The earlier list of two fields, which starts below the first of them, leaves no textures, and
the fields keep their order where another one that stood between them comes first. -/
theorem read_fields_outputs :
    ∃ plan,
      read "pass: p\n outputs: a\n [x]\n- note\n clear depth: yes\n outputs: b\nbuffer: c\n" =
        .ok plan ∧
      plan.passes = [{ name := "p", clearDepth := true, outputBuffer := "b" }] ∧
      read "pass: p\n clear depth: yes\n outputs: a\n [x]\n\n outputs: b\nbuffer: c\n" =
        .ok plan := by
  have h : read
      "pass: p\n outputs: a\n [x]\n- note\n clear depth: yes\n outputs: b\nbuffer: c\n" = .ok
        { buffers := [{ name := "c" }]
          passes := [{ name := "p", clearDepth := true, outputBuffer := "b" }] } := by
    rfl
  refine ⟨_, h, rfl, ?_⟩
  let opener : Span := ⟨[], [⟨1, "pass: p".toList⟩],
    ⟨1, "pass".toList, "p".toList, true⟩, .pass, .nothing⟩
  let listed : Span := ⟨[], [⟨2, " outputs: a".toList⟩, ⟨3, " [x]".toList⟩],
    ⟨2, "outputs".toList, "a".toList, false⟩, .outputs, .outputs "a".toList (some "x".toList)⟩
  let clear : Span := ⟨[⟨4, "- note".toList⟩], [⟨5, " clear depth: yes".toList⟩],
    ⟨5, "clear depth".toList, "yes".toList, false⟩, .clearDepth, .nothing⟩
  let alone : Span := ⟨[], [⟨6, " outputs: b".toList⟩],
    ⟨6, "outputs".toList, "b".toList, false⟩, .outputs, .outputs "b".toList none⟩
  let last : Span := ⟨[], [⟨7, "buffer: c".toList⟩],
    ⟨7, "buffer".toList, "c".toList, true⟩, .buffer, .nothing⟩
  have hspans : Spans (Cursor.ofText
      "pass: p\n outputs: a\n [x]\n- note\n clear depth: yes\n outputs: b\nbuffer: c\n".toList)
      ([] ++ opener :: ([listed, clear, alone] ++ [last])) ⟨[]⟩ :=
    .cons rfl rfl (by decide) (by decide) <| .cons rfl rfl (by decide) (by decide) <|
      .cons rfl rfl (by decide) (by decide) <| .cons rfl rfl (by decide) (by decide) <|
      .cons rfl rfl (by decide) (by decide) <| .nil _
  have hre : Rearranged [listed, clear, alone]
      [{ clear with gap := [] }, listed, { alone with gap := [⟨0, []⟩] }] := by
    refine ⟨fun k => ?_, by decide⟩
    cases k <;> rfl
  exact ((read_fields h).2 _ _ hspans rfl).2 _ _ _ _ _ rfl (by decide) (by decide) hre _ rfl

end RenderPlan.Description
