import RenderPlan.Plan.References
import RenderPlan.Proofs.Description.WellFormed
/-!
What is reported of references. Every name in a pass is looked at on its own and in order, and each
one that leads nowhere is reported once. Where buffers share a name the first one counts, so blocks
that are added behind the others leave every reference as it is that was resolved before.
-/
namespace RenderPlan

open RenderPlan.Description

/-- A name in a pass that stands for another block, or for a texture of one. -/
inductive Reference where
  | shader (name : String)
  | input (buffer texture : String)
  | outputBuffer (name : String)
  | outputTexture (buffer texture : String)
  deriving DecidableEq, Repr

/-- The references of a pass, in the order of their reports. A name that is empty is no reference,
and without an output buffer there are no references to its textures. -/
def Pass.references (p : Pass) : List Reference :=
  (if p.shader = "" then [] else [.shader p.shader])
    ++ p.inputs.map (fun i => .input i.buffer i.texture)
    ++ (if p.outputBuffer = "" then []
        else .outputBuffer p.outputBuffer :: p.outputTextures.map (.outputTexture p.outputBuffer))

namespace Plan

/-- The references of all passes, each with its pass. -/
def references (plan : Plan) : List (Pass × Reference) :=
  plan.passes.flatMap fun p => p.references.map fun r => (p, r)

/-- A buffer with no other of its name before it. -/
def FirstBuffer (plan : Plan) (name : String) (b : Buffer) : Prop :=
  ∃ before after, plan.buffers = before ++ b :: after ∧ b.name = name ∧
    ∀ c ∈ before, c.name ≠ name

end Plan

def Buffer.Attaches (b : Buffer) (name : String) : Prop := ∃ t ∈ b.textures, t.name = name

/-- References that lead somewhere. -/
inductive Resolves (plan : Plan) : Reference → Prop
  | shader {s : Shader} (h : s ∈ plan.shaders) : Resolves plan (.shader s.name)
  | input {buffer texture : String} {b : Buffer} (hb : plan.FirstBuffer buffer b)
      (ht : b.Attaches texture) : Resolves plan (.input buffer texture)
  | outputBuffer {b : Buffer} (h : b ∈ plan.buffers) : Resolves plan (.outputBuffer b.name)
  | outputTexture {buffer texture : String} {b : Buffer} (hb : plan.FirstBuffer buffer b)
      (ht : b.Attaches texture) : Resolves plan (.outputTexture buffer texture)

/-- What is reported of a reference in a pass, if anything is. -/
inductive Verdict (plan : Plan) (p : Pass) : Reference → Option Dangling → Prop
  | resolved {r : Reference} (h : Resolves plan r) : Verdict plan p r none
  | shader {name : String} (h : ∀ s ∈ plan.shaders, s.name ≠ name) :
      Verdict plan p (.shader name) (some (.shader p.name name))
  | inputBuffer {buffer texture : String} (h : ∀ b ∈ plan.buffers, b.name ≠ buffer) :
      Verdict plan p (.input buffer texture) (some (.inputBuffer p.name buffer))
  | inputTexture {buffer texture : String} {b : Buffer} (hb : plan.FirstBuffer buffer b)
      (ht : ¬ b.Attaches texture) :
      Verdict plan p (.input buffer texture) (some (.inputTexture p.name buffer texture))
  | outputBuffer {name : String} (h : ∀ b ∈ plan.buffers, b.name ≠ name) :
      Verdict plan p (.outputBuffer name) (some (.outputBuffer p.name name))
  /-- The textures of a buffer that is not declared are not looked for. -/
  | unchecked {buffer texture : String} (h : ∀ b ∈ plan.buffers, b.name ≠ buffer) :
      Verdict plan p (.outputTexture buffer texture) none
  | outputTexture {buffer texture : String} {b : Buffer} (hb : plan.FirstBuffer buffer b)
      (ht : ¬ b.Attaches texture) :
      Verdict plan p (.outputTexture buffer texture) (some (.outputTexture p.name texture))

/-- All that a pass refers to is declared. -/
structure Plan.Covers (plan : Plan) (p : Pass) : Prop where
  shader : p.shader ≠ "" → Resolves plan (.shader p.shader)
  inputs : ∀ i ∈ p.inputs, Resolves plan (.input i.buffer i.texture)
  outputBuffer : p.outputBuffer ≠ "" → Resolves plan (.outputBuffer p.outputBuffer)
  outputTextures : ∀ t ∈ p.outputTextures, Resolves plan (.outputTexture p.outputBuffer t)

namespace Plan

/-- The report of a single reference. -/
def report (plan : Plan) (p : Pass) : Reference → Option Dangling
  | .shader name =>
    if (plan.shader? name).isSome then none else some (.shader p.name name)
  | .input buffer texture =>
    match plan.buffer? buffer with
    | none => some (.inputBuffer p.name buffer)
    | some b =>
      if (b.attachment? texture).isSome then none
      else some (.inputTexture p.name buffer texture)
  | .outputBuffer name =>
    if (plan.buffer? name).isSome then none else some (.outputBuffer p.name name)
  | .outputTexture buffer texture =>
    match plan.buffer? buffer with
    | none => none
    | some b =>
      if (b.attachment? texture).isSome then none else some (.outputTexture p.name texture)

variable {plan : Plan} {p : Pass} {b : Buffer} {name : String}

theorem isSome_shader? : (plan.shader? name).isSome = true ↔ ∃ s ∈ plan.shaders, s.name = name := by
  simp [shader?]

theorem buffer?_eq_some_iff : plan.buffer? name = some b ↔ plan.FirstBuffer name b := by
  simp only [buffer?, List.find?_eq_some_iff_append, FirstBuffer]
  constructor
  · rintro ⟨hb, before, after, hbs, hbefore⟩
    exact ⟨before, after, hbs, by simpa using hb, by simpa using hbefore⟩
  · rintro ⟨before, after, hbs, hb, hbefore⟩
    exact ⟨by simpa using hb, before, after, hbs, by simpa using hbefore⟩

theorem buffer?_eq_none_iff : plan.buffer? name = none ↔ ∀ b ∈ plan.buffers, b.name ≠ name := by
  simp [buffer?]

theorem isSome_attachment? : (b.attachment? name).isSome = true ↔ b.Attaches name := by
  simp [Buffer.attachment?, Buffer.Attaches]

/-- The report of a reference is its verdict. -/
theorem verdict_report (plan : Plan) (p : Pass) (r : Reference) :
    Verdict plan p r (plan.report p r) := by
  cases r with
  | shader name =>
    simp only [report]
    split
    · next h =>
      obtain ⟨s, hs, rfl⟩ := isSome_shader?.mp h
      exact .resolved (.shader hs)
    · next h => exact .shader (by simpa [isSome_shader?] using h)
  | input buffer texture =>
    simp only [report]
    split
    · next h => exact .inputBuffer (buffer?_eq_none_iff.mp h)
    · next b h =>
      rw [buffer?_eq_some_iff] at h
      split
      · next ht => exact .resolved (.input h (isSome_attachment?.mp ht))
      · next ht => exact .inputTexture h (mt isSome_attachment?.mpr ht)
  | outputBuffer name =>
    simp only [report]
    cases h : plan.buffer? name with
    | none => exact .outputBuffer (buffer?_eq_none_iff.mp h)
    | some b =>
      obtain ⟨before, after, hbs, rfl, -⟩ := buffer?_eq_some_iff.mp h
      exact .resolved (.outputBuffer (by simp [hbs]))
  | outputTexture buffer texture =>
    simp only [report]
    split
    · next h => exact .unchecked (buffer?_eq_none_iff.mp h)
    · next b h =>
      rw [buffer?_eq_some_iff] at h
      split
      · next ht => exact .resolved (.outputTexture h (isSome_attachment?.mp ht))
      · next ht => exact .outputTexture h (mt isSome_attachment?.mpr ht)

theorem report_of_resolves {r : Reference} (h : Resolves plan r) : plan.report p r = none := by
  cases h with
  | @shader s h =>
    have : (plan.shader? s.name).isSome = true := isSome_shader?.mpr ⟨s, h, rfl⟩
    rw [report, if_pos this]
  | input hb ht | outputTexture hb ht =>
    simp only [report, buffer?_eq_some_iff.mpr hb, isSome_attachment?.mpr ht, if_true]
  | @outputBuffer b h =>
    have : (plan.buffer? b.name).isSome = true := by
      rw [Option.isSome_iff_ne_none, Ne, buffer?_eq_none_iff]
      exact fun hall => hall b h rfl
    rw [report, if_pos this]

/-- A reference has no other verdict than its report. -/
theorem report_of_verdict {r : Reference} {found : Option Dangling}
    (h : Verdict plan p r found) : plan.report p r = found := by
  cases h with
  | resolved h => exact report_of_resolves h
  | shader h =>
    rw [report, if_neg]
    rw [isSome_shader?]
    rintro ⟨s, hs, hname⟩
    exact h s hs hname
  | inputBuffer h | outputBuffer h | unchecked h => simp [report, buffer?_eq_none_iff.mpr h]
  | inputTexture hb ht | outputTexture hb ht =>
    simp [report, buffer?_eq_some_iff.mpr hb, mt isSome_attachment?.mp ht]

theorem report_eq_iff {r : Reference} {found : Option Dangling} :
    plan.report p r = found ↔ Verdict plan p r found := by
  constructor
  · rintro rfl
    exact verdict_report plan p r
  · exact report_of_verdict

theorem danglingShader_eq_filterMap (plan : Plan) (p : Pass) :
    plan.danglingShader p =
      (if p.shader = "" then [] else [.shader p.shader]).filterMap (plan.report p) := by
  by_cases h : p.shader = ""
  · simp [danglingShader, h]
  · by_cases hs : (plan.shader? p.shader).isSome = true <;>
      simp [danglingShader, report, h, hs]

theorem danglingInput_eq_toList (plan : Plan) (p : Pass) (i : InputTexture) :
    plan.danglingInput p i = (plan.report p (.input i.buffer i.texture)).toList := by
  simp only [danglingInput, report]
  cases plan.buffer? i.buffer with
  | none => rfl
  | some b =>
    by_cases ht : (b.attachment? i.texture).isSome = true <;> simp [ht]

theorem danglingOutputs_eq_filterMap (plan : Plan) (p : Pass) :
    plan.danglingOutputs p =
      (if p.outputBuffer = "" then []
        else .outputBuffer p.outputBuffer
          :: p.outputTextures.map (.outputTexture p.outputBuffer)).filterMap (plan.report p) := by
  by_cases h : p.outputBuffer = ""
  · simp [danglingOutputs, h]
  · rw [danglingOutputs, if_neg h, if_neg h, List.filterMap_cons, List.filterMap_map]
    cases hb : plan.buffer? p.outputBuffer with
    | none => simp [report, hb]
    | some b =>
      have hnone : plan.report p (.outputBuffer p.outputBuffer) = none := by simp [report, hb]
      have htexture : plan.report p ∘ Reference.outputTexture p.outputBuffer = fun t =>
          if (b.attachment? t).isNone then some (.outputTexture p.name t) else none := by
        funext t
        cases ht : b.attachment? t <;> simp [report, hb, ht]
      rw [hnone, htexture]
      change (p.outputTextures.filter _).map _ = _
      rw [← List.filterMap_eq_map, List.filterMap_filter]
      rfl

/-- The reports of a pass are those of its references, in their order. -/
theorem danglingOf_eq_filterMap (plan : Plan) (p : Pass) :
    plan.danglingOf p = p.references.filterMap (plan.report p) := by
  have hinput : plan.danglingInput p = fun i =>
      (plan.report p (.input i.buffer i.texture)).toList :=
    funext (danglingInput_eq_toList plan p)
  rw [danglingOf, Pass.references, List.filterMap_append, List.filterMap_append, hinput,
    danglingShader_eq_filterMap, danglingOutputs_eq_filterMap, List.filterMap_map,
    List.filterMap_eq_flatMap_toList (l := p.inputs)]
  rfl

theorem dangling_eq_filterMap (plan : Plan) :
    plan.dangling = plan.references.filterMap fun (p, r) => plan.report p r := by
  have hpass : plan.danglingOf = fun p => p.references.filterMap (plan.report p) :=
    funext (danglingOf_eq_filterMap plan)
  rw [dangling, references, hpass, List.filterMap_flatMap]
  simp only [List.filterMap_map, Function.comp_def]

/-- Passes are checked one by one. -/
theorem dangling_append (plan : Plan) (ps qs : List Pass) :
    ({ plan with passes := ps ++ qs } : Plan).dangling =
      ({ plan with passes := ps } : Plan).dangling ++
        ({ plan with passes := qs } : Plan).dangling :=
  List.flatMap_append

theorem mem_references_iff {r : Reference} :
    r ∈ p.references ↔ (p.shader ≠ "" ∧ r = .shader p.shader) ∨
      (∃ i ∈ p.inputs, r = .input i.buffer i.texture) ∨
      p.outputBuffer ≠ "" ∧ (r = .outputBuffer p.outputBuffer ∨
        ∃ t ∈ p.outputTextures, r = .outputTexture p.outputBuffer t) := by
  by_cases hs : p.shader = "" <;> by_cases hb : p.outputBuffer = "" <;>
    simp [Pass.references, hs, hb, eq_comm]

/-- The textures of an output buffer are looked for unless the buffer itself is reported. -/
theorem report_eq_none_iff :
    (∀ r ∈ p.references, plan.report p r = none) ↔ ∀ r ∈ p.references, Resolves plan r := by
  constructor
  · intro h r hr
    have hv := report_eq_iff.mp (h r hr)
    cases hv with
    | resolved hres => exact hres
    | @unchecked buffer texture hnone =>
      obtain ⟨hb, -, rfl⟩ : p.outputBuffer ≠ "" ∧ texture ∈ p.outputTextures ∧
          buffer = p.outputBuffer := by
        simpa [mem_references_iff] using hr
      have hbuffer := h _ (mem_references_iff.mpr (.inr (.inr ⟨hb, .inl rfl⟩)))
      simp [report, buffer?_eq_none_iff.mpr hnone] at hbuffer
  · exact fun h r hr => report_of_resolves (h r hr)

theorem dangling_eq_nil_iff (plan : Plan) :
    plan.dangling = [] ↔ ∀ p ∈ plan.passes, ∀ r ∈ p.references, Resolves plan r := by
  simp only [dangling, danglingOf_eq_filterMap, List.flatMap_eq_nil_iff,
    List.filterMap_eq_nil_iff, report_eq_none_iff]

/-- All references of a pass are resolved exactly if all it names is declared, where no textures are
written without a buffer. -/
theorem covers_iff (hnamed : p.outputBuffer = "" → p.outputTextures = []) :
    plan.Covers p ↔ ∀ r ∈ p.references, Resolves plan r := by
  constructor
  · intro h r hr
    rcases mem_references_iff.mp hr with ⟨hs, rfl⟩ | ⟨i, hi, rfl⟩ | ⟨hb, rfl | ⟨t, ht, rfl⟩⟩
    · exact h.shader hs
    · exact h.inputs i hi
    · exact h.outputBuffer hb
    · exact h.outputTextures t ht
  · intro h
    constructor
    · intro hs
      exact h _ (mem_references_iff.mpr (.inl ⟨hs, rfl⟩))
    · intro i hi
      exact h _ (mem_references_iff.mpr (.inr (.inl ⟨i, hi, rfl⟩)))
    · intro hb
      exact h _ (mem_references_iff.mpr (.inr (.inr ⟨hb, .inl rfl⟩)))
    · intro t ht
      have hb : p.outputBuffer ≠ "" := fun hb => by simp [hnamed hb] at ht
      exact h _ (mem_references_iff.mpr (.inr (.inr ⟨hb, .inr ⟨t, ht, rfl⟩⟩)))

/-- The plan with more buffers and shaders behind its own. -/
def extend (plan : Plan) (bs : List Buffer) (ss : List Shader) : Plan :=
  { plan with buffers := plan.buffers ++ bs, shaders := plan.shaders ++ ss }

theorem FirstBuffer.extend (h : plan.FirstBuffer name b) (bs : List Buffer) (ss : List Shader) :
    (plan.extend bs ss).FirstBuffer name b := by
  obtain ⟨before, after, hbs, hb, hbefore⟩ := h
  exact ⟨before, after ++ bs, by simp [Plan.extend, hbs], hb, hbefore⟩

end Plan

/-- What is resolved stays so when blocks are added behind the others. A buffer added before
them could hide one of its name. -/
theorem Resolves.extend {plan : Plan} {r : Reference} (h : Resolves plan r) (bs : List Buffer)
    (ss : List Shader) : Resolves (plan.extend bs ss) r := by
  cases h with
  | shader h => exact .shader (by simp [Plan.extend, h])
  | input hb ht => exact .input (hb.extend bs ss) ht
  | outputBuffer h => exact .outputBuffer (by simp [Plan.extend, h])
  | outputTexture hb ht => exact .outputTexture (hb.extend bs ss) ht

/-- A plan without reports has none when blocks are added behind its own. -/
theorem Plan.dangling_extend {plan : Plan} (h : plan.dangling = []) (bs : List Buffer)
    (ss : List Shader) : (plan.extend bs ss).dangling = [] := by
  rw [dangling_eq_nil_iff] at h ⊢
  exact fun p hp r hr => (h p hp r hr).extend bs ss

/-- References are reported each on its own, in order, and exactly if they lead nowhere. Of a plan
that is read nothing is reported exactly if every pass names declared blocks only. -/
theorem dangling_reports (plan : Plan) :
    (∀ ps qs, ({ plan with passes := ps ++ qs } : Plan).dangling =
      ({ plan with passes := ps } : Plan).dangling ++
        ({ plan with passes := qs } : Plan).dangling) ∧
    plan.dangling = plan.references.filterMap (fun (p, r) => plan.report p r) ∧
    (∀ p r found, plan.report p r = found ↔ Verdict plan p r found) ∧
    (∀ bs ss, plan.dangling = [] → (plan.extend bs ss).dangling = []) ∧
    ∀ source, read source = .ok plan →
      (plan.dangling = [] ↔ ∀ p ∈ plan.passes, plan.Covers p) := by
  refine ⟨plan.dangling_append, plan.dangling_eq_filterMap, fun p r found => Plan.report_eq_iff,
    fun bs ss h => Plan.dangling_extend h bs ss, fun source h => ?_⟩
  have hplan := wellFormed_of_readLines (newline_not_mem_of_mem_linesOf _) h
  rw [Plan.dangling_eq_nil_iff]
  exact forall₂_congr fun p hp => (Plan.covers_iff (hplan.passes p hp).outputsNamed).symm

/-- A pass that reads one texture from each of two buffers and writes a third one, and a buffer
behind them that has the name of the first. -/
theorem dangling_reports_inputs :
    ∃ plan, read ("buffer: g\n textures: [a]\npass: p\n inputs: [g.a, g.b, h.a]\n" ++
        " outputs: o [x]\nbuffer: g\n textures: [b]\n") = .ok plan ∧
      plan.dangling = [.inputTexture "p" "g" "b", .inputBuffer "p" "h", .outputBuffer "p" "o"] ∧
      (plan.dangling = [] ↔ ∀ p ∈ plan.passes, plan.Covers p) := by
  have h : read ("buffer: g\n textures: [a]\npass: p\n inputs: [g.a, g.b, h.a]\n" ++
      " outputs: o [x]\nbuffer: g\n textures: [b]\n") = .ok {
        buffers := [{ name := "g", textures := [{ name := "a" }] },
                    { name := "g", textures := [{ name := "b" }] }]
        passes := [{ name := "p", inputs := [⟨"g", "a"⟩, ⟨"g", "b"⟩, ⟨"h", "a"⟩],
                     outputBuffer := "o", outputTextures := ["x"] }] } := by
    decide +kernel
  exact ⟨_, h, by decide, (dangling_reports _).2.2.2.2 _ h⟩

end RenderPlan
