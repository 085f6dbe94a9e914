import RenderPlan.Command
import RenderPlan.Proofs.Data.Json
import RenderPlan.Proofs.Plan.Spelling
import RenderPlan.Proofs.Scale.Shortest
/-!
Plans are determined by their data. Every part of a plan is a member of its own, formats, modes,
comparisons and types have names of their own, and a scale is read back from its numeral. So plans
that are shown alike as data are equal.
-/
namespace RenderPlan

theorem not_mem_marks_of_inNumeral {c : Char} (h : Scale.inNumeral c = true) : c ∉ Json.marks := by
  intro hc
  have hmarks : Json.marks.all (fun m => !Scale.inNumeral m) = true := by decide
  have hnot := List.all_eq_true.mp hmarks c hc
  rw [h] at hnot
  cases hnot

@[simp] theorem regular_scale (s : Scale) : Json.Regular s.toData := by
  obtain ⟨⟨c, hc, -⟩, hall⟩ := Scale.isNumeral_write dataStyle s
  refine .number ⟨?_, fun c hc => not_mem_marks_of_inNumeral (hall c hc)⟩
  rintro hnil
  rw [hnil] at hc
  cases hc

@[simp] theorem regular_texture (t : Texture) : Json.Regular t.toData := by
  simp [Texture.toData]

theorem Scale.toData_injective : Function.Injective Scale.toData := by
  intro s t h
  exact Scale.write_inj (Json.number.inj h)

theorem Texture.toData_injective : Function.Injective Texture.toData := by
  intro t u h
  obtain ⟨name, format, scale, path⟩ := t
  obtain ⟨name', format', scale', path'⟩ := u
  simp only [Texture.toData, Json.object.injEq, List.cons_append, List.nil_append,
    List.cons.injEq, Prod.mk.injEq, Json.string.injEq, true_and] at h
  obtain ⟨rfl, hformat, hscale, hpath⟩ := h
  obtain rfl := TexelFormat.name_injective hformat
  obtain rfl := Scale.toData_injective hscale
  -- A path that is empty is a member, one that is absent is not.
  cases path <;> cases path' <;> simp at hpath ⊢
  exact hpath

theorem Buffer.toData_injective : Function.Injective Buffer.toData := by
  intro b c h
  obtain ⟨name, hasDepth, textures⟩ := b
  obtain ⟨name', hasDepth', textures'⟩ := c
  simp only [Buffer.toData, Json.object.injEq, List.cons.injEq, Prod.mk.injEq,
    Json.string.injEq, Json.flag.injEq, Json.list.injEq, true_and, and_true] at h
  obtain ⟨rfl, rfl, htextures⟩ := h
  rw [List.map_injective_iff.mpr Texture.toData_injective htextures]

theorem InputTexture.toData_injective : Function.Injective InputTexture.toData := by
  intro i j h
  obtain ⟨buffer, texture⟩ := i
  obtain ⟨buffer', texture'⟩ := j
  simpa [InputTexture.toData] using h

theorem Pass.toData_injective : Function.Injective Pass.toData := by
  intro p q h
  obtain ⟨name, shader, draw, clearDepth, writeDepth, clearOutputs, depthTest, inputs,
    outputBuffer, outputTextures⟩ := p
  obtain ⟨name', shader', draw', clearDepth', writeDepth', clearOutputs', depthTest', inputs',
    outputBuffer', outputTextures'⟩ := q
  simp only [Pass.toData, Json.object.injEq, List.cons.injEq, Prod.mk.injEq,
    Json.string.injEq, Json.flag.injEq, Json.list.injEq, true_and, and_true] at h
  obtain ⟨rfl, rfl, hdraw, rfl, rfl, rfl, hdepthTest, hinputs, rfl, houtputs⟩ := h
  obtain rfl := DrawMode.name_injective hdraw
  obtain rfl := DepthTest.name_injective hdepthTest
  have hstring : Function.Injective Json.string := fun s t h => Json.string.inj h
  rw [List.map_injective_iff.mpr InputTexture.toData_injective hinputs,
    List.map_injective_iff.mpr hstring houtputs]

theorem Variable.toData_injective : Function.Injective Variable.toData := by
  intro v w h
  obtain ⟨name, type, automatic⟩ := v
  obtain ⟨name', type', automatic'⟩ := w
  simp only [Variable.toData, Json.object.injEq, List.cons.injEq, Prod.mk.injEq,
    Json.string.injEq, true_and, and_true] at h
  obtain ⟨rfl, htype, rfl⟩ := h
  rw [ShaderType.name_injective htype]

theorem Shader.toData_injective : Function.Injective Shader.toData := by
  intro s t h
  obtain ⟨name, vertexBody, fragmentBody, attributes, uniforms, varyings⟩ := s
  obtain ⟨name', vertexBody', fragmentBody', attributes', uniforms', varyings'⟩ := t
  simp only [Shader.toData, Json.object.injEq, List.cons.injEq, Prod.mk.injEq,
    Json.string.injEq, Json.list.injEq, true_and, and_true] at h
  obtain ⟨rfl, rfl, rfl, hattributes, huniforms, hvaryings⟩ := h
  have hmap := List.map_injective_iff.mpr Variable.toData_injective
  rw [hmap hattributes, hmap huniforms, hmap hvaryings]

theorem Plan.toData_injective : Function.Injective Plan.toData := by
  intro p q h
  obtain ⟨name, version, buffers, passes, shaders, textures⟩ := p
  obtain ⟨name', version', buffers', passes', shaders', textures'⟩ := q
  simp only [Plan.toData, Json.object.injEq, List.cons.injEq, Prod.mk.injEq,
    Json.string.injEq, Json.list.injEq, true_and, and_true] at h
  obtain ⟨rfl, rfl, hbuffers, hpasses, hshaders, htextures⟩ := h
  rw [List.map_injective_iff.mpr Buffer.toData_injective hbuffers,
    List.map_injective_iff.mpr Pass.toData_injective hpasses,
    List.map_injective_iff.mpr Shader.toData_injective hshaders,
    List.map_injective_iff.mpr Texture.toData_injective htextures]

end RenderPlan
