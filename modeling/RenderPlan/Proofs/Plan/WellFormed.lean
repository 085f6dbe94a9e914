import Mathlib.Tactic.MkIffOfInductiveProp
import RenderPlan.Description.Line
import RenderPlan.Plan.Basic
import RenderPlan.Proofs.Scale.Value
import RenderPlan.Proofs.Text.Lines
/-!
Well-formed plans: those whose texts a description can hold. Names and paths are trimmed texts of
one line. The parts of a list are words, which contain neither blank characters nor what ends or
divides an entry of that list. A body is whole lines, none of which would close its fence.
-/
namespace RenderPlan

open RenderPlan.Text RenderPlan.Description

/-- A text of one line without blank characters at its ends. -/
def IsTrimmed (s : String) : Prop := trim s.toList = s.toList ∧ '\n' ∉ s.toList

/-- The name of a block. -/
def IsTitle (s : String) : Prop := s ≠ "" ∧ IsTrimmed s

/-- A text without blank characters and without the given ones. -/
def FreeOf (stops : List Char) (s : String) : Prop :=
  ∀ c ∈ s.toList, isBlank c = false ∧ c ∉ stops

/-- A part of an entry of a list. -/
def IsWord (stops : List Char) (s : String) : Prop := s ≠ "" ∧ FreeOf stops s

/-- Lines that are each ended by a line feed, none of them a fence. -/
def IsBody (s : String) : Prop :=
  EndsLine s.toList ∧ ∀ l ∈ pieces (· == '\n') s.toList, isFence l = false

instance (s : String) : Decidable (IsTrimmed s) := inferInstanceAs (Decidable (_ ∧ _))
instance (s : String) : Decidable (IsTitle s) := inferInstanceAs (Decidable (_ ∧ _))
instance (stops : List Char) (s : String) : Decidable (FreeOf stops s) :=
  List.decidableBAll (fun c => isBlank c = false ∧ c ∉ stops) s.toList
instance (stops : List Char) (s : String) : Decidable (IsWord stops s) :=
  inferInstanceAs (Decidable (_ ∧ _))
instance (s : String) : Decidable (IsBody s) := inferInstanceAs (Decidable (_ ∧ _))

@[simp] theorem isTrimmed_empty : IsTrimmed "" := by decide
@[simp] theorem freeOf_empty (stops : List Char) : FreeOf stops "" := by simp [FreeOf]
@[simp] theorem isBody_empty : IsBody "" := by decide

theorem FreeOf.isBlank_eq_false {stops : List Char} {s : String} (h : FreeOf stops s) :
    ∀ c ∈ s.toList, isBlank c = false :=
  fun c hc => (h c hc).1

theorem FreeOf.ne {stops : List Char} {s : String} (h : FreeOf stops s) {d : Char}
    (hd : d ∈ stops) : ∀ c ∈ s.toList, c ≠ d :=
  fun c hc => (ne_of_mem_of_not_mem hd (h c hc).2).symm

theorem freeOf_ofList_iff {stops s : List Char} :
    FreeOf stops (String.ofList s) ↔ ∀ c ∈ s, isBlank c = false ∧ c ∉ stops := by
  simp [FreeOf]

theorem freeOf_append_iff {stops : List Char} {a b : String} :
    FreeOf stops (a ++ b) ↔ FreeOf stops a ∧ FreeOf stops b := by
  simp only [FreeOf, String.toList_append, List.forall_mem_append]

theorem IsWord.append {stops : List Char} {a b : String} (ha : IsWord stops a)
    (hb : FreeOf stops b) : IsWord stops (a ++ b) :=
  ⟨by simp [ha.1], freeOf_append_iff.mpr ⟨ha.2, hb⟩⟩

theorem isWord_ofList_iff {stops s : List Char} :
    IsWord stops (String.ofList s) ↔ s ≠ [] ∧ ∀ c ∈ s, isBlank c = false ∧ c ∉ stops := by
  rw [IsWord, freeOf_ofList_iff, ← String.toList_inj.ne]
  simp

/-- A body is the text of lines that are not fences. -/
theorem isBody_iff {s : String} :
    IsBody s ↔ ∃ ls : List (List Char), s.toList = ls.flatMap (fun l => l ++ ['\n']) ∧
      ∀ l ∈ ls, '\n' ∉ l ∧ isFence l = false := by
  constructor
  · rintro ⟨hs | hs, hf⟩
    · exact ⟨[], by simp [hs], by simp⟩
    · obtain ⟨a, ha⟩ := List.getLast?_eq_some_iff.mp hs
      refine ⟨pieces (· == '\n') a, by rw [ha, flatMap_pieces], fun l hl => ⟨fun hn => ?_, ?_⟩⟩
      · have := (mem_of_mem_pieces hl '\n' hn).2
        simp at this
      · rw [ha, pieces_append_sep (by rfl)] at hf
        exact hf l (by simp [hl])
  · rintro ⟨ls, hs, hls⟩
    have hp : pieces (· == '\n') s.toList = ls ++ [[]] := by
      rw [hs]
      apply pieces_flatMap_ended (by rfl)
      intro l hl d hd
      simp only [beq_eq_false_iff_ne]
      rintro rfl
      exact (hls l hl).1 hd
    constructor
    · rcases List.eq_nil_or_concat ls with rfl | ⟨ms, m, rfl⟩
      · exact .inl hs
      · exact .inr (by simp [hs])
    · intro l hl
      rw [hp, List.mem_append, List.mem_singleton] at hl
      rcases hl with hl | rfl
      · exact (hls l hl).2
      · rfl

/-- A texture as an attachment of a buffer. -/
@[mk_iff]
structure Texture.IsAttachment (t : Texture) : Prop where
  name : IsWord [',', ';', ':', ']'] t.name
  path : t.path = none
  scale : t.scale.InRange

/-- A texture that stands alone. -/
@[mk_iff]
structure Texture.WellFormed (t : Texture) : Prop where
  name : IsTitle t.name
  path : ∀ p ∈ t.path, IsTrimmed p
  scale : t.scale.InRange

@[mk_iff]
structure Buffer.WellFormed (b : Buffer) : Prop where
  name : IsTitle b.name
  textures : ∀ t ∈ b.textures, t.IsAttachment

@[mk_iff]
structure InputTexture.WellFormed (i : InputTexture) : Prop where
  buffer : IsWord [',', '.', ']'] i.buffer
  texture : IsWord [',', '.', ']'] i.texture

@[mk_iff]
structure Pass.WellFormed (p : Pass) : Prop where
  name : IsTitle p.name
  shader : IsTrimmed p.shader
  inputs : ∀ i ∈ p.inputs, i.WellFormed
  outputBuffer : FreeOf ['['] p.outputBuffer
  outputTextures : ∀ t ∈ p.outputTextures, IsWord [',', ']'] t
  outputsNamed : p.outputBuffer = "" → p.outputTextures = []

@[mk_iff]
structure Variable.WellFormed (v : Variable) : Prop where
  name : IsWord [':', ',', ']'] v.name
  automatic : FreeOf [',', ']'] v.automatic

@[mk_iff]
structure Shader.WellFormed (s : Shader) : Prop where
  name : IsTitle s.name
  vertexBody : IsBody s.vertexBody
  fragmentBody : IsBody s.fragmentBody
  attributes : ∀ v ∈ s.attributes, v.WellFormed
  uniforms : ∀ v ∈ s.uniforms, v.WellFormed
  varyings : ∀ v ∈ s.varyings, v.WellFormed

@[mk_iff]
structure Plan.WellFormed (p : Plan) : Prop where
  name : IsTrimmed p.name
  version : IsTrimmed p.version
  buffers : ∀ b ∈ p.buffers, b.WellFormed
  passes : ∀ q ∈ p.passes, q.WellFormed
  shaders : ∀ s ∈ p.shaders, s.WellFormed
  textures : ∀ t ∈ p.textures, t.WellFormed

instance (t : Texture) : Decidable t.IsAttachment :=
  decidable_of_iff' _ (Texture.isAttachment_iff t)
instance (t : Texture) : Decidable t.WellFormed := decidable_of_iff' _ (Texture.wellFormed_iff t)
instance (b : Buffer) : Decidable b.WellFormed := decidable_of_iff' _ (Buffer.wellFormed_iff b)
instance (i : InputTexture) : Decidable i.WellFormed :=
  decidable_of_iff' _ (InputTexture.wellFormed_iff i)
instance (p : Pass) : Decidable p.WellFormed := decidable_of_iff' _ (Pass.wellFormed_iff p)
instance (v : Variable) : Decidable v.WellFormed := decidable_of_iff' _ (Variable.wellFormed_iff v)
instance (s : Shader) : Decidable s.WellFormed := decidable_of_iff' _ (Shader.wellFormed_iff s)
instance (p : Plan) : Decidable p.WellFormed := decidable_of_iff' _ (Plan.wellFormed_iff p)

end RenderPlan
