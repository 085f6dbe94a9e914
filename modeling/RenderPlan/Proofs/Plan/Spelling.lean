import RenderPlan.Proofs.Plan.WellFormed
import RenderPlan.ShaderType.Name
/-!
The spellings of values. Every spelling is read back as the value that it belongs to, and the name
of a shader type as that type; a text that is no name is read as the unknown type, so the name of
the unknown type needs no entry of its own. Names of types and formats are words of their lists.
-/
namespace RenderPlan

namespace ShaderType

/-- The name of a shader type is read back as the type. -/
theorem ofName_name (t : ShaderType) : ofName t.name = t := by
  have known : ∀ t ∈ unknown :: all, ofName t.name = t := by decide +kernel
  apply known
  by_cases h : t = unknown
  · exact List.mem_cons.mpr (.inl h)
  · exact List.mem_cons_of_mem _ ((mem_all_iff t).mpr h)

theorem name_injective : Function.Injective name := by
  intro t u h
  rw [← ofName_name t, h, ofName_name]

/-- No arrow begins in the name of a type, and no entry ends in it. -/
theorem isWord_name (t : ShaderType) : IsWord ['<', ',', ']'] t.name := by
  have hdigit (n : Extent) : FreeOf ['<', ',', ']'] n.digit := by cases n <;> decide
  -- A name is cut before its last part, so that each part is looked at on its own.
  cases t with
  | scalar b => cases b <;> decide
  | vector b n =>
    have hstart : IsWord ['<', ',', ']'] (b.mark ++ "vec") := by cases b <;> decide
    exact hstart.append (hdigit n)
  | square d n =>
    have hstart : IsWord ['<', ',', ']'] ((if d then "d" else "") ++ "mat") := by
      cases d <;> decide
    exact hstart.append (hdigit n)
  | matrix c r =>
    have hstart : IsWord ['<', ',', ']'] ("mat" ++ c.digit ++ "x") := by cases c <;> decide
    exact hstart.append (hdigit r)
  | sampler x s =>
    have hstart : IsWord ['<', ',', ']'] (x.mark ++ "sampler") := by cases x <;> decide
    exact hstart.append (by cases s <;> decide)
  | cubeArraySampler => decide
  | shadowSampler s =>
    have hstart : IsWord ['<', ',', ']'] ("sampler" ++ s.name) := by cases s <;> decide
    exact hstart.append (by decide)
  | unknown => decide

end ShaderType

namespace TexelFormat

theorem ofText?_name (f : TexelFormat) : ofText? f.name = some f := by
  cases f with
  | unspecified => rfl
  | packed c n => cases c <;> cases n <;> rfl

theorem name_injective : Function.Injective name := by
  intro f g h
  have hf := ofText?_name f
  rw [h, ofText?_name] at hf
  exact (Option.some.inj hf).symm

theorem isWord_name (f : TexelFormat) : IsWord [',', ';', ':', ']'] f.name := by
  cases f with
  | unspecified => decide
  | packed c n =>
    have hstart : IsWord [',', ';', ':', ']'] (c.name ++ "x") := by cases c <;> decide
    exact hstart.append (by cases n <;> decide)

end TexelFormat

theorem DrawMode.ofText?_name (m : DrawMode) : ofText? m.name = some m := by
  cases m <;> rfl

theorem DrawMode.name_injective : Function.Injective name := by
  intro m n h
  have hm := ofText?_name m
  rw [h, ofText?_name] at hm
  exact (Option.some.inj hm).symm

/-- The spelling of a depth comparison that is tried first. -/
def DepthTest.spelling (t : DepthTest) : String := t.spellings.headD t.name

theorem DepthTest.name_injective : Function.Injective name := by
  have known : ∀ t ∈ all, ∀ u ∈ all, t.name = u.name → t = u := by decide
  exact fun t u h => known t (mem_all t) u (mem_all u) h

theorem DepthTest.ofText?_spelling (t : DepthTest) : ofText? t.spelling = some t := by
  cases t <;> rfl

end RenderPlan
