import RenderPlan.Program
import RenderPlan.Proofs.Plan.Spelling
/-!
Locations of attributes. The vertex source declares the attributes right behind its header, one to a
line, each at the location that is its position in the list. Nothing that is generated below them,
and nothing that is generated for the fragment stage, is a declaration of that form, whatever the
names in the settings are.
-/
namespace RenderPlan

open RenderPlan.Text

/-- The declarations of attributes, the first one at location 0. -/
def locationLines (vs : List Variable) : List String :=
  vs.mapIdx fun i v =>
    "layout(location = " ++ Nat.repr i ++ ") in " ++ v.type.name ++ " " ++ v.name ++ ";"

/-- All names of variables are texts of one line. -/
def Shader.NamesAreLines (s : Shader) : Prop :=
  ∀ v ∈ s.attributes ++ s.uniforms ++ s.varyings, '\n' ∉ v.name.toList

/-- The lines of uniforms and varyings, which stand in both stages. -/
def sharedLines (settings : Settings) (direction : String) (s : Shader) : List String :=
  uniformLines s.uniforms ++ interfaceLines settings direction s.varyings

theorem unlines_cons (l : String) (ls : List String) :
    unlines (l :: ls) = l ++ "\n" ++ unlines ls := by
  simp [unlines]

theorem toList_unlines_cons (l : String) (ls : List String) :
    (unlines (l :: ls)).toList = l.toList ++ '\n' :: (unlines ls).toList := by
  simp [unlines_cons]

theorem attributeLines_eq_mapIdx (n : Nat) (vs : List Variable) :
    attributeLines n vs = vs.mapIdx fun i v => "layout(location = " ++ Nat.repr (n + i) ++ ") in "
      ++ v.type.name ++ " " ++ v.name ++ ";" := by
  induction vs generalizing n with
  | nil => rfl
  | cons v vs ih =>
    rw [attributeLines, ih, List.mapIdx_cons]
    simp only [Variable.declaration, String.append_assoc, Nat.add_zero, Nat.add_assoc,
      Nat.add_comm 1]

theorem attributeLines_zero (vs : List Variable) : attributeLines 0 vs = locationLines vs := by
  rw [attributeLines_eq_mapIdx, locationLines]
  simp only [Nat.zero_add]

theorem vertexPreamble_eq (settings : Settings) (s : Shader) :
    vertexPreamble settings s =
      settings.versionHeader :: (locationLines s.attributes ++ sharedLines settings "out" s) := by
  rw [vertexPreamble, attributeLines_zero, sharedLines, List.cons_append, List.cons_append,
    List.append_assoc]

theorem fragmentPreamble_eq (settings : Settings) (s : Shader) :
    fragmentPreamble settings s = settings.versionHeader :: sharedLines settings "in" s := rfl

theorem blank_not_mem_typeName {c : Char} (hc : isBlank c = true) (t : ShaderType) :
    c ∉ t.name.toList := by
  intro h
  rw [t.isWord_name.2.isBlank_eq_false c h] at hc
  cases hc

/-- A declaration is one line if the name in it is. -/
theorem newline_not_mem_declaration {v : Variable} (h : '\n' ∉ v.name.toList) :
    '\n' ∉ v.declaration.toList := by
  simp [Variable.declaration, blank_not_mem_typeName (c := '\n') rfl, h]

end RenderPlan
