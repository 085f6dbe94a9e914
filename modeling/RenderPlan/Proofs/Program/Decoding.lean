import RenderPlan.Proofs.Program.Locations
/-!
What a program tells of its shader. Declarations stand one behind the other with nothing between the
sections, yet the text of a program determines the types and names of its variables: each section
begins its lines with a letter of its own, a type ends at a blank character and a declaration at a
line feed. The settings may hold any text, since both programs begin an interface block alike.
-/
namespace RenderPlan

open RenderPlan.Text

/-- Types and names of variables. -/
def signatures (vs : List Variable) : List (ShaderType × String) := vs.map fun v => (v.type, v.name)

@[simp] theorem signatures_cons (v : Variable) (vs : List Variable) :
    signatures (v :: vs) = (v.type, v.name) :: signatures vs := rfl

theorem eq_of_append_cons_eq {c : Char} {a b r s : List Char} (ha : c ∉ a) (hb : c ∉ b)
    (h : a ++ c :: r = b ++ c :: s) : a = b ∧ r = s := by
  have hr : cutAt c (a ++ c :: r) = some (a, r) := cutAt_eq_some_iff.mpr ⟨rfl, ha⟩
  have hs : cutAt c (a ++ c :: r) = some (b, s) := cutAt_eq_some_iff.mpr ⟨h, hb⟩
  rw [hr] at hs
  cases hs
  exact ⟨rfl, rfl⟩

/-- A declaration and what stands behind its line are determined by the text of both. -/
theorem declaration_append_inj {v w : Variable} (hv : '\n' ∉ v.name.toList)
    (hw : '\n' ∉ w.name.toList) {r s : List Char}
    (h : v.declaration.toList ++ '\n' :: r = w.declaration.toList ++ '\n' :: s) :
    v.type = w.type ∧ v.name = w.name ∧ r = s := by
  obtain ⟨hdecl, hrest⟩ := eq_of_append_cons_eq (newline_not_mem_declaration hv)
    (newline_not_mem_declaration hw) h
  have hparts : v.type.name.toList ++ ' ' :: (v.name.toList ++ [';']) =
      w.type.name.toList ++ ' ' :: (w.name.toList ++ [';']) := by
    simpa [Variable.declaration] using hdecl
  obtain ⟨htype, hname⟩ := eq_of_append_cons_eq (blank_not_mem_typeName (by decide) _)
    (blank_not_mem_typeName (by decide) _) hparts
  exact ⟨ShaderType.name_injective (String.toList_inj.mp htype),
    String.toList_inj.mp (List.append_cancel_right hname), hrest⟩

/-- Declarations, one to a line; what leads a line depends on its position only. -/
def declarationText (lead : Nat → String) : Nat → List Variable → List Char
  | _, [] => []
  | n, v :: vs =>
    (lead n).toList ++ (v.declaration.toList ++ '\n' :: declarationText lead (n + 1) vs)

/-- A section ends where the next line begins with another character. -/
theorem declarationText_append_inj {lead : Nat → String} {c : Char}
    (hlead : ∀ n, (lead n).toList.head? = some c) {r s : List Char} (hr : r.head? ≠ some c)
    (hs : s.head? ≠ some c) {vs ws : List Variable} (hvs : ∀ v ∈ vs, '\n' ∉ v.name.toList)
    (hws : ∀ w ∈ ws, '\n' ∉ w.name.toList) {n : Nat}
    (h : declarationText lead n vs ++ r = declarationText lead n ws ++ s) :
    signatures vs = signatures ws ∧ r = s := by
  have hhead (v : Variable) (vs : List Variable) (t : List Char) (n : Nat) :
      (declarationText lead n (v :: vs) ++ t).head? = some c := by
    simp [declarationText, List.head?_append, hlead]
  induction vs generalizing n ws with
  | nil =>
    cases ws with
    | nil => exact ⟨rfl, h⟩
    | cons w ws =>
      rw [← hhead w ws s n, ← h] at hr
      exact absurd rfl hr
  | cons v vs ih =>
    cases ws with
    | nil =>
      rw [← hhead v vs r n, h] at hs
      exact absurd rfl hs
    | cons w ws =>
      simp only [declarationText, List.append_assoc] at h
      obtain ⟨htype, hname, h⟩ := declaration_append_inj (hvs v (by simp)) (hws w (by simp))
        (List.append_cancel_left h)
      obtain ⟨hsig, hrest⟩ := ih (fun u hu => hvs u (by simp [hu]))
        (fun u hu => hws u (by simp [hu])) h
      exact ⟨by simp [htype, hname, hsig], hrest⟩

theorem toList_unlines_append (ls ms : List String) :
    (unlines (ls ++ ms)).toList = (unlines ls).toList ++ (unlines ms).toList := by
  simp [unlines]

def attributeLead (n : Nat) : String := "layout(location = " ++ Nat.repr n ++ ") in "

theorem head?_attributeLead (n : Nat) : (attributeLead n).toList.head? = some 'l' := by
  unfold attributeLead
  simp

theorem toList_unlines_attributeLines (n : Nat) (vs : List Variable) :
    (unlines (attributeLines n vs)).toList = declarationText attributeLead n vs := by
  induction vs generalizing n with
  | nil => simp [attributeLines, unlines, declarationText]
  | cons v vs ih =>
    have hline : attributeLines n (v :: vs) =
        (attributeLead n ++ v.declaration) :: attributeLines (n + 1) vs := rfl
    rw [hline, toList_unlines_cons, ih, declarationText, String.toList_append, List.append_assoc]

/-- Declarations that are all led by the same text. -/
theorem toList_unlines_map (lead : String) (n : Nat) (vs : List Variable) :
    (unlines (vs.map fun v => lead ++ v.declaration)).toList =
      declarationText (fun _ => lead) n vs := by
  induction vs generalizing n with
  | nil => simp [unlines, declarationText]
  | cons v vs ih =>
    rw [List.map_cons, toList_unlines_cons, ih (n + 1), declarationText, String.toList_append,
      List.append_assoc]

theorem toList_unlines_interfaceLines (settings : Settings) (direction : String)
    {vs : List Variable} (h : vs ≠ []) :
    (unlines (interfaceLines settings direction vs)).toList =
      (direction ++ " " ++ settings.interfaceBlock ++ " \x7b").toList ++ '\n' ::
        (declarationText (fun _ => "    ") 0 vs
          ++ ("\x7d " ++ settings.interfaceInstance ++ ";\n").toList) := by
  have hne : vs.isEmpty = false := by simpa using h
  rw [interfaceLines, hne, if_neg Bool.false_ne_true, List.cons_append, toList_unlines_cons,
    toList_unlines_append, toList_unlines_map "    " 0]
  simp [unlines]

section Programs

variable {settings : Settings} {direction : String} {s t : Shader}

theorem head?_unlines_interfaceLines (hd : direction ∈ ["out", "in"]) (vs : List Variable)
    {c : Char} (hc : c ∈ ['u', 'l']) :
    (unlines (interfaceLines settings direction vs)).toList.head? ≠ some c := by
  unfold interfaceLines
  split
  · simp [unlines]
  · rcases List.mem_pair.mp hd with rfl | rfl <;> rcases List.mem_pair.mp hc with rfl | rfl <;>
      simp [toList_unlines_cons]

/-- The interface block tells the varyings, and a program without one that there are none. -/
theorem interfaceLines_inj {vs ws : List Variable} (hvs : ∀ v ∈ vs, '\n' ∉ v.name.toList)
    (hws : ∀ w ∈ ws, '\n' ∉ w.name.toList)
    (h : unlines (interfaceLines settings direction vs) =
      unlines (interfaceLines settings direction ws)) : signatures vs = signatures ws := by
  have hnil : (unlines (interfaceLines settings direction [])).toList = [] := by
    simp [interfaceLines, unlines]
  have h := congrArg String.toList h
  by_cases hv : vs = [] <;> by_cases hw : ws = []
  · rw [hv, hw]
  · rw [hv, hnil, toList_unlines_interfaceLines settings direction hw] at h
    simp at h
  · rw [hw, hnil, toList_unlines_interfaceLines settings direction hv] at h
    simp at h
  · rw [toList_unlines_interfaceLines settings direction hv,
      toList_unlines_interfaceLines settings direction hw] at h
    have hinner := List.tail_eq_of_cons_eq (List.append_cancel_left h)
    exact (declarationText_append_inj (c := ' ') (fun _ => rfl) (by simp) (by simp) hvs hws
      hinner).1

/-- Uniforms and varyings are determined by the lines that both stages have. -/
theorem sharedLines_inj (hd : direction ∈ ["out", "in"]) (hs : s.NamesAreLines)
    (ht : t.NamesAreLines)
    (h : unlines (sharedLines settings direction s) = unlines (sharedLines settings direction t)) :
    signatures s.uniforms = signatures t.uniforms ∧
      signatures s.varyings = signatures t.varyings := by
  simp only [Shader.NamesAreLines, List.mem_append] at hs ht
  have h := congrArg String.toList h
  rw [sharedLines, sharedLines, toList_unlines_append, toList_unlines_append, uniformLines,
    uniformLines, toList_unlines_map "uniform " 0, toList_unlines_map "uniform " 0] at h
  obtain ⟨huniforms, hrest⟩ := declarationText_append_inj (c := 'u') (fun _ => rfl)
    (head?_unlines_interfaceLines hd _ (by decide)) (head?_unlines_interfaceLines hd _ (by decide))
    (fun v hv => hs v (.inl (.inr hv))) (fun v hv => ht v (.inl (.inr hv))) h
  exact ⟨huniforms, interfaceLines_inj (fun v hv => hs v (.inr hv)) (fun v hv => ht v (.inr hv))
    (String.toList_inj.mp hrest)⟩

theorem head?_unlines_sharedLines (hd : direction ∈ ["out", "in"]) (s : Shader) :
    (unlines (sharedLines settings direction s)).toList.head? ≠ some 'l' := by
  rw [sharedLines, toList_unlines_append, List.head?_append]
  cases s.uniforms with
  | nil => simpa [uniformLines, unlines] using head?_unlines_interfaceLines hd _ (by decide)
  | cons v vs => simp [uniformLines, toList_unlines_cons]

/-- What stands between the header and the body is determined by a source. -/
theorem unlines_eq_of_source_eq {header : String} {ls ms : List String} {body : String}
    (h : unlines (header :: ls) ++ body = unlines (header :: ms) ++ body) :
    unlines ls = unlines ms := by
  have h := congrArg String.toList h
  simpa [toList_unlines_cons, String.toList_inj] using h

end Programs

/-- The sources of a program determine the types and names of the variables of its shader. -/
theorem signatures_of_program (settings : Settings) {s t : Shader} (hs : s.NamesAreLines)
    (ht : t.NamesAreLines) :
    (s.vertexBody = t.vertexBody →
      (s.program settings).vertexSource = (t.program settings).vertexSource →
      signatures s.attributes = signatures t.attributes ∧
        signatures s.uniforms = signatures t.uniforms ∧
        signatures s.varyings = signatures t.varyings) ∧
    (s.fragmentBody = t.fragmentBody →
      (s.program settings).fragmentSource = (t.program settings).fragmentSource →
      signatures s.uniforms = signatures t.uniforms ∧
        signatures s.varyings = signatures t.varyings) := by
  constructor
  · intro hbody h
    simp only [Shader.program, vertexPreamble_eq, ← attributeLines_zero, hbody] at h
    have h := congrArg String.toList (unlines_eq_of_source_eq h)
    rw [toList_unlines_append, toList_unlines_append, toList_unlines_attributeLines,
      toList_unlines_attributeLines] at h
    obtain ⟨hattributes, hshared⟩ := declarationText_append_inj head?_attributeLead
      (head?_unlines_sharedLines (by decide) s) (head?_unlines_sharedLines (by decide) t)
      (fun v hv => hs v (by simp [hv])) (fun v hv => ht v (by simp [hv])) h
    exact ⟨hattributes, sharedLines_inj (by decide) hs ht (String.toList_inj.mp hshared)⟩
  · intro hbody h
    simp only [Shader.program, fragmentPreamble_eq, hbody] at h
    exact sharedLines_inj (by decide) hs ht (unlines_eq_of_source_eq h)

/-- Two shaders that differ in what supplies a uniform have the same program, also where the
settings look like declarations. -/
theorem signatures_of_program_supplied :
    ∃ (settings : Settings) (s t : Shader), s.uniforms ≠ t.uniforms ∧ s.NamesAreLines ∧
      t.NamesAreLines ∧ s.vertexBody = t.vertexBody ∧
      (s.program settings).vertexSource = (t.program settings).vertexSource ∧
      signatures s.attributes = signatures t.attributes ∧
      signatures s.uniforms = signatures t.uniforms ∧
      signatures s.varyings = signatures t.varyings := by
  let settings : Settings :=
    { versionHeader := "layout(location = 0) in", interfaceBlock := "\nuniform mat4 m;\nout v"
      interfaceInstance := "v;\nuniform mat4 n" }
  let s : Shader :=
    { name := "s", attributes := [⟨"a", .vector .float .three, ""⟩]
      uniforms := [⟨"m", .square false .four, "camera"⟩]
      varyings := [⟨"uv", .vector .float .two, ""⟩] }
  let t : Shader := { s with uniforms := [⟨"m", .square false .four, ""⟩] }
  have hs : s.NamesAreLines := by simp [Shader.NamesAreLines, s]
  have ht : t.NamesAreLines := by simp [Shader.NamesAreLines, s, t]
  exact ⟨settings, s, t, by decide, hs, ht, rfl, rfl,
    (signatures_of_program settings hs ht).1 rfl rfl⟩

end RenderPlan
