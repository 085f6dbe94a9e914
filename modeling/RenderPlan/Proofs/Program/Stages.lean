import RenderPlan.Proofs.Description.WellFormed
import RenderPlan.Proofs.Program.Decoding
import RenderPlan.Proofs.Program.Files
/-!
What the two stages of a program share and what they keep apart. Both declare the same uniforms and
the same interface block, which only the word for its direction tells apart; nothing of one stage
gets into the other, and what supplies a variable gets into neither. Every body that is read ends
its last line, so programs may be listed one behind the other.
-/
namespace RenderPlan

open RenderPlan.Text

/-- Variables declared one to a line, each behind `lead`. -/
def declarations (lead : String) (vs : List Variable) : String :=
  unlines (vs.map fun v => lead ++ v.type.name ++ " " ++ v.name ++ ";")

/-- The block of varyings without the word for its direction. -/
def interfaceBlock (settings : Settings) (vs : List Variable) : String :=
  settings.interfaceBlock ++ " \x7b\n" ++ declarations "    " vs ++ "\x7d "
    ++ settings.interfaceInstance ++ ";\n"

/-- Two sources with the same uniforms and the same block of varyings. -/
structure SharesInterface (settings : Settings) (s : Shader) (p : Program)
    (uniforms block : String) : Prop where
  name : p.name = s.name
  uniforms_eq : uniforms = declarations "uniform " s.uniforms
  block_eq : block = interfaceBlock settings s.varyings
  vertexSource : p.vertexSource = settings.versionHeader ++ "\n"
    ++ unlines (locationLines s.attributes) ++ uniforms
    ++ (if s.varyings = [] then "" else "out " ++ block) ++ s.vertexBody
  fragmentSource : p.fragmentSource = settings.versionHeader ++ "\n" ++ uniforms
    ++ (if s.varyings = [] then "" else "in " ++ block) ++ s.fragmentBody

theorem unlines_append (ls ms : List String) : unlines (ls ++ ms) = unlines ls ++ unlines ms := by
  rw [← String.toList_inj, toList_unlines_append, String.toList_append]

theorem unlines_uniformLines (vs : List Variable) :
    unlines (uniformLines vs) = declarations "uniform " vs := by
  simp only [uniformLines, declarations, Variable.declaration, String.append_assoc]

theorem unlines_interfaceLines (settings : Settings) (direction : String) (vs : List Variable) :
    unlines (interfaceLines settings direction vs) =
      if vs = [] then "" else direction ++ " " ++ interfaceBlock settings vs := by
  by_cases h : vs = []
  · rw [if_pos h, h]
    rfl
  · have hne : vs.isEmpty = false := by simpa using h
    rw [if_neg h, interfaceLines, hne, if_neg Bool.false_ne_true, List.cons_append, unlines_cons,
      unlines_append, interfaceBlock, declarations]
    simp [unlines, Variable.declaration, String.append_assoc]

theorem sharesInterface (settings : Settings) (s : Shader) :
    SharesInterface settings s (s.program settings) (declarations "uniform " s.uniforms)
      (interfaceBlock settings s.varyings) := by
  constructor
  · rfl
  · rfl
  · rfl
  · rw [Shader.program, vertexPreamble_eq, unlines_cons, unlines_append, sharedLines,
      unlines_append, unlines_uniformLines, unlines_interfaceLines]
    simp only [String.append_assoc]
    rfl
  · rw [Shader.program, fragmentPreamble_eq, unlines_cons, sharedLines, unlines_append,
      unlines_uniformLines, unlines_interfaceLines]
    simp only [String.append_assoc]
    rfl

section Signatures

variable {vs ws : List Variable} (h : signatures vs = signatures ws)

include h

theorem declarations_congr (lead : String) : declarations lead vs = declarations lead ws := by
  have hmap (us : List Variable) : us.map (fun v => lead ++ v.type.name ++ " " ++ v.name ++ ";") =
      (signatures us).map fun x => lead ++ x.1.name ++ " " ++ x.2 ++ ";" := by
    rw [signatures, List.map_map]
    rfl
  rw [declarations, declarations, hmap, hmap, h]

theorem locationLines_congr : locationLines vs = locationLines ws := by
  have hmap (us : List Variable) : locationLines us = (signatures us).mapIdx fun i x =>
      "layout(location = " ++ Nat.repr i ++ ") in " ++ x.1.name ++ " " ++ x.2 ++ ";" := by
    refine List.ext_getElem? fun i => ?_
    simp [locationLines, signatures, Function.comp_def]
  rw [hmap, hmap, h]

theorem interface_congr (settings : Settings) (direction : String) :
    (if vs = [] then "" else direction ++ interfaceBlock settings vs) =
      if ws = [] then "" else direction ++ interfaceBlock settings ws := by
  have hnil : vs = [] ↔ ws = [] := by
    rw [← List.map_eq_nil_iff (f := fun v : Variable => (v.type, v.name)), ← signatures, h,
      signatures, List.map_eq_nil_iff]
  simp only [hnil, interfaceBlock, declarations_congr h]

end Signatures

section Congr

variable (settings : Settings) {s t : Shader} (hu : signatures s.uniforms = signatures t.uniforms)
  (hv : signatures s.varyings = signatures t.varyings)

include hu hv

/-- The vertex source depends on the types and names of all variables and on the vertex body. -/
theorem vertexSource_congr (ha : signatures s.attributes = signatures t.attributes)
    (hb : s.vertexBody = t.vertexBody) :
    (s.program settings).vertexSource = (t.program settings).vertexSource := by
  rw [(sharesInterface settings s).vertexSource, (sharesInterface settings t).vertexSource,
    locationLines_congr ha, declarations_congr hu, interface_congr hv, hb]

/-- The fragment source depends on those of uniforms and varyings and on the fragment body. -/
theorem fragmentSource_congr (hb : s.fragmentBody = t.fragmentBody) :
    (s.program settings).fragmentSource = (t.program settings).fragmentSource := by
  rw [(sharesInterface settings s).fragmentSource, (sharesInterface settings t).fragmentSource,
    declarations_congr hu, interface_congr hv, hb]

end Congr

/-- Both sources end with a line feed. -/
def Program.EndsLines (p : Program) : Prop :=
  p.vertexSource.toList.getLast? = some '\n' ∧ p.fragmentSource.toList.getLast? = some '\n'

/-- The line above a source. -/
def Program.header (p : Program) (stage : String) : String :=
  "// ---- " ++ p.name ++ " (" ++ stage ++ ") ----\n"

/-- A listing of programs in order in which every header starts a line of its own. -/
def ListsUnderHeaders (ps : List Program) (text : String) : Prop :=
  ∀ front p back, ps = front ++ p :: back →
    text = listing front ++ p.header "vertex" ++ p.vertexSource ++ p.header "fragment"
      ++ p.fragmentSource ++ listing back ∧
    EndsLine (listing front).toList ∧ EndsLine p.vertexSource.toList

theorem endsLine_append {a b : List Char} (ha : EndsLine a) (hb : EndsLine b) :
    EndsLine (a ++ b) := by
  rcases hb with rfl | hb
  · rwa [List.append_nil]
  · exact .inr (by rw [List.getLast?_append, hb]; rfl)

theorem endsLine_unlines (ls : List String) : EndsLine (unlines ls).toList := by
  induction ls with
  | nil => exact .inl rfl
  | cons l ls ih =>
    rw [unlines_cons, String.toList_append]
    exact endsLine_append (.inr (by simp)) ih

/-- A source ends with a line feed, that of its header if there is no other. -/
theorem getLast?_source (l : String) (ls : List String) {body : String} (h : IsBody body) :
    (unlines (l :: ls) ++ body).toList.getLast? = some '\n' := by
  rw [String.toList_append]
  refine (endsLine_append (endsLine_unlines (l :: ls)) h.1).resolve_left ?_
  rw [toList_unlines_cons]
  simp

theorem Shader.endsLines_program (settings : Settings) {s : Shader} (h : s.WellFormed) :
    (s.program settings).EndsLines :=
  ⟨getLast?_source _ _ h.vertexBody, getLast?_source _ _ h.fragmentBody⟩

theorem listing_append (ps qs : List Program) : listing (ps ++ qs) = listing ps ++ listing qs := by
  rw [← String.toList_inj]
  simp [listing]

theorem listing_cons (p : Program) (ps : List Program) :
    listing (p :: ps) = p.header "vertex" ++ p.vertexSource ++ p.header "fragment"
      ++ p.fragmentSource ++ listing ps := by
  rw [← String.toList_inj]
  simp [listing, Program.header]

theorem endsLine_listing {ps : List Program} (h : ∀ p ∈ ps, p.EndsLines) :
    EndsLine (listing ps).toList := by
  induction ps with
  | nil => exact .inl rfl
  | cons p ps ih =>
    obtain ⟨hp, hps⟩ := List.forall_mem_cons.mp h
    rw [listing_cons, String.toList_append]
    refine endsLine_append (.inr ?_) (ih hps)
    rw [String.toList_append, List.getLast?_append, hp.2]
    rfl

theorem listsUnderHeaders_listing {ps : List Program} (h : ∀ p ∈ ps, p.EndsLines) :
    ListsUnderHeaders ps (listing ps) := by
  rintro front p back rfl
  obtain ⟨hfront, hrest⟩ := List.forall_mem_append.mp h
  refine ⟨?_, endsLine_listing hfront, .inr (hrest p (by simp)).1⟩
  rw [listing_append, listing_cons]
  simp only [String.append_assoc]

theorem endsLines_of_read {source : String} {plan : Plan}
    (h : Description.read source = .ok plan) (settings : Settings) :
    ∀ p ∈ plan.programs settings, p.EndsLines := by
  have hplan : plan.WellFormed :=
    Description.wellFormed_of_readLines (Description.newline_not_mem_of_mem_linesOf _) h
  rw [Plan.programs, List.forall_mem_map]
  exact fun s hs => s.endsLines_program settings (hplan.shaders s hs)

/-- The two stages of a program agree on their interface and keep apart what is their own. -/
theorem program_stages (settings : Settings) :
    (∀ s : Shader, ∃ uniforms block,
      SharesInterface settings s (s.program settings) uniforms block) ∧
    (∀ s t : Shader, signatures s.uniforms = signatures t.uniforms →
      signatures s.varyings = signatures t.varyings →
      (s.fragmentBody = t.fragmentBody →
        (s.program settings).fragmentSource = (t.program settings).fragmentSource) ∧
      (signatures s.attributes = signatures t.attributes → s.vertexBody = t.vertexBody →
        (s.program settings).vertexSource = (t.program settings).vertexSource)) ∧
    (∀ (plan : Plan) (i : Nat),
      (plan.programs settings)[i]? = plan.shaders[i]?.map (Shader.program settings)) ∧
    (∀ source plan, Description.read source = .ok plan →
      (∀ p ∈ plan.programs settings, p.EndsLines) ∧
      ∀ (read? : String → Option Settings) (document : Option String),
        document.elim (some {}) read? = some settings →
        ListsUnderHeaders (plan.programs settings)
          (dump read? document .screen source).stdout) := by
  refine ⟨fun s => ⟨_, _, sharesInterface settings s⟩, fun s t hu hv =>
    ⟨fragmentSource_congr settings hu hv, vertexSource_congr settings hu hv⟩,
    fun plan i => List.getElem?_map, fun source plan hread => ?_⟩
  have hends := endsLines_of_read hread settings
  refine ⟨hends, fun read? document hsettings => ?_⟩
  rw [dump_of_read hsettings hread]
  exact listsUnderHeaders_listing hends

/-- A shader with one body and a shader without any; what supplies a uniform does not matter. -/
theorem program_stages_listed :
    ∃ plan s t, Description.read ("shader: a\n uniforms: [m: mat4 <- view]\n fsh:\n" ++
        " source: \x60\n f\n\x60\nshader: b\n") = .ok plan ∧
      plan.shaders = [s, t] ∧
      (s.program {}).fragmentSource =
        (Shader.program {} { s with
          vertexBody := "v", uniforms := [⟨"m", .square false .four, ""⟩] }).fragmentSource ∧
      ListsUnderHeaders (plan.programs {}) (dump Settings.read? none .screen
        ("shader: a\n uniforms: [m: mat4 <- view]\n fsh:\n" ++
          " source: \x60\n f\n\x60\nshader: b\n")).stdout := by
  have hread : Description.read ("shader: a\n uniforms: [m: mat4 <- view]\n fsh:\n" ++
      " source: \x60\n f\n\x60\nshader: b\n") = .ok
        { shaders := [{ name := "a", fragmentBody := " f\n"
                        uniforms := [⟨"m", .square false .four, "view"⟩] }, { name := "b" }] } := by
    rfl
  obtain ⟨-, hcongr, -, hlisted⟩ := program_stages {}
  exact ⟨_, _, _, hread, rfl, (hcongr _ _ rfl rfl).1 rfl, (hlisted _ _ hread).2 _ none rfl⟩

end RenderPlan
