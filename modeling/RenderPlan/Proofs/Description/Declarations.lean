import RenderPlan.Proofs.Description.Body
import RenderPlan.Proofs.Description.Descent
import RenderPlan.Proofs.Description.WellFormed
import RenderPlan.Proofs.Program.Locations
/-!
What a shader block declares. The groups of a text say in which order its fields stand, whether in a
stage or in the block itself. The lists of one keyword are joined in this order; a stage takes the
attributes behind it with it and ends at any other field but a source, and of a stage that is opened
again the last source of the last part counts. The order of the attributes is that of their
locations in the program.
-/
namespace RenderPlan.Description

/-- The lists of variables of a shader. -/
inductive Role where
  | attributes | uniforms | varyings
  deriving DecidableEq, Repr

def Role.keyword : Role → Keyword
  | .attributes => .attributes
  | .uniforms => .uniforms
  | .varyings => .varying

def Role.of (s : Shader) : Role → List Variable
  | .attributes => s.attributes
  | .uniforms => s.uniforms
  | .varyings => s.varyings

namespace Group

/-- The variables in the list of a field. -/
def entries (g : Group) : Except (List Char) (List Variable) :=
  match g.content with
  | .list inner => readVariables inner
  | _ => .ok []

def source? (g : Group) : Option (List Char) :=
  match g.content with
  | .body text => some text
  | _ => none

/-- Whether a field leaves the stage open that it stands in. -/
def inStage (g : Group) : Bool := g.keyword == .source || g.keyword == .attributes

end Group

/-- The variables of all lists of a keyword, in the order of the text. -/
def declared (k : Keyword) (gs : List Group) : Except (List Char) (List Variable) :=
  ((gs.filter fun g => g.keyword == k).mapM Group.entries).map List.flatten

/-- The fields of a stage, part by part if it is opened again and again. -/
def partsOf (stage : Stage) : List Group → List (List Group)
  | [] => []
  | g :: gs =>
    if g.keyword = stage.keyword then gs.takeWhile Group.inStage :: partsOf stage gs
    else partsOf stage gs

def sources (gs : List Group) : List (List Char) := gs.filterMap Group.source?

/-- The shader with more variables in one of its lists. -/
def Role.add (s : Shader) (vs : List Variable) : Role → Shader
  | .attributes => { s with attributes := s.attributes ++ vs }
  | .uniforms => { s with uniforms := s.uniforms ++ vs }
  | .varyings => { s with varyings := s.varyings ++ vs }

/-- The stage that is open behind a list of variables. -/
def Role.behind (st : Option OpenStage) : Role → Option OpenStage
  | .attributes => st
  | _ => none

/-- The fields ahead that belong to the stage that is open, if it is the given one. -/
def ahead (st : Option OpenStage) (stage : Stage) (gs : List Group) : List Group :=
  if st.any fun o => o.stage = stage then gs.takeWhile Group.inStage else []

/-- The part of a stage that comes last in the fields ahead. -/
def lastPart (st : Option OpenStage) (stage : Stage) (gs : List Group) : List Group :=
  (partsOf stage gs).getLast?.getD (ahead st stage gs)

/-- The fields ahead make the shader `s'` of the shader that is open. -/
structure Completes (s : Shader) (st : Option OpenStage) (gs : List Group) (s' : Shader) :
    Prop where
  name : s'.name = s.name
  lists : ∀ r : Role, ∃ vs, declared r.keyword gs = .ok vs ∧ r.of s' = r.of s ++ vs
  bodies : ∀ stage, bodyOf s' stage =
    ((sources (lastPart st stage gs)).getLast?.map String.ofList).getD (bodyOf s stage)
  /-- The stage that is open has a source or finds one ahead. -/
  sourced : ∀ o ∈ st, o.hasSource = true ∨ sources (gs.takeWhile Group.inStage) ≠ []
  parts : ∀ stage, ∀ part ∈ partsOf stage gs, sources part ≠ []

section Step

variable {g : Group} {gs : List Group} {s s' : Shader}

end Step

def Block.isPass : Block → Bool
  | .pass _ => true
  | _ => false

def Block.isShader : Block → Bool
  | .shader .. => true
  | _ => false

/-- The shader that comes of the block that is open, if it is one, and of the fields ahead. -/
inductive Ends : Block → List Group → List Shader → Prop
  | shader {s s' : Shader} {st : Option OpenStage} {gs : List Group}
      (h : Completes s st gs s') : Ends (.shader s st) gs [s']
  | other {block : Block} {gs : List Group} (h : block.isShader = false) : Ends block gs []

theorem opensBlockIn_eq_opens (block : Block) (g : Group) :
    opensBlockIn block g.field g.keyword = g.opens block.isPass := by
  obtain ⟨f, k, content⟩ := g
  cases block <;> cases k <;> simp [opensBlockIn, Group.opens, Block.isPass, Keyword.opensBlock]

theorem isPass_of_newBlock? {name : String} {k : Keyword} {next : Block}
    (h : newBlock? name k = some next) : next.isPass = (k == .pass) := by
  cases k <;> cases h <;> rfl

/-- A field does not change what kind of block is open. -/
theorem kind_of_takes {g : Group} {block block' : Block} (h : Takes g block block') :
    block'.isPass = block.isPass ∧ block'.isShader = block.isShader := by
  cases h with
  | sets hs hc =>
    generalize g.keyword = k at hs
    cases hs <;> exact ⟨rfl, rfl⟩
  | list hl hc hf =>
    generalize g.keyword = k at hl
    cases hl <;>
      obtain ⟨_, _, rfl⟩ := exists_of_map_eq_ok hf <;> exact ⟨rfl, rfl⟩
  | outputs => exact ⟨rfl, rfl⟩
  | source => exact ⟨rfl, rfl⟩

end RenderPlan.Description
