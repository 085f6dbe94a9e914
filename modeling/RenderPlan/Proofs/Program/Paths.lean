import RenderPlan.Proofs.Description.WellFormed
import RenderPlan.Proofs.Description.Writing
import RenderPlan.Proofs.Program.Files
/-!
Paths of programs. Any trimmed text of one line names a shader, slashes in it included, and names
become parts of paths as they are. So what is written lies in the directory itself only as long as
no shader has a slash in its name, and outside where a name begins with one.
-/
namespace RenderPlan

open RenderPlan.Text
open Description (Stage)

/-- Every text that may name a block is the name of a shader in some description. -/
theorem exists_read_of_isTitle {name : String} (h : IsTitle name) :
    ∃ source, Description.read source = .ok { shaders := [{ name := name }] } := by
  have hopener : Description.Leads (Description.Holds {})
      [Description.lineText false .shader name.toList]
      (Description.At {} (.shader { name := name } none)) := .opener h rfl
  obtain ⟨_, hfeed, rfl⟩ := hopener.run (.inBlock {} .root) ⟨_, _, rfl, rfl⟩ 1
  refine ⟨String.ofList (unlinesReturn [Description.lineText false .shader name.toList]),
    Description.read_eq_ok_iff.mpr ⟨.inBlock {} (.shader { name := name } none), ?_, rfl⟩⟩
  rw [Description.linesOf, String.toList_ofList, lines_unlinesReturn hopener.lines]
  exact hfeed

theorem isTitle_of_read {source : String} {plan : Plan} (h : Description.read source = .ok plan) :
    ∀ s ∈ plan.shaders, IsTitle s.name := by
  have hplan : plan.WellFormed :=
    Description.wellFormed_of_readLines (Description.newline_not_mem_of_mem_linesOf _) h
  exact fun s hs => (hplan.shaders s hs).name

/-- The names of shaders are the trimmed texts of one line, whatever they are made of. -/
theorem isTitle_iff_exists_read (name : String) :
    IsTitle name ↔ ∃ source plan, Description.read source = .ok plan ∧
      ∃ s ∈ plan.shaders, s.name = name := by
  constructor
  · intro h
    obtain ⟨source, hread⟩ := exists_read_of_isTitle h
    exact ⟨source, _, hread, _, List.mem_singleton_self _, rfl⟩
  · rintro ⟨source, plan, hread, s, hs, rfl⟩
    exact isTitle_of_read hread s hs

/-- A name that begins with a slash leaves the directory out of its paths. -/
theorem filePath_of_head?_eq_slash {name : String} (h : name.toList.head? = some '/')
    (stage : Stage) (directory : String) :
    filePath directory (fileName name stage) = fileName name stage := by
  rw [filePath, toList_fileName, List.head?_append, h]
  rfl

/-- What is written lies in the directory itself exactly if no shader has a slash in its name.
The file of a name without slashes follows the path of the directory, and one that begins with a
slash is no part of any directory. Every trimmed text of one line is the name of a shader. -/
theorem dump_directory_iff {read? : String → Option Settings} {document : Option String}
    {settings : Settings} {source : String} {plan : Plan}
    (hs : document.elim (some {}) read? = some settings)
    (hr : Description.read source = .ok plan) :
    ((∀ file ∈ (dump read? document .directory source).files.map Prod.fst, IsComponent file) ↔
      ∀ s ∈ plan.shaders, '/' ∉ s.name.toList) ∧
    (∀ s ∈ plan.shaders, ∀ stage,
      fileName s.name stage ∈ (dump read? document .directory source).files.map Prod.fst ∧
      (IsComponent (fileName s.name stage) ↔ '/' ∉ s.name.toList) ∧
      ∀ directory,
        ('/' ∉ s.name.toList → filePath directory (fileName s.name stage) =
          directoryPrefix directory ++ fileName s.name stage) ∧
        (s.name.toList.head? = some '/' →
          filePath directory (fileName s.name stage) = fileName s.name stage)) ∧
    ∀ name, IsTitle name ↔ ∃ text named, Description.read text = .ok named ∧
      ∃ s ∈ named.shaders, s.name = name := by
  have hfile : ∀ s ∈ plan.shaders, ∀ stage,
      fileName s.name stage ∈ (dump read? document .directory source).files.map Prod.fst :=
    fun s hmem stage => (mem_names_dump hs hr _).mpr ⟨s, hmem, stage, rfl⟩
  refine ⟨⟨fun h s hmem => ?_, fun h file hmem => ?_⟩, fun s hmem stage => ?_,
    isTitle_iff_exists_read⟩
  · exact (isComponent_fileName_iff _ _).mp (h _ (hfile s hmem .vertex))
  · obtain ⟨s, hshader, stage, rfl⟩ := (mem_names_dump hs hr file).mp hmem
    exact (isComponent_fileName_iff _ _).mpr (h s hshader)
  · refine ⟨hfile s hmem stage, isComponent_fileName_iff _ _, fun directory => ⟨fun h => ?_, ?_⟩⟩
    · exact filePath_of_isComponent ((isComponent_fileName_iff s.name stage).mpr h) directory
    · exact fun h => filePath_of_head?_eq_slash h stage directory

/-- A shader whose name leads up, beside one whose name only looks like it. -/
theorem dump_directory_iff_upward :
    ¬(∀ file ∈ (dump Settings.read? none .directory
        "shader: ..\nshader: ../x\n").files.map Prod.fst, IsComponent file) ∧
      filePath "out/" (fileName ".." .vertex) = "out/...vert" ∧
      ¬IsComponent (fileName "../x" .fragment) ∧
      ∃ text plan, Description.read text = .ok plan ∧ ∃ s ∈ plan.shaders, s.name = "a/b" := by
  have hr : Description.read "shader: ..\nshader: ../x\n" =
      .ok { shaders := [{ name := ".." }, { name := "../x" }] } := by rfl
  have hs : (none : Option String).elim (some {}) Settings.read? = some {} := rfl
  obtain ⟨hall, heach, hnames⟩ := dump_directory_iff hs hr
  obtain ⟨-, -, hpath⟩ := heach { name := ".." } (by simp) .vertex
  obtain ⟨-, hcomponent, -⟩ := heach { name := "../x" } (by simp) .fragment
  refine ⟨mt hall.mp (by decide), ?_, mt hcomponent.mp (by decide), (hnames "a/b").mp (by decide)⟩
  exact (hpath "out/").1 (by decide)

/-- Files need not lie in the directory: a shader may have a name that leads out of it. -/
theorem dump_leaves_directory :
    Description.read "shader: ../x\n" = .ok { shaders := [{ name := "../x" }] } ∧
      (dump Settings.read? none .directory "shader: ../x\n").files.map Prod.fst =
        ["../x.vert", "../x.frag"] ∧
      ¬IsComponent "../x.vert" ∧ filePath "out" "../x.vert" = "out/../x.vert" ∧
      filePath "out" "/x.vert" = "/x.vert" := by
  refine ⟨by rfl, by rfl, by decide, by decide, by decide⟩

end RenderPlan
