import RenderPlan.Proofs.Plan.Data
import RenderPlan.Settings.Document
/-!
Files of programs. The names of the two files of a program belong to this program's name and to a
stage only, and programs written one after the other leave for each name the two files of the last
program of that name. These are the programs that the data of the same description show, from whose
text they can be told.
-/
namespace RenderPlan

open Description (Stage)

def Program.source (p : Program) : Stage → String
  | .vertex => p.vertexSource
  | .fragment => p.fragmentSource

/-- The file that a program of a name has for a stage. -/
def fileName (name : String) : Stage → String
  | .vertex => name ++ ".vert"
  | .fragment => name ++ ".frag"

/-- A path of one component, so that a file of this path lies in the directory itself. -/
def IsComponent (path : String) : Prop := '/' ∉ path.toList ∧ path ∉ ["", ".", ".."]

instance (path : String) : Decidable (IsComponent path) := inferInstanceAs (Decidable (_ ∧ _))

/-- The ending of the files for a stage. -/
def fileEnding : Stage → List Char
  | .vertex => ['.', 'v', 'e', 'r', 't']
  | .fragment => ['.', 'f', 'r', 'a', 'g']

theorem toList_fileName (name : String) (stage : Stage) :
    (fileName name stage).toList = name.toList ++ fileEnding stage := by
  cases stage with
  | vertex => exact String.toList_append
  | fragment => exact String.toList_append

@[simp] theorem length_fileEnding (stage : Stage) : (fileEnding stage).length = 5 := by
  cases stage <;> rfl

theorem slash_not_mem_fileEnding (stage : Stage) : '/' ∉ fileEnding stage := by
  cases stage <;> decide

theorem fileEnding_injective : Function.Injective fileEnding := by
  intro s t h
  cases s <;> cases t
  · rfl
  · exact absurd h (by decide)
  · exact absurd h (by decide)
  · rfl

/-- Whatever a name ends with, its files are not those of another name. -/
theorem fileName_inj {m n : String} {s t : Stage} (h : fileName m s = fileName n t) :
    m = n ∧ s = t := by
  have hlist := congrArg String.toList h
  rw [toList_fileName, toList_fileName] at hlist
  obtain ⟨hname, hending⟩ := List.append_inj' hlist (by simp)
  exact ⟨String.toList_inj.mp hname, fileEnding_injective hending⟩

theorem isComponent_fileName_iff (name : String) (stage : Stage) :
    IsComponent (fileName name stage) ↔ '/' ∉ name.toList := by
  have hlong : 5 ≤ (fileName name stage).toList.length := by
    rw [toList_fileName, List.length_append, length_fileEnding]
    omega
  have hnames : fileName name stage ∉ ["", ".", ".."] := by
    intro h
    have hshort : ∀ path ∈ ["", ".", ".."], path.toList.length < 5 := by decide
    exact absurd hlong (Nat.not_le.mpr (hshort _ h))
  rw [IsComponent, toList_fileName, List.mem_append, not_or]
  exact ⟨fun h => h.1.1, fun h => ⟨⟨h, slash_not_mem_fileEnding stage⟩, hnames⟩⟩

theorem Files.lookup_cons (name content other : String) (files : Files) :
    ((name, content) :: files).lookup other =
      if other = name then some content else files.lookup other := by
  by_cases h : other = name
  · simp [h]
  · simp [List.lookup_cons, beq_false_of_ne h, h]

/-- Files that are kept are found as before, others are not. -/
theorem Files.lookup_filter (files : Files) (keep : String → Bool) (other : String) :
    List.lookup other (files.filter fun f => keep f.1) =
      if keep other then files.lookup other else none := by
  induction files with
  | nil => simp
  | cons f files ih =>
    obtain ⟨n, c⟩ := f
    rw [List.filter_cons, Files.lookup_cons]
    by_cases h : other = n
    · subst h
      by_cases hk : keep other
      · simp [hk]
      · simp [hk, ih]
    · rw [if_neg h, ← ih]
      by_cases hk : keep n
      · simp [hk, Files.lookup_cons, h]
      · simp [hk]

theorem Files.lookup_put (files : Files) (name content other : String) :
    (files.put name content).lookup other =
      if other = name then some content else files.lookup other := by
  rw [Files.put, List.lookup_append, Files.lookup_cons, List.lookup_nil,
    Files.lookup_filter files (· ≠ name)]
  by_cases h : other = name
  · simp [h]
  · simp [h]

theorem Files.mem_names_put {files : Files} {name content other : String} :
    other ∈ (files.put name content).map Prod.fst ↔
      other = name ∨ other ∈ files.map Prod.fst := by
  rw [Files.put, List.map_append, List.mem_append, or_comm]
  by_cases h : other = name
  · simp [h]
  · simp [h]

theorem Files.nodup_names_put {files : Files} (h : (files.map Prod.fst).Nodup)
    (name content : String) : ((files.put name content).map Prod.fst).Nodup := by
  have hkept : ((files.filter fun f => f.1 ≠ name).map Prod.fst).Nodup :=
    h.sublist (List.filter_sublist.map Prod.fst)
  rw [Files.put, List.map_append, List.nodup_append]
  refine ⟨hkept, List.nodup_singleton _, ?_⟩
  intro a ha b hb
  obtain ⟨f, hf, rfl⟩ := List.mem_map.mp ha
  obtain rfl := List.mem_singleton.mp hb
  simpa using (List.mem_filter.mp hf).2

theorem Files.length_put {files : Files} {name : String} (h : name ∉ files.map Prod.fst)
    (content : String) : (files.put name content).length = files.length + 1 := by
  have hkept : files.filter (fun f => f.1 ≠ name) = files := by
    refine List.filter_eq_self.mpr fun f hf => ?_
    simpa using fun he => h (List.mem_map.mpr ⟨f, hf, he⟩)
  rw [Files.put, hkept, List.length_append]
  rfl

/-- A file that is found is one of the names. -/
theorem Files.mem_names_of_lookup {files : Files} {name content : String}
    (h : files.lookup name = some content) : name ∈ files.map Prod.fst := by
  induction files with
  | nil => cases h
  | cons f files ih =>
    obtain ⟨n, c⟩ := f
    rw [Files.lookup_cons] at h
    split at h
    · next hn => simp [hn]
    · exact List.mem_cons_of_mem _ (ih h)

theorem programFiles_concat (ps : List Program) (p : Program) :
    programFiles (ps ++ [p]) =
      ((programFiles ps).put (fileName p.name .vertex) (p.source .vertex)).put
        (fileName p.name .fragment) (p.source .fragment) := List.foldl_concat ..

/-- The last program written decides about its own two files only. -/
theorem lookup_programFiles_concat (ps : List Program) (p : Program) (name : String)
    (stage : Stage) : (programFiles (ps ++ [p])).lookup (fileName name stage) =
      if name = p.name then some (p.source stage)
      else (programFiles ps).lookup (fileName name stage) := by
  have hinj : ∀ s, fileName name stage = fileName p.name s ↔ name = p.name ∧ stage = s :=
    fun s => ⟨fileName_inj, fun h => by rw [h.1, h.2]⟩
  rw [programFiles_concat, Files.lookup_put, Files.lookup_put]
  simp only [hinj]
  by_cases h : name = p.name
  · cases stage <;> simp [h]
  · simp [h]

theorem mem_names_programFiles {ps : List Program} {file : String} :
    file ∈ (programFiles ps).map Prod.fst ↔ ∃ p ∈ ps, ∃ stage, file = fileName p.name stage := by
  induction ps using List.reverseRecOn with
  | nil => simp [programFiles]
  | append_singleton ps p ih =>
    rw [programFiles_concat, Files.mem_names_put, Files.mem_names_put, ih]
    constructor
    · rintro (h | h | ⟨q, hq, stage, h⟩)
      · exact ⟨p, by simp, .fragment, h⟩
      · exact ⟨p, by simp, .vertex, h⟩
      · exact ⟨q, by simp [hq], stage, h⟩
    · rintro ⟨q, hq, stage, h⟩
      rcases List.mem_append.mp hq with hq | hq
      · exact .inr (.inr ⟨q, hq, stage, h⟩)
      · rw [List.mem_singleton.mp hq] at h
        cases stage with
        | vertex => exact .inr (.inl h)
        | fragment => exact .inl h

theorem nodup_names_programFiles (ps : List Program) :
    ((programFiles ps).map Prod.fst).Nodup := by
  induction ps using List.reverseRecOn with
  | nil => exact List.nodup_nil
  | append_singleton ps p ih =>
    rw [programFiles_concat]
    exact Files.nodup_names_put (Files.nodup_names_put ih _ _) _ _

/-- A program behind which no other one of its name stands. -/
def Program.IsLastIn (p : Program) (ps : List Program) : Prop :=
  ∃ front back, ps = front ++ p :: back ∧ ∀ q ∈ back, q.name ≠ p.name

theorem exists_isLastIn {p : Program} {ps : List Program} (h : p ∈ ps) :
    ∃ q : Program, q.name = p.name ∧ q.IsLastIn ps := by
  induction ps using List.reverseRecOn with
  | nil => cases h
  | append_singleton ps a ih =>
    by_cases ha : a.name = p.name
    · exact ⟨a, ha, ps, [], rfl, by simp⟩
    · have hp : p ∈ ps := by
        rcases List.mem_append.mp h with h | h
        · exact h
        · exact absurd (congrArg Program.name (List.mem_singleton.mp h)).symm ha
      obtain ⟨q, hname, front, back, rfl, hback⟩ := ih hp
      refine ⟨q, hname, front, back ++ [a], by simp, ?_⟩
      exact List.forall_mem_append.mpr ⟨hback, by simpa [hname] using ha⟩

/-- A name's files hold the sources of the last program of that name, which no program written
behind it changes. -/
theorem Program.IsLastIn.lookup {p : Program} {ps : List Program} (h : p.IsLastIn ps)
    (stage : Stage) : (programFiles ps).lookup (fileName p.name stage) = some (p.source stage) := by
  obtain ⟨front, back, rfl, hback⟩ := h
  induction back using List.reverseRecOn with
  | nil => rw [lookup_programFiles_concat, if_pos rfl]
  | append_singleton back q ih =>
    obtain ⟨hback, hq⟩ := List.forall_mem_append.mp hback
    rw [← List.cons_append, ← List.append_assoc, lookup_programFiles_concat,
      if_neg (Ne.symm (hq q (by simp)))]
    exact ih hback

section Distinct

variable {ps : List Program} (h : (ps.map Program.name).Nodup)

include h

theorem isLastIn_of_distinct {p : Program} (hp : p ∈ ps) : p.IsLastIn ps := by
  obtain ⟨front, back, rfl⟩ := List.append_of_mem hp
  refine ⟨front, back, rfl, fun q hq hname => ?_⟩
  rw [List.map_append, List.map_cons] at h
  have hnot := (List.nodup_cons.mp (List.nodup_append.mp h).2.1).1
  exact hnot (List.mem_map.mpr ⟨q, hq, hname⟩)

theorem length_programFiles : (programFiles ps).length = 2 * ps.length := by
  induction ps using List.reverseRecOn with
  | nil => rfl
  | append_singleton ps p ih =>
    rw [List.map_append, List.nodup_append] at h
    obtain ⟨hps, -, hp⟩ := h
    have hnew : ∀ stage, fileName p.name stage ∉ (programFiles ps).map Prod.fst := by
      intro stage hmem
      obtain ⟨q, hq, s, hfile⟩ := mem_names_programFiles.mp hmem
      exact hp _ (List.mem_map_of_mem hq) _ (by simp) (fileName_inj hfile).1.symm
    have hboth : fileName p.name .fragment ∉
        ((programFiles ps).put (fileName p.name .vertex) (p.source .vertex)).map Prod.fst := by
      rw [Files.mem_names_put, not_or]
      exact ⟨fun he => Stage.noConfusion (fileName_inj he).2, hnew _⟩
    rw [programFiles_concat, Files.length_put hboth, Files.length_put (hnew _), ih hps,
      List.length_append]
    simp only [List.length_singleton]
    omega

/-- Where names are distinct, the programs can be told from the files. -/
theorem mem_iff_lookup_programFiles (p : Program) : p ∈ ps ↔
    ∀ stage, (programFiles ps).lookup (fileName p.name stage) = some (p.source stage) := by
  constructor
  · exact fun hp stage => (isLastIn_of_distinct h hp).lookup stage
  · intro hlookup
    obtain ⟨q, hq, s, hfile⟩ :=
      mem_names_programFiles.mp (Files.mem_names_of_lookup (hlookup .vertex))
    have hname := (fileName_inj hfile).1
    have hsource : ∀ stage, p.source stage = q.source stage := by
      intro stage
      have hlast := (isLastIn_of_distinct h hq).lookup stage
      rw [← hname, hlookup stage] at hlast
      exact Option.some.inj hlast
    have hvertex : p.vertexSource = q.vertexSource := hsource .vertex
    have hfragment : p.fragmentSource = q.fragmentSource := hsource .fragment
    obtain ⟨name, vertexSource, fragmentSource⟩ := p
    obtain ⟨name', vertexSource', fragmentSource'⟩ := q
    subst hname hvertex hfragment
    exact hq

end Distinct

/-- The text that shows programs as data. -/
def programsText (ps : List Program) : String := (Json.list (ps.map Program.toData)).pretty

theorem Program.toData_injective : Function.Injective Program.toData := by
  intro p q h
  obtain ⟨name, vertexSource, fragmentSource⟩ := p
  obtain ⟨name', vertexSource', fragmentSource'⟩ := q
  simpa [Program.toData] using h

theorem programsText_injective : Function.Injective programsText := by
  intro ps qs h
  have hregular : ∀ ps : List Program, Json.Regular (Json.list (ps.map Program.toData)) := by
    simp [Program.toData]
  have hlist := Json.list.inj (Json.pretty_inj (hregular ps) (hregular qs) h)
  exact List.map_injective_iff.mpr Program.toData_injective hlist

theorem filePath_of_isComponent {name : String} (h : IsComponent name) (directory : String) :
    filePath directory name = directoryPrefix directory ++ name :=
  if_neg fun hhead => h.1 (List.mem_of_mem_head? hhead)

/-- The paths of files that lie in a directory itself are as different as their names. -/
theorem nodup_filePath (directory : String) {names : List String} (hn : names.Nodup)
    (hc : ∀ name ∈ names, IsComponent name) : (names.map (filePath directory)).Nodup := by
  refine hn.map_on fun a ha b hb h => ?_
  rw [filePath_of_isComponent (hc a ha), filePath_of_isComponent (hc b hb), ← String.toList_inj,
    String.toList_append, String.toList_append, List.append_right_inj] at h
  exact String.toList_inj.mp h

/-- The files of a directory into which programs were written one after the other. -/
structure HoldsPrograms (files : Files) (ps : List Program) : Prop where
  nodup : (files.map Prod.fst).Nodup
  names : ∀ file, file ∈ files.map Prod.fst ↔ ∃ p ∈ ps, ∃ stage, file = fileName p.name stage
  last : ∀ p ∈ ps, ∃ q : Program, q.name = p.name ∧ q.IsLastIn ps
  /-- Both files of a name hold the sources of the last program of this name. -/
  sources : ∀ p : Program, p.IsLastIn ps →
    ∀ stage, files.lookup (fileName p.name stage) = some (p.source stage)
  distinct : (ps.map Program.name).Nodup → files.length = 2 * ps.length ∧
    ∀ p, p ∈ ps ↔ ∀ stage, files.lookup (fileName p.name stage) = some (p.source stage)

theorem holdsPrograms (ps : List Program) : HoldsPrograms (programFiles ps) ps where
  nodup := nodup_names_programFiles ps
  names _ := mem_names_programFiles
  last _ := exists_isLastIn
  sources _ := Program.IsLastIn.lookup
  distinct h := ⟨length_programFiles h, mem_iff_lookup_programFiles h⟩

theorem names_programs (plan : Plan) (settings : Settings) :
    (plan.programs settings).map Program.name = plan.shaders.map Shader.name := by
  rw [Plan.programs, List.map_map]
  rfl

section Dump

variable {read? : String → Option Settings} {document : Option String} {settings : Settings}
  {source : String} {plan : Plan} (hs : document.elim (some {}) read? = some settings)
  (hr : Description.read source = .ok plan)

include hs hr

theorem dump_of_read (target : Target) :
    dump read? document target source = deliver (plan.programs settings) target := by
  simp only [dump, hs, hr]

/-- The files written are those of the shaders' names. -/
theorem mem_names_dump (file : String) :
    file ∈ (dump read? document .directory source).files.map Prod.fst ↔
      ∃ s ∈ plan.shaders, ∃ stage, file = fileName s.name stage := by
  rw [dump_of_read hs hr]
  refine mem_names_programFiles.trans ?_
  simp only [Plan.programs, List.mem_map, exists_exists_and_eq_and]
  rfl

end Dump

/-- Both ways to write programs show the same ones. In a new directory lie, for each name of a
shader and for no other, the two files of the last program of this name in the list that is written
as data; no two files share a path, whatever their names end with. A command that cannot read its
settings or the description writes nothing. All this holds however settings are read. -/
theorem dump_files (read? : String → Option Settings) :
    (∀ (document : Option String) (settings : Settings) (source : String) (plan : Plan),
      document.elim (some {}) read? = some settings →
      Description.read source = .ok plan → (∀ s ∈ plan.shaders, '/' ∉ s.name.toList) →
      (plan.programs settings).map Program.name = plan.shaders.map Shader.name ∧
      (∀ file ps, (dump read? document (.document file) source).files = [(file, programsText ps)] ↔
        ps = plan.programs settings) ∧
      HoldsPrograms (dump read? document .directory source).files (plan.programs settings) ∧
      (∀ file ∈ (dump read? document .directory source).files.map Prod.fst, IsComponent file) ∧
      ∀ directory, (((dump read? document .directory source).files.map Prod.fst).map
        (filePath directory)).Nodup) ∧
    (∀ m n s t, fileName m s = fileName n t → m = n ∧ s = t) ∧
    ∀ (document : Option String) (source : String) (target : Target),
      (document.elim (some {}) read? = none ∨ ∃ e, Description.read source = .error e) →
      (dump read? document target source).files = [] := by
  refine ⟨fun document settings source plan hs hr hslash => ?_, fun _ _ _ _ => fileName_inj,
    fun document source target h => ?_⟩
  · have hholds : HoldsPrograms (dump read? document .directory source).files
        (plan.programs settings) := by
      rw [dump_of_read hs hr]
      exact holdsPrograms _
    have hcomponent : ∀ file ∈ (dump read? document .directory source).files.map Prod.fst,
        IsComponent file := by
      intro file hfile
      obtain ⟨s, hmem, stage, rfl⟩ := (mem_names_dump hs hr file).mp hfile
      exact (isComponent_fileName_iff _ _).mpr (hslash s hmem)
    refine ⟨names_programs plan settings, fun file ps => ?_, hholds, hcomponent,
      fun directory => nodup_filePath directory hholds.nodup hcomponent⟩
    rw [dump_of_read hs hr]
    change [(file, programsText (plan.programs settings))] = [(file, programsText ps)] ↔ _
    rw [List.cons.injEq, Prod.mk.injEq, programsText_injective.eq_iff]
    simp only [true_and, and_true]
    exact eq_comm
  · rcases h with h | ⟨e, h⟩
    · simp only [dump, h]
      rfl
    · cases hs : document.elim (some {}) read? <;> simp only [dump, hs, h] <;> rfl

/-- Two shaders of one name, and one that is named like a file of theirs. -/
theorem dump_files_of_one_name :
    let files :=
      (dump Settings.read? none .directory
        "shader: a\nshader: a.vert\nshader: a\n uniforms: [u: int]\n").files
    let last : Shader := { name := "a", uniforms := [⟨"u", .scalar .int, ""⟩] }
    files.lookup "a.vert" = some (last.program {}).vertexSource ∧
      files.lookup "a.frag" = some (last.program {}).fragmentSource ∧
      "a.vert.vert" ∈ files.map Prod.fst := by
  intro files last
  have hr : Description.read "shader: a\nshader: a.vert\nshader: a\n uniforms: [u: int]\n" =
      .ok { shaders := [{ name := "a" }, { name := "a.vert" }, last] } := by rfl
  obtain ⟨-, -, hfiles, -, -⟩ := (dump_files Settings.read?).1 none {} _ _ rfl hr (by decide)
  have hlast : (last.program {}).IsLastIn
      (Plan.programs {} { shaders := [{ name := "a" }, { name := "a.vert" }, last] }) :=
    ⟨[Shader.program {} { name := "a" }, Shader.program {} { name := "a.vert" }], [], rfl, by simp⟩
  refine ⟨hfiles.sources _ hlast .vertex, hfiles.sources _ hlast .fragment, ?_⟩
  exact (hfiles.names _).mpr
    ⟨Shader.program {} { name := "a.vert" }, by simp [Plan.programs], .vertex, by decide⟩

end RenderPlan
