import RenderPlan.Proofs.Description.Declarations
import RenderPlan.Proofs.Description.ListSpacing
import RenderPlan.Proofs.Description.VariableGrammar
import Mathlib.Logic.Relation
/-!
The layout of lists of variables. A comma between two entries and a line feed mean the same, and a
comma behind the last entry of a line or of the list means nothing. So a list may be broken after
any of its commas and may be given trailing commas, as long as no line that arises is a comment:
it is collected up to the same bracket and says the same.
-/
namespace RenderPlan.Description

open RenderPlan.Text

theorem variableEntries_append_sep {c : Char} (h : endsVariable c = true) (a b : List Char) :
    variableEntries (a ++ c :: b) = variableEntries a ++ variableEntries b := by
  rw [variableEntries, pieces_append_sep h, List.map_append, List.filter_append]
  rfl

/-- Blank characters at the end of a text say nothing, line feeds among them included. -/
theorem variableEntries_append_of_blank {v : List Char} (h : ∀ c ∈ v, isBlank c = true)
    (s : List Char) : variableEntries (s ++ v) = variableEntries s := by
  cases hcut : cutAt '\n' v with
  | none => exact variableEntries_append_blank h (cutAt_eq_none_iff.mp hcut) s
  | some p =>
    obtain ⟨rfl, hn⟩ := cutAt_eq_some_iff.mp hcut
    obtain ⟨hfirst, hrest⟩ := List.forall_mem_append.mp h
    have hrest := (List.forall_mem_cons.mp hrest).2
    rw [← List.append_assoc, variableEntries_append, variableEntries_blank hrest, List.append_nil,
      variableEntries_append_blank hfirst hn]

/-- A comma among the blank characters at the end of a text says nothing either. -/
theorem variableEntries_append_comma {w v : List Char} (hw : ∀ c ∈ w, isBlank c = true)
    (hv : ∀ c ∈ v, isBlank c = true) (a : List Char) :
    variableEntries (a ++ (w ++ ',' :: v)) = variableEntries a := by
  rw [← List.append_assoc, variableEntries_append_sep (by rfl), variableEntries_blank hv,
    List.append_nil, variableEntries_append_of_blank hw]

/-- A list as it stands in a text: what follows its opening bracket, and the lines below. -/
structure Layout where
  opened : List Char
  below : List (List Char)
  deriving DecidableEq, Repr

/-- Other lines for one line of a list: it is broken after a comma, which then is left out, or a
comma is added at its end or before the closing bracket. Blank characters beside the comma may come
and go. -/
inductive Rewritten : List Char → Layout → Prop
  | broken {a w b : List Char} (ha : ']' ∉ a) (hw : ∀ c ∈ w, isBlank c = true)
      (hb : isComment b = false) : Rewritten (a ++ (w ++ ',' :: b)) ⟨a, [b]⟩
  | trailing {a w v v' : List Char} (ha : ']' ∉ a) (hw : ∀ c ∈ w, isBlank c = true)
      (hv : ∀ c ∈ v, isBlank c = true) (hv' : ∀ c ∈ v', isBlank c = true) :
      Rewritten (a ++ w) ⟨a ++ (v ++ ',' :: v'), []⟩
  | closing {a w v v' rest : List Char} (ha : ']' ∉ a) (hw : ∀ c ∈ w, isBlank c = true)
      (hv : ∀ c ∈ v, isBlank c = true) (hv' : ∀ c ∈ v', isBlank c = true) :
      Rewritten (a ++ (w ++ ']' :: rest)) ⟨a ++ (v ++ ',' :: (v' ++ ']' :: rest)), []⟩

/-- One line of a list is laid out anew: the one with the opening bracket, or a line below it that
is no comment and belongs to the list still. -/
inductive Relaid : Layout → Layout → Prop
  | opening {opened : List Char} {r : Layout} {below : List (List Char)}
      (h : Rewritten opened r) : Relaid ⟨opened, below⟩ ⟨r.opened, r.below ++ below⟩
  | below {opened text : List Char} {front back : List (List Char)} {r : Layout}
      (hopened : ']' ∉ opened) (hfront : ∀ t ∈ front, isComment t = true ∨ ']' ∉ t)
      (htext : isComment text = false) (h : Rewritten text r) :
      Relaid ⟨opened, front ++ text :: back⟩ ⟨opened, front ++ r.opened :: (r.below ++ back)⟩

namespace Layout

/-- What is collected of a list whose lines below the opening bracket are numbered from `n`. -/
def collect (t : Layout) (n : Nat) : Option (List Char × List Char) × Cursor :=
  (⟨numberFrom n t.below⟩ : Cursor).collect ('[' :: t.opened)

end Layout

/-- Two lists are collected with the same entries up to the same place. -/
structure SameCollected (r r' : Option (List Char × List Char) × Cursor) : Prop where
  content : r.1.map (fun p => (variableEntries p.1, p.2)) =
    r'.1.map (fun p => (variableEntries p.1, p.2))
  behind : r.2.remaining.map Line.text = r'.2.remaining.map Line.text

theorem SameCollected.trans {r r' r'' : Option (List Char × List Char) × Cursor}
    (h : SameCollected r r') (h' : SameCollected r' r'') : SameCollected r r'' :=
  ⟨h.content.trans h'.content, h.behind.trans h'.behind⟩

/-- Reading on from texts with the same entries over the same lines. The induction is on the lines,
each of which is a comment, closes the list, or adds the same entries to both. -/
theorem sameCollected_closeBracket {a b : List Char} (h : variableEntries a = variableEntries b)
    {ls ls' : List Line} (hls : ls.map Line.text = ls'.map Line.text) :
    SameCollected (Cursor.closeBracket a ls) (Cursor.closeBracket b ls') := by
  induction ls generalizing a b ls' with
  | nil =>
    obtain rfl : ls' = [] := by simpa using hls.symm
    exact ⟨rfl, rfl⟩
  | cons l ls ih =>
    obtain ⟨l', ls', rfl, htext, hrest⟩ := List.map_eq_cons_iff.mp hls.symm
    rw [Cursor.closeBracket, Cursor.closeBracket, htext]
    by_cases hl : isComment l.text = true
    · rw [if_pos hl, if_pos hl]
      exact ih h hrest.symm
    · rw [if_neg hl, if_neg hl]
      cases hcut : cutAt ']' l.text with
      | none =>
        simp only [Bracket.extend, hcut]
        refine ih ?_ hrest.symm
        rw [variableEntries_append, variableEntries_append, h]
      | some p =>
        obtain ⟨last, rest⟩ := p
        simp only [Bracket.extend, hcut]
        refine ⟨?_, hrest.symm⟩
        simp [variableEntries_append, h]

/-- What is collected from a line on that is joined to the text before it by `before`. -/
def collectFrom (before : List Char → List Char) (text : List Char) (ls : List Line) :
    Option (List Char × List Char) × Cursor :=
  match cutAt ']' text with
  | none => Cursor.closeBracket (before text) ls
  | some (last, rest) => (some (before last, rest), ⟨ls⟩)

theorem Layout.collect_eq_collectFrom (opened : List Char) (below : List (List Char)) (n : Nat) :
    Layout.collect ⟨opened, below⟩ n = collectFrom id opened (numberFrom n below) := by
  simp only [Layout.collect, Cursor.collect, Bracket.start, collectFrom]
  cases cutAt ']' opened <;> rfl

theorem closeBracket_eq_collectFrom {l : Line} (h : isComment l.text = false) (inner : List Char)
    (ls : List Line) : Cursor.closeBracket inner (l :: ls) =
      collectFrom (fun x => inner ++ '\n' :: x) l.text ls := by
  simp only [Cursor.closeBracket, h, Bracket.extend, collectFrom]
  cases cutAt ']' l.text <;> rfl

theorem collectFrom_unclosed {before : List Char → List Char} {text : List Char}
    (h : ']' ∉ text) (ls : List Line) :
    collectFrom before text ls = Cursor.closeBracket (before text) ls := by
  simp only [collectFrom, cutAt_eq_none_iff.mpr h]

theorem collectFrom_closed {before : List Char → List Char} {last : List Char} (h : ']' ∉ last)
    (rest : List Char) (ls : List Line) :
    collectFrom before (last ++ ']' :: rest) ls = (some (before last, rest), ⟨ls⟩) := by
  simp only [collectFrom, cutAt_eq_some_iff.mpr ⟨rfl, h⟩]

theorem closing_not_mem_of_blank {w : List Char} (h : ∀ c ∈ w, isBlank c = true) : ']' ∉ w := by
  intro hmem
  simpa using h ']' hmem

/-- A line that is laid out anew is collected as before. -/
theorem sameCollected_of_rewritten {before : List Char → List Char} {es : List (List Char)}
    (hbefore : ∀ x, variableEntries (before x) = es ++ variableEntries x) {text : List Char}
    {r : Layout} (h : Rewritten text r) {ls ls' : List Line}
    (hls : ls.map Line.text = ls'.map Line.text) (n : Nat) :
    SameCollected (collectFrom before text ls)
      (collectFrom before r.opened (numberFrom n r.below ++ ls')) := by
  cases h with
  | @broken a w b ha hw hb =>
    have hentries (x : List Char) : variableEntries (before (a ++ (w ++ ',' :: x))) =
        variableEntries (before a ++ '\n' :: x) := by
      rw [variableEntries_append, hbefore, hbefore, ← List.append_assoc,
        variableEntries_append_sep (by rfl), variableEntries_append_of_blank hw, List.append_assoc]
    have hw' := closing_not_mem_of_blank hw
    rw [collectFrom_unclosed ha, numberFrom_cons, numberFrom_nil, List.cons_append,
      List.nil_append, closeBracket_eq_collectFrom hb]
    cases hcut : cutAt ']' b with
    | none =>
      have hbracket := cutAt_eq_none_iff.mp hcut
      rw [collectFrom_unclosed hbracket, collectFrom_unclosed (by simp [ha, hw', hbracket])]
      exact sameCollected_closeBracket (hentries b) hls
    | some p =>
      obtain ⟨last, rest⟩ := p
      obtain ⟨rfl, hlast⟩ := cutAt_eq_some_iff.mp hcut
      have hsplit : a ++ (w ++ ',' :: (last ++ ']' :: rest)) =
          (a ++ (w ++ ',' :: last)) ++ ']' :: rest := by simp
      rw [collectFrom_closed hlast, hsplit, collectFrom_closed (by simp [ha, hw', hlast])]
      refine ⟨?_, hls⟩
      simp [hentries]
  | @trailing a w v v' ha hw hv hv' =>
    rw [collectFrom_unclosed (by simp [ha, closing_not_mem_of_blank hw]),
      collectFrom_unclosed (by
        simp [ha, closing_not_mem_of_blank hv, closing_not_mem_of_blank hv'])]
    refine sameCollected_closeBracket ?_ (by simpa using hls)
    rw [hbefore, hbefore, variableEntries_append_of_blank hw, variableEntries_append_comma hv hv']
  | @closing a w v v' rest ha hw hv hv' =>
    have hsplit : a ++ (w ++ ']' :: rest) = (a ++ w) ++ ']' :: rest := by simp
    have hsplit' : a ++ (v ++ ',' :: (v' ++ ']' :: rest)) =
        (a ++ (v ++ ',' :: v')) ++ ']' :: rest := by simp
    rw [hsplit, hsplit', collectFrom_closed (by simp [ha, closing_not_mem_of_blank hw]),
      collectFrom_closed (by
        simp [ha, closing_not_mem_of_blank hv, closing_not_mem_of_blank hv'])]
    refine ⟨?_, by simpa using hls⟩
    simp [hbefore, variableEntries_append_of_blank hw, variableEntries_append_comma hv hv']

theorem isComment_append {a : List Char} (h : trimStart a ≠ []) (r : List Char) :
    isComment (a ++ r) = isComment a := by
  obtain ⟨c, t, hc⟩ := List.exists_cons_of_ne_nil h
  simp [isComment, startsWith, trimStart_append_of_ne_nil h, hc]

theorem isComment_blank_append_comma {w : List Char} (h : ∀ c ∈ w, isBlank c = true)
    (r : List Char) : isComment (w ++ ',' :: r) = false := by
  rw [isComment, startsWith, trimStart_blank_append h, trimStart_cons_solid isBlank_comma]
  rfl

/-- The first line that arises starts as the old one did, or with the comma. -/
theorem Rewritten.isComment_opened {text : List Char} {r : Layout} (h : Rewritten text r)
    (htext : isComment text = false) : isComment r.opened = false := by
  cases h with
  | @broken a w b ha hw hb =>
    by_cases hstart : trimStart a = []
    · simp [isComment, startsWith, hstart]
    · rwa [isComment_append hstart] at htext
  | @trailing a w v v' ha hw hv hv' =>
    by_cases hstart : trimStart a = []
    · have hblank := List.forall_mem_append.mpr ⟨trimStart_eq_nil_iff.mp hstart, hv⟩
      simpa using isComment_blank_append_comma hblank v'
    · rw [isComment_append hstart] at htext ⊢
      exact htext
  | @closing a w v v' rest ha hw hv hv' =>
    by_cases hstart : trimStart a = []
    · have hblank := List.forall_mem_append.mpr ⟨trimStart_eq_nil_iff.mp hstart, hv⟩
      simpa using isComment_blank_append_comma hblank (v' ++ ']' :: rest)
    · rw [isComment_append hstart] at htext ⊢
      exact htext

/-- The lines before the one that is laid out anew are read alike. -/
theorem sameCollected_below {front : List (List Char)}
    (hfront : ∀ t ∈ front, isComment t = true ∨ ']' ∉ t) {text : List Char}
    (htext : isComment text = false) {r : Layout} (h : Rewritten text r)
    (back : List (List Char)) (inner : List Char) (n : Nat) :
    SameCollected (Cursor.closeBracket inner (numberFrom n (front ++ text :: back)))
      (Cursor.closeBracket inner
        (numberFrom n (front ++ r.opened :: (r.below ++ back)))) := by
  induction front generalizing inner n with
  | nil =>
    rw [List.nil_append, List.nil_append, numberFrom_cons, numberFrom_cons,
      closeBracket_eq_collectFrom htext,
      closeBracket_eq_collectFrom (h.isComment_opened htext), numberFrom_append]
    refine sameCollected_of_rewritten (variableEntries_append inner) h ?_ _
    rw [map_text_numberFrom, map_text_numberFrom]
  | cons t front ih =>
    obtain ⟨ht, hfront⟩ := List.forall_mem_cons.mp hfront
    rw [List.cons_append, List.cons_append, numberFrom_cons, numberFrom_cons, Cursor.closeBracket,
      Cursor.closeBracket]
    by_cases hc : isComment t = true
    · rw [if_pos hc, if_pos hc]
      exact ih hfront inner (n + 1)
    · rw [if_neg hc, if_neg hc]
      simp only [Bracket.extend, cutAt_eq_none_iff.mpr (ht.resolve_left hc)]
      exact ih hfront (inner ++ '\n' :: t) (n + 1)

theorem Relaid.sameCollected {t t' : Layout} (h : Relaid t t') (n : Nat) :
    SameCollected (t.collect n) (t'.collect n) := by
  cases h with
  | @opening opened r below h =>
    rw [Layout.collect_eq_collectFrom, Layout.collect_eq_collectFrom, numberFrom_append]
    have hid (x : List Char) : variableEntries (id x) = [] ++ variableEntries x := rfl
    refine sameCollected_of_rewritten hid h ?_ n
    rw [map_text_numberFrom, map_text_numberFrom]
  | @below opened text front back r hopened hfront htext h =>
    rw [Layout.collect_eq_collectFrom, Layout.collect_eq_collectFrom,
      collectFrom_unclosed hopened, collectFrom_unclosed hopened]
    exact sameCollected_below hfront htext h back opened n

/-- However many lines are laid out anew, the list is collected as before. -/
theorem sameCollected_of_relaid {t t' : Layout} (h : Relation.ReflTransGen Relaid t t') (n : Nat) :
    SameCollected (t.collect n) (t'.collect n) := by
  induction h with
  | refl => exact ⟨rfl, rfl⟩
  | tail _ hstep ih => exact ih.trans (hstep.sameCollected n)

theorem SameCollected.exists_closed {r r' : Option (List Char × List Char) × Cursor}
    (h : SameCollected r r') {inner rest : List Char} (hr : r.1 = some (inner, rest)) :
    ∃ inner', r'.1 = some (inner', rest) ∧ variableEntries inner' = variableEntries inner := by
  have hcontent := h.content
  rw [hr, Option.map_some, eq_comm, Option.map_eq_some_iff] at hcontent
  obtain ⟨⟨inner', rest'⟩, hr', heq⟩ := hcontent
  obtain ⟨hentries, rfl⟩ := Prod.mk.inj heq
  exact ⟨inner', hr', hentries⟩

/-- The field whose list is being read for a shader and, it may be, an open stage. -/
def Role.listField (s : Shader) (st : Option OpenStage) : Role → ListField
  | .attributes => .attributes s st
  | .uniforms => .uniforms s
  | .varyings => .varyings s

section

variable {r : Role} {s : Shader} {st : Option OpenStage}

@[simp] theorem Role.kind_listField : (r.listField s st).kind = .uniform := by cases r <;> rfl

theorem Role.fill_listField (inner : List Char) : (r.listField s st).fill inner =
    (readVariables inner).map fun vs => .shader (r.add s vs) (r.behind st) := by
  cases r <;> rfl

theorem continueList_congr {inner inner' : List Char}
    (h : variableEntries inner' = variableEntries inner) (plan : Plan) (line : Nat)
    (opening opening' rest : List Char) :
    continueList plan (r.listField s st) line opening' (.closed inner' rest) =
      continueList plan (r.listField s st) line opening (.closed inner rest) := by
  simp only [continueList, Role.fill_listField, readVariables, h]

end

/-- Lists of variables and their grammar. An entry has at most one reading. A list that is
closed with only blank characters behind it is accepted exactly if each of its entries has one, and
then it declares one variable for each, in order; otherwise the first entry without a reading is
reported on the line of the field. Where lines of the list are broken at a comma or given a trailing
one, the list ends at the same place and says the same. -/
theorem continueList_variables (plan : Plan) (r : Role) (s : Shader) (st : Option OpenStage)
    (line : Nat) (opening inner rest : List Char) (h : trim rest = []) :
    (∀ e p q, ReadsAs e p → ReadsAs e q → p = q) ∧
    (∀ state, continueList plan (r.listField s st) line opening (.closed inner rest) = .ok state ↔
      ∃ vs, List.Forall₂ (fun e v => ∃ p, ReadsAs e p ∧ p.toVariable = v)
          (variableEntries inner) vs ∧
        state = .inBlock plan (.shader (r.add s vs) (r.behind st))) ∧
    (∀ e, continueList plan (r.listField s st) line opening (.closed inner rest) = .error e ↔
      ∃ front found back, variableEntries inner = front ++ found :: back ∧
        (∀ x ∈ front, ∃ p, ReadsAs x p) ∧ (¬∃ p, ReadsAs found p) ∧
        e = ⟨line, .malformedList .uniform (String.ofList found)⟩) ∧
    ∀ (t t' : Layout) (n : Nat), Relation.ReflTransGen Relaid t t' →
      (t.collect n).1 = some (inner, rest) → ∃ inner', (t'.collect n).1 = some (inner', rest) ∧
        (t'.collect n).2.remaining.map Line.text = (t.collect n).2.remaining.map Line.text ∧
        ∀ opening', continueList plan (r.listField s st) line opening' (.closed inner' rest) =
          continueList plan (r.listField s st) line opening (.closed inner rest) := by
  refine ⟨fun e p q hp hq => hp.unique hq, fun state => ?_, fun e => ?_, fun t t' n ht hr => ?_⟩
  · rw [continueList_closed h, Role.fill_listField]
    cases hread : readVariables inner with
    | error found =>
      simp only [← readVariables_eq_ok_iff, hread]
      simp [Except.map, malformedList, fail]
    | ok vs =>
      simp only [← readVariables_eq_ok_iff, hread]
      simp [Except.map, eq_comm]
  · rw [continueList_closed_eq_error_iff h]
    simp only [Role.fill_listField, Role.kind_listField, map_eq_error_iff,
      readVariables_eq_error_iff]
    constructor
    · rintro ⟨found, ⟨front, back, hsplit, hfront, hno⟩, rfl⟩
      exact ⟨front, found, back, hsplit, hfront, hno, rfl⟩
    · rintro ⟨front, found, back, hsplit, hfront, hno, rfl⟩
      exact ⟨found, ⟨front, back, hsplit, hfront, hno⟩, rfl⟩
  · have hsame := sameCollected_of_relaid ht n
    obtain ⟨inner', hr', hentries⟩ := hsame.exists_closed hr
    exact ⟨inner', hr', hsame.behind.symm, fun opening' =>
      continueList_congr hentries plan line opening opening' rest⟩

/-- Two variables on one line, the first of them supplied; they may stand on two lines as well, each
with a comma behind it. -/
theorem continueList_variables_supplied :
    trim " ".toList = [] ∧
      ∃ inner, ((⟨" a:b <-n".toList, [" d : e,] ".toList]⟩ : Layout).collect 4).1 =
          some (inner, " ".toList) ∧
        ∀ opening, continueList {} (Role.uniforms.listField { name := "s" } none) 3 opening
            (.closed inner " ".toList) =
          .ok (.inBlock {} (.shader { name := "s", uniforms :=
            [⟨"a", .ofName "b", "n"⟩, ⟨"d", .ofName "e", ""⟩] } none)) := by
  have hblank : trim " ".toList = [] := by decide
  obtain ⟨-, hok, -, hlayout⟩ := continueList_variables {} .uniforms { name := "s" } none 3
    "[ a:b <-n, d : e] ".toList " a:b <-n, d : e".toList " ".toList hblank
  have hrelaid : Relation.ReflTransGen Relaid ⟨" a:b <-n, d : e] ".toList, []⟩
      ⟨" a:b <-n".toList, [" d : e,] ".toList]⟩ := by
    have hbroken : Rewritten " a:b <-n, d : e] ".toList
        ⟨" a:b <-n".toList, [" d : e] ".toList]⟩ :=
      @Rewritten.broken " a:b <-n".toList [] " d : e] ".toList (by decide) (by simp) (by decide)
    have hclosing : Rewritten " d : e] ".toList ⟨" d : e,] ".toList, []⟩ :=
      @Rewritten.closing " d : e".toList [] [] [] " ".toList (by decide) (by simp) (by simp)
        (by simp)
    refine .tail (.single (.opening hbroken)) ?_
    exact @Relaid.below _ _ [] [] _ (by decide) (by simp) (by decide) hclosing
  obtain ⟨inner, hinner, -, heq⟩ := hlayout _ _ 4 hrelaid (by decide)
  refine ⟨hblank, inner, hinner, fun opening => (heq opening).trans ((hok _).mpr ⟨_, ?_, rfl⟩)⟩
  have hone {q : Char → Prop} {c : Char} (h : q c) : ∀ d ∈ [c], q d :=
    List.forall_mem_singleton.mpr h
  have hfirst : ReadsAs "a:b <-n".toList ⟨['a'], [], [], ['b'], some ⟨[' '], [], ['n']⟩⟩ := by
    refine ⟨⟨by simp, hone (by decide), by simp, by simp, by simp, hone (by decide), ?_⟩, rfl⟩
    rintro b ⟨⟩
    exact ⟨by simp, by simp, by simp, hone (by decide)⟩
  have hsecond : ReadsAs "d : e".toList ⟨['d'], [' '], [' '], ['e'], none⟩ :=
    ⟨⟨by simp, hone (by decide), by simp, by simp, by simp, hone (by decide), by simp⟩, rfl⟩
  exact .cons ⟨_, hfirst, rfl⟩ (.cons ⟨_, hsecond, rfl⟩ .nil)

end RenderPlan.Description
