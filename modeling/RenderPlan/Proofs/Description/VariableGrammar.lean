import RenderPlan.Proofs.Description.ListOutcome
import RenderPlan.Proofs.Description.ListText
/-!
The grammar of lists of variables. An entry is put together from its parts: a name, a colon, a type
and, it may be, an arrow and a source, with blank characters around the colon and the arrow. What is
read of an entry are these parts, and there is only one way to cut an entry into them; so a list is
read exactly if all its entries are of this form, and otherwise the first that is not is reported.
-/
namespace RenderPlan.Description

open RenderPlan.Text

/-- What stands behind the type of a variable that is supplied. -/
structure Binding where
  beforeArrow : List Char
  afterArrow : List Char
  automatic : List Char
  deriving DecidableEq, Repr

/-- The parts of an entry of a list of variables. -/
structure VariableEntry where
  name : List Char
  beforeColon : List Char
  afterColon : List Char
  type : List Char
  binding : Option Binding
  deriving DecidableEq, Repr

namespace Binding

def text (b : Binding) : List Char :=
  b.beforeArrow ++ '<' :: '-' :: (b.afterArrow ++ b.automatic)

/-- Blank characters around the arrow, and a source without any. -/
structure WellFormed (b : Binding) : Prop where
  beforeArrow : ∀ c ∈ b.beforeArrow, isBlank c = true
  afterArrow : ∀ c ∈ b.afterArrow, isBlank c = true
  automatic_ne : b.automatic ≠ []
  automatic : ∀ c ∈ b.automatic, isBlank c = false

end Binding

namespace VariableEntry

def bindingText (p : VariableEntry) : List Char := p.binding.elim [] Binding.text

def text (p : VariableEntry) : List Char :=
  p.name ++ (p.beforeColon ++ ':' :: (p.afterColon ++ (p.type ++ p.bindingText)))

/-- What supplies the variable, if anything does. -/
def automatic (p : VariableEntry) : List Char := p.binding.elim [] Binding.automatic

/-- The variable that an entry declares. -/
def toVariable (p : VariableEntry) : Variable :=
  ⟨String.ofList p.name, .ofName (String.ofList p.type), String.ofList p.automatic⟩

/-- Blank characters around the colon, and a name and a type that hold neither any nor what ends
them. -/
structure WellFormed (p : VariableEntry) : Prop where
  name_ne : p.name ≠ []
  name : ∀ c ∈ p.name, isBlank c = false ∧ c ≠ ':'
  beforeColon : ∀ c ∈ p.beforeColon, isBlank c = true
  afterColon : ∀ c ∈ p.afterColon, isBlank c = true
  type_ne : p.type ≠ []
  type : ∀ c ∈ p.type, isBlank c = false ∧ c ≠ '<'
  binding : ∀ b ∈ p.binding, b.WellFormed

end VariableEntry

/-- A text is an entry that consists of the given parts. -/
structure ReadsAs (e : List Char) (p : VariableEntry) : Prop where
  wellFormed : p.WellFormed
  text : p.text = e

/-- Behind a part there are blank characters or the character that ends the part. -/
theorem head_of_gap {q : Char → Bool} (hblank : ∀ c, isBlank c = true → q c = false)
    {w : List Char} (hw : ∀ c ∈ w, isBlank c = true) {d : Char} (hd : q d = false)
    (r : List Char) : ∀ c ∈ (w ++ d :: r).head?, q c = false := by
  intro c hc
  cases w with
  | nil =>
    cases hc
    exact hd
  | cons b w =>
    cases hc
    exact hblank c (hw c (by simp))

/-- Behind blank characters there is the first character of a part that has none. -/
theorem head_of_solid {a : List Char} (hne : a ≠ []) (ha : ∀ c ∈ a, isBlank c = false)
    (r : List Char) : ∀ c ∈ (a ++ r).head?, isBlank c = false := by
  intro c hc
  obtain ⟨b, a, rfl⟩ := List.exists_cons_of_ne_nil hne
  cases hc
  exact ha c (by simp)

theorem inName_of_isBlank (c : Char) (h : isBlank c = true) : inName c = false := by
  simp [inName, h]

theorem inType_of_isBlank (c : Char) (h : isBlank c = true) : inType c = false := by
  simp [inType, h]

theorem isBlank_arrow : isBlank '<' = false := by decide

namespace Binding.WellFormed

variable {b : Binding} (h : b.WellFormed)

include h

theorem head_text : ∀ c ∈ b.text.head?, inType c = false :=
  head_of_gap inType_of_isBlank h.beforeArrow (by decide) _

theorem readAutomatic?_text : readAutomatic? b.text = some b.automatic := by
  have hstart : trimStart b.text = '<' :: '-' :: (b.afterArrow ++ b.automatic) := by
    rw [text, trimStart_blank_append h.beforeArrow, trimStart_cons_solid isBlank_arrow]
  have hauto : trimStart (b.afterArrow ++ b.automatic) = b.automatic := by
    rw [trimStart_blank_append h.afterArrow]
    simpa using trimStart_append_of_solid h.automatic_ne h.automatic []
  have hblank : b.automatic.any isBlank = false := by
    rw [List.any_eq_false]
    intro c hc
    simp [h.automatic c hc]
  have hne : b.text.isEmpty = false := by simp [text]
  simp [readAutomatic?, hne, hstart, hauto, hblank, h.automatic_ne]

theorem text_inj {b' : Binding} (h' : b'.WellFormed) (heq : b.text = b'.text) : b = b' := by
  obtain ⟨hbefore, hrest⟩ := scan_inj h.beforeArrow h'.beforeArrow
    (by simp [isBlank_arrow]) (by simp [isBlank_arrow]) heq
  obtain ⟨hafter, hauto⟩ := scan_inj h.afterArrow h'.afterArrow
    (by simpa using head_of_solid h.automatic_ne h.automatic [])
    (by simpa using head_of_solid h'.automatic_ne h'.automatic [])
    (List.cons_inj_right _ |>.mp (List.cons_inj_right _ |>.mp hrest))
  cases b
  cases b'
  cases hbefore
  cases hafter
  cases hauto
  rfl

end Binding.WellFormed

namespace VariableEntry.WellFormed

variable {p : VariableEntry} (h : p.WellFormed)

include h

theorem inName_name : ∀ c ∈ p.name, inName c = true := by
  intro c hc
  simp [inName, h.name c hc]

theorem inType_type : ∀ c ∈ p.type, inType c = true := by
  intro c hc
  simp [inType, h.type c hc]

theorem head_bindingText : ∀ c ∈ p.bindingText.head?, inType c = false := by
  unfold bindingText
  cases hb : p.binding with
  | none => simp
  | some b => exact (h.binding b hb).head_text

theorem readAutomatic?_bindingText : readAutomatic? p.bindingText = some p.automatic := by
  unfold bindingText automatic
  cases hb : p.binding with
  | none => rfl
  | some b => exact (h.binding b hb).readAutomatic?_text

/-- The parts of an entry are read back from it. -/
theorem readVariable?_text : readVariable? p.text = some p.toVariable := by
  obtain ⟨hname, hrest⟩ := scan_append h.inName_name
    (head_of_gap inName_of_isBlank h.beforeColon (d := ':') (by decide)
      (p.afterColon ++ (p.type ++ p.bindingText)))
  have hcolon : trimStart (p.beforeColon ++ ':' :: (p.afterColon ++ (p.type ++ p.bindingText))) =
      ':' :: (p.afterColon ++ (p.type ++ p.bindingText)) := by
    rw [trimStart_blank_append h.beforeColon, trimStart_cons_solid isBlank_colon]
  have hstart : trimStart (p.afterColon ++ (p.type ++ p.bindingText)) =
      p.type ++ p.bindingText := by
    rw [trimStart_blank_append h.afterColon]
    exact trimStart_append_of_solid h.type_ne (fun c hc => (h.type c hc).1) _
  obtain ⟨htype, hbinding⟩ := scan_append h.inType_type h.head_bindingText
  rw [readVariable?, text, hname, hrest, hcolon]
  simp [hstart, htype, hbinding, h.name_ne, h.type_ne, h.readAutomatic?_bindingText, toVariable]

theorem bindingText_inj {q : VariableEntry} (h' : q.WellFormed)
    (heq : p.bindingText = q.bindingText) : p.binding = q.binding := by
  unfold bindingText at heq
  cases hb : p.binding with
  | none =>
    cases hb' : q.binding with
    | none => rfl
    | some b' => simp [hb, hb', Binding.text] at heq
  | some b =>
    cases hb' : q.binding with
    | none => simp [hb, hb', Binding.text] at heq
    | some b' =>
      rw [hb, hb'] at heq
      rw [(h.binding b hb).text_inj (h'.binding b' hb') heq]

/-- An entry can be cut into its parts in one way only: each part is scanned up to a character
that it cannot hold. -/
theorem text_inj {q : VariableEntry} (h' : q.WellFormed) (heq : p.text = q.text) : p = q := by
  obtain ⟨hname, hrest⟩ := scan_inj h.inName_name h'.inName_name
    (head_of_gap inName_of_isBlank h.beforeColon (by decide) _)
    (head_of_gap inName_of_isBlank h'.beforeColon (by decide) _) heq
  obtain ⟨hbefore, hrest⟩ := scan_inj h.beforeColon h'.beforeColon (by simp) (by simp) hrest
  obtain ⟨hafter, hrest⟩ := scan_inj h.afterColon h'.afterColon
    (head_of_solid h.type_ne (fun c hc => (h.type c hc).1) _)
    (head_of_solid h'.type_ne (fun c hc => (h'.type c hc).1) _) (List.cons_inj_right _ |>.mp hrest)
  obtain ⟨htype, hbinding⟩ := scan_inj h.inType_type h'.inType_type h.head_bindingText
    h'.head_bindingText hrest
  have hbind := h.bindingText_inj h' hbinding
  cases p
  cases q
  cases hname
  cases hbefore
  cases hafter
  cases htype
  cases hbind
  rfl

end VariableEntry.WellFormed

theorem ReadsAs.unique {e : List Char} {p q : VariableEntry} (h : ReadsAs e p)
    (h' : ReadsAs e q) : p = q :=
  h.wellFormed.text_inj h'.wellFormed (h.text.trans h'.text.symm)

theorem exists_binding {r a : List Char} (h : readAutomatic? r = some a) :
    ∃ b : Option Binding, (∀ x ∈ b, x.WellFormed) ∧ b.elim [] Binding.text = r ∧
      b.elim [] Binding.automatic = a := by
  unfold readAutomatic? at h
  split at h
  · next hr =>
    cases h
    exact ⟨none, by simp, (List.isEmpty_iff.mp hr).symm, rfl⟩
  · split at h
    · next q hq =>
      dsimp only at h
      split at h
      · cases h
      · next hn =>
        cases h
        simp only [Bool.or_eq_true, List.isEmpty_iff, List.any_eq_true, not_or, not_exists,
          not_and, Bool.not_eq_true] at hn
        obtain ⟨w, rfl, hw⟩ := exists_gap hq
        obtain ⟨w', hw', hblank⟩ := exists_gap (s := q) rfl
        refine ⟨some ⟨w, w', trimStart q⟩, ?_, ?_, rfl⟩
        · rintro x ⟨⟩
          exact ⟨hw, hblank, hn.1, hn.2⟩
        · simp only [Option.elim_some, Binding.text, ← hw']
    · cases h

theorem exists_readsAs {e : List Char} {v : Variable} (h : readVariable? e = some v) :
    ∃ p, ReadsAs e p ∧ p.toVariable = v := by
  unfold readVariable? at h
  split at h
  · next r hr =>
    dsimp only at h
    split at h
    · cases h
    · next hn =>
      obtain ⟨a, ha, rfl⟩ := Option.map_eq_some_iff.mp h
      simp only [Bool.or_eq_true, List.isEmpty_iff, not_or] at hn
      obtain ⟨w, hw, hblank⟩ := exists_gap hr
      obtain ⟨w', hw', hblank'⟩ := exists_gap (s := r) rfl
      obtain ⟨b, hb, htext, hauto⟩ := exists_binding ha
      refine ⟨⟨e.takeWhile inName, w, w', (trimStart r).takeWhile inType, b⟩, ⟨?_, ?_⟩, ?_⟩
      · refine ⟨hn.1, fun c hc => ?_, hblank, hblank', hn.2, fun c hc => ?_, hb⟩
        · simpa [inName] using List.all_eq_true.mp List.all_takeWhile c hc
        · simpa [inType] using List.all_eq_true.mp List.all_takeWhile c hc
      · simp only [VariableEntry.text, VariableEntry.bindingText, htext,
          List.takeWhile_append_dropWhile, ← hw', ← hw]
      · simp only [VariableEntry.toVariable, VariableEntry.automatic, hauto]
  · cases h

/-- What is read of an entry is what its parts say. -/
theorem readVariable?_eq_some_iff {e : List Char} {v : Variable} :
    readVariable? e = some v ↔ ∃ p, ReadsAs e p ∧ p.toVariable = v := by
  constructor
  · exact exists_readsAs
  · rintro ⟨p, ⟨hp, rfl⟩, rfl⟩
    exact hp.readVariable?_text

/-- A list is read exactly if its entries have parts, and then as what these say. -/
theorem readVariables_eq_ok_iff {inner : List Char} {vs : List Variable} :
    readVariables inner = .ok vs ↔
      List.Forall₂ (fun e v => ∃ p, ReadsAs e p ∧ p.toVariable = v) (variableEntries inner) vs := by
  rw [readVariables, mapM_eq_ok_iff]
  simp only [← readVariable?_eq_some_iff]
  constructor <;> refine List.Forall₂.imp fun e v h => ?_
  · cases hv : readVariable? e with
    | some u => simpa [hv] using h
    | none => simp [hv] at h
  · rw [h]

/-- Otherwise the first entry without parts is at fault. -/
theorem readVariables_eq_error_iff {inner found : List Char} :
    readVariables inner = .error found ↔ ∃ front back,
      variableEntries inner = front ++ found :: back ∧ (∀ e ∈ front, ∃ p, ReadsAs e p) ∧
        ¬∃ p, ReadsAs found p := by
  have hread (e : List Char) : (∃ v, readVariable? e = some v) ↔ ∃ p, ReadsAs e p := by
    simp only [readVariable?_eq_some_iff]
    exact ⟨fun ⟨_, p, hp, _⟩ => ⟨p, hp⟩, fun ⟨p, hp⟩ => ⟨_, p, hp, rfl⟩⟩
  rw [readVariables, mapM_eq_error_iff]
  constructor
  · rintro ⟨front, e, back, hsplit, hfront, he⟩
    cases hv : readVariable? e with
    | some v => simp [hv] at he
    | none =>
      obtain rfl : e = found := by simpa [hv] using he
      refine ⟨front, back, hsplit, fun x hx => (hread x).mp ?_, fun hp => ?_⟩
      · obtain ⟨v, hv⟩ := hfront x hx
        cases hx : readVariable? x with
        | some v => exact ⟨v, rfl⟩
        | none => simp [hx] at hv
      · obtain ⟨v, hv'⟩ := (hread e).mpr hp
        simp [hv] at hv'
  · rintro ⟨front, back, hsplit, hfront, hno⟩
    refine ⟨front, found, back, hsplit, fun x hx => ?_, ?_⟩
    · obtain ⟨v, hv⟩ := (hread x).mpr (hfront x hx)
      exact ⟨v, by rw [hv]⟩
    · cases hv : readVariable? found with
      | some v => exact absurd ((hread found).mp ⟨v, hv⟩) hno
      | none => rfl

end RenderPlan.Description
