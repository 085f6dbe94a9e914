import RenderPlan.Proofs.Description.AttachmentGrammar
import RenderPlan.Proofs.Description.NameGrammar
import RenderPlan.Proofs.Description.VariableGrammar
import RenderPlan.Proofs.Scale.Exact
/-!
Lists written and read back. A list is written on one line without blank characters, each entry
ended by its separator. What is written is of the form that the grammar of its kind asks for, since
no part of an entry contains what would end it; an attachment may even be called `scale`, for no
colon follows its name.
-/
namespace RenderPlan.Description

open RenderPlan.Text

/-- Entries that are each ended by a separator. -/
def entriesText (sep : Char) (entries : List (List Char)) : List Char :=
  entries.flatMap fun e => e ++ [sep]

/-- A text that can stand as an entry of a list: it is not empty, and no blank character and no end
of the entry or of the list occurs in it. -/
def IsEntry (sep : Char) (e : List Char) : Prop :=
  e ≠ [] ∧ ∀ c ∈ e, isBlank c = false ∧ c ≠ sep ∧ c ≠ ']'

/-- A text that contains neither end may stand in an entry. -/
theorem of_mem_freeOf {stops : List Char} {s : String} (h : FreeOf stops s) {sep : Char}
    (hsep : sep ∈ stops) (hclosing : ']' ∈ stops) :
    ∀ c ∈ s.toList, isBlank c = false ∧ c ≠ sep ∧ c ≠ ']' :=
  fun c hc => ⟨h.isBlank_eq_false c hc, h.ne hsep c hc, h.ne hclosing c hc⟩

/-- A scan for a blank character or one of the stops goes over all of a text without them. -/
theorem scan_of_freeOf {stops : List Char} {s : String} (h : FreeOf stops s) {d : Char}
    (hd : d ∈ stops) : ∀ c ∈ s.toList, (!isBlank c && c != d) = true := by
  intro c hc
  simp [h.isBlank_eq_false c hc, h.ne hd c hc]

theorem closing_not_mem_entriesText {sep : Char} (hsep : sep ≠ ']') {entries : List (List Char)}
    (h : ∀ e ∈ entries, IsEntry sep e) : ']' ∉ entriesText sep entries := by
  intro hm
  obtain ⟨e, he, hc⟩ := List.mem_flatMap.mp hm
  rcases List.mem_append.mp hc with hc | hc
  · exact ((h e he).2 _ hc).2.2 rfl
  · exact hsep (List.mem_singleton.mp hc).symm

/-- The entries of a written list are its pieces, with an empty one behind them. -/
theorem pieces_entriesText {ends : Char → Bool} {sep : Char} (hsep : ends sep = true)
    (hends : ∀ c, ends c = true → c = sep ∨ isBlank c = true) {entries : List (List Char)}
    (h : ∀ e ∈ entries, IsEntry sep e) :
    pieces ends (entriesText sep entries) = entries ++ [[]] := by
  refine pieces_flatMap_ended hsep fun e he c hc => Bool.eq_false_iff.mpr fun hend => ?_
  obtain ⟨hblank, hne, _⟩ := (h e he).2 c hc
  rcases hends c hend with rfl | hb
  · exact hne rfl
  · rw [hblank] at hb
    cases hb

/-- Only the empty piece behind the entries does not count. -/
theorem filter_entries {sep : Char} {entries : List (List Char)}
    (h : ∀ e ∈ entries, IsEntry sep e) :
    ((entries ++ [[]]).filter fun e => !e.isEmpty) = entries := by
  rw [List.filter_append, List.filter_eq_self.mpr]
  · simp
  · intro e he
    simpa using (h e he).1

/-- Entries that are each read as what they were written for are read as all of it. -/
theorem mapM_map_eq_ok {ε α β γ : Type} {f : β → Except ε γ} {g : α → β} {r : α → γ}
    {as : List α} (h : ∀ a ∈ as, f (g a) = .ok (r a)) :
    (as.map g).mapM f = .ok (as.map r) := by
  induction as with
  | nil => rfl
  | cons a as ih =>
    rw [List.map_cons, List.mapM_cons, h a (by simp), ih fun b hb => h b (by simp [hb])]
    rfl

/-- What supplies a variable, behind an arrow. -/
def automaticText (automatic : String) : List Char :=
  if automatic = "" then [] else '<' :: '-' :: automatic.toList

def variableText (v : Variable) : List Char :=
  v.name.toList ++ ':' :: (v.type.name.toList ++ automaticText v.automatic)

/-- The parts that a variable is written with. -/
def variableParts (v : Variable) : VariableEntry where
  name := v.name.toList
  beforeColon := []
  afterColon := []
  type := v.type.name.toList
  binding := if v.automatic = "" then none else some ⟨[], [], v.automatic.toList⟩

theorem readsAs_variableText {v : Variable} (h : v.WellFormed) :
    ReadsAs (variableText v) (variableParts v) := by
  obtain ⟨⟨hname, hin⟩, hauto⟩ := h
  obtain ⟨htype, htin⟩ := v.type.isWord_name
  constructor
  · refine ⟨by simpa [variableParts] using hname, fun c hc => ?_, by simp [variableParts],
      by simp [variableParts], by simpa [variableParts] using htype, fun c hc => ?_, fun b hb => ?_⟩
    · exact ⟨hin.isBlank_eq_false c hc, hin.ne (by decide) c hc⟩
    · exact ⟨htin.isBlank_eq_false c hc, htin.ne (by decide) c hc⟩
    · simp only [variableParts] at hb
      split at hb
      · cases hb
      · next hne =>
        cases hb
        exact ⟨by simp, by simp, by simpa using hne, hauto.isBlank_eq_false⟩
  · simp only [VariableEntry.text, VariableEntry.bindingText, variableParts, variableText,
      automaticText]
    split <;> simp [Binding.text]

theorem readVariable?_variableText {v : Variable} (h : v.WellFormed) :
    readVariable? (variableText v) = some v := by
  refine readVariable?_eq_some_iff.mpr ⟨variableParts v, readsAs_variableText h, ?_⟩
  have hauto : String.ofList (variableParts v).automatic = v.automatic := by
    simp only [VariableEntry.automatic, variableParts]
    split
    · next hv => exact hv.symm
    · simp
  rw [VariableEntry.toVariable, hauto]
  simp [variableParts, ShaderType.ofName_name]

theorem isEntry_variableText {v : Variable} (h : v.WellFormed) : IsEntry ',' (variableText v) := by
  refine ⟨by simp [variableText], fun c hc => ?_⟩
  rcases List.mem_append.mp hc with hc | hc
  · exact of_mem_freeOf h.name.2 (by decide) (by decide) c hc
  · rcases List.mem_cons.mp hc with rfl | hc
    · decide
    · rcases List.mem_append.mp hc with hc | hc
      · exact of_mem_freeOf v.type.isWord_name.2 (by decide) (by decide) c hc
      · unfold automaticText at hc
        split at hc
        · cases hc
        · simp only [List.mem_cons] at hc
          rcases hc with rfl | rfl | hc
          · decide
          · decide
          · exact of_mem_freeOf h.automatic (by decide) (by decide) c hc

/-- Written variables are read back. -/
theorem readVariables_entriesText {vs : List Variable} (h : ∀ v ∈ vs, v.WellFormed) :
    readVariables (entriesText ',' (vs.map variableText)) = .ok vs := by
  have hentry : ∀ e ∈ vs.map variableText, IsEntry ',' e :=
    List.forall_mem_map.mpr fun v hv => isEntry_variableText (h v hv)
  have hends : ∀ c, endsVariable c = true → c = ',' ∨ isBlank c = true := by
    intro c hc
    rcases Bool.or_eq_true_iff.mp hc with hc | hc
    · exact .inl (eq_of_beq hc)
    · rw [eq_of_beq hc]
      exact .inr isBlank_newline
  have hvs : variableEntries (entriesText ',' (vs.map variableText)) = vs.map variableText := by
    have htrim : (vs.map variableText).map trim = vs.map variableText := by
      rw [List.map_congr_left (g := id) fun e he => ?_, List.map_id]
      exact trim_of_all_solid fun c hc => ((hentry e he).2 c hc).1
    rw [variableEntries, pieces_entriesText rfl hends hentry, List.map_append, htrim]
    exact filter_entries hentry
  rw [readVariables, hvs, mapM_map_eq_ok (r := id), List.map_id]
  intro v hv
  rw [readVariable?_variableText (h v hv)]
  rfl

/-- Name, format and scale of an attachment. -/
def attachmentText (t : Texture) : List Char :=
  t.name.toList ++ ',' :: (t.format.name.toList ++ ',' ::
    ('s' :: 'c' :: 'a' :: 'l' :: 'e' :: ':' :: t.scale.numeral))

/-- A text in which a comma comes before any colon does not start with a scale. -/
theorem not_startsScale_append {w : List Char} (hw : ∀ c ∈ w, inWord c = true) (hcolon : ':' ∉ w)
    (r : List Char) : ¬∃ value, StartsScale (w ++ ',' :: r) value := by
  rintro ⟨value, u, heq, hblank⟩
  -- Both sides are scanned up to their first comma or colon, and these differ.
  have hfree : ∀ c ∈ w, (c != ',' && c != ':') = true := by
    intro c hc
    have hcomma : c ≠ ',' := by
      rintro rfl
      exact absurd (hw _ hc) (by decide)
    simp [hcomma, ne_of_mem_of_not_mem hc hcolon]
  have hfree' : ∀ c ∈ scaleName ++ u, (c != ',' && c != ':') = true := by
    refine List.forall_mem_append.mpr ⟨List.all_eq_true.mp (by decide), fun c hc => ?_⟩
    have hne {d : Char} (hd : isBlank d = false) : c ≠ d := by
      rintro rfl
      exact absurd (hblank c hc) (by simp [hd])
    simp [hne isBlank_comma, hne isBlank_colon]
  rw [← List.append_assoc] at heq
  have hrest := (scan_inj hfree hfree' (by simp) (by simp) heq).2
  cases hrest

/-- A word without a colon is a token up to the comma behind it. -/
theorem scans_append {w r : List Char} {ts : List (List Char)} (hne : w ≠ [])
    (hw : ∀ c ∈ w, inWord c = true) (hcolon : ':' ∉ w) (hr : Scans r ts) :
    Scans (w ++ ',' :: r) (w :: ts) := by
  have hcomma : inWord ',' = false := by decide
  exact .token (.plain hne (not_startsScale_append hw hcolon r) hw (by simpa using hcomma))
    (.gap hcomma hr)

theorem inWord_of_mem_numeral {s : Scale} : ∀ c ∈ s.numeral, inWord c = true := by
  intro c hc
  have hne : c ≠ ',' := by
    rintro rfl
    have := Scale.of_mem_numeral ',' hc
    simp [Decimal.isDigit] at this
  simp [inWord, Scale.isBlank_of_mem_numeral c hc, hne]

/-- A scale is the last token of a text that goes on with nothing but its numeral. -/
theorem scans_scale (s : Scale) :
    Scans (scaleName ++ ':' :: s.numeral) [scaleName ++ ':' :: s.numeral] := by
  have hstart : ∀ c ∈ (s.numeral ++ []).head?, isBlank c = false := by
    rw [List.append_nil]
    exact fun c hc => Scale.isBlank_of_mem_numeral c (List.mem_of_head? hc)
  have htoken := Token.scale (w := []) (v := []) (by simp) (by simp) hstart inWord_of_mem_numeral
    (by simp)
  simp only [List.nil_append, List.append_nil] at htoken
  exact .token htoken .nil

theorem readWords_attachmentText {t : Texture} (h : t.IsAttachment) :
    readWords (wordsOf (attachmentText t)) = .ok (some t) := by
  obtain ⟨⟨hname, hin⟩, hpath, _⟩ := h
  obtain ⟨hformat, hfin⟩ := t.format.isWord_name
  have key : ∀ s : String, FreeOf [',', ';', ':', ']'] s →
      (∀ c ∈ s.toList, inWord c = true) ∧ ':' ∉ s.toList := by
    intro s hs
    exact ⟨scan_of_freeOf hs (by decide), fun hc => hs.ne (d := ':') (by decide) _ hc rfl⟩
  obtain ⟨hnw, hnc⟩ := key t.name hin
  obtain ⟨hfw, hfc⟩ := key t.format.name hfin
  have hscans := scans_append (by simpa using hname) hnw hnc
    (scans_append (by simpa using hformat) hfw hfc (scans_scale t.scale))
  have hscale : Says (scaleName ++ ':' :: t.scale.numeral) (.scale t.scale) :=
    .scale ⟨[], rfl, by simp⟩ t.scale.read?_numeral
  have hdescribes := Describes.attachment hnc (.cons (.format t.format) (.cons hscale .nil))
  have ht : described t.name.toList [.format t.format, .scale t.scale] =
      { t with name := String.ofList t.name.toList, path := none } := rfl
  rw [ht, String.ofList_toList, ← hpath] at hdescribes
  exact readWords_wordsOf_eq_ok_iff.mpr ⟨_, hscans, hdescribes⟩

theorem isEntry_attachmentText {t : Texture} (h : t.IsAttachment) :
    IsEntry ';' (attachmentText t) := by
  refine ⟨by simp [attachmentText], fun c hc => ?_⟩
  simp only [attachmentText, List.mem_append, List.mem_cons] at hc
  rcases hc with hc | rfl | hc | rfl | rfl | rfl | rfl | rfl | rfl | rfl | hc
  any_goals decide
  · exact of_mem_freeOf h.name.2 (by decide) (by decide) c hc
  · exact of_mem_freeOf t.format.isWord_name.2 (by decide) (by decide) c hc
  · refine ⟨Scale.isBlank_of_mem_numeral c hc, ?_⟩
    rcases Scale.of_mem_numeral c hc with hd | hd
    · constructor <;> rintro rfl <;> cases hd
    · simp only [List.mem_cons, List.not_mem_nil, or_false] at hd
      rcases hd with rfl | rfl <;> decide

/-- Written attachments are read back. -/
theorem readAttachments_entriesText {ts : List Texture} (h : ∀ t ∈ ts, t.IsAttachment) :
    readAttachments (entriesText ';' (ts.map attachmentText)) = .ok ts := by
  have hentry : ∀ e ∈ ts.map attachmentText, IsEntry ';' e :=
    List.forall_mem_map.mpr fun t ht => isEntry_attachmentText (h t ht)
  have hends : ∀ c, endsAttachment c = true → c = ';' ∨ isBlank c = true := by
    intro c hc
    rcases Bool.or_eq_true_iff.mp hc with hc | hc
    · exact .inl (eq_of_beq hc)
    · rw [eq_of_beq hc]
      exact .inr isBlank_newline
  have hread : ((ts.map attachmentText).mapM fun e => readWords (wordsOf e))
      = .ok (ts.map some) :=
    mapM_map_eq_ok fun t ht => readWords_attachmentText (h t ht)
  rw [readAttachments, pieces_entriesText rfl hends hentry, List.mapM_append, hread]
  have hnone : ([[]].mapM fun e => readWords (wordsOf e)) = .ok [none] := by
    rw [List.mapM_cons, wordsOf]
    rfl
  rw [hnone]
  change Except.ok ((ts.map some ++ [none]).filterMap id) = _
  simp [List.filterMap_map]

def inputText (i : InputTexture) : List Char := i.buffer.toList ++ '.' :: i.texture.toList

/-- The words of a written list of names are its entries. -/
theorem words_entriesText {entries : List (List Char)} (h : ∀ e ∈ entries, IsEntry ',' e) :
    words endsName (entriesText ',' entries) = entries := by
  have hends : ∀ c, endsName c = true → c = ',' ∨ isBlank c = true := by
    intro c hc
    simpa [endsName] using hc
  rw [words, pieces_entriesText rfl hends h]
  exact filter_entries h

theorem readInput?_inputText {i : InputTexture} (h : i.WellFormed) :
    readInput? (inputText i) = some i := by
  obtain ⟨⟨hb, hbin⟩, ht, htin⟩ := h
  have hbdot : '.' ∉ i.buffer.toList := fun hc => by simpa using hbin _ hc
  have htdot : '.' ∉ i.texture.toList := fun hc => by simpa using htin _ hc
  refine readInput?_eq_some_iff.mpr ⟨dotted_append_iff.mpr ⟨?_, ?_, hbdot, htdot⟩, rfl⟩
  · simpa using hb
  · simpa using ht

theorem isEntry_inputText {i : InputTexture} (h : i.WellFormed) : IsEntry ',' (inputText i) := by
  refine ⟨by simp [inputText], fun c hc => ?_⟩
  rcases List.mem_append.mp hc with hc | hc
  · exact of_mem_freeOf h.buffer.2 (by decide) (by decide) c hc
  · rcases List.mem_cons.mp hc with rfl | hc
    · decide
    · exact of_mem_freeOf h.texture.2 (by decide) (by decide) c hc

/-- Written inputs are read back. -/
theorem readInputs_entriesText {is : List InputTexture} (h : ∀ i ∈ is, i.WellFormed) :
    readInputs (entriesText ',' (is.map inputText)) = .ok is := by
  have hentry : ∀ e ∈ is.map inputText, IsEntry ',' e :=
    List.forall_mem_map.mpr fun i hi => isEntry_inputText (h i hi)
  rw [readInputs, words_entriesText hentry, mapM_map_eq_ok (r := id), List.map_id]
  intro i hi
  rw [readInput?_inputText (h i hi)]
  rfl

theorem isEntry_of_isWord {o : String} (h : IsWord [',', ']'] o) : IsEntry ',' o.toList :=
  ⟨by simpa using h.1, of_mem_freeOf h.2 (by decide) (by decide)⟩

/-- Written outputs are read back. -/
theorem readOutputs_entriesText {os : List String} (h : ∀ o ∈ os, IsWord [',', ']'] o) :
    readOutputs (entriesText ',' (os.map String.toList)) = os := by
  have hentry : ∀ e ∈ os.map String.toList, IsEntry ',' e :=
    List.forall_mem_map.mpr fun o ho => isEntry_of_isWord (h o ho)
  rw [readOutputs, words_entriesText hentry]
  simp [Function.comp_def]

end RenderPlan.Description
