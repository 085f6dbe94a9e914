import RenderPlan.Proofs.Description.AttachmentGrammar
import RenderPlan.Proofs.Description.NameGrammar
import RenderPlan.Proofs.Description.VariableGrammar
import RenderPlan.Proofs.Plan.WellFormed
/-!
What the lists of a description hold. No part of an entry contains an end of its kind, as its
grammar says, and whatever stands between brackets contains no closing bracket. Everything that a
list is read as is therefore well formed.
-/
namespace RenderPlan.Description

open RenderPlan.Text

/-- Every result of a list that could be read is one of its entries, read. -/
theorem exists_of_mem_mapM {ε α β : Type} {f : α → Except ε β} {as : List α} {bs : List β}
    (h : as.mapM f = .ok bs) : ∀ b ∈ bs, ∃ a ∈ as, f a = .ok b := by
  replace h := mapM_eq_ok_iff.mp h
  induction h with
  | nil => simp
  | @cons a b as bs hab _ ih =>
    refine List.forall_mem_cons.mpr ⟨⟨a, by simp, hab⟩, fun c hc => ?_⟩
    obtain ⟨d, hd, hdc⟩ := ih c hc
    exact ⟨d, by simp [hd], hdc⟩

/-- An entry of a list of variables keeps within the list and has no end of an entry in it. -/
theorem of_mem_variableEntries {inner e : List Char} (h : e ∈ variableEntries inner) :
    ∀ c ∈ e, c ∈ inner ∧ c ≠ ',' := by
  obtain ⟨he, _⟩ := List.mem_filter.mp h
  obtain ⟨p, hp, rfl⟩ := List.mem_map.mp he
  intro c hc
  obtain ⟨hi, hs⟩ := mem_of_mem_pieces hp c (mem_of_mem_trim hc)
  refine ⟨hi, ?_⟩
  rintro rfl
  cases hs

theorem wellFormed_of_readVariable? {e : List Char} {v : Variable}
    (he : ∀ c ∈ e, c ≠ ',' ∧ c ≠ ']') (h : readVariable? e = some v) : v.WellFormed := by
  obtain ⟨p, ⟨hp, rfl⟩, rfl⟩ := readVariable?_eq_some_iff.mp h
  constructor
  · refine isWord_ofList_iff.mpr ⟨hp.name_ne, fun c hc => ?_⟩
    simp [hp.name c hc, he c (by simp [VariableEntry.text, hc])]
  · refine freeOf_ofList_iff.mpr fun c hc => ?_
    unfold VariableEntry.automatic at hc
    cases hb : p.binding with
    | none => simp [hb] at hc
    | some b =>
      rw [hb, Option.elim_some] at hc
      have hmem : c ∈ p.text := by
        simp [VariableEntry.text, VariableEntry.bindingText, Binding.text, hb, hc]
      simp [(hp.binding b hb).automatic c hc, he c hmem]

/-- Every variable of a list is well formed. -/
theorem wellFormed_of_readVariables {inner : List Char} {vs : List Variable}
    (hi : ']' ∉ inner) (h : readVariables inner = .ok vs) : ∀ v ∈ vs, v.WellFormed := by
  intro v hv
  obtain ⟨e, he, hev⟩ := exists_of_mem_mapM h v hv
  split at hev
  · next w hw =>
    cases hev
    apply wellFormed_of_readVariable? _ hw
    intro c hc
    obtain ⟨hci, hn⟩ := of_mem_variableEntries he c hc
    refine ⟨hn, ?_⟩
    rintro rfl
    exact hi hci
  · cases hev

theorem isAttachment_of_readWords {e : List Char} {t : Texture}
    (he : ∀ c ∈ e, c ≠ ';' ∧ c ≠ ']') (h : readWords (wordsOf e) = .ok (some t)) :
    t.IsAttachment := by
  obtain ⟨tokens, hscans, hdescribes⟩ := readWords_wordsOf_eq_ok_iff.mp h
  cases hdescribes with
  | @attachment name options settings hname _ =>
    obtain ⟨hin, hne⟩ := hscans.isInfix_of_mem name (by simp)
    refine ⟨isWord_ofList_iff.mpr ⟨hne, fun c hc => ?_⟩, rfl, Scale.inRange _⟩
    have hword := hscans.inWord_of_mem hname c hc
    simp only [inWord, Bool.and_eq_true, Bool.not_eq_true', bne_iff_ne] at hword
    have hcolon : c ≠ ':' := ne_of_mem_of_not_mem hc hname
    simp [hword.1, hword.2, hcolon, he c (hin.subset hc)]

/-- Every texture of a list is an attachment. -/
theorem isAttachment_of_readAttachments {inner : List Char} {ts : List Texture}
    (hi : ']' ∉ inner) (h : readAttachments inner = .ok ts) : ∀ t ∈ ts, t.IsAttachment := by
  obtain ⟨us, hus, rfl⟩ := exists_of_map_eq_ok h
  intro t ht
  obtain ⟨o, ho, rfl⟩ := List.mem_filterMap.mp ht
  obtain ⟨e, he, hr⟩ := exists_of_mem_mapM hus (some t) ho
  apply isAttachment_of_readWords _ hr
  intro c hc
  obtain ⟨hci, hs⟩ := mem_of_mem_pieces he c hc
  constructor
  · rintro rfl
    cases hs
  · rintro rfl
    exact hi hci

/-- A name in a list is not empty and keeps within the list. -/
theorem of_mem_words {inner w : List Char} (h : w ∈ words endsName inner) :
    w ≠ [] ∧ ∀ c ∈ w, c ∈ inner ∧ c ≠ ',' ∧ isBlank c = false := by
  obtain ⟨hp, hn⟩ := List.mem_filter.mp h
  refine ⟨by simpa using hn, fun c hc => ?_⟩
  obtain ⟨hi, hs⟩ := mem_of_mem_pieces hp c hc
  simp only [endsName, Bool.or_eq_false_iff, beq_eq_false_iff_ne] at hs
  exact ⟨hi, hs.1, hs.2⟩

theorem wellFormed_of_readInput? {w : List Char} {i : InputTexture}
    (hw : ∀ c ∈ w, isBlank c = false ∧ c ≠ ',' ∧ c ≠ ']') (h : readInput? w = some i) :
    i.WellFormed := by
  obtain ⟨hdotted, rfl⟩ := readInput?_eq_some_iff.mp h
  obtain ⟨hb, ht, hbdot, htdot⟩ := dotted_append_iff.mp hdotted
  constructor
  · refine ⟨by simpa using hb, fun c hc => ?_⟩
    have hne : c ≠ '.' := ne_of_mem_of_not_mem hc hbdot
    simp [hw c (by simp [hc]), hne]
  · refine ⟨by simpa using ht, fun c hc => ?_⟩
    have hne : c ≠ '.' := ne_of_mem_of_not_mem hc htdot
    simp [hw c (by simp [hc]), hne]

/-- Every input of a list is well formed. -/
theorem wellFormed_of_readInputs {inner : List Char} {is : List InputTexture}
    (hi : ']' ∉ inner) (h : readInputs inner = .ok is) : ∀ i ∈ is, i.WellFormed := by
  intro i him
  obtain ⟨w, hw, hwi⟩ := exists_of_mem_mapM h i him
  split at hwi
  · next j hj =>
    cases hwi
    apply wellFormed_of_readInput? _ hj
    intro c hc
    obtain ⟨hci, hn, hb⟩ := (of_mem_words hw).2 c hc
    refine ⟨hb, hn, ?_⟩
    rintro rfl
    exact hi hci
  · cases hwi

/-- Every output of a list is a word. -/
theorem isWord_of_mem_readOutputs {inner : List Char} (hi : ']' ∉ inner) :
    ∀ t ∈ readOutputs inner, IsWord [',', ']'] t := by
  intro t ht
  obtain ⟨w, hw, rfl⟩ := List.mem_map.mp ht
  obtain ⟨hne, hm⟩ := of_mem_words hw
  refine isWord_ofList_iff.mpr ⟨hne, fun c hc => ?_⟩
  obtain ⟨hci, hn, hb⟩ := hm c hc
  have hclose : c ≠ ']' := by
    rintro rfl
    exact hi hci
  simp [hb, hn, hclose]

end RenderPlan.Description
