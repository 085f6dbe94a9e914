import RenderPlan.Proofs.Description.AttachmentGrammar
import RenderPlan.Proofs.Description.Passage
import RenderPlan.Proofs.Scale.Numeral
/-!
The range of scales in descriptions. A text is accepted as a scale exactly if it is a numeral whose
number rounds to a positive finite number of binary32, and this is decided at the two ties where
rounding leaves that range. Any other text is at fault where a scale is expected: as the value of a
field, and as a token of a list, wherever in the list it stands.
-/
namespace RenderPlan.Description

open RenderPlan.Text

/-- A field `scale` of a texture is its scale, or an error that repeats its value. -/
theorem feed_scale {plan : Plan} {t : Texture} {l : Line} {f : Field} (hf : l.field? = some f)
    (hk : f.keyword = Keyword.scale.spelling.toList) :
    State.feed ⟨plan, .fields (.texture t)⟩ l = match Scale.read? f.value with
      | some s => .ok (.inBlock plan (.texture { t with scale := s }))
      | none => .error ⟨l.number, .malformedValue "scale" (String.ofList f.value)⟩ := by
  have hline : f.line = l.number := by
    rw [Line.field?, Field.read?, Option.map_eq_some_iff] at hf
    obtain ⟨-, -, rfl⟩ := hf
    rfl
  have hkeyword : Keyword.ofText? (String.ofList f.keyword) = some .scale := by
    rw [hk, String.ofList_toList]
    exact Keyword.ofText?_eq_some_iff.mpr rfl
  have hfeed : State.feed ⟨plan, .fields (.texture t)⟩ l = textureField plan t f .scale :=
    (Settled.fields _).feed_field hf hkeyword
  rw [hfeed, textureField]
  cases Scale.read? f.value with
  | some s => rfl
  | none =>
    simp [Field.literal, Field.malformedValue, fail, hline, hk, Except.map, Keyword.spelling]

theorem exists_of_forall₂ {α β : Type} {R : α → β → Prop} {as : List α} {bs : List β}
    (h : List.Forall₂ R as bs) : ∀ a ∈ as, ∃ b, R a b := by
  induction h with
  | nil => simp
  | cons hab _ ih => exact List.forall_mem_cons.mpr ⟨⟨_, hab⟩, ih⟩

/-- A token that starts as a scale does and has no number says nothing, nor is it a name. -/
theorem not_describes_of_scale {tokens : List (List Char)} {t text : List Char} (ht : t ∈ tokens)
    (hstart : StartsScale t text) (hnone : Scale.read? text = none) (o : Option Texture) :
    ¬Describes tokens o := by
  intro h
  cases h with
  | nothing => cases ht
  | attachment hname hsays =>
    rcases List.mem_cons.mp ht with rfl | ht
    · exact hname hstart.colon_mem
    · obtain ⟨x, hx⟩ := exists_of_forall₂ hsays t ht
      cases hx with
      | format f => exact not_startsScale_name f ⟨text, hstart⟩
      | scale hstart' hs =>
        rw [hstart'.value_inj hstart, hnone] at hs
        cases hs

/-- A list with such a token, in whatever entry, is at fault. -/
theorem continueList_of_misread {plan : Plan} {b : Buffer} {line : Nat}
    {opening inner rest entry : List Char} {tokens : List (List Char)} {t text : List Char}
    (hrest : trim rest = []) (hentry : entry ∈ pieces endsAttachment inner)
    (hscans : Scans entry tokens) (ht : t ∈ tokens) (hstart : StartsScale t text)
    (hnone : Scale.read? text = none) :
    ∃ found, continueList plan (.attachments b) line opening (.closed inner rest) =
      .error ⟨line, .malformedList .texture (String.ofList found)⟩ := by
  cases hread : readAttachments inner with
  | error found =>
    exact ⟨found, (continueList_closed_eq_error_iff hrest).mpr
      ⟨found, map_eq_error_iff.mpr hread, rfl⟩⟩
  | ok ts =>
    obtain ⟨os, hos, -⟩ := map_eq_ok_iff.mp hread
    obtain ⟨o, tokens', hscans', ho⟩ := exists_of_forall₂ (mapM_readWords_eq_ok_iff.mp hos) _ hentry
    exact absurd (hscans.unique hscans' ▸ ho) (not_describes_of_scale ht hstart hnone o)

/-- The range of scales. A text is accepted exactly if it denotes a number strictly between half
the least scale and the middle between the largest one and the next power of two, and it is read as
the nearest scale. So neither a text with a minus sign nor one without digits is accepted. What is
not accepted is at fault as the value of a texture and as a token of a list. -/
theorem scale_range (text : List Char) :
    ((Scale.read? text).isSome ↔
      ∃ q, Decimal.Denotes (trim text) q ∧ 1 / 2 ^ 150 < q ∧ q < 2 ^ 128 - 2 ^ 103) ∧
    (∀ q q', Decimal.Denotes (trim text) q → Decimal.Denotes (trim text) q' → q = q') ∧
    (∀ s q, Scale.read? text = some s → Decimal.Denotes (trim text) q →
      s.IsNearest q ∧ Scale.IsFinite s.value ∧ 0 < s.value) ∧
    ((trim text).head? = some '-' ∨ (∀ c ∈ text, Decimal.isDigit c = false) →
      Scale.read? text = none) ∧
    (∀ plan t l f, l.field? = some f → f.keyword = Keyword.scale.spelling.toList →
      f.value = text → State.feed ⟨plan, .fields (.texture t)⟩ l = match Scale.read? text with
        | some s => .ok (.inBlock plan (.texture { t with scale := s }))
        | none => .error ⟨l.number, .malformedValue "scale" (String.ofList text)⟩) ∧
    (Scale.read? text = none → ∀ plan b line opening inner rest entry tokens t, trim rest = [] →
      entry ∈ pieces endsAttachment inner → Scans entry tokens → t ∈ tokens → StartsScale t text →
      ∃ found, continueList plan (.attachments b) line opening (.closed inner rest) =
        .error ⟨line, .malformedList .texture (String.ofList found)⟩) := by
  refine ⟨Scale.isSome_read?_iff, fun q q' => Decimal.Denotes.unique, fun s q hs hq =>
    ⟨Scale.isNearest_of_read? hs hq, s.isFinite_value, s.value_pos⟩, ?_, ?_, ?_⟩
  · intro h
    rw [← Option.not_isSome_iff_eq_none, Scale.isSome_read?_iff]
    rintro ⟨q, hq, -⟩
    obtain ⟨⟨c, hc, hdigit⟩, hminus⟩ := hq.digits
    rcases h with h | h
    · exact hminus h
    · rw [h c ((trim_isInfix text).subset hc)] at hdigit
      cases hdigit
  · rintro plan t l f hf hk rfl
    exact feed_scale hf hk
  · intro hnone plan b line opening inner rest entry tokens t hrest hentry hscans ht hstart
    exact continueList_of_misread hrest hentry hscans ht hstart hnone

/-- The last whole number that rounds to the largest scale, and the tie behind it. -/
theorem scale_range_largest :
    (∃ s, Scale.read? "340282356779733661637539395458142568447".toList = some s ∧
      s.IsNearest 340282356779733661637539395458142568447 ∧ s.value = Scale.largest) ∧
    State.feed ⟨{}, .fields (.texture { name := "t" })⟩
        ⟨2, "  scale: 340282356779733661637539395458142568448".toList⟩ =
      .error ⟨2, .malformedValue "scale" "340282356779733661637539395458142568448"⟩ ∧
    ∃ found, continueList {} (.attachments { name := "b" }) 2 []
        (.closed "t scale:-1".toList " ".toList) =
      .error ⟨2, .malformedList .texture (String.ofList found)⟩ := by
  refine ⟨?_, ?_, ?_⟩
  · obtain ⟨-, -, hnear, -⟩ := scale_range "340282356779733661637539395458142568447".toList
    have hread : Scale.read? "340282356779733661637539395458142568447".toList =
        some ⟨16777215, 253, by decide⟩ := by decide +kernel
    have hq : Decimal.Denotes (trim "340282356779733661637539395458142568447".toList)
        340282356779733661637539395458142568447 :=
      Decimal.denotes_iff_read?.mpr ⟨⟨340282356779733661637539395458142568447, 0⟩,
        by decide +kernel, by norm_num [Decimal.value]⟩
    refine ⟨_, hread, (hnear _ _ hread hq).1, ?_⟩
    norm_num [Scale.value, Scale.steps, Scale.largest]
  · obtain ⟨-, -, -, -, hfield, -⟩ := scale_range "340282356779733661637539395458142568448".toList
    have hnone : Scale.read? "340282356779733661637539395458142568448".toList = none := by
      decide +kernel
    rw [hfield {} { name := "t" } ⟨2, "  scale: 340282356779733661637539395458142568448".toList⟩
      _ rfl rfl rfl, hnone]
    rfl
  · obtain ⟨-, -, -, hno, -, hlist⟩ := scale_range "-1".toList
    have hscans : Scans "t scale:-1".toList ["t".toList, "scale:-1".toList] := by
      have hfree : ¬∃ value, StartsScale ("t".toList ++ " scale:-1".toList) value := by
        rintro ⟨value, w, h, -⟩
        simp [scaleName] at h
      have hword := List.all_eq_true.mp (by decide : "t".toList.all inWord = true)
      have hnumber := List.all_eq_true.mp (by decide : "-1".toList.all inWord = true)
      have htoken : Token "scale:-1".toList "scale:-1".toList [] :=
        @Token.scale [] [] "-1".toList [] (by simp) (by simp) (by simp) hnumber (by simp)
      exact .token (.plain (by decide) hfree hword (by simp; decide))
        (.gap (by decide) (.token htoken .nil))
    exact hlist (hno (.inl (by decide))) {} { name := "b" } 2 [] "t scale:-1".toList " ".toList
      _ _ _ (by decide) (by decide) hscans (List.mem_cons_of_mem _ (List.mem_singleton.mpr rfl))
      ⟨[], rfl, by simp⟩

end RenderPlan.Description
