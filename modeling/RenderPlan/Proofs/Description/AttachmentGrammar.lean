import RenderPlan.Proofs.Description.ListOutcome
import RenderPlan.Proofs.Description.ListText
import RenderPlan.Proofs.Plan.Spelling
/-!
The grammar of lists of attachments. An entry is scanned from left to right: blank characters and
commas stand between tokens, and a token is a scale where its form fits, even over blank characters,
and else all up to the next blank character or comma. What an entry describes is said of its tokens
alone: the first is a name, and every other one is the name of a format or a scale that can be read.
-/
namespace RenderPlan.Description

open RenderPlan.Text

def scaleName : List Char := ['s', 'c', 'a', 'l', 'e']

/-- A text that starts with the name of a scale and a colon, behind which `value` stands. -/
def StartsScale (s value : List Char) : Prop :=
  ∃ w, s = scaleName ++ (w ++ ':' :: value) ∧ ∀ c ∈ w, isBlank c = true

/-- A token at the start of a text, and the rest behind it. Either way it goes on to the first
character that is in no word. -/
inductive Token : List Char → List Char → List Char → Prop
  | scale {w v run rest : List Char} (hw : ∀ c ∈ w, isBlank c = true)
      (hv : ∀ c ∈ v, isBlank c = true) (hstart : ∀ c ∈ (run ++ rest).head?, isBlank c = false)
      (hrun : ∀ c ∈ run, inWord c = true) (hrest : ∀ c ∈ rest.head?, inWord c = false) :
      Token (scaleName ++ (w ++ ':' :: (v ++ (run ++ rest))))
        (scaleName ++ (w ++ ':' :: (v ++ run))) rest
  | plain {run rest : List Char} (hne : run ≠ []) (hno : ¬∃ value, StartsScale (run ++ rest) value)
      (hrun : ∀ c ∈ run, inWord c = true) (hrest : ∀ c ∈ rest.head?, inWord c = false) :
      Token (run ++ rest) run rest

/-- The tokens of an entry, scanned from left to right. -/
inductive Scans : List Char → List (List Char) → Prop
  | nil : Scans [] []
  | gap {c : Char} {s : List Char} {ts : List (List Char)} (hc : inWord c = false)
      (h : Scans s ts) : Scans (c :: s) ts
  | token {s t rest : List Char} {ts : List (List Char)} (ht : Token s t rest)
      (h : Scans rest ts) : Scans s (t :: ts)

theorem Token.append {s t rest : List Char} (h : Token s t rest) : s = t ++ rest := by
  cases h with
  | scale => simp
  | plain => rfl

theorem Token.exists_cons {s t rest : List Char} (h : Token s t rest) :
    ∃ c s', s = c :: s' ∧ inWord c = true := by
  cases h with
  | scale => exact ⟨'s', _, rfl, by decide⟩
  | @plain run rest hne hno hrun hrest =>
    obtain ⟨c, run, rfl⟩ := List.exists_cons_of_ne_nil hne
    exact ⟨c, run ++ rest, rfl, hrun c (by simp)⟩

theorem Token.ne_nil {s t rest : List Char} (h : Token s t rest) : t ≠ [] := by
  cases h with
  | scale => simp [scaleName]
  | plain hne => exact hne

theorem afterScale?_eq_some_iff_startsScale {s r : List Char} :
    afterScale? s = some r ↔ ∃ v, StartsScale s (v ++ r) ∧ (∀ c ∈ v, isBlank c = true) ∧
      ∀ c ∈ r.head?, isBlank c = false := by
  rw [afterScale?_eq_some_iff]
  constructor
  · rintro ⟨q, t, rfl, hq, ht⟩
    obtain ⟨w, rfl, hw⟩ := exists_gap hq
    obtain ⟨v, rfl, hv⟩ := exists_gap ht
    exact ⟨v, ⟨w, rfl, hw⟩, hv, ht ▸ isBlank_of_mem_head?_trimStart⟩
  · rintro ⟨v, ⟨w, rfl, hw⟩, hv, hstart⟩
    refine ⟨w ++ ':' :: (v ++ r), v ++ r, rfl, ?_, ?_⟩
    · rw [trimStart_blank_append hw, trimStart_cons_solid isBlank_colon]
    · rw [trimStart_blank_append hv]
      cases r with
      | nil => rfl
      | cons c r => exact trimStart_cons_solid (hstart c rfl) r

theorem exists_startsScale_iff {s : List Char} :
    (∃ value, StartsScale s value) ↔ afterScale? s ≠ none := by
  rw [Option.ne_none_iff_exists']
  simp only [afterScale?_eq_some_iff_startsScale]
  constructor
  · rintro ⟨value, hvalue⟩
    obtain ⟨v, hv, hblank⟩ := exists_blank_append value
    exact ⟨trimStart value, v, by rwa [← hv], hblank, isBlank_of_mem_head?_trimStart⟩
  · rintro ⟨r, v, h, -⟩
    exact ⟨v ++ r, h⟩

/-- What a word is: a plain one does not start as a scale does, and the value of a scale is what
stands behind its colon. -/
inductive Word.Fits : Word → Prop
  | plain {text : List Char} (hno : ¬∃ value, StartsScale text value) : Fits (.plain text)
  | scale {text v value : List Char} (h : StartsScale text (v ++ value))
      (hv : ∀ c ∈ v, isBlank c = true) : Fits (.scale text value)

/-- The word at the start of a text is its token, whatever the form. -/
theorem Token.takeWord {s t rest : List Char} (h : Token s t rest) :
    ∃ w, takeWord s = (w, rest) ∧ w.text = t ∧ w.Fits := by
  have happend := h.append
  cases h with
  | @scale w v run rest hw hv hstart hrun hrest =>
    have hafter : afterScale? (scaleName ++ (w ++ ':' :: (v ++ (run ++ rest)))) =
        some (run ++ rest) :=
      afterScale?_eq_some_iff_startsScale.mpr ⟨v, ⟨w, rfl, hw⟩, hv, hstart⟩
    obtain ⟨htake, hdrop⟩ := scan_append hrun hrest
    have htext : (scaleName ++ (w ++ ':' :: (v ++ (run ++ rest)))).take
        ((scaleName ++ (w ++ ':' :: (v ++ (run ++ rest)))).length - rest.length) =
        scaleName ++ (w ++ ':' :: (v ++ run)) := by
      rw [happend, List.length_append, Nat.add_sub_cancel, List.take_left]
    refine ⟨.scale (scaleName ++ (w ++ ':' :: (v ++ run))) run, ?_, rfl, .scale ⟨w, rfl, hw⟩ hv⟩
    rw [Description.takeWord, hafter]
    simp only [htake, hdrop, htext]
  | plain hne hno hrun hrest =>
    have hafter : afterScale? (t ++ rest) = none := by
      simpa using mt exists_startsScale_iff.mpr hno
    obtain ⟨htake, hdrop⟩ := scan_append hrun hrest
    refine ⟨.plain t, ?_, rfl, .plain ?_⟩
    · rw [Description.takeWord, hafter]
      simp only [htake, hdrop]
    · rintro ⟨value, w, rfl, hw⟩
      exact hno ⟨value ++ rest, w, by simp, hw⟩

/-- Wherever a word may start there is a token. -/
theorem exists_token {c : Char} (hc : inWord c = true) (s : List Char) :
    ∃ t rest, Token (c :: s) t rest := by
  have hscan (r : List Char) : ∃ run rest, r = run ++ rest ∧ (∀ c ∈ run, inWord c = true) ∧
      ∀ c ∈ rest.head?, inWord c = false := by
    refine ⟨r.takeWhile inWord, r.dropWhile inWord, List.takeWhile_append_dropWhile.symm,
      List.all_eq_true.mp List.all_takeWhile, fun d hd => ?_⟩
    have hnot := List.head?_dropWhile_not inWord r
    rwa [Option.mem_def.mp hd] at hnot
  cases hafter : afterScale? (c :: s) with
  | some r =>
    obtain ⟨v, ⟨w, hw, hblank⟩, hv, hstart⟩ := afterScale?_eq_some_iff_startsScale.mp hafter
    obtain ⟨run, rest, rfl, hrun, hrest⟩ := hscan r
    rw [hw]
    exact ⟨_, rest, .scale hblank hv hstart hrun hrest⟩
  | none =>
    obtain ⟨run, rest, hsplit, hrun, hrest⟩ := hscan (c :: s)
    have hne : run ≠ [] := by
      rintro rfl
      rw [List.nil_append] at hsplit
      subst hsplit
      exact absurd (hrest c rfl) (by simp [hc])
    refine ⟨run, rest, hsplit ▸ .plain hne (fun h => ?_) hrun hrest⟩
    exact exists_startsScale_iff.mp h (hsplit ▸ hafter)

theorem wordsOf_of_inWord {c : Char} (hc : inWord c = true) (s : List Char) :
    wordsOf (c :: s) = (takeWord (c :: s)).1 :: wordsOf (takeWord (c :: s)).2 := by
  rw [wordsOf]
  simp only [hc, dite_true]

theorem wordsOf_of_not_inWord {c : Char} (hc : inWord c = false) (s : List Char) :
    wordsOf (c :: s) = wordsOf s := by
  rw [wordsOf]
  simp [hc]

/-- The words of an entry are its tokens: what is scanned is scanned in one way. -/
theorem Scans.wordsOf {s : List Char} {ts : List (List Char)} (h : Scans s ts) :
    (wordsOf s).map Word.text = ts ∧ ∀ w ∈ wordsOf s, w.Fits := by
  induction h with
  | nil => simp [Description.wordsOf]
  | gap hc _ ih => rwa [wordsOf_of_not_inWord hc]
  | @token s t rest ts ht _ ih =>
    obtain ⟨c, s, rfl, hc⟩ := ht.exists_cons
    obtain ⟨w, hw, htext, hfits⟩ := ht.takeWord
    obtain ⟨ih, ihfits⟩ := ih
    rw [wordsOf_of_inWord hc, hw]
    exact ⟨by rw [List.map_cons, htext, ih], List.forall_mem_cons.mpr ⟨hfits, ihfits⟩⟩

/-- The induction is on what is left of the entry, which a token makes shorter. -/
theorem exists_scans (s : List Char) : ∃ ts, Scans s ts := by
  fun_induction wordsOf s with
  | case1 => exact ⟨[], .nil⟩
  | case2 c s hc w ih =>
    obtain ⟨t, rest, ht⟩ := exists_token hc s
    obtain ⟨w', hw', -⟩ := ht.takeWord
    obtain ⟨ts, hts⟩ := ih
    have hrest : w.2 = rest := congrArg Prod.snd hw'
    exact ⟨t :: ts, .token ht (hrest ▸ hts)⟩
  | case3 c s hc ih =>
    obtain ⟨ts, hts⟩ := ih
    exact ⟨ts, .gap (by simpa using hc) hts⟩

theorem Scans.unique {s : List Char} {ts us : List (List Char)} (h : Scans s ts)
    (h' : Scans s us) : ts = us := h.wordsOf.1.symm.trans h'.wordsOf.1

/-- No text is passed over: only blank characters and commas are in no token. -/
theorem Scans.filter_flatten {s : List Char} {ts : List (List Char)} (h : Scans s ts) :
    ts.flatten.filter inWord = s.filter inWord := by
  induction h with
  | nil => rfl
  | gap hc _ ih => simpa [hc] using ih
  | token ht _ ih =>
    rw [List.flatten_cons, List.filter_append, ih, ← List.filter_append, ← ht.append]

/-- A token stands in its entry as it is, and is not empty. -/
theorem Scans.isInfix_of_mem {s : List Char} {ts : List (List Char)} (h : Scans s ts) :
    ∀ t ∈ ts, t <:+: s ∧ t ≠ [] := by
  induction h with
  | nil => simp
  | gap _ _ ih => exact fun t ht => ⟨List.infix_cons (ih t ht).1, (ih t ht).2⟩
  | @token s t rest ts ht _ ih =>
    have happend := ht.append
    refine List.forall_mem_cons.mpr ⟨⟨⟨[], rest, happend.symm⟩, ht.ne_nil⟩, fun u hu => ?_⟩
    obtain ⟨hin, hne⟩ := ih u hu
    exact ⟨hin.trans (happend ▸ (List.suffix_append t rest).isInfix), hne⟩

/-- A token without a colon, first in its entry, has no blank characters and no commas. -/
theorem Scans.inWord_of_mem {s name : List Char} {ts : List (List Char)}
    (h : Scans s (name :: ts)) (hname : ':' ∉ name) : ∀ c ∈ name, inWord c = true := by
  generalize hts : name :: ts = us at h
  induction h with
  | nil => cases hts
  | gap _ _ ih => exact ih hts
  | token ht _ _ =>
    cases hts
    cases ht with
    | scale => simp at hname
    | plain _ _ hrun _ => exact hrun

/-- What an attachment may be given. -/
inductive Setting where
  | format (f : TexelFormat)
  | scale (s : Scale)
  deriving DecidableEq

def Setting.format? : Setting → Option TexelFormat
  | format f => some f
  | scale _ => none

def Setting.scale? : Setting → Option Scale
  | format _ => none
  | scale s => some s

/-- A token behind the name: the name of a format, or a scale whose number can be read. -/
inductive Says : List Char → Setting → Prop
  | format (f : TexelFormat) : Says f.name.toList (.format f)
  | scale {t value : List Char} {s : Scale} (h : StartsScale t value)
      (hs : Scale.read? value = some s) : Says t (.scale s)

/-- The attachment that the settings behind a name make; of each kind the last one counts. -/
def described (name : List Char) (settings : List Setting) : Texture where
  name := String.ofList name
  format := (settings.filterMap Setting.format?).getLast?.getD .unspecified
  scale := (settings.filterMap Setting.scale?).getLast?.getD .one

/-- What the tokens of an entry describe: nothing if there are none. -/
inductive Describes : List (List Char) → Option Texture → Prop
  | nothing : Describes [] none
  | attachment {name : List Char} {options : List (List Char)} {settings : List Setting}
      (hname : ':' ∉ name) (h : List.Forall₂ Says options settings) :
      Describes (name :: options) (some (described name settings))

/-- The first token of an entry that does not fit: a name with a colon, or one behind the name that
says nothing. -/
inductive Misfit : List (List Char) → List Char → Prop
  | name {name : List Char} {options : List (List Char)} (hname : ':' ∈ name) :
      Misfit (name :: options) name
  | option {name found : List Char} {front back : List (List Char)} (hname : ':' ∉ name)
      (hfront : ∀ t ∈ front, ∃ x, Says t x) (hfound : ¬∃ x, Says found x) :
      Misfit (name :: (front ++ found :: back)) found

theorem Misfit.mem {ts : List (List Char)} {found : List Char} (h : Misfit ts found) :
    found ∈ ts := by
  cases h <;> simp

/-- What a word behind the name is read as. -/
def Word.setting? : Word → Option Setting
  | .plain text => (TexelFormat.ofText? (String.ofList text)).map .format
  | .scale _ value => (Scale.read? value).map .scale

/-- What a word says, or the word. -/
def Word.setting (w : Word) : Except (List Char) Setting :=
  match w.setting? with
  | some x => .ok x
  | none => .error w.text

def Setting.apply (t : Texture) : Setting → Texture
  | format f => { t with format := f }
  | scale s => { t with scale := s }

theorem applyWord_eq (t : Texture) (w : Word) :
    applyWord t w = w.setting.map (Setting.apply t) := by
  cases w with
  | plain text =>
    simp only [applyWord, Word.setting, Word.setting?]
    cases TexelFormat.ofText? (String.ofList text) <;> rfl
  | scale text value =>
    simp only [applyWord, Word.setting, Word.setting?]
    cases Scale.read? value <;> rfl

theorem Word.setting_eq_ok_iff {w : Word} {x : Setting} :
    w.setting = .ok x ↔ w.setting? = some x := by
  rw [Word.setting]
  cases w.setting? <;> simp

theorem Word.setting_eq_error_iff {w : Word} {found : List Char} :
    w.setting = .error found ↔ w.setting? = none ∧ w.text = found := by
  rw [Word.setting]
  cases w.setting? <;> simp

theorem TexelFormat.ofText?_eq_some_iff {text : List Char} {f : TexelFormat} :
    TexelFormat.ofText? (String.ofList text) = some f ↔ f.name.toList = text := by
  constructor
  · intro h
    have hname : f.name = String.ofList text := by simpa using List.find?_some h
    rw [hname, String.toList_ofList]
  · rintro rfl
    rw [String.ofList_toList, TexelFormat.ofText?_name]

theorem StartsScale.colon_mem {s value : List Char} (h : StartsScale s value) : ':' ∈ s := by
  obtain ⟨w, rfl, -⟩ := h
  simp

theorem StartsScale.value_inj {s value value' : List Char} (h : StartsScale s value)
    (h' : StartsScale s value') : value = value' := by
  obtain ⟨w, rfl, hw⟩ := h
  obtain ⟨w', heq, hw'⟩ := h'
  have hrest := List.append_cancel_left heq
  exact (List.cons_inj_right _).mp (scan_inj hw hw' (by simp) (by simp) hrest).2

theorem not_startsScale_name (f : TexelFormat) : ¬∃ value, StartsScale f.name.toList value := by
  rintro ⟨value, h⟩
  exact f.isWord_name.2.ne (d := ':') (by decide) _ h.colon_mem rfl

/-- A word is read as what its text says. -/
theorem Word.Fits.says_iff {w : Word} (h : w.Fits) {x : Setting} :
    Says w.text x ↔ w.setting? = some x := by
  cases h with
  | @plain text hno =>
    rw [Word.setting?, Option.map_eq_some_iff]
    constructor
    · intro hsays
      rw [Word.text] at hsays
      cases hsays with
      | format f => exact ⟨f, TexelFormat.ofText?_eq_some_iff.mpr rfl, rfl⟩
      | scale hscale _ => exact absurd ⟨_, hscale⟩ hno
    · rintro ⟨f, hf, rfl⟩
      rw [Word.text, ← TexelFormat.ofText?_eq_some_iff.mp hf]
      exact .format f
  | @scale text v value hscale hv =>
    rw [Word.setting?, Option.map_eq_some_iff]
    have hread : Scale.read? (v ++ value) = Scale.read? value := by
      rw [Scale.read?, Scale.read?, trim_blank_append hv]
    constructor
    · intro hsays
      rw [Word.text] at hsays
      cases hsays with
      | format f => exact absurd ⟨_, hscale⟩ (not_startsScale_name f)
      | @scale _ value' s hscale' hs =>
        exact ⟨s, by rw [← hread, hscale.value_inj hscale', hs], rfl⟩
    · rintro ⟨s, hs, rfl⟩
      exact .scale hscale (hread.trans hs)

/-- Settings are applied one after the other, so the last of each kind stays. -/
theorem foldl_apply (t : Texture) (settings : List Setting) : settings.foldl Setting.apply t =
    { t with
      format := (settings.filterMap Setting.format?).getLast?.getD t.format
      scale := (settings.filterMap Setting.scale?).getLast?.getD t.scale } := by
  induction settings generalizing t with
  | nil => rfl
  | cons x settings ih =>
    rw [List.foldl_cons, ih]
    cases x <;> simp [Setting.apply, Setting.format?, Setting.scale?, List.getLast?_cons]

theorem foldlM_applyWord (t : Texture) (ws : List Word) :
    ws.foldlM applyWord t = (ws.mapM Word.setting).map fun xs => xs.foldl Setting.apply t := by
  induction ws generalizing t with
  | nil => rfl
  | cons w ws ih =>
    rw [List.foldlM_cons, List.mapM_cons, applyWord_eq]
    cases w.setting with
    | error found => rfl
    | ok x =>
      simp only [Except.map, bind, Except.bind, ih]
      cases ws.mapM Word.setting <;> rfl

theorem misfit_cons_iff {name found : List Char} {ts : List (List Char)} :
    Misfit (name :: ts) found ↔ ':' ∈ name ∧ name = found ∨ ':' ∉ name ∧ ∃ front back,
      ts = front ++ found :: back ∧ (∀ t ∈ front, ∃ x, Says t x) ∧ ¬∃ x, Says found x := by
  constructor
  · intro h
    cases h with
    | name hname => exact .inl ⟨hname, rfl⟩
    | option hname hfront hfound => exact .inr ⟨hname, _, _, rfl, hfront, hfound⟩
  · rintro (⟨hname, rfl⟩ | ⟨hname, front, back, rfl, hfront, hfound⟩)
    · exact .name hname
    · exact .option hname hfront hfound

section

variable {ws : List Word} (h : ∀ w ∈ ws, w.Fits)

include h

theorem mapM_setting_eq_ok_iff {xs : List Setting} :
    ws.mapM Word.setting = .ok xs ↔ List.Forall₂ Says (ws.map Word.text) xs := by
  rw [mapM_eq_ok_iff, List.forall₂_map_left_iff]
  induction ws generalizing xs with
  | nil => simp
  | cons w ws ih =>
    obtain ⟨hw, h⟩ := List.forall_mem_cons.mp h
    simp only [List.forall₂_cons_left_iff, ih h]
    simp only [Word.setting_eq_ok_iff, hw.says_iff]

theorem mapM_setting_eq_error_iff {found : List Char} :
    ws.mapM Word.setting = .error found ↔ ∃ front back,
      ws.map Word.text = front ++ found :: back ∧ (∀ t ∈ front, ∃ x, Says t x) ∧
        ¬∃ x, Says found x := by
  rw [mapM_eq_error_iff]
  constructor
  · rintro ⟨front, w, back, rfl, hfront, hw⟩
    obtain ⟨hnone, rfl⟩ := Word.setting_eq_error_iff.mp hw
    refine ⟨front.map Word.text, back.map Word.text, by simp, ?_, ?_⟩
    · refine List.forall_mem_map.mpr fun v hv => ?_
      obtain ⟨x, hx⟩ := hfront v hv
      exact ⟨x, (h v (by simp [hv])).says_iff.mpr (Word.setting_eq_ok_iff.mp hx)⟩
    · rintro ⟨x, hx⟩
      rw [(h w (by simp)).says_iff, hnone] at hx
      cases hx
  · rintro ⟨front, back, hsplit, hfront, hno⟩
    obtain ⟨front, ws', rfl, rfl, hback⟩ := List.map_eq_append_iff.mp hsplit
    obtain ⟨w, back, rfl, rfl, rfl⟩ := List.map_eq_cons_iff.mp hback
    refine ⟨front, w, back, rfl, fun v hv => ?_, Word.setting_eq_error_iff.mpr ⟨?_, rfl⟩⟩
    · obtain ⟨x, hx⟩ := hfront _ (List.mem_map_of_mem hv)
      exact ⟨x, Word.setting_eq_ok_iff.mpr ((h v (by simp [hv])).says_iff.mp hx)⟩
    · cases hx : w.setting? with
      | none => rfl
      | some x => exact absurd ⟨x, (h w (by simp)).says_iff.mpr hx⟩ hno

theorem readWords_eq_ok_iff {o : Option Texture} :
    readWords ws = .ok o ↔ Describes (ws.map Word.text) o := by
  cases ws with
  | nil =>
    constructor
    · rintro ⟨⟩
      exact .nothing
    · rintro ⟨⟩
      rfl
  | cons name options =>
    obtain ⟨-, hoptions⟩ := List.forall_mem_cons.mp h
    rw [readWords, List.map_cons]
    by_cases hname : ':' ∈ name.text
    · rw [if_pos hname]
      constructor
      · intro h
        cases h
      · intro h
        cases h with
        | attachment hno _ => exact absurd hname hno
    · simp only [if_neg hname, foldlM_applyWord, map_eq_ok_iff, mapM_setting_eq_ok_iff hoptions]
      constructor
      · rintro ⟨t, ⟨xs, hxs, rfl⟩, rfl⟩
        rw [foldl_apply]
        exact .attachment hname hxs
      · intro h
        cases h with
        | @attachment _ _ xs _ hxs => exact ⟨_, ⟨xs, hxs, rfl⟩, by rw [foldl_apply]; rfl⟩

theorem readWords_eq_error_iff {found : List Char} :
    readWords ws = .error found ↔ Misfit (ws.map Word.text) found := by
  cases ws with
  | nil =>
    constructor
    · rintro ⟨⟩
    · rintro ⟨⟩
  | cons name options =>
    obtain ⟨-, hoptions⟩ := List.forall_mem_cons.mp h
    rw [readWords, List.map_cons, misfit_cons_iff]
    by_cases hname : ':' ∈ name.text
    · simp [hname]
    · simp [hname, foldlM_applyWord, map_eq_error_iff, mapM_setting_eq_error_iff hoptions]

end

/-- What an entry describes, by its tokens. -/
def EntryDescribes (entry : List Char) (o : Option Texture) : Prop :=
  ∃ tokens, Scans entry tokens ∧ Describes tokens o

theorem readWords_wordsOf_eq_ok_iff {entry : List Char} {o : Option Texture} :
    readWords (wordsOf entry) = .ok o ↔ EntryDescribes entry o := by
  obtain ⟨ts, hts⟩ := exists_scans entry
  obtain ⟨htext, hfits⟩ := hts.wordsOf
  rw [readWords_eq_ok_iff hfits, htext]
  exact ⟨fun h => ⟨ts, hts, h⟩, fun ⟨us, hus, h⟩ => hts.unique hus ▸ h⟩

theorem readWords_wordsOf_eq_error_iff {entry found : List Char} :
    readWords (wordsOf entry) = .error found ↔ ∃ tokens, Scans entry tokens ∧
      Misfit tokens found := by
  obtain ⟨ts, hts⟩ := exists_scans entry
  obtain ⟨htext, hfits⟩ := hts.wordsOf
  rw [readWords_eq_error_iff hfits, htext]
  exact ⟨fun h => ⟨ts, hts, h⟩, fun ⟨us, hus, h⟩ => hts.unique hus ▸ h⟩

theorem mapM_readWords_eq_ok_iff {entries : List (List Char)} {os : List (Option Texture)} :
    (entries.mapM fun e => readWords (wordsOf e)) = .ok os ↔
      List.Forall₂ EntryDescribes entries os := by
  have hentry : (fun e o => readWords (wordsOf e) = .ok o) = EntryDescribes :=
    funext fun _ => funext fun _ => propext readWords_wordsOf_eq_ok_iff
  rw [mapM_eq_ok_iff, hentry]

/-- Lists of attachments and their grammar. An entry is scanned into tokens in exactly one way,
and every character but blank ones and commas stands in one of them. A list that is closed with only
blank characters behind it is accepted exactly if the tokens of each entry describe an attachment or
there are none, and then these attachments are the list, in order; otherwise the first token that
does not fit is reported on the line of the field. -/
theorem continueList_attachments (plan : Plan) (b : Buffer) (line : Nat)
    (opening inner rest : List Char) (h : trim rest = []) :
    (∀ entry, ∃! tokens, Scans entry tokens) ∧
    (∀ entry tokens, Scans entry tokens → tokens.flatten.filter inWord = entry.filter inWord) ∧
    (∀ state, continueList plan (.attachments b) line opening (.closed inner rest) = .ok state ↔
      ∃ os, List.Forall₂ EntryDescribes (pieces endsAttachment inner) os ∧
        state = .inBlock plan (.buffer { b with textures := os.filterMap id })) ∧
    ∀ e, continueList plan (.attachments b) line opening (.closed inner rest) = .error e ↔
      ∃ front entry back tokens found, pieces endsAttachment inner = front ++ entry :: back ∧
        (∀ x ∈ front, ∃ o, EntryDescribes x o) ∧ Scans entry tokens ∧ Misfit tokens found ∧
        e = ⟨line, .malformedList .texture (String.ofList found)⟩ := by
  refine ⟨fun entry => ?_, fun entry tokens => Scans.filter_flatten, fun state => ?_, fun e => ?_⟩
  · obtain ⟨ts, hts⟩ := exists_scans entry
    exact ⟨ts, hts, fun us hus => hus.unique hts⟩
  · rw [continueList_closed h]
    have hfill : ListField.fill inner (.attachments b) =
        (readAttachments inner).map fun ts => .buffer { b with textures := ts } := rfl
    simp only [hfill, readAttachments, ← mapM_readWords_eq_ok_iff]
    cases (pieces endsAttachment inner).mapM fun e => readWords (wordsOf e) with
    | error found => simp [Except.map, malformedList, fail]
    | ok os => simp [Except.map, eq_comm]
  · rw [continueList_closed_eq_error_iff h]
    simp only [ListField.fill, readAttachments, map_eq_error_iff, mapM_eq_error_iff,
      readWords_wordsOf_eq_ok_iff, readWords_wordsOf_eq_error_iff]
    constructor
    · rintro ⟨found, ⟨front, entry, back, hsplit, hfront, tokens, hscans, hmisfit⟩, rfl⟩
      exact ⟨front, entry, back, tokens, found, hsplit, hfront, hscans, hmisfit, rfl⟩
    · rintro ⟨front, entry, back, tokens, found, hsplit, hfront, hscans, hmisfit, rfl⟩
      exact ⟨found, ⟨front, entry, back, hsplit, hfront, tokens, hscans, hmisfit⟩, rfl⟩

/-- An attachment may be called `scale`; behind a name, blank characters may stand around the colon
of a scale, and one without a number is reported with them. -/
theorem continueList_attachments_scale :
    trim " ".toList = [] ∧
      continueList {} (.attachments { name := "b" }) 2 [] (.closed " scale;".toList " ".toList) =
        .ok (.inBlock {} (.buffer { name := "b", textures := [{ name := "scale" }] })) ∧
      continueList {} (.attachments { name := "b" }) 2 [] (.closed "a,scale : ".toList " ".toList) =
        .error ⟨2, .malformedList .texture "scale : "⟩ := by
  have hblank : trim " ".toList = [] := by decide
  have hname : Scans " scale".toList ["scale".toList] := by
    have hno : ¬∃ value, StartsScale ("scale".toList ++ []) value := by
      rintro ⟨value, h⟩
      exact absurd h.colon_mem (by decide)
    have hword := List.all_eq_true.mp (by decide : "scale".toList.all inWord = true)
    exact .gap (by decide) (.token (.plain (by decide) hno hword (by simp)) .nil)
  have hscale : Scans "a,scale : ".toList ["a".toList, "scale : ".toList] := by
    have hno : ¬∃ value, StartsScale ("a".toList ++ ",scale : ".toList) value := by
      rintro ⟨value, w, h, -⟩
      simp [scaleName] at h
    have hcomma : ∀ c ∈ ",scale : ".toList.head?, inWord c = false := by
      rintro c ⟨⟩
      decide
    have hword := List.all_eq_true.mp (by decide : "a".toList.all inWord = true)
    have htoken : Token "scale : ".toList "scale : ".toList [] :=
      @Token.scale [' '] [' '] [] [] (by simp) (by simp) (by simp) (by simp) (by simp)
    exact .token (.plain (by decide) hno hword hcomma) (.gap (by decide) (.token htoken .nil))
  refine ⟨hblank, ?_, ?_⟩
  · obtain ⟨-, -, hok, -⟩ := continueList_attachments {} { name := "b" } 2 [] " scale;".toList
      " ".toList hblank
    refine (hok _).mpr ⟨[some (described "scale".toList []), none], ?_, rfl⟩
    exact .cons ⟨_, hname, .attachment (by decide) .nil⟩ (.cons ⟨_, .nil, .nothing⟩ .nil)
  · obtain ⟨-, -, -, herror⟩ := continueList_attachments {} { name := "b" } 2 []
      "a,scale : ".toList " ".toList hblank
    refine (herror _).mpr ⟨[], _, [], _, "scale : ".toList, rfl, by simp, hscale, ?_, rfl⟩
    refine @Misfit.option _ _ [] [] (by decide) (by simp) ?_
    rintro ⟨x, hx⟩
    have hstarts : StartsScale "scale : ".toList " ".toList := ⟨[' '], rfl, by simp⟩
    generalize ht : "scale : ".toList = t at hx hstarts
    cases hx with
    | format f => exact not_startsScale_name f ⟨_, hstarts⟩
    | scale h hs =>
      have hnone : Scale.read? " ".toList = none := by decide
      rw [← hstarts.value_inj h, hnone] at hs
      cases hs

end RenderPlan.Description
