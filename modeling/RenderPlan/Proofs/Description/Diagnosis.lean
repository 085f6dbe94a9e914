import RenderPlan.Proofs.Description.Fault
/-!
Where errors point. The number of an error is that of a line of the text, and what the error quotes
stands on this line; only a list may be quoted from a line below it, and only a source that does not
end leaves the line of its own start behind. What the reading remembers of a line is true of it as
long as the block, list or source lasts that the line began.
-/
namespace RenderPlan.Description

open RenderPlan.Text

/-- A line that is a field with the keyword and the value. -/
def SplitsInto (line keyword value : List Char) : Prop :=
  (cutAt ':' line).map (Prod.map trim trim) = some (keyword, value)

/-- A line that is a field with the keyword. -/
def IsFieldOf (line : List Char) (k : Keyword) (value : List Char) : Prop :=
  SplitsInto line k.spelling.toList value

/-- A line that is a list field of a kind. -/
def IsListFieldOf (line : List Char) (kind : ListKind) (value : List Char) : Prop :=
  ∃ k : Keyword, k.listKind? = some kind ∧ IsFieldOf line k value

/-- A line that starts a source: its field, or an opening fence. -/
def StartsSource (line : List Char) : Prop :=
  (∃ value, IsFieldOf line .source value) ∨ isFence line = true ∧ isOpeningFence line = true

/-- A text that stands on a line or on one of those below. -/
def StandsIn (text line : List Char) (below : List (List Char)) : Prop :=
  ∃ l ∈ line :: below, text <:+: l

/-- What an error says of its line and of the lines below. -/
def Cause.PointsAt (line : List Char) (below : List (List Char)) : Cause → Prop
  | unknownKeyword keyword => ∃ value, SplitsInto line keyword.toList value
  | missingColon text => isIgnorable line = false ∧ ':' ∉ line ∧ text.toList = trim line
  | notBoolean field value =>
    SplitsInto line field.toList value.toList ∧
      (∃ k : Keyword, k.isFlag = true ∧ k.spelling = field) ∧
      value ∉ ["yes", "true", "no", "false"]
  | malformedList kind found =>
    (∃ value, IsListFieldOf line kind value ∧ (found = "" → value = [])) ∧
      StandsIn found.toList line below
  | malformedValue field value =>
    SplitsInto line field.toList value.toList ∨
      field = Keyword.source.spelling ∧ value.toList = trim line ∧ isFence line = true
  | missingFence found =>
    (SplitsInto line Keyword.source.spelling.toList found.toList ∨ found.toList = trim line) ∧
      found ≠ "" ∧ found.toList.head? ≠ some fenceMark
  | missingSource stage => SplitsInto line stage.spelling.toList []
  | unexpectedEnd => StartsSource line ∧ ∀ l ∈ below, isFence l = false

theorem StandsIn.append {text line : List Char} {below : List (List Char)}
    (h : StandsIn text line below) (us : List (List Char)) : StandsIn text line (below ++ us) := by
  obtain ⟨l, hl, ht⟩ := h
  exact ⟨l, by rw [← List.cons_append]; exact List.mem_append_left us hl, ht⟩

theorem StandsIn.of_isInfix {part text line : List Char} {below : List (List Char)}
    (h : StandsIn text line below) (hp : part <:+: text) : StandsIn part line below := by
  obtain ⟨l, hl, ht⟩ := h
  exact ⟨l, hl, hp.trans ht⟩

theorem standsIn_self {text line : List Char} (h : text <:+: line) (below : List (List Char)) :
    StandsIn text line below := ⟨line, List.mem_cons_self, h⟩

theorem standsIn_last {text x : List Char} (h : text <:+: x) (line : List Char)
    (below : List (List Char)) (us : List (List Char)) : StandsIn text line (below ++ x :: us) :=
  ⟨x, by simp, h⟩

/-- The line with a number, and the lines below it. -/
def LineAt (ts : List (List Char)) (n : Nat) (P : List Char → List (List Char) → Prop) : Prop :=
  ∃ front line below, ts = front ++ line :: below ∧ n = front.length + 1 ∧ P line below

section LineAt

variable {ts us : List (List Char)} {x : List Char} {n : Nat}
  {P Q : List Char → List (List Char) → Prop}

theorem LineAt.imp (h : LineAt ts n P) (hpq : ∀ line below, P line below → Q line below) :
    LineAt ts n Q := by
  obtain ⟨front, line, below, hts, hn, hp⟩ := h
  exact ⟨front, line, below, hts, hn, hpq line below hp⟩

/-- The line that is read next. -/
theorem LineAt.next (h : P x us) : LineAt (ts ++ x :: us) (ts.length + 1) P :=
  ⟨ts, x, us, rfl, rfl, h⟩

/-- A line that has been read stays where it is. -/
theorem LineAt.append (h : LineAt ts n P) (us : List (List Char))
    (hpq : ∀ line below, P line below → Q line (below ++ us)) : LineAt (ts ++ us) n Q := by
  obtain ⟨front, line, below, hts, hn, hp⟩ := h
  exact ⟨front, line, below ++ us, by rw [hts, List.append_assoc, List.cons_append], hn,
    hpq line below hp⟩

end LineAt

/-- A field splits its line. -/
theorem splitsInto_of_field {l : Line} {f : Field} (h : l.field? = some f) :
    f.line = l.number ∧ SplitsInto l.text f.keyword f.value := by
  rw [Line.field?, Field.read?, Option.map_eq_some_iff] at h
  obtain ⟨p, hp, rfl⟩ := h
  exact ⟨rfl, by rw [SplitsInto, hp]; rfl⟩

theorem isFieldOf_of_field {l : Line} {f : Field} {k : Keyword} (hf : l.field? = some f)
    (hk : Keyword.ofText? (String.ofList f.keyword) = some k) : IsFieldOf l.text k f.value := by
  rw [IsFieldOf, Keyword.ofText?_eq_some_iff.mp hk, String.toList_ofList]
  exact (splitsInto_of_field hf).2

/-- The value of a field stands on its line. -/
theorem value_infix_of_field {l : Line} {f : Field} (h : l.field? = some f) :
    f.value <:+: l.text := by
  rw [Line.field?, Field.read?, Option.map_eq_some_iff] at h
  obtain ⟨⟨a, b⟩, hp, rfl⟩ := h
  rw [(cutAt_eq_some_iff.mp hp).1]
  exact (trim_isInfix b).trans ⟨a ++ [':'], [], by simp⟩

/-- The line of a field is the one that is read next. -/
theorem LineAt.of_field {ts us : List (List Char)} {x : List Char} {f : Field}
    {P : List Char → List (List Char) → Prop} (hf : Line.field? ⟨ts.length + 1, x⟩ = some f)
    (h : P x us) : LineAt (ts ++ x :: us) f.line P := by
  rw [(splitsInto_of_field hf).1]
  exact .next h

theorem isFence_of_isIgnorable {x : List Char} (h : isIgnorable x = true) : isFence x = false := by
  cases hx : trimStart x with
  | nil => simp [isFence, startsWith, hx]
  | cons c r =>
    have hc : c = '-' := by simpa [isIgnorable, isComment, startsWith, hx] using h
    simp [isFence, startsWith, hx, hc, fenceMark]

/-- An open stage knows the line that opened it. -/
def StageLocated (ts : List (List Char)) : Option OpenStage → Prop
  | some st => LineAt ts st.line fun line _ => SplitsInto line st.stage.spelling.toList []
  | none => True

def Block.Located (ts : List (List Char)) : Block → Prop
  | .shader _ stage => StageLocated ts stage
  | _ => True

def ListField.Located (ts : List (List Char)) : ListField → Prop
  | .attributes _ stage => StageLocated ts stage
  | _ => True

/-- What a mode knows of the texts that have been read. -/
def Mode.Located (ts : List (List Char)) : Mode → Prop
  | .fields block => block.Located ts
  | .expectList field n =>
    field.Located ts ∧ LineAt ts n fun line _ => IsListFieldOf line field.kind []
  | .list field n opening inner =>
    field.Located ts ∧ LineAt ts n fun line below =>
      (∃ value, IsListFieldOf line field.kind value) ∧ opening ≠ [] ∧ StandsIn opening line below ∧
        ∀ found, QuotedFrom inner found → StandsIn found line below
  | .expectBuffer _ n => LineAt ts n fun line _ => IsFieldOf line .outputs []
  | .expectOutputs _ n _ => LineAt ts n fun line _ => ∃ value, IsFieldOf line .outputs value
  | .expectFence _ st n | .body _ st n _ =>
    StageLocated ts (some st) ∧ LineAt ts n fun line below =>
      StartsSource line ∧ ∀ l ∈ below, isFence l = false

section Located

variable {ts : List (List Char)}

theorem StageLocated.append {stage : Option OpenStage} (h : StageLocated ts stage)
    (us : List (List Char)) : StageLocated (ts ++ us) stage := by
  cases stage with
  | none => trivial
  | some st => exact LineAt.append h us fun _ _ h => h

theorem Block.Located.append {block : Block} (h : block.Located ts) (us : List (List Char)) :
    block.Located (ts ++ us) := by
  cases block with
  | shader s stage => exact StageLocated.append h us
  | _ => trivial

theorem ListField.Located.append {field : ListField} (h : field.Located ts)
    (us : List (List Char)) : field.Located (ts ++ us) := by
  cases field with
  | attributes s stage => exact StageLocated.append h us
  | _ => trivial

/-- A list that has been read belongs to a block that is located like its field. -/
theorem located_of_fill {field : ListField} {inner : List Char} {block : Block}
    (h : field.fill inner = .ok block) (hf : field.Located ts) : block.Located ts := by
  cases field with
  | outputs p buffer =>
    cases h
    trivial
  | _ =>
    obtain ⟨vs, -, rfl⟩ := exists_of_map_eq_ok h
    exact hf

/-- An opened list knows its line, for what opened it stands there or below. -/
theorem located_of_opened {plan : Plan} {field : ListField} {n : Nat} {opened : List Char}
    {t : State} (hf : field.Located ts)
    (hline : LineAt ts n fun line below =>
      (∃ value, IsListFieldOf line field.kind value) ∧ StandsIn ('[' :: opened) line below)
    (h : ListStep plan field n ('[' :: opened) (.start opened) t) : t.mode.Located ts := by
  generalize hb : Bracket.start opened = b at h
  cases h with
  | closed hr hfill => exact located_of_fill hfill hf
  | unclosed inner =>
    have hinner : inner = opened := by
      unfold Bracket.start at hb
      split at hb
      · cases hb
        rfl
      · cases hb
    subst hinner
    refine ⟨hf, hline.imp fun line below h => ⟨h.1, List.cons_ne_nil _ _, h.2, fun found hq => ?_⟩⟩
    exact h.2.of_isInfix (hq.isInfix.trans (List.suffix_cons '[' inner).isInfix)

theorem isListFieldOf_outputs {line value : List Char} (h : IsFieldOf line .outputs value) :
    IsListFieldOf line .output value := ⟨.outputs, rfl, h⟩

theorem located_of_outputsStep {plan : Plan} {p : Pass} {n : Nat} {value : List Char} {t : State}
    (hline : LineAt ts n fun line below =>
      (∃ value, IsFieldOf line .outputs value) ∧ StandsIn value line below)
    (h : OutputsStep plan p n value t) : t.mode.Located ts := by
  cases h with
  | alone hv hb => exact hline.imp fun _ _ h => h.1
  | withList hv hb h =>
    refine located_of_opened (show ListField.Located ts (.outputs p _) from trivial)
      (hline.imp fun line below hl => ?_) h
    obtain ⟨⟨v, hf⟩, hstands⟩ := hl
    exact ⟨⟨v, isListFieldOf_outputs hf⟩, hstands.of_isInfix (isInfix_of_splitOutputs hv)⟩

variable {x : List Char}

/-- A field that opens a stage is the line that the stage knows. -/
theorem located_of_sets {f : Field} {block block' : Block} {k : Keyword}
    (hf : Line.field? ⟨ts.length + 1, x⟩ = some f) (hfield : IsFieldOf x k f.value)
    (h : Sets f block k block') : block'.Located (ts ++ [x]) := by
  cases h with
  | vertexStage s hst hv =>
    rw [hv] at hfield
    exact LineAt.of_field hf hfield
  | fragmentStage s hst hv =>
    rw [hv] at hfield
    exact LineAt.of_field hf hfield
  | _ => trivial

theorem located_of_newBlock? {name : String} {k : Keyword} {block : Block}
    (h : newBlock? name k = some block) : block.Located ts := by
  unfold newBlock? at h
  split at h <;> cases h <;> trivial

theorem Lists.listKind?_eq {block : Block} {k : Keyword} {field : ListField}
    (h : Lists block k field) : k.listKind? = some field.kind := by
  cases h <;> rfl

theorem Lists.located {block : Block} {k : Keyword} {field : ListField}
    (h : Lists block k field) (hb : block.Located ts) : field.Located ts := by
  cases h with
  | attributes s stage => exact hb
  | _ => trivial

/-- A field leads to a mode that knows its line. -/
theorem located_of_fieldLineStep {plan : Plan} {block : Block} {t : State}
    (hb : block.Located ts) (h : FieldLineStep plan block ⟨ts.length + 1, x⟩ t) :
    t.mode.Located (ts ++ [x]) := by
  obtain ⟨f, k, hf, hk, h⟩ := h
  have hfield : IsFieldOf x k f.value := isFieldOf_of_field hf hk
  have hvalue : f.value <:+: x := value_infix_of_field hf
  cases h with
  | name => trivial
  | version => trivial
  | opens ho hn hc hv => exact located_of_newBlock? hn
  | sets h => exact located_of_sets hf hfield h
  | awaitsList h hv =>
    refine ⟨(h.located hb).append [x], LineAt.of_field hf ⟨k, h.listKind?_eq, ?_⟩⟩
    rwa [hv] at hfield
  | opensList h hv ht =>
    rw [hv] at ht hvalue
    exact located_of_opened ((h.located hb).append [x])
      (LineAt.of_field hf ⟨⟨f.value, k, h.listKind?_eq, hfield⟩, standsIn_self hvalue []⟩) ht
  | awaitsBuffer p hv =>
    rw [hv] at hfield
    exact LineAt.of_field hf hfield
  | outputs p hv ht =>
    exact located_of_outputsStep
      (LineAt.of_field hf ⟨⟨f.value, hfield⟩, standsIn_self hvalue []⟩) ht
  | awaitsFence s st hv =>
    have hst : StageLocated ts (some st) := hb
    exact ⟨hst.append [x], LineAt.of_field hf ⟨.inl ⟨f.value, hfield⟩, by simp⟩⟩
  | opensBody s st hfence ho =>
    have hst : StageLocated ts (some st) := hb
    exact ⟨hst.append [x], LineAt.of_field hf ⟨.inl ⟨f.value, hfield⟩, by simp⟩⟩

/-- A line that is passed over changes nothing that is known of the lines before. -/
theorem Mode.Located.skip {m : Mode} (h : m.Located ts) (hs : m.skips x = true) :
    m.Located (ts ++ [x]) := by
  cases m with
  | fields block => exact Block.Located.append h [x]
  | expectList field n => exact ⟨h.1.append [x], h.2.append [x] fun _ _ h => h⟩
  | list field n opening inner =>
    refine ⟨h.1.append [x], h.2.append [x] fun line below hl => ?_⟩
    obtain ⟨hfield, hne, hstands, hquoted⟩ := hl
    exact ⟨hfield, hne, hstands.append [x], fun found hq => (hquoted found hq).append [x]⟩
  | expectBuffer p n => exact LineAt.append h [x] fun _ _ h => h
  | expectOutputs p n buffer => exact LineAt.append h [x] fun _ _ h => h
  | expectFence s st n =>
    refine ⟨h.1.append [x], h.2.append [x] fun line below hl => ⟨hl.1, ?_⟩⟩
    rw [List.forall_mem_append]
    exact ⟨hl.2, by simpa using isFence_of_isIgnorable hs⟩
  | body s st n captured => cases hs

/-- What is known of the lines is known behind one more line. -/
theorem located_of_step {s t : State} (hs : s.mode.Located ts)
    (h : Step s ⟨ts.length + 1, x⟩ t) : t.mode.Located (ts ++ [x]) := by
  cases h with
  | skip hskip => exact hs.skip hskip
  | field ht => exact located_of_fieldLineStep hs ht
  | openList hl ht =>
    rw [hl] at ht
    refine located_of_opened (hs.1.append [x]) (hs.2.append [x] fun line below hfield => ?_) ht
    exact ⟨⟨[], hfield⟩, standsIn_last (hl ▸ trimStart_isInfix x) line below []⟩
  | @extendList plan field n opening inner _ _ hl ht =>
    generalize hb : Bracket.extend inner x = b at ht
    cases ht with
    | closed hr hf => exact located_of_fill hf (hs.1.append [x])
    | unclosed joined =>
      have hjoined : joined = inner ++ '\n' :: x := by
        unfold Bracket.extend at hb
        split at hb
        · cases hb
          rfl
        · cases hb
      subst hjoined
      refine ⟨hs.1.append [x], hs.2.append [x] fun line below hlist => ?_⟩
      obtain ⟨hfield, hne, hstands, hquoted⟩ := hlist
      refine ⟨hfield, hne, hstands.append [x], fun found hq => ?_⟩
      rcases infix_or_of_infix_append_cons hq.newline hq.isInfix with hin | hin
      · exact (hquoted found ⟨hq.ne_nil, hq.newline, hin⟩).append [x]
      · exact standsIn_last hin line below []
  | buffer hl ht =>
    refine located_of_outputsStep (LineAt.append hs [x] fun line below hfield => ?_) ht
    exact ⟨⟨[], hfield⟩, standsIn_last (trim_isInfix x) line below []⟩
  | @openOutputs plan p n buffer _ _ _ hl ht =>
    rw [hl] at ht
    refine located_of_opened (show ListField.Located (ts ++ [x]) (.outputs p buffer) from trivial)
      (LineAt.append hs [x] fun line below hfield => ?_) ht
    obtain ⟨value, hfield⟩ := hfield
    exact ⟨⟨value, isListFieldOf_outputs hfield⟩,
      standsIn_last (hl ▸ trimStart_isInfix x) line below []⟩
  | noOutputs ht =>
    exact located_of_fieldLineStep (show Block.Located ts (.pass _) from trivial) ht
  | fence hf ho => exact ⟨hs.1.append [x], .next ⟨.inr ⟨hf, ho⟩, by simp⟩⟩
  | capture hf =>
    refine ⟨hs.1.append [x], hs.2.append [x] fun line below hl => ⟨hl.1, ?_⟩⟩
    rw [List.forall_mem_append]
    exact ⟨hl.2, by simpa using hf⟩
  | endBody hf => exact StageLocated.append hs.1 [x]

end Located

/-- The number of an error is that of a line that it points at. -/
def Error.Located (ts : List (List Char)) (e : Error) : Prop :=
  LineAt ts e.line fun line below => e.cause.PointsAt line below

section Errors

variable {ts : List (List Char)} {x : List Char}

/-- A fault of a list field that quotes a part of a text. -/
theorem pointsAt_of_listFault {kind : ListKind} {n : Nat} {text line value : List Char}
    {below : List (List Char)} {e : Error} (h : ListFault kind n text e)
    (hline : IsListFieldOf line kind value) (ht : StandsIn text line below) :
    e.cause.PointsAt line below := by
  obtain ⟨found, hne, hf, rfl⟩ := h
  refine ⟨⟨value, hline, fun hempty => absurd (String.ofList_eq_empty_iff.mp hempty) hne⟩, ?_⟩
  rw [String.toList_ofList]
  exact ht.of_isInfix hf

theorem ListFault.line_eq {kind : ListKind} {n : Nat} {text : List Char} {e : Error}
    (h : ListFault kind n text e) : e.line = n := by
  obtain ⟨found, -, -, rfl⟩ := h
  rfl

theorem head?_ne_of_isFence {x : List Char} (h : isFence (trim x) = false) :
    (trim x).head? ≠ some fenceMark := by
  rw [isFence, startsWith, trimStart_trim] at h
  simpa using h

theorem located_of_fieldFault {f : Field} {block : Block} {k : Keyword} {e : Error}
    (hb : block.Located ts) (hf : Line.field? ⟨ts.length + 1, x⟩ = some f)
    (hk : Keyword.ofText? (String.ofList f.keyword) = some k) (h : FieldFault f block k e)
    (us : List (List Char)) : e.Located (ts ++ x :: us) := by
  have hfield : IsFieldOf x k f.value := isFieldOf_of_field hf hk
  have htrim : trim f.value = f.value := by
    rw [Line.field?, Field.read?, Option.map_eq_some_iff] at hf
    obtain ⟨p, -, rfl⟩ := hf
    exact trim_trim p.2
  have hsplit : SplitsInto x (String.ofList f.keyword).toList f.text.toList := by
    rw [Field.text, String.toList_ofList, String.toList_ofList]
    exact (splitsInto_of_field hf).2
  cases h with
  | keyword => exact LineAt.of_field hf ⟨_, hsplit⟩
  | value => exact LineAt.of_field hf (.inl hsplit)
  | flag hflag hv =>
    exact LineAt.of_field hf ⟨hsplit, ⟨k, hflag, Keyword.ofText?_eq_some_iff.mp hk⟩, hv⟩
  | stage hstage =>
    subst hstage
    exact LineAt.append hb (x :: us) fun _ _ h => h
  | list hkind hlist =>
    rw [Error.Located, hlist.line_eq]
    exact LineAt.of_field hf (pointsAt_of_listFault hlist ⟨k, hkind, hfield⟩
      (standsIn_self (value_infix_of_field hf) us))
  | outputs hout =>
    subst hout
    refine LineAt.of_field hf (.inl ?_)
    rw [Field.text, String.toList_ofList]
    exact hfield
  | fence hsource hv hfence =>
    subst hsource
    refine LineAt.of_field hf ⟨.inl ?_, ?_, ?_⟩
    · rw [Field.text, String.toList_ofList]
      exact hfield
    · exact fun hempty => hv (String.ofList_eq_empty_iff.mp hempty)
    · rw [Field.text, String.toList_ofList, ← htrim]
      exact head?_ne_of_isFence (by rwa [htrim])
  | tag hsource =>
    subst hsource
    refine LineAt.of_field hf (.inl ?_)
    rw [htrim, String.toList_ofList]
    exact hfield

theorem located_of_fieldLineFault {block : Block} {e : Error} (hb : block.Located ts)
    (hx : isIgnorable x = false) (h : FieldLineFault block ⟨ts.length + 1, x⟩ e)
    (us : List (List Char)) : e.Located (ts ++ x :: us) := by
  cases h with
  | colon hcolon => exact .next ⟨hx, hcolon, String.toList_ofList⟩
  | @unknown f hf =>
    obtain ⟨hline, hsplit⟩ := splitsInto_of_field hf
    rw [Error.Located, hline]
    refine .next ⟨f.value, ?_⟩
    rw [String.toList_ofList]
    exact hsplit
  | field hf hk h => exact located_of_fieldFault hb hf hk h us

/-- An error that a line brings about points at this line or at one read before. -/
theorem located_of_fault {s : State} {e : Error} (hs : s.mode.Located ts)
    (h : Fault s ⟨ts.length + 1, x⟩ e) (us : List (List Char)) : e.Located (ts ++ x :: us) := by
  cases h with
  | field hl h => exact located_of_fieldLineFault hs hl h us
  | noList =>
    refine LineAt.append hs.2 (x :: us) fun line below hfield => ⟨⟨[], hfield, fun _ => rfl⟩, ?_⟩
    exact standsIn_self List.nil_infix _
  | openList hlist =>
    rw [Error.Located, hlist.line_eq]
    refine LineAt.append hs.2 (x :: us) fun line below hfield => ?_
    exact pointsAt_of_listFault hlist hfield (standsIn_last (List.infix_refl x) line below us)
  | restOfList hlist =>
    rw [Error.Located, hlist.line_eq]
    refine LineAt.append hs.2 (x :: us) fun line below hl => ?_
    obtain ⟨⟨value, hfield⟩, -⟩ := hl
    exact pointsAt_of_listFault hlist hfield (standsIn_last (List.infix_refl x) line below us)
  | inList hq =>
    refine LineAt.append hs.2 (x :: us) fun line below hl => ?_
    obtain ⟨⟨value, hfield⟩, -, -, hquoted⟩ := hl
    exact pointsAt_of_listFault ⟨_, hq.ne_nil, List.infix_refl _, rfl⟩ hfield
      ((hquoted _ hq).append (x :: us))
  | noBuffer => exact LineAt.append hs (x :: us) fun _ _ hfield => .inl hfield
  | bufferList hlist =>
    rw [Error.Located, hlist.line_eq]
    refine LineAt.append hs (x :: us) fun line below hfield => ?_
    exact pointsAt_of_listFault hlist (isListFieldOf_outputs hfield)
      (standsIn_last (List.infix_refl x) line below us)
  | openOutputs hlist =>
    rw [Error.Located, hlist.line_eq]
    refine LineAt.append hs (x :: us) fun line below hfield => ?_
    obtain ⟨value, hfield⟩ := hfield
    exact pointsAt_of_listFault hlist (isListFieldOf_outputs hfield)
      (standsIn_last (List.infix_refl x) line below us)
  | noOutputs hl h =>
    exact located_of_fieldLineFault (show Block.Located ts (.pass _) from trivial) hl h us
  | noFence hl hf =>
    have hne : trim x ≠ [] := by
      intro hnil
      have hstart : trimStart x = [] := trimStart_eq_nil_iff.mpr (trim_eq_nil_iff.mp hnil)
      simp [isIgnorable, hstart] at hl
    refine .next ⟨.inr String.toList_ofList, ?_, ?_⟩
    · exact fun hempty => hne (String.ofList_eq_empty_iff.mp hempty)
    · rw [String.toList_ofList, head?_trim]
      simpa [isFence, startsWith] using hf
  | tag hf => exact .next (.inr ⟨rfl, String.toList_ofList, hf⟩)

/-- What is left open at the end of the text points at the line that opened it. -/
theorem located_of_finish {s : State} {e : Error} (hs : s.mode.Located ts)
    (h : s.finish = .error e) : e.Located ts := by
  obtain ⟨plan, m⟩ := s
  cases m with
  | fields block =>
    obtain ⟨s, st, rfl, rfl⟩ := fault_of_closeBlock h
    exact hs
  | expectList field n =>
    cases h
    exact hs.2.imp fun line below hfield =>
      ⟨⟨[], hfield, fun _ => rfl⟩, standsIn_self List.nil_infix below⟩
  | list field n opening inner =>
    cases h
    refine hs.2.imp fun line below hl => ?_
    obtain ⟨⟨value, hfield⟩, hne, hstands, -⟩ := hl
    exact pointsAt_of_listFault ⟨opening, hne, List.infix_refl _, rfl⟩ hfield hstands
  | expectBuffer p n =>
    cases h
    exact LineAt.imp hs fun _ _ hfield => .inl hfield
  | expectOutputs p n buffer => cases h
  | expectFence a st n =>
    cases h
    exact hs.2
  | body a st n captured =>
    cases h
    exact hs.2

/-- A reading that goes on behind the texts `ts` with the texts `us` points at one of both. -/
theorem located_of_run {s : State} {e : Error} (hs : s.mode.Located ts) {us : List (List Char)}
    (h : (s.feedAll (numberFrom (ts.length + 1) us) >>= State.finish) = .error e) :
    e.Located (ts ++ us) := by
  induction us generalizing ts s with
  | nil =>
    rw [List.append_nil]
    exact located_of_finish hs h
  | cons x us ih =>
    rw [numberFrom_cons, State.feedAll_cons, bind_assoc] at h
    rcases error_or_of_bind_eq_error h with h | ⟨t, ht, h⟩
    · exact located_of_fault hs (fault_of_feed h) us
    · have hlength : ts.length + 1 + 1 = (ts ++ [x]).length + 1 := by simp
      rw [hlength] at h
      have := ih (located_of_step hs (step_of_feed ht)) h
      rwa [List.append_assoc] at this

end Errors

/-- Every error points at a line of the text, and this line, or for a list one below it, holds
what the error quotes. -/
theorem pointsAt_of_read_eq_error {source : String} {e : Error} (h : read source = .error e) :
    1 ≤ e.line ∧ e.line ≤ (lines source.toList).length ∧
      ∃ line, (lines source.toList)[e.line - 1]? = some line ∧
        e.cause.PointsAt line ((lines source.toList).drop e.line) := by
  have hinitial : State.initial.mode.Located [] := trivial
  obtain ⟨front, line, below, hlines, hline, hpoints⟩ := located_of_run hinitial h
  rw [List.nil_append] at hlines
  rw [hlines, hline]
  refine ⟨Nat.le_add_left 1 _, by simp, line, by simp, ?_⟩
  simpa using hpoints

/-- The second name of a list is no input: the error has the number of the line of the field and
quotes a line below. -/
theorem pointsAt_of_read_inputs :
    read "pass: p\n  inputs: [\n    a.b, c\n  ]\n" = .error ⟨2, .malformedList .input "c"⟩ ∧
      ∃ line, (lines "pass: p\n  inputs: [\n    a.b, c\n  ]\n".toList)[1]? = some line ∧
        (Cause.malformedList .input "c").PointsAt line
          ((lines "pass: p\n  inputs: [\n    a.b, c\n  ]\n".toList).drop 2) := by
  have h : read "pass: p\n  inputs: [\n    a.b, c\n  ]\n" =
      .error ⟨2, .malformedList .input "c"⟩ := by rfl
  exact ⟨h, (pointsAt_of_read_eq_error h).2.2⟩

end RenderPlan.Description
