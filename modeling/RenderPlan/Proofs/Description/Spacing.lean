import RenderPlan.Proofs.Description.Ignorable
import RenderPlan.Proofs.Description.ListSpacing
/-!
Blank characters at the ends of a line. Whatever a line is read as, it is trimmed first; only a
`shader` field is read differently where it is indented. So blank characters before any other line
change nothing, and behind a line they change at most the text that an error quotes.
-/
namespace RenderPlan.Description

open RenderPlan.Text

section Trimmed

variable {x x' : List Char}

theorem startsWith_congr (h : trim x' = trim x) (c : Char) : startsWith c x' = startsWith c x := by
  rw [startsWith, startsWith, ← head?_trim, ← head?_trim, h]

theorem isIgnorable_congr (h : trim x' = trim x) : isIgnorable x' = isIgnorable x := by
  have hempty : ∀ y, (trimStart y).isEmpty = (trim y).head?.isNone := by
    intro y
    rw [head?_trim]
    cases trimStart y <;> rfl
  rw [isIgnorable, isIgnorable, hempty, hempty, h, isComment, isComment, startsWith_congr h]

theorem skips_congr (h : trim x' = trim x) (m : Mode) : m.skips x' = m.skips x := by
  cases m with
  | body s st n c => rfl
  | list field n opening inner => exact startsWith_congr h '-'
  | _ => exact isIgnorable_congr h

theorem not_mem_of_all_blank {c : Char} (hc : isBlank c = false) {w : List Char}
    (h : ∀ d ∈ w, isBlank d = true) : c ∉ w := by
  intro hm
  rw [h c hm] at hc
  cases hc

/-- The keyword and the value of a line are those of the trimmed line. -/
theorem map_trim_cutAt_colon (x : List Char) :
    (cutAt ':' x).map (Prod.map trim trim) = (cutAt ':' (trim x)).map (Prod.map trim trim) := by
  obtain ⟨w, v, hx, hw, hv⟩ := exists_margins x
  have hcut : cutAt ':' x = (cutAt ':' (trim x)).map fun p => (w ++ p.1, p.2 ++ v) := by
    conv => lhs; rw [hx]
    rw [cutAt_append_left (not_mem_of_all_blank (by decide) hw),
      cutAt_append_right (not_mem_of_all_blank (by decide) hv), Option.map_map]
    rfl
  rw [hcut, Option.map_map]
  congr 1
  funext p
  simp only [Function.comp, Prod.map, trim_blank_append hw, trim_append_blank hv]

theorem colon_mem_congr (h : trim x' = trim x) : ':' ∈ x' ↔ ':' ∈ x := by
  have hnone : cutAt ':' x' = none ↔ cutAt ':' x = none := by
    rw [← Option.map_eq_none_iff (f := Prod.map trim trim), map_trim_cutAt_colon, h,
      ← map_trim_cutAt_colon, Option.map_eq_none_iff]
  rw [cutAt_eq_none_iff, cutAt_eq_none_iff] at hnone
  exact Decidable.not_iff_not.mp hnone

/-- A line that is a `shader` field. -/
def IsShaderLine (text : List Char) : Prop :=
  ((cutAt ':' text).map fun p => trim p.1) = some Keyword.shader.spelling.toList

instance (text : List Char) : Decidable (IsShaderLine text) := inferInstanceAs (Decidable (_ = _))

theorem isShaderLine_congr (h : trim x' = trim x) : IsShaderLine x' ↔ IsShaderLine x := by
  have key : ∀ y : List Char, ((cutAt ':' y).map fun p => trim p.1) =
      ((cutAt ':' (trim y)).map (Prod.map trim trim)).map Prod.fst := by
    intro y
    rw [← map_trim_cutAt_colon, Option.map_map]
    rfl
  rw [IsShaderLine, IsShaderLine, key, key, h]

/-- A line is the field of its trimmed text, but for its indentation. -/
theorem read?_eq (n : Nat) (x : List Char) :
    Field.read? n x = ((cutAt ':' (trim x)).map (Prod.map trim trim)).map fun p =>
      ⟨n, p.1, p.2, !isIndented x⟩ := by
  rw [← map_trim_cutAt_colon, Option.map_map]
  rfl

/-- Every keyword but `shader` opens a block where it stands or does not, indented or not. -/
theorem opensBlockIn_of_ne_shader {k : Keyword} (hk : k ≠ .shader) (block : Block) (f : Field) :
    opensBlockIn block f k = k.opensBlock := by
  unfold opensBlockIn
  split
  · exact absurd rfl hk
  · simp

theorem blockField_of_ne_shader {k : Keyword} (hk : k ≠ .shader) (plan : Plan) (block : Block)
    (f : Field) (start : Bool) :
    blockField plan block { f with atLineStart := start } k = blockField plan block f k := by
  unfold blockField
  rw [opensBlockIn_of_ne_shader hk, opensBlockIn_of_ne_shader hk]
  cases block <;> rfl

theorem fieldLine_congr (h : trim x' = trim x)
    (hi : isIndented x' = isIndented x ∨ ¬ IsShaderLine x) (plan : Plan) (block : Block) (n : Nat) :
    fieldLine plan block ⟨n, x'⟩ = fieldLine plan block ⟨n, x⟩ := by
  simp only [fieldLine, Line.field?, read?_eq, h]
  rcases hi with hi | hs
  · rw [hi]
  · have hshader : ((cutAt ':' (trim x)).map (Prod.map trim trim)).map Prod.fst ≠
        some Keyword.shader.spelling.toList := by
      rw [← map_trim_cutAt_colon, Option.map_map]
      exact hs
    cases hc : (cutAt ':' (trim x)).map (Prod.map trim trim) with
    | none => rfl
    | some p =>
      simp only [Option.map_some]
      cases hk : Keyword.ofText? (String.ofList p.1) with
      | none => rfl
      | some k =>
        refine blockField_of_ne_shader ?_ plan block ⟨n, p.1, p.2, !isIndented x⟩ (!isIndented x')
        rintro rfl
        apply hshader
        rw [hc, Keyword.ofText?_eq_some_iff.mp hk]
        simp

end Trimmed

/-- Causes that are equal but for the texts that they quote from a list. -/
inductive Cause.Requotes (q : List Char → List Char → Prop) : Cause → Cause → Prop
  | refl (c : Cause) : Requotes q c c
  | list (kind : ListKind) {a b : List Char} (h : q a b) :
      Requotes q (.malformedList kind (String.ofList a)) (.malformedList kind (String.ofList b))

/-- Errors on the same line with causes that are equal but for texts quoted from a list. -/
def Error.Requotes (q : List Char → List Char → Prop) (e e' : Error) : Prop :=
  e'.line = e.line ∧ e.cause.Requotes q e'.cause

theorem Error.Requotes.refl {q : List Char → List Char → Prop} (e : Error) : e.Requotes q e :=
  ⟨rfl, .refl e.cause⟩

theorem Error.Requotes.eq {e e' : Error} (h : e.Requotes Eq e') : e = e' := by
  obtain ⟨n, c⟩ := e
  obtain ⟨n', c'⟩ := e'
  obtain ⟨hline, hcause⟩ := h
  cases hline
  cases hcause with
  | refl => rfl
  | list kind h => rw [h]

/-- Brackets that hold the same list, as far as it has been read. -/
inductive NearBracket (q : List Char → List Char → Prop) (k : ListKind) : Bracket → Bracket → Prop
  | unclosed {a b : List Char} (h : SimilarOpenList q k a b) :
      NearBracket q k (.unclosed a) (.unclosed b)
  | closed {a b rest rest' : List Char} (h : SimilarList q k a b) (hr : trim rest' = trim rest) :
      NearBracket q k (.closed a rest) (.closed b rest')

/-- States that are equal, or equal but for the text of an open list. -/
inductive NearState (q : List Char → List Char → Prop) : State → State → Prop
  | refl (s : State) : NearState q s s
  | list (plan : Plan) (field : ListField) (n : Nat) {opening opening' inner inner' : List Char}
      (ho : q opening opening') (hi : SimilarOpenList q field.kind inner inner') :
      NearState q ⟨plan, .list field n opening inner⟩ ⟨plan, .list field n opening' inner'⟩

/-- What a reading can see of a change of blank characters at the ends of a line. -/
structure Respaced (q : List Char → List Char → Prop) (x x' : List Char) : Prop where
  trim_eq : trim x' = trim x
  /-- The texts that an error of an open list would quote. -/
  quoted : q (trimStart x) (trimStart x')
  opened : ∀ k {o o' : List Char}, trimStart x = '[' :: o → trimStart x' = '[' :: o' →
    NearBracket q k (.start o) (.start o')
  extended : ∀ k inner, NearBracket q k (.extend inner x) (.extend inner x')
  indent : isIgnorable x = false → isIndented x' = isIndented x ∨ ¬ IsShaderLine x

section Near

variable {q : List Char → List Char → Prop}

theorem NearBracket.refl (hq : ∀ a, q a a) (k : ListKind) (b : Bracket) : NearBracket q k b b := by
  cases b with
  | unclosed a => exact .unclosed fun x => .of_sameList hq (.refl k _)
  | closed a rest => exact .closed (.of_sameList hq (.refl k a)) rfl

theorem NearBracket.extend {k : ListKind} {a b : List Char} (h : SimilarOpenList q k a b)
    (line : List Char) : NearBracket q k (.extend a line) (.extend b line) := by
  unfold Bracket.extend
  cases cutAt ']' line with
  | none =>
    refine .unclosed fun x => ?_
    simpa using h (line ++ '\n' :: x)
  | some c => exact .closed (h c.1) rfl

theorem related_of_eq {x y : Except Error State} (h : x = y) :
    Related (Error.Requotes q) (NearState q) x y := by
  rw [h]
  cases y with
  | ok s => exact .ok (.refl s)
  | error e => exact .error (.refl e)

theorem ListField.fill_related {field : ListField} {a b : List Char}
    (h : SimilarList q field.kind a b) : Related q Eq (field.fill a) (field.fill b) := by
  cases field with
  | outputs p buffer =>
    have h : readOutputs a = readOutputs b := h
    simp only [ListField.fill, h]
    exact .ok rfl
  | _ => exact Related.map h fun _ _ hab => by rw [hab]

theorem continueList_near (plan : Plan) (field : ListField) (n : Nat)
    {opening opening' : List Char} (ho : q opening opening') {b b' : Bracket}
    (h : NearBracket q field.kind b b') :
    Related (Error.Requotes q) (NearState q) (continueList plan field n opening b)
      (continueList plan field n opening' b') := by
  cases h with
  | unclosed h => exact .ok (.list plan field n ho h)
  | @closed a b rest rest' h hr =>
    simp only [continueList, hr]
    split
    · have hfill := field.fill_related h
      generalize field.fill a = x, field.fill b = y at hfill
      cases hfill with
      | ok h => exact .ok (by rw [h]; exact .refl _)
      | error h => exact .error ⟨rfl, .list field.kind h⟩
    · exact .error (.refl _)

theorem exists_of_startsWith {c : Char} {x : List Char} (h : startsWith c x = true) :
    ∃ o, trimStart x = c :: o := by
  rw [startsWith, beq_iff_eq, List.head?_eq_some_iff] at h
  exact h

variable {x x' : List Char}

/-- The line that opens a list, changed at its ends. -/
theorem openList_respaced (h : Respaced q x x') (hx : startsWith '[' x = true) (plan : Plan)
    (field : ListField) (n : Nat) :
    Related (Error.Requotes q) (NearState q) (openList plan field n (trimStart x))
      (openList plan field n (trimStart x')) := by
  obtain ⟨o, ho⟩ := exists_of_startsWith hx
  obtain ⟨o', ho'⟩ := exists_of_startsWith ((startsWith_congr h.trim_eq '[').trans hx)
  have hquoted := h.quoted
  have hopened := h.opened field.kind ho ho'
  rw [ho, ho'] at hquoted ⊢
  exact continueList_near plan field n hquoted hopened

/-- A line outside a body, changed at its ends, leads to a state that is close. The line that
ends a body may be changed too. -/
theorem feed_respaced (hq : ∀ a, q a a) (h : Respaced q x x') {s : State} (n : Nat)
    (hb : ∀ a st m c, s.mode = .body a st m c → isFence x = true) :
    Related (Error.Requotes q) (NearState q) (s.feed ⟨n, x⟩) (s.feed ⟨n, x'⟩) := by
  obtain ⟨plan, m⟩ := s
  have hfence : isFence x' = isFence x := startsWith_congr h.trim_eq fenceMark
  have hopens : startsWith '[' x' = startsWith '[' x := startsWith_congr h.trim_eq '['
  simp only [State.feed, skips_congr h.trim_eq]
  split
  · exact .ok (.refl _)
  · next hs =>
    cases m with
    | fields block =>
      have hi := h.indent (eq_false_of_ne_true hs)
      exact related_of_eq (fieldLine_congr h.trim_eq hi plan block n).symm
    | expectList field m =>
      simp only [consume, hopens]
      split
      · next ho => exact openList_respaced h ho plan field m
      · exact related_of_eq rfl
    | list field m opening inner =>
      exact continueList_near plan field m (hq opening) (h.extended field.kind inner)
    | expectBuffer p m =>
      simp only [consume, colon_mem_congr h.trim_eq, h.trim_eq]
      exact related_of_eq rfl
    | expectOutputs p m buffer =>
      simp only [consume, hopens]
      split
      · next ho => exact openList_respaced h ho plan _ m
      · have hi := h.indent (eq_false_of_ne_true hs)
        exact related_of_eq (fieldLine_congr h.trim_eq hi plan _ n).symm
    | expectFence a st m =>
      simp only [consume, hfence, openBody, isOpeningFence, h.trim_eq]
      exact related_of_eq rfl
    | body a st m c =>
      simp only [consume, hfence, hb a st m c rfl, if_true]
      exact related_of_eq rfl

/-- What behind a changed line is equal leads on from close states to close states. -/
theorem NearState.feed {s t : State} (h : NearState q s t) (l : Line) :
    Related (Error.Requotes q) (NearState q) (s.feed l) (t.feed l) := by
  cases h with
  | refl => exact related_of_eq rfl
  | list plan field n ho hi =>
    cases hc : isComment l.text with
    | true =>
      simp only [State.feed, Mode.skips, hc, if_true]
      exact .ok (.list plan field n ho hi)
    | false =>
      simp only [State.feed, Mode.skips, hc, Bool.false_eq_true, if_false]
      exact continueList_near plan field n ho (.extend hi l.text)

theorem NearState.feedAll {s t : State} (h : NearState q s t) (ls : List Line) :
    Related (Error.Requotes q) (NearState q) (s.feedAll ls) (t.feedAll ls) := by
  induction ls generalizing s t with
  | nil => exact .ok h
  | cons l ls ih =>
    rw [State.feedAll_cons, State.feedAll_cons]
    exact (h.feed l).bind fun _ _ h => ih h

theorem NearState.finish {s t : State} (h : NearState q s t) :
    Related (Error.Requotes q) Eq s.finish t.finish := by
  cases h with
  | refl => exact .refl .refl _
  | list plan field n ho hi => exact .error ⟨rfl, .list field.kind ho⟩

/-- Lines that lead into a body end inside it. -/
theorem insideBody_of_mode {ts : List (List Char)} {s : State}
    (hs : State.initial.feedAll (numberFrom 1 ts) = .ok s) {a : Shader} {st : OpenStage} {m : Nat}
    {c : List (List Char)} (hm : s.mode = .body a st m c) : InsideBody ts ts.length := by
  rw [insideBody_iff]
  exact ⟨s.plan, a, st, m, c, by rw [List.take_length, hs, ← hm]⟩

/-- A line that is no line of a body may be changed at its ends, in a way that no field on it is
read differently. -/
theorem readLines_respaced (hq : ∀ a, q a a) (h : Respaced q x x') (front below : List (List Char))
    (hb : InsideBody front front.length → isFence x = true) :
    Related (Error.Requotes q) Eq (readLines (numberFrom 1 (front ++ x :: below)))
      (readLines (numberFrom 1 (front ++ x' :: below))) := by
  have split : ∀ y, readLines (numberFrom 1 (front ++ y :: below)) =
      (State.initial.feedAll (numberFrom 1 front) >>= fun s =>
        s.feed ⟨1 + front.length, y⟩ >>= fun t =>
          t.feedAll (numberFrom (1 + front.length + 1) below) >>= State.finish) := by
    intro y
    rw [readLines, numberFrom_append, State.feedAll_append, bind_assoc]
    simp only [numberFrom_cons, State.feedAll_cons, bind_assoc]
  rw [split, split]
  cases hs : State.initial.feedAll (numberFrom 1 front) with
  | error e => exact .error (.refl e)
  | ok s =>
    have hbody : ∀ a st m c, s.mode = .body a st m c → isFence x = true :=
      fun a st m c hm => hb (insideBody_of_mode hs hm)
    refine (feed_respaced hq h (1 + front.length) hbody).bind fun t t' ht => ?_
    exact (ht.feedAll _).bind fun _ _ hu => hu.finish

end Near

section Ends

variable {x x' : List Char}

/-- Blank characters at the start of a text stand before its first closing bracket. -/
theorem cut_of_trimStart_eq {c : Char} (hc : isBlank c = false)
    (h : trimStart x' = trimStart x) :
    (cutAt c x = none ∧ cutAt c x' = none) ∨ ∃ a a' b, cutAt c x = some (a, b) ∧
      cutAt c x' = some (a', b) ∧ trimStart a = trimStart a' := by
  obtain ⟨w, hw, hblank⟩ := exists_blank_append x
  obtain ⟨w', hw', hblank'⟩ := exists_blank_append x'
  rw [hw', hw, h, cutAt_append_left (not_mem_of_all_blank hc hblank),
    cutAt_append_left (not_mem_of_all_blank hc hblank')]
  cases cutAt c (trimStart x) with
  | none => exact .inl ⟨rfl, rfl⟩
  | some p =>
    refine .inr ⟨w ++ p.1, w' ++ p.1, p.2, rfl, rfl, ?_⟩
    rw [trimStart_blank_append hblank, trimStart_blank_append hblank']

theorem cut_of_trimEnd_eq {c : Char} (hc : isBlank c = false) (h : trimEnd x' = trimEnd x) :
    (cutAt c x = none ∧ cutAt c x' = none) ∨ ∃ a b b', cutAt c x = some (a, b) ∧
      cutAt c x' = some (a, b') ∧ trim b' = trim b := by
  obtain ⟨v, hv, hblank⟩ := exists_append_blank x
  obtain ⟨v', hv', hblank'⟩ := exists_append_blank x'
  rw [hv', hv, h, cutAt_append_right (not_mem_of_all_blank hc hblank),
    cutAt_append_right (not_mem_of_all_blank hc hblank')]
  cases cutAt c (trimEnd x) with
  | none => exact .inl ⟨rfl, rfl⟩
  | some p =>
    refine .inr ⟨p.1, p.2 ++ v, p.2 ++ v', rfl, rfl, ?_⟩
    rw [trim_append_blank hblank, trim_append_blank hblank']

/-- Blank characters before a line that is no `shader` field. -/
theorem respaced_of_trimStart_eq (h : trimStart x' = trimStart x) (hs : ¬ IsShaderLine x) :
    Respaced Eq x x' where
  trim_eq := trim_eq_of_trimStart_eq h
  quoted := h.symm
  opened k o o' ho ho' := by
    rw [h, ho] at ho'
    cases ho'
    exact .refl (fun _ => rfl) k _
  extended k inner := by
    have same : ∀ {a a' : List Char}, trimStart a = trimStart a' →
        SimilarList Eq k (inner ++ '\n' :: a) (inner ++ '\n' :: a') := fun ha =>
      .behind (fun _ => rfl) (.of_sameList (fun _ => rfl) (sameList_of_trimStart_eq k ha)) inner
    rcases cut_of_trimStart_eq isBlank_closing h with ⟨hx, hx'⟩ | ⟨a, a', b, hx, hx', ha⟩
    · rw [Bracket.extend, Bracket.extend, hx, hx']
      exact .unclosed ((same h.symm).isOpen fun _ => rfl)
    · rw [Bracket.extend, Bracket.extend, hx, hx']
      exact .closed (same ha) rfl
  indent _ := .inr hs

/-- Blank characters behind a line. -/
theorem respaced_of_trimEnd_eq (h : trimEnd x' = trimEnd x) (hn : '\n' ∉ x) (hn' : '\n' ∉ x') :
    Respaced SameEnd x x' where
  trim_eq := trim_eq_of_trimEnd_eq h
  quoted := (trim_eq_of_trimEnd_eq h).symm
  opened k o o' ho ho' := by
    have hend : trimEnd o' = trimEnd o := by
      have ht := trim_eq_of_trimEnd_eq h
      rw [← trim_trimStart, ← trim_trimStart x, ho, ho', trim_cons_solid isBlank_opening,
        trim_cons_solid isBlank_opening] at ht
      exact (List.cons.inj ht).2
    have hno : '\n' ∉ o := fun hm => hn (mem_of_mem_trimStart (by simp [ho, hm]))
    have hno' : '\n' ∉ o' := fun hm => hn' (mem_of_mem_trimStart (by simp [ho', hm]))
    rcases cut_of_trimEnd_eq isBlank_closing hend with ⟨hx, hx'⟩ | ⟨a, b, b', hx, hx', hb⟩
    · rw [Bracket.start, Bracket.start, hx, hx']
      exact .unclosed ((similarList_of_trimEnd_eq k hend.symm hno hno').isOpen SameEnd.refl)
    · rw [Bracket.start, Bracket.start, hx, hx']
      exact .closed (.of_sameList SameEnd.refl (.refl k a)) hb
  extended k inner := by
    rcases cut_of_trimEnd_eq isBlank_closing h with ⟨hx, hx'⟩ | ⟨a, b, b', hx, hx', hb⟩
    · rw [Bracket.extend, Bracket.extend, hx, hx']
      have hsim := (similarList_of_trimEnd_eq k h.symm hn hn').behind SameEnd.refl inner
      exact .unclosed (hsim.isOpen SameEnd.refl)
    · rw [Bracket.extend, Bracket.extend, hx, hx']
      exact .closed (.of_sameList SameEnd.refl (.refl k _)) hb
  indent hx := by
    obtain ⟨v, hv, hblank⟩ := exists_append_blank x
    obtain ⟨v', hv', -⟩ := exists_append_blank x'
    have hne : trimEnd x ≠ [] := by
      intro hnil
      rw [hnil, List.nil_append] at hv
      rw [hv, isIgnorable, trimStart_eq_nil_iff.mpr hblank] at hx
      cases hx
    obtain ⟨c, t, ht⟩ := List.exists_cons_of_ne_nil hne
    left
    rw [hv', hv, h, ht]
    rfl

end Ends

theorem dropReturn_eq_or (t : List Char) : dropReturn t = t ∨ t = dropReturn t ++ ['\r'] := by
  induction t with
  | nil => exact .inl rfl
  | cons c r ih =>
    rw [dropReturn]
    split
    · next h =>
      rw [Bool.and_eq_true, List.isEmpty_iff, beq_iff_eq] at h
      exact .inr (by rw [h.1, h.2]; rfl)
    · exact ih.imp (congrArg (c :: ·)) (congrArg (c :: ·))

theorem trimEnd_dropReturn (t : List Char) : trimEnd (dropReturn t) = trimEnd t := by
  rcases dropReturn_eq_or t with h | h
  · rw [h]
  · conv => rhs; rw [h, trimEnd_append_blank (by simp)]

theorem trimStart_dropReturn (t : List Char) :
    trimStart (dropReturn t) = dropReturn (trimStart t) := by
  induction t with
  | nil => rfl
  | cons c r ih =>
    cases hc : isBlank c with
    | false =>
      have hr : (c == '\r') = false := by
        rw [beq_eq_false_iff_ne]
        rintro rfl
        rw [isBlank_return] at hc
        cases hc
      have hdrop : dropReturn (c :: r) = c :: dropReturn r := by simp [dropReturn, hr]
      rw [trimStart_cons_solid hc, hdrop, trimStart_cons_solid hc]
    | true =>
      rw [trimStart_cons_blank hc, ← ih, dropReturn]
      split
      · next h =>
        rw [Bool.and_eq_true, List.isEmpty_iff] at h
        rw [h.1]
        rfl
      · rw [trimStart_cons_blank hc]

/-- An empty line that ends the text says nothing outside a body. -/
theorem readLines_append_empty {ts : List (List Char)} (hb : ¬ InsideBody ts ts.length) :
    readLines (numberFrom 1 (ts ++ [[]])) = readLines (numberFrom 1 ts) := by
  have step : ∀ s : State, (∀ a st m c, s.mode ≠ .body a st m c) → ∀ n,
      (s.feed ⟨n, []⟩ >>= State.finish) = s.finish := by
    rintro ⟨plan, m⟩ hs n
    cases m with
    | body a st m c => exact absurd rfl (hs a st m c)
    | _ => rfl
  rw [readLines, readLines, numberFrom_append, State.feedAll_append, bind_assoc]
  cases hs : State.initial.feedAll (numberFrom 1 ts) with
  | error e => rfl
  | ok s =>
    have hbody : ∀ a st m c, s.mode ≠ .body a st m c :=
      fun a st m c hm => hb (insideBody_of_mode hs hm)
    change (State.feedAll s [_] >>= State.finish) = s.finish
    rw [State.feedAll_cons, bind_assoc]
    exact step s hbody _

/-- What stands between two line feeds is a line but for a return at its end. -/
theorem exists_line {front back : String} (hf : EndsLine front.toList)
    (hback : back = "" ∨ back.toList.head? = some '\n') :
    ∃ (line : List Char → List Char) (below : List (List Char)),
      (∀ t, trimStart (line t) = line (trimStart t) ∧ trimEnd (line t) = trimEnd t ∧
        ∀ c ∈ line t, c ∈ t) ∧
      ∀ text : String, '\n' ∉ text.toList →
        (InsideBody (lines front.toList) (lines front.toList).length →
          isFence text.toList = true) →
        read (front ++ text ++ back) =
          readLines (numberFrom 1 (lines front.toList ++ line text.toList :: below)) := by
  rcases hback with rfl | hback
  · refine ⟨id, [], fun t => ⟨rfl, rfl, fun _ => id⟩, fun text ht hb => ?_⟩
    rw [String.append_empty, read, linesOf, String.toList_append, lines_append hf]
    have hlines : lines text.toList = settleLines [text.toList] := by
      rw [lines, pieces_of_newline_not_mem ht]
    rw [hlines, settleLines]
    split
    · next hempty =>
      rw [List.isEmpty_iff] at hempty
      have hout : ¬ InsideBody (lines front.toList) (lines front.toList).length := by
        intro hin
        rw [hempty] at hb
        exact absurd (hb hin) (by decide)
      rw [hempty, List.append_nil]
      exact (readLines_append_empty hout).symm
    · rfl
  · obtain ⟨b, hb⟩ := List.head?_eq_some_iff.mp hback
    refine ⟨dropReturn, lines b, fun t => ⟨trimStart_dropReturn t, trimEnd_dropReturn t,
      fun _ => mem_of_mem_dropReturn⟩, fun text ht _ => ?_⟩
    rw [read, linesOf, String.toList_append, String.toList_append, hb, List.append_assoc,
      lines_append hf, lines_first ht]

/-- Blank characters at the ends of a line that is no line of a body. Before a line that is no
`shader` field they change nothing. Behind any line they change no plan; an error stays on its line
and has the same cause, and what it quotes differs at most in blank characters at its end. -/
theorem read_respaced {front text text' back : String} (hfront : EndsLine front.toList)
    (hback : back = "" ∨ back.toList.head? = some '\n') (ht : '\n' ∉ text.toList)
    (ht' : '\n' ∉ text'.toList)
    (hb : InsideBody (lines front.toList) (lines front.toList).length →
      isFence text.toList = true) :
    (trimStart text'.toList = trimStart text.toList → ¬ IsShaderLine text.toList →
      read (front ++ text' ++ back) = read (front ++ text ++ back)) ∧
    (trimEnd text'.toList = trimEnd text.toList →
      Related (Error.Requotes SameEnd) Eq (read (front ++ text ++ back))
        (read (front ++ text' ++ back))) := by
  obtain ⟨line, below, hline, hread⟩ := exists_line hfront hback
  have hfence : ∀ {x x' : List Char}, trim x' = trim x → isFence x' = isFence x :=
    fun h => startsWith_congr h fenceMark
  have htrim : ∀ t, trim (line t) = trim t := fun t => trim_eq_of_trimEnd_eq (hline t).2.1
  have hbody : InsideBody (lines front.toList) (lines front.toList).length →
      isFence (line text.toList) = true := by
    rw [hfence (htrim _)]
    exact hb
  constructor
  · intro h hs
    have hstart : trimStart (line text'.toList) = trimStart (line text.toList) := by
      rw [(hline _).1, (hline _).1, h]
    have hr := respaced_of_trimStart_eq hstart (mt (isShaderLine_congr (htrim _)).mp hs)
    rw [hread text ht hb, hread text' ht' (by rwa [hfence (trim_eq_of_trimStart_eq h)])]
    have hrel := readLines_respaced (fun _ => rfl) hr (lines front.toList) below hbody
    exact (hrel.eq fun _ _ => Error.Requotes.eq).symm
  · intro h
    have hend : trimEnd (line text'.toList) = trimEnd (line text.toList) := by
      rw [(hline _).2.1, (hline _).2.1, h]
    have hr := respaced_of_trimEnd_eq hend (fun hm => ht ((hline _).2.2 _ hm))
      fun hm => ht' ((hline _).2.2 _ hm)
    rw [hread text ht hb, hread text' ht' (by rwa [hfence (trim_eq_of_trimEnd_eq h)])]
    exact readLines_respaced SameEnd.refl hr (lines front.toList) below hbody

/-- The line that opens a list which is never closed: the error does not depend on its indentation,
and quotes the blank characters at its end. -/
theorem read_respaced_opening :
    read ("shader: s\n  uniforms:\n" ++ "    [u: mat4" ++ "\n") =
        .error ⟨2, .malformedList .uniform "[u: mat4"⟩ ∧
      read ("shader: s\n  uniforms:\n" ++ "[u: mat4" ++ "\n") =
        .error ⟨2, .malformedList .uniform "[u: mat4"⟩ ∧
      Related (Error.Requotes SameEnd) Eq
        (read ("shader: s\n  uniforms:\n" ++ "    [u: mat4" ++ "\n"))
        (read ("shader: s\n  uniforms:\n" ++ "    [u: mat4 \t" ++ "\n")) ∧
      read ("shader: s\n  uniforms:\n" ++ "    [u: mat4 \t" ++ "\n") =
        .error ⟨2, .malformedList .uniform "[u: mat4 \t"⟩ := by
  have hsource : read ("shader: s\n  uniforms:\n" ++ "    [u: mat4" ++ "\n") =
      .error ⟨2, .malformedList .uniform "[u: mat4"⟩ := by rfl
  have hb : InsideBody (lines "shader: s\n  uniforms:\n".toList)
      (lines "shader: s\n  uniforms:\n".toList).length →
        isFence "    [u: mat4".toList = true := by
    rw [insideBody_iff]
    rintro ⟨plan, s, st, n, c, h⟩
    cases h
  refine ⟨hsource, ?_, ?_, by rfl⟩
  · rw [← hsource]
    exact (read_respaced (by decide) (.inr (by decide)) (by decide) (by decide) hb).1 (by decide)
      (by decide)
  · exact (read_respaced (by decide) (.inr (by decide)) (by decide) (by decide) hb).2 (by decide)

end RenderPlan.Description
