import RenderPlan.Proofs.Description.ListWriting
import RenderPlan.Proofs.Description.Step
/-!
Descriptions of given plans. Every well-formed plan is written field by field, each on one line, and
reading the text leads through the states in which exactly the fields so far are known. Lines end
with a carriage return and a line feed, so that a carriage return at the end of a line of a body is
part of that line.
-/
namespace RenderPlan.Description

open RenderPlan.Text

/-- Wherever `P` holds of a state, the lines lead to a state of which `Q` holds. -/
structure Leads (P : State → Prop) (ls : List (List Char)) (Q : State → Prop) : Prop where
  lines : ∀ l ∈ ls, '\n' ∉ l
  run : ∀ s, P s → ∀ n, ∃ t, s.feedAll (numberFrom n ls) = .ok t ∧ Q t

variable {P Q R : State → Prop}

theorem Leads.nil (h : ∀ s, P s → Q s) : Leads P [] Q where
  lines := by simp
  run s hs _ := ⟨s, rfl, h s hs⟩

theorem Leads.append {a b : List (List Char)} (h : Leads P a Q) (h' : Leads Q b R) :
    Leads P (a ++ b) R where
  lines := List.forall_mem_append.mpr ⟨h.lines, h'.lines⟩
  run s hs n := by
    obtain ⟨t, ht, hq⟩ := h.run s hs n
    obtain ⟨u, hu, hr⟩ := h'.run t hq (n + a.length)
    refine ⟨u, ?_, hr⟩
    rw [numberFrom_append, State.feedAll_append, ht]
    exact hu

theorem Leads.weaken {ls : List (List Char)} (h : Leads P ls Q) (hq : ∀ s, Q s → R s) :
    Leads P ls R := by
  simpa using h.append (Leads.nil hq)

/-- One line. -/
theorem Leads.single {l : List Char} (hl : '\n' ∉ l)
    (h : ∀ s, P s → ∀ n, ∃ t, s.feed ⟨n, l⟩ = .ok t ∧ Q t) : Leads P [l] Q where
  lines := by simpa using hl
  run s hs n := by
    obtain ⟨t, ht, hq⟩ := h s hs n
    refine ⟨t, ?_, hq⟩
    rw [numberFrom_cons, State.feedAll_cons, ht]
    rfl

/-- Parts that each add one item lead over all of them. -/
theorem Leads.flatMap {α : Type} {f : α → List (List Char)} {P : List α → State → Prop}
    {as : List α} (h : ∀ a ∈ as, ∀ before, Leads (P before) (f a) (P (before ++ [a]))) :
    ∀ before, Leads (P before) (as.flatMap f) (P (before ++ as)) := by
  induction as with
  | nil => exact fun before => .nil fun s hs => by simpa using hs
  | cons a as ih =>
    intro before
    have hrest := ih (fun b hb => h b (by simp [hb])) (before ++ [a])
    rw [List.append_assoc, List.singleton_append] at hrest
    exact (h a (by simp) before).append hrest

/-- What can stand as the value of a field. -/
def IsValue (v : List Char) : Prop := trim v = v ∧ '\n' ∉ v

/-- The line of a field. -/
def lineText (indented : Bool) (k : Keyword) (value : List Char) : List Char :=
  (if indented then [' ', ' ', ' ', ' '] else []) ++ k.spelling.toList ++ ':' :: ' ' :: value

/-- A spelling is trimmed and contains no colon. -/
theorem Keyword.of_spelling (k : Keyword) :
    trim k.spelling.toList = k.spelling.toList ∧ ':' ∉ k.spelling.toList ∧
      '\n' ∉ k.spelling.toList ∧
      ∃ c r, k.spelling.toList = c :: r ∧ isBlank c = false ∧ c ≠ '-' := by
  cases k <;> exact ⟨by decide, by decide, by decide, _, _, rfl, by decide, by decide⟩

theorem read?_lineText (i : Bool) (k : Keyword) {v : List Char} (hv : trim v = v) (n : Nat) :
    Field.read? n (lineText i k v) = some ⟨n, k.spelling.toList, v, !i⟩ := by
  obtain ⟨htrim, hcolon, -, c, r, hk, hc, -⟩ := k.of_spelling
  have hvalue : trim (' ' :: v) = v := by rw [trim_cons_blank isBlank_space, hv]
  cases i with
  | false =>
    have hcut : cutAt ':' (lineText false k v) = some (k.spelling.toList, ' ' :: v) :=
      cutAt_eq_some_iff.mpr ⟨rfl, hcolon⟩
    have hindent : isIndented (lineText false k v) = false := by
      simp [lineText, isIndented, hk, hc]
    simp [Field.read?, hcut, htrim, hvalue, hindent]
  | true =>
    have hcut : cutAt ':' (lineText true k v)
        = some (' ' :: ' ' :: ' ' :: ' ' :: k.spelling.toList, ' ' :: v) :=
      cutAt_eq_some_iff.mpr ⟨rfl, by simpa using hcolon⟩
    have hindent : isIndented (lineText true k v) = true := by simp [lineText, isIndented]
    simp [Field.read?, hcut, trim_cons_blank, htrim, hvalue, hindent]

theorem isIgnorable_lineText (i : Bool) (k : Keyword) (v : List Char) :
    isIgnorable (lineText i k v) = false := by
  obtain ⟨-, -, -, c, r, hk, hc, hdash⟩ := k.of_spelling
  cases i <;>
    simp [isIgnorable, isComment, startsWith, lineText, hk, trimStart_cons_blank,
      trimStart_cons_solid hc, hdash]

/-- A written field is read as the field that it was written for. -/
theorem feed_lineText (plan : Plan) (block : Block) (i : Bool) (k : Keyword) {v : List Char}
    (hv : trim v = v) (n : Nat) :
    (State.inBlock plan block).feed ⟨n, lineText i k v⟩
      = blockField plan block ⟨n, k.spelling.toList, v, !i⟩ k := by
  have hk : Keyword.ofText? k.spelling = some k := Keyword.ofText?_eq_some_iff.mpr rfl
  have hf : Line.field? ⟨n, lineText i k v⟩ = some ⟨n, k.spelling.toList, v, !i⟩ :=
    read?_lineText i k hv n
  simp [State.inBlock, State.feed, Mode.skips, isIgnorable_lineText, consume, fieldLine, hf, hk]

theorem newline_not_mem_lineText (i : Bool) (k : Keyword) {v : List Char} (hv : '\n' ∉ v) :
    '\n' ∉ lineText i k v := by
  obtain ⟨-, -, hk, -⟩ := k.of_spelling
  cases i <;> simp [lineText, hk, hv]

theorem Leads.field {i : Bool} {k : Keyword} {v : List Char} (hv : IsValue v)
    (h : ∀ s, P s → ∃ plan block, s = .inBlock plan block ∧
      ∀ n, ∃ t, blockField plan block ⟨n, k.spelling.toList, v, !i⟩ k = .ok t ∧ Q t) :
    Leads P [lineText i k v] Q := by
  refine .single (newline_not_mem_lineText i k hv.2) fun s hs n => ?_
  obtain ⟨plan, block, rfl, hrun⟩ := h s hs
  rw [feed_lineText plan block i k hv.1]
  exact hrun n

/-- Where exactly the fields of a block so far are known. -/
def At (plan : Plan) (block : Block) (s : State) : Prop := s = .inBlock plan block

/-- A field that sets a value of the open block. -/
theorem Leads.setting {plan plan' : Plan} {block block' : Block} {i : Bool} {k : Keyword}
    {v : List Char} (hv : IsValue v)
    (h : ∀ n, blockField plan block ⟨n, k.spelling.toList, v, !i⟩ k = .ok (.inBlock plan' block')) :
    Leads (At plan block) [lineText i k v] (At plan' block') :=
  .field hv fun _ hs => ⟨plan, block, hs, fun n => ⟨_, h n, rfl⟩⟩

def flagText (b : Bool) : List Char := if b then ['y', 'e', 's'] else ['n', 'o']

/-- A yes or no. -/
theorem Leads.flag {plan : Plan} {block : Block} {k : Keyword} (g : Bool → Block)
    (h : ∀ f, blockField plan block f k = f.flag.map fun v => .inBlock plan (g v)) (v : Bool) :
    Leads (At plan block) [lineText true k (flagText v)] (At plan (g v)) := by
  refine .setting (by cases v <;> exact ⟨by decide, by decide⟩) fun n => ?_
  rw [h]
  cases v <;> rfl

/-- A value that is written as one of the texts it is read from. -/
theorem Leads.literal {β : Type} {plan : Plan} {block : Block} {k : Keyword}
    (value? : List Char → Option β) (g : β → Block)
    (h : ∀ f, blockField plan block f k
      = (f.literal (value? f.value)).map fun v => .inBlock plan (g v))
    {text : List Char} (ht : IsValue text) {v : β} (hv : value? text = some v) :
    Leads (At plan block) [lineText true k text] (At plan (g v)) := by
  refine .setting ht fun n => ?_
  rw [h]
  simp only [hv, Field.literal]
  rfl

theorem isValue_of_all_solid {v : List Char} (h : ∀ c ∈ v, isBlank c = false) : IsValue v :=
  ⟨trim_of_all_solid h, fun hn => absurd (h _ hn) (by decide)⟩

/-- A list as the value of a field. -/
def listText (sep : Char) (entries : List (List Char)) : List Char :=
  '[' :: entriesText sep entries ++ [']']

theorem isBlank_of_mem_listText {sep : Char} (hsep : isBlank sep = false)
    {entries : List (List Char)} (h : ∀ e ∈ entries, IsEntry sep e) :
    ∀ c ∈ listText sep entries, isBlank c = false := by
  intro c hc
  simp only [listText, entriesText, List.cons_append, List.mem_cons, List.mem_append,
    List.mem_flatMap, List.not_mem_nil, or_false] at hc
  rcases hc with rfl | ⟨e, he, hc | rfl⟩ | rfl
  · decide
  · exact ((h e he).2 c hc).1
  · exact hsep
  · decide

/-- A written list is read on its line. -/
theorem openList_listText {plan : Plan} {field : ListField} {block : Block} {sep : Char}
    (hsep : sep ≠ ']') {entries : List (List Char)} (h : ∀ e ∈ entries, IsEntry sep e)
    (hfill : field.fill (entriesText sep entries) = .ok block) (n : Nat) :
    openList plan field n (listText sep entries) = .ok (.inBlock plan block) := by
  have hstart : Bracket.start (entriesText sep entries ++ [']'])
      = .closed (entriesText sep entries) [] := by
    have hcut : cutAt ']' (entriesText sep entries ++ [']']) = some (entriesText sep entries, []) :=
      cutAt_eq_some_iff.mpr ⟨rfl, closing_not_mem_entriesText hsep h⟩
    rw [Bracket.start, hcut]
  change continueList plan field n _ (.start (entriesText sep entries ++ [']'])) = _
  rw [hstart, continueList, trim_nil, if_pos rfl, hfill]

/-- A list whose entries fill the open block. -/
theorem Leads.list {plan : Plan} {block block' : Block} {k : Keyword} {field : ListField}
    {sep : Char} (hsep : sep ≠ ']' ∧ isBlank sep = false) {entries : List (List Char)}
    (he : ∀ e ∈ entries, IsEntry sep e) (hfill : field.fill (entriesText sep entries) = .ok block')
    (h : ∀ f, blockField plan block f k = listField plan field f) :
    Leads (At plan block) [lineText true k (listText sep entries)] (At plan block') := by
  refine .setting (isValue_of_all_solid (isBlank_of_mem_listText hsep.2 he)) fun n => ?_
  rw [h]
  exact openList_listText hsep.1 he hfill n

/-- Where a plan is known once the open block is ended. -/
def Holds (p : Plan) (s : State) : Prop :=
  ∃ plan block, s = .inBlock plan block ∧ closeBlock plan block = .ok p

/-- The opener of a block ends the one before it. -/
theorem Leads.opener {p : Plan} {block : Block} {k : Keyword} {name : String} (hn : IsTitle name)
    (hk : newBlock? name k = some block) :
    Leads (Holds p) [lineText false k name.toList] (At p block) := by
  refine .field hn.2 ?_
  rintro s ⟨plan, before, rfl, hclose⟩
  refine ⟨plan, before, rfl, fun n => ⟨_, ?_, rfl⟩⟩
  have hopens : k.opensBlock = true := by
    cases k <;> first | rfl | cases hk
  have hname : name.toList ≠ [] := by simpa using hn.1
  simp [blockField, Field.text, hk, opensBlockIn, hopens, hclose, hname]
  rfl

end RenderPlan.Description
