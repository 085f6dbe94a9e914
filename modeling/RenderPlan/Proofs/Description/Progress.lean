import RenderPlan.Proofs.Description.LoopOutcome
import Mathlib.Data.List.TakeWhile
/-!
Progress of the loops. A turn that takes a field moves the cursor at least past its line, and one
that leaves a loop moves it at most past lines that say nothing; a loop around is nearer to the
root. So the turns come to an end, at the end of the text or with an error, and they take no more
fields than the text has lines.
-/
namespace RenderPlan.Description

open RenderPlan.Text

namespace Cursor

theorem skip_suffix (c : Cursor) : c.skip.remaining <:+ c.remaining := List.dropWhile_suffix _

theorem below_suffix (c : Cursor) : c.below.2.remaining <:+ c.remaining := by
  unfold below
  split
  · next l hl =>
    split
    · exact next_suffix_self hl
    · exact c.skip_suffix
  · exact c.skip_suffix

theorem opening_suffix (c : Cursor) (value : List Char) :
    (c.opening value).2.remaining <:+ c.remaining := by
  have hbelow := c.below_suffix
  unfold opening
  split
  · split <;> next h => rwa [h] at hbelow
  · exact List.suffix_refl _

end Cursor

namespace LoopState

/-- All lines in front of the second cursor are in front of the first. -/
def Onward (s t : LoopState) : Prop := t.cursor.remaining <:+ s.cursor.remaining

variable {s t : LoopState}

theorem onward_of_filled {field : ListField} {n : Nat} {inner rest : List Char}
    (h : s.filled field n inner rest = .ok t) : s.Onward t := by
  unfold filled at h
  split at h
  · split at h
    · cases h
      exact List.suffix_refl _
    · cases h
  · cases h

theorem onward_of_bracketed {field : ListField} {n : Nat} {opening : List Char}
    (h : s.bracketed field n opening = .ok t) : s.Onward t := by
  have hsuffix := s.cursor.collect_suffix opening
  unfold bracketed at h
  split at h
  · cases h
  · next hcollect =>
    rw [hcollect] at hsuffix
    exact (onward_of_filled h).trans hsuffix

theorem onward_of_takeList {field : ListField} {f : Field} (h : s.takeList field f = .ok t) :
    s.Onward t :=
  (onward_of_bracketed h).trans (s.cursor.opening_suffix f.value)

theorem suffix_of_outputsText {f : Field} {value : List Char} {c : Cursor}
    (h : s.outputsText f = .ok (value, c)) : c.remaining <:+ s.cursor.remaining := by
  unfold outputsText at h
  split at h
  · split at h
    · next l hl =>
      split at h
      · cases h
      · cases h
        exact Cursor.next_suffix_self hl
    · cases h
  · cases h
    exact List.suffix_refl _

theorem onward_of_outputsIn {p : Pass} {f : Field} {value : List Char}
    (h : s.outputsIn p f value = .ok t) : s.Onward t := by
  have hbelow := s.cursor.below_suffix
  simp only [outputsIn] at h
  split at h
  · split at h
    · exact onward_of_bracketed h
    · split at h
      · next hlist =>
        rw [hlist] at hbelow
        exact (onward_of_bracketed h).trans hbelow
      · next hnone =>
        rw [hnone] at hbelow
        cases h
        exact hbelow
  · cases h

theorem onward_of_takeOutputs {p : Pass} {f : Field} (h : s.takeOutputs p f = .ok t) :
    s.Onward t := by
  obtain ⟨⟨value, c⟩, htext, hin⟩ := exists_of_bind_eq_ok h
  exact (onward_of_outputsIn hin).trans (suffix_of_outputsText htext)

theorem onward_of_fenced {sh : Shader} {st : OpenStage} {n : Nat} {fence : List Char}
    (h : s.fenced sh st n fence = .ok t) : s.Onward t := by
  have hsuffix := Cursor.captureFrom_suffix s.cursor.remaining
  unfold fenced at h
  split at h
  · split at h
    · next hcapture =>
      rw [show Cursor.captureFrom _ = _ from hcapture] at hsuffix
      cases h
      exact hsuffix
    · cases h
  · cases h

theorem onward_of_takeSource {sh : Shader} {st : OpenStage} {f : Field}
    (h : s.takeSource sh st f = .ok t) : s.Onward t := by
  unfold takeSource at h
  split at h
  · exact onward_of_fenced h
  · split at h
    · split at h
      · next l hl =>
        split at h
        · exact (onward_of_fenced h).trans (Cursor.next_suffix_self hl)
        · cases h
      · cases h
    · cases h

theorem onward_of_sets {block : Except Error Block} (h : s.sets block = .ok t) : s.Onward t := by
  obtain ⟨b, -, rfl⟩ := exists_of_map_eq_ok h
  exact List.suffix_refl _

theorem onward_of_enters {block : Block} {f : Field} (h : s.enters block f = .ok t) :
    s.Onward t := by
  unfold enters at h
  split at h
  · cases h
  · cases h
    exact List.suffix_refl _

theorem onward_of_entersStage {sh : Shader} {stage : Stage} {f : Field}
    (h : s.entersStage sh stage f = .ok t) : s.Onward t := by
  unfold entersStage at h
  split at h
  · cases h
    exact List.suffix_refl _
  · cases h

/-- No arm of a loop moves the cursor back. -/
theorem onward_of_arm? {f : Field} {k : Keyword} (h : s.arm? f k = some (.ok t)) : s.Onward t := by
  -- Every arm is one of the readers above, or sets a value where it stands.
  unfold arm? at h
  rcases hb : s.block with _ | b | p | x | ⟨sh, _ | st⟩
  all_goals
    simp only [hb, rootArm?, bufferArm?, passArm?, textureArm?, shaderArm?, stageArm?] at h
    split at h
    all_goals first
      | exact onward_of_enters (Option.some.inj h)
      | exact onward_of_entersStage (Option.some.inj h)
      | exact onward_of_takeList (Option.some.inj h)
      | exact onward_of_takeOutputs (Option.some.inj h)
      | exact onward_of_takeSource (Option.some.inj h)
      | exact onward_of_sets (Option.some.inj h)
      | cases h; exact List.suffix_refl _
      | cases h

end LoopState

section

variable {s : LoopState}

/-- What a loop is left in front of: nothing that says anything, an opener or, where the loop is
that of a stage, a field of the shader. -/
def LeftBefore (loop : Loop) (c : Cursor) : Prop :=
  c.remaining = [] ∨ ∃ l f k ls, c.remaining = l :: ls ∧ l.field? = some f ∧
    Keyword.ofText? (String.ofList f.keyword) = some k ∧
      (k.opensBlock = true ∨ loop = .stage ∧ k ∈ Loop.shader.owned)

/-- Where the loops go on behind a turn, unless it ends them. -/
def Turn.next? : Turn → Option LoopState
  | takes _ _ t => some t
  | leaves t => some t
  | ends _ => none

/-- All that a turn can do: take a field, leave the loop in front of a line, or end at the root. -/
inductive TurnStep (s : LoopState) : Turn → Prop
  | takes {l : Line} {f : Field} {k : Keyword} {t : LoopState} (hl : s.cursor.peek? = some l)
      (hf : l.field? = some f) (hk : k ∈ s.block.loop.owned)
      (ht : t.cursor.remaining <:+ s.cursor.next.remaining) : TurnStep s (.takes f k t)
  | leaves {plan : Plan} {block : Block} (hroot : s.block ≠ .root)
      (hfront : LeftBefore s.block.loop s.cursor.skip)
      (hleave : leaveBlock s.plan s.block = .ok (plan, block)) :
      TurnStep s (.leaves ⟨plan, block, s.cursor.skip⟩)
  | ends (hroot : s.block = .root) (hend : s.cursor.peek? = none) : TurnStep s (.ends s.plan)

theorem leftBefore_of_leaves {loop : Loop} {c : Cursor} {l : Line} {f : Field} {k : Keyword}
    (hl : c.peek? = some l) (hf : l.field? = some f)
    (hk : Keyword.ofText? (String.ofList f.keyword) = some k) (h : loop.verdict f k = .leaves) :
    LeftBefore loop c.skip := by
  refine .inr ⟨l, f, k, c.next.remaining, Cursor.skip_eq_cons hl, hf, hk, ?_⟩
  refine (Loop.of_verdict_leaves h).2.imp And.left fun ⟨_, henclosing⟩ => ?_
  cases loop with
  | stage => exact ⟨rfl, henclosing⟩
  | _ => cases henclosing

theorem turnStep_of_leave (hfront : s.block ≠ .root → LeftBefore s.block.loop s.cursor.skip)
    (hend : s.block = .root → s.cursor.peek? = none) {r : Turn} (h : s.leave = .ok r) :
    TurnStep s r := by
  unfold LoopState.leave at h
  split at h
  · next hroot =>
    cases h
    exact .ends hroot (hend hroot)
  · next hroot =>
    obtain ⟨⟨plan, block⟩, hleave, rfl⟩ := exists_of_map_eq_ok h
    exact .leaves hroot (hfront hroot) hleave

theorem turnStep_of_turn {r : Turn} (h : s.turn = .ok r) : TurnStep s r := by
  have hok {x : Except Error Turn} (hx : x.mapError Stop.error = .ok r) : x = .ok r := by
    cases x <;> cases hx
    rfl
  unfold LoopState.turn at h
  split at h
  · next hnone =>
    refine turnStep_of_leave (fun _ => .inl ?_) (fun _ => hnone) (hok h)
    exact List.head?_eq_none_iff.mp hnone
  · next l hl =>
    split at h
    · cases h
    · next f hf =>
      split at h
      · cases h
      · next k hk =>
        split at h
        · next hverdict =>
          have hroot := (Loop.of_verdict_leaves hverdict).1
          exact turnStep_of_leave (fun _ => leftBefore_of_leaves hl hf hk hverdict)
            (fun hs => absurd (by rw [hs]; rfl) hroot) (hok h)
        · cases h
        · next hverdict =>
          split at h
          · next next harm =>
            obtain ⟨t, rfl, rfl⟩ := exists_of_map_eq_ok (hok h)
            exact .takes hl hf (Loop.of_verdict_takes hverdict).1 (LoopState.onward_of_arm? harm)
          · cases h

end

/-- The cursor stands before line `i` of a text, counted from 0, or behind its last line. -/
structure Cursor.At (c : Cursor) (ls : List Line) (i : Nat) : Prop where
  le_length : i ≤ ls.length
  remaining : c.remaining = ls.drop i

theorem Cursor.At.of_suffix {c d : Cursor} {ls : List Line} {i : Nat} (h : c.At ls i)
    (hd : d.remaining <:+ c.remaining) :
    d.At ls (i + (c.remaining.length - d.remaining.length)) := by
  have hlength := congrArg List.length h.remaining
  rw [List.length_drop] at hlength
  have hle := h.le_length
  constructor
  · omega
  · rw [← List.drop_drop, ← h.remaining]
    exact List.suffix_iff_eq_drop.mp hd

/-- A turn of the loops, with the state that it was made in. -/
structure Visit where
  state : LoopState
  turn : Turn
  deriving DecidableEq

def Visit.takesField (v : Visit) : Bool :=
  match v.turn with
  | .takes .. => true
  | _ => false

/-- What a turn does to the cursor in a text. A field that is taken belongs to the loop and moves
the cursor on; a loop is left without passing over anything that says something; and the root is
left where nothing more does. -/
inductive Visit.Advances (ls : List Line) : Visit → Prop
  | takes {s t : LoopState} {f : Field} {k : Keyword} {i j : Nat} (hi : s.cursor.At ls i)
      (hj : t.cursor.At ls j) (hlt : i < j) (hk : k ∈ s.block.loop.owned) :
      Advances ls ⟨s, .takes f k t⟩
  | leaves {s t : LoopState} {i j : Nat} (hi : s.cursor.At ls i) (hj : t.cursor.At ls j)
      (hle : i ≤ j) (hroot : s.block ≠ .root) (hfront : LeftBefore s.block.loop t.cursor) :
      Advances ls ⟨s, .leaves t⟩
  | ends {s : LoopState} {plan : Plan} {i : Nat} (hi : s.cursor.At ls i) (hroot : s.block = .root)
      (hend : ∀ l ∈ s.cursor.remaining, isIgnorable l.text = true) :
      Advances ls ⟨s, .ends plan⟩

theorem TurnStep.length_lt {s t : LoopState} {f : Field} {k : Keyword}
    (h : TurnStep s (.takes f k t)) :
    t.cursor.remaining.length < s.cursor.remaining.length := by
  cases h with
  | takes hl hf hk ht =>
    have hline := (Cursor.next_suffix hl).length_le
    have hbehind := ht.length_le
    rw [List.length_cons] at hline
    omega

theorem TurnStep.onward {s t : LoopState} {r : Turn} (h : TurnStep s r)
    (ht : r.next? = some t) : s.Onward t := by
  cases h with
  | takes hl hf hk hbehind =>
    cases ht
    exact hbehind.trans (Cursor.next_suffix_self hl)
  | leaves =>
    cases ht
    exact s.cursor.skip_suffix
  | ends => cases ht

theorem TurnStep.advances {s : LoopState} {r : Turn} (h : TurnStep s r)
    {ls : List Line} {i : Nat} (hi : s.cursor.At ls i) : Visit.Advances ls ⟨s, r⟩ := by
  have hstep := h
  cases h with
  | takes hl hf hk ht =>
    have hlt := hstep.length_lt
    exact .takes hi (hi.of_suffix (hstep.onward rfl)) (by omega) hk
  | leaves hroot hfront hleave =>
    exact .leaves hi (hi.of_suffix s.cursor.skip_suffix) (Nat.le_add_right _ _) hroot hfront
  | ends hroot hend =>
    exact .ends hi hroot (List.dropWhile_eq_nil_iff.mp (List.head?_eq_none_iff.mp hend))

/-- The turns that are made from a state, and what they come to. -/
inductive Turns : LoopState → List Visit → Except Stop Plan → Prop
  | stops {s : LoopState} {e : Stop} (h : s.turn = .error e) : Turns s [] (.error e)
  | ends {s : LoopState} {plan : Plan} (h : s.turn = .ok (.ends plan)) :
      Turns s [⟨s, .ends plan⟩] (.ok plan)
  | goesOn {s t : LoopState} {turn : Turn} {vs : List Visit} {r : Except Stop Plan}
      (h : s.turn = .ok turn) (ht : turn.next? = some t) (hs : Turns t vs r) :
      Turns s (⟨s, turn⟩ :: vs) r

theorem Turns.unique {s : LoopState} {vs vs' : List Visit} {r r' : Except Stop Plan}
    (h : Turns s vs r) (h' : Turns s vs' r') : vs' = vs ∧ r' = r := by
  induction h generalizing vs' r' with
  | stops h =>
    cases h' with
    | stops h' =>
      cases h.symm.trans h'
      exact ⟨rfl, rfl⟩
    | ends h' => cases h.symm.trans h'
    | goesOn h' => cases h.symm.trans h'
  | ends h =>
    cases h' with
    | stops h' => cases h.symm.trans h'
    | ends h' =>
      cases h.symm.trans h'
      exact ⟨rfl, rfl⟩
    | goesOn h' ht' =>
      cases h.symm.trans h'
      cases ht'
  | goesOn h ht _ ih =>
    cases h' with
    | stops h' => cases h.symm.trans h'
    | ends h' =>
      cases h.symm.trans h'
      cases ht
    | goesOn h' ht' hs' =>
      cases h.symm.trans h'
      cases ht.symm.trans ht'
      obtain ⟨rfl, rfl⟩ := ih hs'
      exact ⟨rfl, rfl⟩

/-- The number of loops around the one that is running. -/
def Loop.depth : Loop → Nat
  | .root => 0
  | .stage => 2
  | _ => 1

/-- How far a state is from the end: a field may enter a stage, and then two loops are left before
the next field is taken. -/
def LoopState.rank (s : LoopState) : Nat :=
  3 * s.cursor.remaining.length + s.block.loop.depth

theorem depth_lt_of_leaveBlock {plan : Plan} {block : Block} {r : Plan × Block}
    (hroot : block ≠ .root) (h : leaveBlock plan block = .ok r) :
    r.2.loop.depth < block.loop.depth := by
  rcases eq_of_leaveBlock h with ⟨sh, st, rfl, rfl⟩ | ⟨-, hr⟩
  · simp [Block.loop, Loop.depth]
  · rw [hr]
    rcases block with _ | b | p | t | ⟨sh, _ | st⟩
    · exact absurd rfl hroot
    all_goals simp [Block.loop, Loop.depth]

/-- Every turn brings the loops nearer to the end. -/
theorem TurnStep.rank_lt {s t : LoopState} {r : Turn} (h : TurnStep s r) (ht : r.next? = some t) :
    t.rank < s.rank := by
  have hstep := h
  unfold LoopState.rank
  cases h with
  | takes hl hf hk hbehind =>
    cases ht
    have hlt := hstep.length_lt
    have hdepth : t.block.loop.depth ≤ 2 := by
      cases t.block.loop <;> decide
    omega
  | leaves hroot hfront hleave =>
    cases ht
    have hle := s.cursor.skip_suffix.length_le
    have hdepth := depth_lt_of_leaveBlock hroot hleave
    dsimp only at hdepth ⊢
    omega
  | ends => cases ht

/-- The loops come to an end, with what a reading line by line comes to. The induction is on the
rank of the state. -/
theorem exists_turns (s : LoopState) : ∃ vs, Turns s vs (s.outcome.mapError .error) := by
  obtain ⟨r, hturn, houtcome⟩ := s.exists_turn
  cases r with
  | error e =>
    rw [houtcome]
    exact ⟨[], .stops hturn⟩
  | ok turn =>
    cases hnext : turn.next? with
    | none =>
      cases turn with
      | ends plan =>
        rw [houtcome]
        exact ⟨_, .ends hturn⟩
      | takes f k t => cases hnext
      | leaves t => cases hnext
    | some t =>
      have hsame : s.outcome = t.outcome := by
        rw [houtcome]
        cases turn <;> cases hnext <;> rfl
      have hlt := (turnStep_of_turn hturn).rank_lt hnext
      obtain ⟨vs, hvs⟩ := exists_turns t
      rw [hsame]
      exact ⟨⟨s, turn⟩ :: vs, .goesOn hturn hnext hvs⟩
termination_by s.rank

namespace Turns

variable {s : LoopState} {vs : List Visit} {r : Except Stop Plan}

theorem advances (h : Turns s vs r) {ls : List Line} {i : Nat} (hi : s.cursor.At ls i) :
    ∀ v ∈ vs, v.Advances ls := by
  induction h generalizing i with
  | stops => simp
  | ends h => simpa using (turnStep_of_turn h).advances hi
  | @goesOn s t turn vs r h ht _ ih =>
    have hstep := turnStep_of_turn h
    exact List.forall_mem_cons.mpr ⟨hstep.advances hi, ih (hi.of_suffix (hstep.onward ht))⟩

/-- Each field that is taken has a line of its own. -/
theorem countP_takesField_le (h : Turns s vs r) :
    vs.countP Visit.takesField ≤ s.cursor.remaining.length := by
  induction h with
  | stops => simp
  | ends => simp [Visit.takesField]
  | @goesOn s t turn vs r h ht _ ih =>
    have hstep := turnStep_of_turn h
    rw [List.countP_cons]
    cases turn with
    | takes f k t' =>
      cases ht
      have hlt := hstep.length_lt
      simp only [Visit.takesField, if_true]
      omega
    | leaves t' =>
      have hle := (hstep.onward ht).length_le
      simpa [Visit.takesField] using Nat.le_trans ih hle
    | ends plan => cases ht

/-- A run that ends well ends at the root. -/
theorem exists_ends {plan : Plan} (h : Turns s vs (.ok plan)) :
    ∃ t, vs.getLast? = some ⟨t, .ends plan⟩ := by
  generalize hr : Except.ok plan = r at h
  induction h with
  | stops => cases hr
  | ends =>
    cases hr
    exact ⟨_, rfl⟩
  | goesOn _ _ _ ih =>
    obtain ⟨t, ht⟩ := ih hr
    exact ⟨t, by rw [List.getLast?_cons, ht]; rfl⟩

end Turns

/-- Progress of a reading. The loops that read a text come to an end with what the text is read
as, so no field ever meets a loop without an arm for it, and there is only one run of them. In this
run each field that is taken moves the cursor on, within the lines of the text, and no more fields
are taken than there are lines. A loop is left only at the end or in front of a line that opens a
block or belongs to a loop around, which is not passed over. A plan is read only where nothing
behind it says anything. -/
theorem read_turns (source : String) :
    ∃ vs, Turns ⟨{}, .root, .ofText source.toList⟩ vs ((read source).mapError .error) ∧
      (∀ vs' r, Turns ⟨{}, .root, .ofText source.toList⟩ vs' r →
        vs' = vs ∧ r = (read source).mapError .error) ∧
      (∀ v ∈ vs, v.Advances (linesOf source.toList)) ∧
      vs.countP Visit.takesField ≤ (linesOf source.toList).length ∧
      ∀ plan, read source = .ok plan → ∃ t, vs.getLast? = some ⟨t, .ends plan⟩ ∧
        ∀ l ∈ t.cursor.remaining, isIgnorable l.text = true := by
  obtain ⟨vs, hvs⟩ := exists_turns ⟨{}, .root, .ofText source.toList⟩
  have hread : LoopState.outcome ⟨{}, .root, .ofText source.toList⟩ = read source := rfl
  rw [hread] at hvs
  have hstart : (Cursor.ofText source.toList).At (linesOf source.toList) 0 := ⟨by simp, rfl⟩
  have hadvances := hvs.advances hstart
  refine ⟨vs, hvs, fun vs' r h => hvs.unique h, hadvances, hvs.countP_takesField_le, ?_⟩
  intro plan hplan
  rw [hplan] at hvs
  obtain ⟨t, ht⟩ := hvs.exists_ends
  refine ⟨t, ht, ?_⟩
  cases hadvances _ (List.mem_of_getLast? ht) with
  | ends hi hroot hend => exact hend

end RenderPlan.Description
