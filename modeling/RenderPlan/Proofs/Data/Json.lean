import RenderPlan.Data.Json
import RenderPlan.Proofs.Text.Trim
/-!
Trees are determined by their text. A character inside quotes is read back from its escape, and the
closing quote is no escape; the first character of a value says what kind of value it is, and the
character behind an item whether another one follows. So no value can be taken for the beginning of
another one, and trees of the same text are the same, if every number in them is a numeral.
-/
namespace RenderPlan.Json

/-- The value of a digit in base sixteen. -/
def hexValue (c : Char) : Nat := if c.toNat < 58 then c.toNat - 48 else c.toNat - 87

/-- The character that an escape at the start of a text stands for, and the rest. -/
def unescape? : List Char → Option (Char × List Char)
  | '\\' :: 'b' :: r => some ('\x08', r)
  | '\\' :: 'f' :: r => some ('\x0c', r)
  | '\\' :: 'n' :: r => some ('\n', r)
  | '\\' :: 'r' :: r => some ('\r', r)
  | '\\' :: 't' :: r => some ('\t', r)
  | '\\' :: 'u' :: '0' :: '0' :: a :: b :: r =>
    some (Char.ofNat (16 * hexValue a + hexValue b), r)
  | '\\' :: c :: r => some (c, r)
  | c :: r => some (c, r)
  | [] => none

theorem ofNat_hexDigits : ∀ n < 32,
    Char.ofNat (16 * hexValue (hexDigit (n / 16)) + hexValue (hexDigit (n % 16))) =
      Char.ofNat n := by
  decide

/-- An escaped character is read back. -/
theorem unescape?_escape (c : Char) (r : List Char) : unescape? (escape c ++ r) = some (c, r) := by
  by_cases hnamed : c ∈ ['\x22', '\\', '\x08', '\x0c', '\n', '\r', '\t']
  · simp only [List.mem_cons, List.not_mem_nil, or_false] at hnamed
    rcases hnamed with rfl | rfl | rfl | rfl | rfl | rfl | rfl <;> rfl
  · simp only [List.mem_cons, List.not_mem_nil, or_false, not_or] at hnamed
    obtain ⟨hquote, hslash, hback, hfeed, hline, hreturn, htab⟩ := hnamed
    simp only [escape, hquote, hslash, hback, hfeed, hline, hreturn, htab, if_false]
    split
    · next hcontrol =>
      have hc := ofNat_hexDigits c.toNat hcontrol
      rw [Char.ofNat_toNat] at hc
      simp [unescape?, hc]
    · simp [unescape?, hslash]

theorem escape_append_inj {c d : Char} {r s : List Char} (h : escape c ++ r = escape d ++ s) :
    c = d ∧ r = s := by
  have hread := unescape?_escape c r
  rw [h, unescape?_escape] at hread
  cases hread
  exact ⟨rfl, rfl⟩

/-- No escape begins with a quote. -/
theorem escape_ne_quote (c : Char) (r s : List Char) : escape c ++ r ≠ '\x22' :: s := by
  intro h
  have hread := unescape?_escape c r
  rw [h] at hread
  cases hread
  cases h

theorem escapes_append_inj {a b r s : List Char}
    (h : a.flatMap escape ++ '\x22' :: r = b.flatMap escape ++ '\x22' :: s) : a = b ∧ r = s := by
  induction a generalizing b with
  | nil =>
    cases b with
    | nil =>
      cases h
      exact ⟨rfl, rfl⟩
    | cons d b =>
      rw [List.flatMap_cons, List.append_assoc] at h
      exact absurd h.symm (escape_ne_quote d _ _)
  | cons c a ih =>
    cases b with
    | nil =>
      rw [List.flatMap_cons, List.append_assoc] at h
      exact absurd h (escape_ne_quote c _ _)
    | cons d b =>
      simp only [List.flatMap_cons, List.append_assoc] at h
      obtain ⟨rfl, htail⟩ := escape_append_inj h
      obtain ⟨rfl, rfl⟩ := ih htail
      exact ⟨rfl, rfl⟩

/-- A quoted string ends at its closing quote. -/
theorem quote_append_inj {a b : String} {r s : List Char} (h : quote a ++ r = quote b ++ s) :
    a = b ∧ r = s := by
  simp only [quote, List.cons_append, List.append_assoc, List.cons.injEq, true_and,
    List.nil_append] at h
  obtain ⟨hab, hrest⟩ := escapes_append_inj h
  exact ⟨String.toList_inj.mp hab, hrest⟩

/-- The characters that say what a value is or that stand behind one. -/
def marks : List Char := ['\x22', 't', 'f', '[', '\x7b', ',', '\n']

/-- A text that can be a number: no character of it is a mark. -/
def IsNumeral (t : List Char) : Prop := t ≠ [] ∧ ∀ c ∈ t, c ∉ marks

/-- Trees whose numbers are numerals. -/
inductive Regular : Json → Prop
  | string (t : String) : Regular (.string t)
  | flag (b : Bool) : Regular (.flag b)
  | number {n : String} (h : IsNumeral n.toList) : Regular (.number n)
  | list {vs : List Json} (h : ∀ v ∈ vs, Regular v) : Regular (.list vs)
  | object {ms : List (String × Json)} (h : ∀ m ∈ ms, Regular m.2) : Regular (.object ms)

@[simp] theorem regular_string (t : String) : Regular (.string t) := .string t
@[simp] theorem regular_flag (b : Bool) : Regular (.flag b) := .flag b

@[simp] theorem regular_list_iff {vs : List Json} :
    Regular (.list vs) ↔ ∀ v ∈ vs, Regular v :=
  ⟨fun h => by cases h; assumption, .list⟩

@[simp] theorem regular_object_iff {ms : List (String × Json)} :
    Regular (.object ms) ↔ ∀ m ∈ ms, Regular m.2 :=
  ⟨fun h => by cases h; assumption, .object⟩

inductive Kind where
  | string | flag | number | list | object
  deriving DecidableEq, Repr

def kind : Json → Kind
  | string _ => .string
  | flag _ => .flag
  | number _ => .number
  | list _ => .list
  | object _ => .object

/-- The kind of the values that begin with a character. -/
def Kind.ofHead (c : Char) : Kind :=
  if c = '\x22' then .string
  else if c = 't' ∨ c = 'f' then .flag
  else if c = '[' then .list
  else if c = '\x7b' then .object
  else .number

section Brackets

variable {α : Type} {text : α → List Char} {depth : Nat}

/-- The entries behind the first one, each behind a comma and on a line of its own. -/
def further (depth : Nat) (text : α → List Char) (vs : List α) : List Char :=
  vs.flatMap fun v => ',' :: newLine depth ++ text v

/-- Entries between brackets that stand at a depth. -/
def bracketed (opening closing : Char) (depth : Nat) (text : α → List Char) : List α → List Char
  | [] => [opening, closing]
  | v :: vs =>
    opening :: newLine (depth + 1) ++ text v ++ further (depth + 1) text vs
      ++ newLine depth ++ [closing]

/-- What may stand behind a value: nothing, or a mark. -/
def Ends (r : List Char) : Prop := ∀ c ∈ r.head?, c ∈ marks

/-- Two entries are told from one another, whatever stands behind the two. -/
def Apart (text : α → List Char) (v w : α) : Prop :=
  ∀ r s, Ends r → Ends s → text v ++ r = text w ++ s → v = w ∧ r = s

theorem ends_newline (r : List Char) : Ends ('\n' :: r) := by simp [Ends, marks]

theorem ends_further (vs : List α) {r : List Char} (hr : Ends r) :
    Ends (further depth text vs ++ r) := by
  cases vs with
  | nil => simpa [further] using hr
  | cons v vs => simp [further, Ends, marks]

/-- Entries end where a line begins without a comma. -/
theorem further_append_inj {vs ws : List α} (hapart : ∀ v ∈ vs, ∀ w ∈ ws, Apart text v w)
    {r s : List Char}
    (h : further depth text vs ++ '\n' :: r = further depth text ws ++ '\n' :: s) :
    vs = ws ∧ r = s := by
  induction vs generalizing ws with
  | nil =>
    cases ws with
    | nil => exact ⟨rfl, by simpa [further] using h⟩
    | cons w ws => simp [further] at h
  | cons v vs ih =>
    cases ws with
    | nil => simp [further] at h
    | cons w ws =>
      simp only [further, List.flatMap_cons, List.cons_append, List.append_assoc] at h
      have hentry := List.append_cancel_left (List.tail_eq_of_cons_eq h)
      obtain ⟨rfl, hrest⟩ := hapart v (by simp) w (by simp) _ _
        (ends_further vs (ends_newline r)) (ends_further ws (ends_newline s)) hentry
      obtain ⟨rfl, rfl⟩ := ih (fun u hu x hx => hapart u (by simp [hu]) x (by simp [hx])) hrest
      exact ⟨rfl, rfl⟩

/-- What stands between brackets is determined, and so is what stands behind them. -/
theorem bracketed_append_inj {opening closing : Char} (hclosing : closing ≠ '\n') {vs ws : List α}
    (hapart : ∀ v ∈ vs, ∀ w ∈ ws, Apart text v w) {r s : List Char}
    (h : bracketed opening closing depth text vs ++ r =
      bracketed opening closing depth text ws ++ s) : vs = ws ∧ r = s := by
  cases vs with
  | nil =>
    cases ws with
    | nil => exact ⟨rfl, by simpa [bracketed] using h⟩
    | cons w ws => simp [bracketed, newLine, hclosing] at h
  | cons v vs =>
    cases ws with
    | nil => simp [bracketed, newLine, hclosing.symm] at h
    | cons w ws =>
      simp only [bracketed, List.cons_append, List.append_assoc, List.nil_append] at h
      -- The first entry stands behind the bracket as the others do behind their commas.
      have hentries : further (depth + 1) text (v :: vs) ++ (newLine depth ++ closing :: r) =
          further (depth + 1) text (w :: ws) ++ (newLine depth ++ closing :: s) := by
        simp only [further, List.flatMap_cons, List.cons_append, List.append_assoc]
        exact congrArg (',' :: ·) (List.tail_eq_of_cons_eq h)
      obtain ⟨heq, hrest⟩ := further_append_inj hapart hentries
      exact ⟨heq, List.tail_eq_of_cons_eq (List.append_cancel_left hrest)⟩

end Brackets

/-- A member of an object. -/
def memberText (depth : Nat) (m : String × Json) : List Char :=
  quote m.1 ++ ':' :: ' ' :: write depth m.2

theorem writeItems_eq_further (depth : Nat) (vs : List Json) :
    writeItems depth vs = further depth (write depth) vs := by
  induction vs with
  | nil => simp [writeItems, further]
  | cons v vs ih => simp [writeItems, ih, further]

theorem writeMembers_eq_further (depth : Nat) (ms : List (String × Json)) :
    writeMembers depth ms = further depth (memberText depth) ms := by
  induction ms with
  | nil => simp [writeMembers, further]
  | cons m ms ih => simp [writeMembers, ih, further, memberText]

theorem write_list (depth : Nat) (vs : List Json) :
    write depth (.list vs) = bracketed '[' ']' depth (write (depth + 1)) vs := by
  cases vs with
  | nil => simp [write, bracketed]
  | cons v vs => simp [write, bracketed, writeItems_eq_further]

theorem write_object (depth : Nat) (ms : List (String × Json)) :
    write depth (.object ms) = bracketed '\x7b' '\x7d' depth (memberText (depth + 1)) ms := by
  cases ms with
  | nil => simp [write, bracketed]
  | cons m ms => simp [write, bracketed, writeMembers_eq_further, memberText]

theorem apart_memberText {depth : Nat} {m n : String × Json}
    (h : Apart (write depth) m.2 n.2) : Apart (memberText depth) m n := by
  intro r s hr hs heq
  obtain ⟨k, v⟩ := m
  obtain ⟨l, w⟩ := n
  simp only [memberText, List.append_assoc, List.cons_append] at heq
  obtain ⟨rfl, hvalue⟩ := quote_append_inj heq
  simp only [List.cons.injEq, true_and] at hvalue
  obtain ⟨rfl, rfl⟩ := h r s hr hs hvalue
  exact ⟨rfl, rfl⟩

/-- The first character of a value tells its kind. -/
theorem exists_head_write {j : Json} (h : Regular j) (depth : Nat) (r : List Char) :
    ∃ c, (write depth j ++ r).head? = some c ∧ Kind.ofHead c = j.kind := by
  cases h with
  | string t => exact ⟨'\x22', by rw [write]; rfl, rfl⟩
  | flag b => cases b <;> exact ⟨_, by rw [write]; rfl, rfl⟩
  | @number n h =>
    obtain ⟨c, t, hn⟩ := List.exists_cons_of_ne_nil h.1
    refine ⟨c, by rw [write, hn]; rfl, ?_⟩
    have hc : c ∉ marks := h.2 c (by simp [hn])
    simp only [marks, List.mem_cons, List.not_mem_nil, or_false, not_or] at hc
    simp [Kind.ofHead, kind, hc]
  | @list vs h => exact ⟨'[', by rw [write_list]; cases vs <;> rfl, rfl⟩
  | @object ms h => exact ⟨'\x7b', by rw [write_object]; cases ms <;> rfl, rfl⟩

theorem kind_eq {j k : Json} (hj : Regular j) (hk : Regular k) {depth : Nat} {r s : List Char}
    (h : write depth j ++ r = write depth k ++ s) : j.kind = k.kind := by
  obtain ⟨c, hc, hkind⟩ := exists_head_write hj depth r
  obtain ⟨d, hd, hkind'⟩ := exists_head_write hk depth s
  rw [h, hd] at hc
  cases hc
  rw [← hkind, hkind']

/-- Numbers end where a mark begins. -/
theorem number_append_inj {m n r s : List Char} (hm : IsNumeral m) (hn : IsNumeral n)
    (hr : Ends r) (hs : Ends s) (h : m ++ r = n ++ s) : m = n ∧ r = s := by
  have hscan {t u : List Char} (ht : IsNumeral t) (hu : Ends u) :=
    Text.scan_append (p := fun c => !marks.contains c) (w := t) (r := u)
      (fun c hc => by simpa using ht.2 c hc) (fun c hc => by simpa using hu c hc)
  have hleft := hscan hm hr
  have hright := hscan hn hs
  rw [h] at hleft
  exact ⟨hleft.1.symm.trans hright.1, hleft.2.symm.trans hright.2⟩

/-- A value is determined by the text that begins with it. The induction is on the tree; an item
or a member is determined by the rest of the text, which says whether another one follows. -/
theorem apart_write {j : Json} (hj : Regular j) :
    ∀ depth k, Regular k → Apart (write depth) j k := by
  induction hj with
  | string t =>
    intro depth k hk r s hr hs h
    have hkind := kind_eq (.string t) hk h
    cases hk with
    | string u =>
      rw [write, write] at h
      obtain ⟨rfl, rfl⟩ := quote_append_inj h
      exact ⟨rfl, rfl⟩
    | _ => cases hkind
  | flag b =>
    intro depth k hk r s hr hs h
    have hkind := kind_eq (.flag b) hk h
    cases hk with
    | flag c => cases b <;> cases c <;> simp [write] at h ⊢ <;> exact h
    | _ => cases hkind
  | @number m hm =>
    intro depth k hk r s hr hs h
    have hkind := kind_eq (.number hm) hk h
    cases hk with
    | @number n hn =>
      rw [write, write] at h
      obtain ⟨hmn, rfl⟩ := number_append_inj hm hn hr hs h
      exact ⟨by rw [String.toList_inj.mp hmn], rfl⟩
    | _ => cases hkind
  | list hvs ih =>
    intro depth k hk r s hr hs h
    have hkind := kind_eq (.list hvs) hk h
    cases hk with
    | list hws =>
      rw [write_list, write_list] at h
      obtain ⟨rfl, rfl⟩ := bracketed_append_inj (by decide)
        (fun v hv w hw => ih v hv _ w (hws w hw)) h
      exact ⟨rfl, rfl⟩
    | _ => cases hkind
  | object hms ih =>
    intro depth k hk r s hr hs h
    have hkind := kind_eq (.object hms) hk h
    cases hk with
    | object hns =>
      rw [write_object, write_object] at h
      obtain ⟨rfl, rfl⟩ := bracketed_append_inj (by decide)
        (fun m hm n hn => apart_memberText (ih m hm _ n.2 (hns n hn))) h
      exact ⟨rfl, rfl⟩
    | _ => cases hkind

/-- Trees of the same text are the same. -/
theorem pretty_inj {j k : Json} (hj : Regular j) (hk : Regular k) (h : j.pretty = k.pretty) :
    j = k := by
  have htext : write 0 j ++ [] = write 0 k ++ [] := by
    simpa [pretty] using congrArg String.toList h
  exact (apart_write hj 0 k hk [] [] (by simp [Ends]) (by simp [Ends]) htext).1

end RenderPlan.Json
