import RenderPlan.Description.Cursor
import RenderPlan.Description.Reading
/-!
Groups of lines. A field and the lines that belong to it, which hold its list, its buffer or the
body of its source, make up a group. A cursor takes group after group off a text, whatever block
they stand in, so a text falls into groups in at most one way. Which of them open a block is decided
by their keywords, their indentation and whether the block before is a pass.
-/
namespace RenderPlan.Description

open RenderPlan.Text

/-- What a field takes from the text behind its line. -/
inductive Content where
  | nothing
  | list (inner : List Char)
  /-- A buffer, and its list if there is one. -/
  | outputs (buffer : List Char) (inner : Option (List Char))
  | body (text : List Char)
  deriving DecidableEq, Repr

structure Group where
  field : Field
  keyword : Keyword
  content : Content
  deriving DecidableEq, Repr

namespace Cursor

/-- The cursor behind the line that it finds next. -/
def next (c : Cursor) : Cursor := c.skip.advance

/-- The text in the brackets that `opening` starts, if nothing but blanks stands behind them. -/
def closed? (c : Cursor) (opening : List Char) : Option (List Char × Cursor) :=
  match c.collect opening with
  | (some (inner, rest), d) => if trim rest = [] then some (inner, d) else none
  | (none, _) => none

/-- The list of a field, which stands in the value or opens on the next line. -/
def list? (c : Cursor) (value : List Char) : Option (List Char × Cursor) :=
  if value = [] then c.peek?.bind fun l => c.next.closed? (trimStart l.text)
  else c.closed? value

/-- The list that may open on the next line. -/
def listBelow? (c : Cursor) : Option (Option (List Char) × Cursor) :=
  match c.peek? with
  | some l =>
    if startsWith '[' l.text then
      (c.next.closed? (trimStart l.text)).map fun (inner, d) => (some inner, d)
    else some (none, c)
  | none => some (none, c)

/-- The buffer in a text, and its list there or below. -/
def outputsIn? (c : Cursor) (value : List Char) : Option (Content × Cursor) :=
  let (buffer, list) := splitOutputs value
  if isBufferName buffer then
    match list with
    | some text => (c.closed? text).map fun (inner, d) => (.outputs buffer (some inner), d)
    | none => c.listBelow?.map fun (inner, d) => (.outputs buffer inner, d)
  else none

/-- The buffer of a field, which stands in the value or on the next line, and its list. -/
def outputs? (c : Cursor) (value : List Char) : Option (Content × Cursor) :=
  if value = [] then
    c.peek?.bind fun l => if ':' ∈ l.text then none else c.next.outputsIn? (trim l.text)
  else c.outputsIn? value

/-- The lines between a fence and the next one. -/
def fenced? (c : Cursor) (fence : List Char) : Option (List Char × Cursor) :=
  if isFence fence && isOpeningFence fence then
    match c.capture with
    | (some text, d) => some (text, d)
    | (none, _) => none
  else none

/-- The body of a field, whose fence stands in the value or on the next line. -/
def body? (c : Cursor) (value : List Char) : Option (List Char × Cursor) :=
  if value = [] then c.peek?.bind fun l => c.next.fenced? l.text else c.fenced? value

/-- What a field takes from the text under the cursor. -/
def content? (c : Cursor) (f : Field) : Keyword → Option (Content × Cursor)
  | .textures | .inputs | .attributes | .uniforms | .varying =>
    (c.list? f.value).map fun (inner, d) => (.list inner, d)
  | .outputs => c.outputs? f.value
  | .source => (c.body? f.value).map fun (text, d) => (.body text, d)
  | _ => some (.nothing, c)

/-- The next group of a text, and the cursor behind it. -/
def group? (c : Cursor) : Option (Group × Cursor) := do
  let l ← c.peek?
  let f ← l.field?
  let k ← Keyword.ofText? (String.ofList f.keyword)
  let (content, d) ← c.next.content? f k
  some (⟨f, k, content⟩, d)

end Cursor

/-- The groups of the text under a cursor, which end where no line says anything any more. -/
inductive Grouping : Cursor → List Group → Prop
  | nil {c : Cursor} (h : c.peek? = none) : Grouping c []
  | cons {c d : Cursor} {g : Group} {gs : List Group} (h : c.group? = some (g, d))
      (hs : Grouping d gs) : Grouping c (g :: gs)

theorem Cursor.group?_of_peek?_eq_none {c : Cursor} (h : c.peek? = none) : c.group? = none := by
  rw [Cursor.group?, h]
  rfl

/-- A group is the field of the next line that says something, with what that field takes. -/
theorem Cursor.exists_of_group? {c d : Cursor} {g : Group} (h : c.group? = some (g, d)) :
    ∃ l, c.peek? = some l ∧ l.field? = some g.field ∧
      Keyword.ofText? (String.ofList g.field.keyword) = some g.keyword ∧
      c.next.content? g.field g.keyword = some (g.content, d) := by
  obtain ⟨l, hl, h⟩ := Option.bind_eq_some_iff.mp h
  obtain ⟨f, hf, h⟩ := Option.bind_eq_some_iff.mp h
  obtain ⟨k, hk, h⟩ := Option.bind_eq_some_iff.mp h
  obtain ⟨⟨content, e⟩, hcontent, h⟩ := Option.bind_eq_some_iff.mp h
  cases h
  exact ⟨l, hl, hf, hk, hcontent⟩

/-- A text falls into groups in at most one way. -/
theorem Grouping.unique {c : Cursor} {gs gs' : List Group} (h : Grouping c gs)
    (h' : Grouping c gs') : gs' = gs := by
  induction h generalizing gs' with
  | nil h =>
    cases h' with
    | nil _ => rfl
    | cons hg _ =>
      rw [Cursor.group?_of_peek?_eq_none h] at hg
      cases hg
  | cons h _ ih =>
    cases h' with
    | nil hp =>
      rw [Cursor.group?_of_peek?_eq_none hp] at h
      cases h
    | cons hg hs =>
      rw [h] at hg
      cases hg
      rw [ih hs]

/-- Whether a group opens a block where a pass, or none, is open. -/
def Group.opens (inPass : Bool) (g : Group) : Bool :=
  g.keyword.opensBlock && (g.field.atLineStart || !(inPass && g.keyword == .shader))

/-- An opener with the fields of its block. -/
structure Section where
  opener : Group
  fields : List Group
  deriving DecidableEq, Repr

/-- The fields up to the next opener, and the blocks from there on. -/
def sections (inPass : Bool) : List Group → List Group × List Section
  | [] => ([], [])
  | g :: gs =>
    if g.opens inPass then
      let (fields, blocks) := sections (g.keyword == .pass) gs
      ([], ⟨g, fields⟩ :: blocks)
    else
      let (fields, blocks) := sections inPass gs
      (g :: fields, blocks)

/-- The blocks of a keyword. -/
def sectionsOf (k : Keyword) (gs : List Group) : List Section :=
  (sections false gs).2.filter fun b => b.opener.keyword == k

namespace Cursor

theorem skip_eq_cons {c : Cursor} {l : Line} (h : c.peek? = some l) :
    c.skip.remaining = l :: c.next.remaining := by
  obtain ⟨ls, hls⟩ := List.head?_eq_some_iff.mp h
  rw [next, advance, hls]
  rfl

theorem next_suffix {c : Cursor} {l : Line} (h : c.peek? = some l) :
    l :: c.next.remaining <:+ c.remaining := by
  rw [← skip_eq_cons h]
  exact List.dropWhile_suffix _

theorem next_suffix_self {c : Cursor} {l : Line} (h : c.peek? = some l) :
    c.next.remaining <:+ c.remaining :=
  (List.suffix_cons l _).trans (next_suffix h)

theorem closeBracket_suffix (inner : List Char) (ls : List Line) :
    (closeBracket inner ls).2.remaining <:+ ls := by
  induction ls generalizing inner with
  | nil => exact List.suffix_refl _
  | cons l ls ih =>
    rw [closeBracket]
    split
    · exact (ih inner).trans (List.suffix_cons l ls)
    · split
      · next inner' _ => exact (ih inner').trans (List.suffix_cons l ls)
      · exact List.suffix_cons l ls

theorem collect_suffix (c : Cursor) (text : List Char) :
    (c.collect text).2.remaining <:+ c.remaining := by
  unfold collect
  split
  · split
    · exact closeBracket_suffix _ _
    · exact List.suffix_refl _
  · exact List.suffix_refl _

theorem captureFrom_suffix (ls : List Line) : (captureFrom ls).2.remaining <:+ ls := by
  induction ls with
  | nil => exact List.suffix_refl _
  | cons l ls ih =>
    rw [captureFrom]
    split
    · exact List.suffix_cons l ls
    · exact ih.trans (List.suffix_cons l ls)

variable {c d : Cursor}

theorem closed?_suffix {text inner : List Char} (h : c.closed? text = some (inner, d)) :
    d.remaining <:+ c.remaining := by
  have hsuffix := collect_suffix c text
  unfold closed? at h
  split at h
  · next hc =>
    split at h
    · cases h
      rwa [hc] at hsuffix
    · cases h
  · cases h

theorem list?_suffix {value inner : List Char} (h : c.list? value = some (inner, d)) :
    d.remaining <:+ c.remaining := by
  unfold list? at h
  split at h
  · obtain ⟨l, hl, hd⟩ := Option.bind_eq_some_iff.mp h
    exact (closed?_suffix hd).trans (next_suffix_self hl)
  · exact closed?_suffix h

theorem listBelow?_suffix {inner : Option (List Char)} (h : c.listBelow? = some (inner, d)) :
    d.remaining <:+ c.remaining := by
  unfold listBelow? at h
  split at h
  · next l hl =>
    split at h
    · obtain ⟨⟨text, e⟩, he, heq⟩ := Option.map_eq_some_iff.mp h
      cases heq
      exact (closed?_suffix he).trans (next_suffix_self hl)
    · cases h
      exact List.suffix_refl _
  · cases h
    exact List.suffix_refl _

theorem outputsIn?_suffix {value : List Char} {content : Content}
    (h : c.outputsIn? value = some (content, d)) : d.remaining <:+ c.remaining := by
  simp only [outputsIn?] at h
  split at h
  · split at h
    · obtain ⟨⟨inner, e⟩, he, heq⟩ := Option.map_eq_some_iff.mp h
      cases heq
      exact closed?_suffix he
    · obtain ⟨⟨inner, e⟩, he, heq⟩ := Option.map_eq_some_iff.mp h
      cases heq
      exact listBelow?_suffix he
  · cases h

theorem outputs?_suffix {value : List Char} {content : Content}
    (h : c.outputs? value = some (content, d)) : d.remaining <:+ c.remaining := by
  unfold outputs? at h
  split at h
  · obtain ⟨l, hl, hd⟩ := Option.bind_eq_some_iff.mp h
    split at hd
    · cases hd
    · exact (outputsIn?_suffix hd).trans (next_suffix_self hl)
  · exact outputsIn?_suffix h

theorem fenced?_suffix {fence text : List Char} (h : c.fenced? fence = some (text, d)) :
    d.remaining <:+ c.remaining := by
  have hsuffix := captureFrom_suffix c.remaining
  unfold fenced? at h
  split at h
  · split at h
    · next hc =>
      cases h
      rw [capture] at hc
      rwa [hc] at hsuffix
    · cases h
  · cases h

theorem body?_suffix {value text : List Char} (h : c.body? value = some (text, d)) :
    d.remaining <:+ c.remaining := by
  unfold body? at h
  split at h
  · obtain ⟨l, hl, hd⟩ := Option.bind_eq_some_iff.mp h
    exact (fenced?_suffix hd).trans (next_suffix_self hl)
  · exact fenced?_suffix h

theorem content?_suffix {f : Field} {k : Keyword} {content : Content}
    (h : c.content? f k = some (content, d)) : d.remaining <:+ c.remaining := by
  unfold content? at h
  split at h
  case h_6 => exact outputs?_suffix h
  case h_7 =>
    obtain ⟨⟨text, e⟩, he, heq⟩ := Option.map_eq_some_iff.mp h
    cases heq
    exact body?_suffix he
  case h_8 =>
    cases h
    exact List.suffix_refl _
  all_goals
    obtain ⟨⟨inner, e⟩, he, heq⟩ := Option.map_eq_some_iff.mp h
    cases heq
    exact list?_suffix he

/-- A group takes at least its own line off a text. -/
theorem length_group? {g : Group} (h : c.group? = some (g, d)) :
    d.remaining.length < c.remaining.length := by
  obtain ⟨l, hl, -, -, hcontent⟩ := exists_of_group? h
  have hd := (content?_suffix hcontent).length_le
  have hline := (next_suffix hl).length_le
  rw [List.length_cons] at hline
  omega

end Cursor
end RenderPlan.Description
