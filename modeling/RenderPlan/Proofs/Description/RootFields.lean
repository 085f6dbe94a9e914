import Mathlib.Data.List.TakeWhile
import RenderPlan.Proofs.Description.Concatenation
import RenderPlan.Proofs.Description.FieldOrder
/-!
The fields of the root. Name and version are taken before the first block only: no field leads back
to the root, and every block, whatever stands open in it, refuses them. So behind a text with a
block they are an error, and in a text that is read they come before all openers.
-/
namespace RenderPlan

/-- A plan to which a block was added. -/
def Plan.HasBlock (p : Plan) : Prop :=
  p.buffers ≠ [] ∨ p.passes ≠ [] ∨ p.shaders ≠ [] ∨ p.textures ≠ []

namespace Description

open RenderPlan.Text

/-- The keywords of the fields that name the plan. -/
def Keyword.namesPlan : Keyword → Bool
  | .name | .version => true
  | _ => false

theorem Keyword.namesPlan_of_opensBlock {k : Keyword} (h : k.opensBlock = true) :
    k.namesPlan = false := by
  cases k <;> first | rfl | cases h

/-- A field that belongs to a block stands in one and leaves one open; it does not name the plan. -/
theorem ne_root_of_takes {g : Group} {block block' : Block} (h : Takes g block block') :
    block ≠ .root ∧ block' ≠ .root ∧ g.keyword.namesPlan = false := by
  cases h with
  | sets hs hc =>
    generalize g.keyword = k at hs
    cases hs <;> simp [Keyword.namesPlan]
  | list hl hc hf =>
    generalize g.keyword = k at hl
    cases hl <;> obtain ⟨_, _, rfl⟩ := exists_of_map_eq_ok hf <;> simp [Keyword.namesPlan]
  | outputs _ hk | source _ _ hk => simp [shaderWithBody, hk, Keyword.namesPlan]

theorem ne_root_of_newBlock? {name : String} {k : Keyword} {next : Block}
    (h : newBlock? name k = some next) : next ≠ .root := by
  cases k <;> cases h <;> simp

theorem names_of_closeBlock {plan p : Plan} {block : Block} (h : closeBlock plan block = .ok p) :
    p.name = plan.name ∧ p.version = plan.version := by
  cases block with
  | shader s st =>
    obtain ⟨_, -, rfl⟩ := exists_of_map_eq_ok h
    exact ⟨rfl, rfl⟩
  | root | buffer b | pass q | texture t =>
    cases h
    exact ⟨rfl, rfl⟩

/-- Only fields that name the plan lead to the root, and these add no block. -/
theorem GroupSteps.hasBlock_iff {plan plan' : Plan} {block block' : Block} {gs : List Group}
    (h : GroupSteps plan block gs plan' block') (hb : block' = .root) :
    block = .root ∧ (plan'.HasBlock ↔ plan.HasBlock) := by
  induction h with
  | nil => exact ⟨hb, Iff.rfl⟩
  | cons hstep _ ih =>
    obtain ⟨rfl, hiff⟩ := ih hb
    cases hstep with
    | name | version => exact ⟨rfl, hiff⟩
    | opens _ hn => exact absurd rfl (ne_root_of_newBlock? hn)
    | field _ ht => exact absurd rfl (ne_root_of_takes ht).2.1

/-- Every open block refuses the fields that name the plan. -/
theorem blockField_of_namesPlan {plan : Plan} {block : Block} {f : Field} {k : Keyword}
    (hk : k.namesPlan = true) (hb : block ≠ .root) :
    blockField plan block f k = f.unknownKeyword := by
  cases k <;> cases hk <;> cases block <;> first | rfl | exact absurd rfl hb

/-- The groups of a text and the plan they name: of each keyword the last one counts, and none of
them stands behind an opener. -/
structure NamesPlan (gs : List Group) (p : Plan) : Prop where
  name : LastWins .name (fun g v => g.field.text = v) gs "" p.name
  version : LastWins .version (fun g v => g.field.text = v) gs "" p.version
  beforeBlocks : gs.Pairwise fun g h => g.keyword.opensBlock = true → h.keyword.namesPlan = false

/-- From inside a block, no group names the plan. -/
theorem names_of_builds {plan p : Plan} {block : Block} {gs : List Group}
    (h : Builds plan block gs p) (hb : block ≠ .root) :
    (∀ g ∈ gs, g.keyword.namesPlan = false) ∧ p.name = plan.name ∧ p.version = plan.version := by
  induction h with
  | close h => exact ⟨by simp, names_of_closeBlock h⟩
  | step hstep _ ih =>
    cases hstep with
    | name | version => exact absurd rfl hb
    | opens ho hn hc =>
      obtain ⟨hgs, hname, hversion⟩ := ih (ne_root_of_newBlock? hn)
      obtain ⟨hname', hversion'⟩ := names_of_closeBlock hc
      have hk := Keyword.namesPlan_of_opensBlock (Bool.and_eq_true_iff.mp ho).1
      exact ⟨List.forall_mem_cons.mpr ⟨hk, hgs⟩, hname.trans hname', hversion.trans hversion'⟩
    | field _ ht =>
      obtain ⟨-, hb', hk⟩ := ne_root_of_takes ht
      obtain ⟨hgs, hnames⟩ := ih hb'
      exact ⟨List.forall_mem_cons.mpr ⟨hk, hgs⟩, hnames⟩

/-- Groups of other keywords give no value of one that names the plan. -/
theorem groupsOf_eq_nil {gs : List Group} (h : ∀ g ∈ gs, g.keyword.namesPlan = false)
    {k : Keyword} (hk : k.namesPlan = true) : groupsOf k gs = [] := by
  refine List.filter_eq_nil_iff.mpr fun g hg hgk => ?_
  rw [beq_iff_eq] at hgk
  rw [← hgk, h g hg] at hk
  cases hk

/-- The groups before the first opener name the plan one after the other; the induction is on them,
and behind that opener no group does. -/
theorem lastWins_of_builds {plan p : Plan} {block : Block} {gs : List Group}
    (h : Builds plan block gs p) (hb : block = .root) :
    LastWins .name (fun g v => g.field.text = v) gs plan.name p.name ∧
    LastWins .version (fun g v => g.field.text = v) gs plan.version p.version ∧
    gs.Pairwise fun g h => g.keyword.opensBlock = true → h.keyword.namesPlan = false := by
  induction h with
  | close h =>
    subst hb
    cases h
    exact ⟨.nil, .nil, .nil⟩
  | @step plan _ p block block' g gs hstep hs ih =>
    cases hstep with
    | name hk =>
      obtain ⟨hname, hversion, hgs⟩ := ih rfl
      refine ⟨hname.cons_self hk rfl, hversion.cons_ne (by simp [hk]), .cons ?_ hgs⟩
      simp [hk, Keyword.opensBlock]
    | version hk =>
      obtain ⟨hname, hversion, hgs⟩ := ih rfl
      refine ⟨hname.cons_ne (by simp [hk]), hversion.cons_self hk rfl, .cons ?_ hgs⟩
      simp [hk, Keyword.opensBlock]
    | opens ho hn hc =>
      subst hb
      cases hc
      obtain ⟨hgs, hname, hversion⟩ := names_of_builds hs (ne_root_of_newBlock? hn)
      have hall : ∀ x ∈ g :: gs, x.keyword.namesPlan = false :=
        List.forall_mem_cons.mpr
          ⟨Keyword.namesPlan_of_opensBlock (Bool.and_eq_true_iff.mp ho).1, hgs⟩
      rw [hname, hversion]
      exact ⟨.none (groupsOf_eq_nil hall rfl), .none (groupsOf_eq_nil hall rfl),
        List.pairwise_of_forall_mem_list fun _ _ x hx _ => hall x hx⟩
    | field _ ht => exact absurd hb (ne_root_of_takes ht).1

/-- Where a text that is read ends, the groups of it have led to an open block, and a field may
follow. -/
theorem exists_settled_of_read {source : String} {p : Plan} (h : read source = .ok p) :
    ∃ plan block gs s, GroupSteps {} .root gs plan block ∧ closeBlock plan block = .ok p ∧
      Settled plan block s ∧ State.initial.feedAll (linesOf source.toList) = .ok s := by
  obtain ⟨xs, d, hxs, hd⟩ := exists_spans_of_read h
  obtain ⟨plan, block, s, hsteps, hfeed, hs, hrun⟩ :=
    hxs.exists_feedAll_of_run (Settled.fields .root) h
  have hskip : s.feedAll d.remaining = .ok s := by
    refine feedAll_of_skips fun l hl => (hs.skips l.text).trans ?_
    exact List.dropWhile_eq_nil_iff.mp (List.head?_eq_none_iff.mp hd) l hl
  have hall : State.initial.feedAll (linesOf source.toList) = .ok s := by
    change State.initial.feedAll (Cursor.ofText source.toList).remaining = _
    rw [hxs.remaining, State.feedAll_append]
    exact (congrArg (· >>= _) hfeed).trans hskip
  refine ⟨plan, block, _, s, hsteps, ?_, hs, hall⟩
  rw [← hs.finish, ← hrun, State.run, hskip]
  rfl

/-- Where a text with a block ends, some block is open. -/
theorem ne_root_of_hasBlock {plan p : Plan} {block : Block} {gs : List Group}
    (h : GroupSteps {} .root gs plan block) (hc : closeBlock plan block = .ok p)
    (hp : p.HasBlock) : block ≠ .root := by
  rintro rfl
  cases hc
  simpa [Plan.HasBlock] using (h.hasBlock_iff rfl).2.mp hp

/-- Behind a text with a block, a line that names the plan is an error, wherever the text ends. -/
theorem read_append_namesPlan {front back : String} {a : Plan} {l : Line} {f : Field} {k : Keyword}
    (hfront : EndsLine front.toList) (ha : read front = .ok a) (hblock : a.HasBlock)
    (hl : (Cursor.ofText back.toList).peek? = some l) (hf : l.field? = some f)
    (hk : Keyword.ofText? (String.ofList f.keyword) = some k) (hn : k.namesPlan = true) :
    read (front ++ back) = .error ⟨l.number + (lines front.toList).length,
      .unknownKeyword (String.ofList f.keyword)⟩ := by
  obtain ⟨plan, block, gs, s, hsteps, hclose, hs, hfeed⟩ := exists_settled_of_read ha
  obtain ⟨gap, hgap, hignorable, -⟩ := Cursor.exists_gap_of_peek? hl
  let shift : Line → Line := Line.renumber (· + (lines front.toList).length)
  have hlines : linesOf (front ++ back).toList = linesOf front.toList ++
      (gap.map shift ++ shift l :: (Cursor.ofText back.toList).next.remaining.map shift) := by
    rw [String.toList_append, linesOf_append hfront]
    change _ ++ (Cursor.ofText back.toList).remaining.map shift = _
    rw [hgap, List.map_append, List.map_cons]
  have hskip : ∀ g ∈ gap.map shift, isIgnorable g.text = true := by
    intro g hg
    obtain ⟨m, hm, rfl⟩ := List.mem_map.mp hg
    exact hignorable m hm
  have hfield : (shift l).field? = some (f.renumber (· + (lines front.toList).length)) := by
    rw [Line.field?_renumber, hf]
    rfl
  have hline : f.line = l.number := by
    obtain ⟨_, -, rfl⟩ := Option.map_eq_some_iff.mp hf
    rfl
  change State.run .initial (linesOf (front ++ back).toList) = _
  rw [hlines, State.run_append, hfeed]
  change State.run s _ = _
  rw [hs.run_field hfield hk hskip,
    blockField_of_namesPlan hn (ne_root_of_hasBlock hsteps hclose hblock), ← hline]
  rfl

/-- The fields of the root stand before all blocks. Behind a text with a block, whatever kind of
block is open at its end and whatever it waits for, a line that names the plan is an error on that
line. In a text that is read, name and version are those of the last such fields, or empty, and no
such field stands behind an opener. -/
theorem read_rootFields :
    (∀ (front back : String) (a : Plan) (l : Line) (f : Field) (k : Keyword),
      EndsLine front.toList → read front = .ok a → a.HasBlock →
      (Cursor.ofText back.toList).peek? = some l → l.field? = some f →
      Keyword.ofText? (String.ofList f.keyword) = some k → k.namesPlan = true →
      read (front ++ back) = .error ⟨l.number + (lines front.toList).length,
        .unknownKeyword (String.ofList f.keyword)⟩) ∧
    ∀ (source : String) (plan : Plan), read source = .ok plan →
      (∃ gs, Grouping (Cursor.ofText source.toList) gs) ∧
      ∀ gs, Grouping (Cursor.ofText source.toList) gs → NamesPlan gs plan := by
  refine ⟨fun _ _ _ _ _ _ hfront ha hblock hl hf hk hn =>
    read_append_namesPlan hfront ha hblock hl hf hk hn, fun source plan h => ?_⟩
  obtain ⟨gs, hgs, hbuilds⟩ := exists_builds_of_read h
  refine ⟨⟨gs, hgs⟩, fun gs' hgs' => ?_⟩
  cases hgs.unique hgs'
  obtain ⟨hname, hversion, hbefore⟩ := lastWins_of_builds hbuilds rfl
  exact ⟨hname, hversion, hbefore⟩

/-- A shader whose stage has its source, and below a comment an indented version. -/
theorem read_rootFields_behind_stage :
    read ("name: a\nname: n\nshader: s\n  vsh:\n    source: \x60\nvoid main() {}\n\x60\n" ++
        "- next\n\t version :2\nname: m") = .error ⟨9, .unknownKeyword "version"⟩ ∧
      ∃ gs, Grouping (Cursor.ofText "name: a\nname: n\nshader: s\n".toList) gs ∧
        NamesPlan gs { name := "n", shaders := [{ name := "s" }] } := by
  have hback : (Cursor.ofText "- next\n\t version :2\nname: m".toList).peek? =
      some ⟨2, "\t version :2".toList⟩ := by rfl
  obtain ⟨⟨gs, hgs⟩, hnames⟩ := read_rootFields.2 "name: a\nname: n\nshader: s\n"
    { name := "n", shaders := [{ name := "s" }] } (by rfl)
  refine ⟨?_, gs, hgs, hnames gs hgs⟩
  exact read_rootFields.1
    "name: a\nname: n\nshader: s\n  vsh:\n    source: \x60\nvoid main() {}\n\x60\n" _
    { name := "n", shaders := [{ name := "s", vertexBody := "void main() {}\n" }] } _
    ⟨2, "version".toList, "2".toList, false⟩ .version (by decide) (by rfl)
    (by simp [Plan.HasBlock]) hback (by rfl) (by rfl) rfl

end Description
end RenderPlan
