import RenderPlan.Proofs.Plan.Spelling
import Mathlib.Data.List.Forall2
/-!
Looking up shader types. A text stands for a type exactly if it is the name of the type up to the
case of ASCII letters. No text is the name of two types, so the names may be compared in any order;
and a text that is not compared because of its length is the name of no type.
-/
namespace RenderPlan.ShaderType

/-- A capital ASCII letter and its small form. -/
def Lowers (c d : Char) : Prop :=
  'A'.toNat ≤ c.toNat ∧ c.toNat ≤ 'Z'.toNat ∧ d.toNat = c.toNat + 32

/-- The same character, or the two forms of one ASCII letter. -/
def SameLetter (c d : Char) : Prop := c = d ∨ Lowers c d ∨ Lowers d c

/-- The same characters in order, up to the case of ASCII letters. -/
def Spells (text name : String) : Prop := List.Forall₂ SameLetter text.toList name.toList

theorem toNat_toLower (c : Char) : c.toLower.toNat =
    if 'A'.toNat ≤ c.toNat ∧ c.toNat ≤ 'Z'.toNat then c.toNat + 32 else c.toNat := by
  have hbounds : (c.val ≥ 'A'.val ∧ c.val ≤ 'Z'.val) ↔
      'A'.toNat ≤ c.toNat ∧ c.toNat ≤ 'Z'.toNat := Iff.rfl
  unfold Char.toLower
  split
  · next h =>
    have hle : c.val.toNat ≤ 90 := (hbounds.mp h).2
    rw [if_pos (hbounds.mp h)]
    change (c.val + 32).toNat = c.val.toNat + 32
    rw [UInt32.toNat_add]
    simp only [UInt32.reduceToNat]
    omega
  · next h => rw [if_neg (mt hbounds.mpr h)]

theorem toLower_eq_iff {c d : Char} : c.toLower = d.toLower ↔ SameLetter c d := by
  have hinj {c d : Char} : c = d ↔ c.toNat = d.toNat := Char.toNat_inj.symm
  have hA : 'A'.toNat = 65 := rfl
  have hZ : 'Z'.toNat = 90 := rfl
  rw [hinj, toNat_toLower, toNat_toLower, SameLetter, Lowers, Lowers, hinj, hA, hZ]
  split <;> split <;> omega

theorem sameLetters_iff {a b : String} : sameLetters a b = true ↔ Spells a b := by
  rw [sameLetters, beq_iff_eq, ← List.forall₂_eq_eq_eq, List.forall₂_map_left_iff,
    List.forall₂_map_right_iff]
  simp only [toLower_eq_iff, Spells]

/-- Texts that differ in the case of letters only are compared with the names alike. -/
theorem sameLetters_congr {text text' : String} (h : Spells text text') (name : String) :
    sameLetters name text = sameLetters name text' := by
  have hmap := sameLetters_iff.mpr h
  rw [sameLetters, beq_iff_eq] at hmap
  rw [sameLetters, sameLetters, hmap]

theorem Spells.symm {a b : String} (h : Spells a b) : Spells b a := by
  rw [← sameLetters_iff, sameLetters, beq_iff_eq] at h ⊢
  exact h.symm

theorem SameLetter.utf8Size_eq {c d : Char} (h : SameLetter c d) : c.utf8Size = d.utf8Size := by
  have hascii {c : Char} (h : c.toNat ≤ 127) : c.utf8Size = 1 := Char.utf8Size_eq_one_iff.mpr h
  have hZ : 'Z'.toNat = 90 := rfl
  rcases h with rfl | h | h
  · rfl
  · obtain ⟨-, hle, heq⟩ := h
    rw [hascii (by omega), hascii (by omega)]
  · obtain ⟨-, hle, heq⟩ := h
    rw [hascii (by omega), hascii (by omega)]

/-- Such texts are equally long in bytes: only ASCII letters differ. -/
theorem Spells.utf8ByteSize_eq {a b : String} (h : Spells a b) :
    a.utf8ByteSize = b.utf8ByteSize := by
  have hcons (c : Char) (s : List Char) :
      (String.ofList (c :: s)).utf8ByteSize = c.utf8Size + (String.ofList s).utf8ByteSize := by
    rw [← List.singleton_append, String.ofList_append, String.utf8ByteSize_append]
    exact congrArg (· + _) String.utf8ByteSize_singleton
  have key {s t : List Char} (h : List.Forall₂ SameLetter s t) :
      (String.ofList s).utf8ByteSize = (String.ofList t).utf8ByteSize := by
    induction h with
    | nil => rfl
    | cons hcd _ ih => rw [hcons, hcons, hcd.utf8Size_eq, ih]
  simpa using key h

/-- The first type of a table whose name a text is. -/
def lookUp (table : List ShaderType) (text : String) : ShaderType :=
  (table.find? fun t => sameLetters t.name text).getD unknown

theorem scan_eq_lookUp (text : String) : scan text = lookUp all text := rfl

theorem scan_name {t : ShaderType} (h : t ≠ unknown) : scan t.name = t := by
  have hname := ofName_name t
  unfold ofName at hname
  split at hname
  · exact absurd hname.symm h
  · exact hname

theorem scan_of_spells {t : ShaderType} {text : String} (h : t ≠ unknown)
    (hs : Spells text t.name) : scan text = t := by
  have hsame : scan text = scan t.name := by
    unfold scan
    simp only [sameLetters_congr hs]
  exact hsame.trans (scan_name h)

/-- No text is the name of two types. -/
theorem eq_of_spells {t u : ShaderType} {text : String} (ht : t ≠ unknown) (hu : u ≠ unknown)
    (h : Spells text t.name) (h' : Spells text u.name) : t = u :=
  (scan_of_spells ht h).symm.trans (scan_of_spells hu h')

section Table

variable {table : List ShaderType} (htable : ∀ t, t ∈ table ↔ t ≠ unknown) {text : String}

include htable

/-- A table with every type finds the one that a text names, wherever it stands in the table. -/
theorem lookUp_eq_iff {t : ShaderType} (ht : t ≠ unknown) :
    lookUp table text = t ↔ Spells text t.name := by
  unfold lookUp
  cases hfind : table.find? fun t => sameLetters t.name text with
  | none =>
    have hno := List.find?_eq_none.mp hfind t ((htable t).mpr ht)
    constructor
    · intro h
      exact absurd h.symm ht
    · intro h
      exact absurd (sameLetters_iff.mpr h.symm) hno
  | some u =>
    have hu : u ≠ unknown := (htable u).mp (List.mem_of_find?_eq_some hfind)
    have hspells : Spells text u.name := by
      have hsame := List.find?_some hfind
      exact (sameLetters_iff.mp hsame).symm
    constructor
    · rintro rfl
      exact hspells
    · exact eq_of_spells hu ht hspells

theorem lookUp_eq_unknown_iff :
    lookUp table text = unknown ↔ ∀ t, t ≠ unknown → ¬Spells text t.name := by
  constructor
  · intro h t ht hs
    rw [(lookUp_eq_iff htable ht).mpr hs] at h
    exact ht h
  · intro h
    by_contra hne
    exact h _ hne ((lookUp_eq_iff htable hne).mp rfl)

end Table

/-- A text that is empty or too long is the name of no type. -/
theorem ofName_eq_scan (text : String) : ofName text = scan text := by
  unfold ofName
  split
  · next hguard =>
    refine ((lookUp_eq_unknown_iff mem_all_iff).mpr fun t ht hs => ?_).symm
    -- The name passes the guard, and the text has as many bytes.
    have hname := ofName_name t
    have hempty : text.isEmpty = t.name.isEmpty := by
      rw [Bool.eq_iff_iff, String.isEmpty_iff, String.isEmpty_iff,
        ← String.utf8ByteSize_eq_zero_iff, ← String.utf8ByteSize_eq_zero_iff, hs.utf8ByteSize_eq]
    rw [hempty, hs.utf8ByteSize_eq] at hguard
    rw [ofName, if_pos hguard] at hname
    exact ht hname.symm
  · rfl

/-- Looking up undoes naming, up to the case of ASCII letters. A text is read as a type exactly
if it is the name of the type but for the case of letters, which it is of one type at most; all
other texts are read as the unknown type. Neither the length at which texts are no longer compared
nor the order of the names makes a difference. -/
theorem ofName_inverts_name :
    (∀ t, t ≠ unknown → ∀ text, ofName text = t ↔ Spells text t.name) ∧
    (∀ text, ofName text = unknown ↔ ∀ t, t ≠ unknown → ¬Spells text t.name) ∧
    (∀ text t u, t ≠ unknown → u ≠ unknown → Spells text t.name → Spells text u.name → t = u) ∧
    (∀ t, ofName t.name = t) ∧
    (∀ text, ofName text = scan text) ∧
    ∀ table, (∀ t, t ∈ table ↔ t ≠ unknown) → ∀ text, lookUp table text = ofName text := by
  refine ⟨fun t ht text => ?_, fun text => ?_, fun text t u ht hu => eq_of_spells ht hu,
    ofName_name, ofName_eq_scan, fun table htable text => ?_⟩
  · rw [ofName_eq_scan]
    exact lookUp_eq_iff mem_all_iff ht
  · rw [ofName_eq_scan]
    exact lookUp_eq_unknown_iff mem_all_iff
  · rw [ofName_eq_scan, scan_eq_lookUp]
    by_cases h : lookUp all text = unknown
    · rw [h, lookUp_eq_unknown_iff htable]
      exact (lookUp_eq_unknown_iff mem_all_iff).mp h
    · exact (lookUp_eq_iff htable h).mpr ((lookUp_eq_iff mem_all_iff h).mp rfl)

/-- Case does not count, but a long s is no s, and the order of the names may be turned round. -/
theorem ofName_inverts_name_turned :
    ofName "SAMPLER2Dms" = .sampler .float .multisample ∧
      ¬Spells "\u017fampler2D" "sampler2D" ∧
      lookUp all.reverse "Mat2X2" = ofName "Mat2X2" := by
  obtain ⟨hspells, -, -, -, -, htable⟩ := ofName_inverts_name
  have hms : (ShaderType.sampler .float .multisample) ≠ unknown := by decide
  have hplane : (ShaderType.sampler .float .plane) ≠ unknown := by decide
  refine ⟨(hspells _ hms _).mpr (sameLetters_iff.mp (by decide)), ?_, htable _ (fun t => ?_) _⟩
  · intro h
    exact absurd ((hspells _ hplane _).mpr h) (by decide)
  · rw [List.mem_reverse, mem_all_iff]

end RenderPlan.ShaderType
