import BuildkitService.Lib.Strings

/-!
# Image references

The grammar of image references without a digest, as the `reference` package documents it: a name,
which is a path of lower-case components behind an optional registry, and an optional tag.
-/

open Strings List

namespace Reference

/-! ### Grammar -/

def digit (b : UInt8) : Bool := 0x30 ≤ b && b ≤ 0x39

def lower (b : UInt8) : Bool := 0x61 ≤ b && b ≤ 0x7A

def upper (b : UInt8) : Bool := 0x41 ≤ b && b ≤ 0x5A

def alnum (b : UInt8) : Bool := digit b || lower b || upper b

inductive Progress where
  | start
  | run
  | dot
  | underscore
  | underscores
  | dashes
  deriving DecidableEq

def Progress.next : Progress → UInt8 → Option Progress
  | .run, 0x2E => some .dot
  | .run, 0x5F => some .underscore
  | .run, 0x2D => some .dashes
  | .underscore, 0x5F => some .underscores
  | .dashes, 0x2D => some .dashes
  | _, b => if digit b || lower b then some .run else none

def component (s : Bytes) : Bool := s.foldlM Progress.next .start == some .run

def path (s : Bytes) : Bool := (split 0x2F s).all component

def label (s : Bytes) : Bool :=
  s.all (fun b => alnum b || b == 0x2D) && s.head?.any alnum && s.getLast?.any alnum

def hexOrColon (b : UInt8) : Bool := digit b || (0x61 ≤ b && b ≤ 0x66) || (0x41 ≤ b && b ≤ 0x46) || b == 0x3A

def bracketed (s : Bytes) : Bool :=
  s.head? == some 0x5B && s.getLast? == some 0x5D && 3 ≤ s.length && (s.tail.dropLast).all hexOrColon

def host (s : Bytes) : Bool := (split 0x2E s).all label || bracketed s

def registry (s : Bytes) : Bool :=
  host s ||
    (let port := s.reverse.takeWhile digit
     match s.reverse.dropWhile digit with
      | 0x3A :: rest => !port.isEmpty && host rest.reverse
      | _ => false)

def validName (name : Bytes) : Bool :=
  path name || (match name.dropWhile (· != 0x2F) with
    | _ :: rest => registry (name.takeWhile (· != 0x2F)) && path rest
    | [] => false)

def word (b : UInt8) : Bool := alnum b || b == 0x5F

def validTag : Bytes → Bool
  | [] => false
  | b :: s => word b && s.all (fun b => word b || b == 0x2E || b == 0x2D) && s.length ≤ 127

end Reference

structure Reference where
  name : Bytes
  tag : Option Bytes
  hname : Reference.validName name = true
  htag : ∀ text, tag = some text → Reference.validTag text = true

namespace Reference

def text (ref : Reference) : Bytes :=
  match ref.tag with
  | none => ref.name
  | some tag => ref.name ++ 0x3A :: tag

theorem text_untagged {ref : Reference} (htag : ref.tag = none) : ref.text = ref.name := by
  rw [text, htag]

theorem text_tagged {ref : Reference} {tag : Bytes} (htag : ref.tag = some tag) :
    ref.text = ref.name ++ 0x3A :: tag := by
  rw [text, htag]

/-! ### The characters of a reference -/

def Printable (s : Bytes) : Prop := ∀ b ∈ s, 0x2D ≤ b ∧ b ≤ 0x7A

variable {s : Bytes}

theorem Printable.plain (hs : Printable s) : ∀ b ∈ s, b < 0x80 ∧ asciiSpace b = false := by
  intro b hb
  obtain ⟨hlow, hhigh⟩ := hs b hb
  have hnat := UInt8.le_iff_toNat_le.1 hlow
  refine ⟨UInt8.lt_of_le_of_lt hhigh (by decide), ?_⟩
  simp only [asciiSpace, Bool.or_eq_false_iff, Bool.and_eq_false_imp, decide_eq_true_eq, decide_eq_false_iff_not,
    beq_eq_false_iff_ne]
  refine ⟨fun _ hle => ?_, ?_⟩
  · exact absurd (UInt8.le_iff_toNat_le.1 hle) (by simp at hnat ⊢; omega)
  · rintro rfl
    exact absurd hnat (by decide)

section Characters

variable {b : UInt8}

theorem range_of_digit (hb : digit b = true) : 0x2D ≤ b ∧ b ≤ 0x7A := by
  simp only [digit, Bool.and_eq_true, decide_eq_true_eq] at hb
  exact ⟨UInt8.le_trans (by decide) hb.1, UInt8.le_trans hb.2 (by decide)⟩

theorem range_of_lower (hb : lower b = true) : 0x2D ≤ b ∧ b ≤ 0x7A := by
  simp only [lower, Bool.and_eq_true, decide_eq_true_eq] at hb
  exact ⟨UInt8.le_trans (by decide) hb.1, hb.2⟩

theorem range_of_alnum (hb : alnum b = true) : 0x2D ≤ b ∧ b ≤ 0x7A := by
  simp only [alnum, Bool.or_eq_true] at hb
  rcases hb with (hb | hb) | hb
  · exact range_of_digit hb
  · exact range_of_lower hb
  · simp only [upper, Bool.and_eq_true, decide_eq_true_eq] at hb
    exact ⟨UInt8.le_trans (by decide) hb.1, UInt8.le_trans hb.2 (by decide)⟩

theorem range_of_hexOrColon (hb : hexOrColon b = true) : 0x2D ≤ b ∧ b ≤ 0x7A := by
  simp only [hexOrColon, Bool.or_eq_true, Bool.and_eq_true, decide_eq_true_eq, beq_iff_eq] at hb
  rcases hb with ((hb | hb) | hb) | rfl
  · exact range_of_digit hb
  · exact ⟨UInt8.le_trans (by decide) hb.1, UInt8.le_trans hb.2 (by decide)⟩
  · exact ⟨UInt8.le_trans (by decide) hb.1, UInt8.le_trans hb.2 (by decide)⟩
  · decide

theorem range_of_word (hb : word b = true) : 0x2D ≤ b ∧ b ≤ 0x7A := by
  simp only [word, Bool.or_eq_true, beq_iff_eq] at hb
  rcases hb with hb | rfl
  · exact range_of_alnum hb
  · decide

theorem range_of_next {progress progress' : Progress} (hnext : progress.next b = some progress') :
    0x2D ≤ b ∧ b ≤ 0x7A := by
  unfold Progress.next at hnext
  split at hnext
  · decide
  · decide
  · decide
  · decide
  · decide
  · split at hnext
    · rename_i hb
      rw [Bool.or_eq_true] at hb
      exact hb.elim range_of_digit range_of_lower
    · cases hnext

end Characters

theorem printable_append {t : Bytes} (hs : Printable s) (ht : Printable t) : Printable (s ++ t) := by
  intro b hb
  exact (mem_append.1 hb).elim (hs b) (ht b)

theorem printable_cons {a : UInt8} (ha : 0x2D ≤ a ∧ a ≤ 0x7A) (hs : Printable s) : Printable (a :: s) := by
  intro b hb
  rcases mem_cons.1 hb with rfl | hb
  · exact ha
  · exact hs b hb

theorem printable_of_split (sep : UInt8) (hsep : 0x2D ≤ sep ∧ sep ≤ 0x7A)
    (hpieces : ∀ piece ∈ split sep s, Printable piece) : Printable s := by
  induction s with
  | nil =>
    intro b hb
    cases hb
  | cons a s ih =>
    rw [split] at hpieces
    split at hpieces
    · rename_i ha
      rw [beq_iff_eq] at ha
      exact printable_cons (ha ▸ hsep) (ih fun piece hpiece => hpieces piece (mem_cons_of_mem _ hpiece))
    · split at hpieces
      · rename_i hnil
        have ha := hpieces [a] (by simp) a (by simp)
        exact printable_cons ha (ih (by rw [hnil]; simp))
      · rename_i piece pieces hcons
        have hfirst := hpieces (a :: piece) (by simp)
        refine printable_cons (hfirst a (by simp)) (ih ?_)
        rw [hcons]
        intro other hother
        rcases mem_cons.1 hother with rfl | hother
        · exact fun b hb => hfirst b (by simp [hb])
        · exact hpieces other (by simp [hother])

theorem printable_of_foldlM {progress last : Progress} (hs : s.foldlM Progress.next progress = some last) :
    Printable s := by
  induction s generalizing progress with
  | nil =>
    intro b hb
    cases hb
  | cons a s ih =>
    rw [foldlM_cons] at hs
    obtain ⟨progress', hnext, hrest⟩ := Option.bind_eq_some_iff.1 hs
    exact printable_cons (range_of_next hnext) (ih hrest)

theorem printable_path (hs : path s = true) : Printable s := by
  refine printable_of_split 0x2F (by decide) fun piece hpiece => ?_
  have hcomponent := List.all_eq_true.1 hs piece hpiece
  exact printable_of_foldlM (beq_iff_eq.1 hcomponent)

theorem printable_label (hs : label s = true) : Printable s := by
  intro b hb
  simp only [label, Bool.and_eq_true] at hs
  have halpha := List.all_eq_true.1 hs.1.1 b hb
  rw [Bool.or_eq_true, beq_iff_eq] at halpha
  rcases halpha with halpha | rfl
  · exact range_of_alnum halpha
  · decide

theorem printable_bracketed (hs : bracketed s = true) : Printable s := by
  simp only [bracketed, Bool.and_eq_true, beq_iff_eq] at hs
  obtain ⟨⟨⟨hhead, hlast⟩, _⟩, hall⟩ := hs
  cases s with
  | nil => cases hhead
  | cons a s =>
    cases hhead
    refine printable_cons (by decide) ?_
    rcases eq_nil_or_concat s with rfl | ⟨t, c, rfl⟩
    · intro b hb
      cases hb
    · rw [concat_eq_append] at hlast hall ⊢
      rw [← cons_append, getLast?_concat] at hlast
      cases hlast
      rw [tail_cons, dropLast_concat] at hall
      refine printable_append (fun b hb => range_of_hexOrColon (List.all_eq_true.1 hall b hb)) ?_
      exact printable_cons (by decide) (fun b hb => by cases hb)

theorem printable_host (hs : host s = true) : Printable s := by
  rw [host, Bool.or_eq_true] at hs
  rcases hs with hs | hs
  · exact printable_of_split 0x2E (by decide) fun piece hpiece =>
      printable_label (List.all_eq_true.1 hs piece hpiece)
  · exact printable_bracketed hs

theorem printable_registry (hs : registry s = true) : Printable s := by
  rw [registry, Bool.or_eq_true] at hs
  rcases hs with hs | hs
  · exact printable_host hs
  · have hport : Printable (s.reverse.takeWhile digit) := fun b hb =>
      range_of_digit (mem_takeWhile_imp hb)
    dsimp only at hs
    split at hs
    · rename_i rest hdrop
      rw [Bool.and_eq_true] at hs
      have hrest : Printable rest := fun b hb => printable_host hs.2 b (mem_reverse.2 hb)
      intro b hb
      rw [← mem_reverse, ← takeWhile_append_dropWhile (p := digit) (l := s.reverse), hdrop] at hb
      exact printable_append hport (printable_cons (by decide) hrest) b hb
    · cases hs

theorem printable_name {name : Bytes} (hname : validName name = true) : Printable name := by
  rw [validName, Bool.or_eq_true] at hname
  rcases hname with hname | hname
  · exact printable_path hname
  · split at hname
    · rename_i slash rest hdrop
      rw [Bool.and_eq_true] at hname
      have hslash : slash = 0x2F := by
        have hhead := head?_dropWhile_not (p := fun b => b != 0x2F) name
        rw [hdrop] at hhead
        simpa using hhead
      rw [← takeWhile_append_dropWhile (p := fun b => b != 0x2F) (l := name), hdrop, hslash]
      exact printable_append (printable_registry hname.1) (printable_cons (by decide) (printable_path hname.2))
    · cases hname

theorem printable_tag {tag : Bytes} (htag : validTag tag = true) : Printable tag := by
  cases tag with
  | nil => cases htag
  | cons a tag =>
    simp only [validTag, Bool.and_eq_true] at htag
    refine printable_cons (range_of_word htag.1.1) fun b hb => ?_
    have hall := List.all_eq_true.1 htag.1.2 b hb
    simp only [Bool.or_eq_true, beq_iff_eq] at hall
    rcases hall with (hword | rfl) | rfl
    · exact range_of_word hword
    · decide
    · decide

theorem printable_text (ref : Reference) : Printable ref.text := by
  cases htag : ref.tag with
  | none =>
    rw [text_untagged htag]
    exact printable_name ref.hname
  | some tag =>
    rw [text_tagged htag]
    exact printable_append (printable_name ref.hname)
      (printable_cons (by decide) (printable_tag (ref.htag tag htag)))

theorem trimSpace_text (ref : Reference) : trimSpace ref.text = ref.text :=
  trimSpace_of_plain (printable_text ref).plain

theorem name_ne_nil (ref : Reference) : ref.name ≠ [] := by
  intro hnil
  have hname := ref.hname
  rw [hnil] at hname
  exact absurd hname (by decide)

theorem text_ne_nil (ref : Reference) : ref.text ≠ [] := by
  cases htag : ref.tag with
  | none =>
    rw [text_untagged htag]
    exact ref.name_ne_nil
  | some tag =>
    rw [text_tagged htag]
    simp

def withTag (ref : Reference) (tag : Bytes) (htag : Reference.validTag tag = true) : Reference where
  name := ref.name
  tag := some tag
  hname := ref.hname
  htag := fun _ h => Option.some.inj h ▸ htag

end Reference
