import Mathlib.Data.List.Infix
import Mathlib.Data.Set.Basic

/-!
# Templates

A template is a text with marks in it, and filling it in puts a value in the place of each mark.
-/

namespace Template

open List Option

variable {α : Type*} {a : α} {s : List α}

/-! ### Replacing one token -/

def replaceFrom [DecidableEq α] (old new : List α) : Nat → List α → List α
  | _, [] => []
  | n + 1, _ :: s => replaceFrom old new n s
  | 0, a :: s =>
      if old.isPrefixOf (a :: s) then new ++ replaceFrom old new (old.length - 1) s
      else a :: replaceFrom old new 0 s

def replaceAll [DecidableEq α] (s old new : List α) : List α := replaceFrom old new 0 s

section Replace

variable [DecidableEq α] {old new : List α}

theorem replaceFrom_skip (block s : List α) :
    replaceFrom old new block.length (block ++ s) = replaceFrom old new 0 s := by
  induction block with
  | nil => rfl
  | cons a block ih => exact ih

theorem replaceFrom_token (hold : old ≠ []) (s : List α) :
    replaceFrom old new 0 (old ++ s) = new ++ replaceFrom old new 0 s := by
  cases old with
  | nil => exact absurd rfl hold
  | cons a rest =>
    have hmatch : ((a :: rest).isPrefixOf (a :: (rest ++ s))) = true :=
      isPrefixOf_iff_prefix.2 ⟨s, rfl⟩
    rw [cons_append, replaceFrom, if_pos hmatch]
    exact congrArg (new ++ ·) (replaceFrom_skip rest s)

theorem replaceFrom_letter (hno : ¬ old <+: a :: s) :
    replaceFrom old new 0 (a :: s) = a :: replaceFrom old new 0 s := by
  rw [replaceFrom, if_neg]
  rw [List.isPrefixOf_iff_prefix]
  exact hno

theorem replaceFrom_block {first : α} {rest block : List α} (hblock : first ∉ block) (s : List α) :
    replaceFrom (first :: rest) new 0 (block ++ s) = block ++ replaceFrom (first :: rest) new 0 s := by
  induction block with
  | nil => rfl
  | cons a block ih =>
    rw [mem_cons, not_or] at hblock
    have hno : ¬ (first :: rest) <+: a :: (block ++ s) := fun hpre =>
      hblock.1 (cons_prefix_cons.1 hpre).1
    rw [cons_append, replaceFrom_letter hno, ih hblock.2, cons_append]

end Replace

/-! ### Templates -/

inductive Piece (α : Type*) where
  | letter (a : α)
  | mark (token : List α)

def Piece.text (values : List α → Option (List α)) : Piece α → List α
  | .letter a => [a]
  | .mark token => (values token).getD token

def render (values : List α → Option (List α)) (pieces : List (Piece α)) : List α :=
  pieces.flatMap (Piece.text values)

def lead : List (Piece α) → List α
  | .letter a :: pieces => a :: lead pieces
  | _ => []

def marked : List (Piece α) → Prop
  | [] => False
  | .letter _ :: pieces => marked pieces
  | .mark _ :: _ => True

structure Tokens (first : α) (tokens : Set (List α)) : Prop where
  starts : ∀ token ∈ tokens, ∃ rest, token = first :: rest ∧ first ∉ rest
  apart : ∀ token ∈ tokens, ∀ other ∈ tokens, token <+: other → token = other

def Clean (tokens : Set (List α)) : List (Piece α) → Prop
  | [] => True
  | .letter a :: pieces =>
      (∀ token ∈ tokens, ¬ token <+: a :: lead pieces ∧ (marked pieces → ¬ a :: lead pieces <+: token)) ∧
        Clean tokens pieces
  | .mark token :: pieces => token ∈ tokens ∧ Clean tokens pieces

section Render

variable {tokens : Set (List α)} {values : List α → Option (List α)}

theorem render_lead (values : List α → Option (List α)) (pieces : List (Piece α)) : ∃ more, render values pieces = lead pieces ++ more ∧
    (¬ marked pieces → more = []) := by
  induction pieces with
  | nil => exact ⟨[], rfl, fun _ => rfl⟩
  | cons piece pieces ih =>
    cases piece with
    | letter a =>
      obtain ⟨more, hrender, hmore⟩ := ih
      exact ⟨more, congrArg (a :: ·) hrender, hmore⟩
    | mark token => exact ⟨_, rfl, fun hno => absurd trivial hno⟩

theorem Clean.no_token {pieces : List (Piece α)} (hclean : Clean tokens (.letter a :: pieces))
    (values : List α → Option (List α)) {token : List α} (htoken : token ∈ tokens) :
    ¬ token <+: a :: render values pieces := by
  intro hpre
  obtain ⟨hinside, hbeyond⟩ := hclean.1 token htoken
  obtain ⟨more, hrender, hmore⟩ := render_lead values pieces
  rw [hrender, ← cons_append] at hpre
  by_cases hmarked : marked pieces
  · rcases prefix_or_prefix_of_prefix hpre (prefix_append _ _) with hle | hle
    · exact hinside hle
    · exact hbeyond hmarked hle
  · rw [hmore hmarked, append_nil] at hpre
    exact hinside hpre

theorem replaceAll_render [DecidableEq α] {first : α} (htokens : Tokens first tokens)
    (hvalues : ∀ token value, values token = some value → first ∉ value) {old : List α} (hold : old ∈ tokens)
    (hnone : values old = none) (new : List α) {pieces : List (Piece α)} (hclean : Clean tokens pieces) :
    replaceAll (render values pieces) old new =
      render (fun token => if token = old then some new else values token) pieces := by
  obtain ⟨rest, hstart, _⟩ := htokens.starts old hold
  have hne : old ≠ [] := by
    rw [hstart]
    exact cons_ne_nil _ _
  induction pieces with
  | nil => rfl
  | cons piece pieces ih =>
    cases piece with
    | letter a =>
      show replaceFrom old new 0 (a :: render values pieces) = a :: render _ pieces
      rw [replaceFrom_letter (hclean.no_token values hold)]
      exact congrArg (a :: ·) (ih hclean.2)
    | mark token =>
      show replaceFrom old new 0 ((values token).getD token ++ render values pieces) =
        (if token = old then some new else values token).getD token ++ render _ pieces
      by_cases htoken : token = old
      · rw [htoken, hnone, getD_none, replaceFrom_token hne, if_pos rfl, getD_some]
        exact congrArg (new ++ ·) (ih hclean.2)
      · rw [if_neg htoken]
        cases hvalue : values token with
        | some value =>
          rw [getD_some]
          have hblock := hvalues token value hvalue
          rw [hstart] at ih ⊢
          rw [replaceFrom_block hblock]
          exact congrArg (value ++ ·) (ih hclean.2)
        | none =>
          -- Another token: the old one does not begin with it, nor inside it.
          rw [getD_none]
          obtain ⟨tail, htail, hfirst⟩ := htokens.starts token hclean.1
          have hno : ¬ old <+: first :: (tail ++ render values pieces) := by
            intro hpre
            rw [← cons_append, ← htail] at hpre
            rcases prefix_or_prefix_of_prefix hpre (prefix_append _ _) with hle | hle
            · exact htoken (htokens.apart old hold token hclean.1 hle).symm
            · exact htoken (htokens.apart token hclean.1 old hold hle)
          rw [htail, cons_append, replaceFrom_letter hno, cons_append]
          rw [hstart] at ih ⊢
          rw [replaceFrom_block hfirst]
          exact congrArg (fun s => first :: (tail ++ s)) (ih hclean.2)

end Render

/-! ### Reading a text as a template -/

def parseFrom (read : List α → Option (List α)) : Nat → List α → List (Piece α)
  | _, [] => []
  | n + 1, _ :: s => parseFrom read n s
  | 0, a :: s => match read (a :: s) with
    | some token => .mark token :: parseFrom read (token.length - 1) s
    | none => .letter a :: parseFrom read 0 s

def parse (read : List α → Option (List α)) (s : List α) : List (Piece α) := parseFrom read 0 s

structure Reads (tokens : Set (List α)) (read : List α → Option (List α)) : Prop where
  found : ∀ s token, read s = some token → token ∈ tokens ∧ token <+: s
  none : ∀ s, read s = none → ∀ token ∈ tokens, ¬ token <+: s

def Detached (tokens : Set (List α)) (s : List α) : Prop :=
  ∀ front token rest, s = front ++ token ++ rest → token ∈ tokens →
    ∀ part, part ≠ [] → part <:+ front → ∀ other ∈ tokens, part <+: other → part = other

section Parse

variable {tokens : Set (List α)} {read : List α → Option (List α)} {first : α}

theorem parseFrom_skip (block s : List α) : parseFrom read block.length (block ++ s) = parse read s := by
  induction block with
  | nil => rfl
  | cons a block ih => exact ih

theorem parse_token (htokens : Tokens first tokens) {token : List α} (hmem : token ∈ tokens)
    (hread : read (token ++ s) = some token) : parse read (token ++ s) = .mark token :: parse read s := by
  obtain ⟨tail, rfl, _⟩ := htokens.starts token hmem
  rw [cons_append] at hread ⊢
  rw [parse, parseFrom, hread]
  exact congrArg (Piece.mark (first :: tail) :: ·) (parseFrom_skip tail s)

theorem parse_letter (hread : read (a :: s) = none) : parse read (a :: s) = .letter a :: parse read s := by
  rw [parse, parseFrom, hread]
  rfl

theorem Detached.of_append (front : List α) (hdetached : Detached tokens (front ++ s)) :
    Detached tokens s := by
  intro before token rest hs htoken part hne hpart other hother hpre
  refine hdetached (front ++ before) token rest ?_ htoken part hne ?_ other hother hpre
  · rw [hs, append_assoc, append_assoc, append_assoc]
  · exact hpart.trans (suffix_append _ _)

variable (htokens : Tokens first tokens) (hreads : Reads tokens read)

include htokens hreads

theorem parse_induction {motive : List α → Prop} (hnil : motive [])
    (htoken : ∀ token s, token ∈ tokens → read (token ++ s) = some token → motive s → motive (token ++ s))
    (hletter : ∀ a s, read (a :: s) = none → motive s → motive (a :: s)) (s : List α) : motive s := by
  induction hlength : s.length using Nat.strong_induction_on generalizing s with
  | _ n ih =>
    subst hlength
    cases s with
    | nil => exact hnil
    | cons a s =>
      cases hread : read (a :: s) with
      | none => exact hletter a s hread (ih s.length (Nat.lt_succ_self _) s rfl)
      | some token =>
        obtain ⟨hmem, rest, hrest⟩ := hreads.found _ token hread
        obtain ⟨tail, htail, _⟩ := htokens.starts token hmem
        have hshort : rest.length < (a :: s).length := by
          rw [← hrest, htail, cons_append, length_cons, length_append]
          omega
        rw [← hrest] at hread ⊢
        exact htoken token rest hmem hread (ih rest.length hshort rest rfl)

theorem render_parse (s : List α) : render (fun _ => none) (parse read s) = s := by
  refine parse_induction htokens hreads (motive := fun s => render (fun _ => none) (parse read s) = s)
    rfl ?_ ?_ s
  · intro token s hmem hread ih
    rw [parse_token htokens hmem hread]
    exact congrArg (token ++ ·) ih
  · intro a s hread ih
    rw [parse_letter hread]
    exact congrArg (a :: ·) ih

theorem lead_parse (s : List α) : lead (parse read s) <+: s := by
  obtain ⟨more, hrender, _⟩ := render_lead (fun _ => none) (parse read s)
  rw [render_parse htokens hreads] at hrender
  exact ⟨more, hrender.symm⟩

theorem marked_parse (s : List α) (hmarked : marked (parse read s)) :
    ∃ token rest, token ∈ tokens ∧ s = lead (parse read s) ++ token ++ rest := by
  revert hmarked
  refine parse_induction htokens hreads (motive := fun s => marked (parse read s) →
    ∃ token rest, token ∈ tokens ∧ s = lead (parse read s) ++ token ++ rest) ?_ ?_ ?_ s
  · intro hmarked
    exact hmarked.elim
  · intro token s hmem hread _ _
    rw [parse_token htokens hmem hread]
    exact ⟨token, s, hmem, rfl⟩
  · intro a s hread ih hmarked
    rw [parse_letter hread] at hmarked ⊢
    obtain ⟨token, rest, hmem, hs⟩ := ih hmarked
    exact ⟨token, rest, hmem, congrArg (a :: ·) hs⟩

theorem clean_parse (hdetached : Detached tokens s) : Clean tokens (parse read s) := by
  revert hdetached
  refine parse_induction htokens hreads (motive := fun s => Detached tokens s → Clean tokens (parse read s))
    ?_ ?_ ?_ s
  · intro _
    exact trivial
  · intro token s hmem hread ih hdetached
    rw [parse_token htokens hmem hread]
    exact ⟨hmem, ih (hdetached.of_append token)⟩
  · intro a s hread ih hdetached
    rw [parse_letter hread]
    refine ⟨fun token hmem => ?_, ih (Detached.of_append [a] hdetached)⟩
    have hinside : ¬ token <+: a :: lead (parse read s) := by
      intro hpre
      refine hreads.none _ hread token hmem (hpre.trans ?_)
      exact cons_prefix_cons.2 ⟨rfl, lead_parse htokens hreads s⟩
    refine ⟨hinside, fun hmarked hpre => ?_⟩
    obtain ⟨next, rest, hnext, hs⟩ := marked_parse htokens hreads s hmarked
    have hpart := hdetached (a :: lead (parse read s)) next rest (congrArg (a :: ·) hs) hnext
      (a :: lead (parse read s)) (cons_ne_nil _ _) suffix_rfl token hmem hpre
    exact hinside (hpart ▸ prefix_rfl)

end Parse

end Template
