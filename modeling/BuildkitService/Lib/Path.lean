import BuildkitService.Lib.Strings

/-!
# Lexical paths

`Clean`, `Join`, `Dir` and `Base` of Go's `path` and `path/filepath` packages, for slash-separated
paths.
-/

namespace Path

open Strings List

def slash : UInt8 := 0x2F

def dot : Bytes := ascii "."

def dotdot : Bytes := ascii ".."

def rooted (p : Bytes) : Bool := p.head? == some slash

def pop (root : Bool) : List Bytes → List Bytes
  | [] => if root then [] else [dotdot]
  | top :: below => if top = dotdot then dotdot :: top :: below else below

def push (root : Bool) (below : List Bytes) (part : Bytes) : List Bytes :=
  if part = [] ∨ part = dot then below
  else if part = dotdot then pop root below
  else part :: below

def stack (root : Bool) (parts : List Bytes) : List Bytes := parts.foldl (push root) []

def components (p : Bytes) : List Bytes := (stack (rooted p) (split slash p)).reverse

def render (root : Bool) (comps : List Bytes) : Bytes :=
  if root then slash :: [slash].intercalate comps
  else if comps.isEmpty then dot
  else [slash].intercalate comps

def clean (p : Bytes) : Bytes := render (rooted p) (components p)

def join (p q : Bytes) : Bytes :=
  if p.isEmpty then (if q.isEmpty then [] else clean q) else clean (p ++ slash :: q)

def dir (p : Bytes) : Bytes := clean (p.rdropWhile (· != slash))

def plain (name : Bytes) : Bool := !name.isEmpty && name != dot && name != dotdot && !name.contains slash

def base (p : Bytes) : Bytes :=
  if p.isEmpty then dot
  else
    let last := (p.rdropWhile (· == slash)).rtakeWhile (· != slash)
    if last.isEmpty then [slash] else last

/-! ### Splitting -/

variable {comps : List Bytes} {name : Bytes}

theorem split_intercalate (hne : comps ≠ []) (hslash : ∀ c ∈ comps, slash ∉ c) :
    split slash ([slash].intercalate comps) = comps := by
  induction comps with
  | nil => exact absurd rfl hne
  | cons c comps ih =>
    cases comps with
    | nil =>
      rw [intercalate_singleton]
      exact split_self (hslash c mem_cons_self)
    | cons d comps =>
      rw [intercalate_cons_cons, append_assoc, singleton_append, split_append,
        split_self (hslash c mem_cons_self), singleton_append,
        ih (cons_ne_nil _ _) (fun e he => hslash e (mem_cons_of_mem _ he))]

/-! ### Clean stacks -/

structure Part (part : Bytes) : Prop where
  ne_nil : part ≠ []
  ne_dot : part ≠ dot
  no_slash : slash ∉ part

theorem plain_iff : plain name = true ↔ Part name ∧ name ≠ dotdot := by
  rw [plain]
  simp only [Bool.and_eq_true, Bool.not_eq_true', isEmpty_eq_false_iff, bne_iff_ne, contains_eq_mem,
    decide_eq_false_iff_not]
  constructor
  · rintro ⟨⟨⟨hne, hdot⟩, hdotdot⟩, hslash⟩
    exact ⟨⟨hne, hdot, hslash⟩, hdotdot⟩
  · rintro ⟨⟨hne, hdot, hslash⟩, hdotdot⟩
    exact ⟨⟨⟨hne, hdot⟩, hdotdot⟩, hslash⟩

variable {root : Bool} {parts : List Bytes} {c : Bytes}

theorem push_part {part : Bytes} (hpart : Part part) (hname : part ≠ dotdot) (below : List Bytes) :
    push root below part = part :: below := by
  rw [push, if_neg (not_or.2 ⟨hpart.ne_nil, hpart.ne_dot⟩), if_neg hname]

structure Settled (root : Bool) (below : List Bytes) : Prop where
  parts : ∀ part ∈ below, Part part
  again : stack root below.reverse = below

theorem part_dotdot : Part dotdot := ⟨by decide, by decide, by decide⟩

theorem settled_push {below : List Bytes} (hsettled : Settled root below) {part : Bytes} (hslash : slash ∉ part) :
    Settled root (push root below part) := by
  -- A component that is pushed on top is pushed again.
  have hgrows : ∀ {part : Bytes}, Part part → push root below part = part :: below →
      Settled root (part :: below) := by
    intro part hpart hpush
    refine ⟨?_, ?_⟩
    · intro q hq
      rcases mem_cons.1 hq with rfl | hq
      · exact hpart
      · exact hsettled.parts q hq
    · rw [stack, reverse_cons, foldl_append, foldl_cons, foldl_nil]
      have hagain := hsettled.again
      rw [stack] at hagain
      rw [hagain, hpush]
  by_cases hskip : part = [] ∨ part = dot
  · rw [push, if_pos hskip]
    exact hsettled
  · rw [not_or] at hskip
    have hpart : Part part := ⟨hskip.1, hskip.2, hslash⟩
    by_cases hname : part = dotdot
    · subst hname
      cases below with
      | nil =>
        cases root with
        | true => exact hsettled
        | false => exact hgrows part_dotdot rfl
      | cons top below =>
        have hpush : push root (top :: below) dotdot = pop root (top :: below) := by
          rw [push, if_neg (not_or.2 hskip), if_pos rfl]
        by_cases htop : top = dotdot
        · rw [pop, if_pos htop] at hpush
          rw [hpush]
          exact hgrows part_dotdot hpush
        · -- The name on top was pushed on what is below it.
          rw [pop, if_neg htop] at hpush
          rw [hpush]
          refine ⟨fun q hq => hsettled.parts q (mem_cons_of_mem _ hq), ?_⟩
          have hagain := hsettled.again
          rw [stack, reverse_cons, foldl_append, foldl_cons, foldl_nil,
            push_part (hsettled.parts top mem_cons_self) htop] at hagain
          exact (List.cons.inj hagain).2
    · have hpush : push root below part = part :: below := push_part hpart hname below
      rw [hpush]
      exact hgrows hpart hpush

theorem settled_stack (hslash : ∀ part ∈ parts, slash ∉ part) : Settled root (stack root parts) := by
  have hfold : ∀ {below : List Bytes}, Settled root below → Settled root (parts.foldl (push root) below) := by
    induction parts with
    | nil => exact fun hsettled => hsettled
    | cons part parts ih =>
      intro below hsettled
      exact ih (fun q hq => hslash q (mem_cons_of_mem _ hq))
        (settled_push hsettled (hslash part mem_cons_self))
  exact hfold ⟨fun part hpart => absurd hpart not_mem_nil, rfl⟩

theorem settled_components (p : Bytes) : Settled (rooted p) (components p).reverse := by
  rw [components, reverse_reverse]
  exact settled_stack fun part hpart => sep_not_mem_of_mem_split hpart

/-! ### Rendering -/

theorem rooted_intercalate (hparts : ∀ part ∈ comps, Part part) (hne : comps ≠ []) :
    rooted ([slash].intercalate comps) = false := by
  obtain ⟨c, rest, rfl⟩ := exists_cons_of_ne_nil hne
  have hc := hparts c mem_cons_self
  obtain ⟨a, c, rfl⟩ := exists_cons_of_ne_nil hc.ne_nil
  have ha : a ≠ slash := by
    rintro rfl
    exact hc.no_slash mem_cons_self
  have hhead : ([slash].intercalate ((a :: c) :: rest)).head? = some a := by
    cases rest with
    | nil => rw [intercalate_singleton, head?_cons]
    | cons d rest => rw [intercalate_cons_cons, append_assoc, cons_append, head?_cons]
  rw [rooted, hhead]
  simpa using ha

theorem components_render (hsettled : Settled root comps.reverse) :
    components (render root comps) = comps ∧ rooted (render root comps) = root := by
  have hagain := hsettled.again
  rw [reverse_reverse] at hagain
  have hparts : ∀ part ∈ comps, Part part := fun part hpart => hsettled.parts part (mem_reverse.2 hpart)
  have hslash : ∀ part ∈ comps, slash ∉ part := fun part hpart => (hparts part hpart).no_slash
  cases root with
  | true =>
    have hroot : rooted (render true comps) = true := rfl
    refine ⟨?_, hroot⟩
    have hsplit : split slash (render true comps) = [] :: split slash ([slash].intercalate comps) := rfl
    rw [components, hroot, hsplit]
    show (stack true (split slash ([slash].intercalate comps))).reverse = comps
    by_cases hne : comps = []
    · subst hne
      rfl
    · rw [split_intercalate hne hslash, hagain, reverse_reverse]
  | false =>
    by_cases hne : comps = []
    · subst hne
      exact ⟨rfl, rfl⟩
    · have htext : render false comps = [slash].intercalate comps := by
        rw [render, if_neg (by decide), if_neg (mt List.isEmpty_iff.1 hne)]
      have hroot := rooted_intercalate hparts hne
      rw [htext, components, hroot, split_intercalate hne hslash, hagain, reverse_reverse]
      exact ⟨rfl, rfl⟩

theorem components_clean (p : Bytes) : components (clean p) = components p :=
  (components_render (settled_components p)).1

theorem rooted_clean (p : Bytes) : rooted (clean p) = rooted p :=
  (components_render (settled_components p)).2

theorem clean_clean (p : Bytes) : clean (clean p) = clean p := by
  rw [clean, components_clean, rooted_clean]
  rfl

theorem intercalate_append {front back : List Bytes} (hfront : front ≠ []) (hback : back ≠ []) :
    [slash].intercalate (front ++ back) = [slash].intercalate front ++ slash :: [slash].intercalate back := by
  induction front with
  | nil => exact absurd rfl hfront
  | cons c front ih =>
    cases front with
    | nil =>
      obtain ⟨d, back, rfl⟩ := exists_cons_of_ne_nil hback
      rw [singleton_append, intercalate_cons_cons, intercalate_singleton, append_assoc,
        singleton_append]
    | cons d front =>
      rw [cons_append, cons_append, intercalate_cons_cons, intercalate_cons_cons,
        ← cons_append, ih (cons_ne_nil _ _), append_assoc, append_assoc, append_assoc]

theorem render_append {front back : List Bytes} (hfront : front ≠ []) (hback : back ≠ []) :
    render root (front ++ back) = render root front ++ slash :: [slash].intercalate back := by
  have hne : front ++ back ≠ [] := by simp [hfront]
  rw [render, render, intercalate_append hfront hback, if_neg (mt List.isEmpty_iff.1 hne),
    if_neg (mt List.isEmpty_iff.1 hfront)]
  split_ifs with hroot
  · rw [cons_append]
  · rfl

/-! ### Staying below -/

theorem dotdot_mem_push {below : List Bytes} (hmem : dotdot ∈ below) (part : Bytes) :
    dotdot ∈ push false below part := by
  rw [push]
  split_ifs with hskip hname
  · exact hmem
  · cases below with
    | nil => exact absurd hmem not_mem_nil
    | cons top below =>
      rw [pop]
      split_ifs with htop
      · exact mem_cons_self
      · rcases mem_cons.1 hmem with heq | hbelow
        · exact absurd heq.symm htop
        · exact hbelow
  · exact mem_cons_of_mem _ hmem

theorem dotdot_mem_foldl {below : List Bytes} (hmem : dotdot ∈ below) (parts : List Bytes) :
    dotdot ∈ parts.foldl (push false) below := by
  induction parts generalizing below with
  | nil => exact hmem
  | cons part parts ih => exact ih (dotdot_mem_push hmem part)

theorem foldl_push_under (root : Bool) {above : List Bytes} (base : List Bytes)
    (hnone : dotdot ∉ parts.foldl (push false) above) :
    parts.foldl (push root) (above ++ base) = parts.foldl (push false) above ++ base := by
  induction parts generalizing above with
  | nil => rfl
  | cons part parts ih =>
    rw [foldl_cons] at hnone
    have hpush : push root (above ++ base) part = push false above part ++ base := by
      have hnot : dotdot ∉ push false above part := fun hmem => hnone (dotdot_mem_foldl hmem parts)
      rw [push] at hnot
      rw [push, push]
      split_ifs with hskip hname
      · rfl
      · rw [if_neg hskip, if_pos hname] at hnot
        cases above with
        | nil => exact absurd (mem_singleton.2 rfl) hnot
        | cons top above =>
          rw [pop] at hnot
          rw [cons_append, pop, pop]
          split_ifs with htop
          · rw [if_pos htop] at hnot
            exact absurd mem_cons_self hnot
          · rfl
      · rfl
    rw [foldl_cons, foldl_cons, hpush]
    exact ih hnone

structure Inside (name : Bytes) : Prop where
  relative : rooted name = false
  ne_nil : components name ≠ []
  below : dotdot ∉ components name

theorem Inside.components_join (hinside : Inside name) (dst : Bytes) :
    components (join dst name) = components dst ++ components name ∧ rooted (join dst name) = rooted dst := by
  have hname : name ≠ [] := by
    rintro rfl
    exact hinside.ne_nil rfl
  rw [join]
  by_cases hdst : dst = []
  · subst hdst
    rw [if_pos (show ([] : Bytes).isEmpty = true from rfl), if_neg (mt List.isEmpty_iff.1 hname), components_clean, rooted_clean, hinside.relative]
    exact ⟨rfl, rfl⟩
  · have hroot : rooted (dst ++ slash :: name) = rooted dst := by
      obtain ⟨a, dst, rfl⟩ := exists_cons_of_ne_nil hdst
      rfl
    rw [if_neg (mt List.isEmpty_iff.1 hdst), components_clean, rooted_clean, hroot]
    refine ⟨?_, rfl⟩
    have hbelow := hinside.below
    rw [components, hinside.relative, mem_reverse, stack] at hbelow
    have hunder := foldl_push_under (rooted dst) (stack (rooted dst) (split slash dst)) hbelow
    rw [nil_append] at hunder
    rw [components, hroot, split_append, stack, foldl_append]
    rw [stack] at hunder
    rw [hunder, reverse_append, components, components, hinside.relative]
    rfl

theorem dotdot_first (hrel : rooted name = false) (hmem : dotdot ∈ components name) :
    ∃ rest, components name = dotdot :: rest := by
  have hlast : ∀ (parts below : List Bytes), (dotdot ∈ below → below.getLast? = some dotdot) →
      dotdot ∈ parts.foldl (push false) below → (parts.foldl (push false) below).getLast? = some dotdot := by
    intro parts
    induction parts with
    | nil => exact fun below hbelow => hbelow
    | cons part parts ih =>
      intro below hbelow
      refine ih (push false below part) ?_
      intro hpushed
      rw [push] at hpushed ⊢
      split_ifs at hpushed ⊢ with hskip hname
      · exact hbelow hpushed
      · cases below with
        | nil => rfl
        | cons top below =>
          rw [pop] at hpushed ⊢
          split_ifs at hpushed ⊢ with htop
          · rw [getLast?_cons_cons]
            exact hbelow (by rw [htop]; exact mem_cons_self)
          · have hold := hbelow (mem_cons_of_mem _ hpushed)
            obtain ⟨next, below, rfl⟩ := exists_cons_of_ne_nil (ne_nil_of_mem hpushed)
            rw [getLast?_cons_cons] at hold
            exact hold
      · rcases mem_cons.1 hpushed with heq | hold
        · exact absurd heq.symm hname
        · obtain ⟨next, below, rfl⟩ := exists_cons_of_ne_nil (ne_nil_of_mem hold)
          rw [getLast?_cons_cons]
          exact hbelow hold
  rw [components, hrel, mem_reverse] at hmem
  have hend := hlast (split slash name) [] (fun hnil => absurd hnil not_mem_nil) hmem
  have hhead : (components name).head? = some dotdot := by
    rw [components, hrel, head?_reverse]
    exact hend
  cases hcomps : components name with
  | nil =>
    rw [hcomps] at hhead
    cases hhead
  | cons first rest =>
    rw [hcomps, head?_cons, Option.some.injEq] at hhead
    exact ⟨rest, by rw [hhead]⟩

theorem rooted_eq_hasPrefix (p : Bytes) : rooted p = hasPrefix p (ascii "/") := by
  cases p with
  | nil => rfl
  | cons b p =>
    have hascii : ascii "/" = [slash] := by decide
    rw [hascii, hasPrefix, rooted, head?_cons, isPrefixOf_cons_cons, isPrefixOf_nil_left, Bool.and_true]
    show (some b == some slash) = (slash == b)
    rw [Option.some_beq_some, Bool.beq_comm]

theorem inside_of_clean (hrel : rooted name = false) (hdot : clean name ≠ dot) (hup : clean name ≠ dotdot)
    (hpre : hasPrefix (clean name) (ascii "../") = false) : Inside name where
  relative := hrel
  ne_nil := by
    intro hnil
    rw [clean, hrel, hnil] at hdot
    exact hdot rfl
  below := by
    intro hmem
    obtain ⟨rest, hrest⟩ := dotdot_first hrel hmem
    rw [clean, hrel, hrest] at hup hpre
    cases rest with
    | nil => exact hup rfl
    | cons next rest => cases hpre

section

variable (hinside : Inside name)

include hinside

theorem Inside.clean_of_join (dst : Bytes) : clean (join dst name) = join dst name := by
  have hname : name ≠ [] := by
    rintro rfl
    exact hinside.ne_nil rfl
  rw [join]
  split_ifs with hempty hnil
  · exact absurd (List.isEmpty_iff.1 hnil) hname
  · exact clean_clean name
  · exact clean_clean _

theorem Inside.join_eq (dst : Bytes) :
    join dst name = render (rooted dst) (components dst ++ components name) := by
  have hcomps := hinside.components_join dst
  rw [← hinside.clean_of_join dst, clean, hcomps.1, hcomps.2]

theorem Inside.clean_join {dst : Bytes} (hdst : components dst ≠ []) :
    join dst name = clean dst ++ slash :: [slash].intercalate (components name) := by
  rw [hinside.join_eq dst, render_append hdst hinside.ne_nil]
  rfl

theorem Inside.hasPrefix_join_iff (dst : Bytes) :
    hasPrefix (join dst name) (clean dst ++ ascii "/") = true ↔ components dst ≠ [] := by
  have hascii : ascii "/" = [slash] := by decide
  have hparts : ∀ part ∈ components name, Part part :=
    fun part hpart => (settled_components name).parts part (mem_reverse.2 hpart)
  have hsplit := split_intercalate hinside.ne_nil fun part hpart => (hparts part hpart).no_slash
  rw [hasPrefix, isPrefixOf_iff_prefix, hascii]
  constructor
  · intro hpre hnil
    rw [hinside.join_eq dst, clean, hnil, nil_append] at hpre
    obtain ⟨rest, hrest⟩ := hpre
    cases hroot : rooted dst with
    | true =>
      -- a slash after the root: the first name would be empty
      rw [hroot] at hrest
      have htext : [slash].intercalate (components name) = [] ++ slash :: rest := (cons.inj hrest).2.symm
      rw [htext, split_append, split_self not_mem_nil] at hsplit
      exact (hparts [] (hsplit ▸ mem_cons_self)).ne_nil rfl
    | false =>
      -- a dot and a slash: the first name would be a dot
      have hrender : render false (components name) = [slash].intercalate (components name) := by
        rw [render, if_neg (by decide), if_neg (by simpa using hinside.ne_nil)]
      have hdot : render false [] = dot := rfl
      rw [hroot, hrender, hdot] at hrest
      rw [← hrest, append_assoc, singleton_append, split_append, split_self (by decide)] at hsplit
      exact (hparts dot (hsplit ▸ mem_cons_self)).ne_dot rfl
  · intro hdst
    rw [hinside.clean_join hdst]
    exact ⟨[slash].intercalate (components name), by simp⟩

end

theorem components_part {part : Bytes} (hpart : Part part) (hname : part ≠ dotdot) : components part = [part] := by
  rw [components, split_self hpart.no_slash, stack, foldl_cons, foldl_nil, push_part hpart hname]
  rfl

theorem inside_part {part : Bytes} (hpart : Part part) (hname : part ≠ dotdot) : Inside part where
  relative := by
    cases part with
    | nil => rfl
    | cons b part =>
      have hb : b ≠ slash := by
        rintro rfl
        exact hpart.no_slash mem_cons_self
      rw [rooted, head?_cons]
      simpa using hb
  ne_nil := by
    rw [components_part hpart hname]
    exact cons_ne_nil _ _
  below := by
    rw [components_part hpart hname, mem_singleton]
    exact hname.symm

theorem mem_render {part : Bytes} {b : UInt8} (hpart : part ∈ comps) (hb : b ∈ part) :
    b ∈ render root comps := by
  have hinter : b ∈ [slash].intercalate comps := by
    induction comps with
    | nil => cases hpart
    | cons c comps ih =>
      cases comps with
      | nil =>
        rw [mem_singleton] at hpart
        rw [intercalate_singleton, ← hpart]
        exact hb
      | cons d comps =>
        rw [intercalate_cons_cons]
        rcases mem_cons.1 hpart with rfl | hlater
        · exact mem_append_left _ (mem_append_left _ hb)
        · exact mem_append_right _ (ih hlater)
  have hne : ¬ comps.isEmpty = true := by
    rw [List.isEmpty_iff]
    rintro rfl
    cases hpart
  rw [render, if_neg hne]
  split_ifs
  · exact mem_cons_of_mem _ hinter
  · exact hinter

theorem clean_of_components_nil {p : Bytes} (hp : components p = []) : clean p = dot ∨ clean p = [slash] := by
  rw [clean, hp]
  cases rooted p with
  | true => exact .inr rfl
  | false => exact .inl rfl

theorem Inside.part {part : Bytes} (hinside : Inside name) (hpart : part ∈ components name) :
    Part part ∧ part ≠ dotdot := by
  refine ⟨(settled_components name).parts part (mem_reverse.2 hpart), ?_⟩
  rintro rfl
  exact hinside.below hpart

theorem Inside.clean (hinside : Inside name) : Inside (clean name) where
  relative := by rw [rooted_clean, hinside.relative]
  ne_nil := by
    rw [components_clean]
    exact hinside.ne_nil
  below := by
    rw [components_clean]
    exact hinside.below

/-! ### Directories -/

theorem components_append_slash (p : Bytes) (hp : p ≠ []) :
    components (p ++ [slash]) = components p ∧ rooted (p ++ [slash]) = rooted p := by
  have hroot : rooted (p ++ [slash]) = rooted p := by
    obtain ⟨a, p, rfl⟩ := exists_cons_of_ne_nil hp
    rfl
  refine ⟨?_, hroot⟩
  rw [components, hroot, split_append, stack, foldl_append]
  rfl

theorem rdropWhile_slash (hc : slash ∉ c) (front : Bytes) :
    (front ++ slash :: c).rdropWhile (· != slash) = front ++ [slash] := by
  have hall : ∀ a ∈ c.reverse, (a != slash) = true := by
    intro a ha
    rw [bne_iff_ne]
    rintro rfl
    exact hc (mem_reverse.1 ha)
  have hdrop : (c.reverse ++ slash :: front.reverse).dropWhile (· != slash) = slash :: front.reverse := by
    rw [dropWhile_append_of_pos hall, dropWhile_cons_of_neg (by simp)]
  rw [rdropWhile, reverse_append, reverse_cons, append_assoc, singleton_append, hdrop,
    reverse_cons, reverse_reverse]

theorem render_ne_nil (root : Bool) (hparts : ∀ part ∈ comps, Part part) : render root comps ≠ [] := by
  rw [render]
  split_ifs with hroot hempty
  · exact cons_ne_nil _ _
  · decide
  · obtain ⟨c, rest, rfl⟩ := exists_cons_of_ne_nil (mt List.isEmpty_iff.2 hempty)
    have hc := (hparts c mem_cons_self).ne_nil
    cases rest with
    | nil =>
      rw [intercalate_singleton]
      exact hc
    | cons d rest =>
      rw [intercalate_cons_cons, append_assoc]
      exact append_ne_nil_of_left_ne_nil hc _

theorem clean_ne_nil (p : Bytes) : clean p ≠ [] :=
  render_ne_nil _ fun part hpart => (settled_components p).parts part (mem_reverse.2 hpart)

theorem Settled.below (hsettled : Settled root (comps ++ [c]).reverse) (hname : c ≠ dotdot) :
    Settled root comps.reverse := by
  rw [reverse_append, reverse_singleton, singleton_append] at hsettled
  refine ⟨fun part hpart => hsettled.parts part (mem_cons_of_mem _ hpart), ?_⟩
  have hagain := hsettled.again
  rw [stack, reverse_cons, foldl_append, foldl_cons, foldl_nil,
    push_part (hsettled.parts c mem_cons_self) hname] at hagain
  exact (cons.inj hagain).2

theorem components_dir (hsettled : Settled root (comps ++ [c]).reverse) (hname : c ≠ dotdot) :
    components (dir (render root (comps ++ [c]))) = comps ∧ rooted (dir (render root (comps ++ [c]))) = root := by
  have hc : slash ∉ c := (hsettled.parts c (by simp)).no_slash
  have hbelow := hsettled.below hname
  rw [dir, components_clean, rooted_clean]
  by_cases hcomps : comps = []
  · subst hcomps
    cases root with
    | true =>
      have htext : render true ([] ++ [c]) = [] ++ slash :: c := by
        rw [nil_append, render, if_pos rfl, intercalate_singleton, nil_append]
      rw [htext, rdropWhile_slash hc]
      exact ⟨rfl, rfl⟩
    | false =>
      have htext : (render false ([] ++ [c])).rdropWhile (· != slash) = [] := by
        rw [nil_append, render, if_neg (by decide), if_neg (by simp), intercalate_singleton,
          rdropWhile_eq_nil_iff]
        intro a ha
        rw [bne_iff_ne]
        rintro rfl
        exact hc ha
      rw [htext]
      exact ⟨rfl, rfl⟩
  · rw [render_append hcomps (cons_ne_nil _ _), intercalate_singleton, rdropWhile_slash hc]
    have hrender := components_render hbelow
    have hne : render root comps ≠ [] :=
      render_ne_nil root fun part hpart => hbelow.parts part (mem_reverse.2 hpart)
    have hslash := components_append_slash (render root comps) hne
    exact ⟨hslash.1.trans hrender.1, hslash.2.trans hrender.2⟩

theorem Inside.components_dir (hinside : Inside name) (dst : Bytes) :
    components (dir (join dst name)) = components dst ++ (components name).dropLast ∧
      rooted (dir (join dst name)) = rooted dst := by
  have hlast : (components name).dropLast ++ [(components name).getLast hinside.ne_nil] = components name :=
    dropLast_append_getLast hinside.ne_nil
  have hsettled := settled_components (join dst name)
  rw [(hinside.components_join dst).1, (hinside.components_join dst).2, ← hlast, ← append_assoc] at hsettled
  have hname := (hinside.part (getLast_mem hinside.ne_nil)).2
  have hdir := Path.components_dir hsettled hname
  rw [append_assoc, hlast] at hdir
  rw [hinside.join_eq dst]
  exact hdir

end Path
