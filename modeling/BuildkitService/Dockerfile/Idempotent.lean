import BuildkitService.Lib.Lines
import BuildkitService.Dockerfile.SecondRun

/-!
# The rewrite is idempotent

What the first run emits is a file of its lines, so the second run reads the lines that were emitted. It
follows the first run and finds nothing to rewrite.
-/

namespace BuildkitService.Dockerfile

open Strings List

variable {fe : Frontend} {lines : List Bytes}

/-! ### The lines of the output -/

theorem splitDockerfileLines_last {s : Bytes} (hne : s ≠ []) (hs : 0x0A ∉ s) : splitDockerfileLines s = [s] := by
  rw [splitDockerfileLines, splitAfter_plain hs, if_neg (by simpa using hne)]
  dsimp only
  rw [if_neg (by simpa using hne)]

theorem splitDockerfileLines_line {line : Bytes} (hline : Lines.IsLine 0x0A line) (t : Bytes) :
    splitDockerfileLines (line ++ t) = line :: splitDockerfileLines t := by
  obtain ⟨s, rfl, hs⟩ := hline
  have hne : (s ++ [0x0A] ++ t).isEmpty = false := by simp
  rw [splitDockerfileLines, hne, append_assoc, singleton_append, splitAfter_line hs]
  rw [splitDockerfileLines]
  cases t with
  | nil => rfl
  | cons b t =>
    obtain ⟨piece, pieces, hpieces⟩ : ∃ piece pieces, splitAfter 0x0A (b :: t) = piece :: pieces := by
      refine exists_cons_of_ne_nil fun hnil => ?_
      have hflat := splitAfter_flatten 0x0A (b :: t)
      rw [hnil] at hflat
      cases hflat
    rw [hpieces]
    dsimp only [isEmpty_cons]
    rw [if_neg Bool.false_ne_true, if_neg Bool.false_ne_true, getLast?_cons_cons, dropLast_cons_cons]
    split_ifs <;> rfl

theorem splitDockerfileLines_of_file (hfile : Lines.IsFile 0x0A lines) :
    splitDockerfileLines lines.flatten = lines := by
  induction hfile with
  | nil => rfl
  | last hne hs => rw [flatten_singleton, splitDockerfileLines_last hne hs]
  | cons hline _ ih => rw [flatten_cons, splitDockerfileLines_line hline, ih]

theorem splitDockerfileLines_file (raw : Bytes) : Lines.IsFile 0x0A (splitDockerfileLines raw) := by
  induction hlen : raw.length using Nat.strong_induction_on generalizing raw with
  | _ n ih =>
    by_cases hmem : 0x0A ∈ raw
    · obtain ⟨s, t, rfl, hs⟩ := eq_append_cons_of_mem hmem
      have hline : Lines.IsLine 0x0A (s ++ [0x0A]) := ⟨s, rfl, hs⟩
      have hsplit := splitDockerfileLines_line hline t
      rw [append_assoc, singleton_append] at hsplit
      rw [hsplit]
      refine .cons hline (ih t.length ?_ t rfl)
      rw [← hlen, length_append, length_cons]
      omega
    · by_cases hne : raw = []
      · subst hne
        exact .nil
      · rw [splitDockerfileLines_last hne hmem]
        exact .last hne hmem

theorem trimRight_newline (hfile : Lines.IsFile 0x0A lines) :
    ∀ line ∈ lines, 0x0A ∉ trimRight line (ascii "\r\n") := by
  induction lines with
  | nil => exact fun _ hline => absurd hline not_mem_nil
  | cons first lines ih =>
    intro line hline hmem
    rcases mem_cons.1 hline with rfl | hlater
    · have hfront : trimRight line (ascii "\r\n") <+: line := rdropWhile_prefix _ _
      rcases hfile.head with ⟨s, rfl, hs⟩ | ⟨_, _, hplain⟩
      · have hcut : trimRight (s ++ [0x0A]) (ascii "\r\n") = trimRight s (ascii "\r\n") :=
          rdropWhile_concat_pos _ _ _ (by decide)
        rw [hcut] at hmem
        exact hs ((List.rdropWhile_prefix _ _).subset hmem)
      · exact hplain (hfront.subset hmem)
    · exact ih hfile.tail line hlater hmem

theorem joinHeader_newline {escape : UInt8} {start : Nat} {rest : List Bytes} {stop : Nat} {header : Bytes}
    (hrest : ∀ line ∈ rest, 0x0A ∉ trimRight line (ascii "\r\n")) (hheader : 0x0A ∉ header) :
    0x0A ∉ (joinHeader escape start rest stop header).1 := by
  induction rest generalizing stop header with
  | nil => exact hheader
  | cons raw rest ih =>
    obtain ⟨hraw, hlater⟩ := forall_mem_cons.1 hrest
    rw [joinHeader]
    dsimp only
    split_ifs
    · exact hraw
    · exact ih hlater hheader
    · refine ih hlater fun hmem => ?_
      rcases mem_append.1 hmem with hmem | hmem
      · exact hheader hmem
      · exact hraw ((List.rdropWhile_prefix _ _).subset (dropLast_subset _ hmem))
    · intro hmem
      rcases mem_append.1 hmem with hmem | hmem
      · exact hheader hmem
      · exact hraw hmem

theorem splitInstruction_subset {plain instruction command : Bytes}
    (hsplit : splitInstruction plain = (instruction, command)) : command ⊆ plain := by
  rw [splitInstruction] at hsplit
  split at hsplit
  · rw [← (Prod.mk.inj hsplit).2]
    intro b hb
    exact (trimSpace_isInfix plain).subset (mem_of_mem_drop ((trimSpace_isInfix _).subset hb))
  · rw [← (Prod.mk.inj hsplit).2]
    exact nil_subset _

theorem copyHeader_line {start stop : Nat} {spec : LegacyHeredocSpec} (hfile : Lines.IsFile 0x0A lines)
    (hlegacy : IsLegacyHeader lines start stop spec) : Lines.IsLine 0x0A (copyHeader spec) := by
  obtain ⟨escape, plain, command, hheader, hsplit, _, hparse⟩ := hlegacy
  obtain ⟨d, hline⟩ := legacyLine_of_parse hparse
  have hplain : 0x0A ∉ (instructionHeader lines start escape).1 :=
    joinHeader_newline (trimRight_newline (hfile.drop start)) not_mem_nil
  rw [hheader] at hplain
  have htarget : 0x0A ∉ spec.target := by
    intro hmem
    have hcommand := (trimSpace_isInfix command).subset (hline.catCommand.target_subset hmem)
    exact hplain (splitInstruction_subset hsplit hcommand)
  refine ⟨spec.indent ++ (copyOpening d ++ (0x20 :: spec.target)), ?_, ?_⟩
  · rw [copyHeader_eq hline.token]
    simp only [append_assoc, cons_append]
    rfl
  · rw [copyOpening]
    simp only [mem_append, mem_cons, not_or]
    refine ⟨fun hmem => ?_, ⟨by decide, fun hmem => ?_⟩, by decide, htarget⟩
    · cases hline.indent _ hmem
    · cases (d.solid hmem).space

theorem replaceRanges_file (hfile : Lines.IsFile 0x0A lines) (rws : List Rewrite) {pos : Nat}
    (hplaced : Placed lines.length pos rws)
    (hheaders : ∀ rw ∈ rws, IsLegacyHeader lines rw.start rw.stop rw.spec) :
    Lines.IsFile 0x0A (replaceRanges lines lines.length pos rws) := by
  induction rws generalizing pos with
  | nil =>
    rw [replaceRanges, slice, take_length]
    exact hfile.drop pos
  | cons rw rws ih =>
    obtain ⟨hpos, hrange, hrest⟩ := hplaced
    obtain ⟨hfirst, hlater⟩ := forall_mem_cons.1 hheaders
    have hfront := hfile.drop pos
    rw [drop_slice lines hpos] at hfront
    rw [replaceRanges, append_assoc, singleton_append]
    refine hfront.append (.cons (copyHeader_line hfile hfirst) (ih hrest hlater)) fun hnil => ?_
    have hle := hrest.le
    rw [drop_eq_nil_iff] at hnil
    omega

/-! ### The preprocessor on its own output -/

theorem heredocSpans_text (docs : List Heredoc) {idx : Nat} {spans : List Span} (hidx : idx < lines.length)
    (hspans : heredocSpans lines idx docs = (spans, none)) :
    (spans.map (Span.text lines)).flatMap Prod.snd = slice lines (idx + 1) (lastLine idx spans + 1) := by
  induction docs generalizing idx spans with
  | nil =>
    obtain rfl := (Prod.mk.inj hspans).1
    rw [lastLine, slice, drop_eq_nil_of_le (by rw [length_take]; exact Nat.min_le_left _ _)]
    rfl
  | cons doc docs ih =>
    rw [heredocSpans] at hspans
    cases hfind : findHeredocEnd lines (idx + 1) doc.name doc.chomp with
    | none =>
      rw [hfind] at hspans
      cases (Prod.mk.inj hspans).2
    | some stop =>
      rw [hfind] at hspans
      rcases hrest : heredocSpans lines stop docs with ⟨later, missing⟩
      simp only [hrest] at hspans
      obtain ⟨rfl, rfl⟩ := Prod.mk.inj hspans
      have hbounds := findHeredocEnd_bounds hfind
      have hbehind := (heredocSpans_bounds lines docs hbounds.2).1
      rw [hrest] at hbehind
      rw [map_cons, flatMap_cons, ih hbounds.2 hrest, lastLine_cons]
      exact slice_append (by dsimp only; omega) (by dsimp only at hbehind ⊢; omega)

theorem collect_lines {final : LoopState fe} (fuel : Nat) {st : LoopState fe}
    (hfuel : lines.length ≤ st.idx + fuel) (hloop : loop fe lines fuel st = .ok final) :
    (collect fe (instructionOpened fe lines) lines fuel st).flatMap Opened.lines = lines.drop st.idx := by
  induction fuel generalizing st with
  | zero =>
    rw [Nat.add_zero] at hfuel
    rw [drop_eq_nil_of_le hfuel, collect, flatMap_nil]
  | succ fuel ih =>
    rw [loop] at hloop
    rw [collect]
    split_ifs at hloop ⊢ with hidx
    · cases hadvance : advance fe lines st with
      | error e =>
        rw [hadvance] at hloop
        cases hloop
      | ok next =>
        rw [hadvance] at hloop
        have hmoves := advance_moves fe hidx hadvance
        have hlater := ih (by omega) hloop
        obtain ⟨directives, escape, header, spans, hheader, _, hspans, rfl⟩ := advance_spec fe hadvance
        obtain ⟨hstart, hbehind, hstop⟩ := iteration_bounds hidx hheader hspans
        have hhere : (instructionOpened fe lines st).flatMap Opened.lines =
            slice lines st.idx (lastLine header.headerEnd spans + 1) := by
          rw [instructionOpened, hheader]
          simp only [openedSpans_of_closed lines header.docs hspans, flatMap_singleton, Opened.lines]
          rw [heredocSpans_text header.docs (by omega) hspans]
          exact slice_append (by omega) (by omega)
        rw [flatMap_append, hhere]
        dsimp only at hlater ⊢
        rw [hlater]
        exact (drop_slice lines (by omega)).symm
    · rw [drop_eq_nil_of_le (Nat.not_lt.1 hidx), flatMap_nil]

/-! ### Parsers of this kind -/

def operator : Bytes → Bool × Bytes
  | 0x2D :: rest => (true, rest)
  | rest => (false, rest)

def firstHeredoc (command : Bytes) : List HeredocRedirect × Option Bytes :=
  match command.dropWhile (· != 0x3C) with
  | 0x3C :: 0x3C :: rest =>
      let (dash, rest) := operator rest
      let pos := command.length - (rest.dropWhile isBlank).length
      ([⟨dash, pos, pos + ((rest.dropWhile isBlank).takeWhile (!isBlank ·)).length⟩],
        some (ascii "unclosed here-document"))
  | _ => ([], none)

def tokenHeredoc : Bytes → Option Heredoc
  | 0x3C :: 0x3C :: rest =>
      let (dash, rest) := operator rest
      some ⟨rest.filter fun b => !isBlank b && !isQuote b, dash⟩
  | _ => none

def wordFrontend : Frontend where
  Directives := Unit
  newDirectives := ()
  parseLine := fun _ _ => ((), .ok none)
  jsonValid := fun s => hasPrefix s (ascii "[")
  parsesAsJSON := fun _ => false
  shellRedirects := firstHeredoc
  parseHeredoc := fun token => .ok (tokenHeredoc token)
  processWords := fun command => .ok (split 0x20 command)

theorem Delimiter.word_ends (d : Delimiter) (s : Bytes) :
    (∀ b ∈ d.word, isBlank b = false) ∧ ∃ b t, d.word ++ s = b :: t ∧ isBlank b = false ∧ b ≠ 0x2D := by
  have hblank : ∀ b ∈ d.word, isBlank b = false := by
    intro b hb
    have hsolid : Solid b := by
      refine d.solid ?_
      rw [opening, token]
      exact mem_append_right _ (mem_append_right _ hb)
    rw [Bool.eq_false_iff]
    intro hblank
    have hspace := asciiSpace_of_isBlank hblank
    rw [hsolid.space] at hspace
    cases hspace
  refine ⟨hblank, ?_⟩
  obtain ⟨b, rest, hname, hstart, _⟩ := d.name_plain
  rcases d.quote_mem with hquote | hquote | hquote
  · rw [word, hquote, hname, nil_append]
    refine ⟨b, rest ++ [] ++ s, rfl, hblank b ?_, ?_⟩
    · rw [word, hquote, hname]
      exact mem_append_left _ mem_cons_self
    · rintro rfl
      cases hstart
  · rw [word, hquote]
    exact ⟨0x27, _, rfl, by decide, by decide⟩
  · rw [word, hquote]
    exact ⟨0x22, _, rfl, by decide, by decide⟩

theorem operator_mark (d : Delimiter) {before : Bytes} (hbefore : ∀ b ∈ before, isBlank b = true) (s : Bytes) :
    operator (d.mark ++ (before ++ (d.word ++ s))) = (d.dash, before ++ (d.word ++ s)) := by
  rw [Delimiter.mark]
  cases d.dash with
  | true => rfl
  | false =>
    have hfirst : ∃ b t, before ++ (d.word ++ s) = b :: t ∧ b ≠ 0x2D := by
      cases before with
      | nil =>
        obtain ⟨b, t, hword, _, hdash⟩ := (d.word_ends s).2
        exact ⟨b, t, hword, hdash⟩
      | cons b before =>
        refine ⟨b, before ++ (d.word ++ s), rfl, ?_⟩
        rintro rfl
        cases hbefore _ mem_cons_self
    obtain ⟨b, t, htext, hdash⟩ := hfirst
    show operator (before ++ (d.word ++ s)) = _
    rw [htext, operator]
    intro rest hrest
    exact hdash (List.cons.inj hrest).1

theorem CatCommand.at_operator {d : Delimiter} {target command : Bytes} (hcommand : CatCommand d target command)
    (htarget : containsAny target shellCharacters = false) :
    ∃ front before behind, command = front ++ (ascii "<<" ++ (d.mark ++ (before ++ (d.word ++ behind)))) ∧
      (∀ b ∈ front, (b != 0x3C) = true) ∧ (∀ b ∈ before, isBlank b = true) ∧
      (behind = [] ∨ ∃ b t, behind = b :: t ∧ isBlank b = true) := by
  have hblank : ∀ {b : UInt8}, isBlank b = true → (b != 0x3C) = true := by
    intro b hb
    rw [bne_iff_ne]
    rintro rfl
    cases hb
  cases hcommand with
  | @redirectFirst g₁ g₂ g₃ before after hg₁ hg₂ hg₃ hbefore hafter =>
    refine ⟨ascii "cat" ++ (g₁ ++ (ascii ">" ++ (g₂ ++ (target ++ g₃)))), before, after, ?_, ?_, hbefore, ?_⟩
    · simp only [append_assoc]
    · intro b hb
      simp only [mem_append] at hb
      rcases hb with hb | hb | hb | hb | hb | hb
      · exact (by decide +kernel : ∀ b ∈ ascii "cat", (b != 0x3C) = true) b hb
      · exact hblank (hg₁.2 b hb)
      · exact (by decide +kernel : ∀ b ∈ ascii ">", (b != 0x3C) = true) b hb
      · exact hblank (hg₂.2 b hb)
      · rw [bne_iff_ne]
        rintro rfl
        rw [containsAny, List.any_eq_false] at htarget
        exact htarget _ hb (by decide)
      · exact hblank (hg₃.2 b hb)
    · cases after with
      | nil => exact .inl rfl
      | cons b t => exact .inr ⟨b, t, rfl, hafter b mem_cons_self⟩
  | @heredocFirst g₁ g₂ g₃ before after hg₁ hg₂ hg₃ hbefore hafter =>
    obtain ⟨b, t, rfl⟩ := exists_cons_of_ne_nil hg₂.1
    refine ⟨ascii "cat" ++ g₁, before, b :: t ++ (ascii ">" ++ (g₃ ++ (target ++ after))), ?_, ?_, hbefore, ?_⟩
    · simp only [append_assoc]
    · intro b hb
      rcases mem_append.1 hb with hb | hb
      · exact (by decide +kernel : ∀ b ∈ ascii "cat", (b != 0x3C) = true) b hb
      · exact hblank (hg₁.2 b hb)
    · exact .inr ⟨b, _, rfl, hg₂.2 b mem_cons_self⟩

theorem firstHeredoc_cat (d : Delimiter) (target command : Bytes) (hcommand : CatCommand d target command)
    (htarget : containsAny target shellCharacters = false) : ∃ redirect err,
      firstHeredoc command = ([redirect], err) ∧ redirect.dash = d.dash ∧
      (command.take redirect.wordEnd).drop redirect.wordPos = d.word := by
  obtain ⟨front, before, behind, rfl, hfront, hbefore, hbehind⟩ := hcommand.at_operator htarget
  set text := front ++ (ascii "<<" ++ (d.mark ++ (before ++ (d.word ++ behind)))) with htext
  have hdrop : text.dropWhile (· != 0x3C) = 0x3C :: 0x3C :: (d.mark ++ (before ++ (d.word ++ behind))) := by
    rw [htext, dropWhile_append_of_pos hfront]
    rfl
  have hgap : (before ++ (d.word ++ behind)).dropWhile isBlank = d.word ++ behind := by
    obtain ⟨b, t, hword, hb, _⟩ := (d.word_ends behind).2
    rw [dropWhile_append_of_pos hbefore, hword, dropWhile_cons_of_neg (by rw [hb]; exact Bool.false_ne_true)]
  have hword : (d.word ++ behind).takeWhile (!isBlank ·) = d.word := by
    have hsolid : ∀ b ∈ d.word, (!isBlank b) = true := fun b hb => by rw [(d.word_ends behind).1 b hb]; rfl
    rcases hbehind with rfl | ⟨b, t, rfl, hb⟩
    · rw [append_nil]
      exact takeWhile_eq_self_iff.2 hsolid
    · exact takeWhile_of_split hsolid (by rw [hb]; rfl)
  set lead := front ++ (ascii "<<" ++ (d.mark ++ before)) with hlead
  have hsplit : text = lead ++ (d.word ++ behind) := by
    rw [htext, hlead]
    simp only [append_assoc]
  have hpos : text.length - (d.word ++ behind).length = lead.length := by
    rw [hsplit, length_append, Nat.add_sub_cancel]
  refine ⟨⟨d.dash, lead.length, lead.length + d.word.length⟩, some (ascii "unclosed here-document"), ?_, rfl, ?_⟩
  · rw [firstHeredoc, hdrop]
    simp only [operator_mark d hbefore behind, hgap, hword, hpos]
  · dsimp only
    rw [hsplit, drop_take, drop_left, Nat.add_sub_cancel_left, take_left]

theorem filter_word (d : Delimiter) : d.word.filter (fun b => !isBlank b && !isQuote b) = d.name := by
  have hname : d.name.filter (fun b => !isBlank b && !isQuote b) = d.name := by
    rw [filter_eq_self]
    intro b hb
    have hpart : isNamePart b = true := by
      obtain ⟨first, rest, hname, hstart, hparts⟩ := d.name_plain
      rw [hname, mem_cons] at hb
      rcases hb with rfl | hb
      · rw [isNamePart, hstart, Bool.true_or]
      · exact hparts b hb
    have hblank : isBlank b = false := by
      rw [Bool.eq_false_iff]
      intro hblank
      have hspace := asciiSpace_of_isBlank hblank
      rw [(solid_of_namePart hpart).space] at hspace
      cases hspace
    have hquote : isQuote b = false := by
      rw [isQuote, Bool.or_eq_false_iff, beq_eq_false_iff_ne, beq_eq_false_iff_ne]
      constructor
      · rintro rfl
        cases hpart
      · rintro rfl
        cases hpart
    rw [hblank, hquote]
    rfl
  rcases d.quote_mem with hquote | hquote | hquote
  · rw [Delimiter.word, hquote, nil_append, append_nil, hname]
  · rw [Delimiter.word, hquote, filter_append, filter_append, hname]
    exact append_nil _
  · rw [Delimiter.word, hquote, filter_append, filter_append, hname]
    exact append_nil _

theorem tokenHeredoc_word (d : Delimiter) {before : Bytes} (hbefore : ∀ b ∈ before, isBlank b = true) :
    tokenHeredoc (ascii "<<" ++ (d.mark ++ (before ++ d.word))) = some d.heredoc := by
  have hoperator := operator_mark d hbefore []
  rw [append_nil] at hoperator
  have hgap : before.filter (fun b => !isBlank b && !isQuote b) = [] := by
    rw [filter_eq_nil_iff]
    intro b hb
    rw [hbefore b hb]
    exact Bool.false_ne_true
  have hname : (before ++ d.word).filter (fun b => !isBlank b && !isQuote b) = d.name := by
    rw [filter_append, hgap, filter_word, nil_append]
  have hbrackets : ascii "<<" ++ (d.mark ++ (before ++ d.word)) = 0x3C :: 0x3C :: (d.mark ++ (before ++ d.word)) := rfl
  rw [hbrackets, tokenHeredoc]
  simp only [hoperator, hname]
  rfl

theorem wordFrontend_documented : wordFrontend.Documented where
  directives := fun _ _ _ _ _ => rfl
  json := by
    rintro b s (rfl | rfl)
    · rfl
    · rfl
  shell := fun d target command hcommand htarget => .inr (firstHeredoc_cat d target command hcommand htarget)
  words := by
    intro d rest hrest _
    have hspace : 0x20 ∉ d.opening := fun hmem => by cases (d.solid hmem).space
    rcases hrest with rfl | ⟨t, rfl⟩
    · refine ⟨[], ?_, fun _ hword => absurd hword not_mem_nil⟩
      show Except.ok (split 0x20 (d.opening ++ [])) = _
      rw [append_nil, split_self hspace]
    · refine ⟨split 0x20 t, ?_, fun word hword => subset_cons_of_subset _ (subset_of_mem_split hword)⟩
      show Except.ok (split 0x20 (d.opening ++ 0x20 :: t)) = _
      rw [split_append, split_self hspace, singleton_append]
  heredoc := by
    intro d
    have hblank : ∀ b ∈ ([] : Bytes), isBlank b = true := fun _ hb => absurd hb not_mem_nil
    exact congrArg Except.ok (tokenHeredoc_word d hblank)
  spaced := by
    intro d
    have hblank : ∀ b ∈ ascii " ", isBlank b = true := by decide +kernel
    have htoken := tokenHeredoc_word d hblank
    rw [← append_assoc, ← append_assoc] at htoken
    exact congrArg Except.ok htoken
  other := by
    intro word hword
    have hnone : tokenHeredoc word = none := by
      rw [tokenHeredoc]
      rintro rest rfl
      exact hword mem_cons_self
    exact congrArg Except.ok hnone

end BuildkitService.Dockerfile
