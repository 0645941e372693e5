import BuildkitService.Dockerfile.Frame

/-!
# Dockerfiles without heredocs

A Dockerfile in which the parsers find no heredoc is a sequence of headers, each starting behind the
one before it.
-/

namespace BuildkitService.Dockerfile

open Strings List Option

variable (fe : Frontend) {headerEnd start : Nat} {onbuild : Bool} {escape : UInt8} {st : LoopState fe}

/-! ### Reading a file without heredocs -/

def headersFrom (lines : List Bytes) : Nat → Nat → UInt8 → fe.Directives → Option (List Bytes)
  | 0, _, _, _ => some []
  | fuel + 1, idx, escape, directives =>
      if idx < lines.length then
        match fe.parseLine directives (trimSpace (lines.getD idx [])) with
        | (_, .error _) => none
        | (directives, .ok directive) =>
            let escape := updateEscape escape directive
            let (plain, headerEnd) := instructionHeader lines idx escape
            (headersFrom lines fuel (headerEnd + 1) escape directives).map fun plains => plain :: plains
      else some []

def headers (raw : Bytes) : Option (List Bytes) :=
  let lines := splitDockerfileLines raw
  headersFrom fe lines lines.length 0 0x5C fe.newDirectives

structure HeredocFree (plain : Bytes) : Prop where
  run : ∀ command onbuild, effectiveInstruction plain = (ascii "RUN", command, onbuild) →
    fe.shellRedirects command = ([], none)
  words : ∀ instruction command onbuild, effectiveInstruction plain = (instruction, command, onbuild) →
    instruction = ascii "COPY" ∨ instruction = ascii "ADD" →
      ∃ words, fe.processWords command = .ok words ∧ ∀ word ∈ words, fe.parseHeredoc word = .ok none

def Unmatched (plain : Bytes) : Prop :=
  ∀ command onbuild, effectiveInstruction plain = (ascii "RUN", command, onbuild) →
    LinearRegex.matchItems false runCatAppendHeredocPattern (normalize plain (ascii "RUN") command) = none ∧
      ∃ spec, parseLegacyCatHeredoc (normalize plain (ascii "RUN") command) 0 = .ok spec ∧
        spec.filter (rewritable onbuild) = none

/-! ### One header -/

theorem instructionHeredocs_free {command : Bytes} (hfree : fe.shellRedirects command = ([], none)) :
    instructionHeredocs fe command = .ok [] := by
  rw [instructionHeredocs]
  split_ifs
  · rfl
  · rw [hfree]
    rfl

theorem parseWords_free {words : List Bytes} (hfree : ∀ word ∈ words, fe.parseHeredoc word = .ok none) :
    parseWords fe words = .ok [] := by
  induction words with
  | nil => rfl
  | cons word words ih =>
    rw [parseWords, hfree word mem_cons_self]
    exact ih fun later hlater => hfree later (mem_cons_of_mem _ hlater)

theorem dockerfileHeredocs_free {command : Bytes} {words : List Bytes} (hwords : fe.processWords command = .ok words)
    (hfree : ∀ word ∈ words, fe.parseHeredoc word = .ok none) : dockerfileHeredocs fe command = .ok [] := by
  rw [dockerfileHeredocs]
  split_ifs
  · rfl
  · rw [hwords]
    exact parseWords_free fe hfree

theorem parseLegacyCatHeredoc_line {line : Bytes} {lineNumber : Nat} {spec : Option LegacyHeredocSpec}
    (hparse : parseLegacyCatHeredoc line lineNumber = .ok spec) (lineNumber' : Nat) :
    parseLegacyCatHeredoc line lineNumber' = .ok spec := by
  unfold parseLegacyCatHeredoc at hparse ⊢
  split at hparse
  · split_ifs at hparse ⊢
    exact hparse
  · split at hparse
    · split_ifs at hparse ⊢
      exact hparse
    · exact hparse

section Keywords

variable {plain instruction command : Bytes} (hkeyword : instruction = ascii "COPY" ∨ instruction = ascii "ADD")

include hkeyword

theorem match_other {toEnd captured : Bool} {items : List LinearRegex.Item}
    (hitems : ∃ rest, items = ⟨isBlank, .star, captured⟩ :: ⟨fun a => a == 0x52, .once, false⟩ :: rest) :
    LinearRegex.matchItems toEnd items (normalize plain instruction command) = none := by
  cases hmatch : LinearRegex.matchItems toEnd items (normalize plain instruction command) with
  | none => rfl
  | some groups =>
    obtain ⟨_, _, _, hline⟩ := match_runCat hitems hmatch
    obtain ⟨rfl, _⟩ := keyword_run (.inr hkeyword) hline
    exact absurd hkeyword (by decide)

theorem parseLegacyCatHeredoc_other (lineNumber : Nat) :
    parseLegacyCatHeredoc (normalize plain instruction command) lineNumber = .ok none := by
  have hredirect : LinearRegex.matchItems true runCatRedirectHeredocPattern (normalize plain instruction command) = none :=
    match_other hkeyword ⟨_, rfl⟩
  have hheredoc : LinearRegex.matchItems true runCatHeredocRedirectPattern (normalize plain instruction command) = none :=
    match_other hkeyword ⟨_, rfl⟩
  rw [parseLegacyCatHeredoc, hredirect, hheredoc]

theorem readCommand_other {docs : List Heredoc} (hdocs : dockerfileHeredocs fe command = .ok docs) :
    readCommand fe start headerEnd plain instruction command onbuild = .ok ⟨headerEnd, docs, none⟩ := by
  have happend : LinearRegex.matchItems false runCatAppendHeredocPattern (normalize plain instruction command) = none :=
    match_other hkeyword ⟨_, rfl⟩
  have hrun : instruction ≠ ascii "RUN" := by
    rintro rfl
    exact absurd hkeyword (by decide)
  rw [readCommand, happend, parseLegacyCatHeredoc_other hkeyword, if_neg hrun, hdocs]
  cases docs with
  | nil => rfl
  | cons doc docs =>
    have hsupported : ¬ (instruction = ascii "RUN" ∧ (none : Option LegacyHeredocSpec).filter (rewritable onbuild) = none ∧
        nativeRunHeredoc fe command = false) := fun hunsupported => hrun hunsupported.1
    exact if_neg hsupported

end Keywords

theorem readCommand_run_free {plain command : Bytes} (hfree : fe.shellRedirects command = ([], none)) :
    readCommand fe start headerEnd plain (ascii "RUN") command onbuild =
      if (LinearRegex.matchItems false runCatAppendHeredocPattern (normalize plain (ascii "RUN") command)).isSome then
        .error (unsupportedAppend start)
      else (parseLegacyCatHeredoc (normalize plain (ascii "RUN") command) (start + 1)).map fun spec =>
        ⟨headerEnd, [], spec.filter (rewritable onbuild)⟩ := by
  rw [readCommand, if_pos rfl, instructionHeredocs_free fe hfree]
  split_ifs
  · rfl
  · cases parseLegacyCatHeredoc (normalize plain (ascii "RUN") command) (start + 1) with
    | error | ok => rfl

theorem readHeader_eq {lines : List Bytes} {plain instruction command : Bytes}
    (hheader : instructionHeader lines start escape = (plain, headerEnd))
    (heffective : effectiveInstruction plain = (instruction, command, onbuild)) :
    readHeader fe lines start escape =
      if instruction ≠ ascii "RUN" ∧ instruction ≠ ascii "COPY" ∧ instruction ≠ ascii "ADD" then
        .ok ⟨headerEnd, [], none⟩
      else readCommand fe start headerEnd plain instruction command onbuild := by
  simp only [readHeader, hheader, heffective]

theorem readHeader_free {lines : List Bytes} {plain : Bytes}
    (hheader : instructionHeader lines start escape = (plain, headerEnd)) (hfree : HeredocFree fe plain) :
    (Unmatched plain → readHeader fe lines start escape = .ok ⟨headerEnd, [], none⟩) ∧
      ∀ header, readHeader fe lines start escape = .ok header →
        header.headerEnd = headerEnd ∧ header.docs = [] ∧ (header.rewrite = none → Unmatched plain) := by
  rcases heffective : effectiveInstruction plain with ⟨instruction, command, onbuild⟩
  have hread := readHeader_eq fe hheader heffective
  by_cases hrun : instruction = ascii "RUN"
  · subst hrun
    rw [if_neg fun hother => hother.1 rfl, readCommand_run_free fe (hfree.run command onbuild heffective)] at hread
    rw [hread]
    constructor
    · intro hunmatched
      obtain ⟨happend, spec, hparse, hfilter⟩ := hunmatched command onbuild heffective
      rw [happend, parseLegacyCatHeredoc_line hparse (start + 1)]
      show Except.ok (Header.mk headerEnd [] (spec.filter (rewritable onbuild))) = _
      rw [hfilter]
    · intro header hok
      split_ifs at hok with happend
      cases hparse : parseLegacyCatHeredoc (normalize plain (ascii "RUN") command) (start + 1) with
      | error e =>
        rw [hparse] at hok
        cases hok
      | ok spec =>
        rw [hparse] at hok
        rw [← Except.ok.inj hok]
        refine ⟨rfl, rfl, ?_⟩
        intro hfilter command' onbuild' heffective'
        rw [heffective] at heffective'
        obtain ⟨rfl, rfl⟩ := Prod.mk.inj (Prod.mk.inj heffective').2
        rw [not_isSome_iff_eq_none] at happend
        exact ⟨happend, spec, parseLegacyCatHeredoc_line hparse 0, hfilter⟩
  · have hunmatched : Unmatched plain := by
      intro command' onbuild' heffective'
      rw [heffective] at heffective'
      exact absurd (Prod.mk.inj heffective').1 hrun
    have hplain : readHeader fe lines start escape = .ok ⟨headerEnd, [], none⟩ := by
      rw [hread]
      split_ifs with hother
      · rfl
      · have hkeyword : instruction = ascii "COPY" ∨ instruction = ascii "ADD" := by tauto
        obtain ⟨words, hwords, hnone⟩ := hfree.words instruction command onbuild heffective hkeyword
        exact readCommand_other fe hkeyword (dockerfileHeredocs_free fe hwords hnone)
    refine ⟨fun _ => hplain, ?_⟩
    intro header hok
    rw [hplain] at hok
    rw [← Except.ok.inj hok]
    exact ⟨rfl, rfl, fun _ => hunmatched⟩

/-! ### The loop -/

theorem advance_free {lines : List Bytes} {directives : fe.Directives} {directive : Option Directive}
    {plain : Bytes}
    (hparse : fe.parseLine st.directives (trimSpace (lines.getD st.idx [])) = (directives, .ok directive))
    (hheader : instructionHeader lines st.idx (updateEscape st.escape directive) = (plain, headerEnd))
    (hfree : HeredocFree fe plain) : (Unmatched plain → ∃ out, advance fe lines st =
        .ok ⟨headerEnd + 1, out, st.changed, updateEscape st.escape directive, directives⟩) ∧
      ∀ st', advance fe lines st = .ok st' → st'.idx = headerEnd + 1 ∧
        st'.escape = updateEscape st.escape directive ∧ st'.directives = directives ∧
        (st'.changed = false → st.changed = false ∧ Unmatched plain) := by
  obtain ⟨hpass, hinverse⟩ := readHeader_free fe hheader hfree
  constructor
  · intro hunmatched
    have hread : directiveHeader fe lines st =
        .ok (directives, updateEscape st.escape directive, ⟨headerEnd, [], none⟩) := by
      simp only [directiveHeader, hparse, hpass hunmatched]
    refine ⟨st.out ++ slice lines st.idx (headerEnd + 1), ?_⟩
    rw [advance, hread]
    simp only [heredocSpans, lastLine, emit, getLast?_nil, isSome_none, Bool.or_false]
  · intro st' hadvance
    obtain ⟨directives', escape, header, spans, hdirective, hread, hspans, rfl⟩ := advance_spec fe hadvance
    obtain ⟨⟨directive', hparse', rfl⟩, _⟩ := directiveHeader_ok fe hdirective
    rw [hparse] at hparse'
    obtain ⟨rfl, hsame⟩ := Prod.mk.inj hparse'
    rw [← Except.ok.inj hsame] at hread ⊢
    obtain ⟨hend, hdocs, hrewrite⟩ := hinverse header hread
    rw [hdocs] at hspans
    rw [← (Prod.mk.inj hspans).1, ← hend]
    refine ⟨rfl, rfl, rfl, ?_⟩
    intro hchanged
    obtain ⟨hbefore, hnone⟩ := Bool.or_eq_false_iff.1 hchanged
    exact ⟨hbefore, hrewrite (isSome_eq_false_iff.1 hnone |> isNone_iff_eq_none.1)⟩

theorem headersFrom_cons {lines : List Bytes} {fuel idx : Nat} {directives : fe.Directives}
    {plains : List Bytes} (hidx : idx < lines.length)
    (hread : headersFrom fe lines (fuel + 1) idx escape directives = some plains) :
    ∃ directives' directive plain headerEnd rest,
      fe.parseLine directives (trimSpace (lines.getD idx [])) = (directives', .ok directive) ∧
      instructionHeader lines idx (updateEscape escape directive) = (plain, headerEnd) ∧
      headersFrom fe lines fuel (headerEnd + 1) (updateEscape escape directive) directives' = some rest ∧
      plains = plain :: rest := by
  rw [headersFrom, if_pos hidx] at hread
  rcases hparse : fe.parseLine directives (trimSpace (lines.getD idx [])) with ⟨directives', parsed⟩
  rw [hparse] at hread
  cases parsed with
  | error e => cases hread
  | ok directive =>
    obtain ⟨rest, hrest, rfl⟩ := map_eq_some_iff.1 hread
    exact ⟨directives', directive, _, _, rest, rfl, rfl, hrest, rfl⟩

section Loop

variable {lines plains : List Bytes}

theorem loop_unmatched (fuel : Nat)
    (hread : headersFrom fe lines fuel st.idx st.escape st.directives = some plains)
    (hfree : ∀ plain ∈ plains, HeredocFree fe plain) (hunmatched : ∀ plain ∈ plains, Unmatched plain) :
    ∃ st', loop fe lines fuel st = .ok st' ∧ st'.changed = st.changed := by
  induction fuel generalizing st plains with
  | zero => exact ⟨st, rfl, rfl⟩
  | succ fuel ih =>
    rw [loop]
    by_cases hidx : st.idx < lines.length
    · obtain ⟨directives, directive, plain, headerEnd, rest, hparse, hheader, hrest, rfl⟩ :=
        headersFrom_cons fe hidx hread
      obtain ⟨hhere, hlater⟩ := forall_mem_cons.1 hfree
      obtain ⟨hnow, hnext⟩ := forall_mem_cons.1 hunmatched
      obtain ⟨out, hadvance⟩ := (advance_free fe hparse hheader hhere).1 hnow
      rw [if_pos hidx, hadvance]
      exact ih hrest hlater hnext
    · rw [if_neg hidx]
      exact ⟨st, rfl, rfl⟩

theorem unmatched_of_loop (fuel : Nat) {st' : LoopState fe}
    (hread : headersFrom fe lines fuel st.idx st.escape st.directives = some plains)
    (hfree : ∀ plain ∈ plains, HeredocFree fe plain) (hloop : loop fe lines fuel st = .ok st')
    (hchanged : st'.changed = false) : st.changed = false ∧ ∀ plain ∈ plains, Unmatched plain := by
  induction fuel generalizing st plains with
  | zero =>
    rw [← Except.ok.inj hloop] at hchanged
    rw [← Option.some.inj hread]
    exact ⟨hchanged, nofun⟩
  | succ fuel ih =>
    rw [loop] at hloop
    by_cases hidx : st.idx < lines.length
    · obtain ⟨directives, directive, plain, headerEnd, rest, hparse, hheader, hrest, rfl⟩ :=
        headersFrom_cons fe hidx hread
      obtain ⟨hhere, hlater⟩ := forall_mem_cons.1 hfree
      rw [if_pos hidx] at hloop
      cases hadvance : advance fe lines st with
      | error e =>
        rw [hadvance] at hloop
        cases hloop
      | ok next =>
        rw [hadvance] at hloop
        obtain ⟨hnextIdx, hescape, hdirectives, hinverse⟩ := (advance_free fe hparse hheader hhere).2 next hadvance
        rw [← hnextIdx, ← hescape, ← hdirectives] at hrest
        obtain ⟨hnext, hrestUnmatched⟩ := ih hrest hlater hloop
        obtain ⟨hbefore, hnow⟩ := hinverse hnext
        exact ⟨hbefore, forall_mem_cons.2 ⟨hnow, hrestUnmatched⟩⟩
    · rw [if_neg hidx] at hloop
      rw [headersFrom, if_neg hidx] at hread
      rw [← Except.ok.inj hloop] at hchanged
      rw [← Option.some.inj hread]
      exact ⟨hchanged, nofun⟩

end Loop

/-- Without heredocs, a file passes unless a pattern matches. -/
theorem transform_passes_iff {raw : Bytes} {plains : List Bytes} (hread : headers fe raw = some plains)
    (hfree : ∀ plain ∈ plains, HeredocFree fe plain) :
    transformLegacyHeredocs fe raw = .ok (raw, false) ↔ ∀ plain ∈ plains, Unmatched plain := by
  have hstart : headersFrom fe (splitDockerfileLines raw) (splitDockerfileLines raw).length (initial fe).idx
      (initial fe).escape (initial fe).directives = some plains := hread
  rw [transformLegacyHeredocs]
  constructor
  · intro hok
    cases hloop : loop fe (splitDockerfileLines raw) (splitDockerfileLines raw).length (initial fe) with
    | error e =>
      rw [hloop] at hok
      cases hok
    | ok st =>
      rw [hloop] at hok
      dsimp only at hok
      split_ifs at hok with hchanged
      · cases hok
      · exact (unmatched_of_loop fe _ hstart hfree hloop (Bool.not_eq_true _ ▸ hchanged)).2
  · intro hunmatched
    obtain ⟨st, hloop, hchanged⟩ := loop_unmatched fe _ hstart hfree hunmatched
    rw [hloop]
    dsimp only
    rw [hchanged]
    rfl

def plainFrontend : Frontend where
  Directives := Unit
  newDirectives := ()
  parseLine := fun _ _ => ((), .ok none)
  jsonValid := fun _ => false
  parsesAsJSON := fun _ => false
  shellRedirects := fun _ => ([], none)
  parseHeredoc := fun token =>
    .ok (if hasPrefix token (ascii "<<") then some ⟨token.drop 2, false⟩ else none)
  processWords := fun command => .ok (split 0x20 command)

def freeOfHeredocWords (plain : Bytes) : Bool :=
  let (instruction, command, _) := effectiveInstruction plain
  !(instruction == ascii "COPY" || instruction == ascii "ADD") ||
    (split 0x20 command).all fun word => !hasPrefix word (ascii "<<")

theorem heredocFree_plain {plain : Bytes} (hwords : freeOfHeredocWords plain = true) : HeredocFree plainFrontend plain := by
  refine ⟨fun _ _ _ => rfl, ?_⟩
  intro instruction command onbuild heffective hkeyword
  have hcopy : (instruction == ascii "COPY" || instruction == ascii "ADD") = true := by
    rw [Bool.or_eq_true, beq_iff_eq, beq_iff_eq]
    exact hkeyword
  rw [freeOfHeredocWords, heffective] at hwords
  dsimp only at hwords
  rw [hcopy, Bool.not_true, Bool.false_or, List.all_eq_true] at hwords
  refine ⟨split 0x20 command, rfl, ?_⟩
  intro word hword
  have hfirst := hwords word hword
  rw [Bool.not_eq_true'] at hfirst
  show Except.ok (if hasPrefix word (ascii "<<") = true then _ else _) = _
  rw [hfirst]
  rfl

theorem heredocFree_headers (raw : Bytes)
    (hwords : ((headers plainFrontend raw).any fun plains => plains.all freeOfHeredocWords) = true) :
    ∃ plains, headers plainFrontend raw = some plains ∧ ∀ plain ∈ plains, HeredocFree plainFrontend plain := by
  cases hread : headers plainFrontend raw with
  | none =>
    rw [hread] at hwords
    cases hwords
  | some plains =>
    rw [hread] at hwords
    exact ⟨plains, rfl, fun plain hplain => heredocFree_plain (List.all_eq_true.1 hwords plain hplain)⟩

def hereStrings : Bytes :=
  ascii "FROM alpine\nRUN cat <<<hello\nCOPY foo<<bar /file\nRUN echo $((1 << SHIFT)) '<<EOF'\n"

theorem transform_passes_iff_hereStrings :
    ∃ plains, headers plainFrontend hereStrings = some plains ∧ (∀ plain ∈ plains, HeredocFree plainFrontend plain) ∧
      transformLegacyHeredocs plainFrontend hereStrings = .ok (hereStrings, false) ∧
      ∀ plain ∈ plains, Unmatched plain := by
  have hok : transformLegacyHeredocs plainFrontend hereStrings = .ok (hereStrings, false) := by decide +kernel
  obtain ⟨plains, hread, hfree⟩ := heredocFree_headers hereStrings (by decide +kernel)
  exact ⟨plains, hread, hfree, hok, (transform_passes_iff plainFrontend hread hfree).1 hok⟩

def appendedHereString : Bytes := ascii "FROM alpine\nRUN cat >> /f <<<hello\n"

def quotedBrackets : Bytes := ascii "FROM alpine\nRUN cat > 'a <<b'\n"

theorem heredocFree_refused :
    (∃ plains, headers plainFrontend appendedHereString = some plains ∧
      (∀ plain ∈ plains, HeredocFree plainFrontend plain) ∧
      transformLegacyHeredocs plainFrontend appendedHereString = .error (unsupportedAppend 1)) ∧
    ∃ plains, headers plainFrontend quotedBrackets = some plains ∧
      (∀ plain ∈ plains, HeredocFree plainFrontend plain) ∧
      transformLegacyHeredocs plainFrontend quotedBrackets = .error (mismatchedQuotes 2) := by
  obtain ⟨plains, hread, hfree⟩ := heredocFree_headers appendedHereString (by decide +kernel)
  obtain ⟨plains', hread', hfree'⟩ := heredocFree_headers quotedBrackets (by decide +kernel)
  exact ⟨⟨plains, hread, hfree, by decide +kernel⟩, ⟨plains', hread', hfree', by decide +kernel⟩⟩

end BuildkitService.Dockerfile
