import BuildkitService.Dockerfile.Transform

/-!
# What the rewrite changes

The output of the preprocessor is its input with some line ranges replaced, each by one `COPY` line.
-/

namespace BuildkitService.Dockerfile

open Strings
open List hiding beq_eq_decide

/-! ### Replacing line ranges -/

structure Rewrite where
  start : Nat
  stop : Nat
  spec : LegacyHeredocSpec
  deriving DecidableEq, Repr

def Placed (limit : Nat) : Nat → List Rewrite → Prop
  | pos, [] => pos ≤ limit
  | pos, rw :: rws => pos ≤ rw.start ∧ rw.start ≤ rw.stop ∧ Placed limit (rw.stop + 1) rws

def replaceRanges (lines : List Bytes) (limit : Nat) : Nat → List Rewrite → List Bytes
  | pos, [] => slice lines pos limit
  | pos, rw :: rws =>
      slice lines pos rw.start ++ [copyHeader rw.spec] ++ replaceRanges lines limit (rw.stop + 1) rws

variable {lines : List Bytes} {limit limit' start : Nat} {command instruction plain : Bytes} {header : Header}

theorem slice_append {a b c : Nat} (hab : a ≤ b) (hbc : b ≤ c) :
    slice lines a b ++ slice lines b c = slice lines a c := by
  simp only [slice, drop_take]
  have hdrop : lines.drop b = (lines.drop a).drop (b - a) := by
    rw [drop_drop, Nat.add_sub_cancel' hab]
  rw [hdrop, ← take_add]
  congr 1
  omega

theorem slice_length (lines : List Bytes) : slice lines 0 lines.length = lines := by
  simp [slice]

theorem Placed.le : ∀ {pos : Nat} {rws : List Rewrite}, Placed limit pos rws → pos ≤ limit
  | _, [], h => h
  | _, _ :: _, ⟨hpos, hrange, hrest⟩ => by
      have := hrest.le
      omega

theorem Placed.stop_lt : ∀ {pos : Nat} {rws : List Rewrite}, Placed limit pos rws →
    ∀ rw ∈ rws, rw.stop < limit
  | _, [], _, _, hmem => by simp at hmem
  | _, _ :: _, ⟨_, _, hrest⟩, rw, hmem => by
      rcases mem_cons.1 hmem with rfl | htail
      · exact hrest.le
      · exact hrest.stop_lt rw htail

theorem replaceRanges_extend (lines : List Bytes) (hlimit : limit ≤ limit') :
    ∀ {pos : Nat} {rws : List Rewrite}, Placed limit pos rws →
      replaceRanges lines limit' pos rws = replaceRanges lines limit pos rws ++ slice lines limit limit'
  | _, [], h => (slice_append h hlimit).symm
  | _, rw :: rws, ⟨_, _, hrest⟩ => by
      simp only [replaceRanges, replaceRanges_extend lines hlimit hrest, append_assoc]

theorem Placed.extend (hlimit : limit ≤ limit') :
    ∀ {pos : Nat} {rws : List Rewrite}, Placed limit pos rws → Placed limit' pos rws
  | _, [], h => le_trans h hlimit
  | _, _ :: _, ⟨hpos, hrange, hrest⟩ => ⟨hpos, hrange, hrest.extend hlimit⟩

theorem Placed.snoc {rw : Rewrite} (hstart : limit ≤ rw.start) (hrange : rw.start ≤ rw.stop)
    (hstop : rw.stop < limit') :
    ∀ {pos : Nat} {rws : List Rewrite}, Placed limit pos rws → Placed limit' pos (rws ++ [rw])
  | _, [], h => ⟨le_trans h hstart, hrange, hstop⟩
  | _, _ :: _, ⟨hpos, hrange', hrest⟩ => ⟨hpos, hrange', hrest.snoc hstart hrange hstop⟩

theorem replaceRanges_snoc (lines : List Bytes) {rw : Rewrite} :
    ∀ {pos : Nat} {rws : List Rewrite}, Placed rw.start pos rws →
      replaceRanges lines limit pos (rws ++ [rw]) =
        replaceRanges lines rw.start pos rws ++ [copyHeader rw.spec] ++ slice lines (rw.stop + 1) limit
  | _, [], _ => rfl
  | _, _ :: _, ⟨_, _, hrest⟩ => by
      simp only [cons_append, replaceRanges, replaceRanges_snoc lines hrest, append_assoc]

/-! ### Where the indices of one iteration lie -/

theorem joinHeader_bounds (escape : UInt8) (start : Nat) :
    ∀ (rest : List Bytes) (stop : Nat) (header : Bytes), start ≤ stop → start < stop + rest.length →
      start ≤ (joinHeader escape start rest stop header).2 ∧
        (joinHeader escape start rest stop header).2 < stop + rest.length
  | [], stop, header, hle, hlt => by
      simp only [joinHeader, length_nil] at *
      omega
  | raw :: rest, stop, header, hle, hlt => by
      have hnext := fun header' => joinHeader_bounds escape start rest (stop + 1) header' (by omega) (by omega)
      simp only [joinHeader, length_cons]
      split
      · split
        · simp only
          omega
        · have := hnext header
          omega
      · split
        · have := hnext (header ++ ((trimRight (trimRight raw (ascii "\r\n")) blanks).dropLast))
          omega
        · simp only
          omega

theorem instructionHeader_bounds (escape : UInt8) (hstart : start < lines.length) :
    start ≤ (instructionHeader lines start escape).2 ∧
      (instructionHeader lines start escape).2 < lines.length := by
  have h := joinHeader_bounds escape start (lines.drop start) start [] le_rfl
    (by rw [length_drop]; omega)
  rw [length_drop] at h
  exact ⟨h.1, by have := h.2; simp only [instructionHeader]; omega⟩

theorem findHeredocEnd_bounds {stop : Nat} {delimiter : Bytes} {stripTabs : Bool}
    (hfind : findHeredocEnd lines start delimiter stripTabs = some stop) :
    start ≤ stop ∧ stop < lines.length := by
  obtain ⟨offset, hoffset, rfl⟩ := Option.map_eq_some_iff.1 hfind
  obtain ⟨hlt, _⟩ := findIdx?_eq_some_iff_getElem.1 hoffset
  rw [length_drop] at hlt
  omega

theorem lastLine_cons (idx : Nat) (span : Span) (spans : List Span) :
    lastLine idx (span :: spans) = lastLine span.stop spans := by
  cases spans with
  | nil => simp [lastLine]
  | cons next rest => simp [lastLine, getLast?_eq_some_getLast]

theorem heredocSpans_bounds (lines : List Bytes) : ∀ (docs : List Heredoc) {idx : Nat}, idx < lines.length →
      idx ≤ lastLine idx (heredocSpans lines idx docs).1 ∧
        lastLine idx (heredocSpans lines idx docs).1 < lines.length ∧
        ∀ span ∈ (heredocSpans lines idx docs).1, idx < span.bodyStart ∧ span.bodyStart ≤ span.stop ∧
          span.stop ≤ lastLine idx (heredocSpans lines idx docs).1
  | [], idx, hidx => by simp [heredocSpans, lastLine, hidx]
  | doc :: docs, idx, hidx => by
      simp only [heredocSpans]
      cases hfind : findHeredocEnd lines (idx + 1) doc.name doc.chomp with
      | none => simp [lastLine, hidx]
      | some stop =>
        obtain ⟨hle, hlt⟩ := findHeredocEnd_bounds hfind
        obtain ⟨hge, hlen, hspans⟩ := heredocSpans_bounds lines docs hlt
        simp only [lastLine_cons]
        refine ⟨by omega, hlen, ?_⟩
        intro span hspan
        rcases mem_cons.1 hspan with rfl | htail
        · exact ⟨by simp, by simpa using hle, by simpa using hge⟩
        · obtain ⟨h1, h2, h3⟩ := hspans span htail
          exact ⟨by omega, h2, h3⟩

def openedSpans (lines : List Bytes) : Nat → List Heredoc → List Span
  | _, [] => []
  | idx, doc :: docs =>
      match findHeredocEnd lines (idx + 1) doc.name doc.chomp with
      | none => [⟨doc, idx + 1, lines.length⟩]
      | some stop => ⟨doc, idx + 1, stop⟩ :: openedSpans lines stop docs

theorem openedSpans_of_closed (lines : List Bytes) : ∀ (docs : List Heredoc) {idx : Nat} {spans : List Span},
    heredocSpans lines idx docs = (spans, none) → openedSpans lines idx docs = spans
  | [], idx, spans, h => by
      simp only [heredocSpans, Prod.mk.injEq, and_true] at h
      exact h
  | doc :: docs, idx, spans, h => by
      simp only [heredocSpans, openedSpans] at h ⊢
      cases hfind : findHeredocEnd lines (idx + 1) doc.name doc.chomp with
      | none => simp [hfind] at h
      | some stop =>
        simp only [hfind, Prod.mk.injEq] at h ⊢
        rw [← h.1, openedSpans_of_closed lines docs (Prod.ext rfl h.2)]

/-! ### Which headers are rewritten -/

def leadingBlanks (plain : Bytes) : Bytes := plain.takeWhile isBlank

def IsLegacyHeader (lines : List Bytes) (start stop : Nat) (spec : LegacyHeredocSpec) : Prop :=
  ∃ escape plain command, instructionHeader lines start escape = (plain, stop) ∧
    splitInstruction plain = (ascii "RUN", command) ∧ spec.indent = leadingBlanks plain ∧
    parseLegacyCatHeredoc (normalize plain (ascii "RUN") command) (start + 1) = .ok (some spec)

theorem blanks_contains (b : UInt8) : blanks.contains b = isBlank b := by
  have hblanks : blanks = [0x20, 0x09] := by decide
  simp [hblanks, isBlank, beq_eq_decide]

theorem normalize_eq (plain instruction command : Bytes) : normalize plain instruction command =
      leadingBlanks plain ++ (instruction ++ (ascii " " ++ trimSpace command)) := by
  have htrim : trimLeft plain blanks = plain.dropWhile isBlank := by
    simp only [trimLeft, blanks_contains]
  have hsplit : leadingBlanks plain ++ plain.dropWhile isBlank = plain := takeWhile_append_dropWhile
  have hlength := congrArg length hsplit
  rw [length_append] at hlength
  have hlen : plain.length - (plain.dropWhile isBlank).length = (leadingBlanks plain).length := by
    omega
  have htake : plain.take (leadingBlanks plain).length = leadingBlanks plain :=
    prefix_iff_eq_take.1 (List.takeWhile_prefix isBlank) |>.symm
  rw [normalize, htrim, hlen, htake]
  simp only [append_assoc]

theorem takeWhile_of_split {p : UInt8 → Bool} {front rest : Bytes} {b : UInt8}
    (hfront : ∀ a ∈ front, p a = true) (hb : p b = false) : (front ++ b :: rest).takeWhile p = front := by
  rw [takeWhile_append_of_pos hfront, takeWhile_cons_of_neg (by simp [hb]), append_nil]

theorem match_runCat {toEnd captured : Bool} {items : List LinearRegex.Item} {line : Bytes} {groups : List Bytes}
    (hitems : ∃ rest, items =
      ⟨isBlank, .star, captured⟩ :: ⟨fun a => a == 0x52, .once, false⟩ :: rest)
    (hmatch : LinearRegex.matchItems toEnd items line = some groups) :
    ∃ others tail, groups = (if captured then leadingBlanks line :: others else others) ∧
      line = leadingBlanks line ++ 0x52 :: tail := by
  obtain ⟨rest, rfl⟩ := hitems
  obtain ⟨k, others, hk, hrest, hgroups⟩ := LinearRegex.matchItems_cons hmatch
  obtain ⟨_, hblank, _⟩ := LinearRegex.Item.takes hk
  obtain ⟨j, _, hj, _, _⟩ := LinearRegex.matchItems_cons hrest
  obtain ⟨hjlen, hletter, hone, _⟩ := LinearRegex.Item.takes hj
  have hj1 : j = 1 := hone rfl
  subst hj1
  cases hdrop : line.drop k with
  | nil => simp [hdrop] at hjlen
  | cons b tail =>
    rw [hdrop] at hletter
    have hb : b = 0x52 := by simpa using hletter b (by simp)
    subst hb
    have hline : line = line.take k ++ 0x52 :: tail := by
      rw [← hdrop, take_append_drop]
    have hlead : leadingBlanks line = line.take k := by
      conv_lhs => rw [hline]
      exact takeWhile_of_split hblank (by decide)
    refine ⟨others, tail, ?_, by rw [hlead]; exact hline⟩
    rw [hgroups, hlead]

theorem parseLegacyCatHeredoc_run {line : Bytes} {lineNumber : Nat} {spec : LegacyHeredocSpec}
    (hparse : parseLegacyCatHeredoc line lineNumber = .ok (some spec)) :
    spec.indent = leadingBlanks line ∧ ∃ tail, line = leadingBlanks line ++ 0x52 :: tail := by
  rw [parseLegacyCatHeredoc] at hparse
  split at hparse
  · rename_i hmatch
    obtain ⟨others, tail, hgroups, hline⟩ := match_runCat ⟨_, rfl⟩ hmatch
    split at hparse
    · simp at hparse
    · simp only [Except.ok.injEq, Option.some.injEq] at hparse
      refine ⟨?_, tail, hline⟩
      rw [← hparse]
      exact (cons.inj hgroups).1
  · split at hparse
    · rename_i hmatch
      obtain ⟨others, tail, hgroups, hline⟩ := match_runCat ⟨_, rfl⟩ hmatch
      split at hparse
      · simp at hparse
      · simp only [Except.ok.injEq, Option.some.injEq] at hparse
        refine ⟨?_, tail, hline⟩
        rw [← hparse]
        exact (cons.inj hgroups).1
    · simp at hparse

section

variable (hkeyword : instruction = ascii "RUN" ∨ instruction = ascii "COPY" ∨ instruction = ascii "ADD")

include hkeyword

theorem keyword_run {tail : Bytes}
    (hline : normalize plain instruction command = leadingBlanks (normalize plain instruction command) ++ 0x52 :: tail) :
    instruction = ascii "RUN" ∧ leadingBlanks (normalize plain instruction command) = leadingBlanks plain := by
  obtain ⟨b, rest, hinstruction, hb⟩ : ∃ b rest, instruction = b :: rest ∧ isBlank b = false := by
    rcases hkeyword with rfl | rfl | rfl <;> exact ⟨_, _, rfl, by decide⟩
  have hblank : ∀ a ∈ leadingBlanks plain, isBlank a = true := fun a ha => mem_takeWhile_imp ha
  have hlead : leadingBlanks (normalize plain instruction command) = leadingBlanks plain := by
    rw [normalize_eq, hinstruction]
    exact takeWhile_of_split hblank hb
  rw [hlead, normalize_eq] at hline
  have htail := append_cancel_left hline
  refine ⟨?_, hlead⟩
  rcases hkeyword with rfl | rfl | rfl
  · rfl
  · exact absurd (cons.inj htail).1 (by decide)
  · exact absurd (cons.inj htail).1 (by decide)

theorem legacy_instruction {lineNumber : Nat} {spec : LegacyHeredocSpec}
    (hparse : parseLegacyCatHeredoc (normalize plain instruction command) lineNumber = .ok (some spec)) :
    instruction = ascii "RUN" ∧ spec.indent = leadingBlanks plain := by
  obtain ⟨hindent, tail, hline⟩ := parseLegacyCatHeredoc_run hparse
  obtain ⟨hrun, hlead⟩ := keyword_run hkeyword hline
  exact ⟨hrun, hindent.trans hlead⟩

end

section Loop

variable (fe : Frontend)

theorem readCommand_spec {headerEnd : Nat} {onbuild : Bool}
    (hread : readCommand fe start headerEnd plain instruction command onbuild = .ok header) :
    header.headerEnd = headerEnd ∧ ∀ spec, header.rewrite = some spec → onbuild = false ∧
      parseLegacyCatHeredoc (normalize plain instruction command) (start + 1) = .ok (some spec) := by
  simp only [readCommand] at hread
  split at hread
  · simp at hread
  · split at hread
    · simp at hread
    · rename_i spec hparse
      have hrewrite : ∀ spec', spec.filter (rewritable onbuild) = some spec' → onbuild = false ∧
          parseLegacyCatHeredoc (normalize plain instruction command) (start + 1) = .ok (some spec') := by
        intro spec' hfilter
        obtain ⟨hspec, hrewritable⟩ := Option.filter_eq_some_iff.1 hfilter
        simp only [rewritable, Bool.and_eq_true, Bool.not_eq_eq_eq_not, Bool.not_true] at hrewritable
        exact ⟨hrewritable.1, by rw [hparse, hspec]⟩
      split at hread
      · simp at hread
      · cases hread
        exact ⟨rfl, hrewrite⟩
      · split at hread
        · simp at hread
        · cases hread
          exact ⟨rfl, hrewrite⟩

theorem readHeader_spec {escape : UInt8} (hread : readHeader fe lines start escape = .ok header) :
    header.headerEnd = (instructionHeader lines start escape).2 ∧
      ∀ spec, header.rewrite = some spec → IsLegacyHeader lines start header.headerEnd spec := by
  simp only [readHeader] at hread
  split at hread
  · cases hread
    exact ⟨rfl, by simp⟩
  · rename_i hkeyword
    obtain ⟨hend, hspec⟩ := readCommand_spec fe hread
    refine ⟨hend, fun spec hrewrite => ?_⟩
    obtain ⟨honbuild, hparse⟩ := hspec spec hrewrite
    -- Not `ONBUILD`, so the instruction is the first word of the header itself.
    have hdirect : splitInstruction (instructionHeader lines start escape).1 =
        ((effectiveInstruction (instructionHeader lines start escape).1).1,
          (effectiveInstruction (instructionHeader lines start escape).1).2.1) := by
      simp only [effectiveInstruction] at honbuild ⊢
      split
      · rename_i h
        simp [h] at honbuild
      · rfl
    obtain ⟨hrun, hindent⟩ := legacy_instruction
      (by simpa only [ne_eq, not_and_or, not_not] using hkeyword) hparse
    rw [hrun] at hdirect hparse
    exact ⟨escape, _, _, Prod.ext rfl hend.symm, hdirect, hindent, hparse⟩

theorem directiveHeader_ok {st : LoopState fe} {directives : fe.Directives} {escape : UInt8}
    (hok : directiveHeader fe lines st = .ok (directives, escape, header)) :
    (∃ directive, fe.parseLine st.directives (trimSpace (lines.getD st.idx [])) = (directives, .ok directive) ∧
      escape = updateEscape st.escape directive) ∧ readHeader fe lines st.idx escape = .ok header := by
  rw [directiveHeader] at hok
  split at hok
  · simp at hok
  · rename_i directive hparse
    dsimp only at hok
    split at hok
    · simp at hok
    · rename_i hread
      simp only [Except.ok.injEq, Prod.mk.injEq] at hok
      obtain ⟨rfl, rfl, rfl⟩ := hok
      exact ⟨⟨directive, hparse, rfl⟩, hread⟩

theorem advance_spec {st st' : LoopState fe} (hadvance : advance fe lines st = .ok st') :
    ∃ directives escape header spans, directiveHeader fe lines st = .ok (directives, escape, header) ∧
      readHeader fe lines st.idx escape = .ok header ∧
      heredocSpans lines header.headerEnd header.docs = (spans, none) ∧
      st' = ⟨lastLine header.headerEnd spans + 1,
        st.out ++ emit lines st.idx (lastLine header.headerEnd spans) header,
        st.changed || header.rewrite.isSome, escape, directives⟩ := by
  rw [advance] at hadvance
  split at hadvance
  · simp at hadvance
  · rename_i directives escape header hheader
    split at hadvance
    · simp at hadvance
    · rename_i spans hspans
      simp only [Except.ok.injEq] at hadvance
      exact ⟨directives, escape, header, spans, hheader, (directiveHeader_ok fe hheader).2, hspans,
        hadvance.symm⟩

theorem advance_moves {st st' : LoopState fe} (hidx : st.idx < lines.length)
    (hadvance : advance fe lines st = .ok st') : st.idx < st'.idx ∧ st'.idx ≤ lines.length := by
  obtain ⟨_, escape, header, found, _, hread, hspans, rfl⟩ := advance_spec fe hadvance
  obtain ⟨hstart, hlen⟩ := instructionHeader_bounds escape hidx
  rw [← (readHeader_spec fe hread).1] at hstart hlen
  obtain ⟨hge, hlast, _⟩ := heredocSpans_bounds lines header.docs hlen
  simp only [hspans] at hge hlast
  exact ⟨by simp only; omega, hlast⟩

/-! ### What a whole run rewrites and recognises -/

def instructionRewrites (lines : List Bytes) (st : LoopState fe) : List Rewrite :=
  match directiveHeader fe lines st with
  | .error _ => []
  | .ok (_, _, header) =>
      match header.rewrite with
      | some spec => [⟨st.idx, header.headerEnd, spec⟩]
      | none => []

def instructionSpans (lines : List Bytes) (st : LoopState fe) : List Span :=
  match directiveHeader fe lines st with
  | .error _ => []
  | .ok (_, _, header) => openedSpans lines header.headerEnd header.docs

def collect {α : Type} (item : LoopState fe → List α) (lines : List Bytes) :
    Nat → LoopState fe → List α
  | 0, _ => []
  | fuel + 1, st =>
      if st.idx < lines.length then
        item st ++ match advance fe lines st with
          | .error _ => []
          | .ok st' => collect item lines fuel st'
      else []

def rewrites (raw : Bytes) : List Rewrite :=
  let lines := splitDockerfileLines raw
  collect fe (instructionRewrites fe lines) lines lines.length (initial fe)

def recognised (raw : Bytes) : List Span :=
  let lines := splitDockerfileLines raw
  collect fe (instructionSpans fe lines) lines lines.length (initial fe)

structure Framed (lines : List Bytes) (st : LoopState fe) (rws : List Rewrite) (spans : List Span) :
    Prop where
  idx_le : st.idx ≤ lines.length
  placed : Placed st.idx 0 rws
  headers : ∀ rw ∈ rws, IsLegacyHeader lines rw.start rw.stop rw.spec
  out : st.out = replaceRanges lines st.idx 0 rws
  changed : st.changed = !rws.isEmpty
  passed : ∀ span ∈ spans, span.stop < st.idx
  apart : ∀ rw ∈ rws, ∀ span ∈ spans, rw.stop < span.bodyStart ∨ span.stop < rw.start

theorem framed_initial (lines : List Bytes) : Framed fe lines (initial fe) [] [] where
  idx_le := Nat.zero_le _
  placed := le_refl 0
  headers := by simp
  out := by simp [initial, replaceRanges, slice]
  changed := rfl
  passed := by simp
  apart := by simp

theorem Framed.advance {st st' : LoopState fe} {rws : List Rewrite} {spans : List Span}
    (hframed : Framed fe lines st rws spans) (hidx : st.idx < lines.length)
    (hadvance : advance fe lines st = .ok st') : Framed fe lines st' (rws ++ instructionRewrites fe lines st)
      (spans ++ instructionSpans fe lines st) := by
  obtain ⟨directives, escape, header, found, hheader, hread, hspans, rfl⟩ := advance_spec fe hadvance
  obtain ⟨hend, hlegacy⟩ := readHeader_spec fe hread
  obtain ⟨hstart, hlen⟩ := instructionHeader_bounds escape hidx
  rw [← hend] at hstart hlen
  obtain ⟨hge, hlast, hinside⟩ := heredocSpans_bounds lines header.docs hlen
  rw [hspans] at hge hlast hinside
  have hspans' : instructionSpans fe lines st = found := by
    simp only [instructionSpans, hheader]
    exact openedSpans_of_closed lines header.docs hspans
  have hrws' : ∀ spec, header.rewrite = some spec →
      instructionRewrites fe lines st = [⟨st.idx, header.headerEnd, spec⟩] := by
    intro spec hrewrite
    simp only [instructionRewrites, hheader, hrewrite]
  have hnone : header.rewrite = none → instructionRewrites fe lines st = [] := by
    intro hrewrite
    simp only [instructionRewrites, hheader, hrewrite]
  set stop := lastLine header.headerEnd found with hstop
  have hpassed : ∀ span ∈ spans ++ found, span.stop < stop + 1 := by
    intro span hspan
    rcases mem_append.1 hspan with hold | hnew
    · have := hframed.passed span hold
      omega
    · have := hinside span hnew
      omega
  -- The ranges found before lie before the new heredocs.
  have hapart : ∀ rw ∈ rws, ∀ span ∈ spans ++ found,
      rw.stop < span.bodyStart ∨ span.stop < rw.start := by
    intro rw hrw span hspan
    rcases mem_append.1 hspan with hold | hnew
    · exact hframed.apart rw hrw span hold
    · have := hframed.placed.stop_lt rw hrw
      have := hinside span hnew
      omega
  rw [hspans']
  cases hrewrite : header.rewrite with
  | none =>
    rw [hnone hrewrite, append_nil]
    exact {
      idx_le := hlast
      placed := hframed.placed.extend (by simp only; omega)
      headers := hframed.headers
      out := by
        simp only [emit, hrewrite, hframed.out]
        exact (replaceRanges_extend lines (by omega) hframed.placed).symm
      changed := by simp [hframed.changed]
      passed := hpassed
      apart := hapart }
  | some spec =>
    rw [hrws' spec hrewrite]
    exact {
      idx_le := hlast
      placed := hframed.placed.snoc le_rfl hstart (by simp only; omega)
      headers := by
        intro rw hrw
        rcases mem_append.1 hrw with hold | hnew
        · exact hframed.headers rw hold
        · obtain rfl := mem_singleton.1 hnew
          exact hlegacy spec hrewrite
      out := by
        simp only [emit, hrewrite, hframed.out]
        rw [replaceRanges_snoc lines hframed.placed, append_assoc, singleton_append]
      changed := by simp
      passed := hpassed
      apart := by
        intro rw hrw span hspan
        rcases mem_append.1 hrw with hold | hnew
        · exact hapart rw hold span hspan
        · obtain rfl := mem_singleton.1 hnew
          rcases mem_append.1 hspan with hspan | hspan
          · exact .inr (hframed.passed span hspan)
          · exact .inl (hinside span hspan).1 }

theorem Framed.loop {st' : LoopState fe} (fuel : Nat) {st : LoopState fe} {rws : List Rewrite}
    {spans : List Span} (hframed : Framed fe lines st rws spans) (hfuel : lines.length ≤ st.idx + fuel)
    (hloop : loop fe lines fuel st = .ok st') : st'.idx = lines.length ∧
      Framed fe lines st' (rws ++ collect fe (instructionRewrites fe lines) lines fuel st)
        (spans ++ collect fe (instructionSpans fe lines) lines fuel st) := by
  induction fuel generalizing st rws spans with
  | zero =>
    simp only [Dockerfile.loop, Except.ok.injEq] at hloop
    subst hloop
    simp only [collect, append_nil]
    exact ⟨le_antisymm hframed.idx_le (by omega), hframed⟩
  | succ fuel ih =>
    simp only [Dockerfile.loop] at hloop
    simp only [collect]
    split at hloop
    · rename_i hidx
      rw [if_pos hidx, if_pos hidx]
      cases hadvance : Dockerfile.advance fe lines st with
      | error e => simp [hadvance] at hloop
      | ok next =>
        simp only [hadvance] at hloop ⊢
        have hmoves := advance_moves fe hidx hadvance
        rw [← append_assoc, ← append_assoc]
        exact ih (hframed.advance fe hidx hadvance) (by omega) hloop
    · rename_i hidx
      cases hloop
      rw [if_neg hidx, if_neg hidx, append_nil, append_nil]
      exact ⟨le_antisymm hframed.idx_le (by omega), hframed⟩

theorem splitDockerfileLines_flatten (raw : Bytes) : (splitDockerfileLines raw).flatten = raw := by
  rw [splitDockerfileLines]
  split
  · rename_i hempty
    simp [List.isEmpty_iff.1 hempty]
  · dsimp only
    split
    · rename_i hlast
      have hsplit := dropLast_append_getLast? [] hlast
      have hflat := splitAfter_flatten 0x0A raw
      rw [← hsplit] at hflat
      simpa using hflat
    · exact splitAfter_flatten 0x0A raw

theorem transform_framed {raw out : Bytes} {changed : Bool}
    (hok : transformLegacyHeredocs fe raw = .ok (out, changed)) :
    ∃ st : LoopState fe, st.idx = (splitDockerfileLines raw).length ∧
      Framed fe (splitDockerfileLines raw) st (rewrites fe raw) (recognised fe raw) ∧
      changed = st.changed ∧ out = st.out.flatten := by
  simp only [transformLegacyHeredocs] at hok
  split at hok
  · simp at hok
  · rename_i st hloop
    obtain ⟨hidx, hframed⟩ := (framed_initial fe _).loop fe _ (Nat.le_add_left _ _) hloop
    refine ⟨st, hidx, hframed, ?_⟩
    split at hok
    · rename_i hchanged
      simp only [Except.ok.injEq, Prod.mk.injEq] at hok
      exact ⟨by rw [← hok.2, hchanged], hok.1.symm⟩
    · rename_i hchanged
      simp only [Except.ok.injEq, Prod.mk.injEq] at hok
      have hrws := hframed.changed
      simp only [Bool.not_eq_true] at hchanged
      simp only [hchanged, Bool.false_eq, Bool.not_eq_false', List.isEmpty_iff] at hrws
      refine ⟨by rw [← hok.2, hchanged], ?_⟩
      rw [hframed.out, hrws, hidx, ← hok.1]
      simp only [replaceRanges, slice_length]
      exact (splitDockerfileLines_flatten raw).symm

/-- The output is the input with the legacy headers replaced. -/
theorem transform_replaces_headers {raw out : Bytes} {changed : Bool}
    (hok : transformLegacyHeredocs fe raw = .ok (out, changed)) :
    ∃ rws : List Rewrite, Placed (splitDockerfileLines raw).length 0 rws ∧
      (∀ rw ∈ rws, IsLegacyHeader (splitDockerfileLines raw) rw.start rw.stop rw.spec) ∧
      (∀ rw ∈ rws, ∀ span ∈ recognised fe raw, rw.stop < span.bodyStart ∨ span.stop < rw.start) ∧
      (splitDockerfileLines raw).flatten = raw ∧
      out = (replaceRanges (splitDockerfileLines raw) (splitDockerfileLines raw).length 0 rws).flatten ∧
      (changed = true ↔ rws ≠ []) ∧ (changed = false → out = raw) := by
  obtain ⟨st, hidx, hframed, hchanged, hout⟩ := transform_framed fe hok
  have hrws : changed = true ↔ rewrites fe raw ≠ [] := by
    rw [hchanged, hframed.changed, Bool.not_eq_true', List.isEmpty_eq_false_iff]
  have hreplaced := hframed.out
  rw [hidx] at hreplaced
  refine ⟨rewrites fe raw, hidx ▸ hframed.placed, hframed.headers, hframed.apart,
    splitDockerfileLines_flatten raw, by rw [hout, hreplaced], hrws, ?_⟩
  intro hsame
  have hnone : rewrites fe raw = [] := by
    by_contra hne
    rw [hrws.2 hne] at hsame
    cases hsame
  rw [hout, hreplaced, hnone]
  simp only [replaceRanges, slice_length]
  exact splitDockerfileLines_flatten raw

end Loop

def catFrontend : Frontend where
  Directives := Unit
  newDirectives := ()
  parseLine := fun _ _ => ((), .ok none)
  jsonValid := fun _ => false
  parsesAsJSON := fun _ => false
  shellRedirects := fun command =>
    if command = ascii "cat > /etc/motd <<'EOF'" then
      ([⟨false, 18, 23⟩], some (ascii "1:17: unclosed here-document"))
    else ([], none)
  parseHeredoc := fun token =>
    .ok (if token = ascii "<< 'EOF'" then some ⟨ascii "EOF", false⟩ else none)
  processWords := fun command => .ok [command]

def motdDockerfile (body : String) : Bytes :=
  ascii "FROM alpine\nRUN cat > /etc/motd <<'EOF'\n" ++ ascii body ++ ascii "\nEOF\n"

theorem motd_replaces_header :
    ∃ rws : List Rewrite, Placed (splitDockerfileLines (motdDockerfile "hello")).length 0 rws ∧
      (ascii "FROM alpine\nCOPY <<'EOF' /etc/motd\nhello\nEOF\n") =
        (replaceRanges (splitDockerfileLines (motdDockerfile "hello"))
          (splitDockerfileLines (motdDockerfile "hello")).length 0 rws).flatten ∧ rws ≠ [] := by
  have hok : transformLegacyHeredocs catFrontend (motdDockerfile "hello") =
      .ok (ascii "FROM alpine\nCOPY <<'EOF' /etc/motd\nhello\nEOF\n", true) := by decide +kernel
  obtain ⟨rws, hplaced, _, _, _, hout, hchanged, _⟩ := transform_replaces_headers catFrontend hok
  exact ⟨rws, hplaced, hout, hchanged.1 rfl⟩

end BuildkitService.Dockerfile
