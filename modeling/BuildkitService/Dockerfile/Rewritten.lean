import BuildkitService.Dockerfile.Legacy
import BuildkitService.Dockerfile.Length

/-!
# The line that replaces a legacy header

A legacy heredoc is recognised with the patterns and the shell parser; the `COPY` line written for
it is read with the word syntax of the Dockerfile.
-/

namespace BuildkitService.Dockerfile

open Strings List

structure Frontend.Documented (fe : Frontend) : Prop where
  /-- A line that is not a comment ends the parser directives, whatever it is. -/
  directives : ∀ directives line line', hasPrefix line (ascii "#") = false → hasPrefix line' (ascii "#") = false →
    fe.parseLine directives line' = fe.parseLine directives line
  /-- No JSON value starts with the letter `c` or an angle bracket. -/
  json : ∀ b s, b = 0x63 ∨ b = 0x3C → fe.jsonValid (b :: s) = false
  /-- The shell parser reads one heredoc, or it reports an error and no heredoc at all: a target that starts
  a comment is none. -/
  shell : ∀ d target command, CatCommand d target command → containsAny target shellCharacters = false →
    (∃ e, fe.shellRedirects command = ([], some e)) ∨ ∃ redirect err,
      fe.shellRedirects command = ([redirect], err) ∧ redirect.dash = d.dash ∧
      (command.take redirect.wordEnd).drop redirect.wordPos = d.word
  /-- The lexer returns words without quotes, escapes and variables as they are, and a quoted delimiter with
  its quotes. -/
  words : ∀ (d : Delimiter) rest, (rest = [] ∨ ∃ t, rest = 0x20 :: t) → containsAny rest shellCharacters = false →
    ∃ later, fe.processWords (d.opening ++ rest) = .ok (d.opening :: later) ∧ ∀ word ∈ later, word ⊆ rest
  /-- `ParseHeredoc` reads `<<` or `<<-` and a name that may be quoted, -/
  heredoc : ∀ d : Delimiter, fe.parseHeredoc d.opening = .ok (some d.heredoc)
  /-- also with a blank behind the operator, -/
  spaced : ∀ d : Delimiter, fe.parseHeredoc (ascii "<<" ++ d.mark ++ ascii " " ++ d.word) = .ok (some d.heredoc)
  /-- and nothing without an angle bracket. -/
  other : ∀ word, 0x3C ∉ word → fe.parseHeredoc word = .ok none

variable {fe : Frontend} {b escape : UInt8} {command target rest plain instruction : Bytes} {d : Delimiter}
  {spec : LegacyHeredocSpec} {lines : List Bytes} {header : Header} {start : Nat}

/-! ### Which heredoc a header opens -/

theorem jsonCommand_cons (hfe : fe.Documented) {s : Bytes} (hb : b = 0x63 ∨ b = 0x3C) :
    jsonCommand fe (b :: s) = false := by
  have hflag : hasPrefix (b :: s) (ascii "--") = false := by
    rcases hb with rfl | rfl
    · rfl
    · rfl
  rw [jsonCommand, hfe.json b s hb, hflag]
  rfl

theorem instructionHeredocs_legacy (hfe : fe.Documented) {docs : List Heredoc}
    (hcat : CatCommand d target command) (htarget : containsAny target shellCharacters = false)
    (hok : instructionHeredocs fe command = .ok docs) : docs = [d.heredoc] := by
  have hjson : jsonCommand fe command = false := by
    obtain ⟨rest, rfl⟩ := hcat.cat
    exact jsonCommand_cons hfe (.inl rfl)
  have hbrackets : contains command (ascii "<<") = true := contains_iff.2 hcat.brackets
  rw [instructionHeredocs, hjson, hbrackets] at hok
  rcases hfe.shell d target command hcat htarget with ⟨e, hnone⟩ | ⟨redirect, err, hone, hdash, hword⟩
  · rw [hnone] at hok
    cases hok
  · have htoken : redirectToken command redirect = ascii "<<" ++ d.mark ++ ascii " " ++ d.word := by
      rw [redirectToken, hword, hdash, Delimiter.mark]
      cases d.dash with
      | true | false => rfl
    rw [hone] at hok
    have hwalk : walkRedirects fe command [redirect] ([], none) = ([d.heredoc], none) := by
      rw [walkRedirects, htoken, hfe.spaced]
      rfl
    simp only [hwalk] at hok
    exact (Except.ok.inj hok).symm

theorem dockerfileHeredocs_opening (hfe : fe.Documented) (hrest : rest = [] ∨ ∃ t, rest = 0x20 :: t)
    (hplain : containsAny rest shellCharacters = false) :
    dockerfileHeredocs fe (d.opening ++ rest) = .ok [d.heredoc] := by
  have hjson : jsonCommand fe (d.opening ++ rest) = false := jsonCommand_cons hfe (.inr rfl)
  have hbrackets : contains (d.opening ++ rest) (ascii "<<") = true := by
    rw [contains_iff, Delimiter.opening, append_assoc]
    exact (prefix_append _ _).isInfix
  obtain ⟨later, hwords, hlater⟩ := hfe.words d rest hrest hplain
  have hnone : ∀ word ∈ later, fe.parseHeredoc word = .ok none := by
    intro word hword
    refine hfe.other word fun hmem => ?_
    have hany : containsAny rest shellCharacters = true :=
      List.any_eq_true.2 ⟨0x3C, hlater word hword hmem, by decide⟩
    rw [hplain] at hany
    cases hany
  rw [dockerfileHeredocs, hjson, hbrackets, hwords]
  show parseWords fe (d.opening :: later) = _
  rw [parseWords, hfe.heredoc]
  dsimp only
  rw [parseWords_free fe hnone]
  rfl

/-! ### The line that is written -/

structure Solid (b : UInt8) : Prop where
  low : b < 0x80
  space : asciiSpace b = false
  backslash : b ≠ 0x5C
  backtick : b ≠ 0x60

theorem solid_of_namePart (hb : isNamePart b = true) : Solid b := by
  simp only [isNamePart, isNameStart, Bool.or_eq_true, Bool.and_eq_true, decide_eq_true_eq, beq_iff_eq,
    UInt8.le_iff_toNat_le, ← UInt8.toNat_inj, UInt8.reduceToNat] at hb
  constructor
  · simp only [UInt8.lt_iff_toNat_lt, UInt8.reduceToNat]
    omega
  · simp only [asciiSpace, Bool.or_eq_false_iff, Bool.and_eq_false_iff, decide_eq_false_iff_not, beq_eq_false_iff_ne,
      UInt8.le_iff_toNat_le, ne_eq, ← UInt8.toNat_inj, UInt8.reduceToNat]
    omega
  · simp only [ne_eq, ← UInt8.toNat_inj, UInt8.reduceToNat]
    omega
  · simp only [ne_eq, ← UInt8.toNat_inj, UInt8.reduceToNat]
    omega

theorem Delimiter.solid (d : Delimiter) (hb : b ∈ d.opening) : Solid b := by
  simp only [Delimiter.opening, Delimiter.token, Delimiter.word, mem_append] at hb
  have hbrackets : b ∈ ascii "<<" → Solid b := by
    intro hmem
    obtain rfl : b = 0x3C := by simpa [ascii] using hmem
    constructor <;> decide
  have hmark : b ∈ d.mark → Solid b := by
    intro hmem
    rw [Delimiter.mark] at hmem
    split_ifs at hmem
    · obtain rfl : b = 0x2D := by simpa [ascii] using hmem
      constructor <;> decide
    · cases hmem
  have hquote : b ∈ d.quote → Solid b := by
    intro hmem
    rcases d.quote_mem with hquote | hquote | hquote
    · rw [hquote] at hmem
      cases hmem
    · rw [hquote] at hmem
      obtain rfl : b = 0x27 := by simpa [ascii] using hmem
      constructor <;> decide
    · rw [hquote] at hmem
      obtain rfl : b = 0x22 := by simpa [ascii] using hmem
      constructor <;> decide
  have hname : b ∈ d.name → Solid b := by
    intro hmem
    obtain ⟨first, rest, hname, hstart, hparts⟩ := d.name_plain
    rw [hname, mem_cons] at hmem
    rcases hmem with rfl | hmem
    · exact solid_of_namePart (by rw [isNamePart, hstart, Bool.true_or])
    · exact solid_of_namePart (hparts b hmem)
  tauto

theorem Delimiter.opening_ends (d : Delimiter) : ∃ middle b, d.opening = 0x3C :: middle ++ [b] ∧ Solid b := by
  obtain ⟨middle, b, hmiddle⟩ : ∃ middle b, 0x3C :: d.token = middle ++ [b] :=
    ⟨_, _, (dropLast_append_getLast (cons_ne_nil _ _)).symm⟩
  have hopening : d.opening = 0x3C :: middle ++ [b] := by
    rw [cons_append, ← hmiddle]
    rfl
  refine ⟨middle, b, hopening, d.solid ?_⟩
  rw [hopening]
  exact mem_append_right _ mem_cons_self

theorem trimSpace_opening (d : Delimiter) (tail : Bytes) :
    ∃ r, r <+: tail ∧ trimSpace (d.opening ++ tail) = d.opening ++ r := by
  obtain ⟨middle, b, hopening, hsolid⟩ := d.opening_ends
  have hfirst : Solid 0x3C := d.solid (by rw [hopening]; exact mem_cons_self)
  obtain ⟨r, hr, htrim⟩ := trimSpace_keeps hfirst.low hfirst.space hsolid.low hsolid.space middle tail
  refine ⟨r, hr, ?_⟩
  rw [hopening, append_assoc, append_assoc, singleton_append, singleton_append, htrim]

def copyOpening (d : Delimiter) : Bytes := ascii "COPY " ++ d.opening

theorem trimSpace_copy (d : Delimiter) {indent : Bytes} (hindent : ∀ b ∈ indent, isBlank b = true) (tail : Bytes) :
    ∃ r, r <+: tail ∧ trimSpace (indent ++ (copyOpening d ++ tail)) = copyOpening d ++ r := by
  obtain ⟨middle, b, hopening, hsolid⟩ := d.opening_ends
  have hspaces : ∀ b ∈ indent, asciiSpace b = true := fun b hb => asciiSpace_of_isBlank (hindent b hb)
  have hsplit : ∀ s : Bytes, copyOpening d ++ s = 0x43 :: (ascii "OPY <" ++ middle) ++ b :: s := by
    intro s
    rw [copyOpening, hopening]
    simp only [append_assoc, cons_append]
    rfl
  obtain ⟨r, hr, htrim⟩ := trimSpace_keeps (a := 0x43) (by decide) (by decide) hsolid.low hsolid.space
    (ascii "OPY <" ++ middle) tail
  refine ⟨r, hr, ?_⟩
  rw [trimSpace, trimLeftSpace_spaces hspaces, hsplit, hsplit]
  exact htrim

theorem continued_false {front back : Bytes} (hne : back ≠ []) (hback : ∀ b ∈ back, b ≠ escape) :
    continued (front ++ back) escape = false := by
  obtain ⟨init, last, rfl⟩ : ∃ init last, back = init ++ [last] :=
    ⟨_, _, (dropLast_append_getLast hne).symm⟩
  have hlast : (last == escape) = false :=
    beq_eq_false_iff_ne.2 (hback last (mem_append_right _ mem_cons_self))
  rw [continued, ← append_assoc, reverse_append, reverse_singleton, singleton_append]
  cases (front ++ init).reverse with
  | nil => exact hlast
  | cons previous rest =>
    show (last == escape && previous != escape) = false
    rw [hlast, Bool.false_and]

theorem copyHeader_eq (htoken : spec.delimiterToken = d.token) :
    copyHeader spec = spec.indent ++ (copyOpening d ++ (0x20 :: (spec.target ++ ascii "\n"))) := by
  rw [copyHeader, htoken, copyOpening, Delimiter.opening]
  simp only [append_assoc]
  rfl

theorem behind_shape (hrest : rest <+: 0x20 :: (target ++ ascii "\n")) :
    rest = [] ∨ ∃ t, rest = 0x20 :: t := by
  cases rest with
  | nil => exact .inl rfl
  | cons b t =>
    obtain ⟨more, hmore⟩ := hrest
    obtain rfl := (List.cons.inj hmore).1
    exact .inr ⟨t, rfl⟩

theorem behind_plain (hrest : rest <+: 0x20 :: (target ++ ascii "\n"))
    (htarget : containsAny target shellCharacters = false) : containsAny rest shellCharacters = false := by
  rw [containsAny, List.any_eq_false] at htarget ⊢
  intro b hb
  have hmem := hrest.subset hb
  rw [mem_cons, mem_append] at hmem
  rcases hmem with rfl | hmem | hmem
  · decide
  · exact htarget b hmem
  · obtain rfl : b = 0x0A := by simpa [ascii] using hmem
    decide

theorem trimRight_copy (d : Delimiter) (cutset : Bytes) (hcutset : ∀ b ∈ cutset, asciiSpace b = true)
    (indent tail : Bytes) :
    ∃ r, r <+: tail ∧ trimRight (indent ++ (copyOpening d ++ tail)) cutset = indent ++ (copyOpening d ++ r) := by
  obtain ⟨middle, b, hopening, hsolid⟩ := d.opening_ends
  have hkept : cutset.contains b = false := by
    rw [Bool.eq_false_iff]
    intro hmem
    have hspace := hcutset b (contains_iff_mem.1 hmem)
    rw [hsolid.space] at hspace
    cases hspace
  have hsplit : ∀ s : Bytes, indent ++ (copyOpening d ++ s) = indent ++ (ascii "COPY " ++ 0x3C :: middle) ++ b :: s := by
    intro s
    rw [copyOpening, hopening]
    simp only [append_assoc, cons_append, nil_append]
  obtain ⟨r, hr, htrim⟩ := trimRight_keeps hkept (indent ++ (ascii "COPY " ++ 0x3C :: middle)) tail
  refine ⟨r, hr, ?_⟩
  rw [hsplit, hsplit]
  exact htrim

theorem continued_copy (d : Delimiter) (indent : Bytes) (hescape : escape = 0x5C ∨ escape = 0x60)
    (hrest : rest <+: 0x20 :: (target ++ ascii "\n")) (htarget : containsAny target shellCharacters = false) :
    continued (indent ++ (copyOpening d ++ rest)) escape = false := by
  have hplain := behind_plain hrest htarget
  have hsplit : indent ++ (copyOpening d ++ rest) = indent ++ ascii "COPY " ++ (d.opening ++ rest) := by
    simp only [copyOpening, append_assoc]
  rw [hsplit]
  refine continued_false (fun hnil => ?_) ?_
  · cases (append_eq_nil_iff.1 hnil).1
  · intro b hb
    rcases mem_append.1 hb with hmem | hmem
    · have hsolid := d.solid hmem
      rcases hescape with rfl | rfl
      · exact hsolid.backslash
      · exact hsolid.backtick
    · rintro rfl
      rw [containsAny, List.any_eq_false] at hplain
      rcases hescape with rfl | rfl
      · exact hplain _ hmem (by decide)
      · exact hplain _ hmem (by decide)

theorem instructionHeader_copy {more : List Bytes} {idx : Nat} (htoken : spec.delimiterToken = d.token)
    (hindent : ∀ b ∈ spec.indent, isBlank b = true)
    (htarget : containsAny spec.target shellCharacters = false) (hescape : escape = 0x5C ∨ escape = 0x60)
    (hdrop : lines.drop idx = copyHeader spec :: more) : ∃ r, r <+: 0x20 :: (spec.target ++ ascii "\n") ∧
      instructionHeader lines idx escape = (spec.indent ++ (copyOpening d ++ r), idx) := by
  obtain ⟨r, hr, hline⟩ := trimRight_copy d (ascii "\r\n") (by decide +kernel) spec.indent
    (0x20 :: (spec.target ++ ascii "\n"))
  obtain ⟨r', hr', htrimmed⟩ := trimRight_copy d blanks (by decide +kernel) spec.indent r
  obtain ⟨r'', _, hspace⟩ := trimSpace_copy d hindent r
  have hcontinued := continued_copy d spec.indent hescape (hr'.trans hr) htarget
  refine ⟨r, hr, ?_⟩
  rw [instructionHeader, hdrop, joinHeader, copyHeader_eq htoken, hline]
  dsimp only
  rw [hspace, htrimmed, hcontinued]
  rfl

theorem readHeader_copy (hfe : fe.Documented) {more : List Bytes} {idx : Nat}
    (htoken : spec.delimiterToken = d.token) (hindent : ∀ b ∈ spec.indent, isBlank b = true)
    (htarget : containsAny spec.target shellCharacters = false) (hescape : escape = 0x5C ∨ escape = 0x60)
    (hdrop : lines.drop idx = copyHeader spec :: more) :
    readHeader fe lines idx escape = .ok ⟨idx, [d.heredoc], none⟩ := by
  obtain ⟨r, hr, hheader⟩ := instructionHeader_copy htoken hindent htarget hescape hdrop
  obtain ⟨r', hr', htrim⟩ := trimSpace_copy d hindent r
  obtain ⟨r'', hr'', hcommand⟩ := trimSpace_opening d r'
  have hbehind := hr''.trans (hr'.trans hr)
  have heffective : effectiveInstruction (spec.indent ++ (copyOpening d ++ r)) =
      (ascii "COPY", d.opening ++ r'', false) := by
    have hindex : indexAny (copyOpening d ++ r') blanks = some 4 := by rfl
    have hsplit : splitInstruction (spec.indent ++ (copyOpening d ++ r)) = (ascii "COPY", d.opening ++ r'') := by
      rw [splitInstruction, htrim, hindex, ← hcommand]
      rfl
    rw [effectiveInstruction, hsplit]
    rfl
  rw [readHeader_eq fe hheader heffective, if_neg (by decide)]
  exact readCommand_other fe (.inl rfl)
    (dockerfileHeredocs_opening hfe (behind_shape hbehind) (behind_plain hbehind htarget))

/-! ### The header that is rewritten -/

theorem readCommand_docs {headerEnd : Nat} {onbuild : Bool}
    (hread : readCommand fe start headerEnd plain (ascii "RUN") command onbuild = .ok header) :
    instructionHeredocs fe command = .ok header.docs ∧ ∀ spec, header.rewrite = some spec → rewritable onbuild spec = true := by
  simp only [readCommand] at hread
  split at hread
  · cases hread
  · split at hread
    · cases hread
    · rename_i spec hparse
      have hrewrite : ∀ spec', spec.filter (rewritable onbuild) = some spec' → rewritable onbuild spec' = true :=
        fun spec' hfilter => (Option.filter_eq_some_iff.1 hfilter).2
      rw [if_pos trivial] at hread
      cases hdocs : instructionHeredocs fe command with
      | error e =>
        rw [hdocs] at hread
        cases hread
      | ok docs =>
        rw [hdocs] at hread
        cases docs with
        | nil =>
          rw [← Except.ok.inj hread]
          exact ⟨rfl, hrewrite⟩
        | cons doc docs =>
          dsimp only at hread
          split_ifs at hread
          rw [← Except.ok.inj hread]
          exact ⟨rfl, hrewrite⟩

structure Rewritten (lines : List Bytes) (start : Nat) (escape : UInt8) (header : Header) (spec : LegacyHeredocSpec)
    (d : Delimiter) : Prop where
  line : ∃ command, splitInstruction (instructionHeader lines start escape).1 = (ascii "RUN", command) ∧
    LegacyLine (normalize (instructionHeader lines start escape).1 (ascii "RUN") command) spec d
  target : containsAny spec.target shellCharacters = false
  docs : header.docs = [d.heredoc]

theorem splitInstruction_trimmed (hsplit : splitInstruction plain = (instruction, command)) :
    trimSpace command = command := by
  rw [splitInstruction] at hsplit
  split at hsplit
  · rw [← (Prod.mk.inj hsplit).2]
    exact trimSpace_trimSpace _
  · rw [← (Prod.mk.inj hsplit).2]
    rfl

theorem splitInstruction_of_effective
    (heffective : effectiveInstruction plain = (instruction, command, false)) :
    splitInstruction plain = (instruction, command) := by
  rw [effectiveInstruction] at heffective
  rcases hsplit : splitInstruction plain with ⟨first, rest⟩
  rw [hsplit] at heffective
  dsimp only at heffective
  split_ifs at heffective
  · cases (Prod.mk.inj (Prod.mk.inj heffective).2).2
  · obtain ⟨rfl, hrest⟩ := Prod.mk.inj heffective
    rw [(Prod.mk.inj hrest).1]

theorem readHeader_rewritten (hfe : fe.Documented) (hread : readHeader fe lines start escape = .ok header)
    (hrewrite : header.rewrite = some spec) : ∃ d, Rewritten lines start escape header spec d := by
  rcases hheader : instructionHeader lines start escape with ⟨plain, headerEnd⟩
  rcases heffective : effectiveInstruction plain with ⟨instruction, command, onbuild⟩
  rw [readHeader_eq fe hheader heffective] at hread
  split_ifs at hread with hother
  · rw [← Except.ok.inj hread] at hrewrite
    cases hrewrite
  · have hkeyword : instruction = ascii "RUN" ∨ instruction = ascii "COPY" ∨ instruction = ascii "ADD" := by tauto
    obtain ⟨rfl, hparse⟩ := (readCommand_spec fe hread).2 spec hrewrite
    obtain ⟨rfl, _⟩ := legacy_instruction hkeyword hparse
    obtain ⟨hdocs, hrewritable⟩ := readCommand_docs hread
    obtain ⟨d, hlegacy⟩ := legacyLine_of_parse hparse
    have hsplit := splitInstruction_of_effective heffective
    have htarget : containsAny spec.target shellCharacters = false := by
      have hplain := hrewritable spec hrewrite
      rwa [rewritable, Bool.not_false, Bool.true_and, Bool.not_eq_true'] at hplain
    have hcat := hlegacy.catCommand
    rw [splitInstruction_trimmed hsplit] at hcat
    refine ⟨d, ⟨command, ?_, ?_⟩, htarget, instructionHeredocs_legacy hfe hcat htarget hdocs⟩
    · rw [hheader]
      exact hsplit
    · rw [hheader]
      exact hlegacy

/-! ### The directive of a header -/

theorem trimSpace_comment {raw t : Bytes} (hcomment : trimSpace raw = 0x23 :: t) :
    ∃ r, trimSpace (trimRight raw (ascii "\r\n")) = 0x23 :: r := by
  obtain ⟨more, hmore⟩ := trimRightSpace_isPrefix (trimLeftSpace raw)
  have hleft : trimLeftSpace raw = 0x23 :: (t ++ more) := by
    rw [← hmore]
    exact congrArg (· ++ more) hcomment
  obtain ⟨front, hraw, hfront⟩ := trimLeftSpace_front (by decide) (by decide) hleft
  obtain ⟨r, _, hline⟩ := trimRight_keeps (show (ascii "\r\n").contains 0x23 = false by decide) front (t ++ more)
  obtain ⟨r', _, hright⟩ := trimRightSpace_keeps (show (0x23 : UInt8) < 0x80 by decide) (by decide) [] r
  refine ⟨r', ?_⟩
  rw [hraw, hline, trimSpace, hfront]
  exact hright

theorem splitInstruction_comment {r : Bytes} (hcomment : trimSpace plain = 0x23 :: r)
    (hsplit : splitInstruction plain = (instruction, command)) : ∃ s, instruction = 0x23 :: s := by
  rw [splitInstruction, hcomment] at hsplit
  split at hsplit
  · rename_i pos hindex
    cases pos with
    | zero =>
      obtain ⟨_, hblank, _⟩ := findIdx?_eq_some_iff_getElem.1 hindex
      cases hblank
    | succ pos =>
      rw [take_succ_cons, toUpper_cons (by decide)] at hsplit
      exact ⟨_, (Prod.mk.inj hsplit).1.symm⟩
  · rw [toUpper_cons (by decide)] at hsplit
    exact ⟨_, (Prod.mk.inj hsplit).1.symm⟩

theorem Rewritten.not_comment (hrewritten : Rewritten lines start escape header spec d)
    (hstart : start < lines.length) : hasPrefix (trimSpace (lines.getD start [])) (ascii "#") = false := by
  obtain ⟨command, hsplit, _⟩ := hrewritten.line
  rw [Bool.eq_false_iff]
  intro hcomment
  have hdrop : lines.drop start = lines.getD start [] :: lines.drop (start + 1) := by
    rw [getD_eq_getElem?_getD, getElem?_eq_getElem hstart, drop_eq_getElem_cons hstart]
    rfl
  obtain ⟨t, ht⟩ := isPrefixOf_iff_prefix.1 hcomment
  obtain ⟨r, hr⟩ := trimSpace_comment (t := t) ht.symm
  have hheader : instructionHeader lines start escape = (trimRight (lines.getD start []) (ascii "\r\n"), start) := by
    rw [instructionHeader, hdrop, joinHeader, hr]
    dsimp only
    rw [if_pos (by rfl), if_pos rfl]
  rw [hheader] at hsplit
  obtain ⟨s, hs⟩ := splitInstruction_comment hr hsplit
  cases hs

end BuildkitService.Dockerfile
