import BuildkitService.Dockerfile.PassThrough

/-!
# What the legacy patterns accept

The two patterns of `parseLegacyCatHeredoc` read `RUN`, the word `cat`, a target and a heredoc
delimiter, the last two in one order or the other.
-/

namespace BuildkitService.Dockerfile

open Strings LinearRegex List

structure Delimiter where
  dash : Bool
  quote : Bytes
  name : Bytes
  quote_mem : quote = [] ∨ quote = ascii "'" ∨ quote = ascii "\""
  name_plain : ∃ b rest, name = b :: rest ∧ isNameStart b = true ∧ ∀ a ∈ rest, isNamePart a = true

namespace Delimiter

variable (d : Delimiter)

def mark : Bytes := if d.dash then ascii "-" else []

def word : Bytes := d.quote ++ d.name ++ d.quote

def token : Bytes := d.mark ++ d.word

def opening : Bytes := ascii "<<" ++ d.token

def heredoc : Heredoc := ⟨d.name, d.dash⟩

end Delimiter

def Gap (s : Bytes) : Prop := s ≠ [] ∧ ∀ b ∈ s, isBlank b = true

inductive CatCommand (d : Delimiter) (target : Bytes) : Bytes → Prop
  | redirectFirst {g₁ g₂ g₃ before after : Bytes} (hg₁ : Gap g₁) (hg₂ : Gap g₂) (hg₃ : Gap g₃)
      (hbefore : ∀ b ∈ before, isBlank b = true) (hafter : ∀ b ∈ after, isBlank b = true) :
      CatCommand d target (ascii "cat" ++ (g₁ ++ (ascii ">" ++ (g₂ ++ (target ++ (g₃ ++ (ascii "<<" ++
        (d.mark ++ (before ++ (d.word ++ after))))))))))
  | heredocFirst {g₁ g₂ g₃ before after : Bytes} (hg₁ : Gap g₁) (hg₂ : Gap g₂) (hg₃ : Gap g₃)
      (hbefore : ∀ b ∈ before, isBlank b = true) (hafter : ∀ b ∈ after, isBlank b = true) :
      CatCommand d target (ascii "cat" ++ (g₁ ++ (ascii "<<" ++ (d.mark ++ (before ++ (d.word ++ (g₂ ++
        (ascii ">" ++ (g₃ ++ (target ++ after))))))))))

variable {d : Delimiter} {target command s line dash nameRest nameStart quoteLeft quoteRight : Bytes}

section

variable (hcommand : CatCommand d target command)

include hcommand

theorem CatCommand.cat : ∃ rest, command = ascii "cat" ++ rest := by
  cases hcommand with
  | redirectFirst | heredocFirst => exact ⟨_, rfl⟩

theorem CatCommand.brackets : ascii "<<" <:+: command := by
  cases hcommand with
  | @redirectFirst g₁ g₂ g₃ before after =>
    refine ⟨ascii "cat" ++ (g₁ ++ (ascii ">" ++ (g₂ ++ (target ++ g₃)))), d.mark ++ (before ++ (d.word ++ after)), ?_⟩
    simp only [append_assoc]
  | @heredocFirst g₁ g₂ g₃ before after =>
    refine ⟨ascii "cat" ++ g₁, d.mark ++ (before ++ (d.word ++ (g₂ ++ (ascii ">" ++ (g₃ ++ (target ++ after)))))), ?_⟩
    simp only [append_assoc]

theorem CatCommand.target_subset : target ⊆ command := by
  intro b hb
  cases hcommand with
  | redirectFirst | heredocFirst =>
    simp only [mem_append]
    tauto

end

/-! ### The parts of a match -/

variable {items : List Item} {groups : List Bytes}

theorem gap_of_takes {piece : Bytes} (htakes : someBlanks.Takes piece) : Gap piece := by
  refine ⟨?_, htakes.class_⟩
  rintro rfl
  exact absurd (htakes.plus rfl) (by simp)

theorem eq_nil_or_singleton {piece : Bytes} (hpiece : piece.length ≤ 1) : piece = [] ∨ ∃ b, piece = [b] := by
  match piece with
  | [] => exact .inl rfl
  | [b] => exact .inr ⟨b, rfl⟩
  | _ :: _ :: _ => exact absurd hpiece (by simp)

theorem match_delimiter (hmatch : matchItems true (delimiter ++ items) s = some groups) :
    ∃ dash before quoteLeft nameStart nameRest quoteRight rest others,
      groups = dash :: quoteLeft :: nameStart :: nameRest :: quoteRight :: others ∧
      matchItems true items rest = some others ∧ (∀ b ∈ before, isBlank b = true) ∧
      s = ascii "<<" ++ (dash ++ (before ++ (quoteLeft ++ (nameStart ++ (nameRest ++ (quoteRight ++ rest)))))) ∧
      (quoteLeft = quoteRight → ∃ d : Delimiter, d.mark = dash ∧
        d.word = quoteLeft ++ ((nameStart ++ nameRest) ++ quoteRight)) := by
  rw [delimiter, append_assoc] at hmatch
  obtain ⟨s₁, rfl, hmatch₁⟩ := matchItems_literal hmatch
  obtain ⟨dash, s₂, groups₂, rfl, hdash, hmatch₂, rfl⟩ := matchItems_item hmatch₁
  obtain ⟨before, s₃, groups₃, rfl, hbefore, hmatch₃, rfl⟩ := matchItems_item hmatch₂
  obtain ⟨quoteLeft, s₄, groups₄, rfl, hquote, hmatch₄, rfl⟩ := matchItems_item hmatch₃
  obtain ⟨nameStart, s₅, groups₅, rfl, hstart, hmatch₅, rfl⟩ := matchItems_item hmatch₄
  obtain ⟨nameRest, s₆, groups₆, rfl, hrest, hmatch₆, rfl⟩ := matchItems_item hmatch₅
  obtain ⟨quoteRight, s₇, groups₇, rfl, _, hmatch₇, rfl⟩ := matchItems_item hmatch₆
  refine ⟨dash, before, quoteLeft, nameStart, nameRest, quoteRight, s₇, groups₇, rfl, hmatch₇, hbefore.class_, rfl, ?_⟩
  rintro rfl
  obtain ⟨b, rfl⟩ := length_eq_one_iff.1 (hstart.once rfl)
  have hname : ∃ a rest, [b] ++ nameRest = a :: rest ∧ isNameStart a = true ∧ ∀ c ∈ rest, isNamePart c = true :=
    ⟨b, nameRest, rfl, hstart.class_ b mem_cons_self, hrest.class_⟩
  have hquoted : quoteLeft = [] ∨ quoteLeft = ascii "'" ∨ quoteLeft = ascii "\"" := by
    rcases eq_nil_or_singleton (hquote.opt rfl) with rfl | ⟨q, rfl⟩
    · exact .inl rfl
    · have hq := hquote.class_ q mem_cons_self
      simp only [isQuote, Bool.or_eq_true, beq_iff_eq] at hq
      rcases hq with rfl | rfl
      · exact .inr (.inl rfl)
      · exact .inr (.inr rfl)
  rcases eq_nil_or_singleton (hdash.opt rfl) with rfl | ⟨m, rfl⟩
  · exact ⟨⟨false, quoteLeft, [b] ++ nameRest, hquoted, hname⟩, rfl, append_assoc _ _ _⟩
  · obtain rfl : m = 0x2D := beq_iff_eq.1 (hdash.class_ m mem_cons_self)
    exact ⟨⟨true, quoteLeft, [b] ++ nameRest, hquoted, hname⟩, rfl, append_assoc _ _ _⟩

theorem match_start (hmatch : matchItems true (runCat ++ items) line = some groups) :
    ∃ indent gap g₁ rest others, groups = indent :: others ∧ matchItems true items rest = some others ∧
      line = indent ++ (ascii "RUN" ++ (gap ++ (ascii "cat" ++ (g₁ ++ rest)))) ∧
      (∀ b ∈ indent, isBlank b = true) ∧ Gap gap ∧ Gap g₁ := by
  have hitems : runCat ++ items = ⟨isBlank, .star, true⟩ :: (literal "RUN" ++ (someBlanks ::
      (literal "cat" ++ (someBlanks :: items)))) := rfl
  rw [hitems] at hmatch
  obtain ⟨indent, s₁, groups₁, rfl, hindent, hmatch₁, rfl⟩ := matchItems_item hmatch
  obtain ⟨s₂, rfl, hmatch₂⟩ := matchItems_literal hmatch₁
  obtain ⟨gap, s₃, groups₃, rfl, hgap, hmatch₃, rfl⟩ := matchItems_item hmatch₂
  obtain ⟨s₄, rfl, hmatch₄⟩ := matchItems_literal hmatch₃
  obtain ⟨g₁, rest, groups₅, rfl, hg₁, hmatch₅, rfl⟩ := matchItems_item hmatch₄
  exact ⟨indent, gap, g₁, rest, _, rfl, hmatch₅, rfl, hindent.class_, gap_of_takes hgap, gap_of_takes hg₁⟩

theorem match_last {item : Item} (hmatch : matchItems true [item] s = some groups) :
    item.Takes s ∧ groups = if item.captured then [s] else [] := by
  obtain ⟨piece, rest, others, rfl, htakes, hrest, hgroups⟩ := matchItems_item hmatch
  rw [matchItems] at hrest
  split_ifs at hrest with hend
  obtain rfl : rest = [] := by simpa using hend
  rw [append_nil]
  exact ⟨htakes, hgroups.trans (by rw [← Option.some.inj hrest])⟩

structure LegacyLine (line : Bytes) (spec : LegacyHeredocSpec) (d : Delimiter) : Prop where
  token : spec.delimiterToken = d.token
  indent : ∀ b ∈ spec.indent, isBlank b = true
  command : ∃ gap command, line = spec.indent ++ (ascii "RUN" ++ (gap ++ command)) ∧ Gap gap ∧
    CatCommand d spec.target command

theorem token_of_parts (hmark : d.mark = dash)
    (hword : d.word = quoteLeft ++ ((nameStart ++ nameRest) ++ quoteRight)) :
    dash ++ quoteLeft ++ nameStart ++ nameRest ++ quoteRight = d.token := by
  rw [Delimiter.token, hmark, hword]
  simp only [append_assoc]

theorem legacyLine_redirect {indent : Bytes}
    (hmatch : matchItems true runCatRedirectHeredocPattern line = some [indent, target, dash, quoteLeft, nameStart, nameRest, quoteRight])
    (hquotes : quoteLeft = quoteRight) :
    ∃ d, LegacyLine line ⟨indent, target, dash ++ quoteLeft ++ nameStart ++ nameRest ++ quoteRight⟩ d := by
  have hitems : runCatRedirectHeredocPattern =
      runCat ++ (literal ">" ++ (someBlanks :: redirectTarget :: someBlanks :: (delimiter ++ [anyBlanks]))) := rfl
  rw [hitems] at hmatch
  obtain ⟨indent', gap, g₁, s₁, groups₁, hgroups, hmatch₁, hline, hindent, hgap, hg₁⟩ := match_start hmatch
  obtain ⟨rfl, rfl⟩ := cons.inj hgroups
  obtain ⟨s₂, rfl, hmatch₂⟩ := matchItems_literal hmatch₁
  obtain ⟨g₂, s₃, groups₃, rfl, hg₂, hmatch₃, hgroups₃⟩ := matchItems_item hmatch₂
  obtain rfl : _ = groups₃ := hgroups₃
  obtain ⟨target', s₄, groups₄, rfl, _, hmatch₄, hgroups₄⟩ := matchItems_item hmatch₃
  obtain ⟨rfl, rfl⟩ := cons.inj (show target :: _ = target' :: groups₄ from hgroups₄)
  obtain ⟨g₃, s₅, groups₅, rfl, hg₃, hmatch₅, hgroups₅⟩ := matchItems_item hmatch₄
  obtain rfl : _ = groups₅ := hgroups₅
  obtain ⟨_, before, _, _, _, _, after, _, hgroups₆, hmatch₆, hbefore, rfl, hdelimiter⟩ := match_delimiter hmatch₅
  simp only [cons.injEq] at hgroups₆
  obtain ⟨rfl, rfl, rfl, rfl, rfl, rfl⟩ := hgroups₆
  obtain ⟨d, hmark, hword⟩ := hdelimiter hquotes
  refine ⟨d, token_of_parts hmark hword, hindent, gap, _, hline, hgap, ?_⟩
  have hform : CatCommand d target _ := .redirectFirst hg₁ (gap_of_takes hg₂) (gap_of_takes hg₃) hbefore
    (match_last hmatch₆).1.class_
  rw [hmark, hword] at hform
  simp only [append_assoc] at hform ⊢
  exact hform

theorem legacyLine_heredoc {indent : Bytes}
    (hmatch : matchItems true runCatHeredocRedirectPattern line = some [indent, dash, quoteLeft, nameStart, nameRest, quoteRight, target])
    (hquotes : quoteLeft = quoteRight) :
    ∃ d, LegacyLine line ⟨indent, target, dash ++ quoteLeft ++ nameStart ++ nameRest ++ quoteRight⟩ d := by
  have hitems : runCatHeredocRedirectPattern =
      runCat ++ (delimiter ++ (someBlanks :: (literal ">" ++ [someBlanks, redirectTarget, anyBlanks]))) := rfl
  rw [hitems] at hmatch
  obtain ⟨indent', gap, g₁, s₁, groups₁, hgroups, hmatch₁, hline, hindent, hgap, hg₁⟩ := match_start hmatch
  obtain ⟨rfl, rfl⟩ := cons.inj hgroups
  obtain ⟨_, before, _, _, _, _, s₂, _, hgroups₂, hmatch₂, hbefore, rfl, hdelimiter⟩ := match_delimiter hmatch₁
  simp only [cons.injEq] at hgroups₂
  obtain ⟨rfl, rfl, rfl, rfl, rfl, rfl⟩ := hgroups₂
  obtain ⟨g₂, s₃, groups₃, rfl, hg₂, hmatch₃, hgroups₃⟩ := matchItems_item hmatch₂
  obtain rfl : _ = groups₃ := hgroups₃
  obtain ⟨s₄, rfl, hmatch₄⟩ := matchItems_literal hmatch₃
  obtain ⟨g₃, s₅, groups₅, rfl, hg₃, hmatch₅, hgroups₅⟩ := matchItems_item hmatch₄
  obtain rfl : _ = groups₅ := hgroups₅
  obtain ⟨target', after, groups₆, rfl, _, hmatch₆, hgroups₆⟩ := matchItems_item hmatch₅
  obtain ⟨rfl, rfl⟩ := cons.inj (show target :: _ = target' :: groups₆ from hgroups₆)
  obtain ⟨d, hmark, hword⟩ := hdelimiter hquotes
  refine ⟨d, token_of_parts hmark hword, hindent, gap, _, hline, hgap, ?_⟩
  have hform : CatCommand d target _ := .heredocFirst hg₁ (gap_of_takes hg₂) (gap_of_takes hg₃) hbefore
    (match_last hmatch₆).1.class_
  rw [hmark, hword] at hform
  simp only [append_assoc] at hform ⊢
  exact hform

theorem legacyLine_of_parse {lineNumber : Nat} {spec : LegacyHeredocSpec}
    (hparse : parseLegacyCatHeredoc line lineNumber = .ok (some spec)) : ∃ d, LegacyLine line spec d := by
  rw [parseLegacyCatHeredoc] at hparse
  split at hparse
  · rename_i hmatch
    split_ifs at hparse with hquotes
    rw [← Option.some.inj (Except.ok.inj hparse)]
    exact legacyLine_redirect hmatch (not_not.1 hquotes)
  · split at hparse
    · rename_i hmatch
      split_ifs at hparse with hquotes
      rw [← Option.some.inj (Except.ok.inj hparse)]
      exact legacyLine_heredoc hmatch (not_not.1 hquotes)
    · cases hparse

theorem LegacyLine.catCommand {plain : Bytes} {spec : LegacyHeredocSpec}
    (hlegacy : LegacyLine (normalize plain (ascii "RUN") command) spec d) :
    CatCommand d spec.target (trimSpace command) := by
  obtain ⟨gap, found, hline, ⟨hne, hgap⟩, hcat⟩ := hlegacy.command
  have hblank : ∀ b ∈ leadingBlanks plain, isBlank b = true := fun b hb => mem_takeWhile_imp hb
  have hindent : leadingBlanks plain = spec.indent := by
    have hleft : (leadingBlanks plain ++ 0x52 :: (ascii "UN" ++ (ascii " " ++ trimSpace command))).takeWhile isBlank =
        leadingBlanks plain := takeWhile_of_split hblank (by decide)
    have hright : (spec.indent ++ 0x52 :: (ascii "UN" ++ (gap ++ found))).takeWhile isBlank = spec.indent :=
      takeWhile_of_split hlegacy.indent (by decide)
    rw [normalize_eq] at hline
    rw [← hleft, ← hright]
    exact congrArg (takeWhile isBlank) hline
  rw [normalize_eq, hindent, append_cancel_left_eq, append_cancel_left_eq] at hline
  obtain ⟨b, gap, rfl⟩ := exists_cons_of_ne_nil hne
  have hrest : trimSpace command = gap ++ found := (List.cons.inj hline).2
  -- the command does not start with a blank, so the gap is the one blank before it
  cases gap with
  | nil => rwa [hrest]
  | cons a gap =>
    have ha := hgap a (mem_cons_of_mem _ mem_cons_self)
    have hspace := asciiSpace_of_trimSpace hrest
    simp only [isBlank, Bool.or_eq_true, beq_iff_eq] at ha
    rcases ha with rfl | rfl
    · cases hspace
    · cases hspace

end BuildkitService.Dockerfile
