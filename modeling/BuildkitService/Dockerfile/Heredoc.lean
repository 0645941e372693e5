import BuildkitService.Lib.LinearRegex

/-!
# The heredoc preprocessor

`pkg/dockerfilepreprocess`: the loop of `TransformLegacyHeredocs` over the lines of a Dockerfile,
with its helpers.
-/

namespace BuildkitService.Dockerfile

open Strings

structure Heredoc where
  name : Bytes
  chomp : Bool
  deriving DecidableEq, Repr

structure Directive where
  name : Bytes
  value : Bytes
  deriving DecidableEq, Repr

structure HeredocRedirect where
  dash : Bool
  wordPos : Nat
  wordEnd : Nat
  deriving DecidableEq, Repr

structure Frontend where
  /-- The state of a `parser.DirectiveParser`. -/
  Directives : Type
  newDirectives : Directives
  /-- `DirectiveParser.ParseLine`. -/
  parseLine : Directives → Bytes → Directives × Except Bytes (Option Directive)
  /-- `json.Valid`. -/
  jsonValid : Bytes → Bool
  /-- Whether `parser.Parse` reads the text as one instruction in JSON form. -/
  parsesAsJSON : Bytes → Bool
  /-- The heredoc redirections with a word that `syntax.Walk` meets in what the shell parser returns,
  with the parser's error. -/
  shellRedirects : Bytes → List HeredocRedirect × Option Bytes
  /-- `parser.ParseHeredoc`. -/
  parseHeredoc : Bytes → Except Bytes (Option Heredoc)
  /-- `ProcessWords` of the Dockerfile word lexer, raw quotes and escapes kept. -/
  processWords : Bytes → Except Bytes (List Bytes)

/-! ### Lines and headers -/

def blanks : Bytes := ascii " \t"

def splitDockerfileLines (content : Bytes) : List Bytes :=
  if content.isEmpty then []
  else
    let parts := splitAfter 0x0A content
    if parts.getLast? = some [] then parts.dropLast else parts

def slice (lines : List Bytes) (start stop : Nat) : List Bytes := (lines.take stop).drop start

def splitInstruction (header : Bytes) : Bytes × Bytes :=
  let header := trimSpace header
  match indexAny header blanks with
  | some pos => (toUpper (header.take pos), trimSpace (header.drop (pos + 1)))
  | none => (toUpper header, [])

def continued (trimmed : Bytes) (escape : UInt8) : Bool :=
  match trimmed.reverse with
  | [] => false
  | [last] => last == escape
  | last :: previous :: _ => last == escape && previous != escape

def joinHeader (escape : UInt8) (start : Nat) : List Bytes → Nat → Bytes → Bytes × Nat
  | [], stop, header => (header, stop - 1)
  | raw :: rest, stop, header =>
      let line := trimRight raw (ascii "\r\n")
      if hasPrefix (trimSpace line) (ascii "#") || (trimSpace line).isEmpty then
        if stop = start then (line, stop) else joinHeader escape start rest (stop + 1) header
      else
        let trimmed := trimRight line blanks
        if continued trimmed escape then
          joinHeader escape start rest (stop + 1) (header ++ trimmed.dropLast)
        else (header ++ line, stop)

def instructionHeader (lines : List Bytes) (start : Nat) (escape : UInt8) : Bytes × Nat :=
  joinHeader escape start (lines.drop start) start []

/-! ### The legacy patterns -/

section Patterns

open LinearRegex

def isBlank (b : UInt8) : Bool := b == 0x20 || b == 0x09

def isQuote (b : UInt8) : Bool := b == 0x27 || b == 0x22

def isNameStart (b : UInt8) : Bool :=
  (0x41 ≤ b && b ≤ 0x5A) || (0x61 ≤ b && b ≤ 0x7A) || b == 0x5F

def isNamePart (b : UInt8) : Bool := isNameStart b || (0x30 ≤ b && b ≤ 0x39)

def someBlanks : Item := ⟨isBlank, .plus, false⟩

def anyBlanks : Item := ⟨isBlank, .star, false⟩

def runCat : List Item :=
  [⟨isBlank, .star, true⟩] ++ literal "RUN" ++ [someBlanks] ++ literal "cat" ++ [someBlanks]

def redirectTarget : Item := ⟨fun b => !isBlank b, .plus, true⟩

def delimiter : List Item :=
  literal "<<" ++ [⟨fun b => b == 0x2D, .opt, true⟩, anyBlanks, ⟨isQuote, .opt, true⟩,
    ⟨isNameStart, .once, true⟩, ⟨isNamePart, .star, true⟩, ⟨isQuote, .opt, true⟩]

def runCatRedirectHeredocPattern : List Item :=
  runCat ++ literal ">" ++ [someBlanks, redirectTarget, someBlanks] ++ delimiter ++ [anyBlanks]

def runCatHeredocRedirectPattern : List Item :=
  runCat ++ delimiter ++ [someBlanks] ++ literal ">" ++ [someBlanks, redirectTarget, anyBlanks]

def runCatAppendHeredocPattern : List Item :=
  [anyBlanks] ++ literal "RUN" ++ [someBlanks] ++ literal "cat" ++ [someBlanks] ++ literal ">>" ++
    [someBlanks, ⟨fun b => !isBlank b, .plus, false⟩, someBlanks] ++ literal "<<"

end Patterns

structure LegacyHeredocSpec where
  indent : Bytes
  target : Bytes
  delimiterToken : Bytes
  deriving DecidableEq, Repr

def mismatchedQuotes (lineNumber : Nat) : Bytes :=
  ascii "line " ++ decimal lineNumber ++ ascii ": mismatched heredoc delimiter quotes"

def parseLegacyCatHeredoc (line : Bytes) (lineNumber : Nat) :
    Except Bytes (Option LegacyHeredocSpec) :=
  match LinearRegex.matchItems true runCatRedirectHeredocPattern line with
  | some [indent, target, dash, quoteLeft, nameStart, nameRest, quoteRight] =>
      if quoteLeft ≠ quoteRight then .error (mismatchedQuotes lineNumber)
      else .ok (some ⟨indent, target, dash ++ quoteLeft ++ nameStart ++ nameRest ++ quoteRight⟩)
  | _ =>
    match LinearRegex.matchItems true runCatHeredocRedirectPattern line with
    | some [indent, dash, quoteLeft, nameStart, nameRest, quoteRight, target] =>
        if quoteLeft ≠ quoteRight then .error (mismatchedQuotes lineNumber)
        else .ok (some ⟨indent, target, dash ++ quoteLeft ++ nameStart ++ nameRest ++ quoteRight⟩)
    | _ => .ok none

def shellCharacters : Bytes := ascii "$`\\\"'~*?[]\x7b\x7d;&|<>()"

end BuildkitService.Dockerfile
