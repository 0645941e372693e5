import BuildkitService.Dockerfile.Heredoc

/-!
# The rewriting loop

One iteration of `TransformLegacyHeredocs` reads a parser directive, the header of one instruction
and the heredocs that header opens, and emits either the source lines or a `COPY` header followed by
the heredoc lines.
-/

namespace BuildkitService.Dockerfile

open Strings

variable (fe : Frontend)

def atLine (start : Nat) (text : Bytes) : Bytes :=
  ascii "Dockerfile line " ++ decimal (start + 1) ++ ascii ": " ++ text

/-! ### Which heredocs a header opens -/

def jsonCommand (command : Bytes) : Bool :=
  if fe.jsonValid command then true
  else if !hasPrefix command (ascii "--") || !contains command (ascii "[") then false
  else fe.parsesAsJSON (ascii "RUN " ++ command ++ ascii "\n")

def redirectToken (command : Bytes) (redirect : HeredocRedirect) : Bytes :=
  (if redirect.dash then ascii "<<-" else ascii "<<") ++ ascii " " ++
    (command.take redirect.wordEnd).drop redirect.wordPos

def walkRedirects (command : Bytes) :
    List HeredocRedirect → List Heredoc × Option Bytes → List Heredoc × Option Bytes
  | [], found => found
  | redirect :: rest, (docs, parseErr) =>
      match fe.parseHeredoc (redirectToken command redirect) with
      | .error e => walkRedirects command rest (docs, some e)
      | .ok none => walkRedirects command rest (docs, parseErr)
      | .ok (some doc) => walkRedirects command rest (docs ++ [doc], parseErr)

def instructionHeredocs (command : Bytes) : Except Bytes (List Heredoc) :=
  if !contains command (ascii "<<") || jsonCommand fe command then .ok []
  else
    let (redirects, shellErr) := fe.shellRedirects command
    let (docs, parseErr) := walkRedirects fe command redirects ([], none)
    match docs, shellErr, parseErr with
    | [], some e, _ => .error (ascii "cannot validate heredoc header: " ++ e ++
        ascii "; use native COPY heredoc with separate RUN instructions")
    | _, _, some e => .error e
    | docs, _, none => .ok docs

def parseWords : List Bytes → Except Bytes (List Heredoc)
  | [] => .ok []
  | word :: words =>
      match fe.parseHeredoc word with
      | .error e => .error e
      | .ok none => parseWords words
      | .ok (some doc) => (parseWords words).map fun docs => doc :: docs

def dockerfileHeredocs (command : Bytes) : Except Bytes (List Heredoc) :=
  if !contains command (ascii "<<") || jsonCommand fe command then .ok []
  else match fe.processWords command with
    | .error e => .error e
    | .ok words => parseWords fe words

def firstWordIsHeredoc : List Bytes → Bool
  | [] => false
  | word :: words =>
      if hasPrefix word (ascii "--") then firstWordIsHeredoc words
      else hasPrefix word (ascii "<<") && !hasPrefix word (ascii "<<<")

def nativeRunHeredoc (command : Bytes) : Bool :=
  match fe.processWords command with
  | .error _ => false
  | .ok words => firstWordIsHeredoc words

/-! ### One instruction -/

structure Header where
  headerEnd : Nat
  docs : List Heredoc
  rewrite : Option LegacyHeredocSpec
  deriving DecidableEq, Repr

def unsupported (name : Bytes) : Bytes :=
  ascii "unsupported RUN heredoc " ++ quote name ++
    ascii "; shell command chains, append redirects and other complex forms cannot be safely rewritten; split file creation into a standalone RUN cat > /path <<'EOF', or use native COPY <<'EOF' /path with separate RUN instructions"

def unsupportedAppend (start : Nat) : Bytes :=
  ascii "line " ++ decimal (start + 1) ++
    ascii ": append heredoc with cat >> is not supported; use Dockerfile COPY heredoc or split the append into an explicit RUN"

def normalize (plain instruction command : Bytes) : Bytes :=
  plain.take (plain.length - (trimLeft plain blanks).length) ++ instruction ++ ascii " " ++
    trimSpace command

def effectiveInstruction (plain : Bytes) : Bytes × Bytes × Bool :=
  let (instruction, command) := splitInstruction plain
  if instruction = ascii "ONBUILD" then
    let (inner, command) := splitInstruction command
    (inner, command, true)
  else (instruction, command, false)

def rewritable (onbuild : Bool) (spec : LegacyHeredocSpec) : Bool :=
  !onbuild && !containsAny spec.target shellCharacters

def readCommand (start headerEnd : Nat) (plain instruction command : Bytes) (onbuild : Bool) :
    Except Bytes Header :=
  let line := normalize plain instruction command
  if (LinearRegex.matchItems false runCatAppendHeredocPattern line).isSome then
    .error (unsupportedAppend start)
  else match parseLegacyCatHeredoc line (start + 1) with
    | .error e => .error e
    | .ok spec =>
        let rewrite := spec.filter (rewritable onbuild)
        let found := if instruction = ascii "RUN" then instructionHeredocs fe command
          else dockerfileHeredocs fe command
        match found with
        | .error e => .error (atLine start e)
        | .ok [] => .ok ⟨headerEnd, [], rewrite⟩
        | .ok (doc :: docs) =>
            if instruction = ascii "RUN" ∧ rewrite = none ∧ nativeRunHeredoc fe command = false then
              .error (atLine start (unsupported doc.name))
            else .ok ⟨headerEnd, doc :: docs, rewrite⟩

def readHeader (lines : List Bytes) (start : Nat) (escape : UInt8) : Except Bytes Header :=
  let (plain, headerEnd) := instructionHeader lines start escape
  let (instruction, command, onbuild) := effectiveInstruction plain
  if instruction ≠ ascii "RUN" ∧ instruction ≠ ascii "COPY" ∧ instruction ≠ ascii "ADD" then
    .ok ⟨headerEnd, [], none⟩
  else readCommand fe start headerEnd plain instruction command onbuild

/-! ### Heredoc bodies -/

def isTerminator (delimiter : Bytes) (stripTabs : Bool) (raw : Bytes) : Bool :=
  let line := trimSuffix (trimSuffix raw (ascii "\n")) (ascii "\r")
  let candidate := if stripTabs then trimLeft line (ascii "\t") else line
  candidate == delimiter

def findHeredocEnd (lines : List Bytes) (start : Nat) (delimiter : Bytes) (stripTabs : Bool) :
    Option Nat :=
  ((lines.drop start).findIdx? (isTerminator delimiter stripTabs)).map (· + start)

structure Span where
  doc : Heredoc
  bodyStart : Nat
  stop : Nat
  deriving DecidableEq, Repr

def heredocSpans (lines : List Bytes) : Nat → List Heredoc → List Span × Option Heredoc
  | _, [] => ([], none)
  | idx, doc :: docs =>
      match findHeredocEnd lines (idx + 1) doc.name doc.chomp with
      | none => ([], some doc)
      | some stop =>
          let (spans, missing) := heredocSpans lines stop docs
          (⟨doc, idx + 1, stop⟩ :: spans, missing)

def lastLine (headerEnd : Nat) (spans : List Span) : Nat :=
  match spans.getLast? with
  | none => headerEnd
  | some span => span.stop

/-! ### The loop -/

structure LoopState where
  idx : Nat
  out : List Bytes
  changed : Bool
  escape : UInt8
  directives : fe.Directives

def updateEscape (escape : UInt8) : Option Directive → UInt8
  | some directive =>
      if directive.name = ascii "escape" ∧ (directive.value = ascii "\\" ∨ directive.value = ascii "`")
      then directive.value.headD escape else escape
  | none => escape

def copyHeader (spec : LegacyHeredocSpec) : Bytes :=
  spec.indent ++ ascii "COPY <<" ++ spec.delimiterToken ++ ascii " " ++ spec.target ++ ascii "\n"

def emit (lines : List Bytes) (start stop : Nat) (header : Header) : List Bytes :=
  match header.rewrite with
  | some spec => copyHeader spec :: slice lines (header.headerEnd + 1) (stop + 1)
  | none => slice lines start (stop + 1)

def directiveHeader (lines : List Bytes) (st : LoopState fe) :
    Except Bytes (fe.Directives × UInt8 × Header) :=
  match fe.parseLine st.directives (trimSpace (lines.getD st.idx [])) with
  | (_, .error e) => .error (atLine st.idx e)
  | (directives, .ok directive) =>
      let escape := updateEscape st.escape directive
      match readHeader fe lines st.idx escape with
      | .error e => .error e
      | .ok header => .ok (directives, escape, header)

def advance (lines : List Bytes) (st : LoopState fe) : Except Bytes (LoopState fe) :=
  match directiveHeader fe lines st with
  | .error e => .error e
  | .ok (directives, escape, header) =>
      match heredocSpans lines header.headerEnd header.docs with
      | (_, some doc) =>
          .error (atLine st.idx (ascii "heredoc delimiter " ++ quote doc.name ++ ascii " was not found"))
      | (spans, none) =>
          let stop := lastLine header.headerEnd spans
          .ok ⟨stop + 1, st.out ++ emit lines st.idx stop header,
            st.changed || header.rewrite.isSome, escape, directives⟩

def loop (lines : List Bytes) : Nat → LoopState fe → Except Bytes (LoopState fe)
  | 0, st => .ok st
  | fuel + 1, st =>
      if st.idx < lines.length then
        match advance fe lines st with
        | .error e => .error e
        | .ok st' => loop lines fuel st'
      else .ok st

def initial : LoopState fe := ⟨0, [], false, 0x5C, fe.newDirectives⟩

def transformLegacyHeredocs (raw : Bytes) : Except Bytes (Bytes × Bool) :=
  let lines := splitDockerfileLines raw
  match loop fe lines lines.length (initial fe) with
  | .error e => .error e
  | .ok st => if st.changed then .ok (st.out.flatten, true) else .ok (raw, false)

end BuildkitService.Dockerfile
