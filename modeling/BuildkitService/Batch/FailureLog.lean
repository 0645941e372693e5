import BuildkitService.Lib.Files
import BuildkitService.Lib.Json
import BuildkitService.Lib.Lines
import BuildkitService.Lib.Runs

/-!
# The log of failures

`failureLogStore` of `internal/buildbatch/failure_log_store.go`, with the limit on the size of its
file as a parameter.
-/

namespace BuildkitService.Batch

open Strings List Prog Runs

/-! ### Lines -/

structure FailureLogEntry where
  target : Bytes
  success : Bool
  logs : Bytes
  deriving DecidableEq, Repr

def FailureLogEntry.marshal (entry : FailureLogEntry) : Bytes :=
  ascii "\x7b\"target\":" ++ Json.string entry.target ++
    ascii ",\"success\":" ++ (if entry.success then ascii "true" else ascii "false") ++
    ascii ",\"logs\":" ++ Json.string entry.logs ++ ascii "\x7d"

def truncatedFailureLogSuffix : Bytes := ascii "\n...[truncated to fit logs file limit]\n"

def FailureLogEntry.fits (maxSize : Nat) (entry : FailureLogEntry) : Bool := entry.marshal.length + 1 ≤ maxSize

def truncateLoop (maxSize : Nat) (target logs : Bytes) : (passes low stop : Nat) → Bytes → Bytes
  | 0, _, _, best => best
  | passes + 1, low, stop, best =>
      if low < stop then
        let mid := low + (stop - 1 - low) / 2
        let candidate := logs.take mid ++ truncatedFailureLogSuffix
        if FailureLogEntry.fits maxSize ⟨target, false, candidate⟩ then
          truncateLoop maxSize target logs passes (mid + 1) stop candidate
        else truncateLoop maxSize target logs passes low mid best
      else best

def truncateFailureLogPayload (maxSize : Nat) (target logs : Bytes) : Except Bytes Bytes :=
  let best := truncateLoop maxSize target logs (logs.length + 1) 0 (logs.length + 1) []
  if best ≠ [] then .ok best
  else if !FailureLogEntry.fits maxSize ⟨target, false, truncatedFailureLogSuffix⟩ then
    .error (ascii "failure log metadata for " ++ target ++ ascii " exceeds maximum file size")
  else .ok truncatedFailureLogSuffix

def marshalFailureLogLine (maxSize : Nat) (entry : FailureLogEntry) : Except Bytes Bytes :=
  if entry.fits maxSize then .ok (entry.marshal ++ [Json.newline])
  else match truncateFailureLogPayload maxSize entry.target entry.logs with
    | .error err => .error err
    | .ok truncatedLogs =>
        let entry := { entry with logs := truncatedLogs }
        if !entry.fits maxSize then
          .error (ascii "failure log for " ++ entry.target ++ ascii " exceeds maximum file size")
        else .ok (entry.marshal ++ [Json.newline])

/-! ### The store -/

inductive LogOp where
  | mkdirAll (dir : Bytes)
  | openAppend (path : Bytes)
  | write (payload : Bytes)
  | sync
  | size
  | close
  | openRead (path : Bytes)
  | seek (offset : Nat)
  /-- `ReadBytes('\n')` of a new `bufio.Reader`; nothing at the end of the file. -/
  | readBytes
  | createTemp (dir pattern : Bytes)
  | copy
  | syncTemp
  | closeTemp
  | removeTemp
  | rename (path : Bytes)
  deriving DecidableEq, Repr

def LogRes : LogOp → Type
  | .size => Except GoError Nat
  | .readBytes => Except GoError (Option Bytes)
  | .close | .removeTemp => Unit
  | _ => Except GoError Unit

abbrev LogProg := Prog LogOp LogRes

namespace LogProg

def mkdirAll (dir : Bytes) : LogProg (Except GoError Unit) := Prog.op (LogOp.mkdirAll dir)

def openAppend (path : Bytes) : LogProg (Except GoError Unit) := Prog.op (LogOp.openAppend path)

def write (payload : Bytes) : LogProg (Except GoError Unit) := Prog.op (LogOp.write payload)

def sync : LogProg (Except GoError Unit) := Prog.op LogOp.sync

def size : LogProg (Except GoError Nat) := Prog.op LogOp.size

def close : LogProg Unit := Prog.op LogOp.close

def openRead (path : Bytes) : LogProg (Except GoError Unit) := Prog.op (LogOp.openRead path)

def seek (offset : Nat) : LogProg (Except GoError Unit) := Prog.op (LogOp.seek offset)

def readBytes : LogProg (Except GoError (Option Bytes)) := Prog.op LogOp.readBytes

def createTemp (dir pattern : Bytes) : LogProg (Except GoError Unit) := Prog.op (LogOp.createTemp dir pattern)

def copy : LogProg (Except GoError Unit) := Prog.op LogOp.copy

def syncTemp : LogProg (Except GoError Unit) := Prog.op LogOp.syncTemp

def closeTemp : LogProg (Except GoError Unit) := Prog.op LogOp.closeTemp

def removeTemp : LogProg Unit := Prog.op LogOp.removeTemp

def rename (path : Bytes) : LogProg (Except GoError Unit) := Prog.op (LogOp.rename path)

end LogProg

open LogProg

def deferring {α : Type} (last : LogProg Unit) (p : LogProg α) : LogProg α := do
  let r ← p
  let () ← last
  pure r

def appendFailureLogLine (path payload : Bytes) : LogProg (Except GoError Nat) :=
  attempt (openAppend path) fun () => deferring close <|
    attempt (write payload) fun () => attempt sync fun () => size

def findFailureLogKeepOffset (trimBytes currentSize : Nat) : LogProg (Except GoError Nat) :=
  if trimBytes = 0 then pure (.ok 0)
  else attempt (seek trimBytes) fun () => attempt readBytes fun read =>
    match read with
    | some discarded => pure (.ok (trimBytes + discarded.length))
    | none => pure (.ok currentSize)

def trimFailureLogFile (maxSize : Nat) (path : Bytes) (currentSize : Nat) : LogProg (Except GoError Unit) :=
  if currentSize ≤ maxSize then pure (.ok ())
  else attempt (openRead path) fun () => deferring close <|
    attempt (findFailureLogKeepOffset (currentSize - maxSize) currentSize) fun keepOffset =>
    attempt (seek keepOffset) fun () =>
    attempt (createTemp (Path.dir path) (Path.base path ++ ascii ".*.tmp")) fun () =>
    deferring removeTemp do
      match ← copy with
      | .error err =>
          let _ ← closeTemp
          pure (.error err)
      | .ok () =>
          match ← syncTemp with
          | .error err =>
              let _ ← closeTemp
              pure (.error err)
          | .ok () => attempt closeTemp fun () => rename path

def newFailureLogStore (path : Bytes) : Option Bytes := if (trimSpace path).isEmpty then none else some path

def appendFailure (maxSize : Nat) (store : Option Bytes) (target logs : Bytes) : LogProg (Except GoError Unit) :=
  match store with
  | none => pure (.ok ())
  | some path =>
      if (trimSpace target).isEmpty || logs.isEmpty then pure (.ok ())
      else attempt (mkdirAll (Path.dir path)) fun () =>
        match marshalFailureLogLine maxSize ⟨target, false, logs⟩ with
        | .error err => pure (.error (errorf err))
        | .ok payload =>
            attempt (appendFailureLogLine path payload) fun currentSize =>
              if currentSize ≤ maxSize then pure (.ok ()) else trimFailureLogFile maxSize path currentSize

/-! ### Files that work -/

structure LogFiles where
  file : Option Bytes
  offset : Nat
  temp : Option Bytes
  deriving DecidableEq, Repr

def LogFiles.content (fs : LogFiles) : Bytes := fs.file.getD []

def working : (o : LogOp) → LogFiles → LogRes o × LogFiles
  | .mkdirAll _, fs => (.ok (), fs)
  | .openAppend _, fs => (.ok (), { fs with file := some fs.content })
  | .write payload, fs => (.ok (), { fs with file := some (fs.content ++ payload) })
  | .sync, fs => (.ok (), fs)
  | .size, fs => (.ok fs.content.length, fs)
  | .close, fs => ((), fs)
  | .openRead _, fs => (.ok (), { fs with offset := 0 })
  | .seek offset, fs => (.ok (), { fs with offset := offset })
  | .readBytes, fs =>
      (.ok (Lines.readLine Json.newline (fs.content.drop fs.offset)), { fs with offset := fs.content.length })
  | .createTemp _ _, fs => (.ok (), { fs with temp := some [] })
  | .copy, fs =>
      (.ok (), { fs with temp := some (fs.temp.getD [] ++ fs.content.drop fs.offset), offset := fs.content.length })
  | .syncTemp, fs => (.ok (), fs)
  | .closeTemp, fs => (.ok (), fs)
  | .removeTemp, fs => ((), { fs with temp := none })
  | .rename _, fs => (.ok (), { fs with file := fs.temp, temp := none })

def keepOffset (maxSize : Nat) (content : Bytes) : Nat :=
  match Lines.readLine Json.newline (content.drop (content.length - maxSize)) with
  | some discarded => content.length - maxSize + discarded.length
  | none => content.length

def logged (maxSize : Nat) (content line : Bytes) : Bytes :=
  if (content ++ line).length ≤ maxSize then content ++ line
  else (content ++ line).drop (keepOffset maxSize (content ++ line))

def appendedLine (maxSize : Nat) (store : Option Bytes) (target logs : Bytes) : Option Bytes :=
  if store.isNone || (trimSpace target).isEmpty || logs.isEmpty then none
  else (marshalFailureLogLine maxSize ⟨target, false, logs⟩).toOption

theorem run_find {maxSize : Nat} {fs : LogFiles} (hlong : maxSize < fs.content.length) : ∃ offset, run working
        (findFailureLogKeepOffset (fs.content.length - maxSize) fs.content.length) fs =
      (.ok (keepOffset maxSize fs.content), { fs with offset := offset }) := by
  have hne : fs.content.length - maxSize ≠ 0 := by omega
  rw [findFailureLogKeepOffset, if_neg hne, keepOffset]
  refine ⟨fs.content.length, ?_⟩
  show run working (attempt readBytes _) { fs with offset := fs.content.length - maxSize } = _
  show run working (match Lines.readLine Json.newline (fs.content.drop (fs.content.length - maxSize)) with
    | some discarded => _
    | none => _) { fs with offset := fs.content.length } = _
  cases Lines.readLine Json.newline (fs.content.drop (fs.content.length - maxSize)) with
  | none | some => rfl

theorem run_deferring {α : Type} (last : LogProg Unit) (p : LogProg α) (fs : LogFiles) :
    run working (deferring last p) fs =
      ((run working p fs).1, (run working last (run working p fs).2).2) := by
  rw [deferring, run_bind, run_bind]
  rfl

theorem run_trim {maxSize : Nat} {path : Bytes} {fs : LogFiles} (hlong : maxSize < fs.content.length) :
    ∃ offset, run working (trimFailureLogFile maxSize path fs.content.length) fs =
      (.ok (), ⟨some (fs.content.drop (keepOffset maxSize fs.content)), offset, none⟩) := by
  have hopened : maxSize < (LogFiles.content { fs with offset := 0 }).length := hlong
  obtain ⟨offset, hfind⟩ : ∃ offset,
      run working (findFailureLogKeepOffset (fs.content.length - maxSize) fs.content.length) { fs with offset := 0 } =
        (.ok (keepOffset maxSize fs.content), { fs with offset := offset }) := run_find hopened
  refine ⟨fs.content.length, ?_⟩
  rw [trimFailureLogFile, if_neg (Nat.not_le.2 hlong), run_attempt]
  show run working (deferring _ _) { fs with offset := 0 } = _
  rw [run_deferring, run_attempt, hfind]
  rfl

theorem run_append (path payload : Bytes) (fs : LogFiles) :
    run working (appendFailureLogLine path payload) fs =
      (.ok (fs.content ++ payload).length, { fs with file := some (fs.content ++ payload) }) := rfl

theorem run_appendFailure (maxSize : Nat) (store : Option Bytes) (target logs : Bytes) (fs : LogFiles) :
    (run working (appendFailure maxSize store target logs) fs).2.content =
      match appendedLine maxSize store target logs with
      | none => fs.content
      | some line => logged maxSize fs.content line := by
  cases store with
  | none => rfl
  | some path =>
    simp only [appendFailure, appendedLine, Option.isNone_some, Bool.false_or]
    split
    · rfl
    · rw [run_attempt]
      show (run working (match marshalFailureLogLine maxSize ⟨target, false, logs⟩ with
        | .error err => _
        | .ok payload => _) fs).2.content = _
      cases marshalFailureLogLine maxSize ⟨target, false, logs⟩ with
      | error err => rfl
      | ok payload =>
        show (run working (attempt (appendFailureLogLine path payload) _) fs).2.content =
          logged maxSize fs.content payload
        rw [run_attempt, run_append]
        dsimp only
        rw [logged]
        split
        · rfl
        · rename_i hlong
          have hlong' : maxSize < (LogFiles.content { fs with file := some (fs.content ++ payload) }).length :=
            Nat.not_le.1 hlong
          obtain ⟨offset, htrim⟩ : ∃ offset, run working
              (trimFailureLogFile maxSize path (fs.content ++ payload).length)
              { fs with file := some (fs.content ++ payload) } = (.ok (),
                ⟨some ((fs.content ++ payload).drop (keepOffset maxSize (fs.content ++ payload))), offset, none⟩) :=
            run_trim hlong'
          rw [htrim]
          rfl

/-! ### Retention -/

variable {maxSize : Nat} {store : Option Bytes}

theorem newline_not_mem_marshal (entry : FailureLogEntry) : Json.newline ∉ entry.marshal := by
  have hsuccess : Json.newline ∉ (if entry.success then ascii "true" else ascii "false") := by
    cases entry.success <;> decide
  simp only [FailureLogEntry.marshal, mem_append, not_or]
  exact ⟨⟨⟨⟨⟨⟨by decide, Json.newline_not_mem_string _⟩, by decide⟩, hsuccess⟩, by decide⟩,
    Json.newline_not_mem_string _⟩, by decide⟩

theorem marshal_line {entry : FailureLogEntry} (hfits : entry.fits maxSize = true) :
    Lines.IsLine Json.newline (entry.marshal ++ [Json.newline]) ∧ (entry.marshal ++ [Json.newline]).length ≤ maxSize := by
  refine ⟨⟨entry.marshal, rfl, newline_not_mem_marshal entry⟩, ?_⟩
  rw [length_append, length_singleton]
  exact of_decide_eq_true hfits

theorem appendedLine_line {target logs line : Bytes} (hline : appendedLine maxSize store target logs = some line) :
    Lines.IsLine Json.newline line ∧ line.length ≤ maxSize := by
  rw [appendedLine] at hline
  split at hline
  · cases hline
  · rw [marshalFailureLogLine] at hline
    split at hline
    · rename_i hfits
      cases hline
      exact marshal_line hfits
    · split at hline
      · cases hline
      · dsimp only at hline
        split at hline
        · cases hline
        · rename_i hfits
          cases hline
          rw [Bool.not_eq_true, Bool.not_eq_false'] at hfits
          exact marshal_line hfits

structure FailureLog where
  files : LogFiles
  appended : List Bytes
  deriving DecidableEq, Repr

structure FailureCall where
  target : Bytes
  logs : Bytes
  deriving DecidableEq, Repr

def FailureCall.line (maxSize : Nat) (store : Option Bytes) (call : FailureCall) : Option Bytes :=
  appendedLine maxSize store call.target call.logs

def FailureLog.step (maxSize : Nat) (store : Option Bytes) (s : FailureLog) (call : FailureCall) :
    Option FailureLog :=
  some ⟨(Prog.run working (appendFailure maxSize store call.target call.logs) s.files).2,
    s.appended ++ (call.line maxSize store).toList⟩

def emptyLog : FailureLog := ⟨⟨none, 0, none⟩, []⟩

structure Retained (maxSize : Nat) (lines : List Bytes) (content : Bytes) : Prop where
  longest : ∃ dropped, content = (lines.drop dropped).flatten ∧ Lines.Longest maxSize lines dropped
  latest : ∀ line, lines.getLast? = some line → line <:+ content

def CutsInside (maxSize : Nat) (store : Option Bytes) (s : FailureLog) (call : FailureCall) : Prop :=
  ∀ line, call.line maxSize store = some line →
    (s.files.content ++ line).length ≤ maxSize ∨
      (s.files.content ++ line)[(s.files.content ++ line).length - maxSize - 1]? ≠ some Json.newline

theorem getLast_suffix {lines : List Bytes} {k : Nat} {line : Bytes} (hfits : line.length ≤ maxSize)
    (hlongest : Lines.Longest maxSize (lines ++ [line]) k) : line <:+ ((lines ++ [line]).drop k).flatten := by
  have hk : k ≤ lines.length := by
    by_contra hlt
    have hmore := hlongest.least lines.length (by omega)
    rw [drop_left, flatten_singleton] at hmore
    omega
  rw [drop_append_of_le_length hk, flatten_append, flatten_singleton]
  exact suffix_append _ _

section Append

variable {lines : List Bytes} {line content : Bytes}

theorem logged_lines {kept : List Bytes} (hkept : ∀ l ∈ kept, Lines.IsLine Json.newline l)
    (hpos : 0 < maxSize) (hcontent : content ++ line = kept.flatten) (hlong : maxSize < kept.flatten.length) :
    logged maxSize content line = (kept.drop (Lines.reached (kept.flatten.length - maxSize) kept)).flatten := by
  have hcut : kept.flatten.length - maxSize < kept.flatten.length := by omega
  obtain ⟨discarded, hread, hrest⟩ := Lines.readLine_flatten hkept hcut
  rw [logged, hcontent, if_neg (Nat.not_le.2 hlong), keepOffset, hread]
  exact hrest

theorem retained_append_iff (hlines : ∀ l ∈ lines, Lines.IsLine Json.newline l)
    (hline : Lines.IsLine Json.newline line) (hfits : line.length ≤ maxSize) (hretained : Retained maxSize lines content) :
    Retained maxSize (lines ++ [line]) (logged maxSize content line) ↔
      (content ++ line).length ≤ maxSize ∨
        (content ++ line)[(content ++ line).length - maxSize - 1]? ≠ some Json.newline := by
  obtain ⟨⟨k, hkept, hlongest⟩, _⟩ := hretained
  have hpos : 0 < maxSize := Nat.lt_of_lt_of_le hline.length_pos hfits
  have hk : k ≤ lines.length := by
    by_contra hlt
    have hmore := hlongest.least lines.length (by omega)
    rw [drop_length] at hmore
    exact absurd hmore (Nat.not_lt_zero _)
  have hall : ∀ l ∈ lines ++ [line], Lines.IsLine Json.newline l := by
    intro l hl
    rcases mem_append.1 hl with hold | hnew
    · exact hlines l hold
    · rwa [mem_singleton.1 hnew]
  have hkeptAll : ∀ l ∈ (lines ++ [line]).drop k, Lines.IsLine Json.newline l :=
    fun l hl => hall l (mem_of_mem_drop hl)
  have hcontent : content ++ line = ((lines ++ [line]).drop k).flatten := by
    rw [drop_append_of_le_length hk, flatten_append, flatten_singleton, hkept]
  have hmore : ∀ j < k, maxSize < ((lines ++ [line]).drop j).flatten.length := by
    intro j hj
    have hless := hlongest.least j hj
    rw [drop_append_of_le_length (by omega), flatten_append, length_append]
    omega
  have hretain : ∀ d, logged maxSize content line = ((lines ++ [line]).drop d).flatten →
      Lines.Longest maxSize (lines ++ [line]) d →
      Retained maxSize (lines ++ [line]) (logged maxSize content line) := by
    intro d hlogged hd
    refine ⟨⟨d, hlogged, hd⟩, fun last hlast => ?_⟩
    rw [getLast?_concat, Option.some.injEq] at hlast
    rw [← hlast, hlogged]
    exact getLast_suffix hfits hd
  by_cases hshort : (content ++ line).length ≤ maxSize
  · refine iff_of_true (hretain k ?_ ⟨?_, hmore⟩) (.inl hshort)
    · rw [logged, if_pos hshort, hcontent]
    · rw [← hcontent]
      exact hshort
  · have hlong : maxSize < ((lines ++ [line]).drop k).flatten.length := by
      rw [← hcontent]
      exact Nat.not_le.1 hshort
    have hlogged := logged_lines hkeptAll hpos hcontent hlong
    rw [or_iff_right hshort, hcontent, Ne, ← Lines.splits_iff hkeptAll hlong]
    constructor
    · rintro ⟨⟨d, hd, hbest⟩, _⟩ hsplits
      refine Lines.not_longest_of_splits hsplits.of_drop ?_ hbest
      have hcut : ((lines ++ [line]).drop k).flatten.length - maxSize < ((lines ++ [line]).drop k).flatten.length := by
        omega
      have hless := Lines.length_drop_reached_lt hcut
      rw [← hd, hlogged]
      omega
    · intro hsplits
      refine hretain (k + _) ?_ (.of_drop hmore (Lines.longest_reached hpos hlong hsplits))
      rw [hlogged, drop_drop]

end Append

/-! ### Runs -/

structure FailureLog.Sound (maxSize : Nat) (s : FailureLog) : Prop where
  lines : ∀ line ∈ s.appended, Lines.IsLine Json.newline line
  retained : Retained maxSize s.appended s.files.content

theorem sound_emptyLog (maxSize : Nat) : emptyLog.Sound maxSize :=
  ⟨nofun, ⟨0, rfl, Nat.zero_le _, nofun⟩, nofun⟩

theorem step_sound_iff {s s' : FailureLog} {call : FailureCall} (hsound : s.Sound maxSize)
    (hstep : s.step maxSize store call = some s') : (∀ line ∈ s'.appended, Lines.IsLine Json.newline line) ∧
      (Retained maxSize s'.appended s'.files.content ↔ CutsInside maxSize store s call) := by
  have hcontent := run_appendFailure maxSize store call.target call.logs s.files
  rw [FailureLog.step] at hstep
  cases hstep
  cases hline : call.line maxSize store with
  | none =>
    have hnone : appendedLine maxSize store call.target call.logs = none := hline
    rw [hnone] at hcontent
    dsimp only at hcontent ⊢
    rw [hcontent, Option.toList_none, append_nil]
    refine ⟨hsound.lines, iff_of_true hsound.retained fun line hsome => ?_⟩
    rw [hline] at hsome
    cases hsome
  | some line =>
    have hsome : appendedLine maxSize store call.target call.logs = some line := hline
    obtain ⟨hisLine, hfits⟩ := appendedLine_line hsome
    rw [hsome] at hcontent
    dsimp only at hcontent ⊢
    rw [hcontent, Option.toList_some, retained_append_iff hsound.lines hisLine hfits hsound.retained]
    constructor
    · intro l hl
      rcases mem_append.1 hl with hold | hnew
      · exact hsound.lines l hold
      · rwa [mem_singleton.1 hnew]
    · rw [CutsInside, hline]
      simp only [Option.some.injEq, forall_eq']

theorem retained_run_iff {s : FailureLog} (hsound : s.Sound maxSize) (calls : List FailureCall) :
    (∀ before after t, calls = before ++ after → exec (FailureLog.step maxSize store) s before = some t →
      Retained maxSize t.appended t.files.content) ↔
      Along (FailureLog.step maxSize store) (CutsInside maxSize store) s calls := by
  induction calls generalizing s with
  | nil =>
    refine iff_of_true ?_ trivial
    intro before after t hsplit hexec
    obtain ⟨rfl, _⟩ := append_eq_nil_iff.1 hsplit.symm
    cases hexec
    exact hsound.retained
  | cons call calls ih =>
    obtain ⟨s', hstep⟩ : ∃ s', s.step maxSize store call = some s' := ⟨_, rfl⟩
    obtain ⟨hlines, hiff⟩ := step_sound_iff hsound hstep
    constructor
    · intro hall
      have hretained : Retained maxSize s'.appended s'.files.content := by
        refine hall [call] calls s' rfl ?_
        rw [exec, hstep]
        rfl
      refine ⟨hiff.1 hretained, fun t ht => ?_⟩
      obtain rfl : s' = t := Option.some.inj (hstep.symm.trans ht)
      refine (ih ⟨hlines, hretained⟩).1 ?_
      intro before after t hsplit hexec
      refine hall (call :: before) after t (by rw [hsplit, cons_append]) ?_
      rw [exec, hstep]
      exact hexec
    · rintro ⟨hinside, hrest⟩ before after t hsplit hexec
      have hretained := hiff.2 hinside
      cases before with
      | nil =>
        cases hexec
        exact hsound.retained
      | cons first before =>
        obtain ⟨rfl, hcalls⟩ := List.cons.inj hsplit
        rw [exec, hstep] at hexec
        exact (ih ⟨hlines, hretained⟩).2 (hrest s' hstep) before after t hcalls hexec

/-- When the file is the longest end of the lines that fits. -/
theorem failure_log_retained (maxSize : Nat) (store : Option Bytes) (calls : List FailureCall) :
    (∀ before after s, calls = before ++ after →
      Runs.exec (FailureLog.step maxSize store) emptyLog before = some s →
      Retained maxSize s.appended s.files.content) ↔
      Runs.Along (FailureLog.step maxSize store) (CutsInside maxSize store) emptyLog calls :=
  retained_run_iff (sound_emptyLog maxSize) calls

def sampleFailure : FailureCall := ⟨ascii "a", ascii "x"⟩

theorem failure_log_loses_latest : ∃ s line,
    Runs.exec (FailureLog.step 42 (newFailureLogStore (ascii "logs.jsonl"))) emptyLog [sampleFailure, sampleFailure] =
        some s ∧ s.appended = [line, line] ∧ line.length = 42 ∧ s.files.content = [] ∧
      ¬ Retained 42 s.appended s.files.content := by
  obtain ⟨line, hline⟩ : ∃ line, (sampleFailure.line 42 (newFailureLogStore (ascii "logs.jsonl"))) = some line :=
    ⟨_, rfl⟩
  have hchecked : (Runs.exec (FailureLog.step 42 (newFailureLogStore (ascii "logs.jsonl"))) emptyLog
      [sampleFailure, sampleFailure]).any (fun s => s.files.content.isEmpty &&
        some s.appended == (sampleFailure.line 42 (newFailureLogStore (ascii "logs.jsonl"))).map fun l => [l, l]) =
      true := by decide +kernel
  have hlength : (sampleFailure.line 42 (newFailureLogStore (ascii "logs.jsonl"))).map List.length = some 42 := by
    decide +kernel
  obtain ⟨s, hrun, hstate⟩ := (Option.any_eq_true _ _).1 hchecked
  rw [Bool.and_eq_true, List.isEmpty_iff, beq_iff_eq, hline, Option.map_some, Option.some.injEq] at hstate
  rw [hline, Option.map_some, Option.some.injEq] at hlength
  obtain ⟨hempty, hlines⟩ := hstate
  refine ⟨s, line, hrun, hlines, hlength, hempty, fun hretained => ?_⟩
  have hlast := hretained.latest line (by rw [hlines]; rfl)
  rw [hempty, List.suffix_nil] at hlast
  rw [hlast] at hlength
  cases hlength

end BuildkitService.Batch
