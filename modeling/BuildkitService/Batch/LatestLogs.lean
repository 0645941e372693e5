import Mathlib.Logic.Function.Basic
import BuildkitService.Batch.FailureLog

/-!
# Reading the log of failures

`loadLatestFailureLogs` of `internal/buildbatch/failure_log_store.go`, and what it finds in a file
that `AppendFailure` wrote.
-/

namespace BuildkitService.Batch

open Strings List

/-! ### The reader -/

def absPath (getwd : Except GoError Bytes) (path : Bytes) : Except GoError Bytes :=
  if Path.rooted path then .ok (Path.clean path)
  else match getwd with
    | .error err => .error err
    | .ok wd => .ok (Path.join wd path)

def resolveOptionalPath (getwd : Except GoError Bytes) (path : Bytes) : Except GoError Bytes :=
  if (trimSpace path).isEmpty then .ok [] else absPath getwd path

structure OpenFile where
  content : Bytes
  err : Option GoError
  deriving DecidableEq, Repr

abbrev Logs := Bytes → Option Bytes

variable (unmarshal : Bytes → Except GoError FailureLogEntry) {entries : List FailureLogEntry}

def loadLine (targets : Option (List Bytes)) (result : Logs) (line : Bytes) : Except GoError Logs :=
  if (trimSpace line).isEmpty then .ok result
  else match unmarshal (trimSpace line) with
    | .error unmarshalErr => .error unmarshalErr
    | .ok entry =>
        if entry.success then .ok result
        else match targets with
          | none => .ok (Function.update result entry.target (some entry.logs))
          | some targets =>
              if entry.target ∈ targets then .ok (Function.update result entry.target (some entry.logs))
              else .ok result

def loadLines (targets : Option (List Bytes)) : List Bytes → Logs → Except GoError Logs
  | [], result => .ok result
  | line :: lines, result =>
      match loadLine unmarshal targets result line with
      | .error err => .error err
      | .ok result => loadLines targets lines result

def loadLatestFailureLogs (getwd : Except GoError Bytes) (openFile : Bytes → Except GoError OpenFile) (path : Bytes)
    (targets : Option (List Bytes)) : Except GoError Logs :=
  match resolveOptionalPath getwd path with
  | .error err => .error err
  | .ok resolvedPath =>
      if resolvedPath.isEmpty then .ok fun _ => none
      else match openFile resolvedPath with
        | .error err => if err.is = some .notExist then .ok fun _ => none else .error err
        | .ok file =>
            let (lines, rest) := Lines.pieces Json.newline file.content
            match loadLines unmarshal targets (lines ++ [rest]) fun _ => none with
            | .error err => .error err
            | .ok result =>
                match file.err with
                | none => .ok result
                | some err => .error err

def LogFiles.openFile (fs : LogFiles) (_ : Bytes) : Except GoError OpenFile :=
  match fs.file with
  | none => .error ⟨ascii "no such file or directory", some .notExist⟩
  | some content => .ok ⟨content, none⟩

def FailureLogEntry.decoded (entry : FailureLogEntry) : FailureLogEntry :=
  ⟨Json.toValid 0 entry.target, entry.success, Json.toValid 0 entry.logs⟩

def Decodes : Prop := ∀ entry : FailureLogEntry, unmarshal entry.marshal = .ok entry.decoded

/-! ### What is appended -/

def truncatedEntry (maxSize : Nat) (entry : FailureLogEntry) : Option FailureLogEntry :=
  if entry.fits maxSize then some entry
  else match truncateFailureLogPayload maxSize entry.target entry.logs with
    | .error _ => none
    | .ok truncatedLogs =>
        let entry := { entry with logs := truncatedLogs }
        if entry.fits maxSize then some entry else none

def FailureCall.entry (maxSize : Nat) (store : Option Bytes) (call : FailureCall) : Option FailureLogEntry :=
  if store.isNone || (trimSpace call.target).isEmpty || call.logs.isEmpty then none
  else truncatedEntry maxSize ⟨call.target, false, call.logs⟩

def latestEntry (maxSize : Nat) (store : Option Bytes) (calls : List FailureCall) (target : Bytes) :
    Option FailureLogEntry :=
  ((calls.filterMap (FailureCall.entry maxSize store)).filter fun entry => entry.target = target).getLast?

def FailureLogEntry.line (entry : FailureLogEntry) : Bytes := entry.marshal ++ [Json.newline]

variable {unmarshal} {maxSize : Nat} {store : Option Bytes}

theorem marshalFailureLogLine_eq (entry : FailureLogEntry) :
    (marshalFailureLogLine maxSize entry).toOption = (truncatedEntry maxSize entry).map FailureLogEntry.line := by
  rw [marshalFailureLogLine, truncatedEntry]
  split
  · rfl
  · cases truncateFailureLogPayload maxSize entry.target entry.logs with
    | error err => rfl
    | ok truncatedLogs =>
      dsimp only
      cases FailureLogEntry.fits maxSize { entry with logs := truncatedLogs } with
      | true | false => rfl

theorem FailureCall.line_eq (call : FailureCall) :
    call.line maxSize store = (call.entry maxSize store).map FailureLogEntry.line := by
  rw [FailureCall.line, appendedLine, FailureCall.entry]
  split
  · rfl
  · exact marshalFailureLogLine_eq _

theorem FailureCall.entry_target {call : FailureCall} {entry : FailureLogEntry}
    (hentry : call.entry maxSize store = some entry) : entry.target = call.target ∧ entry.success = false := by
  rw [FailureCall.entry] at hentry
  split at hentry
  · cases hentry
  · rw [truncatedEntry] at hentry
    split at hentry
    · cases hentry
      exact ⟨rfl, rfl⟩
    · split at hentry
      · cases hentry
      · dsimp only at hentry
        split at hentry
        · cases hentry
          exact ⟨rfl, rfl⟩
        · cases hentry

/-! ### What is in the file -/

structure FailureLog.Ends (maxSize : Nat) (s : FailureLog) : Prop where
  lines : ∀ line ∈ s.appended, Lines.IsLine Json.newline line
  kept : ∃ k ≤ s.appended.length, s.files.content = (s.appended.drop k).flatten
  fits : s.files.content.length ≤ maxSize

theorem logged_ends {lines : List Bytes} {line content : Bytes} {k : Nat}
    (hlines : ∀ l ∈ lines ++ [line], Lines.IsLine Json.newline l) (hfits : line.length ≤ maxSize)
    (hk : k ≤ lines.length) (hcontent : content = (lines.drop k).flatten) :
    (∃ j ≤ (lines ++ [line]).length, logged maxSize content line = ((lines ++ [line]).drop j).flatten) ∧
      (logged maxSize content line).length ≤ maxSize := by
  have hkept : content ++ line = ((lines ++ [line]).drop k).flatten := by
    rw [drop_append_of_le_length hk, flatten_append, flatten_singleton, hcontent]
  by_cases hshort : (content ++ line).length ≤ maxSize
  · rw [logged, if_pos hshort]
    refine ⟨⟨k, ?_, hkept⟩, hshort⟩
    rw [length_append]
    omega
  · have hpos : 0 < maxSize :=
      Nat.lt_of_lt_of_le (hlines line (mem_append_right _ mem_cons_self)).length_pos hfits
    have hlong : maxSize < ((lines ++ [line]).drop k).flatten.length := by
      rw [← hkept]
      exact Nat.not_le.1 hshort
    have hcut := Lines.length_drop_reached_lt
      (show ((lines ++ [line]).drop k).flatten.length - maxSize < ((lines ++ [line]).drop k).flatten.length by omega)
    rw [logged_lines (fun l hl => hlines l (mem_of_mem_drop hl)) hpos hkept hlong]
    refine ⟨?_, by omega⟩
    rw [drop_drop]
    rcases Nat.le_total (k + Lines.reached (((lines ++ [line]).drop k).flatten.length - maxSize) ((lines ++ [line]).drop k))
      (lines ++ [line]).length with hle | hge
    · exact ⟨_, hle, rfl⟩
    · exact ⟨_, le_rfl, by rw [drop_eq_nil_of_le hge, drop_length]⟩

theorem FailureLog.Ends.step {s s' : FailureLog} {call : FailureCall} (hends : s.Ends maxSize)
    (hstep : s.step maxSize store call = some s') : s'.Ends maxSize := by
  have hcontent := run_appendFailure maxSize store call.target call.logs s.files
  rw [FailureLog.step] at hstep
  cases hstep
  cases hline : call.line maxSize store with
  | none =>
    have hnone : appendedLine maxSize store call.target call.logs = none := hline
    rw [hnone] at hcontent
    dsimp only at hcontent ⊢
    rw [Option.toList_none, append_nil]
    refine ⟨hends.lines, ?_, ?_⟩
    · dsimp only
      rw [hcontent]
      exact hends.kept
    · dsimp only
      rw [hcontent]
      exact hends.fits
  | some line =>
    have hsome : appendedLine maxSize store call.target call.logs = some line := hline
    obtain ⟨hisLine, hfits⟩ := appendedLine_line hsome
    have hall : ∀ l ∈ s.appended ++ [line], Lines.IsLine Json.newline l := by
      intro l hl
      rcases mem_append.1 hl with hold | hnew
      · exact hends.lines l hold
      · rwa [mem_singleton.1 hnew]
    obtain ⟨k, hk, hkept⟩ := hends.kept
    obtain ⟨hkept', hfits'⟩ := logged_ends hall hfits hk hkept
    rw [hsome] at hcontent
    dsimp only at hcontent
    rw [← hcontent] at hkept' hfits'
    exact ⟨hall, hkept', hfits'⟩

theorem exec_appended (calls : List FailureCall) {s t : FailureLog}
    (hexec : Runs.exec (FailureLog.step maxSize store) s calls = some t) :
    t.appended = s.appended ++ (calls.filterMap (FailureCall.entry maxSize store)).map FailureLogEntry.line := by
  induction calls generalizing s with
  | nil =>
    cases hexec
    exact (append_nil _).symm
  | cons call calls ih =>
    obtain ⟨s', hstep, hrest⟩ := (Runs.exec_cons_eq_some _).1 hexec
    rw [FailureLog.step] at hstep
    cases hstep
    rw [ih hrest, FailureCall.line_eq, append_assoc, filterMap_cons]
    cases call.entry maxSize store with
    | none | some => rfl

/-! ### What is read -/

theorem trimSpace_line (entry : FailureLogEntry) : trimSpace entry.line = entry.marshal := by
  obtain ⟨middle, hmarshal⟩ : ∃ middle, entry.marshal = 0x7B :: (middle ++ [0x7D]) :=
    ⟨ascii "\"target\":" ++ Json.string entry.target ++ ascii ",\"success\":" ++
      (if entry.success then ascii "true" else ascii "false") ++ ascii ",\"logs\":" ++ Json.string entry.logs, rfl⟩
  have hreverse : (0x7B :: (middle ++ [0x7D]) ++ [Json.newline]).reverse =
      Json.newline :: 0x7D :: (0x7B :: middle).reverse := by
    simp only [reverse_append, reverse_cons, reverse_nil, nil_append, cons_append]
  rw [FailureLogEntry.line, hmarshal, trimSpace, cons_append, trimLeftSpace_cons (by decide) (by decide),
    ← cons_append, trimRightSpace, hreverse, dropSpaceBack_space (by decide),
    dropSpaceBack_cons (by decide) (by decide), reverse_cons, reverse_reverse, cons_append]

def latestLogs (entries : List FailureLogEntry) (result : Logs) : Logs := fun target =>
  match (entries.filter fun entry => entry.target = target).getLast? with
  | some entry => some entry.logs
  | none => result target

theorem latestLogs_cons (entry : FailureLogEntry) (entries : List FailureLogEntry) (result : Logs) :
    latestLogs (entry :: entries) result =
      latestLogs entries (Function.update result entry.target (some entry.logs)) := by
  funext target
  rw [latestLogs, latestLogs, filter_cons]
  by_cases htarget : entry.target = target
  · rw [if_pos (decide_eq_true htarget), getLast?_cons]
    cases (entries.filter fun entry => entry.target = target).getLast? with
    | none =>
      dsimp only [Option.getD_none]
      rw [htarget, Function.update_self]
    | some last => rfl
  · rw [if_neg (by simpa using htarget), Function.update_of_ne (Ne.symm htarget)]

def wanted (targets : Option (List Bytes)) (entry : FailureLogEntry) : Bool :=
  match targets with
  | none => true
  | some targets => entry.target ∈ targets

theorem loadLine_entry (hdecodes : Decodes unmarshal) (targets : Option (List Bytes)) (result : Logs)
    {entry : FailureLogEntry} (hsuccess : entry.success = false) :
    loadLine unmarshal targets result entry.line =
      .ok (if wanted targets entry.decoded then
        Function.update result entry.decoded.target (some entry.decoded.logs) else result) := by
  have hne : entry.marshal.isEmpty = false := rfl
  have hfailed : entry.decoded.success = false := hsuccess
  rw [loadLine, trimSpace_line, hne, hdecodes entry]
  dsimp only
  rw [hfailed]
  cases targets with
  | none => rfl
  | some targets =>
    dsimp only
    by_cases htarget : entry.decoded.target ∈ targets
    · have hwanted : wanted (some targets) entry.decoded = true := decide_eq_true htarget
      rw [if_pos htarget, hwanted]
      rfl
    · have hwanted : wanted (some targets) entry.decoded = false := decide_eq_false htarget
      rw [if_neg htarget, hwanted]
      rfl

theorem loadLines_entries (hdecodes : Decodes unmarshal) (targets : Option (List Bytes))
    (hsuccess : ∀ entry ∈ entries, entry.success = false) (result : Logs) :
    loadLines unmarshal targets (entries.map FailureLogEntry.line ++ [[]]) result =
      .ok (latestLogs ((entries.map FailureLogEntry.decoded).filter (wanted targets)) result) := by
  induction entries generalizing result with
  | nil => rfl
  | cons entry entries ih =>
    obtain ⟨hentry, hrest⟩ := forall_mem_cons.1 hsuccess
    rw [map_cons, cons_append, loadLines, loadLine_entry hdecodes targets result hentry]
    dsimp only
    rw [ih hrest, map_cons, filter_cons]
    split_ifs
    · rw [latestLogs_cons]
    · rfl

theorem latestLogs_wanted (entries : List FailureLogEntry) (targets : List Bytes) :
    latestLogs (entries.filter (wanted (some targets))) (fun _ => none) =
      fun target => if target ∈ targets then latestLogs entries (fun _ => none) target else none := by
  funext target
  rw [latestLogs, latestLogs, List.filter_filter]
  split_ifs with htarget
  · have hsame : ∀ entry ∈ entries, (decide (entry.target = target) && wanted (some targets) entry) =
        decide (entry.target = target) := by
      intro entry _
      by_cases heq : entry.target = target
      · have hwanted : wanted (some targets) entry = true := decide_eq_true (heq ▸ htarget)
        rw [hwanted, Bool.and_true]
      · rw [decide_eq_false heq, Bool.false_and]
    rw [filter_congr hsame]
  · have hnone : entries.filter (fun entry => decide (entry.target = target) && wanted (some targets) entry) = [] := by
      rw [filter_eq_nil_iff]
      intro entry _
      rw [Bool.and_eq_true, decide_eq_true_eq]
      rintro ⟨heq, hwanted⟩
      exact htarget (heq ▸ of_decide_eq_true hwanted)
    rw [hnone]
    rfl

theorem latestLogs_drop (entries : List FailureLogEntry) (k : Nat) (target : Bytes) :
    latestLogs (entries.drop k) (fun _ => none) target = none ∨
      latestLogs (entries.drop k) (fun _ => none) target = latestLogs entries (fun _ => none) target := by
  have hsplit : entries.filter (fun entry => entry.target = target) =
      (entries.take k).filter (fun entry => entry.target = target) ++
        (entries.drop k).filter fun entry => entry.target = target := by
    rw [← filter_append, take_append_drop]
  rw [latestLogs, latestLogs, hsplit, getLast?_append]
  cases ((entries.drop k).filter fun entry => entry.target = target).getLast? with
  | none => exact .inl rfl
  | some entry => exact .inr rfl

/-! ### Round trip -/

theorem resolveOptionalPath_ok (wd path : Bytes) :
    ∃ resolved, resolveOptionalPath (.ok wd) path = .ok resolved ∧
      (resolved = [] → newFailureLogStore path = none) := by
  rw [resolveOptionalPath, newFailureLogStore]
  by_cases hblank : (trimSpace path).isEmpty = true
  · exact ⟨[], if_pos hblank, fun _ => if_pos hblank⟩
  · rw [if_neg hblank, if_neg hblank, absPath]
    split
    · exact ⟨_, rfl, fun hnil => absurd hnil (Path.clean_ne_nil _)⟩
    · have hpath : path ≠ [] := by
        rintro rfl
        exact hblank rfl
      refine ⟨_, rfl, fun hnil => ?_⟩
      rw [Path.join] at hnil
      split_ifs at hnil with hwd hrest
      · exact absurd (List.isEmpty_iff.1 hrest) hpath
      · exact absurd hnil (Path.clean_ne_nil _)
      · exact absurd hnil (Path.clean_ne_nil _)

theorem load_entries (hdecodes : Decodes unmarshal) {fs : LogFiles} {path wd : Bytes}
    (hcontent : fs.content = (entries.map FailureLogEntry.line).flatten)
    (hsuccess : ∀ entry ∈ entries, entry.success = false)
    (hstore : newFailureLogStore path = none → entries = []) (targets : Option (List Bytes)) :
    loadLatestFailureLogs unmarshal (.ok wd) fs.openFile path targets =
      .ok (latestLogs ((entries.map FailureLogEntry.decoded).filter (wanted targets)) fun _ => none) := by
  obtain ⟨resolved, hresolved, hnone⟩ := resolveOptionalPath_ok wd path
  have hlines : ∀ line ∈ entries.map FailureLogEntry.line, Lines.IsLine Json.newline line := by
    intro line hline
    obtain ⟨entry, _, rfl⟩ := List.mem_map.1 hline
    exact ⟨entry.marshal, rfl, newline_not_mem_marshal entry⟩
  rw [loadLatestFailureLogs, hresolved]
  dsimp only
  split_ifs with hempty
  · rw [hstore (hnone (List.isEmpty_iff.1 hempty))]
    rfl
  · rw [LogFiles.openFile]
    cases hfile : fs.file with
    | none =>
      have hnil : (entries.map FailureLogEntry.line).flatten = [] := by
        rw [← hcontent, LogFiles.content, hfile]
        rfl
      have hentries : entries = [] := by
        cases entries with
        | nil => rfl
        | cons entry entries => cases hnil
      rw [hentries]
      rfl
    | some content =>
      have hread : content = (entries.map FailureLogEntry.line).flatten := by
        rw [← hcontent, LogFiles.content, hfile]
        rfl
      dsimp only
      rw [hread, Lines.pieces_flatten hlines]
      dsimp only
      rw [loadLines_entries hdecodes targets hsuccess]

theorem latestLogs_decoded (hvalid : ∀ entry ∈ entries, Json.valid 0 entry.target = true) (target : Bytes) :
    latestLogs (entries.map FailureLogEntry.decoded) (fun _ => none) target =
      (entries.filter fun entry => entry.target = target).getLast?.map fun entry => Json.toValid 0 entry.logs := by
  have hfilter : (entries.map FailureLogEntry.decoded).filter (fun entry => entry.target = target) =
      (entries.filter fun entry => entry.target = target).map FailureLogEntry.decoded := by
    rw [List.filter_map]
    congr 1
    refine filter_congr fun entry hentry => ?_
    show decide (Json.toValid 0 entry.target = target) = _
    rw [Json.toValid_of_valid (hvalid entry hentry)]
  rw [latestLogs, hfilter, getLast?_map]
  cases (entries.filter fun entry => entry.target = target).getLast? with
  | none | some => rfl

/-- The reader finds the last retained log of each target. -/
theorem failure_log_round_trip (hdecodes : Decodes unmarshal) (maxSize : Nat) (path wd : Bytes) (calls : List FailureCall)
    (hvalid : ∀ call ∈ calls, Json.valid 0 call.target = true) {s : FailureLog}
    (hexec : Runs.exec (FailureLog.step maxSize (newFailureLogStore path)) emptyLog calls = some s) :
    s.files.content.length ≤ maxSize ∧
      s.appended = (calls.filterMap (FailureCall.entry maxSize (newFailureLogStore path))).map FailureLogEntry.line ∧
      (∀ line ∈ s.appended, Lines.IsLine Json.newline line) ∧
      (∃ k, s.files.content = (s.appended.drop k).flatten) ∧
      ∃ logs, loadLatestFailureLogs unmarshal (.ok wd) s.files.openFile path none = .ok logs ∧
        (∀ target, logs target = none ∨ ∃ entry, latestEntry maxSize (newFailureLogStore path) calls target = some entry ∧
          logs target = some (Json.toValid 0 entry.logs)) ∧
        ∀ targets, loadLatestFailureLogs unmarshal (.ok wd) s.files.openFile path (some targets) =
          .ok fun target => if target ∈ targets then logs target else none := by
  have hempty : emptyLog.Ends maxSize := ⟨fun _ hline => absurd hline List.not_mem_nil, ⟨0, le_rfl, rfl⟩, Nat.zero_le _⟩
  have hends : s.Ends maxSize := Runs.exec_invariant _ (fun _ _ _ hends hstep => hends.step hstep) hempty hexec
  have happended := exec_appended calls hexec
  obtain ⟨k, _, hkept⟩ := hends.kept
  set entries := calls.filterMap (FailureCall.entry maxSize (newFailureLogStore path)) with hentries
  have hcall : ∀ entry ∈ entries, ∃ call ∈ calls, entry.target = call.target ∧ entry.success = false := by
    intro entry hentry
    obtain ⟨call, hcall, hsome⟩ := List.mem_filterMap.1 hentry
    exact ⟨call, hcall, FailureCall.entry_target hsome⟩
  have hcontent : s.files.content = ((entries.drop k).map FailureLogEntry.line).flatten := by
    rw [hkept, happended, List.map_drop]
    rfl
  have hsuccess : ∀ entry ∈ entries.drop k, entry.success = false := by
    intro entry hentry
    obtain ⟨_, _, _, hfailed⟩ := hcall entry (List.mem_of_mem_drop hentry)
    exact hfailed
  have hstore : newFailureLogStore path = none → entries.drop k = [] := by
    intro hnone
    have hnil : entries = [] := by
      rw [hentries, hnone, List.filterMap_eq_nil_iff]
      exact fun _ _ => rfl
    rw [hnil, List.drop_nil]
  have hload : ∀ targets, loadLatestFailureLogs unmarshal (.ok wd) s.files.openFile path targets =
      .ok (latestLogs (((entries.drop k).map FailureLogEntry.decoded).filter (wanted targets)) fun _ => none) :=
    load_entries hdecodes hcontent hsuccess hstore
  have hall : ((entries.drop k).map FailureLogEntry.decoded).filter (wanted none) =
      (entries.drop k).map FailureLogEntry.decoded := List.filter_eq_self.2 fun _ _ => rfl
  have htargets : ∀ entry ∈ entries, Json.valid 0 entry.target = true := by
    intro entry hentry
    obtain ⟨call, hmem, htarget, _⟩ := hcall entry hentry
    rw [htarget]
    exact hvalid call hmem
  refine ⟨hends.fits, happended, hends.lines, ⟨k, hkept⟩, _, hload none, fun target => ?_, fun targets => ?_⟩
  · rw [hall, List.map_drop]
    rcases latestLogs_drop (entries.map FailureLogEntry.decoded) k target with hnone | hsame
    · exact Or.inl hnone
    · rw [hsame, latestLogs_decoded htargets, latestEntry]
      cases (entries.filter fun entry => entry.target = target).getLast? with
      | none => exact Or.inl rfl
      | some entry => exact Or.inr ⟨entry, rfl, rfl⟩
  · rw [hload (some targets), latestLogs_wanted, hall]

/-! ### A decoder -/

def behind (text : String) (s : Bytes) : Option Bytes :=
  if hasPrefix s (ascii text) then some (s.drop (ascii text).length) else none

theorem behind_append (text : String) (s : Bytes) : behind text (ascii text ++ s) = some s := by
  have hprefix : hasPrefix (ascii text ++ s) (ascii text) = true := isPrefixOf_iff_prefix.2 (prefix_append _ _)
  rw [behind, if_pos hprefix, drop_left]

def readEntry (s : Bytes) : Option FailureLogEntry := do
  let s ← behind "\x7b\"target\":\"" s
  let (target, s) ← Json.unquote .plain s
  let s ← behind ",\"success\":" s
  let success := (behind "true" s).isSome
  let s ← behind (if success then "true" else "false") s
  let s ← behind ",\"logs\":\"" s
  let (logs, s) ← Json.unquote .plain s
  if s = ascii "\x7d" then some ⟨target, success, logs⟩ else none

def unmarshalEntry (s : Bytes) : Except GoError FailureLogEntry :=
  match readEntry s with
  | none => .error (errorf (ascii "invalid character in failure log"))
  | some entry => .ok entry

theorem marshal_eq (entry : FailureLogEntry) :
    entry.marshal = ascii "\x7b\"target\":\"" ++ (Json.escape 0 0 entry.target ++ 0x22 :: (ascii ",\"success\":" ++
      (ascii (if entry.success then "true" else "false") ++ (ascii ",\"logs\":\"" ++
        (Json.escape 0 0 entry.logs ++ 0x22 :: ascii "\x7d"))))) := by
  rw [FailureLogEntry.marshal, Json.string, Json.string]
  cases entry.success with
  | true | false =>
    simp only [append_assoc, singleton_append]
    rfl

theorem unmarshalEntry_decodes : Decodes unmarshalEntry := by
  intro entry
  have hsuccess : ∀ s, (behind "true" (ascii (if entry.success then "true" else "false") ++ s)).isSome = entry.success := by
    intro s
    cases entry.success with
    | true | false => rfl
  have hread : readEntry entry.marshal = some entry.decoded := by
    rw [readEntry, marshal_eq, behind_append]
    dsimp only [bind, Option.bind]
    rw [Json.unquote_escape]
    dsimp only
    rw [behind_append]
    dsimp only
    rw [hsuccess, behind_append]
    dsimp only
    rw [behind_append]
    dsimp only
    rw [Json.unquote_escape]
    rfl
  rw [unmarshalEntry, hread]

def sampleFailures : List FailureCall :=
  [⟨ascii "a", ascii "old"⟩, ⟨ascii "b", ascii "x\n" ++ [0xFF]⟩, ⟨ascii "a", ascii "new"⟩]

theorem failure_log_round_trip_three : ∃ s logs,
    Runs.exec (FailureLog.step 110 (newFailureLogStore (ascii "logs.jsonl"))) emptyLog sampleFailures = some s ∧
      s.files.content.length < s.appended.flatten.length ∧
      loadLatestFailureLogs unmarshalEntry (.ok (ascii "/w")) s.files.openFile (ascii "logs.jsonl") none = .ok logs ∧
      (logs (ascii "a") = none ∨ logs (ascii "a") = some (ascii "new")) := by
  have hvalid : ∀ call ∈ sampleFailures, Json.valid 0 call.target = true := by decide +kernel
  have hlatest : latestEntry 110 (newFailureLogStore (ascii "logs.jsonl")) sampleFailures (ascii "a") =
      some ⟨ascii "a", false, ascii "new"⟩ := by decide +kernel
  have hcut : (Runs.exec (FailureLog.step 110 (newFailureLogStore (ascii "logs.jsonl"))) emptyLog sampleFailures).any
      (fun s => s.files.content.length < s.appended.flatten.length) = true := by decide +kernel
  obtain ⟨s, hexec, hshort⟩ := (Option.any_eq_true _ _).1 hcut
  obtain ⟨_, _, _, _, logs, hload, hlogs, _⟩ := failure_log_round_trip unmarshalEntry_decodes 110 (ascii "logs.jsonl")
    (ascii "/w") sampleFailures hvalid hexec
  refine ⟨s, logs, hexec, of_decide_eq_true hshort, hload, ?_⟩
  rcases hlogs (ascii "a") with hnone | ⟨entry, hentry, hsome⟩
  · exact Or.inl hnone
  · rw [hlatest] at hentry
    cases hentry
    exact Or.inr hsome

end BuildkitService.Batch
