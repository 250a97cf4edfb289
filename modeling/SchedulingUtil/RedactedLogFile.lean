import SchedulingUtil.JsonLogFile

/-! # Log files behind a redactor

What has been through the post-format pass shows no redaction, so neither does a stream of such
lines, whatever has been logged and wherever the stream is cut off. How much of a JSONL file
is left to its readers is another matter. -/
namespace SchedulingUtil
open Lib Lib.Json Lib.Utf8

theorem writeLines_encode (lines : List Text) :
    writeLines newlineByte (lines.map encode) = encode (writeLines '\n' lines) := by
  induction lines with
  | nil => rfl
  | cons line lines ih =>
    have hcons (lines : List Text) : writeLines '\n' (line :: lines) =
        line ++ ['\n'] ++ writeLines '\n' lines := rfl
    rw [hcons, encode_append, encode_append, ← ih]
    rfl

/-! ## Any stream -/

/-- What a format with a post-format callback gives has been through it. -/
theorem attachExtraCallbacks_ok {R : Type} {format : R → Except PyException Text}
    {preFormat : Option (R → Except PyException R)} {postFormat : Text → Text} {record : R}
    {line : Text} (h : attachExtraCallbacks format preFormat (some postFormat) record = .ok line) :
    ∃ s, line = postFormat s := by
  have hformat (record : R) (h : (format record >>= fun s => .ok (postFormat s)) = .ok line) :
      ∃ s, line = postFormat s := by
    cases hf : format record with
    | error e =>
      rw [hf] at h
      cases h
    | ok s =>
      rw [hf] at h
      cases h
      exact ⟨s, rfl⟩
  cases preFormat with
  | none => exact hformat record h
  | some preFormat =>
    change (preFormat record >>= fun record =>
      format record >>= fun s => .ok (postFormat s)) = .ok line at h
    cases hp : preFormat record with
    | error e =>
      rw [hp] at h
      cases h
    | ok processed =>
      rw [hp] at h
      exact hformat processed h

section Stream
variable {N : Type} {redactions : List Text}

/-- A handler with the post-format callback of a `LogRedactor`, for any formatter; a stream is
as good as a file. -/
def redactingHandler (level : Int) (format : LogRecord N → Except PyException Text)
    (preFormat : Option (LogRecord N → Except PyException (LogRecord N)))
    (redactions : List Text) : FileHandler N :=
  { level
    format := attachExtraCallbacks format preFormat (some (processLogMessage redactions))
    file := [] }

/-- No line shows a redaction, and none begins on one line and ends on another. -/
theorem not_infix_lines (hne : ∀ r ∈ redactions, r ≠ []) (hstar : ∀ r ∈ redactions, '*' ∉ r)
    (hnewline : ∀ r ∈ redactions, '\n' ∉ r) {lines : List Text}
    (hlines : ∀ line ∈ lines, ∃ s, line = processLogMessage redactions s) :
    ∀ r ∈ redactions, ¬ r <:+: writeLines '\n' lines := by
  intro r hr h
  obtain ⟨line, hline, hshown⟩ := infix_of_infix_writeLines (hnewline r hr) (hne r hr) h
  obtain ⟨s, rfl⟩ := hlines line hline
  exact not_infix_processLogMessage hne hstar r hr s hshown

theorem logged_redactingHandler (redactions : List Text) (levelno : LogRecord N → Int)
    (level : Int)
    (format : LogRecord N → Except PyException Text)
    (preFormat : Option (LogRecord N → Except PyException (LogRecord N)))
    (records : List (LogRecord N)) :
    ∃ lines, ((redactingHandler level format preFormat redactions).logged levelno records).file =
        encode (writeLines '\n' lines) ∧
      ∀ line ∈ lines, ∃ s, line = processLogMessage redactions s := by
  rw [(logged_spec ..).1]
  refine ⟨_, (List.nil_append _).trans (writeLines_encode _), ?_⟩
  intro line hline
  obtain ⟨record, -, hrecord⟩ := List.mem_filterMap.mp hline
  unfold FileHandler.line? at hrecord
  split at hrecord
  · cases hformat : (redactingHandler level format preFormat redactions).format record with
    | error e =>
      rw [hformat] at hrecord
      cases hrecord
    | ok s =>
      rw [hformat] at hrecord
      cases hrecord
      exact attachExtraCallbacks_ok hformat
  · cases hrecord

end Stream

/-! ## The JSONL file -/

section File
variable {N : Type} [JsonNumber N] {typeText : PyValue N → String} {py : Interpreter N}
  {getMessage : GetMessage N} {levelno : LogRecord N → Int} {level : Int} {redactions : List Text}

/-- The object for a record before the post-format pass, if a line is written for it. -/
def objectBefore (typeText : PyValue N → String) (py : Interpreter N) (getMessage : GetMessage N)
    (levelno : LogRecord N → Int) (level : Int) (redactions : List Text) (record : LogRecord N) :
    Option (Value N) :=
  if level ≤ levelno record then (writtenObject typeText py getMessage redactions record).toOption
  else none

/-- `stream_logs_to_jsonl_file` with the callbacks of a `LogRedactor`. -/
def redactedFile (typeText : PyValue N → String) (py : Interpreter N) (getMessage : GetMessage N)
    (levelno : LogRecord N → Int) (level : Int) (redactions : List Text)
    (records : List (LogRecord N)) : Bytes :=
  ((streamLogsToJsonlFile py getMessage level (some (processLogRecord typeText redactions))
    (some (processLogMessage redactions))).logged levelno records).file

theorem line?_redacted (record : LogRecord N) :
    (streamLogsToJsonlFile py getMessage level (some (processLogRecord typeText redactions))
        (some (processLogMessage redactions))).line? levelno record =
      (objectBefore typeText py getMessage levelno level redactions record).map fun value =>
        processLogMessage redactions (render ascii 0 value) := by
  show (if level ≤ levelno record then
    (redactingFormat typeText py getMessage redactions record).toOption else none) = _
  unfold objectBefore
  split
  · rw [redactingFormat_eq]
    cases writtenObject typeText py getMessage redactions record <;> rfl
  · rfl

omit [JsonNumber N] in
theorem clean_mapStrings_iff (hne : ∀ r ∈ redactions, r ≠ []) (hstar : ∀ r ∈ redactions, '*' ∉ r)
    (value : Value N) :
    (∀ s, (value.mapStrings (processLogMessage (plainRedactions redactions))).HasString s →
      ∀ r ∈ redactions, ¬ r <:+: s) ↔ NoneEscaped redactions value := by
  constructor
  · exact fun hclean s hs r hr _ => hclean _ (hs.mapStrings _) r hr
  · intro hnone s hs r hr
    obtain ⟨t, ht, rfl⟩ := hasString_mapStrings hs
    by_cases hplain : ascii.Plain r
    · exact not_infix_processLogMessage (fun r hr => hne r (List.mem_of_mem_filter hr))
        (fun r hr => hstar r (List.mem_of_mem_filter hr)) r
        (List.mem_filter.mpr ⟨hr, decide_eq_true hplain⟩) t
    · exact hnone t ht r hr hplain

/-- Where the redactions are found within strings, they are replaced within strings. -/
theorem redactedFile_eq (hne : ∀ r ∈ redactions, r ≠ []) {records : List (LogRecord N)}
    (hwithin : ∀ value ∈ records.filterMap
      (objectBefore typeText py getMessage levelno level redactions),
        EachWithinStrings redactions value) :
    redactedFile typeText py getMessage levelno level redactions records =
      writeLines newlineByte
        (((records.filterMap (objectBefore typeText py getMessage levelno level redactions)).map
          fun value => value.mapStrings (processLogMessage (plainRedactions redactions))).map
            encodedLine) := by
  have hlines : records.filterMap ((streamLogsToJsonlFile py getMessage level
      (some (processLogRecord typeText redactions))
        (some (processLogMessage redactions))).line? levelno) =
      (records.filterMap (objectBefore typeText py getMessage levelno level redactions)).map
        fun value => processLogMessage redactions (render ascii 0 value) := by
    rw [List.map_filterMap]
    congr 1
    funext record
    exact line?_redacted record
  rw [redactedFile, (logged_spec ..).1, hlines, List.map_map, List.map_map]
  refine (List.nil_append _).trans (congrArg _ (List.map_congr_left ?_))
  intro value hvalue
  exact congrArg encode (processLogMessage_render hne (hwithin value hvalue))

end File

end SchedulingUtil
