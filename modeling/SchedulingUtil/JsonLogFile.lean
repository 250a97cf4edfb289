import SchedulingUtil.Lib.Lines
import SchedulingUtil.RedactedLog

/-! # The file of `stream_logs_to_jsonl_file`

A handler writes one line behind the other, for the records of its level that can be
formatted. What has reached the file, all of it or its beginning, reads back line by line. -/
namespace SchedulingUtil
open Lib Lib.Json Lib.Utf8

variable {N : Type} [JsonNumber N]

/-- A handler of the root logger, by its level, its formatter and the file it writes to.
`handled` are the exceptions that `handleError` has printed to `stderr`, each with its record's
message and arguments, which no post-format callback has seen. -/
structure FileHandler (N : Type) where
  level : Int
  format : LogRecord N → Except PyException Text
  file : Bytes
  handled : List PyException := []

namespace FileHandler

def write (h : FileHandler N) (bytes : Bytes) : FileHandler N := { h with file := h.file ++ bytes }

def handleError (h : FileHandler N) (e : PyException) : FileHandler N :=
  { h with handled := h.handled ++ [e] }

/-- `except RecursionError: raise` and `except Exception: self.handleError(record)`. -/
def handles (e : PyException) : Bool := e.cls = .exception && e.typeName != "RecursionError"

/-- `FileHandler.emit`, with what goes to the caller. -/
def emit (h : FileHandler N) (record : LogRecord N) : FileHandler N × Option PyException :=
  match h.format record with
  | .ok line => (h.write (encode (line ++ ['\n'])), none)
  | .error e => if handles e then (h.handleError e, none) else (h, some e)

/-- A record on its way from a logger; `levelno` is the record's attribute. -/
def handle (levelno : LogRecord N → Int) (h : FileHandler N) (record : LogRecord N) :
    FileHandler N × Option PyException :=
  if h.level ≤ levelno record then h.emit record else (h, none)

/-- The handler behind records that are logged one after the other. -/
def logged (levelno : LogRecord N → Int) (h : FileHandler N) (records : List (LogRecord N)) :
    FileHandler N :=
  records.foldl (fun h record => (h.handle levelno record).1) h

/-- The line that is written for a record, if one is. -/
def line? (levelno : LogRecord N → Int) (h : FileHandler N) (record : LogRecord N) :
    Option Text :=
  if h.level ≤ levelno record then (h.format record).toOption else none

/-- The exception that is printed for a record, if one is. -/
def handled? (levelno : LogRecord N → Int) (h : FileHandler N) (record : LogRecord N) :
    Option PyException :=
  if h.level ≤ levelno record then
    match h.format record with
    | .ok _ => none
    | .error e => if handles e then some e else none
  else none

end FileHandler

def newlineByte : UInt8 := 0x0a

/-- `stream_logs_to_jsonl_file`: the file is opened with `mode="w"`. -/
def streamLogsToJsonlFile (py : Interpreter N) (getMessage : GetMessage N) (level : Int)
    (preFormat : Option (LogRecord N → Except PyException (LogRecord N)))
    (postFormat : Option (Text → Text)) : FileHandler N :=
  { level
    format := attachExtraCallbacks (JsonLogFormatter.format py getMessage) preFormat postFormat
    file := [] }

/-! ## The lines -/

omit [JsonNumber N] in
theorem handle_file (levelno : LogRecord N → Int) (h : FileHandler N) (record : LogRecord N) :
    (h.handle levelno record).1.file =
      h.file ++ writeLines newlineByte ((h.line? levelno record).map encode).toList := by
  have hnone : h.file = h.file ++ writeLines newlineByte (none.map encode).toList := by
    simp [writeLines]
  unfold FileHandler.handle FileHandler.line?
  split
  · rw [FileHandler.emit]
    cases h.format record with
    | error e =>
      dsimp only
      split <;> exact hnone
    | ok line => simp [FileHandler.write, Except.toOption, writeLines, encode_append]; rfl
  · exact hnone

omit [JsonNumber N] in
theorem handle_handled (levelno : LogRecord N → Int) (h : FileHandler N)
    (record : LogRecord N) :
    (h.handle levelno record).1.handled = h.handled ++ (h.handled? levelno record).toList := by
  unfold FileHandler.handle FileHandler.handled?
  split
  · rw [FileHandler.emit]
    cases h.format record with
    | error e =>
      dsimp only
      split <;> simp [FileHandler.handleError]
    | ok line => simp [FileHandler.write]
  · simp

omit [JsonNumber N] in
/-- The formatter and the level stay as they are. -/
theorem handle_format (levelno : LogRecord N → Int) (h : FileHandler N) (record : LogRecord N) :
    (h.handle levelno record).1.format = h.format ∧
      (h.handle levelno record).1.level = h.level := by
  unfold FileHandler.handle FileHandler.emit
  split
  · cases h.format record with
    | error e =>
      dsimp only
      split <;> exact ⟨rfl, rfl⟩
    | ok line => exact ⟨rfl, rfl⟩
  · exact ⟨rfl, rfl⟩

omit [JsonNumber N] in
/-- **What a handler leaves**: the lines one behind the other, and on `stderr` the exceptions of
the records that cannot be formatted. -/
theorem logged_spec (levelno : LogRecord N → Int) (h : FileHandler N)
    (records : List (LogRecord N)) :
    (h.logged levelno records).file =
      h.file ++ writeLines newlineByte ((records.filterMap (h.line? levelno)).map encode) ∧
    (h.logged levelno records).handled =
      h.handled ++ records.filterMap (h.handled? levelno) ∧
    (h.logged levelno records).format = h.format ∧ (h.logged levelno records).level = h.level := by
  induction records using List.reverseRecOn with
  | nil => simp [FileHandler.logged, writeLines]
  | append_singleton records record ih =>
    have hstep : h.logged levelno (records ++ [record]) =
        ((h.logged levelno records).handle levelno record).1 := List.foldl_concat ..
    obtain ⟨hfile, hhandled, hformat, hlevel⟩ := ih
    obtain ⟨hformat', hlevel'⟩ := handle_format levelno (h.logged levelno records) record
    have hline : (h.logged levelno records).line? levelno record = h.line? levelno record := by
      rw [FileHandler.line?, hformat, hlevel]
      rfl
    have herror : (h.logged levelno records).handled? levelno record =
        h.handled? levelno record := by
      rw [FileHandler.handled?, hformat, hlevel]
      rfl
    rw [hstep]
    refine ⟨?_, ?_, hformat'.trans hformat, hlevel'.trans hlevel⟩
    · rw [handle_file, hfile, hline, List.filterMap_append, List.map_append, writeLines_append,
        List.append_assoc]
      cases hl : h.line? levelno record <;> simp [hl]
    · rw [handle_handled, hhandled, herror, List.filterMap_append, List.append_assoc]
      cases hl : h.handled? levelno record <;> simp [hl]

/-! ## What stands in the file -/

section File
variable {py : Interpreter N} {getMessage : GetMessage N} {levelno : LogRecord N → Int}
  {level : Int}

/-- The object that stands in the file for a record, if one does. -/
def loggedValue (py : Interpreter N) (getMessage : GetMessage N) (levelno : LogRecord N → Int)
    (level : Int) (record : LogRecord N) : Option (Value N) :=
  if level ≤ levelno record then
    (getMessage record >>= encodeRecord py record).toOption
  else none

/-- The values of the terminated lines, as https://jsonlines.org/ has them. -/
def readJsonLines (N : Type) [JsonNumber N] (file : Bytes) : Option (List (Value N)) :=
  (terminatedLines newlineByte file).mapM fun line => (decode line).bind loads

theorem format_toOption (record : LogRecord N) :
    (JsonLogFormatter.format py getMessage record).toOption =
      (getMessage record >>= encodeRecord py record).toOption.map (render ascii 0) := by
  unfold JsonLogFormatter.format
  cases getMessage record with
  | error e => rfl
  | ok message =>
    show (do let value ← encodeRecord py record message; return render ascii 0 value :
      Except PyException Text).toOption = (encodeRecord py record message).toOption.map _
    cases encodeRecord py record message <;> rfl

/-- The line of a value, as it is encoded. -/
def encodedLine (value : Value N) : Bytes := encode (render ascii 0 value)

theorem filterMap_line? (records : List (LogRecord N)) :
    (records.filterMap
        ((streamLogsToJsonlFile py getMessage level none none).line? levelno)).map encode =
      (records.filterMap (loggedValue py getMessage levelno level)).map encodedLine := by
  rw [List.map_filterMap, List.map_filterMap]
  congr 1
  funext record
  show (if level ≤ levelno record then (JsonLogFormatter.format py getMessage record).toOption
    else none).map encode = _
  rw [loggedValue]
  split
  · rw [format_toOption, Option.map_map]
    rfl
  · rfl

theorem newline_notMem_encodedLine (value : Value N) : newlineByte ∉ encodedLine value := by
  intro hmem
  obtain ⟨c, hc, hval⟩ := exists_mem_of_mem_encode (by decide) hmem
  have hnewline : c = '\n' := Char.toNat_inj.mp hval
  exact oneLine_ascii.render value 0 (hnewline ▸ hc)

theorem mapM_encodedLine (values : List (Value N)) :
    ((values.map encodedLine).mapM fun line => (decode line).bind loads) = some values := by
  induction values with
  | nil => rfl
  | cons value values ih =>
    have hread : (decode (encodedLine value)).bind loads = some value := by
      rw [encodedLine, decode_encode]
      exact loads_render ascii value
    rw [List.map_cons, List.mapM_cons, hread, ih]
    rfl

theorem newline_notMem_lines (values : List (Value N)) :
    ∀ line ∈ values.map encodedLine, newlineByte ∉ line := by
  intro line hline
  obtain ⟨value, -, rfl⟩ := List.mem_map.mp hline
  exact newline_notMem_encodedLine value

theorem readJsonLines_writeLines (values : List (Value N)) {rest : Bytes}
    (hrest : newlineByte ∉ rest) :
    readJsonLines N (writeLines newlineByte (values.map encodedLine) ++ rest) = some values := by
  rw [readJsonLines, terminatedLines_writeLines (newline_notMem_lines values) hrest,
    mapM_encodedLine]

/-- Which records are in the file, and what of them can be found there. -/
structure Logs (py : Interpreter N) (getMessage : GetMessage N) (levelno : LogRecord N → Int)
    (level : Int) (record : LogRecord N) : Prop where
  logged_iff : (loggedValue py getMessage levelno level record).isSome ↔
    level ≤ levelno record ∧ (∃ message, getMessage record = .ok message) ∧
      py.RecordWritable record
  message : ∀ value message, loggedValue py getMessage levelno level record = some value →
    getMessage record = .ok message → value.get? "msg".toList = some (.str message)

theorem loggedValue_eq_some {record : LogRecord N} {value : Value N} :
    loggedValue py getMessage levelno level record = some value ↔ level ≤ levelno record ∧
      ∃ message, getMessage record = .ok message ∧ encodeRecord py record message = .ok value := by
  unfold loggedValue
  split
  · rename_i hlevel
    cases getMessage record with
    | error e => simp [bind, Except.bind, Except.toOption]
    | ok message =>
      cases hvalue : encodeRecord py record message <;>
        simp [bind, Except.bind, Except.toOption, hlevel, hvalue]
  · rename_i hlevel
    simp [hlevel]

theorem logs (record : LogRecord N) : Logs py getMessage levelno level record where
  logged_iff := by
    rw [Option.isSome_iff_exists]
    have hwritable (message : Text) :
        (∃ value, encodeRecord py record message = .ok value) ↔ py.RecordWritable record := by
      rw [← writable_setItem_iff message, ← encodeValue_isOk_iff]
      rfl
    simp only [loggedValue_eq_some]
    constructor
    · rintro ⟨value, hlevel, message, hmessage, hvalue⟩
      exact ⟨hlevel, ⟨message, hmessage⟩, (hwritable message).mp ⟨value, hvalue⟩⟩
    · rintro ⟨hlevel, ⟨message, hmessage⟩, hrecord⟩
      obtain ⟨value, hvalue⟩ := (hwritable message).mpr hrecord
      exact ⟨value, hlevel, message, hmessage, hvalue⟩
  message value message hvalue hmessage := by
    obtain ⟨-, message', hmessage', hencoded⟩ := loggedValue_eq_some.mp hvalue
    obtain rfl := Except.ok.inj (hmessage'.symm.trans hmessage)
    obtain ⟨fields, rfl, hfields⟩ := encodeValue_dict hencoded
    exact get?_encodeMembers hfields

/-- **The file reads back**: one value for each record that is logged, in order; and whatever
beginning of it has reached the disk, its whole lines are those of the first of them. -/
theorem jsonl_file_reads_back (py : Interpreter N) (getMessage : GetMessage N)
    (levelno : LogRecord N → Int) (level : Int) (records : List (LogRecord N)) :
    let file := ((streamLogsToJsonlFile py getMessage level none none).logged levelno records).file
    let values := records.filterMap (loggedValue py getMessage levelno level)
    readJsonLines N file = some values ∧
      (∀ piece, piece <+: file → ∃ first, readJsonLines N piece = some first ∧
        first <+: values) ∧
      ∀ record ∈ records, Logs py getMessage levelno level record := by
  have hfile : ((streamLogsToJsonlFile py getMessage level none none).logged levelno records).file =
      writeLines newlineByte
        ((records.filterMap (loggedValue py getMessage levelno level)).map encodedLine) := by
    rw [(logged_spec ..).1, ← filterMap_line?]
    exact List.nil_append _
  dsimp only
  rw [hfile]
  refine ⟨?_, ?_, fun record _ => logs record⟩
  · have hread := readJsonLines_writeLines
      (records.filterMap (loggedValue py getMessage levelno level)) List.not_mem_nil
    rwa [List.append_nil] at hread
  · intro piece hpiece
    obtain ⟨before, rest, hbefore, hrest, rfl⟩ := prefix_writeLines (newline_notMem_lines _) hpiece
    have hfirst := List.prefix_iff_eq_take.mp hbefore
    rw [← List.map_take] at hfirst
    rw [hfirst, readJsonLines_writeLines _ hrest]
    exact ⟨_, rfl, List.take_prefix _ _⟩

end File

end SchedulingUtil
