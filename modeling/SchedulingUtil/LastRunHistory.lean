import Mathlib.Data.List.DropRight
import SchedulingUtil.Types

/-! # `LastRunHistory`

The list of attempts of one job, with the JSON file it is kept in. An instance
caches the entries; every read and every append first reloads them from the
file when there is one. The locks are the subject of later modules: here the operations run one
at a time. -/
namespace SchedulingUtil
open Lib.Json Lib.Utf8

structure LastRunAttemptStarted (N : Type) where
  time : N
  deriving DecidableEq

structure LastRunAttemptFinished (N : Type) where
  time : N
  outcome : Outcome
  details : String
  deriving DecidableEq

/-- The union discriminated by `kind`. The field `at` of the source is `time`
here, `at` being a keyword. -/
inductive LastRunHistoryEntry (N : Type) where
  | started (e : LastRunAttemptStarted N)
  | finished (e : LastRunAttemptFinished N)
  deriving DecidableEq

/-- `isinstance(entry, LastRunAttemptFinished)`, with the instance. -/
def LastRunHistoryEntry.finished? {N : Type} :
    LastRunHistoryEntry N → Option (LastRunAttemptFinished N)
  | .started _ => none
  | .finished e => some e

def LastRunHistoryEntry.started? {N : Type} :
    LastRunHistoryEntry N → Option (LastRunAttemptStarted N)
  | .started e => some e
  | .finished _ => none

def LastRunHistoryEntry.time {N : Type} : LastRunHistoryEntry N → N
  | .started e => e.time
  | .finished e => e.time

/-! ## The file format -/

def kindKey : Text := ['k', 'i', 'n', 'd']
def atKey : Text := ['a', 't']
def outcomeKey : Text := ['o', 'u', 't', 'c', 'o', 'm', 'e']
def detailsKey : Text := ['d', 'e', 't', 'a', 'i', 'l', 's']
def startedKind : Text := ['s', 't', 'a', 'r', 't', 'e', 'd']
def finishedKind : Text := ['f', 'i', 'n', 'i', 's', 'h', 'e', 'd']

def Outcome.literal : Outcome → Text
  | .success => ['s', 'u', 'c', 'c', 'e', 's', 's']
  | .failure => ['f', 'a', 'i', 'l', 'u', 'r', 'e']
  | .neutral => ['n', 'e', 'u', 't', 'r', 'a', 'l']

def Outcome.ofLiteral (s : Text) : Option Outcome :=
  [Outcome.success, .failure, .neutral].find? fun o => o.literal == s

variable {N : Type} [PyNumber N]

/-- A `float` as pydantic writes it: JSON has no NaN and no infinity. -/
def floatJson (n : N) : Value N := if PyNumber.isFinite n then .num n else .null

def LastRunHistoryEntry.toJson : LastRunHistoryEntry N → Value N
  | .started e => .obj [(kindKey, .str startedKind), (atKey, floatJson e.time)]
  | .finished e => .obj [(kindKey, .str finishedKind), (atKey, floatJson e.time),
      (outcomeKey, .str e.outcome.literal), (detailsKey, .str e.details.toList)]

/-- `details: str = ""`. -/
def detailsField (data : Value N) : Option String :=
  match data.get? detailsKey with
  | none => some ""
  | some (.str s) => some (String.ofList s)
  | some _ => none

/-- `TypeAdapter(LastRunHistoryEntry).validate_python`: the model is chosen by
`kind`, unknown fields are ignored. -/
def validateEntry (data : Value N) : Option (LastRunHistoryEntry N) :=
  match data.get? kindKey with
  | some (.str kind) =>
    if kind = startedKind then do
      let time ← (data.get? atKey).bind PyNumber.lax
      return .started ⟨time⟩
    else if kind = finishedKind then do
      let time ← (data.get? atKey).bind PyNumber.lax
      let outcome ← match data.get? outcomeKey with
        | some (.str s) => Outcome.ofLiteral s
        | _ => none
      let details ← detailsField data
      return .finished ⟨time, outcome, details⟩
    else none
  | _ => none

/-- What an unpaired surrogate of a string is read as. A `Char` is none; no name and no
literal that the validation compares a string with has this one either. -/
def replacementCharacter : Char := '\ufffd'

/-- `json.load` of a file opened as UTF-8: nothing when either the text does not
decode or it is not JSON. -/
def jsonLoad (content : Bytes) : Option (Value N) :=
  (decode content).bind (loadsWith (some replacementCharacter))

/-- A missing or malformed file and one that holds no list give no entries;
items that are not entries are left out. -/
def loadHistoryEntriesFromFile : File → List (LastRunHistoryEntry N)
  | none => []
  | some content =>
    match jsonLoad content with
    | some (.arr items) => items.filterMap validateEntry
    | some _ => []
    | none => []

/-- `TypeAdapter(list[LastRunHistoryEntry]).dump_json(entries, indent=2)`. -/
def dumpEntries (entries : List (LastRunHistoryEntry N)) : Bytes :=
  encode (render (indented 2) 0 (.arr (entries.map LastRunHistoryEntry.toJson)))

/-- `model_dump_json(indent=2)` of one entry. -/
def dumpEntry (entry : LastRunHistoryEntry N) : String :=
  String.ofList (render (indented 2) 0 entry.toJson)

/-! ## The object -/

/-- `path` says whether the instance has one; the file there is passed along
with the instance. -/
structure LastRunHistory (N : Type) where
  entries : List (LastRunHistoryEntry N)
  maxEntries : Nat
  path : Bool

/-- `while len(entries) > max_entries: entries.pop(0)`. -/
def discardOldEntries {α : Type} (maxEntries : Nat) : List α → List α
  | [] => []
  | e :: es => if maxEntries < (e :: es).length then discardOldEntries maxEntries es else e :: es

theorem length_discardOldEntries {α : Type} (m : Nat) (es : List α) :
    (discardOldEntries m es).length ≤ m := by
  induction es with
  | nil => exact Nat.zero_le m
  | cons e es ih =>
    rw [discardOldEntries]
    split
    · exact ih
    · rename_i h
      exact Nat.le_of_not_lt h

namespace LastRunHistory

def loadFromFileWithoutLock (h : LastRunHistory N) (file : File) : LastRunHistory N :=
  if h.path then
    { h with entries := discardOldEntries h.maxEntries (loadHistoryEntriesFromFile file) }
  else h

def refreshFromFileWithoutLock (h : LastRunHistory N) (file : File) : LastRunHistory N :=
  if h.path && file.isSome then h.loadFromFileWithoutLock file else h

def persistToFileWithoutLock (h : LastRunHistory N) (file : File) : File :=
  if h.path then some (dumpEntries h.entries) else file

/-- `__init__`. -/
def init (maxEntries : Int) (path : Bool) (entries : Option (List (LastRunHistoryEntry N)))
    (file : File) : Except PyException (LastRunHistory N) :=
  if maxEntries < 0 then .error (.valueError "max_entries must be non-negative.")
  else
    match entries with
    | some entries => .ok ⟨entries, maxEntries.toNat, path⟩
    | none =>
      if path then .ok (loadFromFileWithoutLock ⟨[], maxEntries.toNat, path⟩ file)
      else .ok ⟨[], maxEntries.toNat, path⟩

def append (h : LastRunHistory N) (file : File) (entry : LastRunHistoryEntry N) :
    LastRunHistory N × File :=
  let h := h.refreshFromFileWithoutLock file
  let h := { h with entries := discardOldEntries h.maxEntries (h.entries ++ [entry]) }
  (h, h.persistToFileWithoutLock file)

/-- What the reads of an instance answer from: its entries after a refresh. -/
def snapshot (h : LastRunHistory N) (file : File) : List (LastRunHistoryEntry N) :=
  (h.refreshFromFileWithoutLock file).entries

end LastRunHistory

/-! ## The queries, on the refreshed entries -/

omit [PyNumber N]

/-- The loop of `n_failures_since_last_success`, over the reversed entries. -/
def countFailures : List (LastRunHistoryEntry N) → Nat → Nat
  | [], n => n
  | .started _ :: rest, n => countFailures rest n
  | .finished e :: rest, n =>
    match e.outcome with
    | .success => n
    | .failure => countFailures rest (n + 1)
    | .neutral => countFailures rest n

def nFailuresSinceLastSuccess (entries : List (LastRunHistoryEntry N)) : Nat :=
  countFailures entries.reverse 0

structure EntryFilter where
  before : Option Datetime := none
  after : Option Datetime := none
  started : Bool := false
  finished : Bool := false
  outcome : Option Outcome := none

/-- The body of the loop of `find_last_entry`: whether the entry is returned. -/
def EntryFilter.accepts (fromTimestamp : FromTimestamp N) (f : EntryFilter)
    (entry : LastRunHistoryEntry N) : Except PyException Bool := do
  if let some after := f.after then
    if (← fromTimestamp entry.time) ≤ after then return false
  if let some before := f.before then
    if (← fromTimestamp entry.time) ≥ before then return false
  if f.started && entry.started?.isNone then return false
  if f.finished || f.outcome.isSome then
    match entry.finished? with
    | none => return false
    | some e => return f.outcome.all fun o => e.outcome == o
  return true

def findFirst {α : Type} (p : α → Except PyException Bool) : List α → Except PyException (Option α)
  | [] => return none
  | x :: xs => do
    if ← p x then return some x
    findFirst p xs

def findLastEntry (fromTimestamp : FromTimestamp N) (f : EntryFilter)
    (entries : List (LastRunHistoryEntry N)) :
    Except PyException (Option (LastRunHistoryEntry N)) :=
  findFirst (f.accepts fromTimestamp) entries.reverse

/-- `assert isinstance(result, LastRunAttemptFinished)`, for a result there is. -/
def assertFinished : Option (LastRunHistoryEntry N) →
    Except PyException (Option (LastRunAttemptFinished N))
  | none => return none
  | some (.finished e) => return some e
  | some (.started _) => throw .assertionError

def assertStarted : Option (LastRunHistoryEntry N) →
    Except PyException (Option (LastRunAttemptStarted N))
  | none => return none
  | some (.started e) => return some e
  | some (.finished _) => throw .assertionError

variable (fromTimestamp : FromTimestamp N) (entries : List (LastRunHistoryEntry N))

def lastWithOutcome (o : Outcome) : Except PyException (Option (LastRunAttemptFinished N)) := do
  assertFinished (← findLastEntry fromTimestamp { outcome := some o } entries)

def lastSuccess := lastWithOutcome fromTimestamp entries .success
def lastNeutral := lastWithOutcome fromTimestamp entries .neutral
def lastFailure := lastWithOutcome fromTimestamp entries .failure

def lastStarted : Except PyException (Option (LastRunAttemptStarted N)) := do
  assertStarted (← findLastEntry fromTimestamp { started := true } entries)

def lastFinished : Except PyException (Option (LastRunAttemptFinished N)) := do
  assertFinished (← findLastEntry fromTimestamp { finished := true } entries)

end SchedulingUtil
