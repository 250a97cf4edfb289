import SchedulingUtil.Lib.Masking
import SchedulingUtil.LogRecord

/-! # `LogRedactor`

The redactions are replaced one after the other, in what the ones before have left. -/
namespace SchedulingUtil
open Lib.Json Lib.Replace Lib.Masking

def redactionMarker : Text := "***".toList

/-! ## The message -/

/-- `if redaction in s: s = s.replace(redaction, "***")`. -/
def redact (redaction s : Text) : Text :=
  if redaction <:+: s then replace redaction redactionMarker s else s

def processLogMessage (redactions : List Text) (message : Text) : Text :=
  redactions.foldl (fun message redaction => redact redaction message) message

/-! ## The record -/

section Record
variable {N : Type}

/-- An argument that is no `str` stays as it is. -/
def redactValue (redaction : Text) : PyValue N → PyValue N
  | .str s => .str (redact redaction s)
  | v => v

/-- `typeText` is how a type is shown. -/
def redactArgs (typeText : PyValue N → String) (redaction : Text) :
    PyValue N → Except PyException (PyValue N)
  | .dict items => .ok (.dict (items.map fun item => (item.1, redactValue redaction item.2)))
  | .tuple items => .ok (.tuple (items.map (redactValue redaction)))
  | .none => .ok .none
  | args => .error ⟨.exception, "NotImplementedError",
      "Don't know how to redact args of type `" ++ typeText args ++ "` yet."⟩

/-- The body of the loop. A record need not have a `message`. -/
def redactRecord (typeText : PyValue N → String) (record : LogRecord N) (redaction : Text) :
    Except PyException (LogRecord N) := do
  let msg ← record.getattr "msg"
  let record := record.setattr "msg" (redactValue redaction msg)
  let record := match record.get? "message" with
    | some message => record.setattr "message" (redactValue redaction message)
    | none => record
  let args ← record.getattr "args"
  let args ← redactArgs typeText redaction args
  return record.setattr "args" args

def processLogRecord (typeText : PyValue N → String) (redactions : List Text)
    (record : LogRecord N) : Except PyException (LogRecord N) :=
  redactions.foldlM (redactRecord typeText) record

end Record

/-! ## What a message shows afterwards -/

theorem redact_eq_replace {redaction : Text} (hne : redaction ≠ []) (s : Text) :
    redact redaction s = replace redaction redactionMarker s := by
  rw [redact]
  split
  · rfl
  · rename_i h
    exact (replace_of_absent hne _ h).symm

theorem processLogMessage_eq {redactions : List Text} (hne : ∀ r ∈ redactions, r ≠ [])
    (message : Text) : processLogMessage redactions message =
      redactions.foldl (fun s r => replace r redactionMarker s) message := by
  induction redactions generalizing message with
  | nil => rfl
  | cons r redactions ih =>
    rw [processLogMessage, List.foldl_cons, List.foldl_cons,
      redact_eq_replace (hne r List.mem_cons_self)]
    exact ih (fun r hr => hne r (List.mem_cons_of_mem _ hr)) _

/-- What lies outside every occurrence is left, and markers stand for the rest. -/
def ShowsOnlyUncovered (redactions : List Text) (message output : Text) : Prop :=
  Masked redactionMarker (Covered redactions message) 0 message output

/-- No redaction is found where a marker takes part. -/
def MarkersUntouched (redactions : List Text) (message : Text) : Prop :=
  UntouchedBy redactionMarker (message.map .kept) redactions

theorem redactionMarker_ne_nil : redactionMarker ≠ [] := List.cons_ne_nil _ _

theorem notMem_redactionMarker {r : Text} (h : '*' ∉ r) : ∀ c ∈ r, c ∉ redactionMarker := by
  intro c hc hmarker
  have hstar : c = '*' := List.eq_of_mem_replicate (n := 3) hmarker
  exact h (hstar ▸ hc)

/-- **Every secret is masked where each of its characters belongs to an occurrence that comes
first**, and nowhere else unless a redaction has a star. -/
theorem redaction_masks_iff {redactions : List Text} (hne : ∀ r ∈ redactions, r ≠ [])
    (message : Text) :
    (MarkersUntouched redactions message ∧ AllFirstCome redactions message →
      ShowsOnlyUncovered redactions message (processLogMessage redactions message)) ∧
    ((∀ r ∈ redactions, '*' ∉ r) →
      (ShowsOnlyUncovered redactions message (processLogMessage redactions message) ↔
        AllFirstCome redactions message)) := by
  rw [ShowsOnlyUncovered, processLogMessage_eq hne]
  have henough (htouch : MarkersUntouched redactions message)
      (hall : AllFirstCome redactions message) :=
    masked_of_allFirstCome redactionMarker_ne_nil hne htouch hall
  refine ⟨fun h => henough h.1 h.2, fun hstar => ⟨fun h => ?_, fun hall => ?_⟩⟩
  · exact allFirstCome_of_masked redactionMarker_ne_nil hne
      (fun r hr => notMem_redactionMarker (hstar r hr)) h
  · exact henough (untouchedBy_of_disjoint redactionMarker_ne_nil hne fun r hr =>
      notMem_redactionMarker (hstar r hr)) hall

/-- A redaction and a beginning of it, the longer one first. -/
theorem longer_first_masks :
    ShowsOnlyUncovered ["abc".toList, "ab".toList] "xabcyab".toList "x***y***".toList :=
  ((redaction_masks_iff (by decide) "xabcyab".toList).2 (by decide)).mpr (by decide)

/-- Two redactions that overlap: what the first one leaves of the second is shown. -/
theorem overlapping_redactions_show :
    processLogMessage ["ab".toList, "bc".toList] "abc".toList = "***c".toList ∧
      ¬ ShowsOnlyUncovered ["ab".toList, "bc".toList] "abc".toList "***c".toList := by
  have hne : ∀ r ∈ ["ab".toList, "bc".toList], r ≠ [] := by decide
  have hstar : ∀ r ∈ ["ab".toList, "bc".toList], '*' ∉ r := by decide
  have houtput : processLogMessage ["ab".toList, "bc".toList] "abc".toList = "***c".toList := by
    decide
  refine ⟨houtput, fun h => ?_⟩
  rw [ShowsOnlyUncovered, ← houtput, processLogMessage_eq hne] at h
  have hall := allFirstCome_of_masked redactionMarker_ne_nil hne
    (fun r hr => notMem_redactionMarker (hstar r hr)) h
  exact absurd hall (by decide)

end SchedulingUtil
