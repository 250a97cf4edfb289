import SchedulingUtil.JsonLogFormatter
import SchedulingUtil.Lib.JsonReplace
import SchedulingUtil.LogRedactor

/-! # Redacted JSON lines

`process_log_record` before the formatter and `process_log_message` after it. The second one works
on the JSON text, where it knows nothing of strings, numbers and escapes. -/
namespace SchedulingUtil
open Lib.Json Lib.Replace

/-- `attach_extra_callbacks_to_log_formatter`: the `format` that the formatter has afterwards. -/
def attachExtraCallbacks {R : Type} (format : R → Except PyException Text)
    (preFormat : Option (R → Except PyException R)) (postFormat : Option (Text → Text)) :
    R → Except PyException Text :=
  if preFormat.isNone && postFormat.isNone then format
  else fun record => do
    let record ← match preFormat with
      | some preFormat => preFormat record
      | none => .ok record
    let formatted ← format record
    return match postFormat with
      | some postFormat => postFormat formatted
      | none => formatted

/-! ## The post-format pass -/

section Pass
variable {N : Type} {redactions : List Text}

theorem infix_of_infix_processLogMessage (hne : ∀ r ∈ redactions, r ≠ []) {x : Text}
    (hx : '*' ∉ x) {s : Text} (h : x <:+: processLogMessage redactions s) : x <:+: s := by
  rw [processLogMessage_eq hne] at h
  induction redactions generalizing s with
  | nil => exact h
  | cons r redactions ih =>
    exact infix_of_infix_replace (hne r List.mem_cons_self) redactionMarker_ne_nil
      (notMem_redactionMarker hx) (ih (fun r hr => hne r (List.mem_cons_of_mem _ hr)) h)

/-- What has been redacted has no redaction. -/
theorem not_infix_processLogMessage (hne : ∀ r ∈ redactions, r ≠ [])
    (hstar : ∀ r ∈ redactions, '*' ∉ r) :
    ∀ r ∈ redactions, ∀ s, ¬ r <:+: processLogMessage redactions s := by
  induction redactions with
  | nil => exact nofun
  | cons first redactions ih =>
    have hrest := fun r hr => hne r (List.mem_cons_of_mem first hr)
    intro r hr s h
    rcases List.mem_cons.mp hr with rfl | hr
    · have hstar' := hstar r List.mem_cons_self
      have hfirst := infix_of_infix_processLogMessage hrest hstar' (s := redact r s) h
      rw [redact_eq_replace (hne r List.mem_cons_self)] at hfirst
      exact not_infix_replace (hne r List.mem_cons_self) redactionMarker_ne_nil
        (notMem_redactionMarker hstar') s hfirst
    · exact ih hrest (fun r hr => hstar r (List.mem_cons_of_mem _ hr)) r hr (redact first s) h

variable [NumberSyntax N]

/-- Each redaction, at its turn, is found in the JSON text only among characters of a string that
are written as themselves. -/
def EachWithinStrings : List Text → Value N → Prop
  | [], _ => True
  | r :: redactions, v =>
    WithinStrings ascii r v ∧ EachWithinStrings redactions
      (if ascii.Plain r then v.mapStrings (replace r redactionMarker) else v)

/-- The redactions that JSON does not escape. -/
def plainRedactions (redactions : List Text) : List Text :=
  redactions.filter fun r => ascii.Plain r

theorem plain_redactionMarker : ascii.Plain redactionMarker := by decide

/-- Then the pass redacts every string of the object, as far as JSON shows the redactions. -/
theorem processLogMessage_render (hne : ∀ r ∈ redactions, r ≠ []) {v : Value N}
    (h : EachWithinStrings redactions v) :
    processLogMessage redactions (render ascii 0 v) =
      render ascii 0 (v.mapStrings (processLogMessage (plainRedactions redactions))) := by
  induction redactions generalizing v with
  | nil => rw [mapStrings_of_forall (f := processLogMessage (plainRedactions [])) fun s => rfl]; rfl
  | cons r redactions ih =>
    have hr := hne r List.mem_cons_self
    have hrest := ih (fun r hr => hne r (List.mem_cons_of_mem _ hr)) h.2
    have hcons (rs : List Text) : processLogMessage (r :: rs) =
        processLogMessage rs ∘ replace r redactionMarker := by
      funext s
      rw [Function.comp_apply, ← redact_eq_replace hr]
      rfl
    rw [hcons, Function.comp_apply]
    by_cases hplain : ascii.Plain r
    · rw [if_pos hplain] at hrest
      have hfilter : plainRedactions (r :: redactions) = r :: plainRedactions redactions :=
        List.filter_cons_of_pos (decide_eq_true hplain)
      rw [replace_render hr hplain plain_redactionMarker h.1, hrest, mapStrings_mapStrings, hfilter,
        hcons]
    · rw [if_neg hplain] at hrest
      have hfilter : plainRedactions (r :: redactions) = plainRedactions redactions :=
        List.filter_cons_of_neg (by simpa using hplain)
      rw [replace_of_absent hr _ (not_infix_render hplain h.1), hrest, hfilter]

end Pass

/-! ## The redacted line -/

section Line
variable {N : Type} [JsonNumber N] (typeText : PyValue N → String) (py : Interpreter N)
  (getMessage : GetMessage N) (redactions : List Text)

/-- `format` of a `JsonLogFormatter` with the two callbacks of a `LogRedactor`. -/
def redactingFormat : LogRecord N → Except PyException Text :=
  attachExtraCallbacks (JsonLogFormatter.format py getMessage)
    (some (processLogRecord typeText redactions)) (some (processLogMessage redactions))

/-- The object that is written before the post-format pass. -/
def writtenObject (record : LogRecord N) : Except PyException (Value N) := do
  let record ← processLogRecord typeText redactions record
  let message ← getMessage record
  encodeRecord py record message

/-- Valid JSON in which no string has a redaction. -/
def IsCleanJson (N : Type) [NumberSyntax N] (redactions : List Text) (line : Text) : Prop :=
  ∃ value : Value N, loads line = some value ∧
    ∀ s, value.HasString s → ∀ r ∈ redactions, ¬ r <:+: s

theorem redactingFormat_eq (record : LogRecord N) :
    redactingFormat typeText py getMessage redactions record =
      (writtenObject typeText py getMessage redactions record).map fun value =>
        processLogMessage redactions (render ascii 0 value) := by
  show (do
    let record ← processLogRecord typeText redactions record
    let formatted ← JsonLogFormatter.format py getMessage record
    return processLogMessage redactions formatted) = _
  rw [writtenObject]
  cases processLogRecord typeText redactions record with
  | error e => rfl
  | ok processed =>
    show (do
      let formatted ← JsonLogFormatter.format py getMessage processed
      return processLogMessage redactions formatted) =
        (do let message ← getMessage processed; encodeRecord py processed message :
          Except PyException (Value N)).map _
    cases hmessage : getMessage processed with
    | error e =>
      rw [JsonLogFormatter.format, hmessage]
      rfl
    | ok message =>
      rw [format_eq hmessage]
      show ((encodeRecord py processed message).map _ >>= _) =
        (encodeRecord py processed message).map _
      cases encodeRecord py processed message <;> rfl

/-- No string of the object has a redaction that JSON escapes, after the others are replaced. -/
def NoneEscaped (redactions : List Text) (value : Value N) : Prop :=
  ∀ s, value.HasString s → ∀ r ∈ redactions, ¬ ascii.Plain r →
    ¬ r <:+: processLogMessage (plainRedactions redactions) s

variable {typeText py getMessage redactions}

/-- **A redacted line stays JSON where the redactions are found within strings, and there it is
clean exactly if no redaction is hidden by its escapes.** -/
theorem redacted_line_clean_iff {record : LogRecord N} {value : Value N}
    (hne : ∀ r ∈ redactions, r ≠ []) (hstar : ∀ r ∈ redactions, '*' ∉ r)
    (hvalue : writtenObject typeText py getMessage redactions record = .ok value)
    (hwithin : EachWithinStrings redactions value) :
    ∃ line, redactingFormat typeText py getMessage redactions record = .ok line ∧
      (∃ value : Value N, loads line = some value) ∧
      (IsCleanJson N redactions line ↔ NoneEscaped redactions value) := by
  have hloads := loads_render ascii
    (value.mapStrings (processLogMessage (plainRedactions redactions)))
  rw [redactingFormat_eq, hvalue]
  refine ⟨processLogMessage redactions (render ascii 0 value), rfl, ?_⟩
  rw [processLogMessage_render hne hwithin]
  refine ⟨⟨_, hloads⟩, ?_, ?_⟩
  · rintro ⟨value', hvalue', hclean⟩ s hs r hr -
    rw [hloads, Option.some.injEq] at hvalue'
    exact hclean _ (hvalue' ▸ hs.mapStrings _) r hr
  · refine fun hnone => ⟨_, hloads, fun s hs r hr => ?_⟩
    obtain ⟨t, ht, rfl⟩ := hasString_mapStrings hs
    by_cases hplain : ascii.Plain r
    · exact not_infix_processLogMessage (fun r hr => hne r (List.mem_of_mem_filter hr))
        (fun r hr => hstar r (List.mem_of_mem_filter hr)) r
        (List.mem_filter.mpr ⟨hr, decide_eq_true hplain⟩) t
    · exact hnone t ht r hr hplain

end Line

/-! ### A number and a word -/

/-- `getMessage` of a message without arguments. -/
def messageAlone : GetMessage Nat := fun record =>
  match record.get? "msg" with
  | some (.str s) => .ok s
  | _ => .ok []

/-- `logger.info(msg, extra={"n": n})`. -/
def numberedRecord (msg : String) (n : Nat) : LogRecord Nat :=
  ⟨[(.str "msg".toList, .str msg.toList), (.str "args".toList, .tuple []),
    (.str "n".toList, .num n)]⟩

/-- A word in the message. -/
theorem redacted_word_clean :
    ∃ line, redactingFormat (fun _ => "") usualLimits (fun _ => .ok "one two".toList)
        ["two".toList] (numberedRecord "one %s" 42) = .ok line ∧
      IsCleanJson Nat ["two".toList] line := by
  have hvalue : writtenObject (fun _ => "") usualLimits (fun _ => .ok "one two".toList)
      ["two".toList] (numberedRecord "one %s" 42) =
        .ok (.obj [("msg".toList, .str "one two".toList), ("args".toList, .arr []),
          ("n".toList, .num 42)]) := rfl
  have hwithin : WithinStrings ascii "two".toList
      (.obj [("msg".toList, .str "one two".toList), ("args".toList, .arr []),
          ("n".toList, (.num 42 : Value Nat))]) := by
    refine withinStrings_of_lt (by decide) ?_
    decide
  have hplain : ∀ r ∈ ["two".toList], ascii.Plain r := by decide
  obtain ⟨line, hline, -, hclean⟩ :=
    redacted_line_clean_iff (by decide) (by decide) hvalue ⟨hwithin, trivial⟩
  exact ⟨line, hline, hclean.mpr fun s _ r hr hnot => absurd (hplain r hr) hnot⟩

def brokenLine : Text := "\x7b\"msg\": \"hi\", \"args\": [], \"n\": ***\x7d".toList

/-- A redaction of two digits, which the record has as a number. -/
theorem redacted_number_breaks :
    redactingFormat (fun _ => "") usualLimits messageAlone ["42".toList] (numberedRecord "hi" 42) =
      .ok brokenLine ∧
    ¬ IsCleanJson Nat ["42".toList] brokenLine := by
  refine ⟨by rfl, ?_⟩
  rintro ⟨value, hvalue, -⟩
  have hnone : (loads brokenLine : Option (Value Nat)) = none := by rfl
  rw [hnone] at hvalue
  cases hvalue

end SchedulingUtil
