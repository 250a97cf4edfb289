import SchedulingUtil.Lib.Traced
import SchedulingUtil.Schedule

/-! # `schedule` up to its loop

The options are validated, the health check is configured by requests to the management
API, and the job's history is opened. The client of healthchecks.io is a parameter: what each
of its requests returns or raises. -/
namespace SchedulingUtil
open Lib Lib.Json

/-- An exception, with what the handlers here ask of its class. -/
structure StartupException where
  exception : PyException
  isRequestException : Bool
  isValueError : Bool
  ordinary : isRequestException = true ∨ isValueError = true → exception.cls = .exception

namespace StartupException

def valueError (text : String) : StartupException := ⟨.valueError text, false, true, fun _ => rfl⟩

def assertionError : StartupException := ⟨.assertionError, false, false, by simp⟩

def ofPyException (e : PyException) : StartupException :=
  ⟨e, false, e.typeName = "ValueError" && e.cls = .exception, by simp⟩

end StartupException

/-! ## The client -/

/-- `_HealthcheckMetadata`. -/
structure HealthcheckMetadata where
  name : Option String
  desc : Option String
  timeout : Option Int
  grace : Option Int
  deriving DecidableEq

/-- `any(value is not None for value in configuration.values())`. -/
def HealthcheckMetadata.isGiven (m : HealthcheckMetadata) : Bool :=
  m.name.isSome || m.desc.isSome || m.timeout.isSome || m.grace.isSome

/-- The arguments of `manage_update`. -/
inductive ManageUpdate where
  | metadata (configuration : HealthcheckMetadata)
  | routing (channels : Option (List String)) (tags : Option String)
  deriving DecidableEq

/-- `int(td.total_seconds())`: the seconds as the nearest double, ties to even, less its
fraction. -/
def wholeSeconds (td : Timedelta) : Int :=
  -- what is left of the 53 bits for the fraction
  let scale := 2 ^ (52 - (td.natAbs / 1000000).log2)
  let scaled := td.natAbs * scale / 1000000
  let rest := td.natAbs * scale % 1000000
  let rounded :=
    if 500000 < rest || rest = 500000 && scaled % 2 = 1 then scaled + 1 else scaled
  td.sign * (rounded / scale)

example : wholeSeconds (-1999999) = -1 := by decide

/-- `check` is `hc.check(slug, uuid)`, `resolved` is `replace(check, uuid=…, create=None)`. -/
structure HealthChecksClient (C : Type) where
  check : Option String → Option String → C
  resolved : C → String → C
  createOrUpdate : Option String → HealthcheckMetadata →
    Except StartupException (List (Text × Value Int))
  manageUpdate : C → ManageUpdate → Except StartupException Unit
  pingLog : C → String → Except StartupException Unit

/-- The uuid in what the creation of a check returns. -/
def configuredUuid (checkInfo : List (Text × Value Int)) : Except StartupException String :=
  match (Value.obj checkInfo).get? "uuid".toList with
  | some (.str uuid) =>
    if uuid = [] then
      .error (.valueError "Expected Healthchecks to return a non-empty uuid string.")
    else .ok (String.ofList uuid)
  | _ => .error (.valueError "Expected Healthchecks to return a non-empty uuid string.")

/-- The block that creates the check. -/
def HealthChecksClient.createdUuid {C : Type} (client : HealthChecksClient C)
    (slug : Option String) (configuration : HealthcheckMetadata) :
    Except StartupException String := do
  configuredUuid (← client.createOrUpdate slug configuration)

inductive StartupEffect (C : Type) where
  | warning (message : String)
  | createOrUpdate (slug : Option String) (configuration : HealthcheckMetadata)
  | manageUpdate (check : C) (update : ManageUpdate)
  | pingLog (check : C) (data : String)

abbrev Startup (C α : Type) := Traced (StartupEffect C) StartupException α

/-! ## The options -/

/-- Whether a text is given and not empty. -/
def truthy (s : Option String) : Bool := s.any (· != "")

/-- What the command line passes on as it is. -/
structure CommonOptions where
  hcPingKey : Option String
  hcManageKey : Option String
  hcUuid : Option String
  hcTags : Option String
  hcTimeout : Option Timedelta
  hcGrace : Option Timedelta
  name : Option String
  description : Option String
  interval : Timedelta
  maxRuns : Option Int
  successPeriod : Timedelta
  neutralPeriod : Timedelta
  failurePeriod : Timedelta
  maxFailures : Int
  onMaxFailures : OnMaxFailures

structure ScheduleOptions extends CommonOptions where
  hcChannels : Option (List String)
  hcConfigFailure : String
  lastRunReset : Bool
  maxHistoryEntries : Int

namespace ScheduleOptions
variable (o : ScheduleOptions)

def configuresRouting : Bool := o.hcChannels.isSome || o.hcTags.isSome

/-- To ping a health check, we need (the UUID) || (the slug && the ping key). -/
def identified : Bool := truthy o.hcUuid || (truthy o.hcPingKey && truthy o.name)

def validate : Except StartupException Unit := do
  if o.hcConfigFailure ≠ "raise" ∧ o.hcConfigFailure ≠ "warn" then
    throw (.valueError "hc_config_failure must be 'raise' or 'warn'.")
  if o.configuresRouting && !truthy o.hcManageKey then
    throw (.valueError "hc_manage_key is required with hc_channels or hc_tags.")
  if o.configuresRouting && !o.identified then
    throw (.valueError "hc_channels and hc_tags require hc_uuid or both hc_ping_key and name.")

/-! ## The configuration of the check -/

section Configuration
variable {C : Type} (client : HealthChecksClient C)

/-- An option that needs a manage key, without one. -/
def ignored {α : Type} (option : String) : Option α → Startup C (Option α)
  | none => return none
  | some _ => do
    Traced.emit (.warning ("`" ++ option ++ "` is ignored when `hc_manage_key` is not provided."))
    return none

/-- The options that are left without a manage key. -/
def withoutIgnored : Startup C ScheduleOptions :=
  if o.hcManageKey.isSome then return o
  else do
    let description ← ignored "description" o.description
    let hcTimeout ← ignored "hc_timeout" o.hcTimeout
    let hcGrace ← ignored "hc_grace" o.hcGrace
    return { o with description, hcTimeout, hcGrace }

def configuration : HealthcheckMetadata where
  name := if truthy o.hcManageKey then o.name else none
  desc := o.description
  timeout := (o.hcTimeout.filter (· ≠ 0)).map wholeSeconds
  grace := (o.hcGrace.filter (· ≠ 0)).map wholeSeconds

/-- `with suppress(Exception): check.ping_log(data=message)`. -/
def pingLogSuppressed (check : C) (message : String) : Startup C Unit :=
  (Traced.call (.pingLog check message) (client.pingLog check message)).orElse
    (fun e => if e.exception.cls = .exception then return () else .raise e) pure

def warnConfigurationFailure (check : Option C) (stage : String) (e : StartupException) :
    Startup C Unit := do
  let message := "Healthchecks " ++ stage ++ " failed; continuing with available pings: " ++
    e.exception.typeName ++ ": " ++ e.exception.text
  Traced.emit (.warning message)
  match check with
  | none => return ()
  | some check => pingLogSuppressed client check message

/-- A handler of the request of a stage; `caught` says whether it names the exception. -/
def onFailure (check : C) (stage : String) (caught : Bool) (e : StartupException) :
    Startup C Unit :=
  if !caught then .raise e
  else if o.hcConfigFailure = "raise" then .raise e
  else warnConfigurationFailure client (some check) stage e

/-- The check from here on, and whether its creation failed. -/
def configureMetadata : Option C → Startup C (Option C × Bool)
  | none => return (none, false)
  | some check =>
    if truthy o.hcManageKey && o.configuration.isGiven then
      match o.hcUuid with
      | none =>
        (Traced.call (.createOrUpdate o.name o.configuration)
            (client.createdUuid o.name o.configuration)).orElse
          (fun e => do
            o.onFailure client check "check creation" (e.isRequestException || e.isValueError) e
            return (some check, true))
          (fun uuid => return (some (client.resolved check uuid), false))
      | some _ =>
        (Traced.call (.manageUpdate check (.metadata o.configuration))
            (client.manageUpdate check (.metadata o.configuration))).orElse
          (fun e => do
            o.onFailure client check "metadata configuration" e.isRequestException e
            return (some check, false))
          (fun _ => return (some check, false))
    else return (some check, false)

def routing : ManageUpdate := .routing o.hcChannels o.hcTags

def configureRouting (creationFailed : Bool) (check : Option C) : Startup C Unit :=
  if o.configuresRouting && !creationFailed then
    match check with
    | none => .raise .assertionError
    | some check =>
      (Traced.call (.manageUpdate check o.routing) (client.manageUpdate check o.routing)).orElse
        (fun e => o.onFailure client check "routing configuration" e.isRequestException e) pure
  else return ()

/-- The check before it is configured. -/
def firstCheck : Option C :=
  if o.identified then some (client.check o.name o.hcUuid) else none

/-- The check that the loop gets. -/
def configure : Startup C (Option C) := do
  let (check, creationFailed) ← o.configureMetadata client (o.firstCheck client)
  o.configureRouting client creationFailed check
  return check

def startup : Startup C (Option C) := do
  .lift o.validate
  let o ← o.withoutIgnored
  o.configure client

end Configuration

/-! ## The state in which the loop is entered -/

/-- `name` in messages. -/
def config {C : Type} (check : Option C) : ScheduleConfig :=
  ⟨o.interval, o.maxRuns, o.name.getD "None", check.isSome⟩

def shouldRun {C : Type} (check : Option C) : RunPredicate :=
  { successPeriod := o.successPeriod
    neutralPeriod := o.neutralPeriod
    failurePeriod := o.failurePeriod
    maxFailures := o.maxFailures
    onMaxFailures := o.onMaxFailures
    check := check.isSome }

/-- `schedule` on the file at the job's path, up to the loop. -/
def enter {C N : Type} [PyNumber N] (client : HealthChecksClient C) (file : File) :
    Startup C (ScheduleConfig × ScheduleState N) := do
  let check ← o.startup client
  let file := if o.lastRunReset then none else file
  let lastRun ← Traced.lift
    ((LastRun.init o.maxHistoryEntries file).mapError StartupException.ofPyException)
  return (o.config check, .initial (o.shouldRun check) lastRun)

end ScheduleOptions

/-! ## Which failures end the start-up -/

/-- What an effect raises. -/
def HealthChecksClient.failure {C : Type} (client : HealthChecksClient C) :
    StartupEffect C → Option StartupException
  | .warning _ => none
  | .createOrUpdate slug m => raised? (client.createdUuid slug m)
  | .manageUpdate check update => raised? (client.manageUpdate check update)
  | .pingLog check data => raised? (client.pingLog check data)

/-- A request to the management API. -/
def StartupEffect.isRequest {C : Type} : StartupEffect C → Bool
  | .createOrUpdate _ _ | .manageUpdate _ _ => true
  | .warning _ | .pingLog _ _ => false

namespace ScheduleOptions
variable {C : Type} (client : HealthChecksClient C) (o : ScheduleOptions)

/-- A request may fail with what its stage allows for, when the options say to warn only; the
delivery of a warning may fail with any `Exception`. -/
def Tolerates : StartupEffect C → StartupException → Prop
  | .warning _, _ => True
  | .createOrUpdate _ _, e =>
    o.hcConfigFailure = "warn" ∧ (e.isRequestException = true ∨ e.isValueError = true)
  | .manageUpdate _ _, e => o.hcConfigFailure = "warn" ∧ e.isRequestException = true
  | .pingLog _ _, e => e.exception.cls = .exception

variable {client o}

theorem stops_pingLogSuppressed (check : C) (message : String) :
    (pingLogSuppressed client check message).Stops client.failure o.Tolerates := by
  refine Traced.Stops.orElse_call rfl (fun _ _ => Traced.stops_pure _) ?_ ?_
  · intro e _ htolerated
    rw [if_pos (show e.exception.cls = .exception from htolerated)]
    exact Traced.stops_pure _
  · intro e _ htolerated
    exact if_neg htolerated

theorem stops_warnConfigurationFailure (check : Option C) (stage : String)
    (e : StartupException) :
    (warnConfigurationFailure client check stage e).Stops client.failure o.Tolerates := by
  refine .bind (Traced.stops_emit rfl) ?_
  intro _ _
  cases check with
  | none => exact Traced.stops_pure _
  | some check => exact stops_pingLogSuppressed check _

theorem onFailure_of_tolerated {check : C} {stage : String} {caught : Bool}
    {e : StartupException} (hpolicy : o.hcConfigFailure = "warn") (hcaught : caught = true) :
    o.onFailure client check stage caught e =
      warnConfigurationFailure client (some check) stage e := by
  simp [onFailure, hpolicy, hcaught]

theorem onFailure_of_not_tolerated {check : C} {stage : String} {caught : Bool}
    {e : StartupException}
    (hpolicy : o.hcConfigFailure = "raise" ∨ o.hcConfigFailure = "warn")
    (h : ¬ (o.hcConfigFailure = "warn" ∧ caught = true)) :
    o.onFailure client check stage caught e = .raise e := by
  unfold onFailure
  cases caught with
  | false => rfl
  | true =>
    rcases hpolicy with hraise | hwarn
    · simp [hraise]
    · exact absurd ⟨hwarn, rfl⟩ h

/-- A request under the policy, with what follows it in either case. -/
theorem stops_request {α β : Type} {x : StartupEffect C} {r : Except StartupException α}
    {check : C} {stage : String} {caught : StartupException → Bool} {next : α → Startup C β}
    {after : β} (hx : client.failure x = raised? r)
    (hpolicy : o.hcConfigFailure = "raise" ∨ o.hcConfigFailure = "warn")
    (htolerates : ∀ e, o.Tolerates x e ↔ o.hcConfigFailure = "warn" ∧ caught e = true)
    (hnext : ∀ a, (next a).Stops client.failure o.Tolerates) :
    ((Traced.call x r).orElse (fun e => do
        o.onFailure client check stage (caught e) e
        return after) next).Stops client.failure o.Tolerates := by
  refine Traced.Stops.orElse_call hx (fun a _ => hnext a) ?_ ?_
  · intro e _ htolerated
    obtain ⟨hwarn, hcaught⟩ := (htolerates e).mp htolerated
    rw [onFailure_of_tolerated hwarn hcaught]
    exact .bind (stops_warnConfigurationFailure _ _ _) fun _ _ => Traced.stops_pure _
  · intro e _ htolerated
    rw [onFailure_of_not_tolerated hpolicy ((htolerates e).not.mp htolerated)]
    rfl

theorem stops_configureMetadata (check : Option C)
    (hpolicy : o.hcConfigFailure = "raise" ∨ o.hcConfigFailure = "warn") :
    (o.configureMetadata client check).Stops client.failure o.Tolerates := by
  cases check with
  | none => exact Traced.stops_pure _
  | some check =>
    unfold configureMetadata
    dsimp only
    split
    · split
      · refine stops_request rfl hpolicy ?_ (fun _ => Traced.stops_pure _)
        intro e
        rw [Bool.or_eq_true]
        rfl
      · exact stops_request rfl hpolicy (fun _ => Iff.rfl) (fun _ => Traced.stops_pure _)
    · exact Traced.stops_pure _

/-- The assertion that there is a check does not fail. -/
theorem stops_configureRouting (creationFailed : Bool) (check : Option C)
    (hpolicy : o.hcConfigFailure = "raise" ∨ o.hcConfigFailure = "warn")
    (hcheck : o.configuresRouting = true → check.isSome) :
    (o.configureRouting client creationFailed check).Stops client.failure o.Tolerates := by
  unfold configureRouting
  split
  · rename_i hroutes
    obtain ⟨check, rfl⟩ := Option.isSome_iff_exists.mp (hcheck (Bool.and_eq_true_iff.mp hroutes).1)
    refine Traced.Stops.orElse_call rfl (fun _ _ => Traced.stops_pure _) ?_ ?_
    · intro e _ htolerated
      rw [onFailure_of_tolerated htolerated.1 htolerated.2]
      exact stops_warnConfigurationFailure _ _ _
    · intro e _ htolerated
      exact onFailure_of_not_tolerated hpolicy htolerated
  · exact Traced.stops_pure _

/-! ### The requests of each part -/

theorem requests_pingLogSuppressed (check : C) (message : String) :
    (pingLogSuppressed client check message).effects.filter StartupEffect.isRequest = [] := by
  unfold pingLogSuppressed
  cases client.pingLog check message with
  | ok u => rfl
  | error e =>
    rw [Traced.orElse_of_error rfl]
    dsimp only
    split <;> rfl

theorem requests_onFailure (check : C) (stage : String) (caught : Bool) (e : StartupException) :
    (o.onFailure client check stage caught e).effects.filter StartupEffect.isRequest = [] := by
  unfold onFailure
  split
  · rfl
  · split
    · rfl
    · exact requests_pingLogSuppressed check _

/-- What the configuration of the metadata leaves: which request it made, and the check that
it goes on with. -/
inductive MetadataConfigured (client : HealthChecksClient C) (o : ScheduleOptions) :
    Option C → List (StartupEffect C) → Option C → Bool → Prop where
  | unidentified : MetadataConfigured client o none [] none false
  | unconfigured {check : C}
      (h : (truthy o.hcManageKey && o.configuration.isGiven) = false) :
      MetadataConfigured client o (some check) [] (some check) false
  | created {check : C} {uuid : String}
      (h : (truthy o.hcManageKey && o.configuration.isGiven) = true)
      (hcreates : o.hcUuid = none)
      (hcreated : client.createdUuid o.name o.configuration = .ok uuid) :
      MetadataConfigured client o (some check)
        [.createOrUpdate o.name o.configuration] (some (client.resolved check uuid)) false
  | notCreated {check : C} {e : StartupException}
      (h : (truthy o.hcManageKey && o.configuration.isGiven) = true)
      (hcreates : o.hcUuid = none)
      (hfailed : client.createdUuid o.name o.configuration = .error e) :
      MetadataConfigured client o (some check)
        [.createOrUpdate o.name o.configuration] (some check) true
  | updated {check : C}
      (h : (truthy o.hcManageKey && o.configuration.isGiven) = true)
      (hupdates : o.hcUuid ≠ none) :
      MetadataConfigured client o (some check)
        [.manageUpdate check (.metadata o.configuration)] (some check) false


theorem MetadataConfigured.isSome {check check' : Option C}
    {requests : List (StartupEffect C)} {creationFailed : Bool}
    (h : MetadataConfigured client o check requests check' creationFailed) :
    check'.isSome = check.isSome := by
  cases h <;> rfl

/-- A request whose failure may be warned of, and whose effects are its own otherwise. -/
theorem requests_request {α β : Type} {x : StartupEffect C} (hx : x.isRequest = true)
    {r : Except StartupException α} {check : C} {stage : String}
    {caught : StartupException → Bool} {next : α → β} {after b : β}
    (h : ((Traced.call x r).orElse (fun e => do
        o.onFailure client check stage (caught e) e
        return after) fun a => (return next a : Startup C β)).result = .ok b) :
    ((Traced.call x r).orElse (fun e => do
        o.onFailure client check stage (caught e) e
        return after) fun a => (return next a : Startup C β)).effects.filter
      StartupEffect.isRequest = [x] ∧
    ((∃ a, r = .ok a ∧ b = next a) ∨ ∃ e, r = .error e ∧ b = after) := by
  cases r with
  | ok a =>
    rw [Traced.orElse_of_ok rfl] at h ⊢
    cases h
    exact ⟨List.filter_cons_of_pos hx, .inl ⟨a, rfl, rfl⟩⟩
  | error e =>
    rw [Traced.orElse_of_error rfl] at h ⊢
    obtain ⟨u, hu, hb⟩ := Traced.bind_eq_ok.mp h
    cases hb
    refine ⟨?_, .inr ⟨e, rfl, rfl⟩⟩
    rw [Traced.bind_of_ok hu]
    show ([x] ++ (_ ++ [])).filter _ = [x]
    rw [List.append_nil, List.filter_append, requests_onFailure, List.append_nil]
    exact List.filter_cons_of_pos hx

theorem metadataConfigured_of_ok {check check' : Option C} {creationFailed : Bool}
    (h : (o.configureMetadata client check).result = .ok (check', creationFailed)) :
    MetadataConfigured client o check
      ((o.configureMetadata client check).effects.filter StartupEffect.isRequest)
      check' creationFailed := by
  cases check with
  | none =>
    cases h
    exact .unidentified
  | some check =>
    unfold configureMetadata at h ⊢
    dsimp only at h ⊢
    split at h
    · rename_i hconfigures
      rw [if_pos hconfigures]
      split at h
      · rename_i hcreates
        obtain ⟨hrequests, hcases⟩ := requests_request rfl h
        rw [hrequests]
        rcases hcases with ⟨uuid, hok, hnext⟩ | ⟨e, herror, hafter⟩
        · cases hnext
          exact .created hconfigures hcreates hok
        · cases hafter
          exact .notCreated hconfigures hcreates herror
      · rename_i hupdates
        obtain ⟨hrequests, hcases⟩ := requests_request rfl h
        rw [hrequests]
        have hsame : check' = some check ∧ creationFailed = false := by
          rcases hcases with ⟨_, -, hnext⟩ | ⟨_, -, hafter⟩
          · cases hnext
            exact ⟨rfl, rfl⟩
          · cases hafter
            exact ⟨rfl, rfl⟩
        rw [hsame.1, hsame.2]
        exact .updated hconfigures (by simp [hupdates])
    · rename_i hconfigures
      rw [if_neg hconfigures]
      cases h
      exact .unconfigured (by simpa using hconfigures)

/-- The routing is requested unless the creation of the check has failed. -/
theorem requests_configureRouting {check : Option C} {creationFailed : Bool}
    (h : (o.configureRouting client creationFailed check).result = .ok ()) :
    (o.configureRouting client creationFailed check).effects.filter StartupEffect.isRequest =
      if o.configuresRouting && !creationFailed then
        check.toList.map fun check => .manageUpdate check o.routing
      else [] := by
  unfold configureRouting at h ⊢
  split
  · rename_i hroutes
    rw [if_pos hroutes] at h
    cases check with
    | none => cases h
    | some check =>
      dsimp only at h ⊢
      cases hr : client.manageUpdate check o.routing with
      | ok u => rw [Traced.orElse_of_ok rfl]; rfl
      | error e =>
        rw [Traced.orElse_of_error rfl]
        show ([StartupEffect.manageUpdate check o.routing] ++ _).filter _ = _
        rw [List.filter_append, requests_onFailure]
        rfl
  · rfl

theorem stops_configure (hpolicy : o.hcConfigFailure = "raise" ∨ o.hcConfigFailure = "warn")
    (hcheck : o.configuresRouting = true → o.identified = true) :
    (o.configure client).Stops client.failure o.Tolerates := by
  refine .bind (stops_configureMetadata _ hpolicy) ?_
  intro (check, creationFailed) hresult
  refine .bind (stops_configureRouting creationFailed check hpolicy ?_)
    fun _ _ => Traced.stops_pure _
  intro hroutes
  rw [(metadataConfigured_of_ok hresult).isSome, firstCheck, if_pos (hcheck hroutes)]
  rfl

/-! ### The options without those that are ignored -/

/-- The options that the configuration sees. -/
def effective (o : ScheduleOptions) : ScheduleOptions :=
  if o.hcManageKey.isSome then o
  else { o with description := none, hcTimeout := none, hcGrace := none }

theorem ignored_spec {α : Type} (option : String) (value : Option α) :
    (ignored option value : Startup C (Option α)).result = .ok none ∧
      ∀ x ∈ (ignored option value : Startup C (Option α)).effects, ∃ m, x = .warning m := by
  cases value with
  | none => exact ⟨rfl, by simp [ignored, pure, Traced.lift]⟩
  | some a =>
    refine ⟨rfl, ?_⟩
    intro x hx
    exact ⟨_, List.mem_singleton.mp hx⟩

theorem withoutIgnored_spec (o : ScheduleOptions) :
    (o.withoutIgnored : Startup C ScheduleOptions).result = .ok o.effective ∧
      ∀ x ∈ (o.withoutIgnored : Startup C ScheduleOptions).effects, ∃ m, x = .warning m := by
  unfold withoutIgnored effective
  split
  · exact ⟨rfl, by simp [pure, Traced.lift]⟩
  · obtain ⟨hdescription, hd⟩ := ignored_spec (C := C) "description" o.description
    obtain ⟨htimeout, ht⟩ := ignored_spec (C := C) "hc_timeout" o.hcTimeout
    obtain ⟨hgrace, hg⟩ := ignored_spec (C := C) "hc_grace" o.hcGrace
    rw [Traced.bind_of_ok hdescription, Traced.bind_of_ok htimeout, Traced.bind_of_ok hgrace]
    refine ⟨rfl, ?_⟩
    intro x hx
    simp only [pure, Traced.lift, List.append_nil, List.mem_append] at hx
    rcases hx with hx | hx | hx
    · exact hd x hx
    · exact ht x hx
    · exact hg x hx

@[simp] theorem effective_configuresRouting :
    o.effective.configuresRouting = o.configuresRouting := by
  unfold effective
  split <;> rfl

@[simp] theorem effective_identified : o.effective.identified = o.identified := by
  unfold effective
  split <;> rfl

@[simp] theorem effective_hcConfigFailure : o.effective.hcConfigFailure = o.hcConfigFailure := by
  unfold effective
  split <;> rfl

@[simp] theorem effective_tolerates (x : StartupEffect C) (e : StartupException) :
    o.effective.Tolerates x e ↔ o.Tolerates x e := by
  cases x <;> simp only [Tolerates, effective_hcConfigFailure]

theorem validate_eq_ok :
    o.validate = .ok () ↔ (o.hcConfigFailure = "raise" ∨ o.hcConfigFailure = "warn") ∧
      (o.configuresRouting = true → truthy o.hcManageKey = true ∧ o.identified = true) := by
  unfold validate
  by_cases hraise : o.hcConfigFailure = "raise" <;> by_cases hwarn : o.hcConfigFailure = "warn" <;>
    cases hroutes : o.configuresRouting <;> cases hkey : truthy o.hcManageKey <;>
    cases hidentified : o.identified <;>
    simp_all [bind, Except.bind, pure, Except.pure, throw, throwThe, MonadExceptOf.throw]

/-- **The start-up ends with the first failure that its policy does not tolerate**, and it
reaches the loop if there is none. Options that do not go together end it before any request. -/
theorem startup_ends (client : HealthChecksClient C) (o : ScheduleOptions) :
    match (o.startup client).result with
    | .ok _ => o.validate = .ok () ∧
        ∀ x ∈ (o.startup client).effects, ∀ e, client.failure x = some e → o.Tolerates x e
    | .error e => (o.validate = .error e ∧ (o.startup client).effects = []) ∨
        (o.validate = .ok () ∧ ∃ before x, (o.startup client).effects = before ++ [x] ∧
          (∀ y ∈ before, ∀ e, client.failure y = some e → o.Tolerates y e) ∧
          client.failure x = some e ∧ ¬ o.Tolerates x e) := by
  cases hvalid : o.validate with
  | error e =>
    have hend : o.startup client = ⟨[], .error e⟩ :=
      Traced.bind_of_error (m := Traced.lift o.validate) hvalid
    rw [hend]
    exact .inl ⟨rfl, rfl⟩
  | ok u =>
    obtain ⟨hpolicy, hroutes⟩ := validate_eq_ok.mp hvalid
    obtain ⟨hresult, hwarnings⟩ := withoutIgnored_spec (C := C) o
    have hend : o.startup client = ⟨(o.withoutIgnored : Startup C _).effects ++
        (o.effective.configure client).effects, (o.effective.configure client).result⟩ := by
      unfold startup
      rw [Traced.bind_of_ok (m := Traced.lift o.validate) hvalid, Traced.bind_of_ok hresult]
      rfl
    have hstops : (o.startup client).Stops client.failure o.Tolerates := by
      rw [hend]
      refine .after ?_ ?_
      · intro x hx e he
        obtain ⟨m, rfl⟩ := hwarnings x hx
        cases he
      · have hstops : (o.effective.configure client).Stops client.failure o.effective.Tolerates :=
          stops_configure (by simpa using hpolicy)
            (by simpa using fun h => (hroutes h).2)
        have heq : o.effective.Tolerates = (o.Tolerates : StartupEffect C → _) := by
          funext x e
          exact propext (effective_tolerates x e)
        rwa [heq] at hstops
    cases hr : (o.startup client).result with
    | ok check => exact ⟨rfl, (Traced.stops_of_ok hr).mp hstops⟩
    | error e => exact .inr ⟨rfl, (Traced.stops_of_error hr).mp hstops⟩

/-! ## What is requested -/

/-- The requests made by the time the loop is reached with a check. Updates are of the check
that the loop pings, which is one that the start-up created, if it created one. -/
structure Configured (client : HealthChecksClient C) (o : ScheduleOptions)
    (requests : List (StartupEffect C)) (check : Option C) : Prop where
  identified : check.isSome = o.identified
  unmanaged : truthy o.hcManageKey = false → requests = []
  unchecked : check = none → requests = []
  ordered : ∀ c, check = some c → requests.Sublist
    [if o.hcUuid = none then .createOrUpdate o.name o.configuration
      else .manageUpdate c (.metadata o.configuration), .manageUpdate c o.routing]
  resolved : ∀ uuid, .createOrUpdate o.name o.configuration ∈ requests →
    client.createdUuid o.name o.configuration = .ok uuid →
    check = some (client.resolved (client.check o.name none) uuid)
  kept : (.createOrUpdate o.name o.configuration ∈ requests →
      ∃ e, client.createdUuid o.name o.configuration = .error e) →
    check = o.firstCheck client
  routed : (∃ c, .manageUpdate c o.routing ∈ requests) ↔ o.configuresRouting = true ∧
    (.createOrUpdate o.name o.configuration ∈ requests →
      ∃ uuid, client.createdUuid o.name o.configuration = .ok uuid)

theorem firstCheck_eq_some {check : C} (h : o.firstCheck client = some check) :
    o.identified = true ∧ check = client.check o.name o.hcUuid := by
  unfold firstCheck at h
  split at h
  · rename_i hidentified
    cases h
    exact ⟨hidentified, rfl⟩
  · cases h

theorem configured_of_ok {check : Option C} (h : (o.configure client).result = .ok check)
    (hcheck : o.configuresRouting = true → truthy o.hcManageKey = true ∧ o.identified = true) :
    Configured client o ((o.configure client).effects.filter StartupEffect.isRequest) check := by
  unfold configure at h ⊢
  obtain ⟨⟨check', creationFailed⟩, hmetadata, h⟩ := Traced.bind_eq_ok.mp h
  obtain ⟨u, hrouting, h⟩ := Traced.bind_eq_ok.mp h
  cases h
  rw [Traced.bind_of_ok hmetadata]
  dsimp only
  rw [Traced.bind_of_ok hrouting, List.filter_append, List.filter_append,
    requests_configureRouting hrouting]
  have hconfigured := metadataConfigured_of_ok hmetadata
  generalize (o.configureMetadata client (o.firstCheck client)).effects.filter
    StartupEffect.isRequest = requests at hconfigured ⊢
  have hempty : (pure check : Startup C (Option C)).effects.filter StartupEffect.isRequest = [] :=
    rfl
  rw [hempty, List.append_nil]
  generalize hfirst : o.firstCheck client = first at hconfigured
  cases hconfigured with
  | unidentified =>
    have hidentified : o.identified = false := by
      unfold firstCheck at hfirst
      split at hfirst
      · cases hfirst
      · rename_i h
        simpa using h
    have hroutes : o.configuresRouting = false := by
      by_contra hroutes
      rw [(hcheck (by simpa using hroutes)).2] at hidentified
      cases hidentified
    exact ⟨hidentified.symm, fun _ => by simp [hroutes], fun _ => by simp [hroutes], by simp,
      by simp [hroutes], fun _ => hfirst.symm, by simp [hroutes]⟩
  | unconfigured hnone =>
    obtain ⟨hidentified, -⟩ := firstCheck_eq_some hfirst
    cases hroutes : o.configuresRouting with
    | false =>
      exact ⟨hidentified.symm, by simp, by simp, by simp, by simp, fun _ => hfirst.symm,
        by simp [hroutes]⟩
    | true =>
      have hkey := (hcheck hroutes).1
      exact ⟨hidentified.symm, by simp [hkey], by simp, by simp, by simp, fun _ => hfirst.symm,
        by simp [hroutes]⟩
  | created hsome hcreates hcreated =>
    obtain ⟨hidentified, rfl⟩ := firstCheck_eq_some hfirst
    have hkey := (Bool.and_eq_true_iff.mp hsome).1
    cases hroutes : o.configuresRouting <;>
      exact ⟨hidentified.symm, by simp [hkey], by simp, by simp [hcreates],
        by simp [hcreates, hcreated], by simp [hcreated], by simp [hroutes, hcreated]⟩
  | notCreated hsome hcreates hfailed =>
    obtain ⟨hidentified, rfl⟩ := firstCheck_eq_some hfirst
    have hkey := (Bool.and_eq_true_iff.mp hsome).1
    cases hroutes : o.configuresRouting <;>
      exact ⟨hidentified.symm, by simp [hkey], by simp, by simp [hcreates], by simp [hfailed],
        fun _ => hfirst.symm, by simp [hfailed]⟩
  | updated hsome hupdates =>
    obtain ⟨hidentified, rfl⟩ := firstCheck_eq_some hfirst
    have hkey := (Bool.and_eq_true_iff.mp hsome).1
    cases hroutes : o.configuresRouting <;>
      exact ⟨hidentified.symm, by simp [hkey], by simp, by simp [hupdates], by simp,
        fun _ => hfirst.symm, by simp [hroutes, routing]⟩

/-- **What the start-up requests**, the loop being reached: nothing without a manage key or
without a check; at most one request for the metadata and then one for the routing, which is left
out exactly where the check could not be created. -/
theorem startup_requests {client : HealthChecksClient C} {o : ScheduleOptions} {check : Option C}
    (h : (o.startup client).result = .ok check) :
    Configured client o.effective
      ((o.startup client).effects.filter StartupEffect.isRequest) check := by
  unfold startup at h ⊢
  obtain ⟨u, hvalid, h⟩ := Traced.bind_eq_ok.mp h
  obtain ⟨hresult, hwarnings⟩ := withoutIgnored_spec (C := C) o
  rw [Traced.bind_of_ok hvalid, Traced.bind_of_ok hresult]
  rw [Traced.bind_of_ok hresult] at h
  have hnone : (o.withoutIgnored : Startup C _).effects.filter StartupEffect.isRequest = [] := by
    rw [List.filter_eq_nil_iff]
    intro x hx
    obtain ⟨m, rfl⟩ := hwarnings x hx
    exact Bool.false_ne_true
  show Configured client o.effective (([] ++ (_ ++ _)).filter _) check
  rw [List.nil_append, List.filter_append, hnone, List.nil_append]
  refine configured_of_ok h ?_
  intro hroutes
  rw [effective_configuresRouting] at hroutes
  have hkey : truthy o.effective.hcManageKey = truthy o.hcManageKey := by
    unfold effective
    split <;> rfl
  rw [hkey, effective_identified]
  exact (validate_eq_ok.mp hvalid).2 hroutes

/-- The loop is entered with the options as they are and the job's history, or with none after
a reset. -/
theorem enter_of_ok {N : Type} [PyNumber N] {client : HealthChecksClient C} {o : ScheduleOptions}
    {file : File} {cfg : ScheduleConfig} {s : ScheduleState N}
    (h : (o.enter (N := N) client file).result = .ok (cfg, s)) :
    ∃ check lastRun, (o.startup client).result = .ok check ∧
      LastRun.init o.maxHistoryEntries (if o.lastRunReset then none else file) = .ok lastRun ∧
      cfg = o.config check ∧ s = .initial (o.shouldRun check) lastRun := by
  unfold enter at h
  obtain ⟨check, hcheck, h⟩ := Traced.bind_eq_ok.mp h
  obtain ⟨lastRun, hinit, h⟩ := Traced.bind_eq_ok.mp h
  cases h
  refine ⟨check, lastRun, hcheck, ?_, rfl, rfl⟩
  generalize LastRun.init (N := N) o.maxHistoryEntries
    (if o.lastRunReset then none else file) = opened at hinit ⊢
  cases opened with
  | ok l => cases hinit; rfl
  | error e => cases hinit

/-- A check is its uuid, or its slug; the service answers a creation with a uuid. -/
def answeringClient : HealthChecksClient String where
  check slug uuid := (uuid.orElse fun _ => slug).getD ""
  resolved _ uuid := uuid
  createOrUpdate _ _ := .ok [("uuid".toList, .str "created-check".toList)]
  manageUpdate _ _ := .ok ()
  pingLog _ _ := .ok ()

/-- A check that is found by its slug, with tags. -/
def taggedBackup : ScheduleOptions where
  hcPingKey := some "ping-key"
  hcManageKey := some "manage-key"
  hcUuid := none
  hcTags := some "backups"
  hcTimeout := none
  hcGrace := none
  name := some "backup"
  description := none
  interval := 60
  maxRuns := none
  successPeriod := 60
  neutralPeriod := 60
  failurePeriod := 60
  maxFailures := 3
  onMaxFailures := .stall
  hcChannels := none
  hcConfigFailure := "warn"
  lastRunReset := true
  maxHistoryEntries := 1000

theorem startup_requests_created : Configured answeringClient taggedBackup.effective
    ((taggedBackup.startup answeringClient).effects.filter StartupEffect.isRequest)
    (some "created-check") :=
  startup_requests rfl

end ScheduleOptions

/-! ## From the command line -/

/-- `click.Choice(["raise", "warn"])`. -/
inductive ConfigFailure where
  | raise
  | warn

def ConfigFailure.text : ConfigFailure → String
  | .raise => "raise"
  | .warn => "warn"

/-- The options of `schedule_cli`. -/
structure CliOptions extends CommonOptions where
  hcChannel : List String
  hcConfigFailure : ConfigFailure
  reset : Bool

namespace CliOptions
variable (o : CliOptions)

def usageError (text : String) : StartupException :=
  ⟨⟨.exception, "UsageError", text⟩, false, false, by simp⟩

/-- The checks of `schedule_cli__on_result`. -/
def validate : Except StartupException Unit := do
  let configuresRouting := o.hcChannel ≠ [] || o.hcTags.isSome
  if configuresRouting && !truthy o.hcManageKey then
    throw (usageError "--hc-manage-key is required with --hc-channel or --hc-tags.")
  if configuresRouting && !(truthy o.hcUuid || (truthy o.hcPingKey && truthy o.name)) then
    throw (usageError
      "--hc-channel and --hc-tags require --hc-uuid or both --hc-ping-key and --name.")

/-- The arguments of `schedule`. -/
def scheduleOptions : ScheduleOptions where
  toCommonOptions := o.toCommonOptions
  hcChannels := if o.hcChannel = [] then none else some o.hcChannel
  hcConfigFailure := o.hcConfigFailure.text
  lastRunReset := o.reset
  maxHistoryEntries := 1000

/-- `schedule_cli__on_result` for a job, up to the loop. -/
def onResult {C N : Type} [PyNumber N] (client : HealthChecksClient C) (file : File) :
    Startup C (ScheduleConfig × ScheduleState N) := do
  .lift o.validate
  o.scheduleOptions.enter client file

/-- The command line refuses the options that `schedule` would refuse, and no others. -/
theorem validate_eq_ok : o.validate = .ok () ↔ o.scheduleOptions.validate = .ok () := by
  rw [ScheduleOptions.validate_eq_ok]
  have hpolicy : o.scheduleOptions.hcConfigFailure = "raise" ∨
      o.scheduleOptions.hcConfigFailure = "warn" := by
    unfold scheduleOptions
    cases o.hcConfigFailure with
    | raise => exact .inl rfl
    | warn => exact .inr rfl
  have hroutes : o.scheduleOptions.configuresRouting =
      (decide (o.hcChannel ≠ []) || o.hcTags.isSome) := by
    unfold ScheduleOptions.configuresRouting scheduleOptions
    by_cases hnone : o.hcChannel = [] <;> simp [hnone]
  have hidentified : o.scheduleOptions.identified =
      (truthy o.hcUuid || (truthy o.hcPingKey && truthy o.name)) := rfl
  have hkey : o.scheduleOptions.hcManageKey = o.hcManageKey := rfl
  rw [hroutes, hidentified, hkey]
  unfold validate
  cases (decide (o.hcChannel ≠ []) || o.hcTags.isSome) <;> cases truthy o.hcManageKey <;>
    cases (truthy o.hcUuid || (truthy o.hcPingKey && truthy o.name)) <;>
    simp [hpolicy, bind, Except.bind, pure, Except.pure, throw, throwThe, MonadExceptOf.throw]

end CliOptions

end SchedulingUtil
