import SchedulingUtil.ScheduleInterrupts

/-! # The trace of `repeat`

A job never raises, or it raises after some successes. `repeat` calls it until then or
until the last run, with a sleep between two calls and nowhere else. -/
namespace SchedulingUtil
open Lib

/-- What the job does, call after call. -/
inductive RepeatJob where
  | neverRaises
  | raisesAfter (n : Nat) (e : PyException)

/-- How the call ends that follows `k` successes. -/
def RepeatJob.outcome : RepeatJob → Nat → RepeatLabel
  | .neverRaises, _ => .returns
  | .raisesAfter n e, k => if k = n then .raises e else .returns

/-- The step that comes next: `sleep` does not raise. -/
def RepeatJob.label (job : RepeatJob) (s : RepeatState) : RepeatLabel :=
  match s.pc with
  | .func => job.outcome s.nRuns
  | .sleep => .returns
  | _ => .test

abbrev RepeatJob.Run (job : RepeatJob) (cfg : RepeatConfig) :
    RepeatState → List (RepeatState × RepeatLabel) → RepeatState → Prop :=
  Execution fun s l s' => l = job.label s ∧ s.step cfg l = some s'

def repeatStart : RepeatState := ⟨0, .shouldRun⟩

inductive RepeatEvent where
  | call
  | sleep
  deriving DecidableEq

def repeatEvent (x : RepeatState × RepeatLabel) : Option RepeatEvent :=
  match x.1.pc with
  | .func => some .call
  | .sleep => some .sleep
  | _ => none

def repeatTrace (steps : List (RepeatState × RepeatLabel)) : List RepeatEvent :=
  steps.filterMap repeatEvent

theorem repeatTrace_snoc (steps : List (RepeatState × RepeatLabel))
    (x : RepeatState × RepeatLabel) :
    repeatTrace (steps ++ [x]) = repeatTrace steps ++ (repeatEvent x).toList := by
  cases hx : repeatEvent x <;> simp [repeatTrace, hx]

theorem RepeatJob.outcome_cases (job : RepeatJob) (k : Nat) :
    (job.outcome k = .returns ∧ ∀ n e, job = .raisesAfter n e → k ≠ n) ∨
      ∃ e, job = .raisesAfter k e ∧ job.outcome k = .raises e := by
  cases job with
  | neverRaises => exact .inl ⟨rfl, nofun⟩
  | raisesAfter n e =>
    by_cases hk : k = n
    · subst hk
      exact .inr ⟨e, rfl, if_pos rfl⟩
    · refine .inl ⟨if_neg hk, ?_⟩
      intro n' e' hjob
      cases hjob
      exact hk

/-! ## What the trace has to be -/

/-- `sleep_duration is not None and sleep_duration.total_seconds() > 0`. -/
def RepeatConfig.sleeps (cfg : RepeatConfig) : Bool := cfg.sleepDuration.any (0 < ·)

/-- A number of calls, with a sleep between two of them if there is a time to sleep. -/
def RepeatConfig.alternation (cfg : RepeatConfig) (n : Nat) : List RepeatEvent :=
  if cfg.sleeps then (List.replicate n .call).intersperse .sleep else List.replicate n .call

/-- How often the job is called, if that comes to an end; `toNat` is `max(0, max_runs)`. -/
def RepeatJob.calls : RepeatJob → Option Int → Option Nat
  | .neverRaises, none => none
  | .neverRaises, some maxRuns => some maxRuns.toNat
  | .raisesAfter n _, none => some (n + 1)
  | .raisesAfter n _, some maxRuns => some (min (n + 1) maxRuns.toNat)

/-- What leaves `repeat`: the exception of a call that is made, unless it is a
`KeyboardInterrupt`. -/
def RepeatJob.leaving : RepeatJob → Option Int → Option PyException
  | .neverRaises, _ => none
  | .raisesAfter n e, maxRuns =>
    if maxRuns.all ((n : Int) < ·) ∧ e.cls ≠ .keyboardInterrupt then some e else none

/-! ## Rounds -/

/-- Calls with the sleep behind each of them. -/
def RepeatConfig.rounds (cfg : RepeatConfig) (n : Nat) : List RepeatEvent :=
  (List.replicate n (if cfg.sleeps then [.call, .sleep] else [.call])).flatten

section Rounds
variable (cfg : RepeatConfig)

@[simp] theorem rounds_zero : cfg.rounds 0 = [] := rfl

@[simp] theorem alternation_zero : cfg.alternation 0 = [] := by simp [RepeatConfig.alternation]

theorem alternation_succ (n : Nat) : cfg.alternation (n + 1) = cfg.rounds n ++ [.call] := by
  cases hs : cfg.sleeps with
  | false => simp [RepeatConfig.alternation, RepeatConfig.rounds, hs, List.replicate_succ']
  | true =>
    simp only [RepeatConfig.alternation, RepeatConfig.rounds, hs, if_true]
    induction n with
    | zero => rfl
    | succ n ih =>
      rw [List.replicate_succ, List.replicate_succ, List.intersperse_cons_cons,
        ← List.replicate_succ, ih]
      simp [List.replicate_succ]

/-- Without sleeps a round is a call. -/
theorem rounds_of_not_sleeps (hs : cfg.sleeps = false) (n : Nat) :
    cfg.rounds n = cfg.alternation n := by
  simp [RepeatConfig.alternation, RepeatConfig.rounds, hs]

/-- A sleep completes the round. -/
theorem rounds_of_sleeps (hs : cfg.sleeps = true) (n : Nat) :
    cfg.rounds (n + 1) = cfg.alternation (n + 1) ++ [.sleep] := by
  rw [alternation_succ, RepeatConfig.rounds, RepeatConfig.rounds, List.replicate_succ']
  simp [hs]

end Rounds

/-! ## What a run has traced -/

/-- The counter has passed neither the failure of the job nor the number of runs. -/
structure RepeatJob.Within (job : RepeatJob) (cfg : RepeatConfig) (s : RepeatState) : Prop where
  job : ∀ n e, job = .raisesAfter n e → s.nRuns ≤ n
  maxRuns : ∀ m, cfg.maxRuns = some m → s.nRuns ≤ m.toNat

/-- **The invariant**: what has been traced when the run is at its state. -/
def RepeatJob.Traced (job : RepeatJob) (cfg : RepeatConfig) (trace : List RepeatEvent)
    (s : RepeatState) : Prop :=
  match s.pc with
  | .shouldRun =>
    trace = if s.shouldRun cfg then cfg.rounds s.nRuns else cfg.alternation s.nRuns
  | .func => s.shouldRun cfg = true ∧ trace = cfg.rounds s.nRuns
  | .shouldSleep => 0 < s.nRuns ∧ trace = cfg.alternation s.nRuns
  | .sleep =>
    (s.shouldRun cfg = true ∧ cfg.sleeps = true) ∧ 0 < s.nRuns ∧
      trace = cfg.alternation s.nRuns
  | .ended leaving =>
    ∃ n, job.calls cfg.maxRuns = some n ∧ trace = cfg.alternation n ∧
      leaving = job.leaving cfg.maxRuns

section Run
variable {cfg : RepeatConfig} {job : RepeatJob} {s s' : RepeatState}

theorem shouldRun_iff : s.shouldRun cfg = true ↔
    ∀ m, cfg.maxRuns = some m → (s.nRuns : Int) < m := by
  unfold RepeatState.shouldRun
  cases cfg.maxRuns with
  | none => simp
  | some maxRuns => simp

/-- Out of runs, the job has been called `max_runs` times. -/
theorem calls_of_exhausted (h : job.Within cfg s) (hstop : s.shouldRun cfg = false) :
    job.calls cfg.maxRuns = some s.nRuns ∧ job.leaving cfg.maxRuns = none := by
  obtain ⟨m, hm, hle⟩ : ∃ m, cfg.maxRuns = some m ∧ m ≤ (s.nRuns : Int) := by
    by_contra hno
    have hrun : s.shouldRun cfg = true := shouldRun_iff.mpr fun m hm => by
      by_contra hlt
      exact hno ⟨m, hm, by omega⟩
    rw [hstop] at hrun
    cases hrun
  have hmax := h.maxRuns m hm
  rw [hm]
  cases job with
  | neverRaises => exact ⟨congrArg some (by omega), rfl⟩
  | raisesAfter n e =>
    have hn := h.job n e rfl
    refine ⟨congrArg some (by omega), ?_⟩
    simp only [RepeatJob.leaving, Option.all_some, decide_eq_true_eq]
    rw [if_neg]
    omega

/-- A call that raises is the last one. -/
theorem calls_of_raised {n : Nat} {e : PyException} (hjob : job = .raisesAfter n e)
    (hn : s.nRuns = n) (hrun : s.shouldRun cfg = true) :
    job.calls cfg.maxRuns = some (s.nRuns + 1) ∧
      job.leaving cfg.maxRuns = if e.cls = .keyboardInterrupt then none else some e := by
  subst hjob hn
  have hlt := shouldRun_iff.mp hrun
  cases hm : cfg.maxRuns with
  | none =>
    by_cases he : e.cls = .keyboardInterrupt <;> simp [RepeatJob.calls, RepeatJob.leaving, he]
  | some m =>
    have hlt := hlt m hm
    refine ⟨congrArg some (by omega), ?_⟩
    by_cases he : e.cls = .keyboardInterrupt <;> simp [RepeatJob.leaving, he, hlt]

/-- **Every step keeps the invariant.** -/
theorem traced_step {trace : List RepeatEvent} (h : job.Within cfg s) (ht : job.Traced cfg trace s)
    (hstep : s.step cfg (job.label s) = some s') :
    job.Within cfg s' ∧
      job.Traced cfg (trace ++ (repeatEvent (s, job.label s)).toList) s' := by
  obtain ⟨k, pc⟩ := s
  cases pc with
  | shouldRun =>
    cases hstep
    refine ⟨⟨h.job, h.maxRuns⟩, ?_⟩
    dsimp only [RepeatJob.Traced] at ht
    cases hrun : RepeatState.shouldRun cfg ⟨k, .shouldRun⟩ with
    | true =>
      rw [hrun, if_pos rfl] at ht
      simp only [repeatEvent, Option.toList_none, List.append_nil, if_pos]
      exact ⟨hrun, ht⟩
    | false =>
      obtain ⟨hcalls, hleaving⟩ := calls_of_exhausted h hrun
      rw [hrun, if_neg Bool.false_ne_true] at ht
      simp only [repeatEvent, Option.toList_none, List.append_nil, Bool.false_eq_true, if_false]
      exact ⟨k, hcalls, ht, hleaving.symm⟩
  | func =>
    obtain ⟨hrun, rfl⟩ := ht
    have hlt := shouldRun_iff.mp hrun
    rw [repeatEvent, Option.toList_some, ← alternation_succ]
    rcases job.outcome_cases k with ⟨hl, hne⟩ | ⟨e, hjob, hl⟩
    · simp only [RepeatJob.label, hl] at hstep
      cases hstep
      refine ⟨⟨?_, ?_⟩, Nat.succ_pos k, rfl⟩
      · intro n e hjob
        exact Nat.lt_of_le_of_ne (h.job n e hjob) (hne n e hjob)
      · intro m hm
        have hm := hlt m hm
        show k + 1 ≤ m.toNat
        dsimp only at hm
        omega
    · simp only [RepeatJob.label, hl] at hstep
      cases hstep
      obtain ⟨hcalls, hleaving⟩ := calls_of_raised hjob rfl hrun
      exact ⟨⟨h.job, h.maxRuns⟩, k + 1, hcalls, rfl, hleaving.symm⟩
  | shouldSleep =>
    cases hstep
    refine ⟨⟨h.job, h.maxRuns⟩, ?_⟩
    obtain ⟨hpos, rfl⟩ := ht
    simp only [repeatEvent, Option.toList_none, List.append_nil]
    cases hrun : RepeatState.shouldRun cfg ⟨k, .shouldSleep⟩ with
    | false => exact (if_neg (ne_true_of_eq_false hrun)).symm
    | true =>
      cases hsleeps : cfg.sleeps with
      | true =>
        rw [show (true && cfg.sleepDuration.any fun x => decide (0 < x)) = true from hsleeps]
        exact ⟨⟨hrun, hsleeps⟩, hpos, rfl⟩
      | false =>
        rw [show (true && cfg.sleepDuration.any fun x => decide (0 < x)) = false from hsleeps,
          ← rounds_of_not_sleeps cfg hsleeps]
        exact (if_pos hrun).symm
  | sleep =>
    cases hstep
    refine ⟨⟨h.job, h.maxRuns⟩, ?_⟩
    obtain ⟨⟨hrun, hsleeps⟩, hpos, rfl⟩ := ht
    obtain ⟨k, rfl⟩ : ∃ j, k = j + 1 := ⟨k - 1, by simp at hpos; omega⟩
    simp only [RepeatJob.Traced, repeatEvent, Option.toList_some]
    rw [rounds_of_sleeps cfg hsleeps]
    exact (if_pos hrun).symm
  | ended leaving => cases hstep

theorem traced_run {steps : List (RepeatState × RepeatLabel)}
    (h : job.Run cfg repeatStart steps s) :
    job.Within cfg s ∧ job.Traced cfg (repeatTrace steps) s := by
  induction h with
  | refl =>
    refine ⟨⟨fun n e _ => Nat.zero_le n, fun m _ => Nat.zero_le m.toNat⟩, ?_⟩
    simp [RepeatJob.Traced, repeatTrace, repeatStart]
  | @snoc u v l steps _ hl ih =>
    obtain ⟨rfl, hstep⟩ := hl
    obtain ⟨hwithin, htraced⟩ := traced_step ih.1 ih.2 hstep
    refine ⟨hwithin, ?_⟩
    rw [repeatTrace_snoc]
    exact htraced

/-! ## Termination -/

/-- The whole run: every other one is a beginning of it. -/
def RepeatJob.Terminates (job : RepeatJob) (cfg : RepeatConfig) : Prop :=
  ∃ steps s leaving, job.Run cfg repeatStart steps s ∧ s.pc = .ended leaving ∧
    ∀ steps' s', job.Run cfg repeatStart steps' s' → steps' <+: steps

/-- Behind `k` successes there is no further one. -/
def RepeatJob.EndsAt (job : RepeatJob) (cfg : RepeatConfig) (k : Nat) : Prop :=
  RepeatState.shouldRun cfg ⟨k, .shouldRun⟩ = false ∨ ∃ e, job.outcome k = .raises e

/-- One round: the call returns, and the run is back at the loop test. -/
theorem run_round {k : Nat} (hrun : RepeatState.shouldRun cfg ⟨k, .shouldRun⟩ = true)
    (hl : job.outcome k = .returns) :
    ∃ steps, job.Run cfg ⟨k, .shouldRun⟩ steps ⟨k + 1, .shouldRun⟩ := by
  have htest : job.Run cfg ⟨k, .shouldRun⟩ [(_, .test)] ⟨k, .func⟩ :=
    .single ⟨rfl, by simp [RepeatState.step, hrun]⟩
  have hcall : job.Run cfg ⟨k, .shouldRun⟩ [(_, .test), (_, .returns)] ⟨k + 1, .shouldSleep⟩ :=
    htest.snoc ⟨hl.symm, rfl⟩
  cases hs : RepeatState.shouldRun cfg ⟨k + 1, .shouldSleep⟩ &&
      cfg.sleepDuration.any (0 < ·) with
  | false => exact ⟨_, hcall.snoc ⟨rfl, by simp [RepeatState.step, RepeatJob.label, hs]⟩⟩
  | true =>
    have hsleep : job.Run cfg ⟨k, .shouldRun⟩ _ ⟨k + 1, .sleep⟩ :=
      hcall.snoc ⟨rfl, by simp [RepeatState.step, RepeatJob.label, hs]⟩
    exact ⟨_, hsleep.snoc ⟨rfl, rfl⟩⟩

/-- The last round. -/
theorem run_last {k : Nat} (h : job.EndsAt cfg k) :
    ∃ steps s leaving, job.Run cfg ⟨k, .shouldRun⟩ steps s ∧ s.pc = .ended leaving := by
  cases hrun : RepeatState.shouldRun cfg ⟨k, .shouldRun⟩ with
  | false =>
    have htest : job.Run cfg ⟨k, .shouldRun⟩ [(_, .test)] ⟨k, .ended none⟩ :=
      .single ⟨rfl, by simp [RepeatState.step, hrun]⟩
    exact ⟨_, _, _, htest, rfl⟩
  | true =>
    obtain ⟨e, hl⟩ := h.resolve_left (by rw [hrun]; exact Bool.noConfusion)
    have htest : job.Run cfg ⟨k, .shouldRun⟩ [(_, .test)] ⟨k, .func⟩ :=
      .single ⟨rfl, by simp [RepeatState.step, hrun]⟩
    exact ⟨_, _, _, htest.snoc ⟨hl.symm, rfl⟩, rfl⟩

theorem run_of_endsAt {k d : Nat} (h : job.EndsAt cfg (k + d)) :
    ∃ steps s leaving, job.Run cfg ⟨k, .shouldRun⟩ steps s ∧ s.pc = .ended leaving := by
  induction d generalizing k with
  | zero => exact run_last h
  | succ d ih =>
    by_cases hk : job.EndsAt cfg k
    · exact run_last hk
    · obtain ⟨hrun, hraises⟩ := not_or.mp hk
      have hl : job.outcome k = .returns := by
        rcases job.outcome_cases k with ⟨hl, -⟩ | ⟨e, -, hl⟩
        · exact hl
        · exact absurd ⟨e, hl⟩ hraises
      obtain ⟨steps, hround⟩ := run_round (eq_true_of_ne_false hrun) hl
      obtain ⟨steps', s, leaving, hrest, hended⟩ := ih (k := k + 1) (by rwa [Nat.add_right_comm])
      exact ⟨_, s, leaving, hround.trans hrest, hended⟩

theorem exists_endsAt (h : ¬ (cfg.maxRuns = none ∧ job = .neverRaises)) :
    ∃ k, job.EndsAt cfg k := by
  cases job with
  | raisesAfter n e => exact ⟨n, .inr ⟨e, if_pos rfl⟩⟩
  | neverRaises =>
    cases hm : cfg.maxRuns with
    | none => exact absurd ⟨hm, rfl⟩ h
    | some m =>
      refine ⟨m.toNat, .inl ?_⟩
      simp only [RepeatState.shouldRun, hm, Option.all_some, decide_eq_false_iff_not]
      omega

theorem terminates_iff : job.Terminates cfg ↔ ¬ (cfg.maxRuns = none ∧ job = .neverRaises) := by
  constructor
  · rintro ⟨steps, s, leaving, hrun, hended, -⟩ ⟨hm, rfl⟩
    have htraced := (traced_run hrun).2
    rw [RepeatJob.Traced, hended] at htraced
    obtain ⟨n, hcalls, -⟩ := htraced
    rw [hm] at hcalls
    cases hcalls
  · intro h
    obtain ⟨k, hk⟩ := exists_endsAt h
    obtain ⟨steps, s, leaving, hrun, hended⟩ :=
      run_of_endsAt (k := 0) (d := k) (by rwa [Nat.zero_add])
    refine ⟨steps, s, leaving, hrun, hended, ?_⟩
    intro steps' s' hrun'
    refine Execution.prefix_of_deterministic ?_ hrun ?_ hrun'
    · rintro u l v k w ⟨rfl, hv⟩ ⟨rfl, hw⟩
      exact ⟨rfl, Option.some.inj (hv.symm.trans hw)⟩
    · rintro l v ⟨-, hv⟩
      cases l <;> simp [RepeatState.step, hended] at hv

end Run

/-- **A run of `repeat` alternates calls and sleeps**, beginning and ending with a call. The
job is called until it raises or the runs are used up, and what it raises then leaves
`repeat` unless it is a `KeyboardInterrupt`. Only a job that never raises in a loop
without a bound runs for ever. -/
theorem repeat_trace (cfg : RepeatConfig) (job : RepeatJob) :
    (∀ steps s leaving, job.Run cfg repeatStart steps s → s.pc = .ended leaving →
      ∃ n, job.calls cfg.maxRuns = some n ∧ repeatTrace steps = cfg.alternation n ∧
        leaving = job.leaving cfg.maxRuns) ∧
    (job.Terminates cfg ↔ ¬ (cfg.maxRuns = none ∧ job = .neverRaises)) := by
  refine ⟨?_, terminates_iff⟩
  intro steps s leaving hrun hended
  have htraced := (traced_run hrun).2
  rw [RepeatJob.Traced, hended] at htraced
  exact htraced

end SchedulingUtil
