import SchedulingUtil.LastRunPolicy

/-! # What dropping old entries changes

The policy reads two things that no bound limits: the count of failures since
the last success, and the last success itself. From a history cut to its last
entries both can come out differently. This file says exactly when the decision
does. -/
namespace SchedulingUtil

variable {N : Type}

/-! ## When two gates agree -/

def Gate.Agree (fromTimestamp : FromTimestamp N) (g g' : Gate N) : Prop :=
  ∀ now, g.allows fromTimestamp now = g'.allows fromTimestamp now

variable {fromTimestamp : FromTimestamp N} {e s : LastRunAttemptFinished N} {period period' : Int}
  {te ts : Int}

theorem allows_after_ok (he : fromTimestamp e.time = .ok te) (now : Int) :
    (Gate.after e period).allows fromTimestamp now = .ok (decide (period < now - te)) := by
  simp [Gate.allows, he, Except.map]

theorem Gate.Agree.symm {g g' : Gate N} (h : g.Agree fromTimestamp g') :
    g'.Agree fromTimestamp g := fun now => (h now).symm

/-- A gate that opens at some time is not closed. -/
theorem not_closed_agree_after (he : fromTimestamp e.time = .ok te) :
    ¬ Gate.closed.Agree fromTimestamp (.after e period) := by
  intro h
  have hopen := h (te + period + 1)
  rw [allows_after_ok he, Gate.allows, decide_eq_true (by omega)] at hopen
  cases hopen

/-- Two gates agree if they open at the same time. -/
theorem after_agree_after_iff (he : fromTimestamp e.time = .ok te)
    (hs : fromTimestamp s.time = .ok ts) :
    (Gate.after e period).Agree fromTimestamp (.after s period') ↔
      ts + period' = te + period := by
  constructor
  · intro h
    have hle (now : Int) : period < now - te ↔ period' < now - ts := by
      have := h now
      rwa [allows_after_ok he, allows_after_ok hs, Except.ok.injEq, decide_eq_decide] at this
    have h₁ := hle (te + period + 1)
    have h₂ := hle (ts + period' + 1)
    omega
  · intro heq now
    rw [allows_after_ok he, allows_after_ok hs, Except.ok.injEq, decide_eq_decide]
    omega

/-! ## The gates of a list and of its end -/

/-- The conditions under which the finished attempts `kept` of a history lead to
the same decisions as those of the full history, `full`. -/
inductive TruncationInvisible (p : RunPredicate) (fromTimestamp : FromTimestamp N)
    (kept full : List (LastRunAttemptFinished N)) : Prop where
  | notFailed (h : ∀ e, full.getLast? = some e → e.outcome ≠ .failure)
  | ignored (h : p.onMaxFailures = .ignore)
  | successKept (h : (lastWith .success kept).isSome)
  | belowLimit (h : failuresSince full < p.maxFailures)
  | stalledAlike (h : p.maxFailures ≤ failuresSince kept)
      (hs : p.onMaxFailures = .successSchedule → lastWith .success full = none)
  | sameMoment (e s : LastRunAttemptFinished N) (te ts : Int)
      (hmode : p.onMaxFailures = .successSchedule)
      (he : full.getLast? = some e) (hs : lastWith .success full = some s)
      (hlt : failuresSince kept < p.maxFailures)
      (hte : fromTimestamp e.time = .ok te) (hts : fromTimestamp s.time = .ok ts)
      (heq : ts + p.successPeriod = te + p.failurePeriod)

section Gates
variable {p : RunPredicate} {fs : List (LastRunAttemptFinished N)}

theorem gate_of_not_failure (he : fs.getLast? = some e) (ho : e.outcome ≠ .failure) :
    p.gate fs = .after e (p.period e.outcome) := by
  simp only [RunPredicate.gate, he]
  cases h : e.outcome with
  | failure => exact absurd h ho
  | success => rfl
  | neutral => rfl

theorem gate_below_limit (he : fs.getLast? = some e) (ho : e.outcome = .failure)
    (hc : failuresSince fs < p.maxFailures ∨ p.onMaxFailures = .ignore) :
    p.gate fs = .after e p.failurePeriod := by
  simp only [RunPredicate.gate, he, ho, if_pos hc]

theorem gate_stalled (he : fs.getLast? = some e) (ho : e.outcome = .failure)
    (hn : p.maxFailures ≤ failuresSince fs) (hmode : p.onMaxFailures ≠ .ignore)
    (hs : p.onMaxFailures = .successSchedule → lastWith .success fs = none) :
    p.gate fs = .closed := by
  have hc : ¬ (failuresSince fs < p.maxFailures ∨ p.onMaxFailures = .ignore) := by
    intro h
    rcases h with h | h
    · omega
    · exact hmode h
  simp only [RunPredicate.gate, he, ho, if_neg hc]
  cases hm : p.onMaxFailures with
  | ignore => exact absurd hm hmode
  | stall => rfl
  | successSchedule => rw [hs hm]

theorem gate_on_success_schedule (he : fs.getLast? = some e) (ho : e.outcome = .failure)
    (hn : p.maxFailures ≤ failuresSince fs) (hmode : p.onMaxFailures = .successSchedule)
    (hs : lastWith .success fs = some s) : p.gate fs = .after s p.successPeriod := by
  have hc : ¬ (failuresSince fs < p.maxFailures ∨ p.onMaxFailures = .ignore) := by
    rw [hmode]
    intro h
    rcases h with h | h
    · omega
    · cases h
  simp only [RunPredicate.gate, he, ho, if_neg hc]
  rw [hmode, hs]

end Gates

section Ends
variable {p : RunPredicate} {ds ks : List (LastRunAttemptFinished N)}

theorem lastWith_of_kept (h : (lastWith .success ks).isSome) :
    lastWith .success (ds ++ ks) = lastWith .success ks := by
  obtain ⟨s, hs⟩ := Option.isSome_iff_exists.mp h
  rw [lastWith_append, hs, Option.some_or]

theorem mem_of_lastWith {o : Outcome} {fs : List (LastRunAttemptFinished N)}
    (hs : lastWith o fs = some s) : s ∈ fs :=
  List.mem_reverse.mp (List.mem_of_find?_eq_some hs)

/-- A condition that holds makes the gates agree. -/
theorem gate_agree (hlast : ks.getLast? = (ds ++ ks).getLast?)
    (h : TruncationInvisible p fromTimestamp ks (ds ++ ks)) :
    (p.gate ks).Agree fromTimestamp (p.gate (ds ++ ks)) := by
  have hle := failuresSince_le_append ds ks
  cases hk : ks.getLast? with
  | none =>
    have hf := hlast ▸ hk
    intro now
    simp only [RunPredicate.gate, hk, hf]
  | some e =>
    have hf := hlast ▸ hk
    by_cases ho : e.outcome = .failure
    · by_cases hkept : (lastWith .success ks).isSome
      · intro now
        simp only [RunPredicate.gate, hk, hf, lastWith_of_kept hkept,
          failuresSince_append_of_success hkept ds]
      by_cases hmode : p.onMaxFailures = .ignore
      · intro now
        rw [gate_below_limit hk ho (.inr hmode), gate_below_limit hf ho (.inr hmode)]
      cases h with
      | notFailed h => exact absurd ho (h e hf)
      | ignored h => exact absurd h hmode
      | successKept h => exact absurd h hkept
      | belowLimit h =>
        intro now
        rw [gate_below_limit hk ho (.inl (by omega)), gate_below_limit hf ho (.inl h)]
      | stalledAlike h hs =>
        have hnone : lastWith .success ks = none := Option.not_isSome_iff_eq_none.mp hkept
        intro now
        rw [gate_stalled hk ho h hmode fun _ => hnone, gate_stalled hf ho (by omega) hmode hs]
      | sameMoment e' s te ts hm he hs hlt hte hts heq =>
        obtain rfl : e' = e := Option.some.inj (he.symm.trans hf)
        by_cases hn : p.maxFailures ≤ failuresSince (ds ++ ks)
        · rw [gate_below_limit hk ho (.inl hlt), gate_on_success_schedule hf ho hn hm hs]
          exact (after_agree_after_iff hte hts).mpr heq
        · intro now
          rw [gate_below_limit hk ho (.inl hlt), gate_below_limit hf ho (.inl (by omega))]
    · intro now
      rw [gate_of_not_failure hk ho, gate_of_not_failure hf ho]

/-- When the gates agree one of the conditions holds, all finish times being
readable. -/
theorem truncationInvisible_of_agree (hlast : ks.getLast? = (ds ++ ks).getLast?)
    (hread : ∀ e ∈ ds ++ ks, ∃ t, fromTimestamp e.time = .ok t)
    (h : (p.gate ks).Agree fromTimestamp (p.gate (ds ++ ks))) :
    TruncationInvisible p fromTimestamp ks (ds ++ ks) := by
  cases hk : ks.getLast? with
  | none => exact .notFailed fun e he => by rw [← hlast, hk] at he; cases he
  | some e =>
    have hf := hlast ▸ hk
    by_cases ho : e.outcome = .failure
    · by_cases hmode : p.onMaxFailures = .ignore
      · exact .ignored hmode
      by_cases hkept : (lastWith .success ks).isSome
      · exact .successKept hkept
      by_cases hbelow : failuresSince (ds ++ ks) < p.maxFailures
      · exact .belowLimit hbelow
      have hnone : lastWith .success ks = none := Option.not_isSome_iff_eq_none.mp hkept
      obtain ⟨te, hte⟩ := hread e (List.mem_of_getLast? hf)
      by_cases hn : p.maxFailures ≤ failuresSince ks
      · refine .stalledAlike hn ?_
        intro hm
        cases hs : lastWith .success (ds ++ ks) with
        | none => rfl
        | some s =>
          obtain ⟨ts, hts⟩ := hread s (mem_of_lastWith hs)
          rw [gate_stalled hk ho hn hmode fun _ => hnone,
            gate_on_success_schedule hf ho (by omega) hm hs] at h
          exact absurd h (not_closed_agree_after hts)
      · rw [gate_below_limit hk ho (.inl (by omega))] at h
        by_cases hsched : p.onMaxFailures = .successSchedule ∧
            (lastWith .success (ds ++ ks)).isSome
        · obtain ⟨hm, hsome⟩ := hsched
          obtain ⟨s, hs⟩ := Option.isSome_iff_exists.mp hsome
          obtain ⟨ts, hts⟩ := hread s (mem_of_lastWith hs)
          rw [gate_on_success_schedule hf ho (by omega) hm hs] at h
          exact .sameMoment e s te ts hm hf hs (by omega) hte hts
            ((after_agree_after_iff hte hts).mp h)
        · rw [gate_stalled hf ho (by omega) hmode fun hm =>
            Option.not_isSome_iff_eq_none.mp fun hsome => hsched ⟨hm, hsome⟩] at h
          exact absurd h.symm (not_closed_agree_after hte)
    · refine .notFailed ?_
      intro e' he'
      obtain rfl : e = e' := Option.some.inj (hf.symm.trans he')
      exact ho

end Ends

/-! ## Runs -/

variable [PyFloat N] {R : Type} {clock : LocalClock N}

/-- The attempts of timed calls finish at times that can be read back. -/
theorem readable_log {shouldRun : ShouldRun N} {assessResult : AssessResult R}
    (cs : List (TimedCall clock R)) (l : LastRun N) :
    ∀ e ∈ finishedAttempts (l.log shouldRun assessResult (cs.map TimedCall.call)),
      ∃ t, clock.fromTimestamp e.time = .ok t := by
  induction cs generalizing l with
  | nil => simp [LastRun.log, finishedAttempts]
  | cons c cs ih =>
    intro e he
    rw [List.map_cons, LastRun.log, finishedAttempts_append, List.mem_append] at he
    rcases he with he | he
    · refine ⟨c.finishAt + clock.offset, ?_⟩
      unfold LastRun.appended at he
      split at he
      · rcases finishedAttempts_entries assessResult c.call with hnil | ⟨e', hone, htime⟩
        · rw [hnil] at he; cases he
        · rw [hone, List.mem_singleton] at he
          rw [he, htime]
          exact clock.fromTimestamp_time _ c.representable
      · cases he
    · exact ih _ e he

/-- **The history's bound does not show in the decisions exactly when one of the
conditions holds.** The attempts are those of any `should_run`. -/
theorem truncation_invisible_iff (p : RunPredicate) (shouldRun : ShouldRun N)
    (assessResult : AssessResult R) (l : LastRun N) (hm : 2 ≤ l.history.maxEntries)
    (hl : ∀ e ∈ finishedAttempts l.snapshot, ∃ t, clock.fromTimestamp e.time = .ok t)
    (cs : List (TimedCall clock R)) (ha : Assesses assessResult (cs.map TimedCall.call)) :
    let kept := (l.run shouldRun assessResult (cs.map TimedCall.call)).snapshot
    let full := l.snapshot ++ l.log shouldRun assessResult (cs.map TimedCall.call)
    (∀ now, p.shouldRun clock.fromTimestamp now kept = p.shouldRun clock.fromTimestamp now full) ↔
      TruncationInvisible p clock.fromTimestamp (finishedAttempts kept)
        (finishedAttempts full) := by
  intro kept full
  obtain ⟨dropped, hfull⟩ : ∃ dropped, full = dropped ++ kept :=
    ⟨_, by rw [show kept = full.rtake l.history.maxEntries from LastRun.run_snapshot ..,
      List.rtake, List.take_append_drop]⟩
  have hlast : (finishedAttempts kept).getLast? = (finishedAttempts full).getLast? :=
    lastFinished_run ha l hm
  have hread : ∀ e ∈ finishedAttempts full, ∃ t, clock.fromTimestamp e.time = .ok t := by
    intro e he
    rcases List.mem_append.mp (finishedAttempts_append _ _ ▸ he) with he | he
    · exact hl e he
    · exact readable_log cs l e he
  simp only [RunPredicate.shouldRun_eq]
  rw [hfull, finishedAttempts_append] at hread hlast ⊢
  exact ⟨truncationInvisible_of_agree hlast hread, gate_agree hlast⟩

/-! ### A bound of one attempt -/

def patientJob : RunPredicate := ⟨10, 10, 5, 3, .stall, false, none⟩

theorem patientJob_first :
    (newLastRun 2).appended (patientJob.shouldRun utcClock.fromTimestamp) reported
      (instantCall 0 .failure).call = [.started ⟨0⟩, .finished ⟨0, .failure, ""⟩] := rfl

/-- One failure in sight, `patientJob` tries again. -/
theorem patientJob_asks {l : LastRun Int} {t t' : Int} (hgap : t + 5 < t')
    (hl : l.snapshot = [.started ⟨t⟩, .finished ⟨t, .failure, ""⟩]) :
    patientJob.shouldRun utcClock.fromTimestamp t' l.snapshot = .ok true := by
  have hgate : patientJob.gate (finishedAttempts l.snapshot) = .after ⟨t, .failure, ""⟩ 5 := by
    rw [hl]; rfl
  rw [RunPredicate.shouldRun_eq, hgate]
  exact allows_after_iff.mpr ⟨t, rfl, show (5 : Int) < t' - t by omega⟩

theorem patientJob_again {l : LastRun Int} {t : Int} (t' : Int) (o : Outcome) (hgap : t + 5 < t')
    (hl : l.snapshot = [.started ⟨t⟩, .finished ⟨t, .failure, ""⟩]) :
    l.appended (patientJob.shouldRun utcClock.fromTimestamp) reported
      (instantCall t' o).call = [.started ⟨t'⟩, .finished ⟨t', o, ""⟩] := by
  rw [LastRun.appended, instantCall_call, patientJob_asks hgap hl]
  rfl

theorem patientJob_snapshot {l : LastRun Int} {t : Int} {o : Outcome}
    (hm : l.history.maxEntries = 2) (ha : l.appended (patientJob.shouldRun utcClock.fromTimestamp)
      reported (instantCall t o).call = [.started ⟨t⟩, .finished ⟨t, o, ""⟩]) :
    (l.wrapper (patientJob.shouldRun utcClock.fromTimestamp) reported
      (instantCall t o).call).1.snapshot = [.started ⟨t⟩, .finished ⟨t, o, ""⟩] := by
  rw [LastRun.wrapper_snapshot, ha, hm, List.rtake, List.length_append]
  exact List.drop_left

/-- A failure and a success: the success is all that is kept, and it decides as both do. -/
theorem truncation_invisible_after_success :
    let shouldRun := patientJob.shouldRun utcClock.fromTimestamp
    let l := newLastRun 2
    let cs := [instantCall 0 .failure, instantCall 6 .success].map TimedCall.call
    let kept := (l.run shouldRun reported cs).snapshot
    let full := l.snapshot ++ l.log shouldRun reported cs
    kept = [.started ⟨6⟩, .finished ⟨6, .success, ""⟩] ∧
      full = [.started ⟨0⟩, .finished ⟨0, .failure, ""⟩, .started ⟨6⟩,
        .finished ⟨6, .success, ""⟩] ∧
      ∀ now, shouldRun now kept = shouldRun now full := by
  have s₀ := patientJob_snapshot rfl patientJob_first
  have h₁ := patientJob_again 6 .success (by decide) s₀
  have s₁ := patientJob_snapshot (LastRun.wrapper_maxEntries ..) h₁
  have hkept : ((newLastRun 2).run (patientJob.shouldRun utcClock.fromTimestamp) reported
      ([instantCall 0 .failure, instantCall 6 .success].map TimedCall.call)).snapshot =
        [.started ⟨6⟩, .finished ⟨6, .success, ""⟩] := by
    rw [List.map_cons, List.map_singleton, LastRun.run, LastRun.run, LastRun.run]
    exact s₁
  refine ⟨hkept, ?_, ?_⟩
  · rw [List.map_cons, List.map_singleton, LastRun.log, LastRun.log, LastRun.log,
      patientJob_first, h₁]
    rfl
  · refine (truncation_invisible_iff patientJob _ reported (newLastRun 2) le_rfl ?_
      [instantCall 0 .failure, instantCall 6 .success] ?_).mpr (.successKept ?_)
    · exact fun e _ => ⟨e.time, rfl⟩
    · simp [Assesses, instantCall_call, JobResult.assessed, reported]
    · rw [hkept]
      rfl

/-- After three failures the full list stalls `patientJob`; the two entries that
are kept let it run. -/
theorem truncation_changes_decision :
    let shouldRun := patientJob.shouldRun utcClock.fromTimestamp
    let l := newLastRun 2
    let cs := ([instantCall 0 .failure, instantCall 6 .failure, instantCall 12 .failure].map
      TimedCall.call)
    shouldRun 18 (l.run shouldRun reported cs).snapshot = .ok true ∧
      shouldRun 18 (l.snapshot ++ l.log shouldRun reported cs) = .ok false := by
  have s₀ := patientJob_snapshot rfl patientJob_first
  have h₁ := patientJob_again 6 .failure (by decide) s₀
  have s₁ := patientJob_snapshot (LastRun.wrapper_maxEntries ..) h₁
  have h₂ := patientJob_again 12 .failure (by decide) s₁
  have s₂ := patientJob_snapshot
    ((LastRun.wrapper_maxEntries ..).trans (LastRun.wrapper_maxEntries ..)) h₂
  constructor
  · rw [List.map_cons, List.map_cons, List.map_singleton, LastRun.run, LastRun.run, LastRun.run,
      LastRun.run]
    exact patientJob_asks (by decide) s₂
  · rw [List.map_cons, List.map_cons, List.map_singleton, LastRun.log, LastRun.log, LastRun.log,
      LastRun.log, patientJob_first, h₁, h₂, RunPredicate.shouldRun_eq]
    rfl

end SchedulingUtil
