import SchedulingUtil.ExclusivePathLock
import SchedulingUtil.Types

/-! # `RateLimiter` on a shared path

The file whose modification time is the time of the last action is the file of
the lock as well. Its creator resets that time inside the lock, which it may get
after others: what they have recorded by then is gone. -/
namespace SchedulingUtil
open Lib

/-! ## The steps of `ping` and `ping_if_ready` -/

inductive PingOp where
  | ping
  | pingIfReady
  deriving DecidableEq

/-- The next step of a call inside the lock. -/
inductive PingPc where
  | refresh
  | check
  | touch
  | refreshAfter
  | done (ready : Bool)
  deriving DecidableEq

def PingOp.first : PingOp → PingPc
  | .ping => .touch
  | .pingIfReady => .refresh

/-- A call under way, with the timestamp that it has read. -/
structure PingCall where
  op : PingOp
  pc : PingPc
  timestamp : Int

/-- Processes with a limiter each on one path. -/
structure RateLimiters (T : Type) where
  lock : PathLock T
  clock : Int
  call : T → Option PingCall

inductive RateLimiterEvent (T : Type) where
  | tick
  | call (t : T) (op : PingOp)
  | lock (t : T)
  | refresh (t : T)
  | check (t : T) (ready : Bool)
  | touch (t : T)
  | refreshAfter (t : T)
  | unlock (t : T)
  | close (t : T)

section Steps
variable {T : Type} [DecidableEq T]

namespace RateLimiters

def setCall (s : RateLimiters T) (t : T) (c : Option PingCall) : RateLimiters T :=
  { s with call := Function.update s.call t c }

@[simp] theorem setCall_same (s : RateLimiters T) (t : T) (c : Option PingCall) :
    (s.setCall t c).call t = c := Function.update_self ..
theorem setCall_other (s : RateLimiters T) {t u : T} (c : Option PingCall) (h : u ≠ t) :
    (s.setCall t c).call u = s.call u := Function.update_of_ne h ..

/-- `path.touch()`: the time of the last action is now. -/
def touch (s : RateLimiters T) : RateLimiters T :=
  { s with lock.file.mtime := some s.clock }

/-- `_refresh_timestamp_from_disk`; without a file the time is the epoch. -/
def readTimestamp (s : RateLimiters T) : Int := s.lock.file.mtime.getD 0

end RateLimiters

/-- `_is_ready_at`. -/
def PingCall.isReadyAt (c : PingCall) (minimumPeriod : Int) (now : Int) : Bool :=
  now - c.timestamp ≥ minimumPeriod

/-- One step of one process, or of the clock. A file that the lock creates has the
current time. -/
inductive RateLimiterStep (minimumPeriod : Int) :
    RateLimiters T → RateLimiterEvent T → RateLimiters T → Prop where
  | tick {s : RateLimiters T} {now : Int} (h : s.clock ≤ now) :
      RateLimiterStep minimumPeriod s .tick { s with clock := now }
  | call {s : RateLimiters T} {t : T} (op : PingOp) (hc : s.call t = none)
      (hpc : s.lock.pc t = none) :
      RateLimiterStep minimumPeriod s (.call t op)
        ({ s with lock := s.lock.setPc t (some .createExclusive) }.setCall t
          (some ⟨op, op.first, 0⟩))
  | lock {s : RateLimiters T} {t : T} {pc pc' : PathLockPc} {file : LockFile T}
      (hpc : s.lock.pc t = some pc) (h : PathLockStep t (pc, s.lock.file) (pc', file))
      (hnew : s.lock.file.mtime = none → ∀ m, file.mtime = some m → m = s.clock) :
      RateLimiterStep minimumPeriod s (.lock t)
        { s with lock := { s.lock with file }.setPc t (some pc') }
  | refresh {s : RateLimiters T} {t : T} {c : PingCall} (hin : s.lock.pc t = some .inside)
      (hc : s.call t = some c) (hpc : c.pc = .refresh) :
      RateLimiterStep minimumPeriod s (.refresh t)
        (s.setCall t (some { c with pc := .check, timestamp := s.readTimestamp }))
  | check {s : RateLimiters T} {t : T} {c : PingCall} (hin : s.lock.pc t = some .inside)
      (hc : s.call t = some c) (hpc : c.pc = .check) :
      RateLimiterStep minimumPeriod s (.check t (c.isReadyAt minimumPeriod s.clock))
        (s.setCall t (some { c with
          pc := if c.isReadyAt minimumPeriod s.clock then .touch else .done false }))
  | touch {s : RateLimiters T} {t : T} {c : PingCall} (hin : s.lock.pc t = some .inside)
      (hc : s.call t = some c) (hpc : c.pc = .touch) :
      RateLimiterStep minimumPeriod s (.touch t)
        (s.touch.setCall t (some { c with pc := .refreshAfter }))
  | refreshAfter {s : RateLimiters T} {t : T} {c : PingCall} (hin : s.lock.pc t = some .inside)
      (hc : s.call t = some c) (hpc : c.pc = .refreshAfter) :
      RateLimiterStep minimumPeriod s (.refreshAfter t)
        (s.setCall t (some { c with pc := .done true, timestamp := s.readTimestamp }))
  | unlock {s : RateLimiters T} {t : T} {c : PingCall} {ready : Bool} {lock : PathLock T}
      (hc : s.call t = some c) (hpc : c.pc = .done ready) (h : PathLock.Release t s.lock lock) :
      RateLimiterStep minimumPeriod s (.unlock t) { s with lock }
  | close {s : RateLimiters T} {t : T} (hpc : s.lock.pc t = some .close) :
      RateLimiterStep minimumPeriod s (.close t)
        ({ s with lock := s.lock.setPc t none }.setCall t none)

/-- No process is in a call; the path may or may not exist. -/
structure RateLimiters.Quiet (s : RateLimiters T) : Prop where
  holder : s.lock.file.holder = none
  pc : ∀ t, s.lock.pc t = none
  call : ∀ t, s.call t = none

end Steps

/-! ## Events, checks and resets -/

variable {T : Type}

/-- The time of the event that the step records. -/
def recordedAt (x : RateLimiters T × RateLimiterEvent T) : Option Int :=
  match x.2 with
  | .touch _ => some x.1.clock
  | _ => none

/-- The step is the check of a `ping_if_ready` that returns `True`. -/
def passes (x : RateLimiters T × RateLimiterEvent T) : Bool :=
  match x.2 with
  | .check _ ready => ready
  | _ => false

/-- The creator of the file resets its modification time. -/
def resets (x : RateLimiters T × RateLimiterEvent T) : Bool :=
  match x.2 with
  | .lock t => x.1.lock.pc t == some .utime
  | _ => false

/-- An event is followed by no `True` within the period. -/
def Spaced (minimumPeriod : Int)
    (steps : List (RateLimiters T × RateLimiterEvent T)) : Prop :=
  steps.Pairwise fun x y =>
    ∀ t, recordedAt x = some t → passes y = true → t + minimumPeriod ≤ y.1.clock

/-- The modification time is reset before the first event only. -/
def ResetsFirst (steps : List (RateLimiters T × RateLimiterEvent T)) : Prop :=
  steps.Pairwise fun x y => (recordedAt x).isSome → resets y = false

/-! ## What a step keeps -/

/-- The file's modification time is changed by its creation and by the reset alone. -/
theorem PathLockStep.mtime {t : T} {pc pc' : PathLockPc} {f f' : LockFile T}
    (h : PathLockStep t (pc, f) (pc', f')) :
    f'.mtime = f.mtime ∨ f.mtime = none ∨ pc = .utime := by
  cases h with
  | created now => exact .inr (.inl rfl)
  | utime => exact .inr (.inr rfl)
  | _ => exact .inl rfl

/-- Behind the call of `open` the file exists. -/
def PathLockPc.Opened (pc : PathLockPc) : Prop := pc ≠ .createExclusive ∧ pc ≠ .openExisting

theorem PathLockStep.mtime_isSome {t : T} {pc pc' : PathLockPc} {f f' : LockFile T}
    (h : PathLockStep t (pc, f) (pc', f')) (hf : pc.Opened → f.mtime.isSome) :
    (f.mtime.isSome → f'.mtime.isSome) ∧ (pc'.Opened → f'.mtime.isSome) := by
  cases h with
  | created now => exact ⟨fun _ => rfl, fun _ => rfl⟩
  | fileExists => exact ⟨id, fun _ => rfl⟩
  | opened => exact ⟨id, fun _ => rfl⟩
  | fileNotFound => exact ⟨id, fun h => absurd rfl h.1⟩
  | flock =>
    have hsome := hf ⟨by simp, by simp⟩
    exact ⟨fun _ => hsome, fun _ => hsome⟩
  | utime =>
    have hsome := hf ⟨by simp, by simp⟩
    simp only [Option.isSome_map]
    exact ⟨fun _ => hsome, fun _ => hsome⟩

/-- **The invariant**, for the events recorded: the file's time is that of the last
one or later, and what a process is about to check is the file's time. -/
structure Recorded (events : List Int) (s : RateLimiters T) : Prop where
  sound : s.lock.Sound
  opened : ∀ u pc, s.lock.pc u = some pc → pc.Opened → s.lock.file.mtime.isSome
  past : ∀ t ∈ events, t ≤ s.clock
  latest : ∀ t ∈ events, ∃ m, s.lock.file.mtime = some m ∧ t ≤ m
  checking : ∀ u c, s.call u = some c → c.pc = .check →
    s.lock.pc u = some .inside ∧ s.lock.file.mtime = some c.timestamp

theorem RateLimiters.Quiet.recorded {s : RateLimiters T} (h : s.Quiet) : Recorded [] s where
  sound := by
    intro t
    rw [h.holder]
    refine iff_of_false (by simp) ?_
    intro hlocked
    obtain ⟨pc, hpc, -⟩ := hlocked
    rw [h.pc] at hpc
    cases hpc
  opened u pc hpc := by rw [h.pc] at hpc; cases hpc
  past := by simp
  latest := by simp
  checking u c hc := by rw [h.call] at hc; cases hc

variable [DecidableEq T]

namespace Recorded
variable {events : List Int} {s : RateLimiters T} {t : T}

omit [DecidableEq T] in
/-- The file's time, read inside the lock. -/
theorem readTimestamp (h : Recorded events s) (hin : s.lock.pc t = some .inside) :
    s.lock.file.mtime = some s.readTimestamp := by
  obtain ⟨m, hm⟩ := Option.isSome_iff_exists.mp (h.opened t _ hin ⟨by simp, by simp⟩)
  rw [RateLimiters.readTimestamp, hm]
  rfl

/-- A call goes on, or is over, without a change to the lock or its file. -/
theorem setCall (h : Recorded events s) {c : Option PingCall}
    (hc : ∀ c', c = some c' → c'.pc = .check →
      s.lock.pc t = some .inside ∧ s.lock.file.mtime = some c'.timestamp) :
    Recorded events (s.setCall t c) where
  sound := h.sound
  opened := h.opened
  past := h.past
  latest := h.latest
  checking u c' hu hpc := by
    by_cases hut : u = t
    · subst hut
      rw [RateLimiters.setCall_same] at hu
      exact hc c' hu hpc
    · rw [RateLimiters.setCall_other _ _ hut] at hu
      exact h.checking u c' hu hpc

omit [DecidableEq T] in
/-- Who is about to check has the lock: nobody else changes the file's time. -/
theorem not_checking_of_locked (h : Recorded events s) (ht : s.lock.Locked t) {u : T}
    {c : PingCall} (hu : s.call u = some c) (hpc : c.pc = .check) : u = t :=
  h.sound.unique (PathLock.locked_of_inside (h.checking u c hu hpc).1) ht

theorem lock (h : Recorded events s) {pc pc' : PathLockPc} {file : LockFile T}
    (hpc : s.lock.pc t = some pc) (hs : PathLockStep t (pc, s.lock.file) (pc', file))
    (hreset : pc = .utime → events = []) :
    Recorded events { s with lock := { s.lock with file }.setPc t (some pc') } where
  sound := h.sound.advance (.step hpc hs)
  opened u p hu hp := by
    obtain ⟨hkeep, hnew⟩ := hs.mtime_isSome (h.opened t pc hpc)
    by_cases hut : u = t
    · subst hut
      rw [PathLock.setPc_same] at hu
      cases hu
      exact hnew hp
    · rw [PathLock.setPc_other _ _ hut] at hu
      exact hkeep (h.opened u p hu hp)
  past := h.past
  latest e he := by
    obtain ⟨m, hm, hle⟩ := h.latest e he
    rcases hs.mtime with hsame | hnone | hutime
    · exact ⟨m, hsame.trans hm, hle⟩
    · rw [hm] at hnone
      cases hnone
    · rw [hreset hutime] at he
      cases he
  checking u c hu hc := by
    obtain ⟨hin, hm⟩ := h.checking u c hu hc
    have hut : u ≠ t := by
      rintro rfl
      rw [hin] at hpc
      exact hs.not_inside (Option.some.inj hpc).symm
    refine ⟨(PathLock.setPc_other _ _ hut).trans hin, ?_⟩
    rcases hs.mtime with hsame | hnone | hutime
    · exact hsame.trans hm
    · rw [hm] at hnone
      cases hnone
    · exact absurd (h.not_checking_of_locked ⟨pc, hpc, .inl hutime⟩ hu hc) hut

/-- A process that is not about to check changes its place in the lock. -/
theorem setPc (h : Recorded events s) (t : T) (pc : Option PathLockPc) {lock : PathLock T}
    (hlock : lock.Sound) (hfile : lock.file.mtime = s.lock.file.mtime)
    (hpc : lock.pc = (s.lock.setPc t pc).pc)
    (hopened : ∀ p, pc = some p → p.Opened → s.lock.file.mtime.isSome)
    (hcall : ∀ c, s.call t = some c → c.pc ≠ .check) :
    Recorded events { s with lock } where
  sound := hlock
  opened u p hu hp := by
    rw [hfile]
    rw [show lock.pc u = (s.lock.setPc t pc).pc u by rw [hpc]] at hu
    by_cases hut : u = t
    · subst hut
      rw [PathLock.setPc_same] at hu
      exact hopened p hu hp
    · rw [PathLock.setPc_other _ _ hut] at hu
      exact h.opened u p hu hp
  past := h.past
  latest e he := by
    rw [hfile]
    exact h.latest e he
  checking u c hu hc := by
    have hut : u ≠ t := by
      rintro rfl
      exact hcall c hu hc
    obtain ⟨hin, hm⟩ := h.checking u c hu hc
    refine ⟨?_, hfile.trans hm⟩
    show lock.pc u = _
    rw [hpc, PathLock.setPc_other _ _ hut, hin]

theorem touch (h : Recorded events s) (hin : s.lock.pc t = some .inside) {c : PingCall}
    (hpc : c.pc ≠ .check) : Recorded (events ++ [s.clock]) (s.touch.setCall t (some c)) where
  sound := h.sound
  opened u p _ _ := rfl
  past e he := by
    rcases List.mem_append.mp he with he | he
    · exact h.past e he
    · exact Int.le_of_eq (List.mem_singleton.mp he)
  latest e he := by
    refine ⟨s.clock, rfl, ?_⟩
    rcases List.mem_append.mp he with he | he
    · exact h.past e he
    · exact Int.le_of_eq (List.mem_singleton.mp he)
  checking u c' hu hc' := by
    by_cases hut : u = t
    · subst hut
      rw [RateLimiters.setCall_same] at hu
      cases hu
      exact absurd hc' hpc
    · rw [RateLimiters.setCall_other _ _ hut] at hu
      exact absurd (h.not_checking_of_locked (PathLock.locked_of_inside hin) hu hc') hut

end Recorded

/-- One step records its event and keeps the invariant, unless it resets the file's
time behind an event. -/
theorem recorded_step {minimumPeriod : Int} {events : List Int} {s s' : RateLimiters T}
    {l : RateLimiterEvent T} (h : Recorded events s)
    (hstep : RateLimiterStep minimumPeriod s l s')
    (hreset : resets (s, l) = true → events = []) :
    Recorded (events ++ (recordedAt (s, l)).toList) s' := by
  have hno (hnone : recordedAt (s, l) = none) (h' : Recorded events s') :
      Recorded (events ++ (recordedAt (s, l)).toList) s' := by
    rwa [hnone, Option.toList_none, List.append_nil]
  cases hstep with
  | @tick now hnow =>
    exact hno rfl
      ⟨h.sound, h.opened, fun e he => Int.le_trans (h.past e he) hnow, h.latest, h.checking⟩
  | @call t op hc hpc =>
    have hidle : ¬ s.lock.Locked t := by
      intro hlocked
      obtain ⟨pc, hp, -⟩ := hlocked
      rw [hpc] at hp
      cases hp
    have hkept := h.setPc t (some .createExclusive)
      (h.sound.keep hidle (by simp [PathLockPc.Locked])) rfl rfl
      (fun p hp hopened => by cases hp; exact absurd rfl hopened.1)
      (fun c hcall => by rw [hc] at hcall; cases hcall)
    refine hno rfl (hkept.setCall ?_)
    intro c hfirst hcheck
    cases hfirst
    cases op <;> cases hcheck
  | lock hpc hs =>
    exact hno rfl (h.lock hpc hs fun hutime => hreset (by simp [resets, hpc, hutime]))
  | refresh hin =>
    refine hno rfl (h.setCall ?_)
    intro c hc _
    cases hc
    exact ⟨hin, h.readTimestamp hin⟩
  | check hin =>
    refine hno rfl (h.setCall ?_)
    intro c hc hcheck
    cases hc
    dsimp only at hcheck
    split at hcheck <;> cases hcheck
  | touch hin => exact h.touch hin (by simp)
  | refreshAfter hin =>
    refine hno rfl (h.setCall ?_)
    intro c hc hcheck
    cases hc
    cases hcheck
  | @unlock t c ready lock hc hpc hrel =>
    have hsound := h.sound.release hrel
    cases hrel with
    | unlock hin =>
      refine hno rfl (h.setPc t (some .close) hsound rfl rfl
        (fun p _ _ => h.opened t _ hin ⟨by simp, by simp⟩) fun c' hc' hcheck => ?_)
      rw [hc] at hc'
      cases hc'
      rw [hpc] at hcheck
      cases hcheck
  | @close t hpc =>
    have hcall (c : PingCall) (hc : s.call t = some c) : c.pc ≠ .check := by
      intro hcheck
      have hin := (h.checking t c hc hcheck).1
      rw [hpc] at hin
      cases hin
    have hkept := h.setPc t none (h.sound.advance (.close hpc)) rfl rfl (by simp) hcall
    exact hno rfl (hkept.setCall fun c hc _ => by cases hc)

/-! ## Runs -/

variable {minimumPeriod : Int} {s₀ s : RateLimiters T}
  {steps : List (RateLimiters T × RateLimiterEvent T)}

/-- Where the file's time is reset before the first event only, the invariant holds
for the events of the run. -/
theorem recorded_run (h : Execution (RateLimiterStep minimumPeriod) s₀ steps s) (h₀ : s₀.Quiet)
    (hfirst : ResetsFirst steps) : Recorded (steps.filterMap recordedAt) s := by
  induction h with
  | refl => exact h₀.recorded
  | @snoc s s' l steps h hl ih =>
    obtain ⟨hbefore, -, hlast⟩ := List.pairwise_append.mp hfirst
    rw [List.filterMap_append]
    have hstep := recorded_step (ih hbefore) hl fun hreset => ?_
    · cases hr : recordedAt (s, l) <;> simpa [hr] using hstep
    · refine List.filterMap_eq_nil_iff.mpr ?_
      intro x hx
      by_contra hne
      have hno := hlast x hx (s, l) (List.mem_singleton_self _) (Option.isSome_iff_ne_none.mpr hne)
      rw [hreset] at hno
      cases hno

/-- What a check that passes has read lies a period back. -/
theorem period_of_passes {events : List Int} {s' : RateLimiters T} {l : RateLimiterEvent T}
    (h : Recorded events s) (hstep : RateLimiterStep minimumPeriod s l s')
    (hpasses : passes (s, l) = true) : ∀ t ∈ events, t + minimumPeriod ≤ s.clock := by
  intro t ht
  cases hstep with
  | @check u c hin hc hpc =>
    obtain ⟨m, hm, hle⟩ := h.latest t ht
    obtain ⟨-, hm'⟩ := h.checking u c hc hpc
    rw [hm] at hm'
    have hready : minimumPeriod ≤ s.clock - c.timestamp := by
      simpa [passes, PingCall.isReadyAt] using hpasses
    have hstamp : m = c.timestamp := Option.some.inj hm'
    omega
  | _ => cases hpasses

/-- **No `True` within the period of an event**, in every run in which the file's
creator resets its time before the first event. -/
theorem minimum_period_kept (h : Execution (RateLimiterStep minimumPeriod) s₀ steps s)
    (h₀ : s₀.Quiet) (hfirst : ResetsFirst steps) : Spaced minimumPeriod steps := by
  induction h with
  | refl => exact List.Pairwise.nil
  | @snoc s s' l steps h hl ih =>
    obtain ⟨hbefore, -, -⟩ := List.pairwise_append.mp hfirst
    refine List.pairwise_append.mpr ⟨ih hbefore, List.pairwise_singleton _ _, ?_⟩
    intro x hx y hy t ht hpasses
    rw [List.mem_singleton.mp hy] at hpasses ⊢
    exact period_of_passes (recorded_run h h₀ hbefore) hl hpasses t
      (List.mem_filterMap.mpr ⟨x, hx, ht⟩)

/-! ### Two processes and a new file -/

theorem resetsFirst_append {T : Type} {a b : List (RateLimiters T × RateLimiterEvent T)}
    (ha : ∀ x ∈ a, recordedAt x = none) (hb : ∀ y ∈ b, resets y = false) :
    ResetsFirst (a ++ b) := by
  have hnone {l : List (RateLimiters T × RateLimiterEvent T)}
      (h : ∀ x ∈ l, ∀ y, (recordedAt x).isSome → resets y = false) : ResetsFirst l :=
    List.pairwise_iff_forall_sublist.mpr fun hsub => h _ (hsub.subset (.head _)) _
  refine List.pairwise_append.mpr ⟨hnone ?_, ?_, fun x hx y hy _ => hb y hy⟩
  · intro x hx y hr
    rw [ha x hx] at hr
    cases hr
  · exact List.pairwise_iff_forall_sublist.mpr fun hsub _ => hb _ (hsub.subset (.tail _ (.head _)))

/-- Two processes, and nothing at the path. -/
def limitersAtStart : RateLimiters Bool := ⟨⟨⟨none, none⟩, fun _ => none⟩, 1000, fun _ => none⟩

theorem limitersAtStart_quiet : limitersAtStart.Quiet := ⟨rfl, fun _ => rfl, fun _ => rfl⟩

/-- An event recorded by the creator, and a `True` a period later. -/
theorem minimum_period_kept_by_creator :
    ∃ steps s, Execution (RateLimiterStep 100) limitersAtStart steps s ∧
      steps.any (fun x => (recordedAt x).isSome) = true ∧ steps.any passes = true ∧
      Spaced 100 steps := by
  have hrun : Execution (RateLimiterStep 100) limitersAtStart
      [_, _, _, _, _, _, _, _, _, _, _, _, _, _, _] _ :=
    .cons (.call (t := false) .ping rfl rfl) <|
    .cons (.lock (t := false) rfl (.created 1000) fun _ _ h => (Option.some.inj h).symm) <|
    .cons (.lock (t := false) rfl .flock fun h => by cases h) <|
    .cons (.lock (t := false) rfl .utime fun h => by cases h) <|
    .cons (.touch (t := false) rfl rfl rfl) <|
    .cons (.refreshAfter (t := false) rfl rfl rfl) <|
    .cons (.unlock (t := false) rfl rfl (.unlock rfl)) <|
    .cons (.close (t := false) rfl) <|
    .cons (.tick (show (1000 : Int) ≤ 1100 by decide)) <|
    .cons (.call (t := false) .pingIfReady rfl rfl) <|
    .cons (.lock (t := false) rfl .fileExists fun h => by cases h) <|
    .cons (.lock (t := false) rfl .opened fun h => by cases h) <|
    .cons (.lock (t := false) rfl .flock fun h => by cases h) <|
    .cons (.refresh (t := false) rfl rfl rfl) <|
    .single (.check (t := false) rfl rfl rfl)
  refine ⟨_, _, hrun, rfl, rfl, minimum_period_kept hrun limitersAtStart_quiet
    (resetsFirst_append (a := [_, _, _, _]) ?_ ?_)⟩
  · simp only [List.forall_mem_cons]
    exact ⟨rfl, rfl, rfl, rfl, by simp⟩
  · simp only [List.forall_mem_cons]
    exact ⟨rfl, rfl, rfl, rfl, rfl, rfl, rfl, rfl, rfl, rfl, rfl, by simp⟩

/-- The creator gets the lock behind a `ping()`, forgets it, and answers `True`. -/
theorem reset_loses_event :
    ∃ steps s, Execution (RateLimiterStep 100) limitersAtStart steps s ∧ ¬ Spaced 100 steps := by
  refine ⟨_, _,
    .cons (.call (t := false) .pingIfReady rfl rfl) <|
    .cons (.lock (t := false) rfl (.created 1000) fun _ _ h => (Option.some.inj h).symm) <|
    .cons (.call (t := true) .ping rfl rfl) <|
    .cons (.lock (t := true) rfl .fileExists fun h => by cases h) <|
    .cons (.lock (t := true) rfl .opened fun h => by cases h) <|
    .cons (.lock (t := true) rfl .flock fun h => by cases h) <|
    .cons (.touch (t := true) rfl rfl rfl) <|
    .cons (.refreshAfter (t := true) rfl rfl rfl) <|
    .cons (.unlock (t := true) rfl rfl (.unlock rfl)) <|
    .cons (.lock (t := false) rfl .flock fun h => by cases h) <|
    .cons (.lock (t := false) rfl .utime fun h => by cases h) <|
    .cons (.refresh (t := false) rfl rfl rfl) <|
    .single (.check (t := false) rfl rfl rfl), fun h => ?_⟩
  have hpair := h.sublist (.cons _ <| .cons _ <| .cons _ <| .cons _ <| .cons _ <| .cons _ <|
    .cons_cons _ <| .cons _ <| .cons _ <| .cons _ <| .cons _ <| .cons _ <| .cons_cons _ .slnil)
  exact absurd (List.pairwise_pair.mp hpair 1000 rfl rfl) (by decide)

end SchedulingUtil
