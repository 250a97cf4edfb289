import SchedulingUtil.Lib.Guarded

/-! # `exclusive_path_lock`

The steps that a process or thread takes from the call to the body of the `with`
and from there to its end. The file of a lock is never removed. -/
namespace SchedulingUtil
open Lib

/-- What is at the path of the lock: the modification time of the file, if there
is one, and who has the `flock` on it. -/
structure LockFile (T : Type) where
  mtime : Option Int
  holder : Option T

/-- The next step. At `inside` the body of the `with` runs. -/
inductive PathLockPc where
  | createExclusive
  | openExisting
  | flock (created : Bool)
  | utime
  | inside
  | close
  deriving DecidableEq

def PathLockPc.Locked (pc : PathLockPc) : Prop := pc = .utime ∨ pc = .inside

/-- The steps before the body. -/
inductive PathLockStep {T : Type} (t : T) :
    PathLockPc × LockFile T → PathLockPc × LockFile T → Prop where
  | created {holder : Option T} (now : Int) :
      PathLockStep t (.createExclusive, ⟨none, holder⟩) (.flock true, ⟨some now, holder⟩)
  | fileExists {m : Int} {holder : Option T} :
      PathLockStep t (.createExclusive, ⟨some m, holder⟩) (.openExisting, ⟨some m, holder⟩)
  | opened {m : Int} {holder : Option T} :
      PathLockStep t (.openExisting, ⟨some m, holder⟩) (.flock false, ⟨some m, holder⟩)
  | fileNotFound {holder : Option T} :
      PathLockStep t (.openExisting, ⟨none, holder⟩) (.createExclusive, ⟨none, holder⟩)
  | flock {created : Bool} {m : Option Int} :
      PathLockStep t (.flock created, ⟨m, none⟩)
        (if created then .utime else .inside, ⟨m, some t⟩)
  | utime {m : Option Int} {holder : Option T} :
      PathLockStep t (.utime, ⟨m, holder⟩) (.inside, ⟨m.map fun _ => 0, holder⟩)

/-- `flock` is the one step that takes the lock, and it takes it for the thread. -/
theorem PathLockStep.holder {T : Type} {t : T} {pc pc' : PathLockPc} {f f' : LockFile T}
    (h : PathLockStep t (pc, f) (pc', f')) :
    f'.holder = f.holder ∧ (pc'.Locked ↔ pc.Locked) ∨
      f.holder = none ∧ f'.holder = some t ∧ pc'.Locked := by
  cases h with
  | @flock created m => cases created <;> exact .inr ⟨rfl, rfl, by simp [PathLockPc.Locked]⟩
  | _ => exact .inl ⟨rfl, by simp [PathLockPc.Locked]⟩

theorem PathLockStep.not_inside {T : Type} {t : T} {pc pc' : PathLockPc} {f f' : LockFile T}
    (h : PathLockStep t (pc, f) (pc', f')) : pc ≠ .inside := by
  cases h <;> simp

/-- The lock is held by the one thread that is past `flock`. -/
def LockFile.HeldBy {T : Type} (f : LockFile T) (locked : T → Prop) : Prop :=
  ∀ t, f.holder = some t ↔ locked t

namespace LockFile.HeldBy

variable {T : Type} {f f' : LockFile T} {locked locked' : T → Prop} {t : T}

theorem unique (h : f.HeldBy locked) {u : T} (ht : locked t) (hu : locked u) : t = u :=
  Option.some.inj (((h t).mpr ht).symm.trans ((h u).mpr hu))

theorem step (h : f.HeldBy locked) {pc pc' : PathLockPc} (hs : PathLockStep t (pc, f) (pc', f'))
    (hpc : locked t ↔ pc.Locked) (hpc' : locked' t ↔ pc'.Locked)
    (hother : ∀ u, u ≠ t → (locked' u ↔ locked u)) : f'.HeldBy locked' := by
  intro u
  rcases hs.holder with ⟨hf, hl⟩ | ⟨hf, hf', hl⟩
  · rw [hf, h u]
    by_cases hu : u = t
    · rw [hu, hpc, hpc', hl]
    · exact (hother u hu).symm
  · by_cases hu : u = t
    · simp [hu, hf', hpc', hl]
    · rw [hother u hu, ← h u, hf, hf']
      simp [Ne.symm hu]

/-- Who has the lock gives it back. -/
theorem unlock (h : f.HeldBy locked) (ht : locked t) (ht' : ¬ locked' t)
    (hother : ∀ u, u ≠ t → (locked' u ↔ locked u)) :
    ({ f with holder := none } : LockFile T).HeldBy locked' := by
  intro u
  by_cases hu : u = t
  · simp [hu, ht']
  · have : ¬ locked u := fun hl => hu (h.unique hl ht)
    simp [hother u hu, this]

theorem congr (h : f.HeldBy locked) (hl : ∀ u, locked' u ↔ locked u) : f.HeldBy locked' :=
  fun u => (h u).trans (hl u).symm

end LockFile.HeldBy

/-! ## The lock of one path -/

/-- `none` for a thread that is not in the lock's code or its body. -/
structure PathLock (T : Type) where
  file : LockFile T
  pc : T → Option PathLockPc

namespace PathLock

variable {T : Type}

def Locked (s : PathLock T) (t : T) : Prop := ∃ pc, s.pc t = some pc ∧ pc.Locked

def Sound (s : PathLock T) : Prop := s.file.HeldBy s.Locked

theorem locked_of_inside {s : PathLock T} {t : T} (h : s.pc t = some .inside) : s.Locked t :=
  ⟨.inside, h, .inr rfl⟩

variable [DecidableEq T]

def setPc (s : PathLock T) (t : T) (pc : Option PathLockPc) : PathLock T :=
  { s with pc := Function.update s.pc t pc }

@[simp] theorem setPc_same (s : PathLock T) (t : T) (pc : Option PathLockPc) :
    (s.setPc t pc).pc t = pc := Function.update_self ..
theorem setPc_other (s : PathLock T) {t u : T} (pc : Option PathLockPc) (h : u ≠ t) :
    (s.setPc t pc).pc u = s.pc u := Function.update_of_ne h ..

theorem locked_setPc {s : PathLock T} {t : T} {pc : PathLockPc} :
    (s.setPc t (some pc)).Locked t ↔ pc.Locked := by simp [Locked]

theorem locked_setPc_other {s : PathLock T} {t u : T} {pc : Option PathLockPc} (h : u ≠ t) :
    (s.setPc t pc).Locked u ↔ s.Locked u := by simp [Locked, setPc_other s pc h]

/-- A thread goes on in the lock's code. -/
inductive Advance (t : T) (s : PathLock T) : PathLock T → Prop where
  | step {pc pc' : PathLockPc} {file : LockFile T} (hpc : s.pc t = some pc)
      (h : PathLockStep t (pc, s.file) (pc', file)) :
      Advance t s ({ s with file }.setPc t (some pc'))
  | close (hpc : s.pc t = some .close) : Advance t s (s.setPc t none)

inductive Release (t : T) (s : PathLock T) : PathLock T → Prop where
  | unlock (hpc : s.pc t = some .inside) :
      Release t s ({ s with file.holder := none }.setPc t (some .close))

theorem Sound.keep {s : PathLock T} (h : s.Sound) {t : T} {pc : Option PathLockPc}
    (ht : ¬ s.Locked t) (hpc : ∀ p, pc = some p → ¬ p.Locked) : (s.setPc t pc).Sound := by
  refine h.congr ?_
  intro u
  by_cases hu : u = t
  · subst hu
    refine iff_of_false ?_ ht
    intro hlocked
    obtain ⟨p, hp, hl⟩ := hlocked
    rw [setPc_same] at hp
    exact hpc p hp hl
  · exact locked_setPc_other hu

theorem Sound.advance {s s' : PathLock T} {t : T} (h : s.Sound) (hs : Advance t s s') :
    s'.Sound := by
  cases hs with
  | step hpc hstep =>
    exact h.step hstep (by simp [Locked, hpc]) locked_setPc fun u hu => locked_setPc_other hu
  | close hpc => exact h.keep (by simp [Locked, hpc, PathLockPc.Locked]) (by simp)

theorem Sound.release {s s' : PathLock T} {t : T} (h : s.Sound) (hs : Release t s s') :
    s'.Sound := by
  cases hs with
  | unlock hpc =>
    exact h.unlock (locked_of_inside hpc) (by simp [locked_setPc, PathLockPc.Locked])
      fun u hu => locked_setPc_other hu

theorem inside_advance {s s' : PathLock T} {t u : T} (hs : Advance t s s')
    (hu : s.pc u = some .inside) : s'.pc u = some .inside := by
  cases hs with
  | step hpc hstep =>
    rw [setPc_other _ _ fun hut => ?_]
    · exact hu
    · rw [← hut, hu] at hpc
      exact hstep.not_inside (Option.some.inj hpc).symm
  | close hpc =>
    rw [setPc_other _ _ fun hut => ?_]
    · exact hu
    · rw [← hut, hu] at hpc
      cases hpc

end PathLock

/-- **`exclusive_path_lock` is a lock** for any number of processes and threads. -/
def exclusivePathLock (T : Type) [DecidableEq T] : Mutex T where
  State := PathLock T
  request t s s' := s' = s.setPc t (some .createExclusive)
  advance := PathLock.Advance
  release := PathLock.Release
  holds s t := s.pc t = some .inside
  idle s t := s.pc t = none
  Sound := PathLock.Sound
  sound_request := by
    intro t s s' h hidle hs
    subst hs
    exact h.keep (by simp [PathLock.Locked, hidle]) (by simp [PathLockPc.Locked])
  sound_advance := PathLock.Sound.advance
  sound_release := PathLock.Sound.release
  exclusive h ht hu := h.unique (PathLock.locked_of_inside ht) (PathLock.locked_of_inside hu)
  holds_request := by
    intro t s s' u _ hidle hs hu
    subst hs
    rwa [PathLock.setPc_other]
    rintro rfl
    rw [hidle] at hu
    cases hu
  holds_advance := fun _ => PathLock.inside_advance
  holds_release := by
    intro t s s' u _ hrel hut hu
    obtain ⟨hpc⟩ := hrel
    rwa [PathLock.setPc_other _ _ hut]

end SchedulingUtil
