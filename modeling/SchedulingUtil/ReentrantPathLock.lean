import SchedulingUtil.ExclusivePathLock

/-! # `reentrant_exclusive_path_lock`

The registry of each process, the objects in it with their `RLock`, and the
context managers that each thread has entered, the innermost first. The blocks under
the registry's guard are one step each. -/
namespace SchedulingUtil

/-- `held t n`: acquired by `t`, and `n` times again. -/
inductive RLock (T : Type) where
  | free
  | held (t : T) (n : Nat)

namespace RLock

variable {T : Type} [DecidableEq T]

/-- Nothing while another thread has it. -/
def acquire (t : T) : RLock T → Option (RLock T)
  | .free => some (.held t 0)
  | .held u n => if u = t then some (.held u (n + 1)) else none

/-- Nothing for a thread that does not have it. -/
def release (t : T) : RLock T → Option (RLock T)
  | .free => none
  | .held u 0 => if u = t then some .free else none
  | .held u (n + 1) => if u = t then some (.held u n) else none

end RLock

/-- `_ReentrantPathLockState`. -/
structure ReentrantPathLockState (T : Type) where
  lock : RLock T := .free
  depth : Nat := 0
  refCount : Nat := 0

/-- Where a thread is in `reentrant_exclusive_path_lock`. At `file .inside` and at
`nested` the body of the `with` runs. -/
inductive LockStage where
  | acquire
  | test
  | file (pc : PathLockPc)
  | nested
  | reset
  | release
  | drop
  deriving DecidableEq

/-- One context manager: its normalized path and the state object it has got. -/
structure LockFrame (K : Type) where
  key : K
  obj : Nat
  stage : LockStage

structure ReentrantLocks (P T K : Type) where
  registry : P → K → Option Nat
  objects : Nat → ReentrantPathLockState T
  next : Nat
  files : K → LockFile T
  frames : T → List (LockFrame K)

namespace LockStage

def inside : LockStage → Bool
  | .file .inside | .nested => true
  | _ => false

/-- Between `lock.acquire()` and `lock.release()`. -/
def owns : LockStage → Bool
  | .acquire | .drop => false
  | _ => true

/-- Counted in `depth`. -/
def deep : LockStage → Bool
  | .file _ | .nested | .reset => true
  | _ => false

/-- Has the `flock`. -/
def flocked : LockStage → Bool
  | .file .utime | .file .inside => true
  | _ => false

/-- On the way out. -/
def exiting : LockStage → Bool
  | .file .close | .reset | .release | .drop => true
  | _ => false

end LockStage

namespace ReentrantLocks

variable {P T K : Type} [DecidableEq P] [DecidableEq T] [DecidableEq K] (proc : T → P)

/-- `_get_reentrant_path_lock_state`: the object of the path, created if there is none. -/
def getState (s : ReentrantLocks P T K) (p : P) (k : K) : Nat × ReentrantLocks P T K :=
  match s.registry p k with
  | some o =>
    (o, { s with
      objects := Function.update s.objects o
        { s.objects o with refCount := (s.objects o).refCount + 1 } })
  | none =>
    (s.next, { s with
      registry := Function.update s.registry p (Function.update (s.registry p) k (some s.next))
      objects := Function.update s.objects s.next { refCount := 1 }
      next := s.next + 1 })

/-- `_release_reentrant_path_lock_state`. -/
def releaseState (s : ReentrantLocks P T K) (p : P) (k : K) (o : Nat) : ReentrantLocks P T K :=
  let refCount := (s.objects o).refCount - 1
  { s with
    registry := if refCount = 0 then Function.update s.registry p
      (Function.update (s.registry p) k none) else s.registry
    objects := Function.update s.objects o { s.objects o with refCount } }

/-- A thread calls the context manager. -/
def enter (s : ReentrantLocks P T K) (t : T) (k : K) : ReentrantLocks P T K :=
  let got := s.getState (proc t) k
  { got.2 with frames := Function.update s.frames t (⟨k, got.1, .acquire⟩ :: s.frames t) }

/-- The innermost context manager `f` of a thread goes on to the stage `stage`. -/
def move (s : ReentrantLocks P T K) (t : T) (f : LockFrame K) (rest : List (LockFrame K))
    (stage : LockStage) (obj : ReentrantPathLockState T) (file : LockFile T) :
    ReentrantLocks P T K :=
  { s with
    objects := Function.update s.objects f.obj obj
    files := Function.update s.files f.key file
    frames := Function.update s.frames t ({ f with stage } :: rest) }

/-- The steps of a thread in the lock's own code. -/
inductive Advance (t : T) (s : ReentrantLocks P T K) : ReentrantLocks P T K → Prop where
  | acquire {f : LockFrame K} {rest : List (LockFrame K)} {lock : RLock T}
      (hf : s.frames t = f :: rest) (hs : f.stage = .acquire)
      (hl : (s.objects f.obj).lock.acquire t = some lock) :
      Advance t s (s.move t f rest .test { s.objects f.obj with lock } (s.files f.key))
  | nested {f : LockFrame K} {rest : List (LockFrame K)}
      (hf : s.frames t = f :: rest) (hs : f.stage = .test) (hd : 0 < (s.objects f.obj).depth) :
      Advance t s (s.move t f rest .nested
        { s.objects f.obj with depth := (s.objects f.obj).depth + 1 } (s.files f.key))
  | outermost {f : LockFrame K} {rest : List (LockFrame K)}
      (hf : s.frames t = f :: rest) (hs : f.stage = .test) (hd : ¬ 0 < (s.objects f.obj).depth) :
      Advance t s (s.move t f rest (.file .createExclusive)
        { s.objects f.obj with depth := 1 } (s.files f.key))
  | file {f : LockFrame K} {rest : List (LockFrame K)} {pc pc' : PathLockPc} {file : LockFile T}
      (hf : s.frames t = f :: rest) (hs : f.stage = .file pc)
      (h : PathLockStep t (pc, s.files f.key) (pc', file)) :
      Advance t s (s.move t f rest (.file pc') (s.objects f.obj) file)
  | closed {f : LockFrame K} {rest : List (LockFrame K)}
      (hf : s.frames t = f :: rest) (hs : f.stage = .file .close) :
      Advance t s (s.move t f rest .reset (s.objects f.obj) (s.files f.key))
  | reset {f : LockFrame K} {rest : List (LockFrame K)}
      (hf : s.frames t = f :: rest) (hs : f.stage = .reset) :
      Advance t s (s.move t f rest .release { s.objects f.obj with depth := 0 } (s.files f.key))
  | release {f : LockFrame K} {rest : List (LockFrame K)} {lock : RLock T}
      (hf : s.frames t = f :: rest) (hs : f.stage = .release)
      (hl : (s.objects f.obj).lock.release t = some lock) :
      Advance t s (s.move t f rest .drop { s.objects f.obj with lock } (s.files f.key))
  | drop {f : LockFrame K} {rest : List (LockFrame K)}
      (hf : s.frames t = f :: rest) (hs : f.stage = .drop) :
      Advance t s { s.releaseState (proc t) f.key f.obj with
        frames := Function.update s.frames t rest }

/-- The body of the innermost `with` ends. -/
inductive Leave (t : T) (k : K) (s : ReentrantLocks P T K) : ReentrantLocks P T K → Prop where
  | outermost {f : LockFrame K} {rest : List (LockFrame K)} (hf : s.frames t = f :: rest)
      (hk : f.key = k) (hs : f.stage = .file .inside) :
      Leave t k s (s.move t f rest (.file .close) (s.objects f.obj)
        { s.files f.key with holder := none })
  | nested {f : LockFrame K} {rest : List (LockFrame K)} (hf : s.frames t = f :: rest)
      (hk : f.key = k) (hs : f.stage = .nested) :
      Leave t k s (s.move t f rest .release
        { s.objects f.obj with depth := (s.objects f.obj).depth - 1 } (s.files f.key))

/-- `exclusive_path_lock` raises before the body runs; its file is closed, and with it goes
the `flock`. -/
inductive Fail (t : T) (s : ReentrantLocks P T K) : ReentrantLocks P T K → Prop where
  | opening {f : LockFrame K} {rest : List (LockFrame K)} {pc : PathLockPc}
      (hf : s.frames t = f :: rest) (hs : f.stage = .file pc)
      (hpc : pc = .createExclusive ∨ pc = .openExisting ∨ ∃ created, pc = .flock created) :
      Fail t s (s.move t f rest .reset (s.objects f.obj) (s.files f.key))
  | utime {f : LockFrame K} {rest : List (LockFrame K)}
      (hf : s.frames t = f :: rest) (hs : f.stage = .file .utime) :
      Fail t s (s.move t f rest .reset (s.objects f.obj) { s.files f.key with holder := none })

/-- No context manager has been entered yet. -/
def unlocked (mtime : K → Option Int) : ReentrantLocks P T K :=
  ⟨fun _ _ => none, fun _ => {}, 0, fun k => ⟨mtime k, none⟩, fun _ => []⟩

end ReentrantLocks

/-! ## Runs -/

/-- How a body ends. The `finally` blocks do the same for both. -/
inductive BodyExit where
  | returned
  | raised

inductive LockEvent (T Q : Type) where
  | enter (t : T) (path : Q)
  | advance (t : T)
  | fail (t : T)
  | leave (t : T) (how : BodyExit)

/-- One step of one thread. A thread enters a context manager from outside of all of them or
from the body of the innermost. What `exclusive_path_lock` locks is the file at the path, which
is the one at the normalized path. -/
inductive LockStep {P T K Q : Type} [DecidableEq P] [DecidableEq T] [DecidableEq K]
    (proc : T → P) (normalizedLockPath : Q → K) :
    ReentrantLocks P T K → LockEvent T Q → ReentrantLocks P T K → Prop where
  | enter {s : ReentrantLocks P T K} {t : T} {path : Q}
      (hin : ∀ f ∈ (s.frames t).head?, f.stage.inside = true) :
      LockStep proc normalizedLockPath s (.enter t path)
        (s.enter proc t (normalizedLockPath path))
  | advance {s s' : ReentrantLocks P T K} {t : T} (h : ReentrantLocks.Advance proc t s s') :
      LockStep proc normalizedLockPath s (.advance t) s'
  | fail {s s' : ReentrantLocks P T K} {t : T} (h : ReentrantLocks.Fail t s s') :
      LockStep proc normalizedLockPath s (.fail t) s'
  | leave {s s' : ReentrantLocks P T K} {t : T} {k : K} {how : BodyExit}
      (h : ReentrantLocks.Leave t k s s') :
      LockStep proc normalizedLockPath s (.leave t how) s'

end SchedulingUtil
