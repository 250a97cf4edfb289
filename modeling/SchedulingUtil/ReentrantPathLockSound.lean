import Mathlib.Algebra.BigOperators.Group.Finset.Piecewise
import Mathlib.Algebra.Order.BigOperators.Group.Finset
import Mathlib.Data.Fintype.BigOperators
import SchedulingUtil.ReentrantPathLock

/-! # The re-entrant lock is a lock

The fields of the state objects count context managers: `ref_count` all of
them, the level of the `RLock` and `depth` those of the one thread that has it. From this
follows that a thread only skips the file lock if it has taken it further out. -/
namespace SchedulingUtil
open Lib

namespace RLock

variable {T : Type} [DecidableEq T] {t u : T} {l l' : RLock T}

/-- How often the thread has acquired it. -/
def level (t : T) : RLock T → Nat
  | .free => 0
  | .held u n => if u = t then n + 1 else 0

theorem level_acquire (h : l.acquire t = some l') :
    l'.level u = l.level u + if u = t then 1 else 0 := by
  cases l with
  | free =>
    cases h
    simp [level, eq_comm]
  | held v n =>
    simp only [acquire, Option.ite_none_right_eq_some, Option.some.injEq] at h
    obtain ⟨rfl, rfl⟩ := h
    by_cases hu : v = u
    · simp [level, hu]
    · simp [level, hu, Ne.symm hu]

theorem level_release (h : l.release t = some l') :
    l'.level u + (if u = t then 1 else 0) = l.level u := by
  cases l with
  | free => cases h
  | held v n =>
    cases n <;> simp only [release, Option.ite_none_right_eq_some, Option.some.injEq] at h <;>
      obtain ⟨rfl, rfl⟩ := h
    · simp [level, eq_comm]
    · by_cases hu : v = u
      · simp [level, hu]
      · simp [level, hu, Ne.symm hu]

theorem level_unique (ht : 0 < l.level t) (hu : 0 < l.level u) : t = u := by
  cases l with
  | free => simp [level] at ht
  | held v n =>
    simp only [level] at ht hu
    split at ht
    · split at hu
      · exact (‹v = t›).symm.trans ‹v = u›
      · omega
    · omega

theorem acquire_of_level (h : 0 < l.level t) : ∃ l', l.acquire t = some l' := by
  cases l with
  | free => exact ⟨.held t 0, rfl⟩
  | held u n =>
    have hu : u = t := by
      by_contra hu
      simp [level, hu] at h
    exact ⟨.held u (n + 1), by simp [acquire, hu]⟩

theorem release_of_level (h : 0 < l.level t) : ∃ l', l.release t = some l' := by
  cases l with
  | free => simp [level] at h
  | held u n =>
    have hu : u = t := by
      by_contra hu
      simp [level, hu] at h
    cases n with
    | zero => exact ⟨.free, by simp [release, hu]⟩
    | succ n => exact ⟨.held u n, by simp [release, hu]⟩

end RLock

/-! ## The context managers of a thread -/

namespace LockFrame

variable {K : Type}

/-- How many of them have the object `o` and are at a stage of `p`. -/
def counted (p : LockStage → Bool) (fs : List (LockFrame K)) (o : Nat) : Nat :=
  fs.countP fun f => f.obj == o && p f.stage

theorem counted_cons (p : LockStage → Bool) (f : LockFrame K) (fs : List (LockFrame K)) (o : Nat) :
    counted p (f :: fs) o = counted p fs o + if f.obj = o then (p f.stage).toNat else 0 := by
  rw [counted, counted, List.countP_cons]
  by_cases h : f.obj = o <;> cases hp : p f.stage <;> simp [h]

theorem counted_pos {p : LockStage → Bool} {fs : List (LockFrame K)} {o : Nat} :
    0 < counted p fs o ↔ ∃ f ∈ fs, f.obj = o ∧ p f.stage = true := by
  rw [counted, List.countP_pos_iff]
  simp

theorem counted_le {p q : LockStage → Bool} (h : ∀ s, p s = true → q s = true)
    (fs : List (LockFrame K)) (o : Nat) : counted p fs o ≤ counted q fs o := by
  refine List.countP_mono_left ?_
  intro f _ hf
  simp only [Bool.and_eq_true] at hf ⊢
  exact ⟨hf.1, h _ hf.2⟩

/-- What the stage of a context manager says of those further out. -/
def PlacedOn (f : LockFrame K) (rest : List (LockFrame K)) : Prop :=
  match f.stage with
  | .file _ | .reset => ∀ g ∈ rest, g.obj ≠ f.obj
  | .nested => ∃ g ∈ rest, g.obj = f.obj ∧ g.stage = .file .inside
  | _ => True

/-- All but the innermost run their bodies. -/
def Stacked : List (LockFrame K) → Prop
  | [] => True
  | f :: rest => (∀ g ∈ rest, g.stage.inside = true) ∧ f.PlacedOn rest ∧ Stacked rest

/-- Who is inside has the file lock, or has taken it further out. -/
theorem Stacked.outermost {fs : List (LockFrame K)} (h : Stacked fs) {f : LockFrame K}
    (hf : f ∈ fs) (hin : f.stage.inside = true) :
    ∃ g ∈ fs, g.obj = f.obj ∧ g.stage = .file .inside := by
  induction fs with
  | nil => cases hf
  | cons g rest ih =>
    obtain ⟨-, hplaced, hrest⟩ := h
    rcases List.mem_cons.mp hf with rfl | hf
    · cases hs : f.stage with
      | file pc =>
        cases pc with
        | inside => exact ⟨f, .head _, rfl, hs⟩
        | _ => simp [hs, LockStage.inside] at hin
      | nested =>
        simp only [PlacedOn, hs] at hplaced
        obtain ⟨g, hg, hobj⟩ := hplaced
        exact ⟨g, .tail _ hg, hobj⟩
      | _ => simp [hs, LockStage.inside] at hin
    · obtain ⟨g', hg', hobj⟩ := ih hrest hf
      exact ⟨g', .tail _ hg', hobj⟩

end LockFrame

open LockFrame

theorem LockStage.owns_of_deep {s : LockStage} (h : s.deep = true) : s.owns = true := by
  cases s <;> simp_all [deep, owns]

theorem LockStage.deep_of_inside {s : LockStage} (h : s.inside = true) : s.deep = true := by
  cases s <;> simp_all [deep, inside]

theorem LockStage.flocked_file (pc : PathLockPc) :
    (LockStage.file pc).flocked = true ↔ pc.Locked := by
  cases pc <;> simp [flocked, PathLockPc.Locked]

theorem LockStage.inside_iff {s : LockStage} :
    s.inside = true ↔ s = .file .inside ∨ s = .nested := by
  cases s with
  | file pc => cases pc <;> simp [inside]
  | _ => simp [inside]

theorem LockStage.exiting_of_inside {s : LockStage} (h : s.inside = true) :
    s.exiting = false := by
  rcases inside_iff.mp h with rfl | rfl <;> rfl

/-- The steps before the body are not on the way out. -/
theorem PathLockStep.exiting {T : Type} {t : T} {pc pc' : PathLockPc} {f f' : LockFile T}
    (h : PathLockStep t (pc, f) (pc', f')) :
    (LockStage.file pc').exiting = (LockStage.file pc).exiting := by
  cases h with
  | @flock created => cases created <;> rfl
  | _ => rfl

theorem LockStage.owns_of_flocked {s : LockStage} (h : s.flocked = true) : s.owns = true := by
  cases s <;> simp_all [flocked, owns]

/-! ## The invariant -/

namespace ReentrantLocks

variable {P T K : Type} [DecidableEq T] [DecidableEq K] {proc : T → P}
  {s s' : ReentrantLocks P T K} {t : T} {k : K} {f : LockFrame K} {rest : List (LockFrame K)}

def Flocked (s : ReentrantLocks P T K) (k : K) (t : T) : Prop :=
  ∃ f ∈ s.frames t, f.key = k ∧ f.stage.flocked = true

/-- The registry: the context managers for one path in one process share one
object, which is there as long as there is one of them. -/
structure Registered [Fintype T] (proc : T → P) (s : ReentrantLocks P T K) : Prop where
  registered : ∀ t, ∀ f ∈ s.frames t, s.registry (proc t) f.key = some f.obj
  known : ∀ p k o, s.registry p k = some o → o < s.next
  injective : ∀ p k p' k' o, s.registry p k = some o → s.registry p' k' = some o → p = p' ∧ k = k'
  active : ∀ p k o, s.registry p k = some o → 0 < (s.objects o).refCount
  refCount : ∀ o, (s.objects o).refCount = ∑ t, counted (fun _ => true) (s.frames t) o

/-- The locks: what the fields of an object say of the context managers that have it. -/
structure Held [Fintype T] (s : ReentrantLocks P T K) : Prop where
  stacked : ∀ t, Stacked (s.frames t)
  level : ∀ o t, (s.objects o).lock.level t = counted LockStage.owns (s.frames t) o
  depth : ∀ o, (s.objects o).depth = ∑ t, counted LockStage.deep (s.frames t) o
  flocked : ∀ k, (s.files k).HeldBy (s.Flocked k)

structure Sound [Fintype T] (proc : T → P) (s : ReentrantLocks P T K) : Prop
    extends Registered proc s, Held s

omit [DecidableEq K] in
theorem sum_update [Fintype T] (F : List (LockFrame K) → Nat) (g : T → List (LockFrame K)) (t : T)
    (fs : List (LockFrame K)) :
    ∑ u, F (Function.update g t fs u) + F (g t) = ∑ u, F (g u) + F fs := by
  have hcomp : (fun u => F (Function.update g t fs u)) =
      Function.update (fun u => F (g u)) t (F fs) := by
    funext u
    by_cases hu : u = t
    · subst hu
      simp
    · simp [hu]
  rw [hcomp, Finset.sum_update_of_mem (Finset.mem_univ t),
    Finset.sum_eq_add_sum_sdiff_singleton_of_mem (Finset.mem_univ t) fun u => F (g u)]
  omega

/-! ## Moving on -/

section Move
variable (s) (t) (f) (rest) {stage : LockStage} {obj : ReentrantPathLockState T} {file : LockFile T}

@[simp] theorem move_frames (stage : LockStage) (obj : ReentrantPathLockState T)
    (file : LockFile T) : (s.move t f rest stage obj file).frames =
      Function.update s.frames t ({ f with stage } :: rest) := rfl
@[simp] theorem move_object (stage : LockStage) (obj : ReentrantPathLockState T)
    (file : LockFile T) : (s.move t f rest stage obj file).objects f.obj = obj := by simp [move]
@[simp] theorem move_file (stage : LockStage) (obj : ReentrantPathLockState T)
    (file : LockFile T) : (s.move t f rest stage obj file).files f.key = file := by simp [move]

end Move

section Preserved
variable {stage : LockStage} {obj : ReentrantPathLockState T} {file : LockFile T}

variable (stage obj file) in
/-- The counts of a thread whose innermost context manager moves on. -/
theorem counted_move (hf : s.frames t = f :: rest) (p : LockStage → Bool) (u : T) (o : Nat) :
    counted p ((s.move t f rest stage obj file).frames u) o +
        (if u = t ∧ f.obj = o then (p f.stage).toNat else 0) =
      counted p (s.frames u) o + if u = t ∧ f.obj = o then (p stage).toNat else 0 := by
  by_cases hu : u = t
  · subst hu
    rw [move_frames, Function.update_self, hf, counted_cons, counted_cons]
    by_cases ho : f.obj = o <;> simp [ho]
    omega
  · simp [hu]

variable (stage obj file) in
theorem sum_move [Fintype T] (hf : s.frames t = f :: rest) (p : LockStage → Bool) (o : Nat) :
    ∑ u, counted p ((s.move t f rest stage obj file).frames u) o +
        (if f.obj = o then (p f.stage).toNat else 0) =
      ∑ u, counted p (s.frames u) o + if f.obj = o then (p stage).toNat else 0 := by
  have h := sum_update (fun fs => counted p fs o) s.frames t ({ f with stage } :: rest)
  rw [← move_frames s t f rest stage obj file, hf, counted_cons,
    counted_cons] at h
  dsimp only at h
  omega

theorem flocked_move {k : K} {u : T} :
    (s.move t f rest stage obj file).Flocked k u ↔
      if u = t then
        f.key = k ∧ stage.flocked = true ∨ ∃ g ∈ rest, g.key = k ∧ g.stage.flocked = true
      else s.Flocked k u := by
  by_cases hu : u = t
  · subst hu
    simp [Flocked]
  · simp [Flocked, hu]

omit [DecidableEq T] [DecidableEq K] in
theorem flocked_of_frames (hf : s.frames t = f :: rest) :
    s.Flocked k t ↔
      f.key = k ∧ f.stage.flocked = true ∨ ∃ g ∈ rest, g.key = k ∧ g.stage.flocked = true := by
  simp [Flocked, hf]

variable [Fintype T]

theorem Registered.move (h : s.Registered proc) (hf : s.frames t = f :: rest)
    (href : obj.refCount = (s.objects f.obj).refCount) :
    (s.move t f rest stage obj file).Registered proc where
  registered u g hg := by
    by_cases hu : u = t
    · rw [hu, move_frames, Function.update_self] at hg
      rw [hu]
      rcases List.mem_cons.mp hg with rfl | hg
      · exact h.registered t f (by rw [hf]; exact .head _)
      · exact h.registered t g (by rw [hf]; exact .tail _ hg)
    · rw [move_frames, Function.update_of_ne hu] at hg
      exact h.registered u g hg
  known := h.known
  injective := h.injective
  active p k o ho := by
    by_cases hobj : o = f.obj
    · rw [hobj, move_object, href]
      exact h.active p k f.obj (hobj ▸ ho)
    · simpa [ReentrantLocks.move, hobj] using h.active p k o ho
  refCount o := by
    have hsum := sum_move stage obj file hf (fun _ => true) o
    rw [← h.refCount o] at hsum
    by_cases hobj : o = f.obj
    · rw [hobj, move_object, href, ← hobj]
      omega
    · simp only [ReentrantLocks.move, ne_eq, hobj, not_false_eq_true, Function.update_of_ne]
        at hsum ⊢
      omega

theorem Held.move (h : s.Held) (hf : s.frames t = f :: rest)
    (hplaced : ({ f with stage } : LockFrame K).PlacedOn rest)
    (hlevel : ∀ u, obj.lock.level u + (if u = t then f.stage.owns.toNat else 0) =
      (s.objects f.obj).lock.level u + if u = t then stage.owns.toNat else 0)
    (hdepth : obj.depth + f.stage.deep.toNat = (s.objects f.obj).depth + stage.deep.toNat)
    (hfile : file.HeldBy ((s.move t f rest stage obj file).Flocked f.key)) :
    (s.move t f rest stage obj file).Held where
  stacked u := by
    by_cases hu : u = t
    · rw [hu, move_frames, Function.update_self]
      have hstacked := h.stacked t
      rw [hf] at hstacked
      exact ⟨hstacked.1, hplaced, hstacked.2.2⟩
    · rw [move_frames, Function.update_of_ne hu]
      exact h.stacked u
  level o u := by
    have hcount := counted_move stage obj file hf LockStage.owns u o
    rw [← h.level o u] at hcount
    by_cases hobj : o = f.obj
    · subst hobj
      have := hlevel u
      rw [move_object]
      simp only [and_true] at hcount
      omega
    · simp only [ReentrantLocks.move, ne_eq, hobj, not_false_eq_true, Function.update_of_ne,
        Ne.symm hobj, and_false, if_false, Nat.add_zero] at hcount ⊢
      exact hcount.symm
  depth o := by
    have hsum := sum_move stage obj file hf LockStage.deep o
    rw [← h.depth o] at hsum
    by_cases hobj : o = f.obj
    · subst hobj
      rw [move_object]
      simp only [if_true] at hsum
      omega
    · simp only [ReentrantLocks.move, ne_eq, hobj, not_false_eq_true, Function.update_of_ne,
        Ne.symm hobj, if_false, Nat.add_zero] at hsum ⊢
      exact hsum.symm
  flocked k := by
    by_cases hk : k = f.key
    · rw [hk, move_file]
      exact hfile
    · have hsame : (s.move t f rest stage obj file).files k = s.files k := by
        simp [ReentrantLocks.move, hk]
      rw [hsame]
      refine (h.flocked k).congr ?_
      intro u
      rw [flocked_move]
      split
      · rename_i hu
        rw [hu, flocked_of_frames hf]
        simp [Ne.symm hk]
      · rfl

namespace Sound

variable (h : s.Sound proc) (hf : s.frames t = f :: rest)
include h hf

/-- **The innermost context manager moves on.** -/
theorem move (hplaced : ({ f with stage } : LockFrame K).PlacedOn rest)
    (href : obj.refCount = (s.objects f.obj).refCount)
    (hlevel : ∀ u, obj.lock.level u + (if u = t then f.stage.owns.toNat else 0) =
      (s.objects f.obj).lock.level u + if u = t then stage.owns.toNat else 0)
    (hdepth : obj.depth + f.stage.deep.toNat = (s.objects f.obj).depth + stage.deep.toNat)
    (hfile : file.HeldBy ((s.move t f rest stage obj file).Flocked f.key)) :
    (s.move t f rest stage obj file).Sound proc :=
  ⟨h.toRegistered.move hf href, h.toHeld.move hf hplaced hlevel hdepth hfile⟩

/-- A step that neither takes nor gives back the `flock`. -/
theorem keeps_flock (hs : stage.flocked = f.stage.flocked) :
    (s.files f.key).HeldBy ((s.move t f rest stage obj (s.files f.key)).Flocked f.key) := by
  refine (h.flocked f.key).congr ?_
  intro u
  rw [flocked_move]
  split
  · rename_i hu
    rw [hu, flocked_of_frames hf, hs]
  · rfl

omit [DecidableEq K] in
theorem stacked_cons : Stacked (f :: rest) := hf ▸ h.stacked t

omit [DecidableEq K] in
/-- In the file lock's code and behind it, no other context manager of the thread has the object. -/
theorem alone (hs : (∃ pc, f.stage = .file pc) ∨ f.stage = .reset) : ∀ g ∈ rest, g.obj ≠ f.obj := by
  obtain ⟨-, hplaced, -⟩ := h.stacked_cons hf
  rcases hs with ⟨pc, hs⟩ | hs <;> simpa only [PlacedOn, hs] using hplaced

/-! ### One step of the lock's code -/

omit [DecidableEq K] in
/-- Only the thread that has the `RLock` counts in `depth`. -/
theorem depth_eq (hown : f.stage.owns = true) :
    (s.objects f.obj).depth = counted LockStage.deep (s.frames t) f.obj := by
  rw [h.depth, Finset.sum_eq_single t]
  · intro u _ hu
    by_contra hpos
    refine hu (RLock.level_unique (l := (s.objects f.obj).lock) ?_ ?_)
    · rw [h.level]
      exact (Nat.pos_of_ne_zero hpos).trans_le (counted_le (fun _ => LockStage.owns_of_deep) _ _)
    · rw [h.level, counted_pos, hf]
      exact ⟨f, .head _, rfl, hown⟩
  · simp

omit [DecidableEq K] in
/-- At the test `depth` counts the context managers further out. -/
theorem depth_test (hs : f.stage = .test) :
    (s.objects f.obj).depth = counted LockStage.deep rest f.obj := by
  rw [h.depth_eq hf (by rw [hs]; rfl), hf, counted_cons, hs]
  simp [LockStage.deep]

omit [DecidableEq K] in
theorem file_alone {pc : PathLockPc} (hs : f.stage = .file pc) :
    ¬ ∃ g ∈ rest, g.key = f.key ∧ g.stage.flocked = true := by
  intro hother
  obtain ⟨g, hg, hk, -⟩ := hother
  have hreg := h.registered t f (by rw [hf]; exact .head _)
  rw [← hk, h.registered t g (by rw [hf]; exact .tail _ hg)] at hreg
  exact h.alone hf (.inl ⟨pc, hs⟩) g hg (Option.some.inj hreg)

end Sound

end Preserved

/-! ## Coming and going -/

section Exchange
variable [Fintype T] {fs : List (LockFrame K)}

omit [DecidableEq K] in
/-- A context manager that has not acquired anything, or has given back everything,
comes or goes. -/
theorem Held.exchange (h : s.Held) (hframes : s'.frames = Function.update s.frames t fs)
    (hfs : fs = f :: s.frames t ∨ s.frames t = f :: fs) (hf : f.stage.owns = false)
    (hstacked : Stacked fs) (hfiles : s'.files = s.files)
    (hlevel : ∀ o u, (s'.objects o).lock.level u = (s.objects o).lock.level u)
    (hdepth : ∀ o, (s'.objects o).depth = (s.objects o).depth) : s'.Held := by
  have hcount (p : LockStage → Bool) (hp : ∀ st, p st = true → st.owns = true) (u : T) (o : Nat) :
      counted p (s'.frames u) o = counted p (s.frames u) o := by
    have hpf : p f.stage = false := by
      by_contra hne
      rw [Bool.not_eq_false] at hne
      rw [hp _ hne] at hf
      cases hf
    rw [hframes]
    by_cases hu : u = t
    · rw [hu, Function.update_self]
      rcases hfs with rfl | hfs
      · simp [counted_cons, hpf]
      · simp [hfs, counted_cons, hpf]
    · rw [Function.update_of_ne hu]
  have hflock (k : K) (u : T) : s'.Flocked k u ↔ s.Flocked k u := by
    have hff : f.stage.flocked = false := by
      by_contra hne
      rw [Bool.not_eq_false] at hne
      rw [LockStage.owns_of_flocked hne] at hf
      cases hf
    unfold Flocked
    rw [hframes]
    by_cases hu : u = t
    · rw [hu, Function.update_self]
      rcases hfs with rfl | hfs
      · simp [hff]
      · simp [hfs, hff]
    · rw [Function.update_of_ne hu]
  refine ⟨?_, ?_, ?_, ?_⟩
  · intro u
    rw [hframes]
    by_cases hu : u = t
    · rw [hu, Function.update_self]
      exact hstacked
    · rw [Function.update_of_ne hu]
      exact h.stacked u
  · intro o u
    rw [hlevel, h.level, hcount _ fun _ => id]
  · intro o
    rw [hdepth, h.depth]
    exact Finset.sum_congr rfl fun u _ => (hcount _ (fun _ => LockStage.owns_of_deep) u o).symm
  · intro k
    rw [hfiles]
    exact (h.flocked k).congr fun u => hflock k u

end Exchange

section Registry
variable [Fintype T]

omit [DecidableEq T] [DecidableEq K] in
theorem Registered.obj_lt (h : s.Registered proc) (hf : f ∈ s.frames t) : f.obj < s.next :=
  h.known _ _ _ (h.registered t f hf)

omit [DecidableEq T] [DecidableEq K] in
/-- Nobody has the object that comes next. -/
theorem Registered.fresh (h : s.Registered proc) (p : LockStage → Bool) (u : T) :
    counted p (s.frames u) s.next = 0 := by
  by_contra hpos
  obtain ⟨g, hg, hobj, -⟩ := counted_pos.mp (Nat.pos_of_ne_zero hpos)
  exact absurd (h.obj_lt hg) (by omega)

variable [DecidableEq P]

omit [Fintype T] in
/-- A table of tables with one entry set to `v`. -/
theorem update_entry {V : Type} (r : P → K → V) (p p' : P) (k k' : K) (v : V) :
    Function.update r p (Function.update (r p) k v) p' k' =
      if p' = p ∧ k' = k then v else r p' k' := by
  by_cases hp : p' = p
  · subst hp
    by_cases hk : k' = k <;> simp [hk]
  · simp [hp]

omit [Fintype T] in
theorem enter_found {o : Nat} (hr : s.registry (proc t) k = some o) :
    s.enter proc t k = { s with
      objects := Function.update s.objects o
        { s.objects o with refCount := (s.objects o).refCount + 1 }
      frames := Function.update s.frames t (⟨k, o, .acquire⟩ :: s.frames t) } := by
  simp [enter, getState, hr]

omit [Fintype T] in
theorem enter_created (hr : s.registry (proc t) k = none) :
    s.enter proc t k = { s with
      registry := Function.update s.registry (proc t)
        (Function.update (s.registry (proc t)) k (some s.next))
      objects := Function.update s.objects s.next { refCount := 1 }
      next := s.next + 1
      frames := Function.update s.frames t (⟨k, s.next, .acquire⟩ :: s.frames t) } := by
  simp [enter, getState, hr]

omit [DecidableEq K] [DecidableEq P] [Fintype T] in
/-- The context managers once `t` has entered another. -/
theorem mem_update_cons {g : LockFrame K} {u : T}
    (hg : g ∈ Function.update s.frames t (f :: s.frames t) u) :
    g = f ∧ u = t ∨ g ∈ s.frames u := by
  by_cases hu : u = t
  · subst hu
    rw [Function.update_self] at hg
    exact (List.mem_cons.mp hg).imp (fun h => ⟨h, rfl⟩) id
  · rw [Function.update_of_ne hu] at hg
    exact .inr hg

theorem Registered.found (h : s.Registered proc) {o : Nat}
    (hr : s.registry (proc t) k = some o) : (s.enter proc t k).Registered proc := by
  rw [enter_found hr]
  refine ⟨?_, h.known, h.injective, ?_, ?_⟩
  · intro u g hg
    rcases mem_update_cons hg with ⟨rfl, rfl⟩ | hg
    · exact hr
    · exact h.registered u g hg
  · intro p k' o' ho
    have hpos := h.active p k' o' ho
    by_cases hobj : o' = o
    · simp [hobj]
    · simpa [hobj] using hpos
  · intro o'
    have hsum := sum_update (fun fs => counted (fun _ => true) fs o') s.frames t
      (⟨k, o, .acquire⟩ :: s.frames t)
    rw [counted_cons, ← h.refCount o'] at hsum
    by_cases hobj : o' = o
    · subst hobj
      simp only [Function.update_self, if_true, Bool.toNat_true] at hsum ⊢
      omega
    · simp only [ne_eq, hobj, not_false_eq_true, Function.update_of_ne, Ne.symm hobj, if_false]
        at hsum ⊢
      omega

theorem Registered.created (h : s.Registered proc) (hr : s.registry (proc t) k = none) :
    (s.enter proc t k).Registered proc := by
  -- What is registered is not the new entry.
  have hold {p' : P} {k' : K} {o : Nat} (ho : s.registry p' k' = some o) :
      ¬ (p' = proc t ∧ k' = k) := by
    intro hpath
    obtain ⟨rfl, rfl⟩ := hpath
    rw [hr] at ho
    cases ho
  rw [enter_created hr]
  refine ⟨fun u g hg => ?_, fun p k' o ho => ?_, fun p k₁ p' k₂ o ho ho' => ?_,
    fun p k' o ho => ?_, fun o => ?_⟩
  · dsimp only
    rw [update_entry]
    rcases mem_update_cons hg with ⟨rfl, rfl⟩ | hg
    · simp
    · rw [if_neg (hold (h.registered u g hg))]
      exact h.registered u g hg
  · dsimp only at ho ⊢
    rw [update_entry] at ho
    split at ho
    · cases ho
      exact Nat.lt_succ_self _
    · exact (h.known p k' o ho).trans (Nat.lt_succ_self _)
  · dsimp only at ho ho'
    rw [update_entry] at ho ho'
    split at ho <;> split at ho'
    · rename_i hx hy
      exact ⟨hx.1.trans hy.1.symm, hx.2.trans hy.2.symm⟩
    · cases ho
      exact absurd (h.known _ _ _ ho') (lt_irrefl _)
    · cases ho'
      exact absurd (h.known _ _ _ ho) (lt_irrefl _)
    · exact h.injective _ _ _ _ o ho ho'
  · dsimp only at ho ⊢
    rw [update_entry] at ho
    split at ho
    · cases ho
      simp
    · have hne : o ≠ s.next := (h.known p k' o ho).ne
      simpa [hne] using h.active p k' o ho
  · have hsum := sum_update (fun fs => counted (fun _ => true) fs o) s.frames t
      (⟨k, s.next, .acquire⟩ :: s.frames t)
    rw [counted_cons, ← h.refCount o] at hsum
    by_cases hobj : o = s.next
    · have hzero : (s.objects s.next).refCount = 0 := by
        rw [h.refCount]
        exact Finset.sum_eq_zero fun u _ => h.fresh _ u
      subst hobj
      simp only [Function.update_self, if_true, Bool.toNat_true, hzero] at hsum ⊢
      omega
    · simp only [ne_eq, hobj, not_false_eq_true, Function.update_of_ne, Ne.symm hobj, if_false]
        at hsum ⊢
      omega

theorem Sound.enter (h : s.Sound proc) (hin : ∀ f ∈ s.frames t, f.stage.inside = true) (k : K) :
    (s.enter proc t k).Sound proc := by
  cases hr : s.registry (proc t) k with
  | some o =>
    refine ⟨h.found hr, ?_⟩
    rw [enter_found hr]
    refine h.exchange rfl (.inl rfl) rfl ⟨hin, trivial, h.stacked t⟩ rfl (fun o' u => ?_)
      fun o' => ?_
    · by_cases hobj : o' = o <;> simp [hobj]
    · by_cases hobj : o' = o <;> simp [hobj]
  | none =>
    refine ⟨h.created hr, ?_⟩
    rw [enter_created hr]
    refine h.exchange rfl (.inl rfl) rfl ⟨hin, trivial, h.stacked t⟩ rfl (fun o u => ?_)
      fun o => ?_
    · by_cases hobj : o = s.next
      · subst hobj
        rw [h.level, h.fresh]
        simp [RLock.level]
      · simp [hobj]
    · by_cases hobj : o = s.next
      · subst hobj
        rw [h.depth, Finset.sum_eq_zero fun u _ => h.fresh _ u]
        simp
      · simp [hobj]

omit [DecidableEq K] [DecidableEq P] in
theorem Registered.rest_refCount (h : s.Registered proc) (hf : s.frames t = f :: rest) (o : Nat) :
    ∑ u, counted (fun _ => true) (Function.update s.frames t rest u) o +
      (if f.obj = o then 1 else 0) = (s.objects o).refCount := by
  have hsum := sum_update (fun fs => counted (fun _ => true) fs o) s.frames t rest
  rw [hf, counted_cons, ← h.refCount o, Bool.toNat_true] at hsum
  omega

/-- A context manager that is left keeps its entry, which goes with the last of them. -/
theorem Registered.released (h : s.Registered proc) (hf : s.frames t = f :: rest) :
    ({ s.releaseState (proc t) f.key f.obj with
        frames := Function.update s.frames t rest } : ReentrantLocks P T K).Registered proc := by
  have hobject := h.registered t f (by rw [hf]; exact .head _)
  -- An entry that is left is one of before, and not the one of the path unless that stays in use.
  have hleft {p : P} {k : K} {o : Nat}
      (ho : (s.releaseState (proc t) f.key f.obj).registry p k = some o) :
      s.registry p k = some o ∧ (o = f.obj → (s.objects f.obj).refCount - 1 ≠ 0) := by
    simp only [releaseState] at ho
    split at ho
    · rw [update_entry] at ho
      split at ho
      · cases ho
      · rename_i hne
        exact ⟨ho, fun hobj => absurd (h.injective _ _ _ _ o ho (hobj ▸ hobject)) hne⟩
    · rename_i hne
      exact ⟨ho, fun _ => hne⟩
  refine ⟨fun u g hg => ?_, fun p k o ho => h.known p k o (hleft ho).1,
    fun p k p' k' o ho ho' => h.injective p k p' k' o (hleft ho).1 (hleft ho').1,
    fun p k o ho => ?_, fun o => ?_⟩
  · dsimp only at hg
    have hold : g ∈ s.frames u := by
      by_cases hu : u = t
      · subst hu
        rw [Function.update_self] at hg
        rw [hf]
        exact .tail _ hg
      · rwa [Function.update_of_ne hu] at hg
    have hreg := h.registered u g hold
    simp only [releaseState]
    split
    · rename_i hzero
      rw [update_entry, if_neg]
      · exact hreg
      · intro hpath
        obtain ⟨hp, hk⟩ := hpath
        rw [hp, hk, hobject] at hreg
        have hpos : 0 < ∑ u, counted (fun _ => true) (Function.update s.frames t rest u) f.obj :=
          (counted_pos.mpr ⟨g, hg, (Option.some.inj hreg).symm, rfl⟩).trans_le
            (Finset.single_le_sum
              (f := fun u => counted (fun _ => true) (Function.update s.frames t rest u) f.obj)
              (fun _ _ => Nat.zero_le _) (Finset.mem_univ u))
        have hcount := h.rest_refCount hf f.obj
        rw [if_pos rfl] at hcount
        omega
    · exact hreg
  · obtain ⟨hold, hne⟩ := hleft ho
    by_cases hobj : o = f.obj
    · subst hobj
      simpa [releaseState] using Nat.pos_of_ne_zero (hne rfl)
    · simpa [releaseState, hobj] using h.active p k o hold
  · have hcount := h.rest_refCount hf o
    by_cases hobj : o = f.obj
    · subst hobj
      simp only [releaseState, Function.update_self, if_true] at hcount ⊢
      omega
    · simp only [releaseState, ne_eq, hobj, not_false_eq_true, Function.update_of_ne,
        Ne.symm hobj, if_false] at hcount ⊢
      exact hcount.symm

theorem Sound.drop (h : s.Sound proc) (hf : s.frames t = f :: rest) (hd : f.stage = .drop) :
    ({ s.releaseState (proc t) f.key f.obj with
        frames := Function.update s.frames t rest } : ReentrantLocks P T K).Sound proc := by
  refine ⟨h.released hf, h.exchange rfl (.inr hf) (by rw [hd]; rfl) (h.stacked_cons hf).2.2 rfl
    (fun o u => ?_) fun o => ?_⟩
  · by_cases hobj : o = f.obj <;> simp [releaseState, hobj]
  · by_cases hobj : o = f.obj <;> simp [releaseState, hobj]

end Registry

/-! ## The steps -/

namespace Sound

variable [Fintype T] [DecidableEq P]

theorem advance (h : s.Sound proc) (hs : Advance proc t s s') : s'.Sound proc := by
  cases hs with
  | @acquire f rest lock hf hs hl =>
    refine h.move hf trivial rfl (fun u => ?_) (by simp [hs, LockStage.deep])
      (h.keeps_flock hf (by rw [hs]; rfl))
    simp [RLock.level_acquire hl, hs, LockStage.owns]
  | @nested f rest hf hs hd =>
    rw [h.depth_test hf hs, counted_pos] at hd
    obtain ⟨g, hg, hobj, -⟩ := hd
    obtain ⟨hinside, -, hrest⟩ := h.stacked_cons hf
    obtain ⟨g', hg', hobj', hs'⟩ := hrest.outermost hg (hinside g hg)
    refine h.move hf ⟨g', hg', hobj'.trans hobj, hs'⟩ rfl (fun u => ?_) ?_
      (h.keeps_flock hf (by rw [hs]; rfl))
    · simp [hs, LockStage.owns]
    · simp [hs, LockStage.deep]
  | @outermost f rest hf hs hd =>
    have hnone : ∀ g ∈ rest, g.obj ≠ f.obj := by
      intro g hg hobj
      refine hd ?_
      rw [h.depth_test hf hs, counted_pos]
      exact ⟨g, hg, hobj, LockStage.deep_of_inside ((h.stacked_cons hf).1 g hg)⟩
    refine h.move hf hnone rfl ?_ ?_ (h.keeps_flock hf (by rw [hs]; rfl))
    · intro u
      simp [hs, LockStage.owns]
    · simp only [hs, LockStage.deep, Bool.toNat_true, Bool.toNat_false]
      omega
  | @file f rest pc pc' file hf hs hstep =>
    have halone := h.alone hf (.inl ⟨_, hs⟩)
    have hnone := h.file_alone hf hs
    refine h.move hf halone rfl (fun u => ?_) ?_
      ((h.flocked f.key).step hstep ?_ ?_ fun u hu => ?_)
    · simp [hs, LockStage.owns]
    · simp [hs, LockStage.deep]
    · simp [flocked_of_frames hf, hs, hnone, LockStage.flocked_file]
    · simp [flocked_move, hnone, LockStage.flocked_file]
    · rw [flocked_move, if_neg hu]
  | @closed f rest hf hs =>
    have halone := h.alone hf (.inl ⟨_, hs⟩)
    refine h.move hf halone rfl ?_ ?_ (h.keeps_flock hf (by rw [hs]; rfl))
    · intro u
      simp [hs, LockStage.owns]
    · simp [hs, LockStage.deep]
  | @reset f rest hf hs =>
    refine h.move hf trivial rfl ?_ ?_ (h.keeps_flock hf (by rw [hs]; rfl))
    · intro u
      simp [hs, LockStage.owns]
    · have hrest : counted LockStage.deep rest f.obj = 0 := by
        by_contra hpos
        obtain ⟨g, hg, hobj, -⟩ := counted_pos.mp (Nat.pos_of_ne_zero hpos)
        exact h.alone hf (.inr hs) g hg hobj
      rw [h.depth_eq hf (by rw [hs]; rfl), hf, counted_cons, hs, hrest]
      simp [LockStage.deep]
  | @release f rest lock hf hs hl =>
    refine h.move hf trivial rfl (fun u => ?_) (by simp [hs, LockStage.deep])
      (h.keeps_flock hf (by rw [hs]; rfl))
    have := RLock.level_release (u := u) hl
    simp only [hs, LockStage.owns, Bool.toNat_true, Bool.toNat_false, ite_self, Nat.add_zero]
    exact this
  | @drop f rest hf hs => exact h.drop hf hs

omit [DecidableEq P] in
theorem leave (h : s.Sound proc) (hs : Leave t k s s') : s'.Sound proc := by
  cases hs with
  | @outermost f rest hf hk hs =>
    have halone := h.alone hf (.inl ⟨_, hs⟩)
    have hnone := h.file_alone hf hs
    refine h.move hf halone rfl (fun u => ?_) ?_
      ((h.flocked f.key).unlock (t := t) ?_ ?_ fun u hu => ?_)
    · simp [hs, LockStage.owns]
    · simp [hs, LockStage.deep]
    · exact (flocked_of_frames hf).mpr (.inl ⟨rfl, by rw [hs]; rfl⟩)
    · rw [flocked_move, if_pos rfl]
      exact fun hl => hl.elim (fun hfile => absurd hfile.2 (by decide)) hnone
    · rw [flocked_move, if_neg hu]
  | @nested f rest hf hk hs =>
    have hdepth := h.depth_eq hf (by rw [hs]; rfl)
    rw [hf, counted_cons, hs] at hdepth
    refine h.move hf trivial rfl ?_ ?_ (h.keeps_flock hf (by rw [hs]; rfl))
    · intro u
      simp [hs, LockStage.owns]
    · simp only [hs, LockStage.deep, Bool.toNat_true, Bool.toNat_false, if_true] at hdepth ⊢
      omega

omit [DecidableEq P] in
theorem fail (h : s.Sound proc) (hs : Fail t s s') : s'.Sound proc := by
  cases hs with
  | @opening f rest pc hf hs hpc =>
    have halone := h.alone hf (.inl ⟨_, hs⟩)
    refine h.move hf halone rfl ?_ ?_ (h.keeps_flock hf ?_)
    · intro u
      simp [hs, LockStage.owns]
    · simp [hs, LockStage.deep]
    · rw [hs]
      obtain rfl | rfl | ⟨created, rfl⟩ := hpc <;> rfl
  | @utime f rest hf hs =>
    have halone := h.alone hf (.inl ⟨_, hs⟩)
    have hnone := h.file_alone hf hs
    refine h.move hf halone rfl (fun u => ?_) ?_
      ((h.flocked f.key).unlock (t := t) ?_ ?_ fun u hu => ?_)
    · simp [hs, LockStage.owns]
    · simp [hs, LockStage.deep]
    · exact (flocked_of_frames hf).mpr (.inl ⟨rfl, by rw [hs]; rfl⟩)
    · rw [flocked_move, if_pos rfl]
      exact fun hl => hl.elim (fun hfile => absurd hfile.2 (by decide)) hnone
    · rw [flocked_move, if_neg hu]

omit [DecidableEq P] [DecidableEq K] in
theorem unlocked (proc : T → P) (mtime : K → Option Int) :
    (ReentrantLocks.unlocked (T := T) mtime).Sound proc := by
  refine ⟨⟨?_, ?_, ?_, ?_, ?_⟩, ?_, ?_, ?_, ?_⟩ <;>
    simp [ReentrantLocks.unlocked, counted, RLock.level, Stacked, LockFile.HeldBy, Flocked]

end Sound

/-! ## Mutual exclusion -/

/-- The thread runs the body of a `with` on the path. -/
def InsideOf (s : ReentrantLocks P T K) (k : K) (t : T) : Prop :=
  ∃ f ∈ s.frames t, f.key = k ∧ f.stage.inside = true

namespace Sound

variable [Fintype T]

omit [DecidableEq K] in
/-- Who is inside has the file lock. -/
theorem flocked_of_inside (h : s.Sound proc) (hin : s.InsideOf k t) : s.Flocked k t := by
  obtain ⟨f, hf, rfl, hs⟩ := hin
  obtain ⟨g, hg, hobj, hgs⟩ := (h.stacked t).outermost hf hs
  refine ⟨g, hg, ?_, by rw [hgs]; rfl⟩
  have hreg := h.registered t g hg
  rw [hobj] at hreg
  exact (h.injective _ _ _ _ _ hreg (h.registered t f hf)).2

omit [DecidableEq K] in
/-- **At most one thread of all processes is inside.** -/
theorem exclusive {u : T} (h : s.Sound proc) (ht : s.InsideOf k t) (hu : s.InsideOf k u) : t = u :=
  (h.flocked k).unique (h.flocked_of_inside ht) (h.flocked_of_inside hu)

end Sound

/-- The lock's own code runs in an innermost context manager whose body does not run, and
moves it on or drops it. -/
theorem Advance.frames [DecidableEq P] (hs : Advance proc t s s') :
    ∃ f rest, s.frames t = f :: rest ∧ f.stage.inside = false ∧
      ((∃ stage : LockStage, stage.exiting = f.stage.exiting ∧
          s'.frames = Function.update s.frames t ({ f with stage } :: rest)) ∨
        f.stage.exiting = true ∧ s'.frames = Function.update s.frames t rest) := by
  cases hs with
  | @file f rest pc pc' file hf hs hstep =>
    refine ⟨f, rest, hf, ?_, .inl ⟨_, ?_, rfl⟩⟩
    · rw [hs]
      cases pc with
      | inside => exact absurd rfl hstep.not_inside
      | _ => rfl
    · rw [hs]
      exact hstep.exiting
  | @drop f rest hf hs => exact ⟨f, rest, hf, by rw [hs]; rfl, .inr ⟨by rw [hs]; rfl, rfl⟩⟩
  | @acquire f rest _ hf hs | @nested f rest hf hs | @outermost f rest hf hs | @closed f rest hf hs
  | @reset f rest hf hs | @release f rest _ hf hs =>
    exact ⟨f, rest, hf, by rw [hs]; rfl, .inl ⟨_, by rw [hs]; rfl, rfl⟩⟩

/-- A body that ends puts its context manager on the way out. -/
theorem Leave.frames (hs : Leave t k s s') : ∃ f rest, ∃ stage : LockStage,
    s.frames t = f :: rest ∧ f.key = k ∧ f.stage.inside = true ∧ stage.exiting = true ∧
      s'.frames = Function.update s.frames t ({ f with stage } :: rest) := by
  cases hs with
  | @outermost f rest hf hk hs => exact ⟨f, rest, _, hf, hk, by rw [hs]; rfl, rfl, rfl⟩
  | @nested f rest hf hk hs => exact ⟨f, rest, _, hf, hk, by rw [hs]; rfl, rfl, rfl⟩

theorem leave_of_inside (hf : s.frames t = f :: rest) (hin : f.stage.inside = true) :
    ∃ s', ∃ stage : LockStage, Leave t f.key s s' ∧ stage.exiting = true ∧
      s'.frames = Function.update s.frames t ({ f with stage } :: rest) := by
  rcases LockStage.inside_iff.mp hin with hs | hs
  · exact ⟨_, _, .outermost hf rfl hs, rfl, rfl⟩
  · exact ⟨_, _, .nested hf rfl hs, rfl, rfl⟩

theorem insideOf_advance [DecidableEq P] {u : T} (hs : Advance proc t s s')
    (hu : s.InsideOf k u) : s'.InsideOf k u := by
  obtain ⟨f, rest, hf, hout, hframes⟩ := hs.frames
  obtain ⟨g, hg, hk, hin⟩ := hu
  unfold InsideOf
  by_cases hut : u = t
  · subst hut
    rw [hf] at hg
    rcases List.mem_cons.mp hg with rfl | hg
    · rw [hout] at hin
      cases hin
    · refine ⟨g, ?_, hk, hin⟩
      rcases hframes with ⟨stage, -, hframes⟩ | ⟨-, hframes⟩ <;>
        rw [hframes, Function.update_self]
      · exact .tail _ hg
      · exact hg
  · refine ⟨g, ?_, hk, hin⟩
    rcases hframes with ⟨stage, -, hframes⟩ | ⟨-, hframes⟩ <;>
      rwa [hframes, Function.update_of_ne hut]

theorem insideOf_leave {u : T} (hs : Leave t k s s') (hut : u ≠ t) (hu : s.InsideOf k u) :
    s'.InsideOf k u := by
  unfold InsideOf at hu ⊢
  cases hs <;> simpa [hut] using hu

theorem enter_frames [DecidableEq P] : (s.enter proc t k).frames =
    Function.update s.frames t (⟨k, (s.getState (proc t) k).1, .acquire⟩ :: s.frames t) := by
  unfold ReentrantLocks.enter getState
  split <;> rfl

theorem insideOf_enter [DecidableEq P] {u : T} (hu : s.InsideOf k u) :
    (s.enter proc t k).InsideOf k u := by
  obtain ⟨g, hg, hk, hin⟩ := hu
  refine ⟨g, ?_, hk, hin⟩
  rw [enter_frames]
  by_cases hut : u = t
  · subst hut
    rw [Function.update_self]
    exact .tail _ hg
  · rwa [Function.update_of_ne hut]

end ReentrantLocks

/-- **`reentrant_exclusive_path_lock` is a lock** on the path `k` for the threads of
any processes. -/
def reentrantPathLock {P T K : Type} [DecidableEq P] [DecidableEq T] [DecidableEq K] [Fintype T]
    (proc : T → P) (k : K) : Mutex T where
  State := ReentrantLocks P T K
  request t s s' := s' = s.enter proc t k
  advance := ReentrantLocks.Advance proc
  release t := ReentrantLocks.Leave t k
  holds s := s.InsideOf k
  idle s t := s.frames t = []
  Sound := ReentrantLocks.Sound proc
  sound_request := by
    intro t s s' h hidle hs
    subst hs
    exact h.enter (by simp [hidle]) k
  sound_advance := ReentrantLocks.Sound.advance
  sound_release := ReentrantLocks.Sound.leave
  exclusive h ht hu := h.exclusive ht hu
  holds_request := by
    intro t s s' u _ _ hs hu
    subst hs
    exact ReentrantLocks.insideOf_enter hu
  holds_advance := fun _ => ReentrantLocks.insideOf_advance
  holds_release := fun _ => ReentrantLocks.insideOf_leave

end SchedulingUtil
