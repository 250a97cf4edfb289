import SchedulingUtil.ReentrantPathLockSound

/-! # Runs of the re-entrant lock

Any number of threads enter and leave context managers on any paths; bodies may raise, and so
may `exclusive_path_lock`. For one thread and one path only `Ownership` matters: the file lock
is taken and given back while the thread has one context manager of the path. -/
namespace SchedulingUtil
open Lib LockFrame

/-- What a thread has of a path: no context manager, one that is to take the file lock, the
file lock and so many context managers further in, one that has given it back or has not got
it. -/
inductive Ownership where
  | out
  | entering
  | holding (nested : Nat)
  | leaving

namespace Ownership

inductive Step : Ownership → Ownership → Prop where
  | stay (o : Ownership) : Step o o
  | enter : Step .out .entering
  | take : Step .entering (.holding 0)
  | refuse : Step .entering .leaving
  | nest (n : Nat) : Step (.holding n) (.holding (n + 1))
  | unnest (n : Nat) : Step (.holding (n + 1)) (.holding n)
  | give : Step (.holding 0) .leaving
  | leave : Step .leaving .out

end Ownership

/-- What the outermost context manager of the path makes of it. -/
def LockStage.outermost : LockStage → Ownership
  | .file .utime | .file .inside | .nested => .holding 0
  | .file .close | .reset | .release | .drop => .leaving
  | .acquire | .test | .file _ => .entering

theorem LockStage.flocked_iff_outermost {s : LockStage} (h : s ≠ .nested) :
    s.flocked = true ↔ ∃ n, s.outermost = .holding n := by
  cases s with
  | file pc => cases pc <;> simp [flocked, outermost]
  | nested => exact absurd rfl h
  | _ => simp [flocked, outermost]

/-- How many steps of the way out there are left. -/
def LockStage.remaining : LockStage → Nat
  | .file .close => 4
  | .reset => 3
  | .release => 2
  | .drop => 1
  | _ => 0

/-- Only `flock` takes the file lock. -/
theorem PathLockStep.outermost {T : Type} {t : T} {pc pc' : PathLockPc} {f f' : LockFile T}
    (h : PathLockStep t (pc, f) (pc', f')) :
    Ownership.Step (LockStage.file pc).outermost (LockStage.file pc').outermost := by
  cases h with
  | @flock created => cases created <;> exact .take
  | _ => exact .stay _

namespace LockFrame

variable {K : Type} [DecidableEq K] {f : LockFrame K} {fs rest : List (LockFrame K)} {k : K}

def ownership (k : K) : List (LockFrame K) → Ownership
  | [] => .out
  | f :: rest =>
    if f.key = k then
      match ownership k rest with
      | .holding n => .holding (n + 1)
      | _ => f.stage.outermost
    else ownership k rest

/-- The context managers of a path are those of its object. -/
def PathsOf (fs : List (LockFrame K)) : Prop :=
  ∀ f ∈ fs, ∀ g ∈ fs, f.obj = g.obj ↔ f.key = g.key

omit [DecidableEq K] in
theorem PathsOf.tail (h : PathsOf (f :: rest)) : PathsOf rest :=
  fun g hg g' hg' => h g (.tail _ hg) g' (.tail _ hg')

omit [DecidableEq K] in
/-- Where the innermost body runs, all of them do. -/
theorem Stacked.bodies (h : Stacked fs) (hin : ∀ f ∈ fs.head?, f.stage.inside = true) :
    ∀ f ∈ fs, f.stage.inside = true := by
  cases fs with
  | nil => simp
  | cons f rest =>
    intro g hg
    rcases List.mem_cons.mp hg with rfl | hg
    · exact hin _ rfl
    · exact h.1 g hg

omit [DecidableEq K] in
theorem Stacked.placed (h : Stacked fs) {inner : List (LockFrame K)}
    (hfs : fs = inner ++ f :: rest) : f.PlacedOn rest := by
  subst hfs
  induction inner with
  | nil => exact h.2.1
  | cons g inner ih => exact ih h.2.2

omit [DecidableEq K] in
theorem PlacedOn.not_nested (h : f.PlacedOn rest) (hp : PathsOf (f :: rest))
    (hnone : ∀ g ∈ rest, g.key ≠ f.key) : f.stage ≠ .nested := by
  intro hs
  simp only [PlacedOn, hs] at h
  obtain ⟨g, hg, hobj, -⟩ := h
  exact hnone g hg ((hp g (.tail _ hg) f (.head _)).mp hobj)

/-- While all the bodies run, a path that has a context manager has the file lock. -/
theorem ownership_bodies (h : Stacked fs) (hp : PathsOf fs)
    (hin : ∀ f ∈ fs, f.stage.inside = true) :
    ownership k fs = .out ∧ (∀ f ∈ fs, f.key ≠ k) ∨
      ∃ n, ownership k fs = .holding n ∧ ∃ f ∈ fs, f.key = k ∧ f.stage = .file .inside := by
  induction fs with
  | nil => exact .inl ⟨rfl, by simp⟩
  | cons f rest ih =>
    obtain ⟨hinside, hplaced, hrest⟩ := h
    rcases ih hrest hp.tail hinside with ⟨hout, hnone⟩ | ⟨n, hn, g, hg, hgk⟩
    · by_cases hk : f.key = k
      · subst hk
        have hs : f.stage = .file .inside :=
          (LockStage.inside_iff.mp (hin f (.head _))).resolve_right (hplaced.not_nested hp hnone)
        exact .inr ⟨0, by simp [ownership, hout, hs, LockStage.outermost], f, .head _, rfl, hs⟩
      · refine .inl ⟨by simp [ownership, hk, hout], ?_⟩
        intro g hg
        rcases List.mem_cons.mp hg with rfl | hg
        · exact hk
        · exact hnone g hg
    · by_cases hk : f.key = k
      · exact .inr ⟨n + 1, by simp [ownership, hk, hn], g, .tail _ hg, hgk⟩
      · exact .inr ⟨n, by simp [ownership, hk, hn], g, .tail _ hg, hgk⟩

/-- The file lock is had by who has taken it and not yet given it back. -/
theorem flocked_iff_ownership (h : Stacked fs) (hp : PathsOf fs) :
    (∃ f ∈ fs, f.key = k ∧ f.stage.flocked = true) ↔ ∃ n, ownership k fs = .holding n := by
  cases fs with
  | nil => simp [ownership]
  | cons f rest =>
    obtain ⟨hinside, hplaced, hrest⟩ := h
    rcases ownership_bodies (k := k) hrest hp.tail hinside with ⟨hout, hnone⟩ | ⟨n, hn, g, hg, hgk⟩
    · have hrest : ¬ ∃ g ∈ rest, g.key = k ∧ g.stage.flocked = true := by
        intro hg
        obtain ⟨g, hg, hk, -⟩ := hg
        exact hnone g hg hk
      by_cases hk : f.key = k
      · subst hk
        simp [ownership, hout, hrest,
          LockStage.flocked_iff_outermost (hplaced.not_nested hp hnone)]
      · simp [ownership, hk, hout, hrest]
    · refine iff_of_true ⟨g, .tail _ hg, hgk.1, by rw [hgk.2]; rfl⟩ ?_
      by_cases hk : f.key = k <;> simp [ownership, hk, hn]

end LockFrame

/-! ## What one step does to it -/

namespace ReentrantLocks

variable {P T K : Type} [DecidableEq T] [DecidableEq K] {proc : T → P}
  {s s' : ReentrantLocks P T K} {t : T} {k : K} {f : LockFrame K} {rest : List (LockFrame K)}

def ownership (s : ReentrantLocks P T K) (t : T) (k : K) : Ownership :=
  LockFrame.ownership k (s.frames t)

/-- It is enough to look at the thread that takes the step. -/
theorem ownership_update {fs : List (LockFrame K)}
    (hframes : s'.frames = Function.update s.frames t fs)
    (hstep : ∀ k, Ownership.Step (LockFrame.ownership k (s.frames t)) (LockFrame.ownership k fs))
    (u : T) (k : K) : Ownership.Step (s.ownership u k) (s'.ownership u k) := by
  unfold ReentrantLocks.ownership
  rw [hframes]
  by_cases hu : u = t
  · subst hu
    rw [Function.update_self]
    exact hstep k
  · rw [Function.update_of_ne hu]
    exact .stay _

namespace Sound

variable [Fintype T] (h : s.Sound proc)
include h

omit [DecidableEq K] in
theorem obj_eq_iff {u : T} {g : LockFrame K} (hf : f ∈ s.frames t) (hg : g ∈ s.frames u)
    (hproc : proc t = proc u) : f.obj = g.obj ↔ f.key = g.key := by
  have hreg := h.registered t f hf
  have hreg' := h.registered u g hg
  constructor
  · intro hobj
    rw [hobj] at hreg
    exact (h.injective _ _ _ _ _ hreg hreg').2
  · intro hkey
    rw [hproc, hkey, hreg'] at hreg
    exact (Option.some.inj hreg).symm

omit [DecidableEq K] in
theorem pathsOf (t : T) : PathsOf (s.frames t) := fun _ hf _ hg => h.obj_eq_iff hf hg rfl

/-- The bodies that run further out. -/
theorem ownership_rest (hf : s.frames t = f :: rest) (k : K) :
    LockFrame.ownership k rest = .out ∧ (∀ g ∈ rest, g.key ≠ k) ∨
      ∃ n, LockFrame.ownership k rest = .holding n := by
  have hp := h.pathsOf t
  obtain ⟨hinside, -, hrest⟩ := h.stacked_cons hf
  rw [hf] at hp
  rcases ownership_bodies (k := k) hrest hp.tail hinside with hout | ⟨n, hn, -⟩
  · exact .inl hout
  · exact .inr ⟨n, hn⟩

theorem ownership_move {stage : LockStage} (hf : s.frames t = f :: rest)
    (hframes : s'.frames = Function.update s.frames t ({ f with stage } :: rest))
    (hstage : (∀ g ∈ rest, g.key ≠ f.key) → Ownership.Step f.stage.outermost stage.outermost) :
    ∀ u k, Ownership.Step (s.ownership u k) (s'.ownership u k) := by
  refine ownership_update hframes ?_
  intro k
  rw [hf]
  by_cases hk : f.key = k
  · subst hk
    rcases h.ownership_rest hf f.key with ⟨hout, hnone⟩ | ⟨n, hn⟩
    · simpa [LockFrame.ownership, hout] using hstage hnone
    · simpa [LockFrame.ownership, hn] using Ownership.Step.stay _
  · simpa [LockFrame.ownership, hk] using Ownership.Step.stay _

theorem ownership_drop (hf : s.frames t = f :: rest) (hs : f.stage = .drop)
    (hframes : s'.frames = Function.update s.frames t rest) :
    ∀ u k, Ownership.Step (s.ownership u k) (s'.ownership u k) := by
  refine ownership_update hframes ?_
  intro k
  rw [hf]
  by_cases hk : f.key = k
  · rcases h.ownership_rest hf k with ⟨hout, -⟩ | ⟨n, hn⟩
    · simpa [LockFrame.ownership, hk, hout, hs, LockStage.outermost] using Ownership.Step.leave
    · simpa [LockFrame.ownership, hk, hn] using Ownership.Step.unnest n
  · simpa [LockFrame.ownership, hk] using Ownership.Step.stay _

variable [DecidableEq P]

theorem ownership_enter (hin : ∀ f ∈ s.frames t, f.stage.inside = true) (k : K) :
    ∀ u k', Ownership.Step (s.ownership u k') ((s.enter proc t k).ownership u k') := by
  refine ownership_update enter_frames ?_
  intro k'
  by_cases hk : k = k'
  · subst hk
    rcases ownership_bodies (k := k) (h.stacked t) (h.pathsOf t) hin with ⟨hout, -⟩ | ⟨n, hn, -⟩
    · simpa [LockFrame.ownership, hout, LockStage.outermost] using Ownership.Step.enter
    · simpa [LockFrame.ownership, hn] using Ownership.Step.nest n
  · simpa [LockFrame.ownership, hk] using Ownership.Step.stay _

theorem ownership_advance (hs : Advance proc t s s') (u : T) (k : K) :
    Ownership.Step (s.ownership u k) (s'.ownership u k) := by
  cases hs with
  | @acquire f rest lock hf hs hl =>
    exact h.ownership_move hf rfl (fun _ => by rw [hs]; exact .stay _) u k
  | @nested f rest hf hs hd =>
    refine h.ownership_move hf rfl ?_ u k
    intro hnone
    rw [h.depth_test hf hs, counted_pos] at hd
    obtain ⟨g, hg, hobj, -⟩ := hd
    have hkey := (h.pathsOf t g (hf ▸ .tail _ hg) f (hf ▸ .head _)).mp hobj
    exact absurd hkey (hnone g hg)
  | @outermost f rest hf hs hd =>
    exact h.ownership_move hf rfl (fun _ => by rw [hs]; exact .stay _) u k
  | @file f rest pc pc' file hf hs hstep =>
    exact h.ownership_move hf rfl (fun _ => by rw [hs]; exact hstep.outermost) u k
  | @closed f rest hf hs | @reset f rest hf hs | @release f rest _ hf hs =>
    exact h.ownership_move hf rfl (fun _ => by rw [hs]; exact .stay _) u k
  | @drop f rest hf hs => exact h.ownership_drop hf hs rfl u k

omit [DecidableEq P] in
theorem ownership_leave {k' : K} (hs : Leave t k' s s') (u : T) (k : K) :
    Ownership.Step (s.ownership u k) (s'.ownership u k) := by
  cases hs with
  | @outermost f rest hf hk hs =>
    exact h.ownership_move hf rfl (fun _ => by rw [hs]; exact .give) u k
  | @nested f rest hf hk hs =>
    refine h.ownership_move hf rfl ?_ u k
    intro hnone
    have hp := h.pathsOf t
    rw [hf] at hp
    exact absurd hs ((h.stacked_cons hf).2.1.not_nested hp hnone)

omit [DecidableEq P] in
theorem ownership_fail (hs : Fail t s s') (u : T) (k : K) :
    Ownership.Step (s.ownership u k) (s'.ownership u k) := by
  cases hs with
  | @opening f rest pc hf hs hpc =>
    refine h.ownership_move hf rfl ?_ u k
    intro _
    rw [hs]
    obtain rfl | rfl | ⟨created, rfl⟩ := hpc <;> exact .refuse
  | @utime f rest hf hs =>
    exact h.ownership_move hf rfl (fun _ => by rw [hs]; exact .give) u k

end Sound

/-! ## Every state of a run -/

variable [Fintype T] [DecidableEq P]

/-- What the lock promises of a state. -/
structure Reentrant (proc : T → P) (s : ReentrantLocks P T K) : Prop where
  exclusive : ∀ k t u, s.InsideOf k t → s.InsideOf k u → t = u
  /-- Who runs a body has the file lock, which nobody has but as its `Ownership` says. -/
  inside : ∀ k t, s.InsideOf k t → ∃ n, s.ownership t k = .holding n
  holder : ∀ k t, (s.files k).holder = some t ↔ ∃ n, s.ownership t k = .holding n
  /-- Only the outermost context manager of a path is in `exclusive_path_lock`. -/
  outermost : ∀ t inner f outer pc, s.frames t = inner ++ f :: outer → f.stage = .file pc →
    ∀ g ∈ outer, g.key ≠ f.key
  nested : ∀ t inner f outer, s.frames t = inner ++ f :: outer → f.stage = .nested →
    ∃ g ∈ outer, g.key = f.key ∧ g.stage = .file .inside
  shared : ∀ t u, proc t = proc u → ∀ f ∈ s.frames t, ∀ g ∈ s.frames u, f.key = g.key →
    f.obj = g.obj
  refCount : ∀ t, ∀ f ∈ s.frames t, (s.objects f.obj).refCount =
    ∑ u with proc u = proc t, (s.frames u).countP fun g => g.key = f.key
  registered : ∀ p k, s.registry p k ≠ none ↔ ∃ t, proc t = p ∧ ∃ f ∈ s.frames t, f.key = k
  depth : ∀ o, (∀ t, ∀ f ∈ s.frames t, f.obj ≠ o) → (s.objects o).depth = 0

namespace Sound

variable (h : s.Sound proc)
include h

omit [DecidableEq P] in
theorem holder_iff (k : K) (t : T) :
    (s.files k).holder = some t ↔ ∃ n, s.ownership t k = .holding n :=
  (h.flocked k t).trans (flocked_iff_ownership (h.stacked t) (h.pathsOf t))

omit [DecidableEq P] in
/-- The context managers of a thread that have the object of `f`. -/
theorem counted_path (hf : f ∈ s.frames t) (u : T) [Decidable (proc u = proc t)] :
    counted (fun _ => true) (s.frames u) f.obj =
      if proc u = proc t then (s.frames u).countP fun g => g.key = f.key else 0 := by
  split
  · rename_i hproc
    refine List.countP_congr ?_
    intro g hg
    simpa using h.obj_eq_iff hg hf hproc
  · rename_i hproc
    refine List.countP_eq_zero.mpr ?_
    intro g hg hobj
    have hreg := h.registered u g hg
    rw [show g.obj = f.obj by simpa using hobj] at hreg
    exact hproc (h.injective _ _ _ _ _ hreg (h.registered t f hf)).1

omit [DecidableEq K] [DecidableEq P] in
theorem registered_iff (p : P) (k : K) :
    s.registry p k ≠ none ↔ ∃ t, proc t = p ∧ ∃ f ∈ s.frames t, f.key = k := by
  constructor
  · intro hsome
    obtain ⟨o, ho⟩ := Option.ne_none_iff_exists'.mp hsome
    have hpos := h.active p k o ho
    rw [h.refCount] at hpos
    obtain ⟨t, -, ht⟩ := Finset.exists_ne_zero_of_sum_ne_zero hpos.ne'
    obtain ⟨f, hf, rfl, -⟩ := counted_pos.mp (Nat.pos_of_ne_zero ht)
    obtain ⟨hproc, hkey⟩ := h.injective _ _ _ _ _ (h.registered t f hf) ho
    exact ⟨t, hproc, f, hf, hkey⟩
  · intro hactive
    obtain ⟨t, rfl, f, hf, rfl⟩ := hactive
    rw [h.registered t f hf]
    exact Option.some_ne_none _

theorem reentrant : s.Reentrant proc where
  exclusive k t u ht hu := h.exclusive ht hu
  inside k t ht := (h.holder_iff k t).mp ((h.flocked k t).mpr (h.flocked_of_inside ht))
  holder := h.holder_iff
  outermost t inner f outer pc hframes hs g hg := by
    have hplaced := (h.stacked t).placed hframes
    simp only [PlacedOn, hs] at hplaced
    intro hkey
    refine hplaced g hg ((h.pathsOf t g ?_ f ?_).mpr hkey) <;> rw [hframes]
    · exact List.mem_append_right _ (.tail _ hg)
    · exact List.mem_append_right _ (.head _)
  nested t inner f outer hframes hs := by
    have hplaced := (h.stacked t).placed hframes
    simp only [PlacedOn, hs] at hplaced
    obtain ⟨g, hg, hobj, hgs⟩ := hplaced
    refine ⟨g, hg, (h.pathsOf t g ?_ f ?_).mp hobj, hgs⟩ <;> rw [hframes]
    · exact List.mem_append_right _ (.tail _ hg)
    · exact List.mem_append_right _ (.head _)
  shared t u hproc f hf g hg hkey := (h.obj_eq_iff hf hg hproc).mpr hkey
  refCount t f hf := by
    rw [h.refCount, Finset.sum_filter]
    exact Finset.sum_congr rfl fun u _ => h.counted_path hf u
  registered := h.registered_iff
  depth o hnone := by
    rw [h.depth]
    refine Finset.sum_eq_zero fun t _ => List.countP_eq_zero.mpr ?_
    intro f hf hobj
    simp only [Bool.and_eq_true, beq_iff_eq] at hobj
    exact hnone t f hf hobj.1

/-! ### The way out -/

/-- `lock.release()` and the deregistration do not raise. -/
theorem exit_step (hf : s.frames t = f :: rest) (hx : f.stage.exiting = true) :
    ∃ s', Advance proc t s s' ∧ (s'.frames = Function.update s.frames t rest ∨
      ∃ stage : LockStage, stage.exiting = true ∧ stage.remaining < f.stage.remaining ∧
        s'.frames = Function.update s.frames t ({ f with stage } :: rest)) := by
  cases hs : f.stage with
  | file pc =>
    cases pc with
    | close => exact ⟨_, .closed hf hs, .inr ⟨.reset, rfl, by decide, rfl⟩⟩
    | _ => simp [hs, LockStage.exiting] at hx
  | reset => exact ⟨_, .reset hf hs, .inr ⟨.release, rfl, by decide, rfl⟩⟩
  | release =>
    have hlevel : 0 < (s.objects f.obj).lock.level t := by
      rw [h.level, counted_pos, hf]
      exact ⟨f, .head _, rfl, by rw [hs]; rfl⟩
    obtain ⟨lock, hl⟩ := RLock.release_of_level hlevel
    exact ⟨_, .release hf hs hl, .inr ⟨.drop, rfl, by decide, rfl⟩⟩
  | drop => exact ⟨_, .drop hf hs, .inl rfl⟩
  | _ => simp [hs, LockStage.exiting] at hx

theorem advances (hs : Relation.ReflTransGen (Advance proc t) s s') : s'.Sound proc := by
  induction hs with
  | refl => exact h
  | tail _ hl ih => exact ih.advance hl

/-- Whatever the other threads do, a thread on the way out gets out on its own. -/
theorem exits (hf : s.frames t = f :: rest) (hx : f.stage.exiting = true) :
    ∃ s', Relation.ReflTransGen (Advance proc t) s s' ∧
      s'.frames = Function.update s.frames t rest := by
  induction hn : f.stage.remaining using Nat.strong_induction_on generalizing s f with
  | _ n ih =>
    obtain ⟨s₁, hadvance, hleft | ⟨stage, hx', hlt, hframes⟩⟩ := h.exit_step hf hx
    · exact ⟨s₁, .single hadvance, hleft⟩
    · obtain ⟨s', hown, hout⟩ := ih _ (hn ▸ hlt) (f := { f with stage })
        (h.advance hadvance) (by rw [hframes, Function.update_self]) hx' rfl
      exact ⟨s', .head hadvance hown, by rw [hout, hframes, Function.update_idem]⟩

/-- Nor does it wait for a lock it has. -/
theorem enters_nested {g : LockFrame K} (hf : s.frames t = f :: rest) (hs : f.stage = .acquire)
    (hg : g ∈ rest) (hk : g.key = f.key) :
    ∃ s', Relation.ReflTransGen (Advance proc t) s s' ∧
      s'.frames = Function.update s.frames t ({ f with stage := .nested } :: rest) := by
  have hobj : g.obj = f.obj :=
    (h.pathsOf t g (by rw [hf]; exact .tail _ hg) f (by rw [hf]; exact .head _)).mpr hk
  have hdeep := LockStage.deep_of_inside ((h.stacked_cons hf).1 g hg)
  have hlevel : 0 < (s.objects f.obj).lock.level t := by
    rw [h.level, counted_pos, hf]
    exact ⟨g, .tail _ hg, hobj, LockStage.owns_of_deep hdeep⟩
  obtain ⟨lock, hl⟩ := RLock.acquire_of_level hlevel
  obtain ⟨s₁, hacquire, hframes⟩ : ∃ s₁, Advance proc t s s₁ ∧
      s₁.frames = Function.update s.frames t ({ f with stage := .test } :: rest) :=
    ⟨_, .acquire hf hs hl, rfl⟩
  have htest : s₁.frames t = { f with stage := .test } :: rest := by
    rw [hframes, Function.update_self]
  refine ⟨_, .tail (.single hacquire) (.nested htest rfl ?_), ?_⟩
  · rw [(h.advance hacquire).depth_test htest rfl, counted_pos]
    exact ⟨g, hg, hobj, hdeep⟩
  · rw [move_frames, hframes, Function.update_idem]

end Sound

section Runs
variable {Q : Type} {normalizedLockPath : Q → K}

theorem Sound.step (h : s.Sound proc) {e : LockEvent T Q}
    (hs : LockStep proc normalizedLockPath s e s') :
    s'.Sound proc ∧ ∀ t k, Ownership.Step (s.ownership t k) (s'.ownership t k) := by
  cases hs with
  | enter hin =>
    have hbodies := (h.stacked _).bodies hin
    exact ⟨h.enter hbodies _, h.ownership_enter hbodies _⟩
  | advance hs => exact ⟨h.advance hs, h.ownership_advance hs⟩
  | fail hs => exact ⟨h.fail hs, h.ownership_fail hs⟩
  | leave hs => exact ⟨h.leave hs, h.ownership_leave hs⟩

theorem sound_run {mtime : K → Option Int} {steps : List (ReentrantLocks P T K × LockEvent T Q)}
    (h : Execution (LockStep proc normalizedLockPath) (unlocked mtime) steps s) : s.Sound proc :=
  h.invariant (fun _ _ _ hs hl => (hs.step hl).1) (Sound.unlocked proc mtime)

/-- **The re-entrant path lock, in any run**: what holds in each state, how the file lock is
taken and given back by the next step, and what is left when all threads have left. -/
theorem reentrant_path_lock_correct {mtime : K → Option Int}
    {steps : List (ReentrantLocks P T K × LockEvent T Q)}
    (h : Execution (LockStep proc normalizedLockPath) (unlocked mtime) steps s) :
    s.Reentrant proc ∧
    (∀ e s', LockStep proc normalizedLockPath s e s' →
      ∀ t k, Ownership.Step (s.ownership t k) (s'.ownership t k)) ∧
    ((∀ t, s.frames t = []) →
      (∀ p k, s.registry p k = none) ∧ ∀ o, (s.objects o).depth = 0) := by
  have hsound := sound_run h
  refine ⟨hsound.reentrant, fun e s' hs => (hsound.step hs).2, fun hleft => ⟨?_, ?_⟩⟩
  · intro p k
    by_contra hsome
    obtain ⟨t, -, f, hf, -⟩ := (hsound.registered_iff p k).mp hsome
    rw [hleft] at hf
    cases hf
  · intro o
    refine hsound.reentrant.depth o ?_
    intro t f hf
    rw [hleft] at hf
    cases hf

/-- The first thread does not get the file lock; the second enters again in its body and raises
out of both. -/
def nestedAndFailed : List (LockEvent Bool Unit) :=
  [.enter true (), .enter false ()] ++ List.replicate 3 (.advance true) ++ [.fail true] ++
    List.replicate 3 (.advance true) ++ List.replicate 5 (.advance false) ++
    [.enter false (), .advance false, .advance false, .leave false .raised, .advance false,
      .advance false, .leave false .raised] ++ List.replicate 4 (.advance false)

/-- Two threads of one process. -/
theorem reentrant_path_lock_left : ∃ steps, ∃ s : ReentrantLocks Unit Bool Unit,
    Execution (LockStep (fun _ => ()) id) (unlocked fun _ => none) steps s ∧
      steps.map Prod.snd = nestedAndFailed ∧
      (∀ t, s.frames t = []) ∧ (∀ p k, s.registry p k = none) ∧ ∀ o, (s.objects o).depth = 0 := by
  have hrun : ∃ steps, ∃ s : ReentrantLocks Unit Bool Unit,
      Execution (LockStep (fun _ => ()) id) (unlocked fun _ => none) steps s ∧
        steps.map Prod.snd = nestedAndFailed ∧ ∀ t, s.frames t = [] := by
    refine ⟨_, _, .cons (l := .enter true ()) (.enter (by simp [unlocked])) <|
      .cons (l := .enter false ()) (.enter (by simp [unlocked, enter, getState])) <|
      .cons (.advance (.acquire (t := true) rfl rfl rfl)) <|
      .cons (.advance (.outermost (t := true) rfl rfl (by decide +kernel))) <|
      .cons (.advance (.file (t := true) rfl rfl (.created 0))) <|
      .cons (.fail (.opening (t := true) rfl rfl (.inr (.inr ⟨true, rfl⟩)))) <|
      .cons (.advance (.reset (t := true) rfl rfl)) <|
      .cons (.advance (.release (t := true) rfl rfl rfl)) <|
      .cons (.advance (.drop (t := true) rfl rfl)) <|
      .cons (.advance (.acquire (t := false) rfl rfl rfl)) <|
      .cons (.advance (.outermost (t := false) rfl rfl (by decide +kernel))) <|
      .cons (.advance (.file (t := false) rfl rfl .fileExists)) <|
      .cons (.advance (.file (t := false) rfl rfl .opened)) <|
      .cons (.advance (.file (t := false) rfl rfl .flock)) <|
      .cons (l := .enter false ()) (.enter (fun f hf => by cases hf; rfl)) <|
      .cons (.advance (.acquire (t := false) rfl rfl rfl)) <|
      .cons (.advance (.nested (t := false) rfl rfl (by decide +kernel))) <|
      .cons (l := .leave false .raised) (.leave (.nested (t := false) rfl rfl rfl)) <|
      .cons (.advance (.release (t := false) rfl rfl rfl)) <|
      .cons (.advance (.drop (t := false) rfl rfl)) <|
      .cons (l := .leave false .raised) (.leave (.outermost (t := false) rfl rfl rfl)) <|
      .cons (.advance (.closed (t := false) rfl rfl)) <|
      .cons (.advance (.reset (t := false) rfl rfl)) <|
      .cons (.advance (.release (t := false) rfl rfl rfl)) <|
      .single (.advance (.drop (t := false) rfl rfl)), rfl, ?_⟩
    intro t
    cases t <;> rfl
  obtain ⟨steps, s, h, hevents, hleft⟩ := hrun
  exact ⟨steps, s, h, hevents, hleft, (reentrant_path_lock_correct h).2.2 hleft⟩

end Runs

end ReentrantLocks

end SchedulingUtil
