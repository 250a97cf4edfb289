import Mathlib.Logic.Function.Basic
import Mathlib.Logic.Relation
import SchedulingUtil.Lib.Execution

/-! # Operations inside a lock

Threads run operations on a shared state, each operation a sequence of small
steps between the entry of a lock and its exit. What a lock has to do is the
interface `Mutex`. The main result, `serializable`: whatever the interleaving,
the shared state and the threads' memories are those of the operations run one
at a time, in the order in which they leave the lock, but for at most one
operation that is under way. `calls_of_execution`: that order respects the order of
the calls of each thread, an operation leaving the lock between its invocation and its
response. -/
namespace SchedulingUtil.Lib

/-- A lock, as far as its users can tell: a thread requests it, some steps of the
lock's own code later it holds it, and gives it back. -/
structure Mutex (T : Type*) where
  State : Type*
  request : T → State → State → Prop
  advance : T → State → State → Prop
  release : T → State → State → Prop
  holds : State → T → Prop
  idle : State → T → Prop
  /-- The invariant under which the lock works. -/
  Sound : State → Prop
  sound_request : ∀ {t s s'}, Sound s → idle s t → request t s s' → Sound s'
  sound_advance : ∀ {t s s'}, Sound s → advance t s s' → Sound s'
  sound_release : ∀ {t s s'}, Sound s → release t s s' → Sound s'
  exclusive : ∀ {s t u}, Sound s → holds s t → holds s u → t = u
  holds_request : ∀ {t s s' u}, Sound s → idle s t → request t s s' → holds s u → holds s' u
  holds_advance : ∀ {t s s' u}, Sound s → advance t s s' → holds s u → holds s' u
  holds_release : ∀ {t s s' u}, Sound s → release t s s' → u ≠ t → holds s u → holds s' u

/-- Operations: `Loc` is the state of one under way, in which it has its own copy
of the thread's memory. -/
structure Sections (Op Ret Mem Loc S : Type*) where
  start : Op → Mem → Option Loc
  body : Loc × S → Loc × S → Prop
  finish : Loc → Option (Ret × Mem)

inductive ThreadState (Op Ret Mem Loc : Type*) where
  | idle (m : Mem)
  | entering (op : Op) (m : Mem)
  | running (op : Op) (m : Mem) (loc : Loc)
  | leaving (op : Op) (r : Ret) (m : Mem)

/-- The memory a thread has outside of the operation that is under way. -/
def ThreadState.mem {Op Ret Mem Loc : Type*} : ThreadState Op Ret Mem Loc → Mem
  | .idle m | .entering _ m | .running _ m _ | .leaving _ _ m => m

inductive GuardedEvent (T Op Ret : Type*) where
  | invoke (t : T) (op : Op)
  | enter (t : T)
  | begin (t : T)
  | body (t : T)
  | commit (t : T) (op : Op) (r : Ret)
  | respond (t : T) (op : Op) (r : Ret)

/-- The thread that takes the step. -/
def GuardedEvent.thread {T Op Ret : Type*} : GuardedEvent T Op Ret → T
  | .invoke t _ | .enter t | .begin t | .body t | .commit t _ _ | .respond t _ _ => t

namespace Guarded

variable {T Op Ret Mem Loc S : Type*}

structure Config (M : Mutex T) (Op Ret Mem Loc S : Type*) where
  lock : M.State
  shared : S
  thread : T → ThreadState Op Ret Mem Loc

variable {M : Mutex T} (P : Sections Op Ret Mem Loc S)

section Serializable
variable [DecidableEq T]

namespace Config

def set (c : Config M Op Ret Mem Loc S) (t : T) (th : ThreadState Op Ret Mem Loc) :
    Config M Op Ret Mem Loc S := { c with thread := Function.update c.thread t th }

@[simp] theorem set_shared (c : Config M Op Ret Mem Loc S) (t : T)
    (th : ThreadState Op Ret Mem Loc) : (c.set t th).shared = c.shared := rfl
@[simp] theorem set_same (c : Config M Op Ret Mem Loc S) (t : T)
    (th : ThreadState Op Ret Mem Loc) : (c.set t th).thread t = th := Function.update_self ..
theorem set_other (c : Config M Op Ret Mem Loc S) {t u : T} (th : ThreadState Op Ret Mem Loc)
    (h : u ≠ t) : (c.set t th).thread u = c.thread u := Function.update_of_ne h ..

end Config

/-- One step of one thread. -/
inductive Step : Config M Op Ret Mem Loc S → GuardedEvent T Op Ret →
    Config M Op Ret Mem Loc S → Prop where
  | invoke {c : Config M Op Ret Mem Loc S} {t : T} {op : Op} {m : Mem} {lock : M.State}
      (ht : c.thread t = .idle m) (hi : M.idle c.lock t) (hl : M.request t c.lock lock) :
      Step c (.invoke t op) ({ c with lock }.set t (.entering op m))
  | enter {c : Config M Op Ret Mem Loc S} {t : T} {lock : M.State}
      (hl : M.advance t c.lock lock) : Step c (.enter t) { c with lock }
  | begin {c : Config M Op Ret Mem Loc S} {t : T} {op : Op} {m : Mem} {loc : Loc}
      (ht : c.thread t = .entering op m) (hh : M.holds c.lock t) (hs : P.start op m = some loc) :
      Step c (.begin t) (c.set t (.running op m loc))
  | body {c : Config M Op Ret Mem Loc S} {t : T} {op : Op} {m : Mem} {loc loc' : Loc} {shared : S}
      (ht : c.thread t = .running op m loc) (hb : P.body (loc, c.shared) (loc', shared)) :
      Step c (.body t) ({ c with shared }.set t (.running op m loc'))
  | commit {c : Config M Op Ret Mem Loc S} {t : T} {op : Op} {m m' : Mem} {loc : Loc} {r : Ret}
      {lock : M.State} (ht : c.thread t = .running op m loc) (hf : P.finish loc = some (r, m'))
      (hl : M.release t c.lock lock) :
      Step c (.commit t op r) ({ c with lock }.set t (.leaving op r m'))
  | respond {c : Config M Op Ret Mem Loc S} {t : T} {op : Op} {m : Mem} {r : Ret}
      (ht : c.thread t = .leaving op r m) (hi : M.idle c.lock t) :
      Step c (.respond t op r) (c.set t (.idle m))

/-! ## The serial order -/

/-- The operation, run alone. -/
def Runs (op : Op) (m : Mem) (s : S) (r : Ret) (m' : Mem) (s' : S) : Prop :=
  ∃ loc loc', P.start op m = some loc ∧ Relation.ReflTransGen P.body (loc, s) (loc', s') ∧
    P.finish loc' = some (r, m')

variable {P} in
/-- **Rule for one operation.** What its steps preserve holds when it finishes. -/
theorem Runs.invariant {I : Loc × S → Prop} {op : Op} {m m' : Mem} {s s' : S} {r : Ret}
    (h : Runs P op m s r m' s') (hstart : ∀ loc, P.start op m = some loc → I (loc, s))
    (hstep : ∀ x y, I x → P.body x y → I y) :
    ∃ loc, I (loc, s') ∧ P.finish loc = some (r, m') := by
  obtain ⟨loc, loc', hs, hpath, hf⟩ := h
  refine ⟨loc', ?_, hf⟩
  generalize (loc', s') = x at hpath
  induction hpath with
  | refl => exact hstart loc hs
  | tail _ hl ih => exact hstep _ _ ih hl

/-- Operations run one after the other, with what they returned. -/
inductive Serial (s : S) (ms : T → Mem) : List (T × Op × Ret) → S → (T → Mem) → Prop where
  | nil : Serial s ms [] s ms
  | snoc {log : List (T × Op × Ret)} {s' s'' : S} {ms' : T → Mem} {t : T} {op : Op} {r : Ret}
      {m' : Mem} (h : Serial s ms log s' ms') (hr : Runs P op (ms' t) s' r m' s'') :
      Serial s ms (log ++ [(t, op, r)]) s'' (Function.update ms' t m')

variable {P} in
/-- Each operation of a serial order runs behind those before it. -/
theorem Serial.before {s s' : S} {ms ms' : T → Mem} {pre post : List (T × Op × Ret)} {t : T}
    {op : Op} {r : Ret} (h : Serial P s ms (pre ++ (t, op, r) :: post) s' ms') :
    ∃ s₁ ms₁ m' s₂, Serial P s ms pre s₁ ms₁ ∧ Runs P op (ms₁ t) s₁ r m' s₂ := by
  induction post using List.reverseRecOn generalizing s' ms' with
  | nil =>
    generalize hlog : pre ++ [(t, op, r)] = log at h
    cases h with
    | nil => simp at hlog
    | snoc h hr =>
      obtain ⟨rfl, hlast⟩ := List.append_inj' hlog rfl
      cases hlast
      exact ⟨_, _, _, _, h, hr⟩
  | append_singleton post x ih =>
    generalize hlog : pre ++ (t, op, r) :: (post ++ [x]) = log at h
    cases h with
    | nil => simp at hlog
    | snoc h hr =>
      rw [← List.cons_append, ← List.append_assoc] at hlog
      obtain ⟨rfl, -⟩ := List.append_inj' hlog rfl
      exact ih h

end Serializable

def committed? : GuardedEvent T Op Ret → Option (T × Op × Ret)
  | .commit t op r => some (t, op, r)
  | _ => none

theorem eq_commit_of_committed? {e : GuardedEvent T Op Ret} {x : T × Op × Ret}
    (h : committed? e = some x) : e = .commit x.1 x.2.1 x.2.2 := by
  cases e with
  | commit t op r =>
    cases h
    rfl
  | _ => cases h

/-- The operations that have left the lock, in that order. -/
def commits {C : Type*} (steps : List (C × GuardedEvent T Op Ret)) : List (T × Op × Ret) :=
  steps.filterMap fun x => committed? x.2

theorem commits_snoc {C : Type*} (steps : List (C × GuardedEvent T Op Ret)) (c : C)
    (e : GuardedEvent T Op Ret) :
    commits (steps ++ [(c, e)]) = commits steps ++ (committed? e).toList := by
  rw [commits, List.filterMap_append]
  cases h : committed? e <;> simp [commits, h]

def IsRunning : ThreadState Op Ret Mem Loc → Prop
  | .running _ _ _ => True
  | _ => False

/-- No operation is under way inside the lock. -/
def AtRest (c : Config M Op Ret Mem Loc S) : Prop := ∀ t, ¬ IsRunning (c.thread t)

/-! ## What the lock protects -/

/-- The shared state satisfies `rest` while nobody is inside the lock, and `inside` with the
operation that is. -/
structure Protects (mem : T → Mem → Prop) (rest : S → Prop)
    (inside : T → Op → Mem → Loc → S → Prop) (c : Config M Op Ret Mem Loc S) : Prop where
  sound : M.Sound c.lock
  mem : ∀ t, mem t (c.thread t).mem
  holds : ∀ t, IsRunning (c.thread t) → M.holds c.lock t
  rest : AtRest c → rest c.shared
  inside : ∀ t op m loc, c.thread t = .running op m loc → inside t op m loc c.shared

section Protects
variable {P} {mem : T → Mem → Prop} {rest : S → Prop} {inside : T → Op → Mem → Loc → S → Prop}
  {c c' : Config M Op Ret Mem Loc S}

theorem Protects.unique (h : Protects mem rest inside c) {t u : T} (ht : M.holds c.lock t)
    (hu : IsRunning (c.thread u)) : u = t := M.exclusive h.sound (h.holds u hu) ht

theorem Protects.atRest (h : Protects mem rest inside c) {t : T} (ht : M.holds c.lock t)
    (hn : ¬ IsRunning (c.thread t)) : AtRest c := by
  intro u hu
  obtain rfl := h.unique ht hu
  exact hn hu

variable [DecidableEq T]

/-- Changing a thread that is not in the critical section, before or after. -/
theorem Protects.set (h : Protects mem rest inside c) {t : T} {th : ThreadState Op Ret Mem Loc}
    (hs : M.Sound c'.lock) (hthread : c'.thread = c.thread) (hshared : c'.shared = c.shared)
    (hkeep : ∀ u, M.holds c.lock u → M.holds c'.lock u) (hn : ¬ IsRunning (c.thread t))
    (hn' : ¬ IsRunning th) (hm : th.mem = (c.thread t).mem) :
    Protects mem rest inside (c'.set t th) where
  sound := hs
  mem u := by
    by_cases hu : u = t
    · rw [hu, Config.set_same, hm]
      exact h.mem t
    · rw [Config.set_other _ _ hu, hthread]
      exact h.mem u
  holds u hu := by
    by_cases hut : u = t
    · rw [hut, Config.set_same] at hu
      exact absurd hu hn'
    · rw [Config.set_other _ _ hut, hthread] at hu
      exact hkeep u (h.holds u hu)
  rest hrest := by
    rw [Config.set_shared, hshared]
    refine h.rest ?_
    intro u hu
    have hut : u ≠ t := by
      rintro rfl
      exact hn hu
    have hnot := hrest u
    rw [Config.set_other _ _ hut, hthread] at hnot
    exact hnot hu
  inside u op m loc hu := by
    have hut : u ≠ t := by
      rintro rfl
      rw [Config.set_same] at hu
      exact hn' (by rw [hu]; trivial)
    rw [Config.set_other _ _ hut, hthread] at hu
    rw [Config.set_shared, hshared]
    exact h.inside u op m loc hu

/-- The thread that holds the lock enters its operation, or takes a step of it. -/
theorem Protects.setRunning (h : Protects mem rest inside c) {t : T} {op : Op} {m : Mem}
    {loc : Loc} (ht : M.holds c.lock t) (hm : (c.thread t).mem = m) (hlock : c'.lock = c.lock)
    (hthread : c'.thread = c.thread) (hinside : inside t op m loc c'.shared) :
    Protects mem rest inside (c'.set t (.running op m loc)) where
  sound := by
    have hs := h.sound
    rwa [← hlock] at hs
  mem u := by
    by_cases hu : u = t
    · rw [hu, Config.set_same, ThreadState.mem, ← hm]
      exact h.mem t
    · rw [Config.set_other _ _ hu, hthread]
      exact h.mem u
  holds u hu := by
    have hlock' : (c'.set t (.running op m loc)).lock = c.lock := hlock
    rw [hlock']
    by_cases hut : u = t
    · rw [hut]
      exact ht
    · rw [Config.set_other _ _ hut, hthread] at hu
      exact h.holds u hu
  rest hrest := absurd (by rw [Config.set_same]; trivial) (hrest t)
  inside u op' m' loc' hu := by
    by_cases hut : u = t
    · subst hut
      rw [Config.set_same] at hu
      cases hu
      exact hinside
    · rw [Config.set_other _ _ hut, hthread] at hu
      exact absurd (h.unique ht (by rw [hu]; trivial)) hut

/-- **The rule for a step that is no commit**: what is protected has to be kept by the
beginning of an operation and by its steps. -/
theorem Protects.step {e : GuardedEvent T Op Ret} (h : Protects mem rest inside c)
    (hstep : Step P c e c') (he : committed? e = none)
    (hbegin : ∀ t op m loc, mem t m → rest c.shared → P.start op m = some loc →
      inside t op m loc c.shared)
    (hbody : ∀ t op m loc loc', e = .body t → c.thread t = .running op m loc →
      inside t op m loc c.shared → P.body (loc, c.shared) (loc', c'.shared) →
      inside t op m loc' c'.shared) :
    Protects mem rest inside c' := by
  cases hstep with
  | @invoke t op m lock ht hi hl =>
    exact h.set (M.sound_request h.sound hi hl) rfl rfl (fun _ => M.holds_request h.sound hi hl)
      (by rw [ht]; exact id) id (by rw [ht]; rfl)
  | @enter t lock hl =>
    exact ⟨M.sound_advance h.sound hl, h.mem, fun u hu => M.holds_advance h.sound hl (h.holds u hu),
      h.rest, h.inside⟩
  | @begin t op m loc ht hh hs =>
    have hmem := h.mem t
    rw [ht] at hmem
    have hrest := h.rest (h.atRest hh (by rw [ht]; exact id))
    exact h.setRunning hh (by rw [ht]; rfl) rfl rfl (hbegin t op m loc hmem hrest hs)
  | @body t op m loc loc' shared ht hb =>
    exact h.setRunning (h.holds t (by rw [ht]; trivial)) (by rw [ht]; rfl) rfl rfl
      (hbody t op m loc loc' rfl ht (h.inside t op m loc ht) hb)
  | commit ht hf hl => cases he
  | @respond t op m r ht hi =>
    exact h.set h.sound rfl rfl (fun _ => id) (by rw [ht]; exact id) id (by rw [ht]; rfl)

/-- Nobody is inside right behind a commit. -/
theorem Protects.atRest_of_commit (h : Protects mem rest inside c) {t : T} {op : Op} {r : Ret}
    (hstep : Step P c (.commit t op r) c') : AtRest c' := by
  cases hstep with
  | commit ht hf hl =>
    intro u hu
    by_cases hut : u = t
    · rw [hut, Config.set_same] at hu
      exact hu
    · rw [Config.set_other _ _ hut] at hu
      exact hut (h.unique (h.holds t (by rw [ht]; trivial)) hu)

/-- **The rule for a commit.** -/
theorem Protects.commit (h : Protects mem rest inside c) {t : T} {op : Op} {r : Ret}
    (hstep : Step P c (.commit t op r) c') {mem' : T → Mem → Prop} {rest' : S → Prop}
    {inside' : T → Op → Mem → Loc → S → Prop} (hmem : ∀ u m, u ≠ t → mem u m → mem' u m)
    (hfinish : ∀ m loc m', c.thread t = .running op m loc → inside t op m loc c.shared →
      P.finish loc = some (r, m') → mem' t m' ∧ rest' c.shared) :
    Protects mem' rest' inside' c' := by
  have hrest := h.atRest_of_commit hstep
  cases hstep with
  | @commit _ _ m m' loc _ lock ht hf hl =>
    obtain ⟨hm', hshared⟩ := hfinish m loc m' ht (h.inside t op m loc ht) hf
    refine ⟨M.sound_release h.sound hl, fun u => ?_, fun u hu => absurd hu (hrest u),
      fun _ => hshared, fun u op m loc hu => absurd (by rw [hu]; trivial) (hrest u)⟩
    by_cases hut : u = t
    · rw [hut, Config.set_same]
      exact hm'
    · rw [Config.set_other _ _ hut]
      exact hmem u _ hut (h.mem u)

end Protects

/-! ## Serializability -/

/-- A configuration beside the state `s` and the memories `ms` of the serial
order: they agree, but for an operation under way. -/
structure Agrees (c : Config M Op Ret Mem Loc S) (s : S) (ms : T → Mem) : Prop where
  sound : M.Sound c.lock
  mem : ∀ t, (c.thread t).mem = ms t
  holds : ∀ t, IsRunning (c.thread t) → M.holds c.lock t
  shared : AtRest c ∧ c.shared = s ∨
    ∃ t op m loc loc₀, c.thread t = .running op m loc ∧ P.start op m = some loc₀ ∧
      Relation.ReflTransGen P.body (loc₀, s) (loc, c.shared)

/-- Nobody has called anything. -/
structure Quiet (c : Config M Op Ret Mem Loc S) : Prop where
  sound : M.Sound c.lock
  lock : ∀ t, M.idle c.lock t
  thread : ∀ t, ∃ m, c.thread t = .idle m

theorem Quiet.not_running {c : Config M Op Ret Mem Loc S} (h : Quiet c) : AtRest c := by
  intro t
  obtain ⟨m, hm⟩ := h.thread t
  rw [hm]
  exact id

theorem Quiet.agrees {c : Config M Op Ret Mem Loc S} (h : Quiet c) :
    Agrees P c c.shared fun t => (c.thread t).mem where
  sound := h.sound
  mem _ := rfl
  holds t ht := absurd ht (h.not_running t)
  shared := .inl ⟨h.not_running, rfl⟩

variable {P}

theorem Agrees.running {c : Config M Op Ret Mem Loc S} {s : S} {ms : T → Mem}
    (h : Agrees P c s ms) {t : T} {op : Op} {m : Mem} {loc : Loc}
    (ht : c.thread t = .running op m loc) :
    ∃ loc₀, P.start op m = some loc₀ ∧
      Relation.ReflTransGen P.body (loc₀, s) (loc, c.shared) := by
  have hrun : IsRunning (c.thread t) := by rw [ht]; trivial
  rcases h.shared with ⟨hnone, -⟩ | ⟨u, op', m', loc', loc₀, hu, hs, hb⟩
  · exact absurd hrun (hnone t)
  · obtain rfl : u = t :=
      M.exclusive h.sound (h.holds u (by rw [hu]; trivial)) (h.holds t hrun)
    rw [ht] at hu
    cases hu
    exact ⟨loc₀, hs, hb⟩

theorem Agrees.shared_atRest {c : Config M Op Ret Mem Loc S} {s : S} {ms : T → Mem}
    (h : Agrees P c s ms) (hrest : AtRest c) : c.shared = s := by
  rcases h.shared with ⟨-, hs⟩ | ⟨u, op, m, loc, loc₀, hu, -, -⟩
  · exact hs
  · exact absurd (by rw [hu]; trivial) (hrest u)

variable (P) in
/-- What is protected: the state `s` and the memories `ms` of the serial order. -/
theorem agrees_iff {c : Config M Op Ret Mem Loc S} {s : S} {ms : T → Mem} :
    Agrees P c s ms ↔ Protects (fun t m => m = ms t) (fun shared => shared = s)
      (fun _ op m loc shared => ∃ loc₀, P.start op m = some loc₀ ∧
        Relation.ReflTransGen P.body (loc₀, s) (loc, shared)) c := by
  constructor
  · intro h
    exact ⟨h.sound, h.mem, h.holds, h.shared_atRest, fun t op m loc ht => h.running ht⟩
  · intro h
    refine ⟨h.sound, h.mem, h.holds, ?_⟩
    by_cases hrest : AtRest c
    · exact .inl ⟨hrest, h.rest hrest⟩
    · obtain ⟨t, ht⟩ := not_forall_not.mp hrest
      cases hc : c.thread t with
      | running op m loc =>
        obtain ⟨loc₀, hs, hpath⟩ := h.inside t op m loc hc
        exact .inr ⟨t, op, m, loc, loc₀, hc, hs, hpath⟩
      | _ =>
        rw [hc] at ht
        exact ht.elim

variable [DecidableEq T]

/-- A step that is no commit leaves the serial order as it is. -/
theorem agrees_step {c c' : Config M Op Ret Mem Loc S} {e : GuardedEvent T Op Ret} {s : S}
    {ms : T → Mem} (h : Agrees P c s ms) (hstep : Step P c e c') (he : committed? e = none) :
    Agrees P c' s ms := by
  rw [agrees_iff] at h ⊢
  refine h.step hstep he ?_ ?_
  · intro t op m loc _ hshared hs
    exact ⟨loc, hs, by rw [hshared]⟩
  · intro t op m loc loc' _ _ hinside hb
    obtain ⟨loc₀, hs, hpath⟩ := hinside
    exact ⟨loc₀, hs, hpath.tail hb⟩

/-- A commit adds its operation to the serial order. -/
theorem agrees_commit {c c' : Config M Op Ret Mem Loc S} {t : T} {op : Op} {r : Ret} {s : S}
    {ms : T → Mem} (h : Agrees P c s ms) (hstep : Step P c (.commit t op r) c') :
    ∃ m', Runs P op (ms t) s r m' c'.shared ∧
      Agrees P c' c'.shared (Function.update ms t m') := by
  have hprotects := (agrees_iff P).mp h
  cases hstep with
  | @commit _ _ m m' loc _ lock ht hf hl =>
    obtain ⟨loc₀, hst, hpath⟩ := h.running ht
    have hmem : ms t = m := by rw [← h.mem, ht]; rfl
    refine ⟨m', ⟨loc₀, loc, hmem ▸ hst, hpath, hf⟩, (agrees_iff P).mpr ?_⟩
    refine hprotects.commit (.commit ht hf hl) ?_ ?_
    · intro u m hu hm
      rw [Function.update_of_ne hu]
      exact hm
    · intro m₂ loc₂ m₂' ht₂ _ hf₂
      rw [ht] at ht₂
      cases ht₂
      rw [hf] at hf₂
      cases hf₂
      exact ⟨(Function.update_self t m' ms).symm, rfl⟩

/-- **Every interleaving is serializable**, in the order of the commits. -/
theorem serializable {c c' : Config M Op Ret Mem Loc S} {s : S} {ms : T → Mem}
    {steps : List (Config M Op Ret Mem Loc S × GuardedEvent T Op Ret)}
    (h : Execution (Step P) c steps c') (hc : Agrees P c s ms) :
    ∃ s' ms', Serial P s ms (commits steps) s' ms' ∧ Agrees P c' s' ms' := by
  induction h with
  | refl => exact ⟨s, ms, .nil, hc⟩
  | @snoc c' c'' e steps h hl ih =>
    obtain ⟨s', ms', hserial, hagrees⟩ := ih
    rw [commits_snoc]
    cases he : committed? e with
    | none => exact ⟨s', ms', by simpa using hserial, agrees_step hagrees hl he⟩
    | some x =>
      obtain ⟨t, op, r⟩ := x
      obtain rfl := eq_commit_of_committed? he
      obtain ⟨m', hruns, hagrees'⟩ := agrees_commit hagrees hl
      exact ⟨_, _, .snoc hserial hruns, hagrees'⟩

/-! ## The calls of one thread -/

/-- Between two calls, in one that has not left the lock, in one that has. -/
inductive Phase (Op Ret : Type*) where
  | idle
  | entered (op : Op)
  | left (op : Op) (r : Ret)

def phase : ThreadState Op Ret Mem Loc → Phase Op Ret
  | .idle _ => .idle
  | .entering op _ | .running op _ _ => .entered op
  | .leaving op r _ => .left op r

/-- The events of the thread `t` are calls one after the other, each of which is
invoked, commits and returns what it committed with. -/
inductive Calls (t : T) : List (GuardedEvent T Op Ret) → Phase Op Ret → Prop where
  | nil : Calls t [] .idle
  | invoke {es : List (GuardedEvent T Op Ret)} (h : Calls t es .idle) (op : Op) :
      Calls t (es ++ [.invoke t op]) (.entered op)
  | commit {es : List (GuardedEvent T Op Ret)} {op : Op} (h : Calls t es (.entered op)) (r : Ret) :
      Calls t (es ++ [.commit t op r]) (.left op r)
  | respond {es : List (GuardedEvent T Op Ret)} {op : Op} {r : Ret} (h : Calls t es (.left op r)) :
      Calls t (es ++ [.respond t op r]) .idle
  | other {es : List (GuardedEvent T Op Ret)} {p : Phase Op Ret} {e : GuardedEvent T Op Ret}
      (h : Calls t es p) (hi : ∀ op, e ≠ .invoke t op) (hc : ∀ op r, e ≠ .commit t op r)
      (hr : ∀ op r, e ≠ .respond t op r) : Calls t (es ++ [e]) p

omit [DecidableEq T] in
theorem Quiet.phase_eq {c : Config M Op Ret Mem Loc S} (h : Quiet c) (t : T) :
    phase (c.thread t) = .idle := by
  obtain ⟨m, hm⟩ := h.thread t
  rw [hm, phase]

/-- A step leaves the threads alone that do not take it. -/
theorem thread_other {c c' : Config M Op Ret Mem Loc S} {e : GuardedEvent T Op Ret} {t : T}
    (h : Step P c e c') (ht : e.thread ≠ t) : c'.thread t = c.thread t := by
  cases h with
  | enter => rfl
  | _ => exact Config.set_other _ _ ht.symm

/-- **In every interleaving each thread's events are such calls.** -/
theorem calls_of_execution {c c' : Config M Op Ret Mem Loc S}
    {steps : List (Config M Op Ret Mem Loc S × GuardedEvent T Op Ret)}
    (h : Execution (Step P) c steps c') {t : T} (hidle : phase (c.thread t) = .idle) :
    Calls t (steps.map Prod.snd) (phase (c'.thread t)) := by
  induction h with
  | refl => rw [hidle]; exact .nil
  | @snoc c' c'' e steps h hl ih =>
    rw [List.map_append, List.map_singleton]
    dsimp only
    by_cases ht : e.thread = t
    · cases hl with
      | enter => exact .other ih (by simp) (by simp) (by simp)
      | @invoke u op m lock hu =>
        obtain rfl : u = t := ht
        rw [hu] at ih
        rw [Config.set_same]
        exact .invoke ih op
      | @begin u op m loc hu | @body u op m loc loc' shared hu =>
        obtain rfl : u = t := ht
        rw [hu] at ih
        rw [Config.set_same]
        exact .other ih (by simp) (by simp) (by simp)
      | @commit u op m m' loc r lock hu =>
        obtain rfl : u = t := ht
        rw [hu] at ih
        rw [Config.set_same]
        exact .commit ih r
      | @respond u op m r hu =>
        obtain rfl : u = t := ht
        rw [hu] at ih
        rw [Config.set_same]
        exact .respond ih
    · rw [thread_other hl ht]
      exact .other ih (fun op he => ht (by rw [he]; rfl)) (fun op r he => ht (by rw [he]; rfl))
        fun op r he => ht (by rw [he]; rfl)

end Guarded

end SchedulingUtil.Lib
