import Mathlib.Logic.Function.Basic
import SchedulingUtil.Lib.Execution

/-! # The path of the control socket

`start` and `stop` of any number of `ScheduleControllerSocketServer`s on one
path. Either looks at the path first and removes what is there a few steps
later; nothing locks the path in between. -/
namespace SchedulingUtil
open Lib

/-- What is at the path. A socket leads to the server that has bound it, or to none
that is left. -/
inductive PathEntry (T : Type) where
  | absent
  | notASocket
  | socket (server : Option T)
  deriving DecidableEq

/-- The next step of a server. `start` returns into `serving`; `stop` begins with
`setStopEvent`. -/
inductive ServerPc where
  | idle
  | pathExists
  | isSocket
  | probe
  | unlink
  | bind
  | chmod
  | listen
  | startThread
  | serving
  | close
  | join
  | pathExistsAtStop
  | isSocketAtStop
  | unlinkAtStop
  | stopped
  | failed
  deriving DecidableEq

namespace ServerPc

/-- `start` is under way: an exception leaves it. -/
def starting : ServerPc → Bool
  | .pathExists | .isSocket | .probe | .unlink | .bind | .chmod | .listen | .startThread => true
  | _ => false

/-- The server's socket is bound and its `stop` has not begun. -/
def live : ServerPc → Bool
  | .chmod | .listen | .startThread | .serving => true
  | _ => false

/-- Connections are accepted. -/
def listening : ServerPc → Bool
  | .startThread | .serving | .close => true
  | _ => false

/-- The server is going to remove what it has found at the path, or may find. -/
def unlinking : ServerPc → Bool
  | .unlink | .close | .join | .pathExistsAtStop | .isSocketAtStop | .unlinkAtStop => true
  | _ => false

end ServerPc

/-- The steps of one server, but for the probe. -/
inductive ServerStep {T : Type} (t : T) :
    ServerPc × PathEntry T → ServerPc × PathEntry T → Prop where
  | start {p : PathEntry T} : ServerStep t (.idle, p) (.pathExists, p)
  | existsNot : ServerStep t (.pathExists, .absent) (.bind, .absent)
  | pathExists {p : PathEntry T} (h : p ≠ .absent) : ServerStep t (.pathExists, p) (.isSocket, p)
  | fileNotFound : ServerStep t (.isSocket, .absent) (.failed, .absent)
  | fileExistsError : ServerStep t (.isSocket, .notASocket) (.failed, .notASocket)
  | isSocket {o : Option T} : ServerStep t (.isSocket, .socket o) (.probe, .socket o)
  | unlink {p : PathEntry T} (h : p ≠ .absent) : ServerStep t (.unlink, p) (.bind, .absent)
  | unlinkNotFound : ServerStep t (.unlink, .absent) (.failed, .absent)
  | bind : ServerStep t (.bind, .absent) (.chmod, .socket (some t))
  | addressInUse {p : PathEntry T} (h : p ≠ .absent) : ServerStep t (.bind, p) (.failed, p)
  | chmod {p : PathEntry T} (h : p ≠ .absent) : ServerStep t (.chmod, p) (.listen, p)
  | chmodNotFound : ServerStep t (.chmod, .absent) (.failed, .absent)
  | listen {p : PathEntry T} : ServerStep t (.listen, p) (.startThread, p)
  | startThread {p : PathEntry T} : ServerStep t (.startThread, p) (.serving, p)
  | setStopEvent {p : PathEntry T} : ServerStep t (.serving, p) (.close, p)
  | close {p : PathEntry T} : ServerStep t (.close, p) (.join, p)
  | join {p : PathEntry T} : ServerStep t (.join, p) (.pathExistsAtStop, p)
  | goneAtStop : ServerStep t (.pathExistsAtStop, .absent) (.stopped, .absent)
  | existsAtStop {p : PathEntry T} (h : p ≠ .absent) :
      ServerStep t (.pathExistsAtStop, p) (.isSocketAtStop, p)
  | isSocketAtStop {o : Option T} :
      ServerStep t (.isSocketAtStop, .socket o) (.unlinkAtStop, .socket o)
  | isNoSocketAtStop {p : PathEntry T} (h : ∀ o, p ≠ .socket o) :
      ServerStep t (.isSocketAtStop, p) (.stopped, p)
  | unlinkAtStop {p : PathEntry T} : ServerStep t (.unlinkAtStop, p) (.stopped, .absent)

structure SocketPath (T : Type) where
  path : PathEntry T
  pc : T → ServerPc

inductive SocketEvent (T : Type) where
  | step (t : T)
  | probe (t : T) (accepted : Bool)
  | raise (t : T)

section Steps
variable {T : Type} [DecidableEq T]

def SocketPath.setPc (s : SocketPath T) (t : T) (pc : ServerPc) : SocketPath T :=
  { s with pc := Function.update s.pc t pc }

@[simp] theorem SocketPath.setPc_path (s : SocketPath T) (t : T) (pc : ServerPc) :
    (s.setPc t pc).path = s.path := rfl
@[simp] theorem SocketPath.setPc_same (s : SocketPath T) (t : T) (pc : ServerPc) :
    (s.setPc t pc).pc t = pc := Function.update_self ..
theorem SocketPath.setPc_other (s : SocketPath T) {t u : T} (pc : ServerPc) (h : u ≠ t) :
    (s.setPc t pc).pc u = s.pc u := Function.update_of_ne h ..

/-- A socket at the path whose server listens. The probe can be refused there as
well, when too many connections wait. -/
def SocketPath.Listening (s : SocketPath T) : Prop :=
  ∃ t, s.path = .socket (some t) ∧ (s.pc t).listening = true

inductive SocketStep : SocketPath T → SocketEvent T → SocketPath T → Prop where
  | step {s : SocketPath T} {t : T} {pc : ServerPc} {path : PathEntry T}
      (h : ServerStep t (s.pc t, s.path) (pc, path)) :
      SocketStep s (.step t) ({ s with path }.setPc t pc)
  | accepted {s : SocketPath T} {t : T} (hpc : s.pc t = .probe) (h : s.Listening) :
      SocketStep s (.probe t true) (s.setPc t .failed)
  | refused {s : SocketPath T} {t : T} (hpc : s.pc t = .probe) :
      SocketStep s (.probe t false) (s.setPc t .unlink)
  | raise {s : SocketPath T} {t : T} (hpc : (s.pc t).starting = true) :
      SocketStep s (.raise t) (s.setPc t .failed)

end Steps

/-! ## What the checks rest on -/

variable {T : Type}

/-- A condition on a step in its state: no server binds its socket while another is
about to remove what is at the path, and no probe is refused by a live server. -/
def ChecksHold (x : SocketPath T × SocketEvent T) : Prop :=
  match x.2 with
  | .step t => x.1.pc t = .bind → x.1.path = .absent → ∀ u, u ≠ t → (x.1.pc u).unlinking = false
  | .probe _ false => ∀ u, x.1.path = .socket (some u) → (x.1.pc u).live = false
  | _ => True

/-- **The invariant.** The path leads to every live server, and nobody is about to
remove it. -/
structure Owned (s : SocketPath T) : Prop where
  path : ∀ t, (s.pc t).live = true → s.path = .socket (some t)
  kept : ∀ t u, (s.pc t).live = true → (s.pc u).unlinking = false

/-- What a step of a server changes: it binds its socket where nothing is, it removes
what is at the path, or it leaves the path alone. -/
theorem ServerStep.cases_path {t : T} {pc pc' : ServerPc} {p p' : PathEntry T}
    (h : ServerStep t (pc, p) (pc', p')) :
    (pc = .bind ∧ p = .absent ∧ p' = .socket (some t) ∧ pc' = .chmod) ∨
      (pc.unlinking = true ∧ p' = .absent ∧ pc'.live = false) ∨
      (p' = p ∧ (pc'.live = true → pc.live = true) ∧
        (pc'.unlinking = true → pc.live = true ∨ pc.unlinking = true)) := by
  cases h with
  | bind => exact .inl ⟨rfl, rfl, rfl, rfl⟩
  | unlink => exact .inr (.inl ⟨rfl, rfl, rfl⟩)
  | unlinkAtStop => exact .inr (.inl ⟨rfl, rfl, rfl⟩)
  | _ =>
    exact .inr (.inr ⟨rfl, by simp [ServerPc.live], by simp [ServerPc.unlinking, ServerPc.live]⟩)

theorem ServerPc.not_unlinking_of_live {pc : ServerPc} (h : pc.live = true) :
    pc.unlinking = false := by
  cases pc <;> first | rfl | cases h

namespace Owned
variable {s : SocketPath T}

theorem live_unique (h : Owned s) {t u : T} (ht : (s.pc t).live = true)
    (hu : (s.pc u).live = true) : t = u := by
  have hpath := h.path t ht
  rw [h.path u hu] at hpath
  exact (Option.some.inj (PathEntry.socket.inj hpath)).symm

variable [DecidableEq T]

/-- A server leaves the path alone: it is live only if it was, and sets out to remove
something only while no other is live. -/
theorem setPc (h : Owned s) {t : T} {pc : ServerPc}
    (hlive : pc.live = true → (s.pc t).live = true)
    (hunlinking : pc.unlinking = true → ∀ u, u ≠ t → (s.pc u).live = false) :
    Owned (s.setPc t pc) where
  path u hu := by
    by_cases hut : u = t
    · subst hut
      rw [SocketPath.setPc_same] at hu
      exact h.path u (hlive hu)
    · rw [SocketPath.setPc_other _ _ hut] at hu
      exact h.path u hu
  kept u v hu := by
    by_cases hvt : v = t
    · subst hvt
      rw [SocketPath.setPc_same]
      by_cases huv : u = v
      · subst huv
        rw [SocketPath.setPc_same] at hu
        exact ServerPc.not_unlinking_of_live hu
      · rw [SocketPath.setPc_other _ _ huv] at hu
        by_contra hne
        rw [hunlinking (by simpa using hne) u huv] at hu
        cases hu
    · rw [SocketPath.setPc_other _ _ hvt]
      by_cases hut : u = t
      · subst hut
        rw [SocketPath.setPc_same] at hu
        exact h.kept u v (hlive hu)
      · rw [SocketPath.setPc_other _ _ hut] at hu
        exact h.kept u v hu

omit [DecidableEq T] in
/-- Nobody is live. -/
theorem of_no_live (h : ∀ t, (s.pc t).live = false) : Owned s where
  path t ht := by rw [h t] at ht; cases ht
  kept t u ht := by rw [h t] at ht; cases ht

/-- A server binds its socket at the free path. -/
theorem bind (h : Owned s) {t : T} (hpath : s.path = .absent)
    (hquiet : ∀ u, u ≠ t → (s.pc u).unlinking = false) :
    Owned ({ s with path := .socket (some t) }.setPc t .chmod) := by
  have hdead (u : T) : (s.pc u).live = false := by
    by_contra hne
    have hu := h.path u (by simpa using hne)
    rw [hpath] at hu
    cases hu
  have honly (u : T) (hut : u ≠ t)
      (hu : (({ s with path := .socket (some t) }.setPc t .chmod).pc u).live = true) : False := by
    rw [SocketPath.setPc_other _ _ hut, hdead u] at hu
    cases hu
  constructor
  · intro u hu
    by_cases hut : u = t
    · rw [hut]
      rfl
    · exact (honly u hut hu).elim
  · intro u v hu
    by_cases hvt : v = t
    · subst hvt
      rw [SocketPath.setPc_same]
      rfl
    · rw [SocketPath.setPc_other _ _ hvt]
      exact hquiet v hvt

end Owned

section Runs
variable [DecidableEq T]

theorem owned_step {s s' : SocketPath T} {l : SocketEvent T} (h : Owned s)
    (hstep : SocketStep s l s') (hchecks : ChecksHold (s, l)) : Owned s' := by
  cases hstep with
  | @step t pc path hs =>
    rcases hs.cases_path with ⟨hpc, hp, hp', hpc'⟩ | ⟨hpc, hp', hpc'⟩ | ⟨hp', hlive, hunlinking⟩
    · rw [hp', hpc']
      exact h.bind hp (hchecks hpc hp)
    · -- who removes the path finds no live server
      refine Owned.of_no_live ?_
      intro u
      by_cases hut : u = t
      · rw [hut, SocketPath.setPc_same]
        exact hpc'
      · rw [SocketPath.setPc_other _ _ hut]
        by_contra hne
        have hkept := h.kept u t (by simpa using hne)
        rw [hpc] at hkept
        cases hkept
    · rw [hp']
      refine h.setPc hlive ?_
      intro hu v hvt
      by_contra hne
      have hv : (s.pc v).live = true := by simpa using hne
      rcases hunlinking hu with ht | ht
      · exact hvt (h.live_unique hv ht)
      · have hkept := h.kept v t hv
        rw [ht] at hkept
        cases hkept
  | accepted hpc => exact h.setPc (by simp [ServerPc.live]) (by simp [ServerPc.unlinking])
  | refused hpc =>
    refine h.setPc (by simp [ServerPc.live]) ?_
    intro _ u _
    by_contra hne
    have hu : (s.pc u).live = true := by simpa using hne
    have hrefused := hchecks u (h.path u hu)
    rw [hu] at hrefused
    cases hrefused
  | raise hpc => exact h.setPc (by simp [ServerPc.live]) (by simp [ServerPc.unlinking])

/-- No server has been started; anything may be at the path. -/
def SocketPath.Unstarted (s : SocketPath T) : Prop := ∀ t, s.pc t = .idle

theorem owned_run {s₀ s : SocketPath T} {steps : List (SocketPath T × SocketEvent T)}
    (h : Execution SocketStep s₀ steps s) (h₀ : s₀.Unstarted)
    (hchecks : ∀ x ∈ steps, ChecksHold x) : Owned s := by
  induction h with
  | refl => exact Owned.of_no_live fun t => by rw [h₀ t]; rfl
  | snoc h hl ih =>
    refine owned_step (ih fun x hx => hchecks x (List.mem_append_left _ hx)) hl ?_
    exact hchecks _ (List.mem_append_right _ (List.mem_singleton_self _))

/-- **A control socket stays its server's own** while the server is serving, in every
run in which the checks of `start` and `stop` still hold when they are acted on. -/
theorem socket_stays_own {s₀ s : SocketPath T} {steps : List (SocketPath T × SocketEvent T)}
    (h : Execution SocketStep s₀ steps s) (h₀ : s₀.Unstarted)
    (hchecks : ∀ x ∈ steps, ChecksHold x) (t : T) (ht : s.pc t = .serving) :
    s.path = .socket (some t) ∧ (s.pc t).listening = true := by
  refine ⟨(owned_run h h₀ hchecks).path t ?_, ?_⟩ <;> rw [ht] <;> rfl

end Runs

/-! ### A path left behind, and two servers -/

def stalePath : SocketPath Bool := ⟨.socket none, fun _ => .idle⟩

/-- The first server replaces the stale socket, and the second one's `start` fails. -/
theorem socket_stays_own_beside_refused :
    ∃ steps s, Execution SocketStep stalePath steps s ∧ s.pc true = .failed ∧
      s.pc false = .serving ∧ s.path = .socket (some false) := by
  have hrun : Execution SocketStep stalePath [_, _, _, _, _, _, _, _, _, _, _, _, _] _ :=
    .cons (.step (t := false) .start) <|
    .cons (.step (t := false) (.pathExists (by simp [stalePath]))) <|
    .cons (.step (t := false) .isSocket) <|
    .cons (.refused (t := false) rfl) <|
    .cons (.step (t := false) (.unlink (by simp))) <|
    .cons (.step (t := false) .bind) <|
    .cons (.step (t := false) (.chmod (by simp))) <|
    .cons (.step (t := false) .listen) <|
    .cons (.step (t := false) .startThread) <|
    .cons (.step (t := true) .start) <|
    .cons (.step (t := true) (.pathExists (by simp))) <|
    .cons (.step (t := true) .isSocket) <|
    .single (.accepted (t := true) rfl ⟨false, rfl, rfl⟩)
  refine ⟨_, _, hrun, rfl, rfl, (socket_stays_own hrun (fun _ => rfl) ?_ false rfl).1⟩
  simp only [List.forall_mem_cons]
  refine ⟨?_, ?_, ?_, ?_, ?_, ?_, ?_, ?_, ?_, ?_, ?_, ?_, trivial, by simp⟩
  case refine_4 => exact fun u hu => by cases hu
  case refine_6 =>
    intro _ _ u hu
    obtain rfl : u = true := by simpa using hu
    rfl
  all_goals
    intro hpc
    cases hpc

/-- Both servers find the stale socket; the one that is later removes the other's. -/
theorem start_removes_live_socket :
    ∃ steps s, Execution SocketStep stalePath steps s ∧ s.pc false = .serving ∧
      s.path = .absent := by
  refine ⟨_, _,
    .cons (.step (t := false) .start) <|
    .cons (.step (t := false) (.pathExists (by simp [stalePath]))) <|
    .cons (.step (t := false) .isSocket) <|
    .cons (.refused (t := false) rfl) <|
    .cons (.step (t := true) .start) <|
    .cons (.step (t := true) (.pathExists (by simp))) <|
    .cons (.step (t := true) .isSocket) <|
    .cons (.refused (t := true) rfl) <|
    .cons (.step (t := false) (.unlink (by simp))) <|
    .cons (.step (t := false) .bind) <|
    .cons (.step (t := false) (.chmod (by simp))) <|
    .cons (.step (t := false) .listen) <|
    .cons (.step (t := false) .startThread) <|
    .single (.step (t := true) (.unlink (by simp))), rfl, rfl⟩

end SchedulingUtil
