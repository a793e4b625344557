import Mathlib
import MediaRelay.Proofs.Registry.Attachments

-- A UDP input holds a socket only on demand. Its worker's loop waits for the gate to open, binds,
-- reads a session and gives the socket up again, each resumption a step of its own, interleaved
-- with the registry's operations. Where the loop is suspended fixes the phase the worker reports,
-- whether its gate is active and whether it holds a socket (`InputWorker.Coherent`), in every
-- reachable state. A slot that no client has reached is pristine: it lists no outlets, and its
-- input waits for a gate that is closed and idle, holding no socket and never bound. Registering
-- a UDP input publishes a pristine slot, and every step but an attachment to that slot keeps it
-- pristine, wherever updates move it. The loop reaches its bind only from a wait that returned on
-- a positive count, so along every run an input binds at most as often as such waits came before.

namespace MediaRelay

namespace Loop

-- the points where the loop of an input of each protocol is ever suspended
def points : Protocol → List Loop
  | .udp => [.waitOpen, .binding, .paused, .reading]
  | .tcp => [.accepting, .paused, .reading]

theorem phase_ne_stopped (p : Protocol) (l : Loop) : l.phase p ≠ .stopped := by
  cases l <;> cases p <;> simp [phase]

end Loop

namespace InputState

variable {s : InputState}

theorem enter_phase (h : s.phase ≠ .stopped) (p : InputPhase) : (s.enter p).phase = p := by
  simp [enter, h]

theorem startSession_phase (h : s.phase ≠ .stopped) (peer : Option Net.SocketAddr) :
    (s.startSession peer).phase = .reading := by
  simp [startSession, h]

theorem endSession_running (h : s.phase ≠ .stopped) (err : Option String) :
    (s.endSession err).phase ≠ .stopped := by
  simp [endSession, h]

end InputState

namespace InputWorker

variable {host : Net.Host} {held : List Net.SocketAddr} {w w' : InputWorker} {id : Uuid}
  {d : InputDescriptor}

theorem init_udp (hu : w.protocol = .udp) :
    w.init host held = .ok { w.release with state := w.state.enter .waiting, loop := .waitOpen } := by
  unfold init
  rw [hu]
  rfl

theorem init_tcp (hu : w.protocol = .tcp) (h : w.init host held = .ok w') :
    ∃ a, w' = { w.markBound a with state := w.state.enter .accepting, loop := .accepting } := by
  unfold init at h
  rw [hu] at h
  cases hb : w.bindRoute host held with
  | error f => simp [hb, bind, Except.bind] at h
  | ok a =>
    simp only [hb, bind, Except.bind, pure, Except.pure, Except.ok.injEq] at h
    exact ⟨a, h.symm⟩

@[simp]
theorem release_protocol : w.release.protocol = w.protocol := rfl

@[simp]
theorem release_gate : w.release.gate = w.gate := rfl

@[simp]
theorem release_count : w.release.binding.count = w.binding.count := rfl

@[simp]
theorem release_local : w.release.binding.local? = none := rfl

@[simp]
theorem markBound_protocol (a : Net.SocketAddr) : (w.markBound a).protocol = w.protocol := rfl

@[simp]
theorem markBound_gate (a : Net.SocketAddr) : (w.markBound a).gate = w.gate := rfl

@[simp]
theorem markBound_binding (a : Net.SocketAddr) :
    (w.markBound a).binding = { local? := some a, count := w.binding.count + 1 } := rfl

@[simp]
theorem startSession_protocol (peer : Option Net.SocketAddr) :
    (w.startSession peer).protocol = w.protocol := rfl

@[simp]
theorem startSession_gate (peer : Option Net.SocketAddr) : (w.startSession peer).gate = w.gate :=
  rfl

@[simp]
theorem startSession_binding (peer : Option Net.SocketAddr) :
    (w.startSession peer).binding = w.binding := rfl

@[simp]
theorem startSession_state (peer : Option Net.SocketAddr) :
    (w.startSession peer).state = w.state.startSession peer := rfl

-- the worker of a UDP input that no client has reached: it waits for its gate, which is closed
-- and idle, and it holds no socket and has never bound one
structure Idle (w : InputWorker) : Prop where
  udp : w.protocol = .udp
  waiting : w.loop = .waitOpen
  closed : w.gate.count = 0
  inactive : w.gate.active = false
  unbound : w.binding.local? = none
  never_bound : w.binding.count = 0

-- the loop of an idle worker waits for its gate, so no resumption changes it
theorem step_of_idle (h : w.Idle) (e : WorkerStep) : w.step host held e = w := by
  cases e <;> simp [step, h.udp, h.waiting, h.closed]

theorem idle_of_init (h : (create id d).init host held = .ok w) (hu : w.protocol = .udp) :
    w.Idle := by
  have hp : (create id d).protocol = .udp := (init_eq_ok h).2.2.1 ▸ hu
  rw [init_udp hp, Except.ok.injEq] at h
  subst h
  exact ⟨hp, rfl, rfl, rfl, rfl, rfl⟩

-- where the loop is suspended fixes the phase the worker reports, whether its gate is active
-- (a UDP input reading a session) and whether it holds a socket (a TCP input always, a UDP input
-- while it reads a session)
structure Coherent (w : InputWorker) : Prop where
  phase : w.state.phase = w.loop.phase w.protocol
  active : w.gate.active = true ↔ w.protocol = .udp ∧ w.loop = .reading
  bound : w.binding.local?.isSome ↔ w.protocol = .tcp ∨ w.loop = .reading
  points : w.loop ∈ Loop.points w.protocol

theorem Coherent.running (h : w.Coherent) : w.state.phase ≠ .stopped :=
  h.phase ▸ Loop.phase_ne_stopped _ _

theorem Coherent.udp_of_binding (h : w.Coherent) (hl : w.loop = .binding) : w.protocol = .udp := by
  have hp := h.points
  cases hpr : w.protocol with
  | udp => rfl
  | tcp => simp [Loop.points, hpr, hl] at hp

theorem coherent_init (h : (create id d).init host held = .ok w) : w.Coherent := by
  cases hp : d.route.protocol with
  | udp =>
    rw [init_udp hp, Except.ok.injEq] at h
    subst h
    exact ⟨by simp [create, InputState.enter, Loop.phase], by simp [create, release, hp],
      by simp [hp], by simp [create, hp, Loop.points]⟩
  | tcp =>
    obtain ⟨a, rfl⟩ := init_tcp hp h
    exact ⟨by simp [create, InputState.enter, Loop.phase], by simp [create, markBound],
      by simp [create, markBound, hp], by simp [create, markBound, hp, Loop.points]⟩

-- a session ends where its protocol waits for the next one
theorem Coherent.endSession (h : w.Coherent) (err : Option String) :
    (w.endSession err).Coherent := by
  have hs := InputState.endSession_running h.running err
  unfold InputWorker.endSession
  cases hp : w.protocol with
  | udp =>
    exact ⟨by simp [InputState.enter_phase hs, Loop.phase], by simp [Gate.reset, hp],
      by simp [release, hp], by simp [hp, Loop.points]⟩
  | tcp =>
    have hact := h.active
    have hbd := h.bound
    rw [hp] at hact hbd
    exact ⟨by simp [InputState.enter_phase hs, Loop.phase], by simpa [hp] using hact,
      by simpa [hp] using hbd, by simp [Loop.points]⟩

theorem Coherent.step (h : w.Coherent) (e : WorkerStep) : (w.step host held e).Coherent := by
  have hs := h.running
  cases e with
  | opened =>
    simp only [InputWorker.step]
    split_ifs with ho
    · obtain ⟨hu, hl, -⟩ := ho
      exact ⟨by simp [InputState.enter_phase hs, Loop.phase], by simpa [hu, hl] using h.active,
        by simpa [hu, hl] using h.bound, by simp [hu, Loop.points]⟩
    · exact h
  | bind =>
    simp only [InputWorker.step]
    split_ifs with hl
    · have hu := h.udp_of_binding hl
      split
      · exact ⟨by simp [startSession, markBound, InputState.startSession_phase hs, Loop.phase],
          by simp [Gate.activate, startSession, markBound, hu], by simp [startSession, markBound],
          by simp [startSession, markBound, hu, Loop.points]⟩
      · exact ⟨by simp [h.phase, hl, hu, Loop.phase], by simpa [hl] using h.active,
          by simpa [hl] using h.bound, by simp [hu, Loop.points]⟩
    · exact h
  | resume =>
    simp only [InputWorker.step]
    split_ifs with hl
    · have hact := h.active
      have hbd := h.bound
      rw [hl] at hact hbd
      split
      · rename_i hu
        exact ⟨by simp [InputState.enter_phase hs, Loop.phase], by simpa using hact,
          by simpa [hu] using hbd, by simp [hu, Loop.points]⟩
      · rename_i hu
        exact ⟨by simp [InputState.enter_phase hs, Loop.phase], by simpa using hact,
          by simpa [hu] using hbd, by simp [hu, Loop.points]⟩
    · exact h
  | accept peer =>
    simp only [InputWorker.step]
    split_ifs with ho
    · obtain ⟨hu, hl⟩ := ho
      have hact := h.active
      have hbd := h.bound
      rw [hu, hl] at hact hbd
      exact ⟨by simp [startSession, InputState.startSession_phase hs, Loop.phase],
        by simpa [startSession, hu] using hact, by simpa [startSession, hu] using hbd,
        by simp [startSession, hu, Loop.points]⟩
    · exact h
  | acceptFailed =>
    simp only [InputWorker.step]
    split_ifs with ho
    · obtain ⟨hu, hl⟩ := ho
      exact ⟨by simp [h.phase, hu, hl, Loop.phase], by simpa [hl] using h.active,
        by simpa [hu, hl] using h.bound, by simp [hu, Loop.points]⟩
    · exact h
  | release =>
    simp only [InputWorker.step]
    split_ifs with ho
    · exact h.endSession none
    · exact h
  | ended fault? =>
    simp only [InputWorker.step]
    split_ifs with hl
    · exact h.endSession _
    · exact h

theorem Coherent.connectionAdded (h : w.Coherent) : w.connectionAdded.Coherent := by
  unfold InputWorker.connectionAdded
  split
  · exact h
  · exact ⟨h.phase, h.active, h.bound, h.points⟩

theorem Coherent.connectionRemoved (h : w.Coherent) : w.connectionRemoved.Coherent := by
  unfold InputWorker.connectionRemoved
  split
  · exact h
  · exact ⟨h.phase, h.active, h.bound, h.points⟩

-- the binds the worker has made, and the one its loop is about to make when it waits at the bind
def binds (w : InputWorker) : Nat :=
  w.binding.count + if w.loop = .binding then 1 else 0

-- a resumption adds to the binds only when the wait for the gate returns on a positive count
theorem binds_step (host : Net.Host) (held : List Net.SocketAddr) (e : WorkerStep) :
    (w.step host held e).binds ≤ w.binds ∨
      e = .opened ∧ w.loop = .waitOpen ∧ 0 < w.gate.count ∧ (w.step host held e).binds = w.binds + 1 := by
  cases e with
  | opened =>
    by_cases ho : w.protocol = .udp ∧ w.loop = .waitOpen ∧ 0 < w.gate.count
    · exact .inr ⟨rfl, ho.2.1, ho.2.2, by simp [step, ho, binds]⟩
    · exact .inl (by simp [step, ho])
  | bind =>
    simp only [step]
    split_ifs with hl
    · left
      split <;> simp [binds, startSession, markBound, hl]
    · exact .inl le_rfl
  | resume =>
    simp only [step]
    split_ifs with hl
    · left
      split <;> simp [binds, hl]
    · exact .inl le_rfl
  | accept peer =>
    simp only [step]
    split_ifs with ho
    · exact .inl (by simp [binds, startSession, ho.2])
    · exact .inl le_rfl
  | acceptFailed =>
    simp only [step]
    split_ifs with ho
    · exact .inl (by simp [binds, ho.2])
    · exact .inl le_rfl
  | release =>
    simp only [step]
    split_ifs with ho
    · left
      unfold InputWorker.endSession
      split <;> simp [binds, release, ho.2.1]
    · exact .inl le_rfl
  | ended fault? =>
    simp only [step]
    split_ifs with hl
    · left
      unfold InputWorker.endSession
      split <;> simp [binds, release, hl]
    · exact .inl le_rfl

@[simp]
theorem binds_connectionAdded : w.connectionAdded.binds = w.binds := by
  unfold InputWorker.connectionAdded
  split <;> rfl

@[simp]
theorem binds_connectionRemoved : w.connectionRemoved.binds = w.binds := by
  unfold InputWorker.connectionRemoved
  split <;> rfl

-- a property of workers that starting one gives and every resumption of its loop keeps
structure Lifelong (Q : InputWorker → Prop) : Prop where
  init : ∀ {host : Net.Host} {held : List Net.SocketAddr} {id : Uuid} {d : InputDescriptor}
    {w : InputWorker}, (create id d).init host held = .ok w → Q w
  step : ∀ {host : Net.Host} {held : List Net.SocketAddr} {w : InputWorker} (e : WorkerStep),
    Q w → Q (w.step host held e)

-- ... and that clients coming and going and updates of the route keep as well
structure Kept (Q : InputWorker → Prop) : Prop extends Lifelong Q where
  added : ∀ {w : InputWorker}, Q w → Q w.connectionAdded
  removed : ∀ {w : InputWorker}, Q w → Q w.connectionRemoved
  moved : ∀ {w : InputWorker} (d : InputDescriptor), Q w → Q { w with descriptor := d }

theorem coherent_kept : Kept Coherent where
  init h := coherent_init h
  step e h := h.step e
  added h := h.connectionAdded
  removed h := h.connectionRemoved
  moved _ h := ⟨h.phase, h.active, h.bound, h.points⟩

theorem idle_lifelong : Lifelong fun w => w.protocol = .udp → w.Idle where
  init h hu := idle_of_init h hu
  step e h hu := by
    have hi := h (by simpa using hu)
    rw [step_of_idle hi]
    exact hi

end InputWorker

namespace Tasks

variable {host : Net.Host} {t : Tasks} {Q : InputWorker → Prop}

-- where the worker of a slot after a step comes from: the worker of a slot before it, as it was
-- or changed once, or the worker of a registration in flight
inductive Sprung (host : Net.Host) (t : Tasks) : InputWorker → Prop
  | kept {s : Slot} : s ∈ t.registry.slots → Sprung host t s.worker
  | stepped {s : Slot} (held : List Net.SocketAddr) (e : WorkerStep) :
      s ∈ t.registry.slots → Sprung host t (s.worker.step host held e)
  | added {s : Slot} : s ∈ t.registry.slots → Sprung host t s.worker.connectionAdded
  | removed {s : Slot} : s ∈ t.registry.slots → Sprung host t s.worker.connectionRemoved
  | moved {s : Slot} (d : InputDescriptor) :
      s ∈ t.registry.slots → Sprung host t { s.worker with descriptor := d }
  | published {d : InputDescriptor} {w : InputWorker} :
      Registration.started d w ∈ t.inFlight → Sprung host t w

theorem sprung_step : ∀ st : TaskStep, ∀ x ∈ (t.step host st).2.registry.slots,
    Sprung host t x.worker
  | .claim d => fun x hx => by
    obtain ⟨res, hr⟩ := claim_registry host (t := t) d
    rw [hr] at hx
    exact .kept hx
  | .start k id => fun x hx => by
    rcases start_registry host (t := t) k id with hr | hr <;> rw [hr] at hx <;> exact .kept hx
  | .publish k => fun x hx => by
    rw [step_publish] at hx
    split at hx
    · rename_i d w hcl
      rcases Registry.mem_insert hx with hx | rfl
      · exact .kept hx
      · exact .published (claimant?_eq_some hcl).1
    · exact .kept hx
  | .abandon k => fun x hx => by
    rw [step_abandon] at hx
    exact .kept hx
  | .update d => fun x hx => by
    cases hu : t.registry.update d with
    | error f =>
      rw [step_update, hu] at hx
      exact .kept hx
    | ok r =>
      rw [step_update, hu] at hx
      obtain ⟨s, hs, -, rfl⟩ := Registry.update_eq_ok hu
      rcases Registry.mem_setSlot hx with hx | rfl
      · exact .kept hx
      · exact .moved d hs
  | .deregister path => fun x hx => .kept ((deregister_slots host path).subset hx)
  | .drop w => fun x hx => by
    rw [drop_registry] at hx
    exact .kept hx
  | .worker k e => fun x hx => by
    rw [step_worker] at hx
    cases hk : t.registry.slot? k with
    | none =>
      simp only [hk] at hx
      exact .kept hx
    | some s =>
      simp only [hk, Registry.stepWorker] at hx
      rcases Registry.mem_setSlot hx with hx | rfl
      · exact .kept hx
      · exact .stepped _ e (Registry.mem_of_slot? hk).1
  | .dispatch k u => fun x hx => by
    rw [step_dispatch, Registry.dispatch_eq] at hx
    exact .kept hx
  | .attach k id => fun x hx => by
    cases hs : t.registry.slot? k with
    | none =>
      simp only [step_attach, commit, Registry.attach, hs, Except.map] at hx
      exact .kept hx
    | some s =>
      simp only [step_attach, commit, Registry.attach, hs, Except.map] at hx
      rcases Registry.mem_setSlot hx with hx | rfl
      · exact .kept (by simpa using hx)
      · exact .added (Registry.mem_of_slot? hs).1
  | .detach k id => fun x hx => by
    rw [step_detach] at hx
    rcases Registry.detach_cases t.registry k id with hd | ⟨s, q, hs, -, hd⟩
    · rw [hd] at hx
      exact .kept hx
    · rw [hd] at hx
      rcases Registry.mem_setSlot hx with hx | rfl
      · exact .kept (by simpa using hx)
      · exact .removed (Registry.mem_of_slot? hs).1

theorem commit_inFlight (t : Tasks) (x : Except Fault Registry) :
    (t.commit x).2.inFlight = t.inFlight := by
  cases x <;> rfl

theorem deregister_inFlight (path : String) :
    (t.step host (.deregister path)).2.inFlight = t.inFlight := by
  rw [step_deregister]
  split <;> rfl

-- the registrations in flight keep a property that their workers' start gives and every
-- resumption keeps
theorem Lifelong.inFlight_step (hQ : InputWorker.Lifelong Q)
    (h : ∀ d w, Registration.started d w ∈ t.inFlight → Q w) :
    ∀ st : TaskStep, ∀ d w, Registration.started d w ∈ (t.step host st).2.inFlight → Q w
  | .claim d => by
    intro d' w hm
    rw [step_claim] at hm
    split at hm
    · rcases List.mem_append.mp hm with hm | hm
      · exact h d' w hm
      · simp at hm
    · exact h d' w hm
  | .start k id => by
    intro d' w hm
    rw [step_start] at hm
    split at hm
    · split at hm
      · rename_i w' hw
        obtain ⟨g, hg, he⟩ := List.mem_map.mp hm
        split at he
        · cases he
          exact hQ.init hw
        · exact h d' w (he ▸ hg)
      · exact h d' w (List.mem_filter.mp hm).1
    · exact h d' w hm
  | .publish k => by
    intro d' w hm
    rw [step_publish] at hm
    split at hm
    · exact h d' w (List.mem_filter.mp hm).1
    · exact h d' w hm
  | .abandon k => fun d' w hm => by
    rw [step_abandon] at hm
    exact h d' w (List.mem_filter.mp hm).1
  | .update d => fun d' w hm => h d' w (by rwa [step_update, commit_inFlight] at hm)
  | .deregister path => fun d' w hm => h d' w (by rwa [deregister_inFlight] at hm)
  | .drop id => fun d' w hm => h d' w (by rwa [step_drop] at hm)
  | .worker k e => by
    intro d' w hm
    rw [step_worker] at hm
    split at hm
    · exact h d' w hm
    · obtain ⟨g, hg, he⟩ := List.mem_map.mp hm
      split at he
      · cases g with
        | claimed d₀ => cases he
        | started d₀ w₀ =>
          cases he
          exact hQ.step e (h _ _ hg)
      · exact h d' w (he ▸ hg)
  | .dispatch k u => fun d' w hm => h d' w (by rwa [step_dispatch] at hm)
  | .attach k id => fun d' w hm => h d' w (by rwa [step_attach, commit_inFlight] at hm)
  | .detach k id => fun d' w hm => h d' w (by rwa [step_detach] at hm)

theorem Lifelong.reachable (hQ : InputWorker.Lifelong Q) (h : t.Reachable host) :
    ∀ d w, Registration.started d w ∈ t.inFlight → Q w := by
  induction h with
  | fresh r _ _ => exact fun _ _ hm => absurd hm List.not_mem_nil
  | step st _ ih => exact Lifelong.inFlight_step hQ ih st

-- the published inputs keep a property that every change of a worker keeps
theorem Kept.slots_step (hQ : InputWorker.Kept Q)
    (hin : ∀ d w, Registration.started d w ∈ t.inFlight → Q w)
    (h : ∀ s ∈ t.registry.slots, Q s.worker) (st : TaskStep) :
    ∀ x ∈ (t.step host st).2.registry.slots, Q x.worker := by
  intro x hx
  have hx := sprung_step st x hx
  generalize x.worker = w at hx
  cases hx with
  | kept hm => exact h _ hm
  | stepped held e hm => exact hQ.step e (h _ hm)
  | added hm => exact hQ.added (h _ hm)
  | removed hm => exact hQ.removed (h _ hm)
  | moved d hm => exact hQ.moved d (h _ hm)
  | published hm => exact hin _ _ hm

theorem Kept.reachable (hQ : InputWorker.Kept Q) (h : t.Reachable host) :
    ∀ s ∈ t.registry.slots, Q s.worker := by
  induction h with
  | fresh r hs _ => exact fun s hm => absurd (hs ▸ hm) List.not_mem_nil
  | step st hr ih => exact Kept.slots_step hQ (Lifelong.reachable hQ.toLifelong hr) ih st

end Tasks

namespace Registry

variable {r : Registry} {k k₀ : PathKey} {x : Slot}

-- replacing the slot under another key, by a slot under another key, leaves the slot under `k`
theorem slot?_setSlot_of_ne (hk : k₀ ≠ k) (hx : x.key ≠ k) :
    (r.setSlot k₀ x).slot? k = r.slot? k := by
  unfold setSlot slot?
  rw [List.find?_map]
  have htest : ((fun s' => s'.key == k) ∘ fun s' => if s'.key == k₀ then x else s') =
      fun s' => s'.key == k := by
    funext y
    by_cases hy : y.key = k₀
    · simp [hy, hx, hk]
    · simp [hy]
  rw [htest]
  cases hf : r.slots.find? (·.key == k) with
  | none => rfl
  | some y =>
    have hy : y.key = k := by simpa using List.find?_some hf
    simp [hy, Ne.symm hk]

-- publishing under a free key keeps every slot found before
theorem slot?_append {y : Slot} (h : r.slot? k = some y) (l : List Slot) :
    ({ r with slots := r.slots ++ l } : Registry).slot? k = some y := by
  simp only [slot?, List.find?_append]
  rw [show r.slots.find? (·.key == k) = some y from h]
  rfl

end Registry

namespace Slot

-- a slot that no client has reached: it lists no outlets and its input's worker is idle
structure Pristine (s : Slot) : Prop where
  no_outlets : s.outlets = []
  idle : s.worker.Idle

-- what one step does to the slot of an input that it leaves in the table: nothing, a resumption
-- of the input's loop, a move to a new descriptor, a client attached, or a client it lists
-- detached
inductive Becomes (host : Net.Host) (k : PathKey) : TaskStep → Slot → Slot → Prop
  | kept {st : TaskStep} {s : Slot} : Becomes host k st s s
  | stepped {s : Slot} (e : WorkerStep) (held : List Net.SocketAddr) :
      Becomes host k (.worker k e) s { s with worker := s.worker.step host held e }
  | moved {s : Slot} (d : InputDescriptor) :
      Becomes host k (.update d) s { s with key := d.key, worker := { s.worker with descriptor := d } }
  | attached {s : Slot} (id : Uuid) (q : QueueId) : Becomes host k (.attach k id) s (s.attached id q)
  | detached {s : Slot} (id : Uuid) (q : QueueId) :
      s.outlets.lookup id = some q → Becomes host k (.detach k id) s (s.detached id)

variable {host : Net.Host} {s x : Slot} {k : PathKey} {st : TaskStep}

-- a step keeps a slot pristine unless it attaches a client to it
theorem Becomes.pristine (h : s.Becomes host k st x) (hp : s.Pristine)
    (hst : ∀ id, st ≠ .attach k id) : x.Pristine := by
  cases h with
  | kept => exact hp
  | stepped e held => exact ⟨hp.no_outlets, by rw [InputWorker.step_of_idle hp.idle]; exact hp.idle⟩
  | moved d =>
    have hi := hp.idle
    exact ⟨hp.no_outlets, ⟨hi.udp, hi.waiting, hi.closed, hi.inactive, hi.unbound, hi.never_bound⟩⟩
  | attached id q => exact absurd rfl (hst id)
  | detached id q hq => simp [hp.no_outlets] at hq

-- a step adds to an input's binds only when the wait for its gate returns on a positive count
theorem Becomes.binds (h : s.Becomes host k st x) :
    x.worker.binds ≤ s.worker.binds ∨
      st = .worker k .opened ∧ s.worker.loop = .waitOpen ∧ 0 < s.worker.gate.count ∧
        x.worker.binds = s.worker.binds + 1 := by
  cases h with
  | kept => exact .inl le_rfl
  | stepped e held =>
    rcases InputWorker.binds_step host held e with hb | ⟨rfl, hl, hc, hb⟩
    · exact .inl hb
    · exact .inr ⟨rfl, hl, hc, hb⟩
  | moved d => exact .inl le_rfl
  | attached id q => exact .inl (by simp [Slot.attached])
  | detached id q _ => exact .inl (by simp [Slot.detached])

end Slot

namespace Tasks

variable {host : Net.Host} {t : Tasks} {k : PathKey} {s x : Slot} {st : TaskStep}

-- where the input published under `k` is after a step: under `k` while a slot is there; an
-- update that takes it away has moved it to the key of its new descriptor; otherwise it is gone
def follow (host : Net.Host) (t : Tasks) (k : PathKey) (st : TaskStep) : Option PathKey :=
  if ((t.step host st).2.registry.slot? k).isSome then some k
  else
    match st with
    | .update d => some d.key
    | _ => none

-- where the input published under `k` is after steps, while it is published
def followRun (host : Net.Host) : Tasks → PathKey → List TaskStep → Option PathKey
  | _, k, [] => some k
  | t, k, st :: rest => (t.follow host k st).bind fun k' => followRun host (t.step host st).2 k' rest

-- no step attaches a client to the input published under `k`, wherever it moves
def Unattached (host : Net.Host) : Tasks → PathKey → List TaskStep → Prop
  | _, _, [] => True
  | t, k, st :: rest =>
    (∀ id, st ≠ .attach k id) ∧ ∀ k' ∈ t.follow host k st, Unattached host (t.step host st).2 k' rest

-- the step is the wait of the input under `k` for its gate, returning on a positive count
def opens (t : Tasks) (k : PathKey) : TaskStep → Bool
  | .worker k' .opened =>
    k' == k && (t.registry.slot? k).any fun s => s.worker.loop == .waitOpen && 0 < s.worker.gate.count
  | _ => false

-- how often the wait of the input published under `k` for its gate returns on a positive count
-- along steps, wherever the input moves
def openings (host : Net.Host) : Tasks → PathKey → List TaskStep → Nat
  | _, _, [] => 0
  | t, k, st :: rest =>
    (if t.opens k st then 1 else 0) +
      match t.follow host k st with
      | some k' => openings host (t.step host st).2 k' rest
      | none => 0

theorem follow_of_slot? (hx : (t.step host st).2.registry.slot? k = some x) :
    t.follow host k st = some k := by
  simp [follow, hx]

-- a step after which the slot under `k` is still there
theorem becomes_of_slot? (hx : (t.step host st).2.registry.slot? k = some x)
    (hb : s.Becomes host k st x) :
    ∀ k' ∈ t.follow host k st, ∃ x, (t.step host st).2.registry.slot? k' = some x ∧
      s.Becomes host k st x := by
  intro k' hk'
  rw [follow_of_slot? hx, Option.mem_def, Option.some.injEq] at hk'
  exact hk' ▸ ⟨x, hx, hb⟩

-- a step that leaves every slot as it is
theorem becomes_of_slots (hk : t.registry.slot? k = some s)
    (hsl : (t.step host st).2.registry.slots = t.registry.slots) :
    ∀ k' ∈ t.follow host k st, ∃ x, (t.step host st).2.registry.slot? k' = some x ∧
      s.Becomes host k st x := by
  have hx : (t.step host st).2.registry.slot? k = some s := by
    rw [Registry.slot?, hsl]
    exact hk
  exact becomes_of_slot? hx .kept

theorem becomes_publish (h : t.Sound) (hk : t.registry.slot? k = some s) (k₀ : PathKey) :
    ∀ k' ∈ t.follow host k (.publish k₀), ∃ x,
      (t.step host (.publish k₀)).2.registry.slot? k' = some x ∧ s.Becomes host k (.publish k₀) x := by
  cases hcl : t.claimant? k₀ with
  | none => exact becomes_of_slots hk (by rw [step_publish, hcl])
  | some g =>
    cases g with
    | claimed d => exact becomes_of_slots hk (by rw [step_publish, hcl])
    | started d w =>
      -- the new slot goes after every published one
      have hx : (t.step host (.publish k₀)).2.registry.slot? k = some s := by
        rw [Registry.slot?, h.publish_slots hcl]
        exact Registry.slot?_append hk _
      exact becomes_of_slot? hx .kept

theorem becomes_update (h : t.Sound) (hk : t.registry.slot? k = some s) (d : InputDescriptor) :
    ∀ k' ∈ t.follow host k (.update d), ∃ x,
      (t.step host (.update d)).2.registry.slot? k' = some x ∧ s.Becomes host k (.update d) x := by
  cases hu : t.registry.update d with
  | error f => exact becomes_of_slots hk (by rw [step_update, hu]; rfl)
  | ok r =>
    have hstep : (t.step host (.update d)).2.registry = r := by rw [step_update, hu]; rfl
    have hnd := h.keys_nodup
    have hs' : (t.step host (.update d)).2.Sound := h.update d
    have hnd' : r.keys.Nodup := hstep ▸ hs'.keys_nodup
    obtain ⟨s₀, hs₀, hfree, rfl⟩ := Registry.update_eq_ok hu
    have hsk := Registry.mem_of_slot? hk
    by_cases hmoved : s₀ = s
    · subst hmoved
      -- the moved slot lies under the descriptor's key
      have hmem : { s₀ with key := d.key, worker := { s₀.worker with descriptor := d } } ∈
          (t.registry.setSlot s₀.key
            { s₀ with key := d.key, worker := { s₀.worker with descriptor := d } }).slots := by
        rw [Registry.setSlot_slots hnd (Registry.slot?_of_mem hnd hs₀)]
        exact List.mem_map.mpr ⟨s₀, hs₀, by simp⟩
      have hnew := Registry.slot?_of_mem hnd' hmem
      by_cases hkd : d.key = k
      · rw [← hstep] at hnew
        exact becomes_of_slot? (hkd ▸ hnew) (.moved d)
      · -- the key the input left holds no slot any more
        have hgone : (t.step host (.update d)).2.registry.slot? k = none := by
          rw [hstep, Registry.slot?_eq_none_iff]
          intro hmk
          obtain ⟨y, hy, hyk⟩ := List.mem_map.mp hmk
          rw [Registry.setSlot_slots hnd (Registry.slot?_of_mem hnd hs₀)] at hy
          obtain ⟨z, hz, rfl⟩ := List.mem_map.mp hy
          by_cases hzs : z = s₀
          · simp [hzs] at hyk
            exact hkd hyk
          · simp only [hzs, if_false] at hyk
            exact hzs (Registry.eq_of_key_eq hnd hz hs₀ (hyk.trans hsk.2.symm))
        intro k' hk'
        simp only [follow, hgone, Option.isSome_none, Bool.false_eq_true, if_false,
          Option.mem_def, Option.some.injEq] at hk'
        subst hk'
        exact ⟨_, hstep ▸ hnew, .moved d⟩
    · -- another input moved, to its own key or a free one
      have hk₀ : s₀.key ≠ k := fun e =>
        hmoved (Registry.eq_of_key_eq hnd hs₀ hsk.1 (e.trans hsk.2.symm))
      have hkin : k ∈ t.registry.keys := hsk.2 ▸ List.mem_map_of_mem hsk.1
      have hdk : d.key ≠ k := by
        rcases hfree with hd | ⟨hd, -⟩
        · exact hd ▸ hk₀
        · exact fun e => hd (e ▸ hkin)
      have hx : (t.step host (.update d)).2.registry.slot? k = some s := by
        rw [hstep, Registry.slot?_setSlot_of_ne
          (x := { s₀ with key := d.key, worker := { s₀.worker with descriptor := d } }) hk₀ hdk, hk]
      exact becomes_of_slot? hx .kept

theorem becomes_deregister (h : t.Sound) (hk : t.registry.slot? k = some s) (path : String) :
    ∀ k' ∈ t.follow host k (.deregister path), ∃ x,
      (t.step host (.deregister path)).2.registry.slot? k' = some x ∧
        s.Becomes host k (.deregister path) x := by
  cases hr : t.registry.remove path with
  | error f => exact becomes_of_slots hk (by rw [step_deregister, hr])
  | ok res =>
    obtain ⟨s₀, r⟩ := res
    obtain ⟨-, rfl⟩ := Registry.remove_eq_ok hr
    have hslots : (t.step host (.deregister path)).2.registry.slots =
        t.registry.slots.filter (·.key != PathKey.ofPath path) := by
      rw [step_deregister, hr]
    have hsk := Registry.mem_of_slot? hk
    by_cases hkk : PathKey.ofPath path = k
    · -- the input itself is removed
      have hgone : (t.step host (.deregister path)).2.registry.slot? k = none := by
        rw [Registry.slot?_eq_none_iff, Registry.keys, hslots]
        intro hmk
        obtain ⟨y, hy, hyk⟩ := List.mem_map.mp hmk
        simp [hkk, hyk] at hy
      intro k' hk'
      simp [follow, hgone] at hk'
    · have hnd : (t.step host (.deregister path)).2.registry.keys.Nodup := by
        rw [Registry.keys, hslots]
        exact h.keys_nodup.sublist (List.filter_sublist.map _)
      have hmem : s ∈ (t.step host (.deregister path)).2.registry.slots := by
        rw [hslots]
        exact List.mem_filter.mpr ⟨hsk.1, by simpa [hsk.2] using Ne.symm hkk⟩
      have hx := Registry.slot?_of_mem hnd hmem
      rw [hsk.2] at hx
      exact becomes_of_slot? hx .kept

theorem becomes_worker (h : t.Sound) (hk : t.registry.slot? k = some s) (k₀ : PathKey)
    (e : WorkerStep) :
    ∀ k' ∈ t.follow host k (.worker k₀ e), ∃ x,
      (t.step host (.worker k₀ e)).2.registry.slot? k' = some x ∧ s.Becomes host k (.worker k₀ e) x := by
  cases hs₀ : t.registry.slot? k₀ with
  | none => exact becomes_of_slots hk (by rw [step_worker, hs₀])
  | some s₀ =>
    have hstep : (t.step host (.worker k₀ e)).2.registry = t.registry.setSlot k₀
        { s₀ with worker := s₀.worker.step host (t.heldBy s₀.worker.protocol k₀) e } := by
      rw [step_worker, hs₀]
      simp only [Registry.stepWorker, hs₀]
    by_cases hkk : k₀ = k
    · subst hkk
      obtain rfl : s₀ = s := Option.some.inj (hs₀.symm.trans hk)
      have hx := Registry.slot?_setSlot_self h.keys_nodup hs₀
        (s := { s₀ with worker := s₀.worker.step host (t.heldBy s₀.worker.protocol k₀) e })
        (Registry.mem_of_slot? hs₀).2
      exact becomes_of_slot? (hstep ▸ hx) (.stepped e _)
    · have hk' : ({ s₀ with worker := s₀.worker.step host (t.heldBy s₀.worker.protocol k₀) e } :
          Slot).key ≠ k := by
        simpa [(Registry.mem_of_slot? hs₀).2] using hkk
      have hx : (t.step host (.worker k₀ e)).2.registry.slot? k = some s := by
        rw [hstep, Registry.slot?_setSlot_of_ne hkk hk', hk]
      exact becomes_of_slot? hx .kept

theorem becomes_attach (h : t.Sound) (hk : t.registry.slot? k = some s) (k₀ : PathKey)
    (id : Uuid) :
    ∀ k' ∈ t.follow host k (.attach k₀ id), ∃ x,
      (t.step host (.attach k₀ id)).2.registry.slot? k' = some x ∧ s.Becomes host k (.attach k₀ id) x := by
  cases hs₀ : t.registry.slot? k₀ with
  | none =>
    exact becomes_of_slots hk (by simp [step_attach, commit, Registry.attach, hs₀, Except.map])
  | some s₀ =>
    have hstep : (t.step host (.attach k₀ id)).2.registry =
        (t.registry.openQueue s₀ id).setSlot k₀ (s₀.attached id t.registry.queues.size) := by
      simp [step_attach, commit, Registry.attach, hs₀, Except.map]
    have hnd : (t.registry.openQueue s₀ id).keys.Nodup := by simpa [Registry.keys] using h.keys_nodup
    have hq₀ : (t.registry.openQueue s₀ id).slot? k₀ = some s₀ := by simpa [Registry.slot?] using hs₀
    by_cases hkk : k₀ = k
    · subst hkk
      obtain rfl : s₀ = s := Option.some.inj (hs₀.symm.trans hk)
      have hx := Registry.slot?_setSlot_self hnd hq₀ (s := s₀.attached id t.registry.queues.size)
        (Registry.mem_of_slot? hs₀).2
      exact becomes_of_slot? (hstep ▸ hx) (.attached id _)
    · have hk' : (s₀.attached id t.registry.queues.size).key ≠ k := by
        simpa [Slot.attached, (Registry.mem_of_slot? hs₀).2] using hkk
      have hx : (t.step host (.attach k₀ id)).2.registry.slot? k = some s := by
        rw [hstep, Registry.slot?_setSlot_of_ne hkk hk']
        simpa [Registry.slot?] using hk
      exact becomes_of_slot? hx .kept

theorem becomes_detach (h : t.Sound) (hk : t.registry.slot? k = some s) (k₀ : PathKey)
    (id : Uuid) :
    ∀ k' ∈ t.follow host k (.detach k₀ id), ∃ x,
      (t.step host (.detach k₀ id)).2.registry.slot? k' = some x ∧ s.Becomes host k (.detach k₀ id) x := by
  rcases Registry.detach_cases t.registry k₀ id with hd | ⟨s₀, q, hs₀, hq, hd⟩
  · exact becomes_of_slots hk (by rw [step_detach, hd])
  · have hnd : (t.registry.modifyQueue q Queue.closeSender).keys.Nodup := h.keys_nodup
    have hstep : (t.step host (.detach k₀ id)).2.registry =
        (t.registry.modifyQueue q Queue.closeSender).setSlot k₀ (s₀.detached id) := by
      rw [step_detach, hd]
    by_cases hkk : k₀ = k
    · subst hkk
      obtain rfl : s₀ = s := Option.some.inj (hs₀.symm.trans hk)
      have hx := Registry.slot?_setSlot_self hnd (show (t.registry.modifyQueue q
        Queue.closeSender).slot? k₀ = some s₀ from hs₀) (s := s₀.detached id)
        (Registry.mem_of_slot? hs₀).2
      exact becomes_of_slot? (hstep ▸ hx) (.detached id q hq)
    · have hk' : (s₀.detached id).key ≠ k := by
        simpa [Slot.detached, (Registry.mem_of_slot? hs₀).2] using hkk
      have hx : (t.step host (.detach k₀ id)).2.registry.slot? k = some s := by
        rw [hstep, Registry.slot?_setSlot_of_ne hkk hk']
        exact hk
      exact becomes_of_slot? hx .kept

-- one inversion for every step: the slot of an input that a step does not remove is found where
-- the input went, and is what one of the changes of `Slot.Becomes` makes of it
theorem becomes_step (h : t.Sound) (hk : t.registry.slot? k = some s) :
    ∀ st : TaskStep, ∀ k' ∈ t.follow host k st, ∃ x, (t.step host st).2.registry.slot? k' = some x ∧
      s.Becomes host k st x
  | .claim d => by
    obtain ⟨res, hr⟩ := claim_registry host (t := t) d
    exact becomes_of_slots hk (by rw [hr])
  | .start k₀ id => by
    rcases start_registry host (t := t) k₀ id with hr | hr <;>
      exact becomes_of_slots hk (by simp [hr])
  | .publish k₀ => becomes_publish h hk k₀
  | .abandon k₀ => becomes_of_slots hk (by rw [step_abandon]; rfl)
  | .update d => becomes_update h hk d
  | .deregister path => becomes_deregister h hk path
  | .drop w => becomes_of_slots hk (by rw [drop_registry])
  | .worker k₀ e => becomes_worker h hk k₀ e
  | .dispatch k₀ u => becomes_of_slots hk (by rw [step_dispatch, Registry.dispatch_eq])
  | .attach k₀ id => becomes_attach h hk k₀ id
  | .detach k₀ id => becomes_detach h hk k₀ id

-- publishing a UDP input where none was publishes a pristine slot
theorem publish_pristine (h : t.Reachable host) (hnone : t.registry.slot? k = none)
    (hx : (t.step host (.publish k)).2.registry.slot? k = some x) (hu : x.worker.protocol = .udp) :
    x.Pristine := by
  cases hcl : t.claimant? k with
  | none =>
    rw [step_publish, hcl] at hx
    exact absurd (hnone.symm.trans hx) (by simp)
  | some g =>
    cases g with
    | claimed d =>
      rw [step_publish, hcl] at hx
      exact absurd (hnone.symm.trans hx) (by simp)
    | started d w =>
      rw [Registry.slot?, h.sound.publish_slots hcl, List.find?_append,
        show t.registry.slots.find? (·.key == k) = none from hnone] at hx
      simp only [Option.none_or, List.find?_singleton, beq_self_eq_true, if_true,
        Option.some.injEq] at hx
      subst hx
      exact ⟨rfl, Lifelong.reachable InputWorker.idle_lifelong h d w (claimant?_eq_some hcl).1 hu⟩

-- a pristine slot stays pristine, wherever it moves, through steps that attach no client to it
theorem pristine_run (h : t.Reachable host) (hk : t.registry.slot? k = some s) (hp : s.Pristine)
    {steps : List TaskStep} (hu : t.Unattached host k steps) :
    ∀ k' ∈ t.followRun host k steps, ∃ x, (t.run host steps).registry.slot? k' = some x ∧
      x.Pristine := by
  induction steps generalizing t k s with
  | nil =>
    intro k' hk'
    cases hk'
    exact ⟨s, hk, hp⟩
  | cons st rest ih =>
    intro k' hk'
    obtain ⟨hst, hrest⟩ := hu
    obtain ⟨k₁, hk₁, hk'⟩ := Option.bind_eq_some_iff.mp hk'
    obtain ⟨x, hx, hb⟩ := becomes_step h.sound hk st k₁ hk₁
    exact ih (h.step st) hx (hb.pristine hp hst) (hrest k₁ hk₁) k' hk'

-- a step adds one to an input's binds at most, and only if it is the input's wait for its gate
-- returning on a positive count
theorem binds_le_opens (hk : t.registry.slot? k = some s) (hb : s.Becomes host k st x) :
    x.worker.binds ≤ s.worker.binds + if t.opens k st then 1 else 0 := by
  rcases hb.binds with hle | ⟨rfl, hl, hc, heq⟩
  · exact Nat.le_add_right_of_le hle
  · simp [opens, hk, hl, hc, heq]

-- along every run an input binds at most as often as its wait for its gate returned on a positive
-- count before
theorem binds_run (h : t.Reachable host) (hk : t.registry.slot? k = some s) (steps : List TaskStep) :
    ∀ k' ∈ t.followRun host k steps, ∃ x, (t.run host steps).registry.slot? k' = some x ∧
      x.worker.binds ≤ s.worker.binds + t.openings host k steps := by
  induction steps generalizing t k s with
  | nil =>
    intro k' hk'
    cases hk'
    exact ⟨s, hk, by simp [openings]⟩
  | cons st rest ih =>
    intro k' hk'
    obtain ⟨k₁, hk₁, hk'⟩ := Option.bind_eq_some_iff.mp hk'
    obtain ⟨x, hx, hb⟩ := becomes_step h.sound hk st k₁ hk₁
    obtain ⟨y, hy, hle⟩ := ih (h.step st) hx k' hk'
    have hstep := binds_le_opens hk hb
    refine ⟨y, hy, ?_⟩
    simp only [openings, hk₁]
    omega

-- A UDP input binds only on demand. Registering it publishes a pristine slot; as long as no
-- client attaches to it, through every interleaving of registrations, updates that move it,
-- removals, dispatches, detachments, attachments elsewhere and the resumptions of every input's
-- loop, its slot stays pristine: no socket held, no bind made. Where the loop of every published
-- input is suspended fixes its phase, whether its gate is active and whether it holds a socket.
-- And along every run an input binds at most as often as its wait for the gate returned on a
-- positive count before.
theorem udp_input_binds_only_on_demand (h : t.Reachable host) :
    (∀ k x, t.registry.slot? k = none → (t.step host (.publish k)).2.registry.slot? k = some x →
      x.worker.protocol = .udp → x.Pristine) ∧
    (∀ k s steps, t.registry.slot? k = some s → s.Pristine → t.Unattached host k steps →
      ∀ k' ∈ t.followRun host k steps, ∃ x, (t.run host steps).registry.slot? k' = some x ∧
        x.Pristine) ∧
    (∀ s ∈ t.registry.slots, s.worker.Coherent) ∧
    (∀ k s steps, t.registry.slot? k = some s → ∀ k' ∈ t.followRun host k steps,
      ∃ x, (t.run host steps).registry.slot? k' = some x ∧
        x.worker.binds ≤ s.worker.binds + t.openings host k steps) :=
  ⟨fun _ _ hn hx hu => publish_pristine h hn hx hu,
    fun _ _ _ hk hp hu => pristine_run h hk hp hu,
    Kept.reachable InputWorker.coherent_kept h,
    fun _ _ steps hk => binds_run h hk steps⟩

-- a UDP input at `/a` whose registration has claimed its key and started its worker
theorem udp_input_binds_only_on_demand_starting :
    let d : InputDescriptor :=
      { uuid := .ofNat 7, path := "/a", media := .flv
        route := { uuid := .ofNat 1, host := "127.0.0.1", port := 0, protocol := .udp } }
    let t := ({ registry := {} } : Tasks).run Net.Host.sample [.claim d, .start d.key (.ofNat 5)]
    t.Reachable Net.Host.sample ∧
    (∀ k x, t.registry.slot? k = none →
      (t.step Net.Host.sample (.publish k)).2.registry.slot? k = some x →
        x.worker.protocol = .udp → x.Pristine) ∧
    (∀ k s steps, t.registry.slot? k = some s → s.Pristine → t.Unattached Net.Host.sample k steps →
      ∀ k' ∈ t.followRun Net.Host.sample k steps,
        ∃ x, (t.run Net.Host.sample steps).registry.slot? k' = some x ∧ x.Pristine) ∧
    (∀ s ∈ t.registry.slots, s.worker.Coherent) ∧
    (∀ k s steps, t.registry.slot? k = some s → ∀ k' ∈ t.followRun Net.Host.sample k steps,
      ∃ x, (t.run Net.Host.sample steps).registry.slot? k' = some x ∧
        x.worker.binds ≤ s.worker.binds + t.openings Net.Host.sample k steps) := by
  intro d t
  have hreach : t.Reachable Net.Host.sample := (Reachable.fresh {} rfl rfl).run _
  exact ⟨hreach, udp_input_binds_only_on_demand hreach⟩

end Tasks

end MediaRelay
