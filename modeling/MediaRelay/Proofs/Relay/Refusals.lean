import Mathlib
import MediaRelay.Proofs.Relay.Hosting

-- Each operation of the table makes all its checks before it changes anything, so a step of the
-- relay that answers a fault leaves it as it was: every slot with its key, its input, its socket,
-- its outlets and its count of clients, every queue, and the workers the scheduler hosts. The one
-- step that answers a fault after something changed is the end of a registration whose worker
-- failed to start, a TCP input whose port is taken say: it lets go the claim its registration
-- made, and the registration with it, and the scheduler records that its start returned the fault.
-- That registration held no socket the others do not hold, and when its claim was the last change
-- to the table, the table is as it was before the claim (`refused_steps_change_nothing`).

namespace MediaRelay

namespace Tasks

variable {host : Net.Host} {t t₀ : Tasks} {f : Fault} {k : PathKey} {d : InputDescriptor}

-- the sockets of protocol `p` that the inputs hold, published or started
def bound (t : Tasks) (p : Protocol) : List Net.SocketAddr :=
  t.registry.slots.filterMap (fun s =>
    if s.worker.protocol == p then s.worker.binding.local? else none) ++
      t.inFlight.filterMap (Registration.socket? p)

theorem bound_abandon (t : Tasks) (k : PathKey) (p : Protocol) :
    ((t.abandon k).bound p).Sublist (t.bound p) :=
  List.Sublist.append (List.Sublist.refl _) (List.filter_sublist.filterMap _)

theorem commit_error {x : Except Fault Registry} (h : (t.commit x).1 = .error f) :
    (t.commit x).2 = t := by
  cases x with
  | ok r => simp [commit] at h
  | error e => rfl

-- A refused step changes nothing, but for a start whose worker fails, which lets its claim go.
theorem step_eq_of_error {st : TaskStep} (h : (t.step host st).1 = .error f) :
    (t.step host st).2 = t ∨ ∃ k id, st = .start k id ∧ (t.step host st).2 = t.abandon k := by
  cases st with
  | start k id => exact .inr ⟨k, id, rfl, step_start_of_error h⟩
  | claim d =>
    revert h
    rw [step_claim]
    split <;> simp
  | publish k =>
    revert h
    rw [step_publish]
    split <;> simp
  | abandon k => simp [step_abandon] at h
  | update d =>
    rw [step_update] at h ⊢
    exact .inl (commit_error h)
  | deregister path =>
    revert h
    rw [step_deregister]
    split <;> simp
  | drop w => simp [step_drop] at h
  | dispatch k u => simp [step_dispatch] at h
  | attach k id =>
    rw [step_attach] at h ⊢
    exact .inl (commit_error h)
  | detach k id => simp [step_detach] at h
  | worker k e =>
    revert h
    rw [step_worker]
    split <;> simp

-- a claim let go at once leaves the tasks as they were before it
theorem Sound.abandon_claim (h : t₀.Sound) (hc : t₀.step host (.claim d) = (.ok (), t)) :
    t.abandon d.key = t₀ := by
  obtain ⟨hres, rfl⟩ := step_claim_of_ok hc
  -- no registration in flight claims the key yet, so only the new claim goes
  have hfree : ∀ g ∈ t₀.inFlight, g.key ≠ d.key := fun g hg he =>
    hres ((h.claimed_iff _).mpr (List.mem_map.mpr ⟨g, hg, he⟩))
  have hreserved :
      (t₀.registry.reserved ++ [d.key]).filter (· != d.key) = t₀.registry.reserved := by
    rw [List.filter_append, List.filter_eq_self.mpr fun k' hk' =>
      bne_iff_ne.mpr (by rintro rfl; exact hres hk')]
    simp
  have hflight :
      (t₀.inFlight ++ [Registration.claimed d]).filter (·.key != d.key) = t₀.inFlight := by
    rw [List.filter_append, List.filter_eq_self.mpr fun g hg => bne_iff_ne.mpr (hfree g hg)]
    simp
  simp only [abandon, Registry.release, without, hreserved, hflight]

end Tasks

namespace Scheduler

theorem setCall_self {s : Scheduler} {c : Nat} {k : Call} (h : s.calls[c]? = some k) :
    s.setCall c k = s := by
  obtain ⟨hlt, hk⟩ := List.getElem?_eq_some_iff.mp h
  simp only [setCall, ← hk, List.set_getElem_self]

end Scheduler

namespace Hosting

variable {host : Net.Host} {h : Hosting} {st : HostingStep} {f : Fault}

-- the end of the registration whose worker the call `c` of the scheduler started, refused with a
-- fault: its claim on `k` goes, and the call is recorded as returned with the fault
def abandonStart (h : Hosting) (k : PathKey) (c : Nat) (w : Uuid) (n : Nat) (f : Fault) :
    Hosting :=
  { h with
    tasks := h.tasks.abandon k
    starting := h.starting.filter (·.2 != c)
    queue := { h.queue with
      scheduler := h.queue.scheduler.setCall c (.start w (.returned (some f)) n) } }

-- A refused step changes nothing, but for the end of a registration whose worker failed to start.
theorem step_eq_of_error (hf : (h.step host st).1 = .error f) :
    (h.step host st).2 = h ∨
      ∃ k c w n, (k, c) ∈ h.starting ∧ (h.step host st).2 = h.abandonStart k c w n f := by
  cases st with
  | register d id =>
    revert hf
    rw [step_register]
    split
    · simp
    · split <;> simp
  | init c =>
    revert hf
    rw [step_init]
    split
    · rename_i w n hc
      split
      · rename_i k x hx
        split
        · simp
        · rename_i f' t hstart
          intro hf
          simp only [Except.error.injEq] at hf
          subst hf
          -- the worker failed to start: the registration lets its claim go
          have ht : t = h.tasks.abandon k := by
            have hf' : (h.tasks.step host (.start k w)).1 = .error f' := by rw [hstart]
            have hst := Tasks.step_start_of_error hf'
            rwa [hstart] at hst
          refine .inr ⟨k, c, w, n, mem_of_find? hx, ?_⟩
          simp only [abandonStart, schedule, StopQueue.step, Scheduler.step, Scheduler.init, hc, ht]
      · simp
    · simp
  | publish c =>
    revert hf
    rw [step_publish]
    split
    · simp [Tasks.step_publish]
      split <;> simp
    · rename_i k x w f' n hx hc
      intro hf
      simp only [Except.error.injEq] at hf
      subst hf
      refine .inr ⟨k, c, w, n, mem_of_find? hx, ?_⟩
      simp only [abandonStart, Tasks.step_abandon, Scheduler.setCall_self hc]
    · simp
  | update d =>
    simp only [step_update, withTasks] at hf ⊢
    rcases Tasks.step_eq_of_error hf with heq | ⟨_, _, hk, -⟩
    · rw [heq]
      exact .inl rfl
    · cases hk
  | dispatch k u => simp [step_dispatch, withTasks, Tasks.step_dispatch] at hf
  | worker k e =>
    revert hf
    rw [step_worker]
    split
    · simp only [withTasks]
      intro hf
      rcases Tasks.step_eq_of_error hf with heq | ⟨_, _, hk, -⟩
      · rw [heq]
        exact .inl rfl
      · cases hk
    · simp
  | deregister path =>
    revert hf
    rw [step_deregister]
    split <;> simp
  | removal i =>
    revert hf
    rw [step_removal]
    split
    · split
      · split <;> simp
      · split <;> simp
      · simp
    · simp
  | accept id =>
    revert hf
    rw [step_accept]
    split <;> simp
  | attach t k =>
    revert hf
    rw [step_attach]
    split
    · split <;> simp
    · simp
  | finish t =>
    revert hf
    rw [step_finish]
    split <;> simp
  | dropConnections k =>
    revert hf
    rw [step_dropConnections]
    split <;> simp
  | scheduler st =>
    cases st with
    | exit t =>
      revert hf
      rw [step_scheduler]
      dsimp only
      split <;> simp
    | _ => simp [step_scheduler] at hf
  | receive => simp [step_receive] at hf
  | resume => simp [step_resume] at hf
  | quit => simp [step_quit] at hf

end Hosting

theorem refused_steps_change_nothing {host : Net.Host} {h : Hosting} {st : HostingStep}
    {f : Fault} (hf : (h.step host st).1 = .error f) :
    let h' := (h.step host st).2
    -- every slot, with its key, its input, its socket, its outlets and its count of clients, and
    -- every queue stay as they were
    h'.tasks.registry.slots = h.tasks.registry.slots ∧
    h'.tasks.registry.queues = h.tasks.registry.queues ∧
    -- the scheduler hosts the same workers and spawned no task
    h'.queue.scheduler.hosted = h.queue.scheduler.hosted ∧
    h'.queue.scheduler.tasks = h.queue.scheduler.tasks ∧
    -- no socket is bound
    (∀ p, (h'.tasks.bound p).Sublist (h.tasks.bound p)) ∧
    -- only the end of a registration whose worker failed to start changes anything: its own
    -- claim goes, and when that claim was the last change to the table the table is as before it
    (h' = h ∨ ∃ k c w n, (k, c) ∈ h.starting ∧ h' = h.abandonStart k c w n f ∧
      ∀ (t₀ : Tasks) (d : InputDescriptor), d.key = k → t₀.Reachable host →
        t₀.step host (.claim d) = (.ok (), h.tasks) → h'.tasks = t₀) := by
  intro h'
  rcases Hosting.step_eq_of_error hf with heq | ⟨k, c, w, n, hkc, heq⟩
  · have hh : h' = h := heq
    rw [hh]
    exact ⟨rfl, rfl, rfl, rfl, fun _ => List.Sublist.refl _, .inl rfl⟩
  · have hh : h' = h.abandonStart k c w n f := heq
    rw [hh]
    refine ⟨rfl, rfl, rfl, rfl, fun p => Tasks.bound_abandon _ _ p,
      .inr ⟨k, c, w, n, hkc, rfl, fun t₀ d hd h₀ hc => ?_⟩⟩
    rw [← hd]
    exact h₀.sound.abandon_claim hc

-- a TCP input holds port 9000; the worker of a second registration for that port fails to start
theorem refused_steps_change_nothing_port_taken :
    let da : InputDescriptor :=
      { uuid := .ofNat 1, path := "/a", media := .flv
        route := { uuid := .ofNat 2, host := "127.0.0.1", port := 9000, protocol := .tcp } }
    let db : InputDescriptor :=
      { da with uuid := .ofNat 3, path := "/b", route := { da.route with uuid := .ofNat 4 } }
    let host := Net.Host.sample
    let h := (Hosting.fresh {} (.ofNat 9)).run host
      [.register da (.ofNat 1), .scheduler (.check 0), .init 0, .scheduler (.lock 0),
       .scheduler (.insert 0), .publish 0, .register db (.ofNat 2), .scheduler (.check 1)]
    let f : Fault := .io (.os .addrInUse "address in use")
    (h.step host (.init 1)).1 = .error f ∧
    let h' := (h.step host (.init 1)).2
    h'.tasks.registry.slots = h.tasks.registry.slots ∧
    h'.tasks.registry.queues = h.tasks.registry.queues ∧
    h'.queue.scheduler.hosted = h.queue.scheduler.hosted ∧
    h'.queue.scheduler.tasks = h.queue.scheduler.tasks ∧
    (∀ p, (h'.tasks.bound p).Sublist (h.tasks.bound p)) ∧
    (h' = h ∨ ∃ k c w n, (k, c) ∈ h.starting ∧ h' = h.abandonStart k c w n f ∧
      ∀ (t₀ : Tasks) (d : InputDescriptor), d.key = k → t₀.Reachable host →
        t₀.step host (.claim d) = (.ok (), h.tasks) → h'.tasks = t₀) := by
  intro da db host h f
  have hf : (h.step host (.init 1)).1 = .error f := by decide +kernel
  exact ⟨hf, refused_steps_change_nothing hf⟩

end MediaRelay
