import Mathlib
import MediaRelay.Proofs.Registry.OnDemand
import MediaRelay.Proofs.Registry.Removal
import MediaRelay.Proofs.Scheduler.Stopping
import MediaRelay.Relay.Hosting

-- The relay's tasks, run by its scheduler. Each step of the relay changes its tasks by at most one
-- step of theirs, and its scheduler by steps none of which starts a worker, but for the start of a
-- fresh worker by a registration or the listener (`step_register` and the lemmas after it say what
-- each kind of step does, once). Along every run from a fresh relay (`Reachable`) the scheduler
-- keeps its invariants and starts every worker at most once, under an id handed out for it; each
-- registration in flight has one start, the one that gave its worker its id; the workers of the
-- published inputs and of their clients have all been spawned; and every removal stands where its
-- phase says (`Invariant`): once it has got past the stop of a worker, that worker is out of the
-- scheduler's map for good.

namespace MediaRelay

-- a step of the tasks that claims nothing, starts no worker and publishes nothing
def TaskStep.leavesClaims : TaskStep → Bool
  | .claim _ | .start _ _ | .publish _ | .abandon _ => false
  | _ => true

-- a step of the tasks that claims the key or moves an input to it
def TaskStep.TakesKey (k : PathKey) : TaskStep → Prop
  | .claim d | .update d => d.key = k
  | _ => False

-- a step of the relay that registers the key or moves an input to it
def HostingStep.TakesKey (k : PathKey) : HostingStep → Prop
  | .register d _ | .update d => d.key = k
  | _ => False

namespace Registry

theorem insert_reserved (r : Registry) (s : Slot) : (r.insert s).reserved = r.reserved := by
  unfold insert
  split <;> rfl

end Registry

namespace Tasks

variable {host : Net.Host} {t : Tasks} {st : TaskStep} {f : Fault} {k : PathKey}

-- a start whose worker fails lets its claim go
theorem step_start_of_error {id : Uuid} (h : (t.step host (.start k id)).1 = .error f) :
    (t.step host (.start k id)).2 = t.abandon k := by
  revert h
  rw [step_start]
  split
  · split
    · simp
    · exact fun _ => rfl
  · simp

theorem reserved_step (hst : st.leavesClaims = true) :
    (t.step host st).2.registry.reserved = t.registry.reserved := by
  cases st with
  | update d =>
    simp only [step_update, commit]
    split
    · rename_i r hu
      obtain ⟨s, -, -, rfl⟩ := Registry.update_eq_ok hu
      rfl
    · rfl
  | deregister path =>
    rw [step_deregister]
    split
    · rename_i s r hr
      obtain ⟨-, rfl⟩ := Registry.remove_eq_ok hr
      rfl
    · rfl
  | drop w => rw [drop_registry]
  | dispatch k u => simp only [step_dispatch]; rw [Registry.dispatch_eq]
  | attach k id =>
    simp only [step_attach, commit]
    split
    · rename_i r ha
      unfold Registry.attach at ha
      split at ha
      · cases ha
      · simp only [Except.map, Except.ok.injEq] at ha
        subst ha
        simp
    · rfl
  | detach k id =>
    simp only [step_detach]
    rcases Registry.detach_cases t.registry k id with hd | ⟨s, j, -, -, hd⟩ <;> rw [hd]
    rfl
  | worker k e =>
    rw [step_worker]
    split
    · unfold Registry.stepWorker
      split <;> rfl
    · rfl
  | claim d => cases hst
  | start k id => cases hst
  | publish k => cases hst
  | abandon k => cases hst

-- a started registration after such a step was started before it, with a worker of the same id
theorem started_step (hst : st.leavesClaims = true) {d : InputDescriptor} {w : InputWorker}
    (hm : Registration.started d w ∈ (t.step host st).2.inFlight) :
    ∃ w₀, Registration.started d w₀ ∈ t.inFlight ∧ w.id = w₀.id := by
  have same : Registration.started d w ∈ t.inFlight →
      ∃ w₀, Registration.started d w₀ ∈ t.inFlight ∧ w.id = w₀.id := fun hm => ⟨w, hm, rfl⟩
  cases st with
  | update d => exact same (by rwa [step_update, commit_inFlight] at hm)
  | deregister path => exact same (by rwa [deregister_inFlight] at hm)
  | drop id => exact same (by rwa [step_drop] at hm)
  | dispatch k u => exact same (by rwa [step_dispatch] at hm)
  | attach k id => exact same (by rwa [step_attach, commit_inFlight] at hm)
  | detach k id => exact same (by rwa [step_detach] at hm)
  | worker k e =>
    rw [step_worker] at hm
    split at hm
    · exact same hm
    · -- the loop of a started worker keeps its id
      obtain ⟨g, hg, he⟩ := List.mem_map.mp hm
      split at he
      · cases g with
        | claimed d₀ => cases he
        | started d₀ w₀ =>
          cases he
          exact ⟨w₀, hg, by simp⟩
      · exact same (he ▸ hg)
  | claim d => cases hst
  | start k id => cases hst
  | publish k => cases hst
  | abandon k => cases hst

-- a claim that goes through records the key and a registration that has not started
theorem step_claim_of_ok {t₀ : Tasks} {d : InputDescriptor}
    (h : t₀.step host (.claim d) = (.ok (), t)) :
    d.key ∉ t₀.registry.reserved ∧
      t = { t₀ with
        registry := { t₀.registry with reserved := t₀.registry.reserved ++ [d.key] }
        inFlight := t₀.inFlight ++ [.claimed d] } := by
  rw [step_claim] at h
  cases hv : d.route.validate with
  | error e => simp [hv, bind, Except.bind] at h
  | ok u =>
    cases hr : t₀.registry.reserve d.key with
    | error e => simp [hv, hr, bind, Except.bind] at h
    | ok r =>
      obtain ⟨-, hres, rfl⟩ := Registry.reserve_eq_ok hr
      simp only [hv, hr, bind, Except.bind, Prod.mk.injEq, true_and] at h
      exact ⟨hres, h.symm⟩

-- a start that goes through starts the worker of the registration claiming the key, if any
theorem start_of_ok {id : Uuid} (h : (t.step host (.start k id)).1 = .ok ()) :
    (t.step host (.start k id)).2 = t ∨ ∃ d w, t.claimant? k = some (.claimed d) ∧ w.id = id ∧
      (t.step host (.start k id)).2 =
        { t with inFlight := t.inFlight.map fun g => if g.key == k then .started d w else g } := by
  revert h
  rw [step_start]
  split
  · rename_i d hcl
    split
    · rename_i w hw
      exact fun _ => .inr ⟨d, w, hcl, (Registry.startWorker_eq_ok hw).1, rfl⟩
    · simp
  · exact fun _ => .inl rfl

-- a publication publishes the started registration claiming the key, if there is one
theorem publish_cases (t : Tasks) (k : PathKey) :
    (t.step host (.publish k)).2 = t ∧ (∀ d w, t.claimant? k ≠ some (.started d w)) ∨
      ∃ d w, t.claimant? k = some (.started d w) ∧ (t.step host (.publish k)).2 =
        { t with registry := (t.registry.insert { key := k, worker := w }).release k
                 inFlight := t.without k } := by
  rw [step_publish]
  split
  · rename_i d w hcl
    exact .inr ⟨d, w, hcl, rfl⟩
  · rename_i hne
    exact .inl ⟨rfl, hne⟩

-- with no started registration claiming the key, none in flight has it
theorem Sound.key_ne_of_not_claimant (hs : t.Sound)
    (hk : ∀ d w, t.claimant? k ≠ some (.started d w)) {d : InputDescriptor} {w : InputWorker}
    (hm : Registration.started d w ∈ t.inFlight) : d.key ≠ k := by
  intro hdk
  have hsome : (t.claimant? k).isSome := List.find?_isSome.mpr ⟨_, hm, by simp [hdk]⟩
  obtain ⟨g, hg⟩ := Option.isSome_iff_exists.mp hsome
  obtain ⟨hgm, hgk⟩ := claimant?_eq_some hg
  -- the registrations in flight claim distinct keys
  have hge : g = .started d w :=
    List.inj_on_of_nodup_map hs.claims_nodup hgm hm (hgk.trans hdk.symm)
  exact hk d w (hge ▸ hg)

-- a key is claimed after a step only if it was before, or the step claims it
theorem mem_reserved_step (hk : k ∈ (t.step host st).2.registry.reserved) :
    k ∈ t.registry.reserved ∨ st.TakesKey k := by
  cases hst : st.leavesClaims
  · cases st with
    | claim d =>
      rw [step_claim] at hk
      split at hk
      · rename_i r hc
        have hr : t.registry.reserve d.key = .ok r := by
          cases hv : d.route.validate <;> simp_all [bind, Except.bind]
        obtain ⟨-, -, rfl⟩ := Registry.reserve_eq_ok hr
        rcases List.mem_append.mp hk with hk | hk
        · exact .inl hk
        · exact .inr (List.mem_singleton.mp hk).symm
      · exact .inl hk
    | start k' id =>
      rcases start_registry host (t := t) k' id with hr | hr <;> rw [hr] at hk
      · exact .inl hk
      · exact .inl (List.mem_filter.mp hk).1
    | publish k' =>
      rcases publish_cases t k' with ⟨he, -⟩ | ⟨d, w, -, he⟩ <;> rw [he] at hk
      · exact .inl hk
      · rw [Registry.release_reserved, Registry.insert_reserved] at hk
        exact .inl (List.mem_filter.mp hk).1
    | abandon k' => exact .inl (List.mem_filter.mp hk).1
    | _ => cases hst
  · exact .inl (reserved_step hst ▸ hk)

-- a key stays vacant along any step that neither claims it nor moves an input to it
theorem Vacant.step (hs : t.Sound) (hv : t.Vacant k) (st : TaskStep) (hst : ¬st.TakesKey k) :
    (t.step host st).2.Vacant k := by
  refine ⟨fun hk => ?_, fun hk => ?_⟩
  · obtain ⟨x, hx, rfl⟩ := List.mem_map.mp hk
    rcases origin_step st hx with ⟨y, hy, -, hkey | ⟨d, rfl, hkd⟩, -⟩ | ⟨k', d, w, rfl, hcl, rfl⟩
    · exact hv.1 (hkey ▸ List.mem_map_of_mem hy)
    · exact hst hkd.symm
    · -- a key being published is claimed
      obtain ⟨hm, hk'⟩ := claimant?_eq_some hcl
      exact hv.2 ((hs.claimed_iff _).mpr (List.mem_map.mpr ⟨_, hm, hk'⟩))
  · rcases mem_reserved_step hk with hk | hk
    · exact hv.2 hk
    · exact hst hk

theorem Vacant.run (h : t.Reachable host) (hv : t.Vacant k) (ts : List TaskStep)
    (hts : ∀ st ∈ ts, ¬st.TakesKey k) : (t.run host ts).Vacant k := by
  induction ts generalizing t with
  | nil => exact hv
  | cons st ts ih =>
    exact ih (.step st h) (hv.step h.sound st (hts st List.mem_cons_self))
      fun st' hst' => hts st' (List.mem_cons_of_mem _ hst')

end Tasks

namespace StopQueue

variable {q : StopQueue}

-- What every step of the scheduler but a start keeps, every run of the queue that starts nothing
-- keeps: the consumer only ever begins stops.
theorem scheduler_run_of_no_start {P : Scheduler → Prop}
    (hP : ∀ s st, P s → (∀ w, st ≠ .start w) → P (s.step st)) (h : P q.scheduler)
    {qs : List QueueStep} (hqs : ∀ w, QueueStep.scheduler (.start w) ∉ qs) : P (q.run qs).scheduler := by
  induction qs generalizing q with
  | nil => exact h
  | cons qs₀ qs ih =>
    refine ih ?_ fun w hw => hqs w (List.mem_cons_of_mem _ hw)
    rcases scheduler_step q qs₀ with hs | ⟨st, hs, hst⟩ <;> rw [hs]
    · exact h
    · refine hP _ st h fun w hw => ?_
      rcases hst with rfl | ⟨id, rfl⟩
      · exact hqs w (by rw [hw]; exact List.mem_cons_self)
      · cases hw

theorem run_nil (q : StopQueue) : q.run [] = q := rfl

theorem run_cons (q : StopQueue) (qs₀ : QueueStep) (qs : List QueueStep) :
    q.run (qs₀ :: qs) = (q.step qs₀).run qs := rfl

-- a run of the queue that starts nothing moves the scheduler
theorem moves_run (ids : List Uuid) {qs : List QueueStep}
    (hqs : ∀ w, QueueStep.scheduler (.start w) ∉ qs) :
    Scheduler.Moves ids q.scheduler ids (q.run qs).scheduler :=
  scheduler_run_of_no_start (P := Scheduler.Moves ids q.scheduler ids)
    (fun _ st hm hst => .step st hst hm) .refl hqs

end StopQueue

namespace Hosting

variable {host : Net.Host} {h : Hosting}

theorem withTasks_snd (r : Except Fault Unit × Tasks) : (h.withTasks r).2 = { h with tasks := r.2 } :=
  rfl

-- stated for any tasks, so that no proof has to compute the tasks it is given
theorem tasks_with (h : Hosting) (t : Tasks) : ({ h with tasks := t }).tasks = t :=
  rfl

-- the states the relay reaches on a host from a table with no inputs and no claims
inductive Reachable (host : Net.Host) : Hosting → Prop
  | fresh (r : Registry) (consumer : Uuid) : r.slots = [] → r.reserved = [] →
      Reachable host (fresh r consumer)
  | step {h : Hosting} (st : HostingStep) : Reachable host h → Reachable host (h.step host st).2

theorem Reachable.run (hr : h.Reachable host) (steps : List HostingStep) :
    (h.run host steps).Reachable host := by
  induction steps generalizing h with
  | nil => exact hr
  | cons st steps ih => exact ih (.step st hr)

theorem mem_of_find? {k : PathKey} {c x : Nat} (hx : h.starting.find? (·.2 == c) = some (k, x)) :
    (k, c) ∈ h.starting := by
  have hc : x = c := by simpa using List.find?_some hx
  rw [← hc]
  exact List.mem_of_find?_eq_some hx

theorem register_cases (host : Net.Host) (d : InputDescriptor) (id : Uuid) :
    (h.step host (.register d id)).2 = h ∨ id ∉ h.issued ∧
      ∃ t, h.tasks.step host (.claim d) = (.ok (), t) ∧
        (h.step host (.register d id)).2 = { h.schedule (.start id) with
          tasks := t
          starting := h.starting ++ [(d.key, h.nextCall)]
          issued := h.issued ++ [id] } := by
  rw [step_register]
  split
  · exact .inl rfl
  · rename_i hid
    split
    · rename_i t heq
      exact .inr ⟨hid, t, heq, rfl⟩
    · exact .inl rfl

-- the initialisation of a start returns: a registration's worker starts, or fails to
theorem init_cases (host : Net.Host) (c : Nat) :
    (h.step host (.init c)).2 = h ∨ ∃ w n,
      h.queue.scheduler.calls[c]? = some (.start w .initializing n) ∧
      ((h.step host (.init c)).2 = h.schedule (.init c none) ∨ ∃ k, (k, c) ∈ h.starting ∧
        ((h.tasks.step host (.start k w)).1 = .ok () ∧
          (h.step host (.init c)).2 =
            { h.schedule (.init c none) with tasks := (h.tasks.step host (.start k w)).2 } ∨
        ∃ f, (h.tasks.step host (.start k w)).1 = .error f ∧
          (h.step host (.init c)).2 = { h.schedule (.init c (some f)) with
            tasks := h.tasks.abandon k
            starting := h.starting.filter (·.2 != c) })) := by
  rw [step_init]
  split
  · rename_i w n hc
    refine .inr ⟨w, n, hc, ?_⟩
    split
    · rename_i k x hx
      refine .inr ⟨k, mem_of_find? hx, ?_⟩
      split
      · rename_i t heq
        exact .inl ⟨by rw [heq], by rw [heq]⟩
      · rename_i f t heq
        have hf : (h.tasks.step host (.start k w)).1 = .error f := by rw [heq]
        have ht : t = h.tasks.abandon k := by
          have := Tasks.step_start_of_error hf
          rwa [heq] at this
        exact .inr ⟨f, hf, by rw [ht]⟩
    · exact .inl rfl
  · exact .inl rfl

-- the registration whose worker a returned start started publishes it, or lets its claim go
theorem publish_cases (host : Net.Host) (c : Nat) :
    (h.step host (.publish c)).2 = h ∨ ∃ k w n, (k, c) ∈ h.starting ∧
      (h.queue.scheduler.calls[c]? = some (.start w (.returned none) n) ∧
        (h.step host (.publish c)).2 = { h with
          tasks := (h.tasks.step host (.publish k)).2
          starting := h.starting.filter (·.2 != c) } ∨
      ∃ f, h.queue.scheduler.calls[c]? = some (.start w (.returned (some f)) n) ∧
        (h.step host (.publish c)).2 = { h with
          tasks := h.tasks.abandon k
          starting := h.starting.filter (·.2 != c) }) := by
  rw [step_publish]
  split
  · rename_i k x w n hx hc
    exact .inr ⟨k, w, n, mem_of_find? hx, .inl ⟨hc, rfl⟩⟩
  · rename_i k x w f n hx hc
    exact .inr ⟨k, w, n, mem_of_find? hx, .inr ⟨f, hc, rfl⟩⟩
  · exact .inl rfl

theorem worker_cases (host : Net.Host) (k : PathKey) (e : WorkerStep) :
    (h.step host (.worker k e)).2 = h ∨
      (h.step host (.worker k e)).2 = { h with tasks := (h.tasks.step host (.worker k e)).2 } := by
  rw [step_worker]
  split
  · exact .inr rfl
  · exact .inl rfl

-- a removal takes the slot out under the lock and has the scheduler stop the input's worker
theorem deregister_cases (host : Net.Host) (path : String) :
    (h.step host (.deregister path)).2 = h ∨ ∃ s r, h.tasks.registry.remove path = .ok (s, r) ∧
      (h.step host (.deregister path)).2 = { h.schedule (.stop s.worker.id) with
        tasks := (h.tasks.step host (.deregister path)).2
        removals := h.removals ++ [{ worker := s.worker.id, clients := s.outlets.map Prod.fst,
                                     phase := .stoppingInput h.nextCall }] } := by
  rw [step_deregister]
  split
  · rename_i s r hr
    exact .inr ⟨s, r, hr, rfl⟩
  · exact .inl rfl

-- a removal goes on once the stop it awaits has returned
theorem removal_cases (host : Net.Host) (i : Nat) :
    (h.step host (.removal i)).2 = h ∨ ∃ r, h.removals[i]? = some r ∧
      ((∃ c, r.phase = .stoppingInput c ∧ h.stopped c = true ∧
        (h.step host (.removal i)).2 =
          ({ h with tasks := (h.tasks.step host (.drop r.worker)).2 }).stopNext i r.clients) ∨
      ∃ id c rest, r.phase = .stoppingClient id c rest ∧ h.stopped c = true ∧
        (h.step host (.removal i)).2 = h.stopNext i rest) := by
  rw [step_removal]
  split
  · rename_i r hr
    split
    · rename_i c hp
      split
      · rename_i hc
        exact .inr ⟨r, hr, .inl ⟨c, hp, hc, rfl⟩⟩
      · exact .inl rfl
    · rename_i id c rest hp
      split
      · rename_i hc
        exact .inr ⟨r, hr, .inr ⟨id, c, rest, hp, hc, rfl⟩⟩
      · exact .inl rfl
    · exact .inl rfl
  · exact .inl rfl

theorem accept_cases (host : Net.Host) (id : Uuid) :
    (h.step host (.accept id)).2 = h ∨ id ∉ h.issued ∧
      (h.step host (.accept id)).2 = { h.schedule (.start id) with
        clients := h.clients ++ [(id, .resolving)]
        issued := h.issued ++ [id] } := by
  rw [step_accept]
  split
  · exact .inl rfl
  · rename_i hid
    exact .inr ⟨hid, rfl⟩

-- the run of a client attaches it, under the id of its running worker
theorem attach_cases (host : Net.Host) (t : Nat) (k : PathKey) :
    (h.step host (.attach t k)).2 = h ∨ ∃ id t', h.running? t = some (id, .resolving) ∧
      h.tasks.step host (.attach k id) = (.ok (), t') ∧
      (h.step host (.attach t k)).2 = { h.setServing id (.attached k) with tasks := t' } := by
  rw [step_attach]
  split
  · rename_i id hrun
    split
    · rename_i t' heq
      exact .inr ⟨id, t', hrun, heq, rfl⟩
    · exact .inl rfl
  · exact .inl rfl

theorem finish_cases (host : Net.Host) (t : Nat) :
    (h.step host (.finish t)).2 = h ∨ ∃ id,
      (∃ k, h.running? t = some (id, .attached k) ∧
        (h.step host (.finish t)).2 =
          { h.leave id t with tasks := (h.tasks.step host (.detach k id)).2 }) ∨
      h.running? t = some (id, .resolving) ∧ (h.step host (.finish t)).2 = h.leave id t := by
  rw [step_finish]
  split
  · rename_i id k hrun
    exact .inr ⟨id, .inl ⟨k, hrun, rfl⟩⟩
  · rename_i id hrun
    exact .inr ⟨id, .inr ⟨hrun, rfl⟩⟩
  · exact .inl rfl

theorem dropConnections_cases (host : Net.Host) (k : PathKey) :
    (h.step host (.dropConnections k)).2 = h ∨
      (h.step host (.dropConnections k)).2 = h.pushClients k := by
  rw [step_dropConnections]
  split
  · exact .inr rfl
  · exact .inl rfl

-- the relay makes no step of the scheduler that starts a worker
theorem scheduler_cases (host : Net.Host) (st : SchedulerStep) :
    (h.step host (.scheduler st)).2 = h ∨
      (∀ w, st ≠ .start w) ∧ (h.step host (.scheduler st)).2 = h.schedule st := by
  cases st with
  | exit t =>
    rw [step_scheduler]
    dsimp only
    split
    · exact .inl rfl
    · exact .inr ⟨(fun _ h => by cases h), rfl⟩
  | start w => exact .inl rfl
  | stop id => exact .inl rfl
  | init c f => exact .inl rfl
  | check c => exact .inr ⟨(fun _ h => by cases h), rfl⟩
  | lock c => exact .inr ⟨(fun _ h => by cases h), rfl⟩
  | insert c => exact .inr ⟨(fun _ h => by cases h), rfl⟩
  | take c => exact .inr ⟨(fun _ h => by cases h), rfl⟩
  | hook c => exact .inr ⟨(fun _ h => by cases h), rfl⟩
  | join c => exact .inr ⟨(fun _ h => by cases h), rfl⟩
  | stopAll => exact .inr ⟨(fun _ h => by cases h), rfl⟩

theorem leave_queue (id : Uuid) (t : Nat) :
    (h.leave id t).queue = h.queue.run [.push { id, pusher := some t }, .scheduler (.exit t)] :=
  rfl

theorem pushClients_queue (k : PathKey) :
    (h.pushClients k).queue = h.queue.run
      ((((h.tasks.registry.slot? k).map (·.outlets)).getD []).map fun o => .push { id := o.1 }) := by
  simp only [pushClients, StopQueue.run, List.foldl_map]

theorem stopNext_tasks (i : Nat) (ids : List Uuid) : (h.stopNext i ids).tasks = h.tasks := by
  cases ids <;> rfl

theorem stopNext_removals (i : Nat) (ids : List Uuid) :
    ∃ p, (h.stopNext i ids).removals = h.removals.modify i fun r => { r with phase := p } := by
  cases ids with
  | nil => exact ⟨.returned, rfl⟩
  | cons id rest => exact ⟨.stoppingClient id h.nextCall rest, rfl⟩

-- the client a task runs is the worker of that task, which has not returned
theorem running_some {t : Nat} {id : Uuid} {sv : Serving} (hrun : h.running? t = some (id, sv)) :
    ∃ task, h.queue.scheduler.tasks[t]? = some task ∧ task.worker = id ∧
      h.clients.lookup id = some sv := by
  unfold running? at hrun
  split at hrun
  · rename_i task htask
    split at hrun
    · cases hrun
    · obtain ⟨sv', hl, he⟩ := Option.map_eq_some_iff.mp hrun
      cases he
      exact ⟨task, htask, rfl, hl⟩
  · cases hrun

theorem stopped_eq_true {c : Nat} (hc : h.stopped c = true) :
    ∃ id, h.queue.scheduler.calls[c]? = some (.stop id .returned) := by
  unfold stopped at hc
  split at hc
  · rename_i id hcall
    exact ⟨id, hcall⟩
  · cases hc

-- Each step of the relay is at most one step of its tasks, which claims a key or moves an input
-- to it only for a registration or an update of the key.
theorem tasks_step (h : Hosting) (st : HostingStep) :
    (h.step host st).2.tasks = h.tasks ∨ ∃ st' : TaskStep, (∀ k, st'.TakesKey k → st.TakesKey k) ∧
      (h.step host st).2.tasks = (h.tasks.step host st').2 := by
  have other : ∀ {st' : TaskStep}, (∀ d, st' ≠ .claim d) → (∀ d, st' ≠ .update d) →
      ∀ k, st'.TakesKey k → st.TakesKey k := by
    intro st' hc hu k hk
    cases st' with
    | claim d => exact absurd rfl (hc d)
    | update d => exact absurd rfl (hu d)
    | _ => exact hk.elim
  cases st with
  | register d id =>
    rcases register_cases host d id with he | ⟨-, t, hcl, he⟩ <;> rw [he]
    · exact .inl rfl
    · exact .inr ⟨.claim d, fun _ hk => hk, by rw [hcl]⟩
  | init c =>
    rcases init_cases host c with he | ⟨w, n, -, he | ⟨k, -, ⟨-, he⟩ | ⟨f, -, he⟩⟩⟩ <;> rw [he]
    · exact .inl rfl
    · exact .inl rfl
    · exact .inr ⟨.start k w, other (fun _ h => by cases h) (fun _ h => by cases h), rfl⟩
    · exact .inr ⟨.abandon k, other (fun _ h => by cases h) (fun _ h => by cases h), rfl⟩
  | publish c =>
    rcases publish_cases host c with he | ⟨k, w, n, -, ⟨-, he⟩ | ⟨f, -, he⟩⟩ <;> rw [he]
    · exact .inl rfl
    · exact .inr ⟨.publish k, other (fun _ h => by cases h) (fun _ h => by cases h), rfl⟩
    · exact .inr ⟨.abandon k, other (fun _ h => by cases h) (fun _ h => by cases h), rfl⟩
  | update d => exact .inr ⟨.update d, fun _ hk => hk, by rw [step_update, withTasks_snd, tasks_with]⟩
  | dispatch k u =>
    exact .inr ⟨.dispatch k u, other (fun _ h => by cases h) (fun _ h => by cases h),
      by rw [step_dispatch, withTasks_snd, tasks_with]⟩
  | worker k e =>
    rcases worker_cases host k e with he | he <;> rw [he]
    · exact .inl rfl
    · exact .inr ⟨.worker k e, other (fun _ h => by cases h) (fun _ h => by cases h), rfl⟩
  | deregister path =>
    rcases deregister_cases host path with he | ⟨s, r, -, he⟩ <;> rw [he]
    · exact .inl rfl
    · exact .inr ⟨.deregister path, other (fun _ h => by cases h) (fun _ h => by cases h), rfl⟩
  | removal i =>
    rcases removal_cases host i with he | ⟨r, -, ⟨c, -, -, he⟩ | ⟨id, c, rest, -, -, he⟩⟩ <;>
      rw [he]
    · exact .inl rfl
    · exact .inr ⟨.drop r.worker, other (fun _ h => by cases h) (fun _ h => by cases h),
        stopNext_tasks i r.clients⟩
    · exact .inl (stopNext_tasks i rest)
  | accept id =>
    rcases accept_cases host id with he | ⟨-, he⟩ <;> rw [he] <;> exact .inl rfl
  | attach t k =>
    rcases attach_cases host t k with he | ⟨id, t', -, hat, he⟩ <;> rw [he]
    · exact .inl rfl
    · exact .inr ⟨.attach k id, other (fun _ h => by cases h) (fun _ h => by cases h), by rw [hat]⟩
  | finish t =>
    rcases finish_cases host t with he | ⟨id, ⟨k, -, he⟩ | ⟨-, he⟩⟩ <;> rw [he]
    · exact .inl rfl
    · exact .inr ⟨.detach k id, other (fun _ h => by cases h) (fun _ h => by cases h), rfl⟩
    · exact .inl rfl
  | dropConnections k =>
    rcases dropConnections_cases host k with he | he <;> rw [he] <;> exact .inl rfl
  | scheduler st =>
    rcases scheduler_cases host st with he | ⟨-, he⟩ <;> rw [he] <;> exact .inl rfl
  | receive => exact .inl rfl
  | resume => exact .inl rfl
  | quit => exact .inl rfl

theorem Reachable.tasks (hr : h.Reachable host) : h.tasks.Reachable host := by
  induction hr with
  | fresh r consumer hs hres => exact .fresh r hs hres
  | step st _ ih =>
    rcases tasks_step _ st with he | ⟨st', -, he⟩ <;> rw [he]
    · exact ih
    · exact .step st' ih

theorem tasks_run (h : Hosting) (steps : List HostingStep) :
    ∃ ts : List TaskStep, (∀ k, ∀ st' ∈ ts, st'.TakesKey k → ∃ st ∈ steps, st.TakesKey k) ∧
      (h.run host steps).tasks = h.tasks.run host ts := by
  induction steps generalizing h with
  | nil => exact ⟨[], by simp, rfl⟩
  | cons st steps ih =>
    obtain ⟨ts, hts, he⟩ := ih (h.step host st).2
    have later : ∀ k, ∀ st' ∈ ts, st'.TakesKey k → ∃ st₀ ∈ st :: steps, st₀.TakesKey k :=
      fun k st' hst' hk => (hts k st' hst' hk).imp fun _ ⟨hm, hk⟩ => ⟨List.mem_cons_of_mem _ hm, hk⟩
    rcases tasks_step h st with h1 | ⟨st', hst', h1⟩
    · refine ⟨ts, later, ?_⟩
      change ((h.step host st).2.run host steps).tasks = _
      rw [he, h1]
    · refine ⟨st' :: ts, fun k st₁ hst₁ hk => ?_, ?_⟩
      · rcases List.mem_cons.mp hst₁ with rfl | hst₁
        · exact ⟨st, List.mem_cons_self, hst' k hk⟩
        · exact later k st₁ hst₁ hk
      · change ((h.step host st).2.run host steps).tasks = _
        rw [he, h1]
        rfl

-- Each step of the relay keeps its removals, adds one, or moves the removal it goes on with to
-- another phase.
theorem removals_step (h : Hosting) (st : HostingStep) :
    (h.step host st).2.removals = h.removals ∨
      (∃ x, (h.step host st).2.removals = h.removals ++ [x]) ∨
      ∃ i p, st = .removal i ∧
        (h.step host st).2.removals = h.removals.modify i fun r => { r with phase := p } := by
  cases st with
  | register d id => rcases register_cases host d id with he | ⟨-, t, -, he⟩ <;> rw [he] <;> exact .inl rfl
  | init c =>
    rcases init_cases host c with he | ⟨w, n, -, he | ⟨k, -, ⟨-, he⟩ | ⟨f, -, he⟩⟩⟩ <;> rw [he] <;>
      exact .inl rfl
  | publish c =>
    rcases publish_cases host c with he | ⟨k, w, n, -, ⟨-, he⟩ | ⟨f, -, he⟩⟩ <;> rw [he] <;>
      exact .inl rfl
  | update d => exact .inl (by rw [step_update, withTasks_snd])
  | dispatch k u => exact .inl (by rw [step_dispatch, withTasks_snd])
  | worker k e => rcases worker_cases host k e with he | he <;> rw [he] <;> exact .inl rfl
  | deregister path =>
    rcases deregister_cases host path with he | ⟨s, r, -, he⟩ <;> rw [he]
    · exact .inl rfl
    · exact .inr (.inl ⟨_, rfl⟩)
  | removal i =>
    rcases removal_cases host i with he | ⟨r, -, ⟨c, -, -, he⟩ | ⟨id, c, rest, -, -, he⟩⟩ <;>
      rw [he]
    · exact .inl rfl
    · obtain ⟨p, hp⟩ := stopNext_removals (h := { h with tasks := (h.tasks.step host (.drop r.worker)).2 }) i r.clients
      exact .inr (.inr ⟨i, p, rfl, hp⟩)
    · obtain ⟨p, hp⟩ := stopNext_removals (h := h) i rest
      exact .inr (.inr ⟨i, p, rfl, hp⟩)
  | accept id => rcases accept_cases host id with he | ⟨-, he⟩ <;> rw [he] <;> exact .inl rfl
  | attach t k =>
    rcases attach_cases host t k with he | ⟨id, t', -, -, he⟩ <;> rw [he] <;> exact .inl rfl
  | finish t =>
    rcases finish_cases host t with he | ⟨id, ⟨k, -, he⟩ | ⟨-, he⟩⟩ <;> rw [he] <;> exact .inl rfl
  | dropConnections k =>
    rcases dropConnections_cases host k with he | he <;> rw [he] <;> exact .inl rfl
  | scheduler st =>
    rcases scheduler_cases host st with he | ⟨-, he⟩ <;> rw [he] <;> exact .inl rfl
  | receive => exact .inl rfl
  | resume => exact .inl rfl
  | quit => exact .inl rfl

-- a removal keeps its worker and its clients, and changes its phase only when it goes on
theorem removal_step {j : Nat} {r : Removal} (hj : h.removals[j]? = some r) (st : HostingStep) :
    ∃ r', (h.step host st).2.removals[j]? = some r' ∧ r'.worker = r.worker ∧
      r'.clients = r.clients ∧ (r'.phase = r.phase ∨ st = .removal j) := by
  rcases removals_step h st with he | ⟨x, he⟩ | ⟨i, p, rfl, he⟩ <;> rw [he]
  · exact ⟨r, hj, rfl, rfl, .inl rfl⟩
  · exact ⟨r, Scheduler.getElem?_append_of_eq_some hj, rfl, rfl, .inl rfl⟩
  · rw [List.getElem?_modify, hj]
    by_cases hij : i = j
    · subst hij
      exact ⟨{ r with phase := p }, by simp, rfl, rfl, .inr rfl⟩
    · exact ⟨r, by simp [hij], rfl, rfl, .inl rfl⟩

theorem removal_run {j : Nat} {r : Removal} (hj : h.removals[j]? = some r)
    (steps : List HostingStep) :
    ∃ r', (h.run host steps).removals[j]? = some r' ∧ r'.worker = r.worker ∧
      r'.clients = r.clients := by
  induction steps generalizing h r with
  | nil => exact ⟨r, hj, rfl, rfl⟩
  | cons st steps ih =>
    obtain ⟨r₁, hj₁, hw₁, hc₁, -⟩ := removal_step hj st
    obtain ⟨r', hj', hw', hc'⟩ := ih hj₁
    exact ⟨r', hj', hw'.trans hw₁, hc'.trans hc₁⟩

end Hosting

end MediaRelay
