import Mathlib
import MediaRelay.Proofs.Relay.Hosting

-- The invariant of the relay along its runs. Its scheduler stays sound and starts each worker
-- under an id handed out for it, never twice (`Scheduler.Steady`). Each registration in flight
-- has one start of the scheduler, and a started registration's worker has the id that start gave
-- it, so the worker of a published input has spawned its task; so has every client attached to an
-- input, since a client attaches from its own run. A removal stands where its phase says
-- (`Removal.Holds`): it stops the input's worker, then the clients attached at the removal one by
-- one, and every stop that has returned has taken its worker out of the scheduler's map for good,
-- since no id is started twice.

namespace MediaRelay

namespace Removal

variable {s s' : Scheduler} {ids ids' : List Uuid} {r : Removal} {st : SchedulerStep}

-- what the scheduler has done of a removal, by its phase
def Stage (s : Scheduler) (r : Removal) : RemovalPhase → Prop
  | .stoppingInput c => s.Stopping c r.worker
  | .stoppingClient id c rest => s.Retired r.worker ∧ s.Stopping c id ∧
      ∃ done, r.clients = done ++ id :: rest ∧ ∀ x ∈ done, s.Retired x
  | .returned => s.Retired r.worker ∧ ∀ x ∈ r.clients, s.Retired x

structure Holds (s : Scheduler) (r : Removal) : Prop where
  worker : s.Spawned r.worker
  clients : ∀ id ∈ r.clients, s.Spawned id
  stage : Stage s r r.phase

theorem Holds.step (h : r.Holds s) (hs : s.Steady ids) (hst : ∀ w, st = .start w → w ∉ ids) :
    r.Holds (s.step st) := by
  -- no worker of the removal is started again: each has spawned, so its id was handed out
  have fresh : ∀ id, s.Spawned id → st ≠ .start id :=
    fun id hsp he => hst id he (hs.mem_of_spawned hsp)
  have hstage := h.stage
  refine ⟨h.worker.step st, fun id hid => (h.clients id hid).step st, ?_⟩
  generalize r.phase = p at hstage ⊢
  cases p with
  | stoppingInput c => exact hstage.step hs.sound hs.lockHeld hs.startsApart (fresh _ h.worker)
  | stoppingClient id c rest =>
    obtain ⟨hw, hstop, done, hcl, hdone⟩ := hstage
    have hmem : ∀ x, x ∈ done ∨ x = id → x ∈ r.clients := by
      rintro x (hx | rfl)
      · simp [hcl, hx]
      · simp [hcl]
    refine ⟨hw.step hs.sound (fresh _ h.worker), ?_, done, hcl, fun x hx => ?_⟩
    · exact hstop.step hs.sound hs.lockHeld hs.startsApart
        (fresh id (h.clients id (hmem id (.inr rfl))))
    · exact (hdone x hx).step hs.sound (fresh x (h.clients x (hmem x (.inl hx))))
  | returned =>
    obtain ⟨hw, hcl⟩ := hstage
    exact ⟨hw.step hs.sound (fresh _ h.worker),
      fun x hx => (hcl x hx).step hs.sound (fresh x (h.clients x hx))⟩

theorem Holds.moves (h : r.Holds s) (hs : s.Steady ids) (hm : Scheduler.Moves ids s ids' s') :
    r.Holds s' := by
  induction hm with
  | refl => exact h
  | step st hst hm ih => exact ih.step (hm.steady hs) fun w hw => absurd hw (hst w)
  | start w hw hm ih =>
    exact ih.step (hm.steady hs) fun w' hw' => by
      cases hw'
      exact hw

end Removal

namespace Hosting

variable {host : Net.Host} {h h' : Hosting}

structure Invariant (h : Hosting) : Prop where
  steady : h.queue.scheduler.Steady h.issued
  -- each registration in flight has one start, and each start one registration
  keys_nodup : (h.starting.map Prod.fst).Nodup
  calls_nodup : (h.starting.map Prod.snd).Nodup
  claimed : ∀ k c, (k, c) ∈ h.starting → k ∈ h.tasks.registry.reserved ∧ c < h.nextCall
  -- a started worker has the id its start gave it
  started : ∀ d w, Registration.started d w ∈ h.tasks.inFlight →
    ∃ c p n, (d.key, c) ∈ h.starting ∧ h.queue.scheduler.calls[c]? = some (.start w.id p n)
  -- the workers of the published inputs and of their clients have spawned their tasks
  slots : ∀ x ∈ h.tasks.registry.slots,
    h.queue.scheduler.Spawned x.worker.id ∧ ∀ o ∈ x.outlets, h.queue.scheduler.Spawned o.1
  removals : ∀ r ∈ h.removals, r.Holds h.queue.scheduler

theorem invariant_fresh (r : Registry) (consumer : Uuid) (hs : r.slots = []) :
    (fresh r consumer).Invariant where
  steady := Scheduler.steady_empty _
  keys_nodup := List.nodup_nil
  calls_nodup := List.nodup_nil
  claimed _ _ h := by simp [fresh] at h
  started _ _ h := by simp [fresh] at h
  slots x hx := by simp [fresh, hs] at hx
  removals _ h := by simp [fresh] at h

-- A step that keeps the registrations in flight and the removals, moves the scheduler, and moves
-- the tasks by at most one step that claims nothing and attaches only spawned workers, keeps the
-- invariant.
theorem Invariant.of_frame (hi : h.Invariant)
    (hm : Scheduler.Moves h.issued h.queue.scheduler h'.issued h'.queue.scheduler)
    (hstarting : h'.starting = h.starting) (hremovals : h'.removals = h.removals)
    (ht : h'.tasks = h.tasks ∨ ∃ (host : Net.Host) (st : TaskStep), st.leavesClaims = true ∧
      (∀ k id, st = .attach k id → h'.queue.scheduler.Spawned id) ∧
      h'.tasks = (h.tasks.step host st).2) :
    h'.Invariant := by
  have hres : h'.tasks.registry.reserved = h.tasks.registry.reserved := by
    rcases ht with ht | ⟨host, st, hst, -, ht⟩ <;> rw [ht]
    exact Tasks.reserved_step hst
  have hin : ∀ d w, Registration.started d w ∈ h'.tasks.inFlight →
      ∃ w₀, Registration.started d w₀ ∈ h.tasks.inFlight ∧ w.id = w₀.id := by
    rcases ht with ht | ⟨host, st, hst, -, ht⟩ <;> rw [ht]
    · exact fun d w hmem => ⟨w, hmem, rfl⟩
    · exact fun d w hmem => Tasks.started_step hst hmem
  -- a slot after the step has the worker of one before it, and its clients or a spawned one
  have hsl : ∀ x ∈ h'.tasks.registry.slots, ∃ y ∈ h.tasks.registry.slots,
      x.worker.id = y.worker.id ∧ ∀ o ∈ x.outlets, o ∈ y.outlets ∨ h'.queue.scheduler.Spawned o.1 := by
    rcases ht with ht | ⟨host, st, hst, hatt, ht⟩ <;> rw [ht]
    · exact fun x hx => ⟨x, hx, rfl, fun o ho => .inl ho⟩
    · intro x hx
      rcases Tasks.origin_step st hx with ⟨y, hy, hid, -, ho⟩ | ⟨k, d, w, rfl, -, -⟩
      · exact ⟨y, hy, hid, fun o hox => (ho o hox).imp_right fun ⟨k, hk⟩ => hatt k o.1 hk⟩
      · cases hst
  refine ⟨hm.steady hi.steady, hstarting ▸ hi.keys_nodup, hstarting ▸ hi.calls_nodup, ?_, ?_, ?_, ?_⟩
  · intro k c hkc
    obtain ⟨hk, hc⟩ := hi.claimed k c (hstarting ▸ hkc)
    exact ⟨hres ▸ hk, lt_of_lt_of_le hc hm.length_calls⟩
  · intro d w hmem
    obtain ⟨w₀, hm₀, hid⟩ := hin d w hmem
    obtain ⟨c, p, n, hkc, hc⟩ := hi.started d w₀ hm₀
    obtain ⟨p', n', hc', -⟩ := hm.start_call hc
    exact ⟨c, p', n', hstarting ▸ hkc, hid ▸ hc'⟩
  · intro x hx
    obtain ⟨y, hy, hid, ho⟩ := hsl x hx
    obtain ⟨hw, hyo⟩ := hi.slots y hy
    exact ⟨hid ▸ hm.spawned hw, fun o hox => (ho o hox).elim (fun hoy => hm.spawned (hyo o hoy)) id⟩
  · intro r hr
    exact (hi.removals r (hremovals ▸ hr)).moves hi.steady hm

theorem Invariant.schedule (hi : h.Invariant) {st : SchedulerStep} (hst : ∀ w, st ≠ .start w) :
    (h.schedule st).Invariant :=
  hi.of_frame (.of_step hst) rfl rfl (.inl rfl)

theorem Invariant.queue_run (hi : h.Invariant) (qs : List QueueStep)
    (hqs : ∀ w, QueueStep.scheduler (.start w) ∉ qs) :
    ({ h with queue := h.queue.run qs }).Invariant :=
  hi.of_frame (StopQueue.moves_run _ hqs) rfl rfl (.inl rfl)

theorem schedule_scheduler (st : SchedulerStep) :
    (h.schedule st).queue.scheduler = h.queue.scheduler.step st :=
  rfl

-- a claim that goes through records a registration for a call not yet starting one
theorem Invariant.claim (hi : h.Invariant) {d : InputDescriptor} {t : Tasks}
    (hcl : h.tasks.step host (.claim d) = (.ok (), t)) {c : Nat} (hc : c < h.nextCall)
    (hnew : ∀ k c', (k, c') ∈ h.starting → c' ≠ c) :
    { h with tasks := t, starting := h.starting ++ [(d.key, c)] }.Invariant := by
  obtain ⟨hres, rfl⟩ := Tasks.step_claim_of_ok hcl
  have hkey : ∀ k c', (k, c') ∈ h.starting → k ≠ d.key :=
    fun k c' hkc he => hres (he ▸ (hi.claimed k c' hkc).1)
  refine ⟨hi.steady, ?_, ?_, fun k c' hkc => ?_, fun d' w hmem => ?_, hi.slots, hi.removals⟩
  · rw [List.map_append, List.nodup_append]
    refine ⟨hi.keys_nodup, List.nodup_singleton _, fun a ha b hb => ?_⟩
    obtain ⟨⟨k, c'⟩, hkc, rfl⟩ := List.mem_map.mp ha
    rw [List.map_singleton, List.mem_singleton] at hb
    exact hb ▸ hkey k c' hkc
  · rw [List.map_append, List.nodup_append]
    refine ⟨hi.calls_nodup, List.nodup_singleton _, fun a ha b hb => ?_⟩
    obtain ⟨⟨k, c'⟩, hkc, rfl⟩ := List.mem_map.mp ha
    rw [List.map_singleton, List.mem_singleton] at hb
    exact hb ▸ hnew k c' hkc
  · rcases List.mem_append.mp hkc with hkc | hkc
    · obtain ⟨hk, hc'⟩ := hi.claimed k c' hkc
      exact ⟨List.mem_append_left _ hk, hc'⟩
    · obtain ⟨rfl, rfl⟩ := Prod.mk.inj (List.mem_singleton.mp hkc)
      exact ⟨List.mem_append_right _ (List.mem_singleton_self _), hc⟩
  · -- the new registration has not started
    rcases List.mem_append.mp hmem with hmem | hmem
    · obtain ⟨c', p, n, hkc, hc'⟩ := hi.started d' w hmem
      exact ⟨c', p, n, List.mem_append_left _ hkc, hc'⟩
    · simp at hmem

-- a registration claims the key and has the scheduler start its worker under a fresh id
theorem Invariant.register (hi : h.Invariant) (d : InputDescriptor) (id : Uuid) :
    (h.step host (.register d id)).2.Invariant := by
  rcases register_cases host d id with he | ⟨hid, t, hcl, he⟩ <;> rw [he]
  · exact hi
  have hg : ({ h.schedule (.start id) with issued := h.issued ++ [id] }).Invariant :=
    hi.of_frame (.start id hid .refl) rfl rfl (.inl rfl)
  -- the start is the scheduler's call numbered after every call before it
  have hlen : h.nextCall < (h.schedule (.start id)).nextCall := by
    simp [nextCall, schedule_scheduler, Scheduler.step, Scheduler.begin]
  exact hg.claim hcl hlen fun k c hkc => (hi.claimed k c hkc).2.ne

-- the worker of the registration that the call `c` started starts under that call's worker id
theorem Invariant.start_worker (hi : h.Invariant) {k : PathKey} {c : Nat} {w : Uuid}
    {p : StartPhase} {n : Nat} (hkc : (k, c) ∈ h.starting)
    (hc : h.queue.scheduler.calls[c]? = some (.start w p n))
    (hok : (h.tasks.step host (.start k w)).1 = .ok ()) :
    { h with tasks := (h.tasks.step host (.start k w)).2 }.Invariant := by
  rcases Tasks.start_of_ok hok with he | ⟨d, w', hcl, hid, he⟩ <;> rw [he]
  · exact hi
  have hdk : d.key = k := (Tasks.claimant?_eq_some hcl).2
  refine ⟨hi.steady, hi.keys_nodup, hi.calls_nodup, hi.claimed, fun d' w'' hmem => ?_, hi.slots,
    hi.removals⟩
  obtain ⟨g, hg, hge⟩ := List.mem_map.mp hmem
  by_cases hgk : g.key = k
  · -- the registration claiming `k` is the one the call `c` started
    simp only [hgk, beq_self_eq_true, if_true, Registration.started.injEq] at hge
    obtain ⟨rfl, rfl⟩ := hge
    refine ⟨c, p, n, ?_, ?_⟩
    · rw [hdk]
      exact hkc
    · rw [hid]
      exact hc
  · simp only [hgk, beq_iff_eq, if_false] at hge
    exact hi.started d' w'' (hge ▸ hg)

-- The registration that the call `c` started for `k` ends: its start is forgotten, and the tasks
-- let the claim on `k` go, with its registration or publishing it.
theorem Invariant.release_start (hi : h.Invariant) {k : PathKey} {c : Nat}
    (hkc : (k, c) ∈ h.starting) {t : Tasks}
    (hres : ∀ k', k' ∈ h.tasks.registry.reserved → k' ≠ k → k' ∈ t.registry.reserved)
    (hin : ∀ d w, Registration.started d w ∈ t.inFlight →
      Registration.started d w ∈ h.tasks.inFlight ∧ d.key ≠ k)
    (hsl : ∀ x ∈ t.registry.slots,
      h.queue.scheduler.Spawned x.worker.id ∧ ∀ o ∈ x.outlets, h.queue.scheduler.Spawned o.1) :
    { h with tasks := t, starting := h.starting.filter (·.2 != c) }.Invariant := by
  -- the other starts are of other keys and other calls
  have hother : ∀ k' c', (k', c') ∈ h.starting → (k' = k ↔ c' = c) := fun k' c' hm =>
    ⟨fun hk => congrArg Prod.snd (List.inj_on_of_nodup_map hi.keys_nodup hm hkc hk),
      fun hc => congrArg Prod.fst (List.inj_on_of_nodup_map hi.calls_nodup hm hkc hc)⟩
  refine ⟨hi.steady, hi.keys_nodup.sublist (List.filter_sublist.map _),
    hi.calls_nodup.sublist (List.filter_sublist.map _), fun k' c' hm => ?_, fun d w hm => ?_, hsl,
    hi.removals⟩
  · obtain ⟨hm, hne⟩ := List.mem_filter.mp hm
    have hne : c' ≠ c := by simpa using hne
    obtain ⟨hk', hc'⟩ := hi.claimed k' c' hm
    exact ⟨hres k' hk' fun he => hne ((hother k' c' hm).mp he), hc'⟩
  · obtain ⟨hm, hne⟩ := hin d w hm
    obtain ⟨c', p, n, hkc', hc'⟩ := hi.started d w hm
    refine ⟨c', p, n, List.mem_filter.mpr ⟨hkc', ?_⟩, hc'⟩
    simpa using fun he => hne ((hother _ _ hkc').mpr he)

-- the registration lets its claim go, with the registration
theorem Invariant.abandon (hi : h.Invariant) {k : PathKey} {c : Nat} (hkc : (k, c) ∈ h.starting) :
    { h with tasks := h.tasks.abandon k, starting := h.starting.filter (·.2 != c) }.Invariant :=
  hi.release_start hkc (fun k' hk' hne => List.mem_filter.mpr ⟨hk', by simpa using hne⟩)
    (fun d w hm => by
      obtain ⟨hm, hk⟩ := List.mem_filter.mp hm
      exact ⟨hm, by simpa using hk⟩)
    hi.slots

-- the registration whose start returned publishes its input, whose worker has spawned its task
theorem Invariant.publish_start (hi : h.Invariant) (ht : h.tasks.Sound) {k : PathKey} {c : Nat}
    {w : Uuid} {n : Nat} (hkc : (k, c) ∈ h.starting)
    (hc : h.queue.scheduler.calls[c]? = some (.start w (.returned none) n)) :
    { h with tasks := (h.tasks.step host (.publish k)).2,
             starting := h.starting.filter (·.2 != c) }.Invariant := by
  rcases Tasks.publish_cases h.tasks k with ⟨he, hnone⟩ | ⟨d, w', hcl, he⟩
  · rw [he]
    exact hi.release_start hkc (fun k' hk' _ => hk')
      (fun d w hm => ⟨hm, ht.key_ne_of_not_claimant hnone hm⟩) hi.slots
  obtain ⟨hmem, hk⟩ := Tasks.claimant?_eq_some hcl
  -- the published worker is the one the call `c` started, which has spawned its task
  have hsp : h.queue.scheduler.Spawned w'.id := by
    obtain ⟨c', p, n', hkc', hc'⟩ := hi.started d w' hmem
    have hcc : c' = c := congrArg Prod.snd (List.inj_on_of_nodup_map hi.keys_nodup hkc' hkc hk)
    rw [hcc, hc] at hc'
    cases hc'
    exact hi.steady.spawnsKept c _ _ n hc rfl
  refine hi.release_start hkc (fun k' hk' hne => ?_) (fun d₀ w₀ hm => ?_) (fun x hx => ?_)
  · rw [he, Registry.release_reserved, Registry.insert_reserved]
    exact List.mem_filter.mpr ⟨hk', by simpa using hne⟩
  · rw [he] at hm
    obtain ⟨hm, hk₀⟩ := List.mem_filter.mp hm
    exact ⟨hm, by simpa using hk₀⟩
  · rw [ht.publish_slots hcl] at hx
    rcases List.mem_append.mp hx with hx | hx
    · exact hi.slots x hx
    · rw [List.mem_singleton] at hx
      subst hx
      exact ⟨hsp, fun o ho => by simp at ho⟩

theorem Invariant.init (hi : h.Invariant) (c : Nat) : (h.step host (.init c)).2.Invariant := by
  rcases init_cases host c with he | ⟨w, n, hc, he | ⟨k, hkc, ⟨hok, he⟩ | ⟨f, -, he⟩⟩⟩ <;> rw [he]
  · exact hi
  · exact hi.schedule fun _ h => by cases h
  · exact (hi.start_worker hkc hc hok).schedule fun _ h => by cases h
  · exact (hi.abandon hkc).schedule fun _ h => by cases h

theorem Invariant.publish (hi : h.Invariant) (ht : h.tasks.Sound) (c : Nat) :
    (h.step host (.publish c)).2.Invariant := by
  rcases publish_cases host c with he | ⟨k, w, n, hkc, ⟨hc, he⟩ | ⟨f, -, he⟩⟩ <;> rw [he]
  · exact hi
  · exact hi.publish_start ht hkc hc
  · exact hi.abandon hkc

theorem Invariant.add_removal (hi : h.Invariant) {r : Removal} (hr : r.Holds h.queue.scheduler) :
    { h with removals := h.removals ++ [r] }.Invariant := by
  refine ⟨hi.steady, hi.keys_nodup, hi.calls_nodup, hi.claimed, hi.started, hi.slots,
    fun r' hr' => ?_⟩
  rcases List.mem_append.mp hr' with hr' | hr'
  · exact hi.removals r' hr'
  · exact List.mem_singleton.mp hr' ▸ hr

theorem Invariant.setPhase (hi : h.Invariant) {i : Nat} {r : Removal} (hr : h.removals[i]? = some r)
    {p : RemovalPhase} (hh : ({ r with phase := p } : Removal).Holds h.queue.scheduler) :
    (h.setPhase i p).Invariant := by
  refine ⟨hi.steady, hi.keys_nodup, hi.calls_nodup, hi.claimed, hi.started, hi.slots,
    fun r' hr' => ?_⟩
  -- only the removal `i` changes
  change r' ∈ h.removals.modify i _ at hr'
  rw [List.modify_eq_set_getElem?, hr] at hr'
  rcases List.mem_or_eq_of_mem_set hr' with hr' | rfl
  · exact hi.removals r' hr'
  · exact hh

theorem step_stop_call (s : Scheduler) (id : Uuid) :
    (s.step (.stop id)).calls[s.calls.length]? = some (.stop id .taking) := by
  simp [Scheduler.step, Scheduler.begin]

-- The removal `i` goes on with the clients `ids` left to stop, its input's worker and the clients
-- before them retired: it stops the next one under the scheduler's next call, or returns.
theorem Invariant.stopNext (hi : h.Invariant) {i : Nat} {r : Removal} (hr : h.removals[i]? = some r)
    {ids : List Uuid} (hw : h.queue.scheduler.Retired r.worker)
    (hdone : ∃ done, r.clients = done ++ ids ∧ ∀ x ∈ done, h.queue.scheduler.Retired x) :
    (h.stopNext i ids).Invariant := by
  have hh := hi.removals r (List.mem_of_getElem? hr)
  obtain ⟨done, hcl, hdone⟩ := hdone
  cases ids with
  | nil =>
    refine hi.setPhase hr ⟨hh.worker, hh.clients, hw, fun x hx => hdone x ?_⟩
    simpa [hcl] using hx
  | cons id rest =>
    have hid : id ∈ r.clients := by simp [hcl]
    have hstop : ∀ id', SchedulerStep.stop id ≠ .start id' := fun _ h => by cases h
    refine (hi.schedule (hstop · )).setPhase hr ⟨hh.worker.step _, fun x hx => (hh.clients x hx).step _,
      hw.step hi.steady.sound (hstop _), ?_, done, hcl, fun x hx => ?_⟩
    · exact ⟨(hh.clients id hid).step _, .taking, step_stop_call _ id, fun h => absurd rfl h⟩
    · exact (hdone x hx).step hi.steady.sound (hstop _)

theorem Invariant.deregister (hi : h.Invariant) (path : String) :
    (h.step host (.deregister path)).2.Invariant := by
  rcases deregister_cases host path with he | ⟨s, r, hr, he⟩ <;> rw [he]
  · exact hi
  obtain ⟨hw, ho⟩ := hi.slots s (Registry.mem_of_slot? (Registry.remove_eq_ok hr).1).1
  have hstop : ∀ id', SchedulerStep.stop s.worker.id ≠ .start id' := fun _ h => by cases h
  have hg : ({ h.schedule (.stop s.worker.id) with
      tasks := (h.tasks.step host (.deregister path)).2 }).Invariant :=
    hi.of_frame (.of_step hstop) rfl rfl
      (.inr ⟨host, .deregister path, rfl, (fun _ _ h => by cases h), tasks_with _ _⟩)
  -- the new removal stops the input's worker first, under the scheduler's next call
  refine hg.add_removal ⟨hw.step _, fun id hid => ?_, hw.step _, .taking, step_stop_call _ _,
    fun h => absurd rfl h⟩
  obtain ⟨o, ho', rfl⟩ := List.mem_map.mp hid
  exact (ho o ho').step _

theorem Invariant.removal (hi : h.Invariant) (i : Nat) : (h.step host (.removal i)).2.Invariant := by
  rcases removal_cases host i with he | ⟨r, hr, ⟨c, hp, hc, he⟩ | ⟨id, c, rest, hp, hc, he⟩⟩ <;>
    rw [he]
  · exact hi
  · -- the input's worker has stopped: the slot's outlets are dropped, then the first client stopped
    have hstage : h.queue.scheduler.Stopping c r.worker := by
      have := (hi.removals r (List.mem_of_getElem? hr)).stage
      rwa [hp] at this
    obtain ⟨_, hc'⟩ := stopped_eq_true hc
    have hg : ({ h with tasks := (h.tasks.step host (.drop r.worker)).2 }).Invariant :=
      hi.of_frame .refl rfl rfl (.inr ⟨host, .drop r.worker, rfl, (fun _ _ h => by cases h), tasks_with _ _⟩)
    exact hg.stopNext hr (hstage.retired hc') ⟨[], rfl, fun _ h => by cases h⟩
  · -- the client `id` has stopped: the next one is stopped
    obtain ⟨hw, hstop, done, hcl, hdone⟩ : h.queue.scheduler.Retired r.worker ∧
        h.queue.scheduler.Stopping c id ∧ ∃ done, r.clients = done ++ id :: rest ∧
          ∀ x ∈ done, h.queue.scheduler.Retired x := by
      have := (hi.removals r (List.mem_of_getElem? hr)).stage
      rwa [hp] at this
    obtain ⟨_, hc'⟩ := stopped_eq_true hc
    refine hi.stopNext hr hw ⟨done ++ [id], by simp [hcl], fun x hx => ?_⟩
    rcases List.mem_append.mp hx with hx | hx
    · exact hdone x hx
    · exact List.mem_singleton.mp hx ▸ hstop.retired hc'

theorem Invariant.accept (hi : h.Invariant) (id : Uuid) : (h.step host (.accept id)).2.Invariant := by
  rcases accept_cases host id with he | ⟨hid, he⟩ <;> rw [he]
  · exact hi
  · exact hi.of_frame (.start id hid .refl) rfl rfl (.inl rfl)

-- a client attaches from its own run, in a task spawned for its worker
theorem Invariant.attach (hi : h.Invariant) (t : Nat) (k : PathKey) :
    (h.step host (.attach t k)).2.Invariant := by
  rcases attach_cases host t k with he | ⟨id, t', hrun, hat, he⟩ <;> rw [he]
  · exact hi
  obtain ⟨task, htask, hw, -⟩ := running_some hrun
  have hsp : h.queue.scheduler.Spawned id := ⟨t, task, htask, hw⟩
  exact hi.of_frame .refl rfl rfl (.inr ⟨host, .attach k id, rfl, (fun _ _ he => by cases he; exact hsp),
    by rw [hat]⟩)

theorem Invariant.finish (hi : h.Invariant) (t : Nat) : (h.step host (.finish t)).2.Invariant := by
  have hleave : ∀ id, Scheduler.Moves h.issued h.queue.scheduler h.issued
      (h.leave id t).queue.scheduler := fun id => by
    rw [leave_queue]
    exact StopQueue.moves_run _ (by simp)
  rcases finish_cases host t with he | ⟨id, ⟨k, -, he⟩ | ⟨-, he⟩⟩ <;> rw [he]
  · exact hi
  · exact hi.of_frame (hleave id) rfl rfl
      (.inr ⟨host, .detach k id, rfl, (fun _ _ h => by cases h), tasks_with _ _⟩)
  · exact hi.of_frame (hleave id) rfl rfl (.inl rfl)

theorem Invariant.step (hi : h.Invariant) (ht : h.tasks.Sound) (st : HostingStep) :
    (h.step host st).2.Invariant := by
  cases st with
  | register d id => exact hi.register d id
  | init c => exact hi.init c
  | publish c => exact hi.publish ht c
  | update d =>
    rw [step_update, withTasks_snd]
    exact hi.of_frame .refl rfl rfl (.inr ⟨host, .update d, rfl, (fun _ _ h => by cases h), tasks_with _ _⟩)
  | dispatch k u =>
    rw [step_dispatch, withTasks_snd]
    exact hi.of_frame .refl rfl rfl
      (.inr ⟨host, .dispatch k u, rfl, (fun _ _ h => by cases h), tasks_with _ _⟩)
  | worker k e =>
    rcases worker_cases host k e with he | he <;> rw [he]
    · exact hi
    · exact hi.of_frame .refl rfl rfl
        (.inr ⟨host, .worker k e, rfl, (fun _ _ h => by cases h), tasks_with _ _⟩)
  | deregister path => exact hi.deregister path
  | removal i => exact hi.removal i
  | accept id => exact hi.accept id
  | attach t k => exact hi.attach t k
  | finish t => exact hi.finish t
  | dropConnections k =>
    rcases dropConnections_cases host k with he | he <;> rw [he]
    · exact hi
    · -- the clients' ids are pushed on the queue, which starts nothing
      have hm : Scheduler.Moves h.issued h.queue.scheduler h.issued
          (h.pushClients k).queue.scheduler := by
        rw [pushClients_queue]
        exact StopQueue.moves_run _ (by simp)
      exact hi.of_frame hm rfl rfl (.inl rfl)
  | scheduler st =>
    rcases scheduler_cases host st with he | ⟨hst, he⟩ <;> rw [he]
    · exact hi
    · exact hi.schedule hst
  | receive =>
    rw [step_receive]
    exact hi.queue_run [.receive] (by simp)
  | resume =>
    rw [step_resume]
    exact hi.queue_run [.resume] (by simp)
  | quit =>
    rw [step_quit]
    exact hi.queue_run [.quit] (by simp)

theorem Reachable.invariant (hr : h.Reachable host) : h.Invariant := by
  induction hr with
  | fresh r consumer hs _ => exact invariant_fresh r consumer hs
  | step st hr ih => exact ih.step hr.tasks.sound st

end Hosting

end MediaRelay
