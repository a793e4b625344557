import Mathlib
import MediaRelay.Proofs.Relay.Invariant

-- The removal of an input, across everything the relay does meanwhile. The removal takes the slot
-- out of the table in one locked section; from then on no slot lists its clients' queues, so each
-- keeps the units queued before the removal and gets no other. Once the removal has stopped the
-- input's worker it drops the slot, which closes the sending side of each of those queues, and the
-- queues stay closed. When the removal returns, the scheduler hosts neither the input's worker nor
-- the worker of any client attached at the removal: each stop that returned took its worker out of
-- the map, and no id is started twice (`Hosting.Invariant`). Until the path is registered again, or
-- an input moved to it, the path has no input at all.

namespace MediaRelay

namespace Scheduler

theorem Retired.hosts_eq_false {s : Scheduler} {id : Uuid} (h : s.Retired id) :
    s.hosts id = false :=
  List.any_eq_false.mpr fun e he hid => h.not_hosted e he (by simpa using hid)

end Scheduler

namespace Hosting

variable {host : Net.Host} {h : Hosting} {i : Nat} {s : Slot} {path : String}

theorem size_le_step (hr : h.Reachable host) (st : HostingStep) :
    h.tasks.registry.queues.size ≤ (h.step host st).2.tasks.registry.queues.size := by
  rcases tasks_step h st with he | ⟨st', -, he⟩ <;> rw [he]
  exact Tasks.size_le_step host hr.tasks.sound st'

-- Until the removal `i` has stopped the input's worker, the slot it took out is being dropped;
-- once it has, the sending side of each of the slot's clients' queues is closed.
def Dropping (i : Nat) (s : Slot) (h : Hosting) : Prop :=
  (s ∈ h.tasks.dropping ∧ ∃ c, (h.removals[i]?).map Removal.phase = some (.stoppingInput c)) ∨
    ∀ o ∈ s.outlets, (h.tasks.registry.queue o.2).senderOpen = false

theorem Dropping.step (hr : h.Reachable host)
    (hw : (h.removals[i]?).map Removal.worker = some s.worker.id)
    (hq : ∀ o ∈ s.outlets, o.2 < h.tasks.registry.queues.size) (hd : Dropping i s h)
    (st : HostingStep) : Dropping i s (h.step host st).2 := by
  rcases hd with ⟨hdrop, c, hp⟩ | hc
  · obtain ⟨r, hri, hrp⟩ := Option.map_eq_some_iff.mp hp
    have hrw : r.worker = s.worker.id := by simpa [hri] using hw
    -- the drop of the slot's worker closes the queues
    have dropped : ∀ o ∈ s.outlets,
        ((h.tasks.step host (.drop r.worker)).2.registry.queue o.2).senderOpen = false :=
      fun o ho => hrw ▸ Tasks.closed_drop hdrop ho (hq o ho)
    by_cases hst : st = .removal i
    · subst hst
      rcases removal_cases host i with he | ⟨r', hr', ⟨c', -, -, he⟩ | ⟨id, c', rest, hp', -, -⟩⟩
      · rw [he]
        exact .inl ⟨hdrop, c, hp⟩
      · rw [hri] at hr'
        cases hr'
        refine .inr fun o ho => ?_
        rw [he, stopNext_tasks]
        exact dropped o ho
      · -- the removal is still stopping the input's worker
        rw [hri] at hr'
        cases hr'
        rw [hrp] at hp'
        cases hp'
    · obtain ⟨r', hr', -, -, hphase⟩ := removal_step hri st
      have hp' : (((h.step host st).2.removals)[i]?).map Removal.phase = some (.stoppingInput c) := by
        rw [hr', Option.map_some, hphase.resolve_right hst, hrp]
      rcases tasks_step h st with he | ⟨st', -, he⟩ <;> rw [Dropping, he]
      · exact .inl ⟨hdrop, c, hp'⟩
      · rcases Tasks.mem_dropping_step hdrop st' with hmem | rfl
        · exact .inl ⟨hmem, c, hp'⟩
        · exact .inr fun o ho => hrw ▸ dropped o ho
  · -- a closed queue stays closed
    refine .inr fun o ho => ?_
    rcases tasks_step h st with he | ⟨st', -, he⟩ <;> rw [he]
    · exact hc o ho
    · exact Tasks.closed_step hr.tasks (hq o ho) (hc o ho) st'

theorem Dropping.run (hr : h.Reachable host)
    (hw : (h.removals[i]?).map Removal.worker = some s.worker.id)
    (hq : ∀ o ∈ s.outlets, o.2 < h.tasks.registry.queues.size) (hd : Dropping i s h)
    (steps : List HostingStep) : Dropping i s (h.run host steps) := by
  induction steps generalizing h with
  | nil => exact hd
  | cons st steps ih =>
    refine ih (.step st hr) ?_ (fun o ho => lt_of_lt_of_le (hq o ho) (size_le_step hr st))
      (hd.step hr hw hq st)
    obtain ⟨r, hri, hrw⟩ := Option.map_eq_some_iff.mp hw
    obtain ⟨r', hr', hw', -, -⟩ := removal_step hri st
    rw [hr', Option.map_some, hw', hrw]

theorem attach_of_vacant (hv : h.tasks.Vacant (PathKey.ofPath path)) {t : Nat} {id : Uuid}
    (hrun : h.running? t = some (id, .resolving)) :
    h.step host (.attach t (PathKey.ofPath path)) =
      (.error (.registry (.inputNotFound (PathKey.ofPath path))), h) := by
  rw [step_attach, hrun]
  dsimp only
  rw [(Tasks.Vacant.table host hv).1 id]

theorem dispatch_of_vacant (hv : h.tasks.Vacant (PathKey.ofPath path)) (u : Octets) :
    h.step host (.dispatch (PathKey.ofPath path) u) = (.ok (), h) := by
  rw [step_dispatch, withTasks, Tasks.step_dispatch, (Tasks.Vacant.table host hv).2.1 u]

-- a registration of the path under a fresh id is granted exactly for a valid route
theorem register_of_vacant (hv : h.tasks.Vacant (PathKey.ofPath path)) {d : InputDescriptor}
    (hd : d.key = PathKey.ofPath path) {id : Uuid} (hid : id ∉ h.issued) :
    (h.step host (.register d id)).1 = .ok () ↔ d.route.validate = .ok () := by
  have hclaim := (Tasks.Vacant.table host hv).2.2.2.2.2 d hd
  rw [step_register, if_neg hid]
  split
  · rename_i t heq
    rw [heq] at hclaim
    exact hclaim
  · rename_i f t heq
    rw [heq] at hclaim
    exact hclaim

theorem deregister_of_slot (host : Net.Host) (hs : h.tasks.registry.slot? (PathKey.ofPath path) = some s) :
    h.step host (.deregister path) = (.ok (), { h.schedule (.stop s.worker.id) with
      tasks := (h.tasks.step host (.deregister path)).2
      removals := h.removals ++ [{ worker := s.worker.id, clients := s.outlets.map Prod.fst,
                                   phase := .stoppingInput h.nextCall }] }) := by
  rw [step_deregister, Registry.remove, hs]

-- The removal of a registered input, and every run of the relay after it. The clients attached at
-- the removal keep exactly the units queued before it, and once the removal has stopped the
-- input's worker their queues are closed. Once the removal returns, the scheduler hosts neither
-- the input's worker nor those clients' workers. Until a registration or an update takes the path
-- again, an attachment to it fails and changes nothing, a dispatch there does nothing, a detach
-- there is a no-op, the path counts no client and resolves to nothing, and it can be registered.
theorem removal_closes_queues_and_frees_path (hr : h.Reachable host)
    (hs : h.tasks.registry.slot? (PathKey.ofPath path) = some s) :
    let k := PathKey.ofPath path
    let i := h.removals.length
    (h.step host (.deregister path)).1 = .ok () ∧
    (h.step host (.deregister path)).2.removals[i]? =
      some { worker := s.worker.id, clients := s.outlets.map Prod.fst,
             phase := .stoppingInput h.nextCall } ∧
    ∀ steps : List HostingStep, let h₂ := (h.step host (.deregister path)).2.run host steps
      (∀ o ∈ s.outlets,
        (h₂.tasks.registry.queue o.2).items = (h.tasks.registry.queue o.2).items ∧
        ((∀ c, (h₂.removals[i]?).map Removal.phase ≠ some (.stoppingInput c)) →
          (h₂.tasks.registry.queue o.2).senderOpen = false)) ∧
      ((h₂.removals[i]?).map Removal.phase = some .returned →
        h₂.queue.scheduler.hosts s.worker.id = false ∧
        ∀ o ∈ s.outlets, h₂.queue.scheduler.hosts o.1 = false) ∧
      ((∀ st ∈ steps, ¬st.TakesKey k) →
        (∀ t id, h₂.running? t = some (id, .resolving) →
          h₂.step host (.attach t k) = (.error (.registry (.inputNotFound k)), h₂)) ∧
        (∀ u, h₂.step host (.dispatch k u) = (.ok (), h₂)) ∧
        (∀ id, h₂.tasks.step host (.detach k id) = (.ok (), h₂.tasks)) ∧
        h₂.tasks.registry.connectionCount path = 0 ∧ h₂.tasks.registry.resolve path = none ∧
        ∀ d id, d.key = k → id ∉ h₂.issued →
          ((h₂.step host (.register d id)).1 = .ok () ↔ d.route.validate = .ok ())) := by
  intro k i
  have hstep := deregister_of_slot host hs
  set h₁ := (h.step host (.deregister path)).2 with hh₁
  have hr₁ : h₁.Reachable host := .step _ hr
  have hrem : h₁.removals[i]? =
      some { worker := s.worker.id, clients := s.outlets.map Prod.fst,
             phase := .stoppingInput h.nextCall } := by
    rw [hh₁, hstep]
    simp [i]
  have htasks₁ : h₁.tasks = (h.tasks.step host (.deregister path)).2 := by rw [hh₁, hstep]
  obtain ⟨hsm, -⟩ := Registry.mem_of_slot? hs
  have hq : ∀ o ∈ s.outlets, o.2 < h.tasks.registry.queues.size :=
    (hr.tasks.wiredIn s hsm).2
  -- the removal leaves the queues as they are
  have hqueues : h₁.tasks.registry.queues = h.tasks.registry.queues := by
    rw [htasks₁, Tasks.step_deregister_of_slot hs]
  refine ⟨by rw [hstep], hrem, fun steps => ?_⟩
  intro h₂
  have hr₂ : h₂.Reachable host := hr₁.run steps
  obtain ⟨ts, hts, hrun⟩ := tasks_run h₁ steps
  refine ⟨fun o ho => ⟨?_, fun hnot => ?_⟩, fun hret => ?_, fun hfree => ?_⟩
  · -- no slot lists the queue any more, so nothing is queued on it
    have hn := Tasks.not_lists_deregister hr.tasks hs (List.mem_map_of_mem ho)
    rw [← htasks₁] at hn
    have hq₁ : o.2 < h₁.tasks.registry.queues.size := hqueues ▸ hq o ho
    have hitems := Tasks.items_run_of_not_lists hr₁.tasks hq₁ hn ts
    rw [← hrun] at hitems
    rw [hitems, htasks₁, Tasks.step_deregister_of_slot hs]
    rfl
  · -- the removal has stopped the input's worker, so it has dropped the slot
    have hd : Dropping i s h₂ := by
      refine Dropping.run hr₁ (by rw [hrem]; rfl) (fun o ho => hqueues ▸ hq o ho)
        (.inl ⟨?_, h.nextCall, ?_⟩) steps
      · rw [htasks₁, Tasks.step_deregister_of_slot hs]
        exact List.mem_append_right _ (List.mem_singleton_self _)
      · rw [hrem]
        rfl
    rcases hd with ⟨-, c, hc⟩ | hc
    · exact absurd hc (hnot c)
    · exact hc o ho
  · -- the removal has returned: every worker it stopped is retired
    obtain ⟨r, hri, hrp⟩ := Option.map_eq_some_iff.mp hret
    obtain ⟨r', hr', hw, hcl⟩ := removal_run hrem steps
    rw [hri] at hr'
    cases hr'
    have hh := hr₂.invariant.removals r (List.mem_of_getElem? hri)
    obtain ⟨hwr, hclr⟩ : h₂.queue.scheduler.Retired r.worker ∧
        ∀ x ∈ r.clients, h₂.queue.scheduler.Retired x := by
      have := hh.stage
      rwa [hrp] at this
    have hw' : r.worker = s.worker.id := hw
    have hcl' : r.clients = s.outlets.map Prod.fst := hcl
    refine ⟨hw' ▸ hwr.hosts_eq_false, fun o ho => (hclr o.1 ?_).hosts_eq_false⟩
    rw [hcl']
    exact List.mem_map_of_mem ho
  · -- nothing takes the path again, so it stays vacant
    have hv : h₂.tasks.Vacant k := by
      rw [hrun]
      refine Tasks.Vacant.run hr₁.tasks ?_ ts fun st' hst' hk => ?_
      · rw [htasks₁]
        exact Tasks.vacant_deregister hr.tasks hs
      · obtain ⟨st, hst, hk'⟩ := hts k st' hst' hk
        exact hfree st hst hk'
    have htable := Tasks.Vacant.table host hv
    exact ⟨fun t id hrun => attach_of_vacant hv hrun, dispatch_of_vacant hv, htable.2.2.1,
      htable.2.2.2.1, htable.2.2.2.2.1, fun d id hd hid => register_of_vacant hv hd hid⟩

-- An input with one client attached is removed; the run after the removal stops the input's
-- worker, drops the slot, stops the client, whose own run ends meanwhile, and returns.
theorem removal_closes_queues_and_frees_path_one_client :
    let da : InputDescriptor :=
      { uuid := .ofNat 1, path := "/a", media := .flv
        route := { uuid := .ofNat 2, host := "127.0.0.1", port := 9000, protocol := .tcp } }
    let host := Net.Host.sample
    let h := (Hosting.fresh {} (.ofNat 9)).run host
      [.register da (.ofNat 1), .scheduler (.check 0), .init 0, .scheduler (.lock 0),
       .scheduler (.insert 0), .publish 0, .accept (.ofNat 3), .scheduler (.check 1), .init 1,
       .scheduler (.lock 1), .scheduler (.insert 1), .attach 1 (PathKey.ofPath "/a")]
    let h₂ := (h.step host (.deregister "/a")).2.run host
      [.scheduler (.take 2), .scheduler (.hook 2), .scheduler (.exit 0), .scheduler (.join 2),
       .removal 0, .scheduler (.take 3), .scheduler (.hook 3), .finish 1, .scheduler (.join 3),
       .removal 0]
    h.queue.scheduler.hosts (.ofNat 1) = true ∧ h.queue.scheduler.hosts (.ofNat 3) = true ∧
      (h₂.removals[0]?).map Removal.phase = some .returned ∧
      h₂.queue.scheduler.hosts (.ofNat 1) = false ∧ h₂.queue.scheduler.hosts (.ofNat 3) = false := by
  intro da host h h₂
  have hr : h.Reachable host := (Reachable.fresh {} _ rfl rfl).run _
  obtain ⟨s, hs⟩ : ∃ s, h.tasks.registry.slot? (PathKey.ofPath "/a") = some s :=
    Option.isSome_iff_exists.mp (by decide +kernel)
  -- the slot is the input's, with the one client attached
  have hw : s.worker.id = .ofNat 1 := by
    have hid : (h.tasks.registry.slot? (PathKey.ofPath "/a")).map (·.worker.id) = some (.ofNat 1) := by
      decide +kernel
    rw [hs] at hid
    exact Option.some.inj hid
  have hcl : (.ofNat 3 : Uuid) ∈ s.outlets.map Prod.fst := by
    have hids : (h.tasks.registry.slot? (PathKey.ofPath "/a")).map (·.outlets.map Prod.fst) =
        some [.ofNat 3] := by
      decide +kernel
    rw [hs, Option.map_some, Option.some.injEq] at hids
    rw [hids]
    exact List.mem_singleton_self _
  have hlen : h.removals.length = 0 := by decide +kernel
  have hret : (h₂.removals[0]?).map Removal.phase = some .returned := by decide +kernel
  simp only [h₂] at hret ⊢
  obtain ⟨-, -, hrun⟩ := removal_closes_queues_and_frees_path hr hs
  obtain ⟨-, hhosts, -⟩ := hrun [.scheduler (.take 2), .scheduler (.hook 2), .scheduler (.exit 0),
    .scheduler (.join 2), .removal 0, .scheduler (.take 3), .scheduler (.hook 3), .finish 1,
    .scheduler (.join 3), .removal 0]
  obtain ⟨hgone, hclients⟩ := hhosts (by rw [hlen]; exact hret)
  obtain ⟨o, ho, hoid⟩ := List.mem_map.mp hcl
  refine ⟨by decide +kernel, by decide +kernel, hret, ?_, ?_⟩
  · rw [← hw]
    exact hgone
  · rw [← hoid]
    exact hclients o ho

end Hosting

end MediaRelay
