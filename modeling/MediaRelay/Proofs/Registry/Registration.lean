import Mathlib
import MediaRelay.Proofs.Registry.Table

-- The relay's tasks interleave the three steps of each registration with updates, removals, the
-- clients' operations and the input workers' loops, on any host. Whatever the interleaving, every
-- state reached is `Sound`: each slot lies under the key of its input's current descriptor, no two
-- slots share a key, the claimed keys are exactly those of the registrations in flight, one each,
-- and no claimed key is published. From that: a registration's claim goes through exactly when its
-- key is neither published nor claimed, and publishing appends the new slot to the table and
-- replaces none (`registrations_keep_inputs_apart`).

namespace MediaRelay

-- a host for worked examples: a socket binds any address whose port no socket of its protocol
-- holds, no host name resolves, and every connection and datagram goes through, a connection
-- from port 49152
def Net.Host.sample : Net.Host where
  bind _ held a :=
    if a.port ≠ 0 ∧ a.port ∈ held.map (·.port) then .error (.os .addrInUse "address in use")
    else .ok a
  join _ := .ok ()
  resolve _ _ := .ok []
  connect a := .ok { a with port := 49152 }
  send _ := .ok ()

namespace Tasks

variable {host : Net.Host}

-- the states the relay's tasks reach on a host from a table with no inputs and no claims
inductive Reachable (host : Net.Host) : Tasks → Prop
  | fresh (r : Registry) : r.slots = [] → r.reserved = [] → Reachable host { registry := r }
  | step {t : Tasks} (s : TaskStep) : Reachable host t → Reachable host (t.step host s).2

-- the invariant of the table with its registrations in flight
structure Sound (t : Tasks) : Prop where
  -- each slot lies under the key of its input's current descriptor
  key_eq : ∀ s ∈ t.registry.slots, s.key = s.worker.key
  -- no two slots share a key
  keys_nodup : t.registry.keys.Nodup
  -- the claimed keys are those of the registrations in flight
  claimed_iff : ∀ k, k ∈ t.registry.reserved ↔ k ∈ t.inFlight.map Registration.key
  -- no two registrations in flight claim one key
  claims_nodup : (t.inFlight.map Registration.key).Nodup
  -- no claimed key is published
  apart : ∀ k ∈ t.registry.reserved, k ∉ t.registry.keys
  -- a started worker belongs to the input of its registration
  started_eq : ∀ d w, Registration.started d w ∈ t.inFlight → w.descriptor = d

variable {t : Tasks} {r : Registry} {k : PathKey}

-- what the table publishes of a slot: its key and its input
def entry (s : Slot) : PathKey × InputDescriptor :=
  (s.key, s.worker.descriptor)

theorem sound_fresh (r : Registry) (hs : r.slots = []) (hr : r.reserved = []) :
    Sound { registry := r } where
  key_eq := by simp [hs]
  keys_nodup := by simp [Registry.keys, hs]
  claimed_iff := by simp [hr]
  claims_nodup := by simp
  apart := by simp [hr]
  started_eq := by simp

-- an operation that keeps every slot's key and input, and the claims, keeps the invariant
theorem Sound.of_entries (h : t.Sound) (he : r.slots.map entry = t.registry.slots.map entry)
    (hr : r.reserved = t.registry.reserved) : Sound { t with registry := r } := by
  have hkeys : r.keys = t.registry.keys := by
    have := congrArg (List.map Prod.fst) he
    simpa [Registry.keys, List.map_map, Function.comp_def, entry] using this
  refine ⟨fun s hs => ?_, hkeys ▸ h.keys_nodup, hr ▸ h.claimed_iff, h.claims_nodup,
    hr ▸ hkeys ▸ h.apart, h.started_eq⟩
  obtain ⟨s₀, hs₀, he₀⟩ := List.mem_map.mp (he ▸ List.mem_map_of_mem (f := entry) hs)
  simp only [entry, Prod.mk.injEq] at he₀
  rw [← he₀.1, h.key_eq s₀ hs₀, InputWorker.key, he₀.2]
  rfl

-- the registrations in flight once the one claiming `k` is gone, and the claims once it is let go
theorem Sound.mem_released_iff (h : t.Sound) (k' : PathKey) :
    k' ∈ t.registry.reserved.filter (· != k) ↔ k' ∈ (t.without k).map Registration.key := by
  simp only [List.mem_filter, h.claimed_iff, bne_iff_ne, ne_eq, Tasks.without, List.mem_map]
  constructor
  · rintro ⟨⟨g, hg, rfl⟩, hne⟩
    exact ⟨g, ⟨hg, by simpa using hne⟩, rfl⟩
  · rintro ⟨g, ⟨hg, hne⟩, rfl⟩
    exact ⟨⟨g, hg, rfl⟩, by simpa using hne⟩

theorem claimant?_eq_some {g : Registration} (h : t.claimant? k = some g) :
    g ∈ t.inFlight ∧ g.key = k :=
  ⟨List.mem_of_find?_eq_some h, by simpa using List.find?_some h⟩

@[simp]
theorem key_claimed {d : InputDescriptor} : (Registration.claimed d).key = d.key := rfl

@[simp]
theorem key_started {d : InputDescriptor} {w : InputWorker} :
    (Registration.started d w).key = d.key := rfl

-- a claim that goes through records the key and its registration
theorem Sound.claim (h : t.Sound) (d : InputDescriptor) : (t.step host (.claim d)).2.Sound := by
  simp only [step_claim]
  cases hc : (d.route.validate >>= fun _ => t.registry.reserve d.key) with
  | error f => exact h
  | ok r =>
    have hr : t.registry.reserve d.key = .ok r := by
      cases hv : d.route.validate <;> simp_all [bind, Except.bind]
    obtain ⟨hk, hres, rfl⟩ := Registry.reserve_eq_ok hr
    have hnew : d.key ∉ t.inFlight.map Registration.key := fun hm => hres ((h.claimed_iff _).mpr hm)
    refine ⟨h.key_eq, h.keys_nodup, fun k' => ?_, ?_, fun k' hk' => ?_, fun d' w hm => ?_⟩
    · simp [h.claimed_iff]
    · rw [List.map_append, List.nodup_append]
      exact ⟨h.claims_nodup, by simp, fun a ha b hb => by simp at hb; exact hb ▸ fun e => hnew (e ▸ ha)⟩
    · rcases List.mem_append.mp hk' with hk' | hk'
      · exact h.apart k' hk'
      · simp only [List.mem_singleton] at hk'
        exact hk' ▸ hk
    · rcases List.mem_append.mp hm with hm | hm
      · exact h.started_eq d' w hm
      · simp at hm

-- letting the claim on `k` go, with the registration that held it
theorem Sound.release (h : t.Sound) (k : PathKey) : (t.abandon k).Sound where
  key_eq := h.key_eq
  keys_nodup := h.keys_nodup
  claimed_iff := h.mem_released_iff
  claims_nodup := h.claims_nodup.sublist (List.filter_sublist.map _)
  apart k' hk' := h.apart k' (List.mem_filter.mp hk').1
  started_eq d w hm := h.started_eq d w (List.mem_filter.mp hm).1

-- a worker that starts moves its registration on; one that fails lets the claim go
theorem Sound.start (h : t.Sound) (k : PathKey) (id : Uuid) :
    (t.step host (.start k id)).2.Sound := by
  simp only [step_start]
  split
  · rename_i d hcl
    obtain ⟨_, hk⟩ := claimant?_eq_some hcl
    split
    · rename_i w hw
      have hkeys : (t.inFlight.map fun g => if g.key == k then Registration.started d w else g).map
          Registration.key = t.inFlight.map Registration.key := by
        rw [List.map_map]
        refine List.map_congr_left fun g _ => ?_
        by_cases hg : g.key = k
        · simp [hg, ← hk]
        · simp [hg]
      refine ⟨h.key_eq, h.keys_nodup, fun k' => ?_, ?_, h.apart, fun d' w' hm => ?_⟩
      · rw [hkeys]
        exact h.claimed_iff k'
      · rw [hkeys]
        exact h.claims_nodup
      obtain ⟨g, hg, he⟩ := List.mem_map.mp hm
      by_cases hgk : g.key = k
      · simp only [hgk, beq_self_eq_true, if_true, Registration.started.injEq] at he
        obtain ⟨rfl, rfl⟩ := he
        exact (Registry.startWorker_eq_ok hw).2.1
      · simp only [hgk, beq_iff_eq, if_false] at he
        exact h.started_eq d' w' (he ▸ hg)
    · exact h.release k
  · exact h

-- the key of a registration in flight is published nowhere
theorem Sound.free_of_claimant {g : Registration} (h : t.Sound) (hcl : t.claimant? k = some g) :
    k ∉ t.registry.keys := by
  obtain ⟨hmem, hk⟩ := claimant?_eq_some hcl
  exact h.apart k ((h.claimed_iff k).mpr (List.mem_map.mpr ⟨_, hmem, hk⟩))

-- publishing adds the started input under its claimed key, which nothing published held
theorem Sound.publish (h : t.Sound) (k : PathKey) : (t.step host (.publish k)).2.Sound := by
  simp only [step_publish]
  split
  · rename_i d w hcl
    obtain ⟨hmem, hk⟩ := claimant?_eq_some hcl
    have hdesc : w.descriptor = d := h.started_eq d w hmem
    have hfree : k ∉ t.registry.keys := h.free_of_claimant hcl
    have hins := Registry.insert_of_not_mem (r := t.registry) (s := { key := k, worker := w }) hfree
    have hr := h.release k
    rw [hins]
    refine ⟨fun s hs => ?_, ?_, h.mem_released_iff, hr.claims_nodup, fun k' hk' => ?_,
      hr.started_eq⟩
    · rcases List.mem_append.mp hs with hs | hs
      · exact h.key_eq s hs
      · simp only [List.mem_singleton] at hs
        subst hs
        simp [InputWorker.key, hdesc, ← hk]
    · simp only [Registry.release_slots, Registry.keys, List.map_append, List.map_singleton]
      exact List.nodup_append.mpr ⟨h.keys_nodup, by simp, fun a ha b hb => by
        simp at hb; exact hb ▸ fun e => hfree (e ▸ ha)⟩
    · obtain ⟨hk'r, hne⟩ := List.mem_filter.mp hk'
      simp only [Registry.keys, Registry.release_slots, List.map_append, List.map_singleton,
        List.mem_append, List.mem_singleton, not_or]
      exact ⟨h.apart k' hk'r, by simpa using hne⟩
  · exact h

-- a change that replaces one slot by one with the same key and input keeps every entry
theorem entries_of_frames {r r' : Registry} {s : Slot} {f : PathKey × List (Uuid × QueueId) ×
    InputDescriptor × Protocol × Nat}
    (hframes : r'.slots.map Slot.frame = r.slots.map fun x => if x = s then f else x.frame)
    (hf : (f.1, f.2.2.1) = entry s) : r'.slots.map entry = r.slots.map entry := by
  have := congrArg (List.map fun f => (f.1, f.2.2.1)) hframes
  simp only [List.map_map] at this
  rw [show r'.slots.map entry = r'.slots.map ((fun f => (f.1, f.2.2.1)) ∘ Slot.frame) from rfl,
    this]
  refine List.map_congr_left fun x _ => ?_
  by_cases hx : x = s
  · simp [hx, hf]
  · simp [hx, Slot.frame, entry]

-- an update moves one slot to a key that is its own or neither published nor claimed
theorem Sound.update (h : t.Sound) (d : InputDescriptor) : (t.step host (.update d)).2.Sound := by
  simp only [step_update, commit]
  cases hu : t.registry.update d with
  | error f => exact h
  | ok r =>
    obtain ⟨s, hs, hmove, rfl⟩ := Registry.update_eq_ok hu
    have hslots := Registry.setSlot_slots
      (s := { s with key := d.key, worker := { s.worker with descriptor := d } })
      h.keys_nodup (Registry.slot?_of_mem h.keys_nodup hs)
    -- the keys after the move: `s.key` becomes `d.key`
    have hkeys : (t.registry.setSlot s.key
        { s with key := d.key, worker := { s.worker with descriptor := d } }).keys =
        t.registry.slots.map fun x => if x = s then d.key else x.key := by
      rw [Registry.keys, hslots, List.map_map]
      refine List.map_congr_left fun x _ => ?_
      by_cases hx : x = s <;> simp [hx]
    have hfresh : ∀ x ∈ t.registry.slots, x ≠ s → x.key ≠ d.key := by
      intro x hx hne he
      rcases hmove with hk | ⟨hk, -⟩
      · exact hne (Registry.eq_of_key_eq h.keys_nodup hx hs (he.trans hk))
      · exact hk (he ▸ List.mem_map_of_mem hx)
    refine ⟨fun x hx => ?_, ?_, h.claimed_iff, h.claims_nodup, fun k' hk' => ?_, h.started_eq⟩
    · rw [hslots] at hx
      obtain ⟨y, hy, rfl⟩ := List.mem_map.mp hx
      by_cases hys : y = s
      · simp [hys, InputWorker.key]
      · simpa [hys] using h.key_eq y hy
    · rw [hkeys]
      refine List.Nodup.map_on (fun x hx y hy he => ?_) (h.keys_nodup.of_map _)
      by_cases hxs : x = s <;> by_cases hys : y = s
      · exact hxs.trans hys.symm
      · simp only [hxs, hys, if_true, if_false] at he
        exact absurd he.symm (hfresh y hy hys)
      · simp only [hxs, hys, if_true, if_false] at he
        exact absurd he (hfresh x hx hxs)
      · simp only [hxs, hys, if_false] at he
        exact Registry.eq_of_key_eq h.keys_nodup hx hy he
    · rw [hkeys]
      simp only [List.mem_map, not_exists, not_and]
      intro x hx he
      by_cases hxs : x = s
      · simp only [hxs, if_true] at he
        subst he
        rcases hmove with hk | ⟨-, hres⟩
        · exact h.apart _ hk' (hk ▸ List.mem_map_of_mem hs)
        · exact hres hk'
      · simp only [hxs, if_false] at he
        exact h.apart k' hk' (he ▸ List.mem_map_of_mem hx)

-- removing an input takes its slot out and touches no claim
theorem Sound.deregister (h : t.Sound) (path : String) :
    (t.step host (.deregister path)).2.Sound := by
  rw [step_deregister]
  split
  · rename_i s r hr
    obtain ⟨-, rfl⟩ := Registry.remove_eq_ok hr
    have hsub : List.Sublist ((t.registry.slots.filter (·.key != PathKey.ofPath path)).map (·.key))
        t.registry.keys := List.filter_sublist.map _
    exact ⟨fun x hx => h.key_eq x (List.mem_filter.mp hx).1, h.keys_nodup.sublist hsub,
      h.claimed_iff, h.claims_nodup, fun k' hk' hm => h.apart k' hk' (hsub.subset hm),
      h.started_eq⟩
  · exact h

-- dropping outlets touches the queues alone
theorem Sound.drop (h : t.Sound) (w : Uuid) : (t.step host (.drop w)).2.Sound := by
  rw [step_drop, Registry.closeOutlets_eq]
  exact ⟨h.key_eq, h.keys_nodup, h.claimed_iff, h.claims_nodup, h.apart, h.started_eq⟩

theorem Sound.dispatch (h : t.Sound) (k : PathKey) (u : Octets) :
    (t.step host (.dispatch k u)).2.Sound := by
  simp only [step_dispatch]
  rw [Registry.dispatch_eq]
  exact h.of_entries rfl rfl

theorem Sound.attach (h : t.Sound) (k : PathKey) (id : Uuid) :
    (t.step host (.attach k id)).2.Sound := by
  simp only [step_attach, commit]
  cases ha : t.registry.attach k id with
  | error f => exact h
  | ok res =>
    obtain ⟨⟨qid, m⟩, r⟩ := res
    obtain ⟨s, -, -, -, -, hres, hframes⟩ := Registry.attach_eq_ok h.keys_nodup ha
    exact h.of_entries (entries_of_frames hframes (by simp [Slot.frame, Slot.attached, entry]))
      hres

theorem Sound.detach (h : t.Sound) (k : PathKey) (id : Uuid) :
    (t.step host (.detach k id)).2.Sound := by
  simp only [step_detach]
  rcases Registry.detach_cases t.registry k id with hd | ⟨s, q, hs, -, hd⟩
  · rw [hd]
    exact h
  · -- the detached slot keeps its key and input, and closing a queue touches no slot
    have hnd : (t.registry.modifyQueue q Queue.closeSender).keys.Nodup := h.keys_nodup
    have hsq : (t.registry.modifyQueue q Queue.closeSender).slot? k = some s := hs
    rw [hd]
    exact h.of_entries (Registry.map_setSlot entry hnd hsq (by simp [entry, Slot.detached]))
      (by simp)

-- a resumption of a worker's loop keeps its key and its input, in the table or in flight
theorem Sound.worker (h : t.Sound) (k : PathKey) (e : WorkerStep) :
    (t.step host (.worker k e)).2.Sound := by
  rw [step_worker]
  split
  · obtain ⟨slots, heq, hframes⟩ := Registry.stepWorker_eq (k := k) h.keys_nodup host
      (t.heldBy · k) e
    rw [heq]
    refine h.of_entries ?_ rfl
    have := congrArg (List.map fun f => (f.1, f.2.2.1)) hframes
    simp only [List.map_map] at this
    exact this
  · -- a started worker keeps its descriptor, so every registration keeps its key
    have hkeys : ∀ g : Registration, (if g.key == k then
        g.stepWorker host (t.heldBy g.descriptor.route.protocol k) e else g).key = g.key := by
      intro g
      split
      · cases g <;> rfl
      · rfl
    have hmap : (t.inFlight.map fun g => if g.key == k then
        g.stepWorker host (t.heldBy g.descriptor.route.protocol k) e else g).map Registration.key =
        t.inFlight.map Registration.key := by
      rw [List.map_map]
      exact List.map_congr_left fun g _ => hkeys g
    refine ⟨h.key_eq, h.keys_nodup, fun k' => ?_, ?_, h.apart, fun d w hm => ?_⟩
    · rw [hmap]
      exact h.claimed_iff k'
    · rw [hmap]
      exact h.claims_nodup
    obtain ⟨g, hg, hgw⟩ := List.mem_map.mp hm
    split at hgw
    · cases g with
      | claimed d' => simp [Registration.stepWorker] at hgw
      | started d' w' =>
        simp only [Registration.stepWorker, Registration.started.injEq] at hgw
        rw [← hgw.2, ← hgw.1, InputWorker.step_descriptor]
        exact h.started_eq d' w' hg
    · exact h.started_eq d w (hgw ▸ hg)

-- every step of the relay's tasks keeps the invariant
theorem Sound.step (h : t.Sound) : ∀ s : TaskStep, (t.step host s).2.Sound
  | .claim d => h.claim d
  | .start k id => h.start k id
  | .publish k => h.publish k
  | .abandon k => h.release k
  | .update d => h.update d
  | .deregister path => h.deregister path
  | .drop w => h.drop w
  | .dispatch k u => h.dispatch k u
  | .attach k id => h.attach k id
  | .detach k id => h.detach k id
  | .worker k e => h.worker k e

theorem Reachable.sound (h : t.Reachable host) : t.Sound := by
  induction h with
  | fresh r hs hr => exact sound_fresh r hs hr
  | step s _ ih => exact ih.step s

theorem Reachable.run (h : t.Reachable host) (steps : List TaskStep) :
    (t.run host steps).Reachable host := by
  induction steps generalizing t with
  | nil => exact h
  | cons s steps ih => exact ih (.step s h)

-- a registration that no other step interrupts is the table's `register`
theorem run_register {r r' : Registry} {id : Uuid} {d : InputDescriptor}
    (h : r.register host id d = .ok r') :
    ({ registry := r } : Tasks).run host [.claim d, .start d.key id, .publish d.key] =
      { registry := r' } := by
  unfold Registry.register at h
  cases hv : d.route.validate with
  | error e => simp [hv, bind, Except.bind] at h
  | ok u =>
    cases hr : r.reserve d.key with
    | error e => simp [hv, hr, bind, Except.bind] at h
    | ok r₁ =>
      cases hw : Registry.startWorker host id d (r₁.heldSockets d.route.protocol d.key) with
      | error e => simp [hv, hr, hw, bind, Except.bind] at h
      | ok w =>
        simp [hv, hr, hw, bind, Except.bind, pure, Except.pure] at h
        subst h
        simp [Tasks.run, step_claim, step_start, step_publish, hv, hr, hw, bind, Except.bind,
          claimant?, heldBy, without]

-- a claim is granted exactly for a valid route whose key is neither published nor claimed
theorem claim_ok_iff (d : InputDescriptor) :
    (t.step host (.claim d)).1 = .ok () ↔
      d.route.validate = .ok () ∧ d.key ∉ t.registry.keys ∧ d.key ∉ t.registry.reserved := by
  cases hv : d.route.validate with
  | error e => simp [step_claim, hv, bind, Except.bind]
  | ok u =>
    cases hr : t.registry.reserve d.key with
    | error f =>
      simp only [step_claim, hv, hr, bind, Except.bind, reduceCtorEq, true_and, false_iff, not_and,
        not_not]
      intro hk
      by_contra hres
      obtain ⟨r', hr'⟩ := Registry.reserve_eq_ok_iff.mpr ⟨hk, hres⟩
      simp [hr] at hr'
    | ok r =>
      obtain ⟨hk, hres, -⟩ := Registry.reserve_eq_ok hr
      simp [step_claim, hv, hr, bind, Except.bind, hk, hres]

-- publishing a started registration appends its slot: nothing published is replaced
theorem Sound.publish_slots {d : InputDescriptor} {w : InputWorker} (h : t.Sound)
    (hcl : t.claimant? k = some (.started d w)) :
    (t.step host (.publish k)).2.registry.slots = t.registry.slots ++ [{ key := k, worker := w }] := by
  simp only [step_publish, hcl, Registry.release_slots]
  rw [Registry.insert_of_not_mem (s := { key := k, worker := w }) (h.free_of_claimant hcl)]

theorem registrations_keep_inputs_apart (h : t.Reachable host) :
    (∀ s ∈ t.registry.slots, s.key = s.worker.key) ∧
    (∀ k ∈ t.registry.reserved, k ∉ t.registry.keys) ∧
    t.registry.keys.Nodup ∧
    (∀ d, (t.step host (.claim d)).1 = .ok () ↔
      d.route.validate = .ok () ∧ d.key ∉ t.registry.keys ∧ d.key ∉ t.registry.reserved) ∧
    (∀ k d w, t.claimant? k = some (.started d w) →
      (t.step host (.publish k)).2.registry.slots =
        t.registry.slots ++ [{ key := k, worker := w }]) :=
  have hs := h.sound
  ⟨hs.key_eq, hs.apart, hs.keys_nodup, claim_ok_iff, fun _ _ _ hcl => hs.publish_slots hcl⟩

-- while `/cam` is starting, a second registration of `cam/` is refused
theorem claim_of_claimed_key_refused :
    let d : InputDescriptor :=
      { uuid := .ofNat 1, path := "/cam", media := .flv
        route := { uuid := .ofNat 2, host := "localhost", port := 9000, protocol := .tcp } }
    let t := (({ registry := {} } : Tasks).step Net.Host.sample (.claim d)).2
    (t.step Net.Host.sample (.claim { d with uuid := .ofNat 3, path := "cam/" })).1 ≠ .ok () := by
  intro d t hok
  have hreach : t.Reachable Net.Host.sample := .step _ (.fresh {} rfl rfl)
  exact (((registrations_keep_inputs_apart hreach).2.2.2.1 _).mp hok).2.2 (by decide +kernel)

end Tasks

end MediaRelay
