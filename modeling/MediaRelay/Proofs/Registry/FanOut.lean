import Mathlib
import MediaRelay.Proofs.Registry.Slots
import MediaRelay.Relay.Connection

-- A client attached to an input gets a queue of its own, the next one of the store, which starts
-- with the input's header when it has one. Every later dispatch to the key of a slot that lists
-- the client's outlet offers the unit to that queue, once: the outlets of a slot name distinct
-- queues, all of the store. A queue takes what it is offered until it refuses a unit, and then
-- refuses every later one. Once the client's outlet is taken out of the table (by a detach, by a
-- new attachment of the same client, or with its input) no slot lists its queue again, since new
-- outlets get new queues. So along every run the client's queue holds the header and then a
-- prefix of the units dispatched to it (`Queue.Follows`).

namespace MediaRelay

namespace Queue

variable {qu : Queue} {u : Octets} {cap : Option Nat} {w us : List Octets}

-- a queue that refuses every offer: it overflowed, or its client let it go
def Refusing (qu : Queue) : Prop :=
  qu.overflowed = true ∨ qu.receiverOpen = false

-- the queue holds `w` and then a prefix of `us`, and refuses every offer once it missed one
def Follows (qu : Queue) (w us : List Octets) : Prop :=
  ∃ n, qu.items = w ++ us.take n ∧ (n < us.length → qu.Refusing)

theorem offer_of_refusing (h : qu.Refusing) :
    (qu.offer u cap).2.items = qu.items ∧ (qu.offer u cap).2.Refusing := by
  unfold offer
  rcases h with h | h
  · simp [h, Refusing]
  · split_ifs <;> simp_all [Refusing]

-- an offer queues the unit, or leaves the queue refusing
theorem offer_cases (qu : Queue) (u : Octets) (cap : Option Nat) :
    (qu.offer u cap).2.items = qu.items ++ [u] ∨
      (qu.offer u cap).2.items = qu.items ∧ (qu.offer u cap).2.Refusing := by
  unfold offer
  split_ifs <;> simp_all [Refusing]

theorem Follows.offer (h : qu.Follows w us) : (qu.offer u cap).2.Follows w (us ++ [u]) := by
  obtain ⟨n, hitems, hrefuse⟩ := h
  by_cases hn : n < us.length
  · -- a unit was missed already: this one is refused too
    obtain ⟨hi, hr⟩ : (qu.offer u cap).2.items = qu.items ∧ (qu.offer u cap).2.Refusing :=
      offer_of_refusing (hrefuse hn)
    refine ⟨n, ?_, fun _ => hr⟩
    rw [hi, hitems, List.take_append_of_le_length hn.le]
  · have htake : us.take n = us := List.take_of_length_le (Nat.le_of_not_lt hn)
    rcases offer_cases qu u cap with hq | ⟨hi, hr⟩
    · refine ⟨us.length + 1, ?_, fun hlt => absurd hlt (by simp)⟩
      rw [hq, hitems, htake, List.take_of_length_le (by simp), List.append_assoc]
    · refine ⟨us.length, ?_, fun _ => hr⟩
      rw [hi, hitems, htake, List.take_append_of_le_length le_rfl, List.take_length]

-- closing the sending side keeps what the queue holds and whether it refuses
theorem Follows.closeSender (h : qu.Follows w us) : qu.closeSender.Follows w us := h

theorem Follows.of_eq_or_closeSender {qu' : Queue} (h : qu.Follows w us)
    (h' : qu' = qu ∨ qu' = qu.closeSender) : qu'.Follows w us := by
  rcases h' with rfl | rfl
  · exact h
  · exact h.closeSender

end Queue

-- the header a client attaching to a slot is queued first, if there is one
def Slot.welcomeItems (s : Slot) : List Octets :=
  if s.worker.session.header.isEmpty then [] else [s.worker.session.header]

theorem Slot.welcome_follows (s : Slot) : s.welcome.Follows s.welcomeItems [] := by
  refine ⟨0, ?_, fun h => absurd h (Nat.not_lt_zero 0)⟩
  unfold welcome welcomeItems
  split <;> simp [Queue.offer]

-- the outlets of a slot name distinct queues, all of a store of `n`
def Slot.WiredIn (n : Nat) (s : Slot) : Prop :=
  (s.outlets.map Prod.snd).Nodup ∧ ∀ o ∈ s.outlets, o.2 < n

theorem Slot.WiredIn.lookup_lt {n : Nat} {s : Slot} {id : Uuid} (h : s.WiredIn n) :
    ∀ j, s.outlets.lookup id = some j → j < n :=
  fun j hj => h.2 (id, j) (Slot.mem_of_lookup hj)

-- every step keeps every slot wired into the store
theorem slotInvariant_wiredIn : SlotInvariant Slot.WiredIn where
  mono hle h := ⟨h.1, fun o ho => lt_of_lt_of_le (h.2 o ho) hle⟩
  congr hw h := by
    simp only [Slot.wiring, Prod.mk.injEq] at hw
    simpa [Slot.WiredIn, hw.1] using h
  published _ _ _ := ⟨List.nodup_nil, fun _ h => absurd h List.not_mem_nil⟩
  attached {n s id} h := by
    -- the fresh queue `n` is none of the queues listed so far
    have hfresh : n ∉ (s.outlets.filter (·.1 != id)).map Prod.snd := fun hm => by
      obtain ⟨o, ho, hon⟩ := List.mem_map.mp hm
      exact absurd (hon ▸ h.2 o (List.mem_filter.mp ho).1) (lt_irrefl n)
    refine ⟨?_, fun o ho => ?_⟩
    · simp only [Slot.attached, Slot.withOutlet, List.map_append, List.map_singleton]
      exact List.nodup_append.mpr ⟨(h.1.sublist (List.filter_sublist.map _)),
        List.nodup_singleton n, fun a ha b hb => by simp at hb; exact hb ▸ fun e => hfresh (e ▸ ha)⟩
    · simp only [Slot.attached, Slot.withOutlet, List.mem_append, List.mem_singleton] at ho
      rcases ho with ho | rfl
      · exact Nat.lt_succ_of_lt (h.2 o (List.mem_filter.mp ho).1)
      · exact Nat.lt_succ_self n
  detached h _ := ⟨h.1.sublist (List.filter_sublist.map _), fun o ho => h.2 o (List.mem_filter.mp ho).1⟩

namespace Registry

variable {r r' : Registry} {q : QueueId}

theorem queue_congr (h : r'.queues = r.queues) : r'.queue q = r.queue q := by
  simp [queue, h]

-- some slot lists an outlet with queue `q`
def Lists (r : Registry) (q : QueueId) : Prop :=
  ∃ s ∈ r.slots, q ∈ s.outlets.map Prod.snd

end Registry

namespace Tasks

variable (host : Net.Host) {t : Tasks} {q : QueueId} {w us : List Octets}

-- the unit a step offers to queue `q`: a dispatch to a key whose slot lists `q`
def offeredTo (t : Tasks) (q : QueueId) : TaskStep → List Octets
  | .dispatch k u =>
    if (t.registry.slot? k).any fun s => (s.outlets.map Prod.snd).contains q then [u] else []
  | _ => []

-- the units dispatched along a run to queue `q`, in order
def dispatchedTo (q : QueueId) : Tasks → List TaskStep → List Octets
  | _, [] => []
  | t, st :: steps => t.offeredTo q st ++ dispatchedTo q (t.step host st).2 steps

theorem dispatchedTo_append (q : QueueId) (pre post : List TaskStep) :
    dispatchedTo host q t (pre ++ post) =
      dispatchedTo host q t pre ++ dispatchedTo host q (t.run host pre) post := by
  induction pre generalizing t with
  | nil => rfl
  | cons st pre ih => simp [dispatchedTo, ih, Tasks.run, List.append_assoc]

-- A step other than a dispatch closes the sending side of queue `q`, or leaves it as it is; a
-- dispatch offers its unit to `q` once, exactly when the slot of its key lists `q`.
theorem queue_step_cases (hs : t.Sound)
    (hw : ∀ s ∈ t.registry.slots, s.WiredIn t.registry.queues.size)
    (hq : q < t.registry.queues.size) (st : TaskStep) :
    t.offeredTo q st = [] ∧ ((t.step host st).2.registry.queue q = t.registry.queue q ∨
      (t.step host st).2.registry.queue q = (t.registry.queue q).closeSender) ∨
    ∃ u, t.offeredTo q st = [u] ∧ (t.step host st).2.registry.queue q =
      ((t.registry.queue q).offer u (some t.registry.maxBuffer)).2 := by
  cases st with
  | claim d =>
    obtain ⟨res, hr⟩ := claim_registry host (t := t) d
    exact .inl ⟨rfl, .inl (by rw [hr]; rfl)⟩
  | start k id =>
    refine .inl ⟨rfl, .inl ?_⟩
    rcases start_registry host (t := t) k id with hr | hr <;> rw [hr]
    rfl
  | publish k =>
    refine .inl ⟨rfl, .inl ?_⟩
    simp only [step_publish]
    split
    · simp [Registry.queue]
    · rfl
  | abandon k => exact .inl ⟨rfl, .inl rfl⟩
  | update d =>
    refine .inl ⟨rfl, .inl ?_⟩
    simp only [step_update, commit]
    cases hu : t.registry.update d with
    | error f => rfl
    | ok r =>
      obtain ⟨s, -, -, rfl⟩ := Registry.update_eq_ok hu
      rfl
  | deregister path =>
    refine .inl ⟨rfl, .inl ?_⟩
    simp only [step_deregister]
    split
    · rename_i s r hr
      obtain ⟨-, rfl⟩ := Registry.remove_eq_ok hr
      rfl
    · rfl
  | drop id =>
    -- the drop closes the queues of the outlets of the slots it takes; `q` is one of them or not
    refine .inl ⟨rfl, ?_⟩
    simp only [step_drop]
    rw [Registry.queue_closeOutlets _ _ hq]
    split
    · exact .inr rfl
    · exact .inl rfl
  | worker k e =>
    obtain ⟨slots, heq, -⟩ := worker_frames host hs k e
    exact .inl ⟨rfl, .inl (by rw [heq]; rfl)⟩
  | dispatch k u =>
    simp only [step_dispatch, offeredTo, Registry.dispatch]
    cases hk : t.registry.slot? k with
    | none => exact .inl ⟨rfl, .inl rfl⟩
    | some s =>
      have hws := hw s (Registry.mem_of_slot? hk).1
      simp only [Registry.queue_foldl_offerAt s.outlets (0, t.registry) hws.1 hq, Option.any_some,
        List.contains_iff_mem]
      split
      · exact .inr ⟨u, rfl, rfl⟩
      · exact .inl ⟨rfl, .inl rfl⟩
  | attach k id =>
    refine .inl ⟨rfl, ?_⟩
    simp only [step_attach, commit]
    cases ha : t.registry.attach k id with
    | error f => exact .inl rfl
    | ok res =>
      obtain ⟨⟨qid, m⟩, r⟩ := res
      obtain ⟨s, hsl, -, -, hr, -⟩ := Registry.attach_eq_ok hs.keys_nodup ha
      show r.queue q = _ ∨ r.queue q = _
      rw [Registry.queue_congr hr,
        Registry.queue_openQueue (hw s (Registry.mem_of_slot? hsl).1).lookup_lt,
        if_neg (Nat.ne_of_lt hq)]
      split
      · exact .inr rfl
      · exact .inl rfl
  | detach k id =>
    refine .inl ⟨rfl, ?_⟩
    simp only [step_detach]
    rcases Registry.detach_cases t.registry k id with hd | ⟨s, j, -, -, hd⟩
    · rw [hd]
      exact .inl rfl
    · rw [hd]
      rw [show ∀ x, ((t.registry.modifyQueue j Queue.closeSender).setSlot k x).queue q =
        (t.registry.modifyQueue j Queue.closeSender).queue q from fun _ => rfl]
      by_cases hj : q = j
      · subst hj
        exact .inr (Registry.queue_modifyQueue_self hq)
      · exact .inl (Registry.queue_modifyQueue_of_ne hj)

theorem queue_step (hs : t.Sound) (hw : ∀ s ∈ t.registry.slots, s.WiredIn t.registry.queues.size)
    (hq : q < t.registry.queues.size) (st : TaskStep) :
    ((t.registry.queue q).Follows w us) →
      ((t.step host st).2.registry.queue q).Follows w (us ++ t.offeredTo q st) := by
  intro h
  rcases queue_step_cases host hs hw hq st with ⟨hnil, hqu⟩ | ⟨u, hu, hqu⟩
  · rw [hnil, List.append_nil]
    exact h.of_eq_or_closeSender hqu
  · rw [hu, hqu]
    exact h.offer

variable {host}

theorem Reachable.wiredIn (h : t.Reachable host) :
    ∀ s ∈ t.registry.slots, s.WiredIn t.registry.queues.size :=
  slotInvariant_wiredIn.reachable h

theorem size_le_run (h : t.Reachable host) (steps : List TaskStep) :
    t.registry.queues.size ≤ (t.run host steps).registry.queues.size := by
  induction steps generalizing t with
  | nil => exact le_rfl
  | cons st steps ih => exact (size_le_step host h.sound st).trans (ih (.step st h))

-- along any run, queue `q` keeps following the units dispatched to it
theorem Follows.run (h : t.Reachable host) (hq : q < t.registry.queues.size)
    (hf : (t.registry.queue q).Follows w us) (steps : List TaskStep) :
    ((t.run host steps).registry.queue q).Follows w (us ++ dispatchedTo host q t steps) := by
  induction steps generalizing t us with
  | nil => simpa [dispatchedTo, Tasks.run] using hf
  | cons st steps ih =>
    have hstep := queue_step host h.sound h.wiredIn hq st hf
    have hq' := lt_of_lt_of_le hq (size_le_step host h.sound st)
    simpa [dispatchedTo, Tasks.run, List.append_assoc] using ih (.step st h) hq' hstep

-- a queue that no slot lists is never listed again: new outlets get new queues
theorem not_lists_step (h : t.Reachable host) (hq : q < t.registry.queues.size)
    (hn : ¬t.registry.Lists q) (st : TaskStep) : ¬(t.step host st).2.registry.Lists q := by
  rintro ⟨x, hx, hqx⟩
  cases reshape_step host h.sound st x hx with
  | kept hs hw =>
    simp only [Slot.wiring, Prod.mk.injEq] at hw
    exact hn ⟨_, hs, hw.1 ▸ hqx⟩
  | published k w => simp at hqx
  | attached id hs hlt hw =>
    simp only [Slot.wiring, Prod.mk.injEq, Slot.attached, Slot.withOutlet] at hw
    rw [hw.1] at hqx
    simp only [List.map_append, List.map_singleton, List.mem_append, List.mem_singleton] at hqx
    rcases hqx with hqx | rfl
    · exact hn ⟨_, hs, (List.filter_sublist.map _).subset hqx⟩
    · exact lt_irrefl _ hq
  | detached id j hs hj =>
    exact hn ⟨_, hs, (List.filter_sublist.map _).subset hqx⟩

theorem offeredTo_of_not_lists (hn : ¬t.registry.Lists q) (st : TaskStep) : t.offeredTo q st = [] := by
  cases st with
  | dispatch k u =>
    simp only [offeredTo]
    cases hk : t.registry.slot? k with
    | none => rfl
    | some s =>
      simp only [Option.any_some, List.contains_iff_mem, ite_eq_right_iff, reduceCtorEq,
        imp_false]
      exact fun hm => hn ⟨s, (Registry.mem_of_slot? hk).1, by simpa using hm⟩
  | _ => rfl

theorem dispatchedTo_of_not_lists (h : t.Reachable host) (hq : q < t.registry.queues.size)
    (hn : ¬t.registry.Lists q) (steps : List TaskStep) : dispatchedTo host q t steps = [] := by
  induction steps generalizing t with
  | nil => rfl
  | cons st steps ih =>
    simp only [dispatchedTo, offeredTo_of_not_lists hn, List.nil_append]
    exact ih (.step st h) (lt_of_lt_of_le hq (size_le_step host h.sound st))
      (not_lists_step h hq hn st)

-- attaching to a published input succeeds, with the next queue of the store, holding the header
theorem attach_queue (h : t.Reachable host) (id : Uuid) {k : PathKey} {s : Slot}
    (hs : t.registry.slot? k = some s) :
    (t.step host (.attach k id)).1 = .ok () ∧
      t.registry.queues.size < (t.step host (.attach k id)).2.registry.queues.size ∧
      (t.step host (.attach k id)).2.registry.queue t.registry.queues.size = s.welcome := by
  obtain ⟨r, hstep, hr, -⟩ := attach_published host h.sound hs id
  rw [hstep]
  refine ⟨rfl, ?_, ?_⟩
  · rw [hr, Registry.size_openQueue]
    exact Nat.lt_succ_self _
  · rw [Registry.queue_congr hr,
      Registry.queue_openQueue (h.wiredIn s (Registry.mem_of_slot? hs).1).lookup_lt, if_pos rfl]

theorem fan_out_streams_header_then_dispatched_units (h : t.Reachable host) (id : Uuid)
    {k : PathKey} {s : Slot} (hs : t.registry.slot? k = some s) (steps : List TaskStep)
    (v : Http.Version) (turns : List Connection.Turn) :
    let q := t.registry.queues.size
    let t₁ := (t.step host (.attach k id)).2
    let queued := ((t₁.run host steps).registry.queue q).items
    (t.step host (.attach k id)).1 = .ok () ∧
    (∃ n, queued = s.welcomeItems ++ (dispatchedTo host q t₁ steps).take n) ∧
    (∀ pre post, steps = pre ++ post → ¬(t₁.run host pre).registry.Lists q →
      dispatchedTo host q t₁ steps = dispatchedTo host q t₁ pre) ∧
    Connection.streamed v s.worker.descriptor.media queued turns <+:
      Http.okResponse v s.worker.descriptor.media.contentType ++
        (s.welcomeItems ++ dispatchedTo host q t₁ steps).flatten := by
  intro q t₁ queued
  obtain ⟨hok, hsize, hwelcome⟩ := attach_queue h id hs
  have h₁ : t₁.Reachable host := .step _ h
  have hf : (t₁.registry.queue q).Follows s.welcomeItems [] := hwelcome ▸ s.welcome_follows
  obtain ⟨n, hn, -⟩ := Follows.run h₁ hsize hf steps
  rw [List.nil_append] at hn
  refine ⟨hok, ⟨n, hn⟩, fun pre post hsplit hgone => ?_, ?_⟩
  · -- after the outlet is gone nothing more is dispatched to the queue
    have hq' : q < (t₁.run host pre).registry.queues.size := lt_of_lt_of_le hsize
      (size_le_run h₁ pre)
    rw [hsplit, dispatchedTo_append, dispatchedTo_of_not_lists (h₁.run pre) hq' hgone,
      List.append_nil]
  · -- the connection writes the head and then a prefix of the queued units
    refine (Connection.writeAll_prefix _ turns).trans ?_
    rw [List.flatten_cons]
    refine (List.prefix_append_right_inj _).mpr ?_
    rw [show queued = s.welcomeItems ++ (dispatchedTo host q t₁ steps).take n from hn,
      List.flatten_append, List.flatten_append]
    refine (List.prefix_append_right_inj _).mpr ?_
    exact ⟨(List.drop n (dispatchedTo host q t₁ steps)).flatten, by
      rw [← List.flatten_append, List.take_append_drop]⟩

-- a client of an FLV input gets the input's header, then the unit dispatched while it is
-- attached, and nothing dispatched after it detached
theorem client_gets_header_then_dispatched_unit :
    let d : InputDescriptor :=
      { uuid := .ofNat 7, path := "/a", media := .flv
        route := { uuid := .ofNat 1, host := "127.0.0.1", port := 0, protocol := .udp } }
    let t := ({ registry := {} } : Tasks).run Net.Host.sample
      [.claim d, .start d.key (.ofNat 5), .publish d.key]
    let t₁ := (t.step Net.Host.sample (.attach d.key (.ofNat 1))).2
    let steps : List TaskStep :=
      [.dispatch d.key [1, 2], .detach d.key (.ofNat 1), .dispatch d.key [3]]
    ∃ n, ((t₁.run Net.Host.sample steps).registry.queue t.registry.queues.size).items =
      [MediaKind.flv.initialHeader] ++ [[1, 2]].take n := by
  intro d t t₁ steps
  have hreach : t.Reachable Net.Host.sample := (Reachable.fresh {} rfl rfl).run _
  obtain ⟨s, hs⟩ : ∃ s, t.registry.slot? d.key = some s :=
    Option.isSome_iff_exists.mp (by decide +kernel)
  have hw : s.welcomeItems = [MediaKind.flv.initialHeader] := by
    have hview : (t.registry.slot? d.key).map Slot.welcomeItems =
        some [MediaKind.flv.initialHeader] := by
      decide +kernel
    simpa [hs] using hview
  have hd : dispatchedTo Net.Host.sample t.registry.queues.size t₁ steps = [[1, 2]] := by
    decide +kernel
  obtain ⟨-, hq, -, -⟩ :=
    fan_out_streams_header_then_dispatched_units hreach (.ofNat 1) hs steps .http11 []
  rw [← hw, ← hd]
  exact hq

end Tasks

end MediaRelay
