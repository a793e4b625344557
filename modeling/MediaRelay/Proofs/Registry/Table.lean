import Mathlib
import MediaRelay.Registry.Tasks

-- What each operation of the table does to its slots, its claims and its queues, said once so that
-- later proofs never unfold an operation. In a table whose keys are distinct a slot is the one
-- found under its key (`slot?_of_mem`), and replacing the slot found under a key changes that slot
-- alone (`map_setSlot`). A slot's `frame` is what no resumption of its worker's loop touches: its
-- key, its outlets, and its input's descriptor, protocol and count of clients.

namespace MediaRelay

namespace InputWorker

variable {w w' : InputWorker} {host : Net.Host} {held : List Net.SocketAddr} {d : InputDescriptor}

-- what no resumption of the loop touches: the worker's id, input, protocol and count of clients
def Keeps (w w' : InputWorker) : Prop :=
  w'.id = w.id ∧ w'.descriptor = w.descriptor ∧ w'.protocol = w.protocol ∧
    w'.gate.count = w.gate.count

theorem Keeps.refl (w : InputWorker) : Keeps w w := ⟨rfl, rfl, rfl, rfl⟩

theorem keeps_endSession (err : Option String) : Keeps w (w.endSession err) := by
  unfold endSession
  split <;> exact ⟨rfl, rfl, rfl, rfl⟩

theorem Keeps.ite {c : Prop} [Decidable c] {x y : InputWorker} (hx : Keeps w x) (hy : Keeps w y) :
    Keeps w (if c then x else y) := by
  split
  exacts [hx, hy]

theorem keeps_step (e : WorkerStep) : Keeps w (w.step host held e) := by
  cases e with
  | opened => exact .ite ⟨rfl, rfl, rfl, rfl⟩ (.refl w)
  | bind =>
    refine .ite ?_ (.refl w)
    split <;> exact ⟨rfl, rfl, rfl, rfl⟩
  | resume =>
    refine .ite ?_ (.refl w)
    split <;> exact ⟨rfl, rfl, rfl, rfl⟩
  | accept peer => exact .ite ⟨rfl, rfl, rfl, rfl⟩ (.refl w)
  | acceptFailed => exact .ite ⟨rfl, rfl, rfl, rfl⟩ (.refl w)
  | release => exact .ite (keeps_endSession none) (.refl w)
  | ended f => exact .ite (keeps_endSession _) (.refl w)

section

variable (e : WorkerStep)

@[simp]
theorem step_id : (w.step host held e).id = w.id := (keeps_step e).1

@[simp]
theorem step_descriptor : (w.step host held e).descriptor = w.descriptor := (keeps_step e).2.1

@[simp]
theorem step_protocol : (w.step host held e).protocol = w.protocol := (keeps_step e).2.2.1

@[simp]
theorem step_count : (w.step host held e).gate.count = w.gate.count := (keeps_step e).2.2.2

end

@[simp]
theorem connectionAdded_id : w.connectionAdded.id = w.id := by
  cases h : w.protocol <;> simp [connectionAdded, h]

@[simp]
theorem connectionRemoved_id : w.connectionRemoved.id = w.id := by
  cases h : w.protocol <;> simp [connectionRemoved, h]

@[simp]
theorem connectionAdded_descriptor : w.connectionAdded.descriptor = w.descriptor := by
  cases h : w.protocol <;> simp [connectionAdded, h]

@[simp]
theorem connectionAdded_protocol : w.connectionAdded.protocol = w.protocol := by
  cases h : w.protocol <;> simp [connectionAdded, h]

-- a UDP input counts one more client; a TCP input counts none
theorem connectionAdded_count :
    w.connectionAdded.gate.count = if w.protocol = .udp then w.gate.count + 1 else w.gate.count := by
  cases h : w.protocol <;> simp [connectionAdded, h, Gate.addClient]

@[simp]
theorem connectionRemoved_descriptor : w.connectionRemoved.descriptor = w.descriptor := by
  cases h : w.protocol <;> simp [connectionRemoved, h]

@[simp]
theorem connectionRemoved_protocol : w.connectionRemoved.protocol = w.protocol := by
  cases h : w.protocol <;> simp [connectionRemoved, h]

theorem connectionRemoved_count :
    w.connectionRemoved.gate.count =
      if w.protocol = .udp then w.gate.count - 1 else w.gate.count := by
  cases h : w.protocol <;> simp [connectionRemoved, h, Gate.removeClient]

theorem update_eq_ok (h : w.update d = .ok w') : w' = { w with descriptor := d } := by
  unfold update at h
  -- both refusals, and a route that fails validation, answer a fault
  by_cases h1 : (w.protocol == .tcp) = true <;> by_cases h2 : (d.route.protocol != w.protocol) <;>
    cases hv : d.route.validate <;>
    simp [h1, h2, hv, bind, Except.bind, throw, throwThe, MonadExceptOf.throw, pure,
      Except.pure] at h
  exact h.symm

-- starting a worker keeps its id, its input and its gate
theorem init_eq_ok (h : w.init host held = .ok w') :
    w'.id = w.id ∧ w'.descriptor = w.descriptor ∧ w'.protocol = w.protocol ∧ w'.gate = w.gate := by
  unfold init at h
  split at h
  · cases hb : w.bindRoute host held with
    | error e => simp [hb, bind, Except.bind] at h
    | ok a =>
      simp only [hb, bind, Except.bind, pure, Except.pure, Except.ok.injEq] at h
      subst h
      exact ⟨rfl, rfl, rfl, rfl⟩
  · simp only [pure, Except.pure, Except.ok.injEq] at h
    subst h
    exact ⟨rfl, rfl, rfl, rfl⟩

variable {id : Uuid}

@[simp]
theorem create_id : (create id d).id = id := rfl

@[simp]
theorem create_descriptor : (create id d).descriptor = d := rfl

@[simp]
theorem create_protocol : (create id d).protocol = d.route.protocol := rfl

@[simp]
theorem create_count : (create id d).gate.count = 0 := rfl

end InputWorker

namespace Slot

-- what a slot keeps through every resumption of its input's loop
def frame (s : Slot) : PathKey × List (Uuid × QueueId) × InputDescriptor × Protocol × Nat :=
  (s.key, s.outlets, s.worker.descriptor, s.worker.protocol, s.worker.gate.count)

@[simp]
theorem frame_step {s : Slot} {host : Net.Host} {held : List Net.SocketAddr} {e : WorkerStep} :
    frame { s with worker := s.worker.step host held e } = s.frame := by
  simp [frame]

end Slot

namespace Registry

variable {r r' : Registry} {k : PathKey} {s s' cur x y : Slot} {id : Uuid}

theorem startWorker_eq_ok {host : Net.Host} {id : Uuid} {d : InputDescriptor}
    {held : List Net.SocketAddr} {w : InputWorker} (h : startWorker host id d held = .ok w) :
    w.id = id ∧ w.descriptor = d ∧ w.protocol = d.route.protocol ∧ w.gate.count = 0 := by
  obtain ⟨hi, hd, hp, hg⟩ := InputWorker.init_eq_ok h
  exact ⟨hi, hd, hp, by rw [hg]; rfl⟩

theorem mem_of_slot? (h : r.slot? k = some s) : s ∈ r.slots ∧ s.key = k :=
  ⟨List.mem_of_find?_eq_some h, by simpa using List.find?_some h⟩

theorem slot?_eq_none_iff : r.slot? k = none ↔ k ∉ r.keys := by
  simp [slot?, keys, List.find?_eq_none]

-- in a table whose keys are distinct, two slots under one key are one slot
theorem eq_of_key_eq (hnd : r.keys.Nodup) (hx : x ∈ r.slots) (hy : y ∈ r.slots)
    (h : x.key = y.key) : x = y :=
  List.inj_on_of_nodup_map hnd hx hy h

theorem slot?_of_mem (hnd : r.keys.Nodup) (hs : s ∈ r.slots) : r.slot? s.key = some s := by
  cases h : r.slot? s.key with
  | none => exact absurd (List.mem_map_of_mem hs) (slot?_eq_none_iff.mp h)
  | some y =>
    obtain ⟨hy, hk⟩ := mem_of_slot? h
    rw [eq_of_key_eq hnd hy hs hk]

theorem slot?_eq_some_iff (hnd : r.keys.Nodup) : r.slot? k = some s ↔ s ∈ r.slots ∧ s.key = k :=
  ⟨mem_of_slot?, fun ⟨hs, hk⟩ => hk ▸ slot?_of_mem hnd hs⟩

@[simp]
theorem setSlot_reserved : (r.setSlot k s).reserved = r.reserved := rfl

@[simp]
theorem setSlot_queues : (r.setSlot k s).queues = r.queues := rfl

@[simp]
theorem setSlot_waitInterval : (r.setSlot k s).waitInterval = r.waitInterval := rfl

@[simp]
theorem setSlot_bindTimeout : (r.setSlot k s).bindTimeout = r.bindTimeout := rfl

-- in a table whose keys are distinct, replacing the slot under a key replaces that slot alone
theorem setSlot_slots (hnd : r.keys.Nodup) (h : r.slot? k = some cur) :
    (r.setSlot k s).slots = r.slots.map fun x => if x = cur then s else x := by
  obtain ⟨hcur, hk⟩ := mem_of_slot? h
  refine List.map_congr_left fun x hx => ?_
  by_cases hx' : x.key = k
  · have := eq_of_key_eq hnd hx hcur (hx'.trans hk.symm)
    simp [this, hk]
  · have : x ≠ cur := fun e => hx' (e ▸ hk)
    simp [hx', this]

-- a view of the slots that the new slot shares with the one it replaces does not change
theorem map_setSlot {β : Type} (g : Slot → β) (hnd : r.keys.Nodup) (h : r.slot? k = some cur)
    (hg : g s = g cur) : (r.setSlot k s).slots.map g = r.slots.map g := by
  rw [setSlot_slots hnd h, List.map_map]
  refine List.map_congr_left fun x _ => ?_
  by_cases hx : x = cur
  · simp [hx, hg]
  · simp [hx]

@[simp]
theorem modifyQueue_slots {q : QueueId} {f : Queue → Queue} :
    (r.modifyQueue q f).slots = r.slots := rfl

@[simp]
theorem modifyQueue_reserved {q : QueueId} {f : Queue → Queue} :
    (r.modifyQueue q f).reserved = r.reserved := rfl

@[simp]
theorem size_modifyQueue {q : QueueId} {f : Queue → Queue} :
    (r.modifyQueue q f).queues.size = r.queues.size := Array.size_modify

theorem queue_modifyQueue_self {q : QueueId} {f : Queue → Queue} (hq : q < r.queues.size) :
    (r.modifyQueue q f).queue q = f (r.queue q) := by
  simp [queue, modifyQueue, Array.getD_eq_getD_getElem?, hq, Array.getElem_modify]

theorem queue_modifyQueue_of_ne {q j : QueueId} {f : Queue → Queue} (h : j ≠ q) :
    (r.modifyQueue q f).queue j = r.queue j := by
  simp [queue, modifyQueue, Array.getD_eq_getD_getElem?, Array.getElem?_modify, Ne.symm h]

theorem reserve_eq_ok (h : r.reserve k = .ok r') :
    k ∉ r.keys ∧ k ∉ r.reserved ∧ r' = { r with reserved := r.reserved ++ [k] } := by
  unfold reserve at h
  split at h
  · cases h
  · rename_i hfree
    simp only [Bool.or_eq_true, Option.isSome_iff_ne_none, ne_eq, List.contains_iff_mem,
      not_or, not_not] at hfree
    exact ⟨slot?_eq_none_iff.mp hfree.1, hfree.2, (Except.ok.inj h).symm⟩

theorem reserve_eq_ok_iff :
    (∃ r', r.reserve k = .ok r') ↔ k ∉ r.keys ∧ k ∉ r.reserved := by
  refine ⟨fun ⟨_, h⟩ => ⟨(reserve_eq_ok h).1, (reserve_eq_ok h).2.1⟩, fun ⟨hk, hr⟩ => ?_⟩
  refine ⟨_, if_neg ?_⟩
  simp [slot?_eq_none_iff.mpr hk, hr]

@[simp]
theorem release_slots : (r.release k).slots = r.slots := rfl

@[simp]
theorem release_reserved : (r.release k).reserved = r.reserved.filter (· != k) := rfl

@[simp]
theorem release_queues : (r.release k).queues = r.queues := rfl

-- publishing under a key that holds no slot adds the slot at the end
theorem insert_of_not_mem (h : s.key ∉ r.keys) : r.insert s = { r with slots := r.slots ++ [s] } := by
  simp [insert, slot?_eq_none_iff.mpr h]

theorem keys_setSlot (hnd : r.keys.Nodup) (h : r.slot? k = some cur) (hk : s.key = cur.key) :
    (r.setSlot k s).keys = r.keys :=
  map_setSlot (·.key) hnd h hk

theorem offerAt_snd {u : Octets} {acc : Nat × Registry} {o : Uuid × QueueId} :
    (offerAt u acc o).2 =
      acc.2.modifyQueue o.2 fun _ => ((acc.2.queue o.2).offer u (some acc.2.maxBuffer)).2 := by
  unfold offerAt
  split <;> (rename_i heq; simp [heq])

-- offering a unit to outlets changes the queues alone
theorem foldl_offerAt_eq {u : Octets} (l : List (Uuid × QueueId)) (acc : Nat × Registry) :
    (l.foldl (offerAt u) acc).2 = { acc.2 with queues := (l.foldl (offerAt u) acc).2.queues } := by
  induction l generalizing acc with
  | nil => rfl
  | cons o l ih =>
    rw [List.foldl_cons, ih, offerAt_snd]
    rfl

theorem dispatch_eq {u : Octets} :
    (r.dispatch k u).2 = { r with queues := (r.dispatch k u).2.queues } := by
  unfold dispatch
  split
  · rfl
  · exact foldl_offerAt_eq _ _

theorem size_foldl_offerAt {u : Octets} (l : List (Uuid × QueueId)) (acc : Nat × Registry) :
    (l.foldl (offerAt u) acc).2.queues.size = acc.2.queues.size := by
  induction l generalizing acc with
  | nil => rfl
  | cons o l ih => rw [List.foldl_cons, ih, offerAt_snd, size_modifyQueue]

-- offering a unit to outlets of distinct queues offers it once to each of those queues
theorem queue_foldl_offerAt {u : Octets} {q : QueueId} (l : List (Uuid × QueueId))
    (acc : Nat × Registry) (hl : (l.map Prod.snd).Nodup) (hq : q < acc.2.queues.size) :
    (l.foldl (offerAt u) acc).2.queue q =
      if q ∈ l.map Prod.snd then ((acc.2.queue q).offer u (some acc.2.maxBuffer)).2
      else acc.2.queue q := by
  induction l generalizing acc with
  | nil => simp
  | cons o l ih =>
    simp only [List.map_cons, List.nodup_cons] at hl
    have hq' : q < (offerAt u acc o).2.queues.size := by rwa [offerAt_snd, size_modifyQueue]
    rw [List.foldl_cons, ih _ hl.2 hq', offerAt_snd]
    by_cases ho : q = o.2
    · subst ho
      have hnot : o.2 ∉ l.map Prod.snd := hl.1
      simp [hnot, queue_modifyQueue_self hq]
    · rw [queue_modifyQueue_of_ne ho]
      simp only [List.map_cons, List.mem_cons, ho, false_or]
      rfl

-- a resumption of a worker's loop keeps every frame
theorem stepWorker_eq (hnd : r.keys.Nodup) (host : Net.Host) (held : Protocol → List Net.SocketAddr)
    (e : WorkerStep) :
    ∃ slots, r.stepWorker host held k e = { r with slots } ∧
      slots.map Slot.frame = r.slots.map Slot.frame := by
  unfold stepWorker
  split
  · exact ⟨r.slots, rfl, rfl⟩
  · rename_i cur hcur
    exact ⟨_, rfl, map_setSlot _ hnd hcur Slot.frame_step⟩

@[simp]
theorem openQueue_slots : (r.openQueue s id).slots = r.slots := by
  unfold openQueue
  split <;> rfl

@[simp]
theorem openQueue_reserved : (r.openQueue s id).reserved = r.reserved := by
  unfold openQueue
  split <;> rfl

@[simp]
theorem size_openQueue : (r.openQueue s id).queues.size = r.queues.size + 1 := by
  unfold openQueue
  split <;> simp

-- the fresh queue starts with the welcome; the client's earlier queue there is closed
theorem queue_openQueue {j : QueueId}
    (hold : ∀ q, s.outlets.lookup id = some q → q < r.queues.size) :
    (r.openQueue s id).queue j =
      if j = r.queues.size then s.welcome
      else if s.outlets.lookup id = some j then (r.queue j).closeSender else r.queue j := by
  have hpush : ({ r with queues := r.queues.push s.welcome } : Registry).queue j =
      if j = r.queues.size then s.welcome else r.queue j := by
    simp only [queue, Array.getD_eq_getD_getElem?, Array.getElem?_push]
    split <;> rfl
  unfold openQueue
  split
  · rename_i old hlook
    have hlt := hold old hlook
    by_cases hj : j = old
    · subst hj
      have hlt' : j < ({ r with queues := r.queues.push s.welcome } : Registry).queues.size := by
        show j < (r.queues.push s.welcome).size
        rw [Array.size_push]
        exact Nat.lt_succ_of_lt hlt
      rw [queue_modifyQueue_self hlt', hpush]
      simp [Nat.ne_of_lt hlt, hlook]
    · rw [queue_modifyQueue_of_ne hj, hpush]
      simp [hlook, Ne.symm hj]
  · rename_i hlook
    rw [hpush]
    simp [hlook]

-- attaching opens a queue and replaces one slot by the slot with the client's outlet
theorem attach_eq_ok {qid : QueueId} {m : MediaKind} (hnd : r.keys.Nodup)
    (h : r.attach k id = .ok ((qid, m), r')) :
    ∃ s, r.slot? k = some s ∧ qid = r.queues.size ∧ m = s.worker.descriptor.media ∧
      r'.queues = (r.openQueue s id).queues ∧ r'.reserved = r.reserved ∧
      r'.slots.map Slot.frame = r.slots.map fun x =>
        if x = s then (s.attached id qid).frame else x.frame := by
  unfold attach at h
  split at h
  · cases h
  · rename_i s hs
    simp only [Except.ok.injEq, Prod.mk.injEq] at h
    obtain ⟨⟨rfl, rfl⟩, rfl⟩ := h
    refine ⟨s, hs, rfl, rfl, rfl, by simp, ?_⟩
    have hnd' : (r.openQueue s id).keys.Nodup := by simpa [keys] using hnd
    have hs' : (r.openQueue s id).slot? k = some s := by simpa [slot?] using hs
    -- the new slot replaces `s` alone
    rw [setSlot_slots (s := s.attached id r.queues.size) hnd' hs', List.map_map, openQueue_slots]
    refine List.map_congr_left fun x _ => ?_
    by_cases hx : x = s <;> simp [hx]

-- detaching a client with an outlet closes its queue and takes the outlet out of one slot
theorem detach_cases (r : Registry) (k : PathKey) (id : Uuid) :
    r.detach k id = r ∨ ∃ s q, r.slot? k = some s ∧ s.outlets.lookup id = some q ∧
      r.detach k id = (r.modifyQueue q Queue.closeSender).setSlot k (s.detached id) := by
  unfold detach
  split
  · exact .inl rfl
  · rename_i s hs
    split
    · exact .inl rfl
    · rename_i q hq
      exact .inr ⟨s, q, hs, hq, rfl⟩

-- an update moves one slot to the descriptor's key: its own, or one neither published nor
-- claimed
theorem update_eq_ok {d : InputDescriptor} (h : r.update d = .ok r') :
    ∃ s ∈ r.slots, (d.key = s.key ∨ d.key ∉ r.keys ∧ d.key ∉ r.reserved) ∧
      r' = r.setSlot s.key { s with key := d.key, worker := { s.worker with descriptor := d } } := by
  unfold update updateIn at h
  cases hv : d.route.validate with
  | error e => simp [hv, bind, Except.bind] at h
  | ok u =>
    cases hf : r.slots.find? (·.worker.descriptor.route.uuid == d.route.uuid) with
    | none => simp [hv, hf, bind, Except.bind, throw, throwThe, MonadExceptOf.throw] at h
    | some s =>
      have hmem := List.mem_of_find?_eq_some hf
      -- the move is refused when the new key is taken
      by_cases hmove : d.key ≠ s.key ∧ ((r.slot? d.key).isSome = true ∨ d.key ∈ r.reserved)
      · simp [hv, hf, hmove, bind, Except.bind, throw, throwThe, MonadExceptOf.throw] at h
      · cases hw : s.worker.update d with
        | error e => simp [hv, hf, hmove, hw, bind, Except.bind] at h
        | ok w =>
          simp [hv, hf, hmove, hw, bind, Except.bind, pure, Except.pure] at h
          refine ⟨s, hmem, ?_, ?_⟩
          · by_cases hk : d.key = s.key
            · exact .inl hk
            · simp only [ne_eq, hk, not_false_eq_true, true_and, Option.isSome_iff_ne_none,
                not_or, not_not] at hmove
              exact .inr ⟨slot?_eq_none_iff.mp hmove.1, hmove.2⟩
          · rw [← h, InputWorker.update_eq_ok hw]

-- closing the queues of outlets changes the queues alone
theorem closeOutlets_eq (os : List (Uuid × QueueId)) (r : Registry) :
    closeOutlets os r = { r with queues := (closeOutlets os r).queues } := by
  induction os generalizing r with
  | nil => rfl
  | cons o os ih =>
    simp only [closeOutlets, List.foldl_cons] at ih ⊢
    rw [ih]
    rfl

theorem size_closeOutlets (os : List (Uuid × QueueId)) (r : Registry) :
    (closeOutlets os r).queues.size = r.queues.size := by
  induction os generalizing r with
  | nil => rfl
  | cons o os ih =>
    simp only [closeOutlets, List.foldl_cons] at ih ⊢
    rw [ih, size_modifyQueue]

theorem queue_closeOutlets {j : QueueId} (os : List (Uuid × QueueId)) (r : Registry)
    (hj : j < r.queues.size) :
    (closeOutlets os r).queue j =
      if j ∈ os.map Prod.snd then (r.queue j).closeSender else r.queue j := by
  induction os generalizing r with
  | nil => simp [closeOutlets]
  | cons o os ih =>
    simp only [closeOutlets, List.foldl_cons] at ih ⊢
    rw [ih _ (by rwa [size_modifyQueue])]
    by_cases ho : j = o.2
    · subst ho
      -- closing a queue twice closes it once
      simp [queue_modifyQueue_self hj, Queue.closeSender]
    · rw [queue_modifyQueue_of_ne ho]
      simp only [List.map_cons, List.mem_cons, ho, false_or]

-- removing an input takes the slot found under its key out of the table
theorem remove_eq_ok {path : String} {s : Slot} (h : r.remove path = .ok (s, r')) :
    r.slot? (PathKey.ofPath path) = some s ∧
      r' = { r with slots := r.slots.filter (·.key != PathKey.ofPath path) } := by
  cases hs : r.slot? (PathKey.ofPath path) with
  | none => simp [remove, hs] at h
  | some s' =>
    simp only [remove, hs, Except.ok.injEq, Prod.mk.injEq] at h
    obtain ⟨rfl, rfl⟩ := h
    exact ⟨rfl, rfl⟩

-- a registration publishes the started worker at the end of the table, its key having been
-- neither published nor claimed
theorem register_eq_ok {host : Net.Host} {id : Uuid} {d : InputDescriptor}
    (h : r.register host id d = .ok r') :
    d.key ∉ r.keys ∧ d.key ∉ r.reserved ∧ ∃ w,
      startWorker host id d (r.heldSockets d.route.protocol d.key) = .ok w ∧
      r' = { r with slots := r.slots ++ [{ key := d.key, worker := w }] } := by
  unfold register at h
  cases hv : d.route.validate with
  | error e => simp [hv, bind, Except.bind] at h
  | ok u =>
    cases hr : r.reserve d.key with
    | error e => simp [hv, hr, bind, Except.bind] at h
    | ok r₁ =>
      obtain ⟨hk, hres, hr₁⟩ := reserve_eq_ok hr
      subst hr₁
      have hheld : ({ r with reserved := r.reserved ++ [d.key] } : Registry).heldSockets
          d.route.protocol d.key = r.heldSockets d.route.protocol d.key := rfl
      simp only [hv, hr, bind, Except.bind, hheld] at h
      cases hw : startWorker host id d (r.heldSockets d.route.protocol d.key) with
      | error e => simp [hw] at h
      | ok w =>
        refine ⟨hk, hres, w, rfl, ?_⟩
        have hins : ({ r with reserved := r.reserved ++ [d.key] } : Registry).insert
            { key := d.key, worker := w } =
              { r with reserved := r.reserved ++ [d.key]
                       slots := r.slots ++ [{ key := d.key, worker := w }] } :=
          insert_of_not_mem hk
        have hkeep : (r.reserved ++ [d.key]).filter (· != d.key) = r.reserved := by
          rw [List.filter_append, List.filter_eq_self.mpr]
          · simp
          · intro x hx
            have hne : x ≠ d.key := fun e => hres (e ▸ hx)
            simpa using hne
        simp only [hw, hins, pure, Except.pure, Except.ok.injEq] at h
        rw [← h]
        simp [release, hkeep]

end Registry

end MediaRelay
