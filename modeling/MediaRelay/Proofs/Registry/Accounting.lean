import Mathlib
import MediaRelay.Registry.Store

-- The sending side of a client's queue counts the bytes buffered: an offer that queues a unit adds
-- its length, and the client, which takes units one at a time, subtracts a unit's length once it
-- has written it. A unit is refused when the count already exceeds the cap at the moment of the
-- offer, and from the first refusal on the queue stays overflowed and refuses everything.
--
-- The main statement is `queue_accounting_is_exact`.

namespace MediaRelay

namespace Octets

@[simp]
theorem total_nil : Octets.total [] = 0 := rfl

@[simp]
theorem total_cons (u : Octets) (us : List Octets) :
    Octets.total (u :: us) = u.length + Octets.total us := rfl

@[simp]
theorem total_append (us vs : List Octets) :
    Octets.total (us ++ vs) = Octets.total us + Octets.total vs := by
  induction us with
  | nil => simp
  | cons u us ih => simp [ih, Nat.add_assoc]

end Octets

namespace Queue

variable {q : Queue} {u : Octets} {cap : Option Nat}

theorem offer_eq_overflow_iff :
    (q.offer u cap).1 = .overflow ↔ q.overflowed = true ∨ cap.any (· < q.buffered) = true := by
  unfold offer
  split_ifs <;> simp_all

-- an offer queues the unit, or keeps the units and the count
theorem offer_queued_or_kept (q : Queue) (u : Octets) (cap : Option Nat) :
    (q.offer u cap).1 = .queued ∧ cap.any (· < q.buffered) = false ∧
        (q.offer u cap).2 = { q with items := q.items ++ [u], buffered := q.buffered + u.length } ∨
      (q.offer u cap).1 ≠ .queued ∧ (q.offer u cap).2.items = q.items ∧
        (q.offer u cap).2.buffered = q.buffered := by
  unfold offer
  split_ifs <;> simp_all

-- the overflow signal is raised by a refusal and never lowered
theorem overflowed_offer :
    (q.offer u cap).2.overflowed = (q.overflowed || decide ((q.offer u cap).1 = .overflow)) := by
  unfold offer
  split_ifs <;> simp_all

-- an offer to a queue whose client has gone keeps the count, and is discarded unless refused
theorem offer_of_receiver_closed (h : q.receiverOpen = false) :
    (q.offer u cap).2.buffered = q.buffered ∧
      ((q.offer u cap).1 ≠ .overflow → (q.offer u cap).1 = .closed) := by
  unfold offer
  split_ifs <;> simp_all

end Queue

namespace Delivery

variable {s : Delivery} {e : QueueEvent} {es : List QueueEvent} {u : Octets} {rest : List Octets}

-- `step` one kind of event at a time

@[simp]
theorem step_offer (s : Delivery) (u : Octets) (cap : Option Nat) :
    s.step (.offer u cap) = { s with queue := (s.queue.offer u cap).2 } := rfl

theorem step_take_of_nil (h : s.queue.items = []) : s.step .take = s := by
  simp [step, Queue.take, h]

theorem step_take_of_cons (h : s.queue.items = u :: rest) :
    s.step .take = { queue := { s.queue with items := rest }, inHand := s.inHand ++ [u] } := by
  simp [step, Queue.take, h]

theorem step_written_of_nil (h : s.inHand = []) : s.step .written = s := by
  simp [step, h]

theorem step_written_of_cons (h : s.inHand = u :: rest) :
    s.step .written = { queue := s.queue.written u.length, inHand := rest } := by
  simp [step, h]

@[simp]
theorem step_closeSender (s : Delivery) :
    s.step .closeSender = { s with queue := s.queue.closeSender } := rfl

@[simp]
theorem step_closeReceiver (s : Delivery) :
    s.step .closeReceiver = { s with queue := s.queue.closeReceiver } := rfl

@[simp]
theorem run_nil (s : Delivery) : s.run [] = s := rfl

@[simp]
theorem run_cons (s : Delivery) (e : QueueEvent) (es : List QueueEvent) :
    s.run (e :: es) = (s.step e).run es := rfl

theorem answers_cons (s : Delivery) (e : QueueEvent) (es : List QueueEvent) :
    s.answers (e :: es) = s.answers [e] ++ (s.step e).answers es := by
  cases e <;> rfl

theorem answers_offer (s : Delivery) (u : Octets) (cap : Option Nat) :
    s.answers [.offer u cap] = [(s.queue.offer u cap).1] := rfl

-- only offers answer
theorem answers_of_ne_offer (he : ∀ u cap, e ≠ .offer u cap) : s.answers [e] = [] := by
  cases e with
  | offer u cap => exact absurd rfl (he u cap)
  | _ => rfl

-- the count is the length of the units queued and of those the client holds unreported
def Accounted (s : Delivery) : Prop :=
  s.queue.buffered = Octets.total s.queue.items + Octets.total s.inHand

theorem accounted_step (h : s.Accounted) (e : QueueEvent) : (s.step e).Accounted := by
  unfold Accounted at h ⊢
  cases e with
  | offer u cap =>
    rcases Queue.offer_queued_or_kept s.queue u cap with ⟨-, -, hq⟩ | ⟨-, hi, hb⟩
    · simp only [step_offer, hq, Octets.total_append, Octets.total_cons, Octets.total_nil]
      omega
    · simpa only [step_offer, hi, hb] using h
  | take =>
    cases hi : s.queue.items with
    | nil => rwa [step_take_of_nil hi]
    | cons u rest =>
      rw [step_take_of_cons hi]
      simp only [hi, Octets.total_cons, Octets.total_append, Octets.total_nil] at h ⊢
      omega
  | written =>
    cases hh : s.inHand with
    | nil => rwa [step_written_of_nil hh]
    | cons u rest =>
      -- the unit reported is counted, so the subtraction is exact
      rw [step_written_of_cons hh]
      simp only [hh, Octets.total_cons, Queue.written] at h ⊢
      omega
  | closeSender => exact h
  | closeReceiver => exact h

theorem Accounted.run (h : s.Accounted) (es : List QueueEvent) : (s.run es).Accounted := by
  induction es generalizing s with
  | nil => exact h
  | cons e es ih => exact ih (accounted_step h e)

-- a unit the client holds is counted, so reporting it never takes the count below zero
theorem Accounted.length_le (h : s.Accounted) (hhand : s.inHand = u :: rest) :
    u.length ≤ s.queue.buffered := by
  rw [h, hhand, Octets.total_cons]
  omega

-- only an offer moves the signal, and an offer raises it exactly when it is refused
theorem overflowed_step (s : Delivery) (e : QueueEvent) :
    (s.step e).queue.overflowed = true ↔
      s.queue.overflowed = true ∨ Offer.overflow ∈ s.answers [e] := by
  cases e with
  | offer u cap =>
    simp only [step_offer, Queue.overflowed_offer, Bool.or_eq_true, decide_eq_true_eq,
      answers_offer, List.mem_singleton, eq_comm (a := Offer.overflow)]
  | take =>
    rw [answers_of_ne_offer (by simp)]
    cases hi : s.queue.items with
    | nil => simp [step_take_of_nil hi]
    | cons u rest => simp [step_take_of_cons hi]
  | written =>
    rw [answers_of_ne_offer (by simp)]
    cases hh : s.inHand with
    | nil => simp [step_written_of_nil hh]
    | cons u rest => simp [step_written_of_cons hh, Queue.written]
  | closeSender => simp [answers_of_ne_offer, Queue.closeSender]
  | closeReceiver => simp [answers_of_ne_offer, Queue.closeReceiver]

-- a run raises the signal exactly when one of its offers is refused
theorem overflowed_run (s : Delivery) (es : List QueueEvent) :
    (s.run es).queue.overflowed = true ↔
      s.queue.overflowed = true ∨ Offer.overflow ∈ s.answers es := by
  induction es generalizing s with
  | nil => simp [answers]
  | cons e es ih =>
    rw [run_cons, ih, overflowed_step, answers_cons s e es, List.mem_append, or_assoc]

-- once overflowed, every offer is refused
theorem answers_of_overflowed (h : s.queue.overflowed = true) (es : List QueueEvent) :
    ∀ a ∈ s.answers es, a = .overflow := by
  induction es generalizing s with
  | nil => simp [answers]
  | cons e es ih =>
    have hstep : (s.step e).queue.overflowed = true := (overflowed_step s e).mpr (.inl h)
    intro a ha
    rw [answers_cons, List.mem_append] at ha
    rcases ha with ha | ha
    · cases e with
      | offer u cap =>
        rw [answers_offer, List.mem_singleton] at ha
        exact ha.trans (Queue.offer_eq_overflow_iff.mpr (.inl h))
      | _ => simp [answers_of_ne_offer] at ha
    · exact ih hstep a ha

theorem buffered_step_le {b m L : Nat} (h : s.queue.buffered ≤ max b (m + L))
    (he : ∀ u cap, e = .offer u cap → cap = some m ∧ u.length ≤ L) :
    (s.step e).queue.buffered ≤ max b (m + L) := by
  cases e with
  | offer u cap =>
    obtain ⟨rfl, hu⟩ := he u cap rfl
    rcases Queue.offer_queued_or_kept s.queue u (some m) with ⟨-, hcap, hq⟩ | ⟨-, -, hb⟩
    · -- a unit is queued only while the count is within the cap
      have hle : s.queue.buffered ≤ m := by simpa using hcap
      simp only [step_offer, hq]
      omega
    · simpa only [step_offer, hb] using h
  | take =>
    cases hi : s.queue.items with
    | nil => rwa [step_take_of_nil hi]
    | cons u rest => rwa [step_take_of_cons hi]
  | written =>
    cases hh : s.inHand with
    | nil => rwa [step_written_of_nil hh]
    | cons u rest =>
      rw [step_written_of_cons hh]
      simp only [Queue.written]
      omega
  | closeSender => exact h
  | closeReceiver => exact h

theorem buffered_run_le {b m L : Nat} (h : s.queue.buffered ≤ max b (m + L))
    (hes : ∀ u cap, QueueEvent.offer u cap ∈ es → cap = some m ∧ u.length ≤ L) :
    (s.run es).queue.buffered ≤ max b (m + L) := by
  induction es generalizing s with
  | nil => exact h
  | cons e es ih =>
    refine ih (buffered_step_le h fun u cap he => hes u cap (he ▸ List.mem_cons_self)) ?_
    exact fun u cap hm => hes u cap (List.mem_cons_of_mem e hm)

-- taking every queued unit and reporting each in turn is the registry's `takeAll`
theorem run_drain (q : Queue) :
    ({ queue := q } : Delivery).run (q.items.flatMap fun _ => [.take, .written]) =
      { queue := q.takeAll.2 } := by
  -- by induction on the units queued, with the count and the bytes sent moving along
  suffices ∀ (us : List Octets) (q : Queue), q.items = us →
      ({ queue := q } : Delivery).run (us.flatMap fun _ => [.take, .written]) =
        { queue := q.takeAll.2 } from this q.items q rfl
  intro us
  induction us with
  | nil =>
    intro q hq
    cases q
    simp_all [Queue.takeAll]
  | cons u rest ih =>
    intro q hq
    have htake : ({ queue := q } : Delivery).step .take =
        { queue := { q with items := rest }, inHand := [u] } := step_take_of_cons hq
    have hwritten : ({ queue := { q with items := rest }, inHand := [u] } : Delivery).step .written =
        { queue := { q with items := rest }.written u.length } := step_written_of_cons rfl
    rw [List.flatMap_cons, List.cons_append, List.cons_append, List.nil_append, run_cons, run_cons,
      htake, hwritten, ih _ rfl]
    simp [Queue.takeAll, Queue.written, hq, Nat.sub_sub, Nat.add_assoc]

end Delivery

namespace Slot

variable (s : Slot)

theorem welcome_accounted : ({ queue := s.welcome } : Delivery).Accounted := by
  unfold Delivery.Accounted welcome
  split <;> simp [Queue.offer]

theorem welcome_overflowed : s.welcome.overflowed = false := by
  unfold welcome
  split <;> simp [Queue.offer]

theorem welcome_buffered : s.welcome.buffered = s.worker.session.header.length := by
  unfold welcome
  split
  · rename_i h
    simp [List.isEmpty_iff.mp h]
  · simp [Queue.offer]

end Slot

theorem queue_accounting_is_exact (s : Slot) (es : List QueueEvent) :
    let start : Delivery := { queue := s.welcome }
    let d := start.run es
    d.queue.buffered = Octets.total d.queue.items + Octets.total d.inHand ∧
    (∀ u rest, d.inHand = u :: rest → u.length ≤ d.queue.buffered) ∧
    (d.queue.overflowed = true ↔ .overflow ∈ start.answers es) ∧
    (∀ u cap, (d.queue.offer u cap).1 = .overflow ↔
      cap.any (· < d.queue.buffered) = true ∨ .overflow ∈ start.answers es) ∧
    (.overflow ∈ start.answers es →
      ∀ more, (d.run more).queue.overflowed = true ∧ ∀ a ∈ d.answers more, a = .overflow) ∧
    (d.queue.receiverOpen = false → ∀ u cap, (d.queue.offer u cap).2.buffered = d.queue.buffered ∧
      ((d.queue.offer u cap).1 ≠ .overflow → (d.queue.offer u cap).1 = .closed)) ∧
    (∀ m L, (∀ u cap, QueueEvent.offer u cap ∈ es → cap = some m ∧ u.length ≤ L) →
      d.queue.buffered ≤ max s.worker.session.header.length (m + L) ∧
      (s.worker.session.header.length < 18446744073709551616 → m + L < 18446744073709551616 →
        d.queue.buffered < 18446744073709551616)) := by
  intro start d
  have hacc : d.Accounted := s.welcome_accounted.run es
  -- the signal is raised exactly by a refusal, since the welcome queue is not overflowed
  have hsignal : d.queue.overflowed = true ↔ .overflow ∈ start.answers es := by
    rw [Delivery.overflowed_run]
    simp [start, s.welcome_overflowed]
  refine ⟨hacc, fun u rest h => hacc.length_le h, hsignal, fun u cap => ?_, fun hr more => ?_,
    fun hc u cap => Queue.offer_of_receiver_closed hc, fun m L hcap => ?_⟩
  · rw [Queue.offer_eq_overflow_iff, hsignal, or_comm]
  · have hd : d.queue.overflowed = true := hsignal.mpr hr
    exact ⟨(Delivery.overflowed_run d more).mpr (.inl hd), Delivery.answers_of_overflowed hd more⟩
  · have hle : d.queue.buffered ≤ max s.worker.session.header.length (m + L) :=
      Delivery.buffered_run_le (by simp [start, s.welcome_buffered]) hcap
    exact ⟨hle, fun hh hm => by omega⟩

end MediaRelay
