import Mathlib
import MediaRelay.Input.Gate

-- The activation gate keeps the socket for every client it counts. Clients attach with an
-- `open` and leave with a `close`. When every close is that of a client still attached, the
-- count is the number of clients attached (`count_run`); the input gives its socket up only
-- when none is; and once a client has seen the socket bound, it stays bound until that client
-- leaves or the input resets the gate, whatever the other clients do meanwhile (`active_run`).

namespace MediaRelay

namespace Gate

-- An operation on the gate; `open` and `close` name the client that attaches or leaves.
inductive Op
  | open (client : Nat)
  | close (client : Nat)
  | activate
  | deactivate
  | reset
  | waitActive
deriving DecidableEq, Repr

-- What an operation returns: the new count for `open` and `close`, the answer of `deactivate` and
-- `waitActive`, and nothing for the others.
inductive Reply
  | count (n : Nat)
  | answer (b : Bool)
  | done
deriving DecidableEq, Repr

def Op.perform : Op → Gate → Reply × Gate
  | .open _, g => (.count g.addClient.1, g.addClient.2)
  | .close _, g => (.count g.removeClient.1, g.removeClient.2)
  | .activate, g => (.done, g.activate)
  | .deactivate, g => (.answer g.deactivate.1, g.deactivate.2)
  | .reset, g => (.done, g.reset)
  | .waitActive, g => (.answer g.active, g)

def run (g : Gate) (ops : List Op) : Gate :=
  ops.foldl (fun g op => (op.perform g).2) g

@[simp] theorem run_nil (g : Gate) : g.run [] = g := rfl

@[simp] theorem run_append (g : Gate) (ops ops' : List Op) :
    g.run (ops ++ ops') = (g.run ops).run ops' := by
  simp [run]

@[simp] theorem run_cons (g : Gate) (op : Op) (ops : List Op) :
    g.run (op :: ops) = (op.perform g).2.run ops := rfl

def Op.track : Op → List Nat → List Nat
  | .open c, l => c :: l
  | .close c, l => l.erase c
  | _, l => l

def Op.Admitted : Op → List Nat → Prop
  | .close c, l => c ∈ l
  | _, _ => True

instance Op.decAdmitted : (op : Op) → (l : List Nat) → Decidable (op.Admitted l)
  | .close c, l => inferInstanceAs (Decidable (c ∈ l))
  | .open _, _ | .activate, _ | .deactivate, _ | .reset, _ | .waitActive, _ => isTrue trivial

def attachedAfter (l : List Nat) (ops : List Op) : List Nat :=
  ops.foldl (fun l op => op.track l) l

@[simp] theorem attachedAfter_nil (l : List Nat) : attachedAfter l [] = l := rfl

@[simp] theorem attachedAfter_cons (l : List Nat) (op : Op) (ops : List Op) :
    attachedAfter l (op :: ops) = attachedAfter (op.track l) ops := rfl

@[simp] theorem attachedAfter_append (l : List Nat) (ops ops' : List Op) :
    attachedAfter l (ops ++ ops') = attachedAfter (attachedAfter l ops) ops' := by
  simp [attachedAfter]

-- Every close of `ops` is that of a client attached at that point, from the clients `l`.
def Matched : List Nat → List Op → Prop
  | _, [] => True
  | l, op :: ops => op.Admitted l ∧ Matched (op.track l) ops

instance decMatched : (l : List Nat) → (ops : List Op) → Decidable (Matched l ops)
  | _, [] => isTrue trivial
  | l, op :: ops =>
    have := decMatched (op.track l) ops
    inferInstanceAs (Decidable (op.Admitted l ∧ Matched (op.track l) ops))

theorem matched_append {l : List Nat} {ops ops' : List Op} :
    Matched l (ops ++ ops') ↔ Matched l ops ∧ Matched (attachedAfter l ops) ops' := by
  induction ops generalizing l with
  | nil => simp [Matched]
  | cons op ops ih => simp [Matched, ih, and_assoc]

variable {g : Gate} {l : List Nat}

-- `deactivate` refuses while a client the count accounts for is attached.
theorem deactivate_of_mem {c : Nat} (hc : g.count = l.length) (hmem : c ∈ l) :
    g.deactivate = (false, g) := by
  have hpos : 0 < g.count := hc ▸ List.length_pos_of_mem hmem
  simp [deactivate, hpos]

-- One operation keeps the count equal to the number of clients attached.
theorem count_perform {op : Op} (hop : op.Admitted l) (hc : g.count = l.length) :
    (op.perform g).2.count = (op.track l).length := by
  cases op with
  | «open» c => simp [Op.perform, Op.track, addClient, hc]
  | close c =>
    have hpos := List.length_pos_of_mem (hop : c ∈ l)
    simp [Op.perform, Op.track, removeClient, hc, List.length_erase_of_mem hop]
  | deactivate =>
    simp only [Op.perform, Op.track, deactivate]
    split <;> simpa
  | activate | reset | waitActive => simpa [Op.perform, Op.track, activate, reset]

theorem count_run {ops : List Op} (h : Matched l ops) (hc : g.count = l.length) :
    (g.run ops).count = (attachedAfter l ops).length := by
  induction ops generalizing g l with
  | nil => simpa [attachedAfter] using hc
  | cons op ops ih => exact ih h.2 (count_perform h.1 hc)

-- An operation other than the close of client `c` keeps `c` attached.
theorem mem_track {op : Op} {c : Nat} (hmem : c ∈ l) (hclose : Op.close c ≠ op) :
    c ∈ op.track l := by
  cases op with
  | «open» c' => exact List.mem_cons_of_mem _ hmem
  | close c' =>
    have hne : c ≠ c' := fun h => hclose (h ▸ rfl)
    exact (List.mem_erase_of_ne hne).mpr hmem
  | activate | deactivate | reset | waitActive => exact hmem

theorem mem_attachedAfter {ops : List Op} {c : Nat} (hmem : c ∈ l) (hclose : .close c ∉ ops) :
    c ∈ attachedAfter l ops := by
  induction ops generalizing l with
  | nil => exact hmem
  | cons op ops ih =>
    obtain ⟨hop, hops⟩ := List.ne_and_not_mem_of_not_mem_cons hclose
    exact ih (mem_track hmem hop) hops

-- An operation other than `reset` leaves the socket bound while a client the count accounts for
-- is attached: the count is then above zero, so `deactivate` refuses.
theorem active_perform {op : Op} {c : Nat} (hc : g.count = l.length) (hmem : c ∈ l)
    (hact : g.active = true) (hreset : Op.reset ≠ op) : (op.perform g).2.active = true := by
  cases op with
  | «open» c' => simpa [Op.perform, addClient] using hact
  | close c' => simpa [Op.perform, removeClient] using hact
  | deactivate => simp [Op.perform, deactivate_of_mem hc hmem, hact]
  | reset => exact absurd rfl hreset
  | activate | waitActive => simp [Op.perform, activate, hact]

-- Along operations that neither close `c` nor reset the gate, the count keeps accounting for
-- `c`, so the socket stays bound.
theorem active_run {ops : List Op} {c : Nat} (h : Matched l ops) (hc : g.count = l.length)
    (hmem : c ∈ l) (hact : g.active = true) (hclose : .close c ∉ ops) (hreset : .reset ∉ ops) :
    (g.run ops).active = true := by
  induction ops generalizing g l with
  | nil => exact hact
  | cons op ops ih =>
    obtain ⟨hclose₁, hclose₂⟩ := List.ne_and_not_mem_of_not_mem_cons hclose
    obtain ⟨hreset₁, hreset₂⟩ := List.ne_and_not_mem_of_not_mem_cons hreset
    exact ih h.2 (count_perform h.1 hc) (mem_track hmem hclose₁)
      (active_perform hc hmem hact hreset₁) hclose₂ hreset₂

-- After client `c` opens and the socket is bound, later operations keep it bound and
-- `deactivate` refusing, as long as they neither close `c` nor reset the gate.
theorem kept_after_open {pre mid post : List Op} {c : Nat}
    (hm : Matched [] (pre ++ .open c :: mid ++ post)) (hmid : .close c ∉ mid)
    (hact : (run {} (pre ++ .open c :: mid)).active = true)
    (hpost : .close c ∉ post) (hreset : .reset ∉ post) :
    (run {} (pre ++ .open c :: mid ++ post)).active = true ∧
      (run {} (pre ++ .open c :: mid ++ post)).deactivate.1 = false := by
  -- cut the trace where every operation of `mid` has run after the open of `c`
  have hsplit : pre ++ .open c :: mid ++ post = (pre ++ .open c :: mid) ++ post := by simp
  rw [hsplit] at hm ⊢
  obtain ⟨hm₁, hm₂⟩ := matched_append.mp hm
  have hc := count_run hm₁ (show ({} : Gate).count = [].length from rfl)
  have hmem : c ∈ attachedAfter [] (pre ++ .open c :: mid) := by
    simpa [Op.track] using mem_attachedAfter List.mem_cons_self hmid
  have hact' := active_run hm₂ hc hmem hact hpost hreset
  have hmem' := mem_attachedAfter hmem hpost
  rw [run_append, deactivate_of_mem (count_run hm₂ hc) hmem']
  exact ⟨hact', rfl⟩

-- The gate keeps the socket for every client it counts. From the empty gate, along operations whose
-- closes are each that of a client attached: the count is the number of clients attached;
-- `deactivate` releases exactly when the count is zero, and otherwise changes nothing; and once
-- client `c` has opened and a `waitActive` has answered that the socket is bound, the socket stays
-- bound and `deactivate` refuses until `c` closes or the gate is reset, whatever other clients
-- attach and leave meanwhile.
theorem socket_kept_while_counted :
    (∀ ops : List Op, Matched [] ops →
      (run {} ops).count = (attachedAfter [] ops).length) ∧
    (∀ g : Gate, (g.deactivate.1 = true ↔ g.count = 0) ∧
      (g.count = 0 → g.deactivate.2 = { g with active := false }) ∧
      (g.count ≠ 0 → g.deactivate.2 = g)) ∧
    (∀ (pre mid post : List Op) (c : Nat),
      Matched [] (pre ++ .open c :: mid ++ .waitActive :: post) → .close c ∉ mid →
      (Op.waitActive.perform (run {} (pre ++ .open c :: mid))).1 = .answer true →
      .close c ∉ post → .reset ∉ post →
      (run {} (pre ++ .open c :: mid ++ .waitActive :: post)).active = true ∧
        (Op.deactivate.perform (run {} (pre ++ .open c :: mid ++ .waitActive :: post))).1 =
          .answer false) := by
  refine ⟨fun ops hm => count_run hm rfl, fun g => ⟨?_, ?_, ?_⟩, ?_⟩
  · simp [deactivate_fst]
  · intro h
    simp [deactivate, h]
  · intro h
    simp [deactivate, Nat.pos_of_ne_zero h]
  · intro pre mid post c hm hmid hwait hpost hreset
    have hact : (run {} (pre ++ .open c :: mid)).active = true := by
      simpa [Op.perform] using hwait
    obtain ⟨hact', hrefuse⟩ :=
      kept_after_open hm hmid hact (by simp [hpost]) (by simp [hreset])
    exact ⟨hact', by simp only [Op.perform, hrefuse]⟩

-- The last client leaves and another attaches before the input reacts: the first waiter still sees
-- the socket bound after a third client comes and goes, and `deactivate` refuses.
theorem socket_kept_after_reattach :
    (run {} [.open 1, .activate, .open 2, .waitActive, .close 1, .open 3, .close 3]).active =
        true ∧
      (Op.deactivate.perform
        (run {} [.open 1, .activate, .open 2, .waitActive, .close 1, .open 3, .close 3])).1 =
        .answer false :=
  socket_kept_while_counted.2.2 [.open 1, .activate] [] [.close 1, .open 3, .close 3] 2
    (by decide) (by decide) (by decide) (by decide) (by decide)

end Gate

end MediaRelay
