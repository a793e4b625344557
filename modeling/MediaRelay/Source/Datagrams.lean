import MediaRelay.Source.Basic
import MediaRelay.Net.SocketAddr

-- A UDP input reads the payloads of the datagrams it receives as one stream of bytes. A read
-- returns bytes of one datagram only: the rest of the latest datagram if any is left, else the
-- start of the next one that is not empty. Empty datagrams carry nothing and are skipped, so they
-- never look like the end of the stream. A datagram longer than the receive buffer of 65536 bytes
-- is cut to its first 65536 bytes, as the socket delivers it. The sender of the latest datagram
-- taken is the peer of the session: the source keeps it, and writes it into the session's shared
-- state when it changes. Nothing else writes that peer while the session runs.
--
-- The main statements: the bytes a read returns followed by the bytes left are the bytes before the
-- read (`bytes_read`), and a read returns nothing only when no byte is left (`read_eq_nil`).

namespace MediaRelay

structure Datagram where
  payload : Octets
  sender : Net.SocketAddr
deriving DecidableEq, Repr

def maxDatagramSize : Nat := 65536

def Datagram.delivered (d : Datagram) : Octets :=
  d.payload.take maxDatagramSize

structure DatagramSource where
  arrivals : List Datagram
  current : Octets := []
  lastPeer : Option Net.SocketAddr := none
  sharedPeer : Option Net.SocketAddr := none
deriving DecidableEq, Repr

-- What a poll for bytes gives: bytes of one datagram, or a wait for the next datagram.
inductive Polled
  | ready (bs : Octets)
  | pending
deriving DecidableEq, Repr

def Polled.bytes : Polled → Octets
  | ready bs => bs
  | pending => []

-- What happens at the socket of a UDP input: a datagram arrives, or the reader polls for up to `n`
-- bytes.
inductive SocketEvent
  | arrive (d : Datagram)
  | poll (n : Nat)
deriving DecidableEq, Repr

namespace DatagramSource

def fresh : DatagramSource := { arrivals := [] }

def arrive (d : Datagram) (s : DatagramSource) : DatagramSource :=
  { s with arrivals := s.arrivals ++ [d] }

def takeNext : List Datagram → Option (Datagram × List Datagram)
  | [] => none
  | d :: rest => if d.delivered.isEmpty then takeNext rest else some (d, rest)

-- Makes a datagram the current one, with `rest` still queued. Its sender is the latest peer,
-- written into the shared state only when it differs from the one before.
def takeDatagram (d : Datagram) (rest : List Datagram) (s : DatagramSource) : DatagramSource :=
  if s.lastPeer = some d.sender then { s with arrivals := rest, current := d.delivered }
  else
    { s with arrivals := rest, current := d.delivered, lastPeer := some d.sender,
             sharedPeer := some d.sender }

def handOut (n : Nat) (s : DatagramSource) : Polled × DatagramSource :=
  (.ready (s.current.take n), { s with current := s.current.drop n })

-- Polls for up to `n` bytes: from the latest datagram while it lasts, else from the next one that
-- is not empty; with none queued, waits.
def pollRead (n : Nat) (s : DatagramSource) : Polled × DatagramSource :=
  if s.current.isEmpty then
    match takeNext s.arrivals with
    | none => (.pending, { s with arrivals := [] })
    | some (d, rest) => handOut n (s.takeDatagram d rest)
  else handOut n s

def read (n : Nat) (s : DatagramSource) : Except IoFault Octets × DatagramSource :=
  (.ok (s.pollRead n).1.bytes, (s.pollRead n).2)

def step (s : DatagramSource) : SocketEvent → DatagramSource
  | .arrive d => s.arrive d
  | .poll n => (s.pollRead n).2

def run (s : DatagramSource) (es : List SocketEvent) : DatagramSource :=
  es.foldl step s

def handed : DatagramSource → List SocketEvent → Octets
  | _, [] => []
  | s, .arrive d :: es => handed (s.arrive d) es
  | s, .poll n :: es => (s.pollRead n).1.bytes ++ handed (s.pollRead n).2 es

def arrivedIn (es : List SocketEvent) : List Datagram :=
  es.filterMap fun
    | .arrive d => some d
    | .poll _ => none

def bytesOf (ds : List Datagram) : Octets :=
  ds.flatMap Datagram.delivered

def bytes (s : DatagramSource) : Octets :=
  s.current ++ bytesOf s.arrivals

instance : ByteSource DatagramSource := ⟨read, fun s => s.bytes.length⟩

theorem bytesOf_takeNext {ds : List Datagram} {d : Datagram} {rest : List Datagram}
    (h : takeNext ds = some (d, rest)) : d.delivered ++ bytesOf rest = bytesOf ds := by
  induction ds with
  | nil => cases h
  | cons e es ih =>
    unfold takeNext at h
    by_cases he : e.delivered.isEmpty
    · rw [if_pos he] at h
      have hnil : e.delivered = [] := List.isEmpty_iff.mp he
      rw [ih h]
      simp only [bytesOf, List.flatMap_cons, hnil, List.nil_append]
    · rw [if_neg he] at h
      cases h
      rfl

theorem delivered_ne_nil_of_takeNext {ds : List Datagram} {d : Datagram} {rest : List Datagram}
    (h : takeNext ds = some (d, rest)) : d.delivered ≠ [] := by
  induction ds with
  | nil => cases h
  | cons e es ih =>
    unfold takeNext at h
    by_cases he : e.delivered.isEmpty
    · rw [if_pos he] at h
      exact ih h
    · rw [if_neg he] at h
      cases h
      exact fun hd => he (List.isEmpty_iff.mpr hd)

theorem bytesOf_of_takeNext_none {ds : List Datagram} (h : takeNext ds = none) :
    bytesOf ds = [] := by
  induction ds with
  | nil => rfl
  | cons e es ih =>
    unfold takeNext at h
    by_cases he : e.delivered.isEmpty
    · rw [if_pos he] at h
      have hnil : e.delivered = [] := List.isEmpty_iff.mp he
      rw [bytesOf, List.flatMap_cons, hnil, List.nil_append]
      exact ih h
    · rw [if_neg he] at h
      cases h

theorem current_takeDatagram (d : Datagram) (rest : List Datagram) (s : DatagramSource) :
    (s.takeDatagram d rest).current = d.delivered := by
  unfold takeDatagram
  split <;> rfl

theorem arrivals_takeDatagram (d : Datagram) (rest : List Datagram) (s : DatagramSource) :
    (s.takeDatagram d rest).arrivals = rest := by
  unfold takeDatagram
  split <;> rfl

theorem bytes_read (n : Nat) (s : DatagramSource) :
    ∃ bs, (s.read n).1 = .ok bs ∧ bs ++ (s.read n).2.bytes = s.bytes := by
  unfold read pollRead
  by_cases hc : s.current.isEmpty
  · have hcur : s.current = [] := List.isEmpty_iff.mp hc
    rw [if_pos hc]
    cases ht : takeNext s.arrivals with
    | none =>
      refine ⟨[], rfl, ?_⟩
      simp only [bytes, hcur, bytesOf_of_takeNext_none ht]
      rfl
    | some p =>
      obtain ⟨d, rest⟩ := p
      refine ⟨d.delivered.take n, by simp [handOut, current_takeDatagram, Polled.bytes], ?_⟩
      simp only [handOut, bytes, hcur, List.nil_append, current_takeDatagram,
        arrivals_takeDatagram]
      rw [← List.append_assoc, List.take_append_drop, bytesOf_takeNext ht]
  · rw [if_neg hc]
    refine ⟨s.current.take n, rfl, ?_⟩
    simp only [handOut, bytes]
    rw [← List.append_assoc, List.take_append_drop]

theorem read_eq_nil {n : Nat} (hn : 0 < n) {s : DatagramSource} (h : (s.read n).1 = .ok []) :
    s.bytes = [] := by
  unfold read pollRead at h
  by_cases hc : s.current.isEmpty
  · have hcur : s.current = [] := List.isEmpty_iff.mp hc
    rw [if_pos hc] at h
    cases ht : takeNext s.arrivals with
    | none =>
      simp only [bytes, hcur, List.nil_append]
      exact bytesOf_of_takeNext_none ht
    | some p =>
      obtain ⟨d, rest⟩ := p
      rw [ht] at h
      simp only [handOut, Polled.bytes, current_takeDatagram, Except.ok.injEq,
        List.take_eq_nil_iff] at h
      have hne : d.delivered ≠ [] := delivered_ne_nil_of_takeNext ht
      rcases h with h | h
      · omega
      · exact absurd h hne
  · rw [if_neg hc] at h
    simp only [handOut, Polled.bytes, Except.ok.injEq, List.take_eq_nil_iff] at h
    rcases h with h | h
    · omega
    · exact absurd (List.isEmpty_iff.mpr h) hc

end DatagramSource

end MediaRelay
