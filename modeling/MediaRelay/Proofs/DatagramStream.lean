import Mathlib
import MediaRelay.Source.Datagrams

-- The datagrams of a UDP input read as one stream. Number the bytes of the datagrams that arrive,
-- in order, each with the number of the datagram it came in (`numberedFrom`). Along any run of
-- arrivals and polls the source keeps `Tracks`: the datagrams it took, numbered, are the bytes it
-- handed out followed by what is left of the current datagram, whose sender is the peer, and the
-- shared state holds the same peer. The next poll then hands out the next bytes of the numbered
-- stream, all of one datagram, and leaves that datagram's sender as the published peer; it waits
-- only when no byte is left (`pollRead_tracked`).

namespace MediaRelay

-- The bytes of pieces in order, each with the number of its piece, counting from `i`.
def numberedFrom : Nat → List Octets → List (UInt8 × Nat)
  | _, [] => []
  | i, p :: ps => p.map (·, i) ++ numberedFrom (i + 1) ps

@[simp] theorem numberedFrom_nil (i : Nat) : numberedFrom i [] = [] := rfl

theorem numberedFrom_cons (i : Nat) (p : Octets) (ps : List Octets) :
    numberedFrom i (p :: ps) = p.map (·, i) ++ numberedFrom (i + 1) ps := rfl

theorem numberedFrom_append (i : Nat) (ps qs : List Octets) :
    numberedFrom i (ps ++ qs) = numberedFrom i ps ++ numberedFrom (i + ps.length) qs := by
  induction ps generalizing i with
  | nil => rfl
  | cons p ps ih =>
    rw [List.cons_append, numberedFrom_cons, numberedFrom_cons, ih, List.append_assoc,
      List.length_cons, Nat.add_assoc, Nat.add_comm 1]

theorem map_fst_numberedFrom (i : Nat) (ps : List Octets) :
    (numberedFrom i ps).map Prod.fst = ps.flatten := by
  induction ps generalizing i with
  | nil => rfl
  | cons p ps ih => simp [numberedFrom_cons, ih, Function.comp_def]

-- Empty pieces number no byte.
theorem numberedFrom_of_nil {ps : List Octets} (h : ∀ p ∈ ps, p = []) (i : Nat) :
    numberedFrom i ps = [] := by
  induction ps generalizing i with
  | nil => rfl
  | cons p ps ih =>
    rw [numberedFrom_cons, h p List.mem_cons_self, ih (fun q hq => h q (List.mem_cons_of_mem _ hq))]
    rfl

namespace DatagramSource

-- The datagram taken comes after empty ones only.
theorem takeNext_eq_some {ds : List Datagram} {d : Datagram} {rest : List Datagram}
    (h : takeNext ds = some (d, rest)) :
    ∃ es, ds = es ++ d :: rest ∧ ∀ e ∈ es, e.delivered = [] := by
  induction ds with
  | nil => cases h
  | cons e ds ih =>
    unfold takeNext at h
    by_cases he : e.delivered.isEmpty
    · rw [if_pos he] at h
      obtain ⟨es, rfl, hes⟩ := ih h
      refine ⟨e :: es, rfl, ?_⟩
      rintro x (_ | ⟨_, hx⟩)
      · exact List.isEmpty_iff.mp he
      · exact hes x hx
    · rw [if_neg he] at h
      cases h
      exact ⟨[], rfl, by simp⟩

theorem takeNext_eq_none {ds : List Datagram} (h : takeNext ds = none) :
    ∀ e ∈ ds, e.delivered = [] := by
  induction ds with
  | nil => simp
  | cons e ds ih =>
    unfold takeNext at h
    by_cases he : e.delivered.isEmpty
    · rw [if_pos he] at h
      rintro x (_ | ⟨_, hx⟩)
      · exact List.isEmpty_iff.mp he
      · exact ih h x hx
    · rw [if_neg he] at h
      cases h

theorem pollRead_of_current {s : DatagramSource} (hc : s.current ≠ []) (n : Nat) :
    s.pollRead n = handOut n s := by
  rw [pollRead, if_neg (by simpa using hc)]

theorem pollRead_of_takeNext {s : DatagramSource} (hc : s.current = []) {d : Datagram}
    {rest : List Datagram} (h : takeNext s.arrivals = some (d, rest)) (n : Nat) :
    s.pollRead n = handOut n (s.takeDatagram d rest) := by
  rw [pollRead, if_pos (by simp [hc]), h]

theorem pollRead_of_none {s : DatagramSource} (hc : s.current = [])
    (h : takeNext s.arrivals = none) (n : Nat) :
    s.pollRead n = (.pending, { s with arrivals := [] }) := by
  rw [pollRead, if_pos (by simp [hc]), h]

theorem lastPeer_takeDatagram (d : Datagram) (rest : List Datagram) (s : DatagramSource) :
    (s.takeDatagram d rest).lastPeer = some d.sender := by
  unfold takeDatagram
  split
  · assumption
  · rfl

-- The source has taken the datagrams `taken` and handed out the numbered bytes `pre`.
structure Tracks (taken : List Datagram) (pre : List (UInt8 × Nat)) (s : DatagramSource) :
    Prop where
  numbered :
    numberedFrom 0 (taken.map Datagram.delivered) = pre ++ s.current.map (·, taken.length - 1)
  peer : s.current ≠ [] → s.lastPeer = taken.getLast?.map Datagram.sender
  shared : s.sharedPeer = s.lastPeer

variable {taken : List Datagram} {pre : List (UInt8 × Nat)} {s : DatagramSource}

theorem tracks_fresh : Tracks [] [] fresh := ⟨rfl, fun h => absurd rfl h, rfl⟩

theorem Tracks.arrive (h : Tracks taken pre s) (d : Datagram) : Tracks taken pre (s.arrive d) :=
  ⟨h.numbered, h.peer, h.shared⟩

theorem Tracks.handOut (h : Tracks taken pre s) (n : Nat) :
    Tracks taken (pre ++ (s.current.take n).map (·, taken.length - 1)) (s.handOut n).2 := by
  refine ⟨?_, fun hc => h.peer fun h0 => hc (by simp [DatagramSource.handOut, h0]), h.shared⟩
  simp only [DatagramSource.handOut]
  rw [h.numbered, List.append_assoc, ← List.map_append, List.take_append_drop]

-- Taking a datagram after empty ones: it is the last taken, its bytes the current ones.
theorem Tracks.takeDatagram (h : Tracks taken pre s) (hc : s.current = []) {es : List Datagram}
    (hes : ∀ e ∈ es, e.delivered = []) (d : Datagram) (rest : List Datagram) :
    Tracks (taken ++ es ++ [d]) pre (s.takeDatagram d rest) := by
  have hnum := h.numbered
  rw [hc, List.map_nil, List.append_nil] at hnum
  refine ⟨?_, fun _ => ?_, ?_⟩
  · rw [current_takeDatagram, List.map_append, List.map_append, numberedFrom_append,
      numberedFrom_append, hnum, numberedFrom_of_nil (by simpa using hes), List.append_nil]
    simp [numberedFrom_cons]
  · rw [lastPeer_takeDatagram]
    simp
  · unfold DatagramSource.takeDatagram
    split
    · exact h.shared
    · rfl

theorem Tracks.drain (h : Tracks taken pre s) (hc : s.current = []) {ds : List Datagram}
    (hds : ∀ e ∈ ds, e.delivered = []) : Tracks (taken ++ ds) pre { s with arrivals := [] } := by
  have hnum := h.numbered
  rw [hc, List.map_nil, List.append_nil] at hnum
  refine ⟨?_, fun hc' => absurd hc hc', h.shared⟩
  rw [List.map_append, numberedFrom_append, hnum, numberedFrom_of_nil (by simpa using hds), hc]
  simp

-- The whole numbered stream, from a tracked source: what was handed out, the rest of the current
-- datagram, then the datagrams still queued.
theorem Tracks.stream (h : Tracks taken pre s) :
    numberedFrom 0 ((taken ++ s.arrivals).map Datagram.delivered) =
      pre ++ s.current.map (·, taken.length - 1) ++
        numberedFrom taken.length (s.arrivals.map Datagram.delivered) := by
  rw [List.map_append, numberedFrom_append, h.numbered]
  simp

theorem Tracks.handed_append_bytes (h : Tracks taken pre s) :
    pre.map Prod.fst ++ s.bytes = (taken ++ s.arrivals).flatMap Datagram.delivered := by
  have e := congrArg (List.map Prod.fst) h.stream
  rw [map_fst_numberedFrom, List.map_append, List.map_append, map_fst_numberedFrom] at e
  rw [List.flatMap_def, List.map_append, e, bytes, bytesOf, List.flatMap_def, List.map_append,
    List.append_assoc]
  simp [Function.comp_def]

-- One poll keeps `Tracks`: what it hands out extends `pre`, and the datagrams it takes leave the
-- queue for `taken`.
theorem Tracks.pollRead (h : Tracks taken pre s) (n : Nat) :
    ∃ taken' pre', Tracks taken' pre' (s.pollRead n).2 ∧
      taken' ++ (s.pollRead n).2.arrivals = taken ++ s.arrivals ∧
      pre'.map Prod.fst = pre.map Prod.fst ++ (s.pollRead n).1.bytes := by
  by_cases hc : s.current = []
  · cases ht : takeNext s.arrivals with
    | none =>
      rw [pollRead_of_none hc ht]
      exact ⟨taken ++ s.arrivals, pre, h.drain hc (takeNext_eq_none ht), by simp, by simp [Polled.bytes]⟩
    | some p =>
      obtain ⟨d, rest⟩ := p
      obtain ⟨es, hs, hes⟩ := takeNext_eq_some ht
      rw [pollRead_of_takeNext hc ht]
      refine ⟨_, _, (h.takeDatagram hc hes d rest).handOut n, ?_, ?_⟩
      · simp [DatagramSource.handOut, arrivals_takeDatagram, hs]
      · simp [DatagramSource.handOut, Polled.bytes, Function.comp_def]
  · rw [pollRead_of_current hc]
    exact ⟨taken, _, h.handOut n, rfl, by simp [DatagramSource.handOut, Polled.bytes, Function.comp_def]⟩

-- Along a run of events the source keeps `Tracks`: arrivals join the queue, and the bytes the
-- polls hand out extend `pre`.
theorem Tracks.run (h : Tracks taken pre s) (es : List SocketEvent) :
    ∃ taken' pre', Tracks taken' pre' (s.run es) ∧
      taken' ++ (s.run es).arrivals = taken ++ s.arrivals ++ arrivedIn es ∧
      pre'.map Prod.fst = pre.map Prod.fst ++ s.handed es := by
  induction es generalizing taken pre s with
  | nil => exact ⟨taken, pre, h, by simp [arrivedIn, DatagramSource.run], by simp [handed]⟩
  | cons e es ih =>
    cases e with
    | arrive d =>
      obtain ⟨taken', pre', ht, harr, hout⟩ := ih (h.arrive d)
      refine ⟨taken', pre', ht, ?_, ?_⟩
      · rw [show s.run (.arrive d :: es) = (s.arrive d).run es from rfl, harr]
        simp [DatagramSource.arrive, arrivedIn]
      · rw [hout]
        rfl
    | poll n =>
      obtain ⟨taken₁, pre₁, h₁, harr₁, hout₁⟩ := h.pollRead n
      obtain ⟨taken', pre', ht, harr, hout⟩ := ih h₁
      refine ⟨taken', pre', ht, ?_, ?_⟩
      · rw [show s.run (.poll n :: es) = (s.pollRead n).2.run es from rfl, harr, harr₁]
        simp [arrivedIn]
      · rw [hout, hout₁, List.append_assoc]
        rfl

theorem sharedPeer_takeDatagram (hs : s.sharedPeer = s.lastPeer) (d : Datagram)
    (rest : List Datagram) : (s.takeDatagram d rest).sharedPeer = some d.sender := by
  unfold DatagramSource.takeDatagram
  split
  · next hp => exact hs.trans hp
  · rfl

-- Bytes handed out from the front of a numbered piece are numbered with it.
theorem take_drop_numbered (pre rest : List (UInt8 × Nat)) (xs : Octets) (j n : Nat) :
    ((pre ++ xs.map (·, j) ++ rest).drop pre.length).take (xs.take n).length =
      (xs.take n).map (·, j) := by
  rw [List.append_assoc, List.drop_left, List.take_append_of_le_length (by simp), List.map_take]
  simp

-- Bytes left to hand out come from the last datagram taken.
theorem Tracks.exists_getLast? (h : Tracks taken pre s) (hc : s.current ≠ []) :
    ∃ d, taken.getLast? = some d := by
  cases hl : taken.getLast? with
  | none =>
    have hnum := h.numbered
    rw [List.getLast?_eq_none_iff.mp hl] at hnum
    simp at hnum
    exact absurd hnum.2 hc
  | some d => exact ⟨d, rfl⟩

-- The next poll, from a tracked source: bytes of one datagram, the next ones of the numbered
-- stream, with that datagram's sender published; or a wait, with no byte left.
theorem pollRead_tracked (h : Tracks taken pre s) {n : Nat} (hn : 0 < n) :
    ((s.pollRead n).1 = .pending → s.bytes = []) ∧
    ∀ bs, (s.pollRead n).1 = .ready bs → bs ≠ [] ∧
      ∃ j d, (taken ++ s.arrivals)[j]? = some d ∧
        ((numberedFrom 0 ((taken ++ s.arrivals).map Datagram.delivered)).drop pre.length).take
          bs.length = bs.map (·, j) ∧
        (s.pollRead n).2.sharedPeer = some d.sender := by
  have hstream := h.stream
  by_cases hc : s.current = []
  · cases ht : takeNext s.arrivals with
    | none =>
      rw [pollRead_of_none hc ht]
      refine ⟨fun _ => ?_, fun bs hbs => by cases hbs⟩
      simp [bytes, hc, bytesOf_of_takeNext_none ht]
    | some p =>
      -- the poll skips the empty datagrams `es` and takes `d`
      obtain ⟨d, rest⟩ := p
      obtain ⟨es, hs, hes⟩ := takeNext_eq_some ht
      rw [pollRead_of_takeNext hc ht]
      refine ⟨(fun hp => by cases hp), fun bs hbs => ?_⟩
      simp only [DatagramSource.handOut, Polled.ready.injEq, current_takeDatagram] at hbs
      subst hbs
      refine ⟨by simpa [Nat.pos_iff_ne_zero.mp hn] using delivered_ne_nil_of_takeNext ht,
        taken.length + es.length, d, ?_, ?_, sharedPeer_takeDatagram h.shared d rest⟩
      · rw [hs, ← List.append_assoc, ← List.length_append, List.getElem?_append_right (by simp)]
        simp
      · rw [hstream, hc, hs, List.map_append, numberedFrom_append,
          numberedFrom_of_nil (by simpa using hes), List.map_cons, numberedFrom_cons]
        simpa using take_drop_numbered pre (numberedFrom (taken.length + es.length + 1)
          (rest.map Datagram.delivered)) d.delivered (taken.length + es.length) n
  · -- the poll hands out the front of the current datagram, the last one taken
    rw [pollRead_of_current hc]
    refine ⟨(fun hp => by cases hp), fun bs hbs => ?_⟩
    simp only [DatagramSource.handOut, Polled.ready.injEq] at hbs
    subst hbs
    obtain ⟨d, hd⟩ := h.exists_getLast? hc
    refine ⟨by simpa [Nat.pos_iff_ne_zero.mp hn] using hc, taken.length - 1, d, ?_, ?_, ?_⟩
    · have hpos : 0 < taken.length := List.length_pos_iff.mpr (by rintro rfl; simp at hd)
      rw [List.getElem?_append_left (by omega), ← List.getLast?_eq_getElem?, hd]
    · rw [hstream]
      exact take_drop_numbered _ _ _ _ n
    · simp only [DatagramSource.handOut]
      rw [h.shared, h.peer hc, hd]
      rfl

-- Along any run of arrivals and polls from a socket just bound, with no datagram longer than the
-- receive buffer: the bytes handed out, followed by those still to deliver, are the payloads in
-- order of arrival; and the next poll for bytes waits only when no byte is left, and otherwise
-- hands out bytes of one datagram `j`, the next ones of the stream, leaving its sender as the
-- peer published in the shared state.
theorem datagrams_read_as_one_stream (es : List SocketEvent)
    (hsize : ∀ d ∈ arrivedIn es, d.payload.length ≤ maxDatagramSize) (n : Nat) (hn : 0 < n) :
    let ds := arrivedIn es
    let s := fresh.run es
    let out := fresh.handed es
    out ++ s.bytes = ds.flatMap Datagram.payload ∧
    ((s.pollRead n).1 = .pending → s.bytes = []) ∧
    ∀ bs, (s.pollRead n).1 = .ready bs → bs ≠ [] ∧
      ∃ j d, ds[j]? = some d ∧
        ((numberedFrom 0 (ds.map Datagram.payload)).drop out.length).take bs.length =
          bs.map (·, j) ∧
        (s.pollRead n).2.sharedPeer = some d.sender := by
  intro ds s out
  -- within the receive buffer, a datagram delivers its whole payload
  have hdel : ds.map Datagram.delivered = ds.map Datagram.payload :=
    List.map_congr_left fun d hd => List.take_of_length_le (hsize d hd)
  obtain ⟨taken, pre, ht, harr, hout⟩ := tracks_fresh.run es
  have hds : taken ++ s.arrivals = ds := harr.trans rfl
  have hpre : pre.map Prod.fst = out := hout.trans rfl
  have hnext := pollRead_tracked ht hn
  rw [hds, hdel, ← List.length_map (f := Prod.fst), hpre] at hnext
  refine ⟨?_, hnext⟩
  rw [← hpre, ht.handed_append_bytes, hds, List.flatMap_def, hdel, ← List.flatMap_def]

-- `hello ` from one sender is read; then an empty datagram and `world` arrive from another. The
-- next poll skips the empty datagram, hands out `world` and publishes the new sender.
theorem datagrams_read_as_one_stream_skips_empty :
    let es : List SocketEvent :=
      [.arrive ⟨[0x68, 0x65, 0x6c, 0x6c, 0x6f, 0x20], ⟨.v4 ⟨127, 0, 0, 1⟩, 5000, 0⟩⟩, .poll 6,
        .arrive ⟨[], ⟨.v4 ⟨127, 0, 0, 1⟩, 5001, 0⟩⟩,
        .arrive ⟨[0x77, 0x6f, 0x72, 0x6c, 0x64], ⟨.v4 ⟨127, 0, 0, 1⟩, 5001, 0⟩⟩]
    (∀ d ∈ arrivedIn es, d.payload.length ≤ maxDatagramSize) ∧ 0 < 16 ∧
    let ds := arrivedIn es
    let s := fresh.run es
    let out := fresh.handed es
    out ++ s.bytes = ds.flatMap Datagram.payload ∧
    ((s.pollRead 16).1 = .pending → s.bytes = []) ∧
    ∀ bs, (s.pollRead 16).1 = .ready bs → bs ≠ [] ∧
      ∃ j d, ds[j]? = some d ∧
        ((numberedFrom 0 (ds.map Datagram.payload)).drop out.length).take bs.length =
          bs.map (·, j) ∧
        (s.pollRead 16).2.sharedPeer = some d.sender := by
  intro es
  exact ⟨by decide, by decide, datagrams_read_as_one_stream es (by decide) 16 (by decide)⟩

end DatagramSource

end MediaRelay
