import Mathlib
import MediaRelay.Http.Request
import MediaRelay.Source.Chunked

-- A client's bytes arrive in reads, and the head is looked for again after every read. Where the
-- head ends is a property of the bytes alone (`IsHeadLength`: the shortest prefix that ends with a
-- line feed and then a CRLF or a second line feed), and the head of a prefix of the bytes is found
-- exactly when the prefix reaches the end of the head (`headLength?_take`), however a terminator is
-- cut across reads.
--
-- The main statement: over any cut of the bytes into reads of at most `readSize` bytes, the answer
-- depends only on the head, the size limit and where the reads end.

namespace MediaRelay

namespace Http

-- Bytes that end a head: a line feed, then a carriage return and a line feed, or a second line
-- feed.
def EndsHead (p : Octets) : Prop :=
  [10, 13, 10] <:+ p ∨ [10, 10] <:+ p

instance : DecidablePred EndsHead :=
  fun p => inferInstanceAs (Decidable ([10, 13, 10] <:+ p ∨ [10, 10] <:+ p))

-- The head of `s` is its first `h` bytes: the shortest prefix that ends a head.
def IsHeadLength (s : Octets) (h : Nat) : Prop :=
  h ≤ s.length ∧ EndsHead (s.take h) ∧ ∀ n < h, ¬ EndsHead (s.take n)

theorem IsHeadLength.unique {s : Octets} {h h' : Nat} (hh : IsHeadLength s h)
    (hh' : IsHeadLength s h') : h = h' := by
  by_contra hne
  rcases Nat.lt_or_gt_of_ne hne with hlt | hlt
  · exact hh'.2.2 h hlt hh.2.1
  · exact hh.2.2 h' hlt hh'.2.1

theorem endsHead_nil : ¬ EndsHead [] := by decide

theorem endsHead_cons {b : UInt8} {l : Octets} :
    EndsHead (b :: l) ↔ EndsHead l ∨ b :: l = [10, 13, 10] ∨ b :: l = [10, 10] := by
  simp only [EndsHead, List.suffix_cons_iff]
  constructor
  · rintro ((h | h) | (h | h))
    exacts [.inr (.inl h.symm), .inl (.inl h), .inr (.inr h.symm), .inl (.inr h)]
  · rintro ((h | h) | h | h)
    exacts [.inl (.inr h), .inr (.inr h), .inl (.inl h.symm), .inr (.inl h.symm)]

-- past a first byte that starts no terminator, the head is one byte further on
theorem isHeadLength_cons_iff {b : UInt8} {rest : Octets} {h : Nat}
    (hA : ¬ (b = 10 ∧ [13, 10] <+: rest)) (hB : ¬ (b = 10 ∧ [10] <+: rest)) :
    IsHeadLength (b :: rest) h ↔ ∃ h', h = h' + 1 ∧ IsHeadLength rest h' := by
  have hstep : ∀ n, EndsHead ((b :: rest).take (n + 1)) ↔ EndsHead (rest.take n) := by
    intro n
    rw [List.take_succ_cons, endsHead_cons]
    refine ⟨fun h => h.resolve_right ?_, .inl⟩
    rintro (h | h) <;> simp only [List.cons.injEq] at h
    · exact hA ⟨h.1, h.2 ▸ List.take_prefix n rest⟩
    · exact hB ⟨h.1, h.2 ▸ List.take_prefix n rest⟩
  constructor
  · rintro ⟨hl, he, hmin⟩
    cases h with
    | zero => exact absurd he endsHead_nil
    | succ h' =>
      refine ⟨h', rfl, by simpa using hl, (hstep h').mp he, fun n hn => ?_⟩
      exact fun hn' => hmin (n + 1) (by omega) ((hstep n).mpr hn')
  · rintro ⟨h', rfl, hl, he, hmin⟩
    refine ⟨by simpa using hl, (hstep h').mpr he, fun n hn => ?_⟩
    cases n with
    | zero => exact endsHead_nil
    | succ n => exact fun hn' => hmin n (by omega) ((hstep n).mp hn')

theorem headLength?_cons (b : UInt8) (rest : Octets) :
    headLength? (b :: rest) =
      if b = 10 ∧ [13, 10] <+: rest then some 3
      else if b = 10 ∧ [10] <+: rest then some 2
      else (headLength? rest).map (· + 1) := by
  simp [headLength?, List.isPrefixOf_iff_prefix]

-- `headLength?` finds the end of the head, if there is one.
theorem headLength?_eq_some_iff {s : Octets} {h : Nat} :
    headLength? s = some h ↔ IsHeadLength s h := by
  induction s generalizing h with
  | nil =>
    simp only [headLength?, reduceCtorEq, false_iff]
    exact fun ⟨_, he, _⟩ => endsHead_nil (by simpa using he)
  | cons b rest ih =>
    by_cases hA : b = 10 ∧ [13, 10] <+: rest
    · have h3 : IsHeadLength (b :: rest) 3 := by
        obtain ⟨rfl, r, rfl⟩ := hA
        refine ⟨by simp, by simp [EndsHead], fun n hn => ?_⟩
        interval_cases n <;> simp [EndsHead, List.suffix_cons_iff]
      rw [headLength?_cons, if_pos hA, Option.some.injEq]
      exact ⟨fun h => h ▸ h3, h3.unique⟩
    by_cases hB : b = 10 ∧ [10] <+: rest
    · have h2 : IsHeadLength (b :: rest) 2 := by
        obtain ⟨rfl, r, rfl⟩ := hB
        refine ⟨by simp, by simp [EndsHead], fun n hn => ?_⟩
        interval_cases n <;> simp [EndsHead, List.suffix_cons_iff]
      rw [headLength?_cons, if_neg hA, if_pos hB, Option.some.injEq]
      exact ⟨fun h => h ▸ h2, h2.unique⟩
    rw [isHeadLength_cons_iff hA hB, headLength?_cons, if_neg hA, if_neg hB,
      Option.map_eq_some_iff]
    simp only [ih]
    exact ⟨fun ⟨h', hh', he⟩ => ⟨h', he.symm, hh'⟩, fun ⟨h', he, hh'⟩ => ⟨h', hh', he.symm⟩⟩

-- The head of a prefix is found exactly when the prefix reaches the end of the head.
theorem headLength?_take {s : Octets} {b h : Nat} :
    headLength? (s.take b) = some h ↔ headLength? s = some h ∧ h ≤ b := by
  simp only [headLength?_eq_some_iff]
  constructor
  · rintro ⟨hl, he, hmin⟩
    have hb : h ≤ b := le_trans hl (List.length_take_le _ _)
    rw [List.take_take, Nat.min_eq_left hb] at he
    refine ⟨⟨le_trans hl (List.length_take_le' _ _), he, fun n hn => ?_⟩, hb⟩
    simpa [List.take_take, Nat.min_eq_left (show n ≤ b by omega)] using hmin n hn
  · rintro ⟨⟨hl, he, hmin⟩, hb⟩
    refine ⟨by simp [hb, hl], by rwa [List.take_take, Nat.min_eq_left hb], fun n hn => ?_⟩
    simpa [List.take_take, Nat.min_eq_left (show n ≤ b by omega)] using hmin n hn

theorem headLength?_take_eq_none {s : Octets} {b : Nat} :
    headLength? (s.take b) = none ↔ ∀ h, headLength? s = some h → b < h := by
  rw [Option.eq_none_iff_forall_ne_some]
  refine forall_congr' fun h => ?_
  rw [Ne, headLength?_take, not_and, Nat.not_le]

section Loop

variable {σ : Type} [ByteSource σ] {limit room room' : Nat} {buf buf' : Octets} {src src' : σ}

theorem readRequestFrom_done {r : Except Fault Request}
    (h : readRound limit room buf src = .done r) :
    readRequestFrom limit room buf src = r := by
  rw [readRequestFrom]
  split <;> simp_all

theorem readRequestFrom_more (h : readRound limit room buf src = .more room' buf' src') :
    readRequestFrom limit room buf src = readRequestFrom limit room' buf' src' := by
  rw [readRequestFrom]
  split <;> simp_all

-- Whether reading the bytes `s` stops at a read boundary `b`: the head has ended by then, or
-- the buffer holds as many bytes as the limit.
def stopsAt (s : Octets) (limit b : Nat) : Bool :=
  (headLength? s).any (· ≤ b) || decide (limit ≤ b)

-- The answer of reading the bytes `s` when it stops at boundary `b`.
def answerAt (s : Octets) (limit b : Nat) : Except Fault Request :=
  match headLength? s with
  | some h => if h ≤ b then Request.parse (s.take h) else .error (.badRequest (.headTooLarge limit))
  | none => .error (.badRequest (.headTooLarge limit))

variable {p t : Octets}

-- at a boundary where reading stops, the round answers whatever the source holds
theorem readRound_of_stops (hs : stopsAt (p ++ t) limit p.length = true) :
    readRound limit room p src = .done (answerAt (p ++ t) limit p.length) := by
  have htake : (p ++ t).take p.length = p := by simp
  cases hp : headLength? p with
  | some n =>
    have hn := headLength?_take.mp
      (show headLength? ((p ++ t).take p.length) = some n by rwa [htake])
    simp [readRound, hp, answerAt, hn.1, hn.2, List.take_append_of_le_length (hn.2.trans le_rfl)]
  | none =>
    -- the head ends past the buffer, so the limit is what stops the reading
    have hlate := headLength?_take_eq_none.mp
      (show headLength? ((p ++ t).take p.length) = none by rwa [htake])
    have hl : limit ≤ p.length := by
      cases hh : headLength? (p ++ t) with
      | none => simpa [stopsAt, hh] using hs
      | some h => simpa [stopsAt, hh, Nat.not_le.mpr (hlate h hh)] using hs
    simp only [readRound, hp, hl, if_true, HeadRound.done.injEq, answerAt]
    split
    · rename_i h hh
      simp [Nat.not_le.mpr (hlate h hh)]
    · rfl

theorem readRound_of_continues (hs : stopsAt (p ++ t) limit p.length = false) :
    headLength? p = none ∧ p.length < limit := by
  have htake : (p ++ t).take p.length = p := by simp
  simp only [stopsAt, Bool.or_eq_false_iff, decide_eq_false_iff_not, Nat.not_le] at hs
  refine ⟨?_, hs.2⟩
  rw [← htake, headLength?_take_eq_none]
  intro h hh
  simpa [hh] using hs.1

end Loop

theorem ChunkSource.read_whole {n : Nat} {c : Octets} {cs : List Octets} (hn : c.length ≤ n) :
    ChunkSource.read n ⟨.data c :: cs.map .data⟩ = (.ok c, ⟨cs.map .data⟩) := by
  simp [ChunkSource.read, List.take_of_length_le hn, List.drop_eq_nil_of_le hn]

-- Reading a head from chunks, each a read of at most `readSize` bytes, after the bytes `p`: it
-- stops at the first boundary where `stopsAt` holds, or the client closes first.
theorem readRequestFrom_chunks (limit : Nat) (cs : List Octets) :
    ∀ (p : Octets) (room : Nat), (∀ c ∈ cs, c ≠ [] ∧ c.length ≤ readSize) →
      readRequestFrom limit room p (ChunkSource.mk (cs.map .data)) =
        match ((cs.map List.length).scanl (· + ·) p.length).find?
            (stopsAt (p ++ cs.flatten) limit) with
        | some b => answerAt (p ++ cs.flatten) limit b
        | none => .error (.badRequest .closedEarly) := by
  induction cs with
  | nil =>
    intro p room _
    simp only [List.map_nil, List.scanl_nil, List.find?_cons, List.find?_nil, List.flatten_nil]
    cases hs : stopsAt (p ++ []) limit p.length with
    | true => exact readRequestFrom_done (readRound_of_stops hs)
    | false =>
      obtain ⟨hp, hl⟩ := readRound_of_continues hs
      -- the client has closed: the read brings nothing
      apply readRequestFrom_done
      simp [readRound, hp, Nat.not_le.mpr hl, ByteSource.read, ChunkSource.read]
  | cons c cs ih =>
    intro p room hcs
    have ⟨hc, hcl⟩ := hcs c List.mem_cons_self
    simp only [List.map_cons, List.scanl_cons, List.find?_cons, List.flatten_cons]
    cases hs : stopsAt (p ++ (c ++ cs.flatten)) limit p.length with
    | true => exact readRequestFrom_done (readRound_of_stops hs)
    | false =>
      obtain ⟨hp, hl⟩ := readRound_of_continues hs
      -- the round reads the next chunk whole, since the buffer has room for a full read
      have hroom : c.length ≤ roomBeforeRead room p.length - p.length :=
        hcl.trans (free_le_roomBeforeRead room p.length)
      have hround : readRound limit room p (ChunkSource.mk (.data c :: cs.map .data)) =
          .more (roomBeforeRead room p.length) (p ++ c) (ChunkSource.mk (cs.map .data)) := by
        have hr : ByteSource.read (roomBeforeRead room p.length - p.length)
            (ChunkSource.mk (.data c :: cs.map .data)) = (.ok c, ChunkSource.mk (cs.map .data)) :=
          ChunkSource.read_whole hroom
        simp [readRound, hp, Nat.not_le.mpr hl, hr, hc]
      rw [readRequestFrom_more hround,
        ih (p ++ c) _ fun c' hc' => hcs c' (List.mem_cons_of_mem _ hc'),
        List.append_assoc, List.length_append]

-- One round of reading a head leads from one state of the buffer, its room and bytes and the
-- source behind it, to the next.
def RoundStep {σ : Type} [ByteSource σ] (limit : Nat) (a b : Nat × Octets × σ) : Prop :=
  readRound limit a.1 a.2.1 a.2.2 = .more b.1 b.2.1 b.2.2

-- a read from chunks of at most `n` bytes returns at most `n` bytes and leaves such chunks
theorem ChunkSource.read_le {src src' : ChunkSource} {k n : Nat} {got : Octets}
    (hsrc : ∀ d, Chunk.data d ∈ src.chunks → d.length ≤ n)
    (h : src.read k = (.ok got, src')) :
    got.length ≤ n ∧ ∀ d, Chunk.data d ∈ src'.chunks → d.length ≤ n := by
  obtain ⟨chunks⟩ := src
  cases chunks with
  | nil =>
    simp only [ChunkSource.read, Prod.mk.injEq, Except.ok.injEq] at h
    obtain ⟨rfl, rfl⟩ := h
    simp
  | cons c rest =>
    cases c with
    | fail => simp [ChunkSource.read] at h
    | data d =>
      simp only [ChunkSource.read, Prod.mk.injEq, Except.ok.injEq] at h
      obtain ⟨rfl, rfl⟩ := h
      have hd : d.length ≤ n := hsrc d List.mem_cons_self
      have hrest : ∀ e, Chunk.data e ∈ rest → e.length ≤ n :=
        fun e he => hsrc e (List.mem_cons_of_mem _ he)
      refine ⟨(List.length_take_le' _ _).trans hd, ?_⟩
      split
      · exact hrest
      · intro e he
        rcases List.mem_cons.mp he with he | he
        · cases he
          rw [List.length_drop]
          omega
        · exact hrest e he

-- a round adds one read to a buffer below the limit
theorem RoundStep.length_le {limit : Nat} {a b : Nat × Octets × ChunkSource}
    (hstep : RoundStep limit a b) (hsrc : ∀ d, Chunk.data d ∈ a.2.2.chunks → d.length ≤ readSize) :
    b.2.1.length ≤ limit + (readSize - 1) ∧
      ∀ d, Chunk.data d ∈ b.2.2.chunks → d.length ≤ readSize := by
  obtain ⟨-, hl, -, got, hr, -, hb⟩ := readRound_eq_more hstep
  obtain ⟨hgot, hsrc'⟩ := ChunkSource.read_le hsrc hr
  refine ⟨?_, hsrc'⟩
  rw [hb, List.length_append]
  have : 0 < readSize := by decide
  omega

-- over any run of rounds from reads of at most `readSize` bytes, the buffer stays below the
-- limit plus one read
theorem length_le_of_rounds {limit : Nat} {a b : Nat × Octets × ChunkSource}
    (hrun : Relation.ReflTransGen (RoundStep limit) a b)
    (ha : a.2.1.length ≤ limit + (readSize - 1))
    (hsrc : ∀ d, Chunk.data d ∈ a.2.2.chunks → d.length ≤ readSize) :
    b.2.1.length ≤ limit + (readSize - 1) := by
  suffices b.2.1.length ≤ limit + (readSize - 1) ∧
      ∀ d, Chunk.data d ∈ b.2.2.chunks → d.length ≤ readSize from this.1
  induction hrun with
  | refl => exact ⟨ha, hsrc⟩
  | tail _ hstep ih => exact hstep.length_le ih.2

-- The boundaries of a cut of bytes into reads: nothing read yet, then the bytes read after each
-- read.
def readEnds (cs : List Octets) : List Nat :=
  (cs.map List.length).scanl (· + ·) 0

theorem length_mem_scanl (cs : List Octets) :
    ∀ p : Nat, p + cs.flatten.length ∈ (cs.map List.length).scanl (· + ·) p := by
  induction cs with
  | nil => simp
  | cons c cs ih =>
    intro p
    simp only [List.map_cons, List.scanl_cons, List.flatten_cons, List.length_append, List.mem_cons]
    exact .inr (by simpa [Nat.add_assoc] using ih (p + c.length))

-- Reading a request head from any cut of its bytes into non-empty reads of at most 1024 bytes,
-- none failing: with `h` the length of the head, reading stops at the first read boundary that
-- reaches `h` or the limit, and answers the request in the head if that boundary reaches `h`, and a
-- head too large otherwise; with no such boundary, or no head and no boundary at the limit, the
-- client closed too early. So a head no longer than the limit is read whatever the cut and
-- whatever follows it, and the buffer never holds more than the limit and 1023 bytes.
theorem read_request_decided_by_head_and_limit (limit : Nat) (cs : List Octets)
    (hcs : ∀ c ∈ cs, c ≠ [] ∧ c.length ≤ 1024) :
    (∀ h, IsHeadLength cs.flatten h →
      readRequest limit (ChunkSource.mk (cs.map .data)) =
        match (readEnds cs).find? (fun b => decide (h ≤ b ∨ limit ≤ b)) with
        | some b =>
          if h ≤ b then Request.parse (cs.flatten.take h)
          else .error (.badRequest (.headTooLarge limit))
        | none => .error (.badRequest .closedEarly)) ∧
    ((∀ h, ¬ IsHeadLength cs.flatten h) →
      readRequest limit (ChunkSource.mk (cs.map .data)) =
        match (readEnds cs).find? (fun b => decide (limit ≤ b)) with
        | some _ => .error (.badRequest (.headTooLarge limit))
        | none => .error (.badRequest .closedEarly)) ∧
    (∀ h, IsHeadLength cs.flatten h → h ≤ limit →
      readRequest limit (ChunkSource.mk (cs.map .data)) = Request.parse (cs.flatten.take h)) ∧
    (∀ st, Relation.ReflTransGen (RoundStep limit)
        (initialRoom limit, [], ChunkSource.mk (cs.map .data)) st →
      st.2.1.length ≤ limit + 1023) := by
  have hloop : readRequest limit (ChunkSource.mk (cs.map .data)) =
      match (readEnds cs).find? (stopsAt cs.flatten limit) with
      | some b => answerAt cs.flatten limit b
      | none => .error (.badRequest .closedEarly) :=
    readRequestFrom_chunks limit cs [] (initialRoom limit) hcs
  -- with a head, the stopping rule and the answer are those of its length
  have hhead : ∀ h, IsHeadLength cs.flatten h →
      stopsAt cs.flatten limit = (fun b => decide (h ≤ b ∨ limit ≤ b)) ∧
      answerAt cs.flatten limit = fun b =>
        if h ≤ b then Request.parse (cs.flatten.take h)
        else .error (.badRequest (.headTooLarge limit)) := by
    intro h hh
    have hs := headLength?_eq_some_iff.mpr hh
    exact ⟨funext fun b => by simp [stopsAt, hs], funext fun b => by simp [answerAt, hs]⟩
  refine ⟨fun h hh => ?_, fun hno => ?_, fun h hh hle => ?_, fun st hrun => ?_⟩
  · rw [hloop, (hhead h hh).1, (hhead h hh).2]
  · have hs : headLength? cs.flatten = none :=
      Option.eq_none_iff_forall_ne_some.mpr fun h hh => hno h (headLength?_eq_some_iff.mp hh)
    have hstop : stopsAt cs.flatten limit = fun b => decide (limit ≤ b) :=
      funext fun b => by simp [stopsAt, hs]
    rw [hloop, hstop]
    cases (readEnds cs).find? (fun b => decide (limit ≤ b)) <;> simp [answerAt, hs]
  · rw [hloop, (hhead h hh).1, (hhead h hh).2]
    -- the last boundary is the whole stream, which reaches the head
    have hmem : cs.flatten.length ∈ readEnds cs := by
      simpa [readEnds] using length_mem_scanl cs 0
    cases hf : (readEnds cs).find? (fun b => decide (h ≤ b ∨ limit ≤ b)) with
    | none =>
      have := List.find?_eq_none.mp hf _ hmem
      simp only [decide_eq_true_eq, not_or, Nat.not_le] at this
      exact absurd hh.1 (Nat.not_le.mpr this.1)
    | some b =>
      have hb := List.find?_some hf
      simp only [decide_eq_true_eq] at hb
      simp [show h ≤ b by omega]
  · exact length_le_of_rounds hrun (by simp) fun d hd => by
      obtain ⟨c, hc, he⟩ := List.mem_map.mp hd
      obtain rfl : c = d := Chunk.data.inj he
      exact (hcs c hc).2

-- a terminator cut between two reads, against a limit the first read already reaches
theorem read_request_decided_split_terminator :
    (∀ c ∈ [[65, 10], [10]], c ≠ [] ∧ c.length ≤ 1024) ∧
    (∀ h, IsHeadLength [[65, 10], [10]].flatten h →
      readRequest 2 (ChunkSource.mk ([[65, 10], [10]].map .data)) =
        match (readEnds [[65, 10], [10]]).find? (fun b => decide (h ≤ b ∨ 2 ≤ b)) with
        | some b =>
          if h ≤ b then Request.parse ([[65, 10], [10]].flatten.take h)
          else .error (.badRequest (.headTooLarge 2))
        | none => .error (.badRequest .closedEarly)) ∧
    ((∀ h, ¬ IsHeadLength [[65, 10], [10]].flatten h) →
      readRequest 2 (ChunkSource.mk ([[65, 10], [10]].map .data)) =
        match (readEnds [[65, 10], [10]]).find? (fun b => decide (2 ≤ b)) with
        | some _ => .error (.badRequest (.headTooLarge 2))
        | none => .error (.badRequest .closedEarly)) ∧
    (∀ h, IsHeadLength [[65, 10], [10]].flatten h → h ≤ 2 →
      readRequest 2 (ChunkSource.mk ([[65, 10], [10]].map .data)) =
        Request.parse ([[65, 10], [10]].flatten.take h)) ∧
    (∀ st, Relation.ReflTransGen (RoundStep 2)
        (initialRoom 2, [], ChunkSource.mk ([[65, 10], [10]].map .data)) st →
      st.2.1.length ≤ 2 + 1023) :=
  ⟨by decide, read_request_decided_by_head_and_limit 2 [[65, 10], [10]] (by decide)⟩

end Http

end MediaRelay
