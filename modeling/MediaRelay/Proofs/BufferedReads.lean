import Mathlib
import MediaRelay.Proofs.Stream

-- Reads through the buffer, over any list of chunks, empty chunks and failing items included.
-- A chunk list is seen as the marks a reader meets in order: the data bytes, one read that
-- returns nothing for each empty chunk, and one failing read for each failing item. The buffer
-- keeps that view: whatever it holds and however the chunks are cut, every read takes marks
-- from the front and nothing else (`read_takes`, `readFull_follows_marks`,
-- `fill_follows_marks`). So the bytes handed out, call after call, are the stream's bytes in
-- order, less only those that a `readFull` had gathered when a failing item ended it.

namespace MediaRelay

namespace EStateM

-- The result of a step that answers `r` and leaves the state `s`.
def resultOf {ε σ α : Type} : Except ε α → σ → EStateM.Result ε σ α
  | .ok a, s => .ok a s
  | .error e, s => .error e s

@[simp] theorem resultOf_ok {ε σ α : Type} {a : α} {s : σ} :
    (resultOf (.ok a) s : EStateM.Result ε σ α) = .ok a s := rfl

@[simp] theorem resultOf_error {ε σ α : Type} {e : ε} {s : σ} :
    (resultOf (.error e) s : EStateM.Result ε σ α) = .error e s := rfl

theorem resultOf_inj {ε σ α : Type} {r r' : Except ε α} {s s' : σ} :
    resultOf r s = resultOf r' s' ↔ r = r' ∧ s = s' := by
  cases r <;> cases r' <;> simp [resultOf]

end EStateM

namespace ChunkSource

inductive Mark
  | byte (x : UInt8)
  | empty
  | fail
deriving DecidableEq, Repr

namespace Mark

-- The data byte a mark carries.
def byte? : Mark → Option UInt8
  | byte x => some x
  | _ => none

-- The data bytes among marks.
def bytesIn (ms : List Mark) : Octets :=
  ms.filterMap byte?

@[simp] theorem bytesIn_nil : bytesIn [] = [] := rfl

@[simp] theorem bytesIn_append (ms ms' : List Mark) :
    bytesIn (ms ++ ms') = bytesIn ms ++ bytesIn ms' :=
  List.filterMap_append

@[simp] theorem bytesIn_map_byte (bs : Octets) : bytesIn (bs.map byte) = bs := by
  simp [bytesIn, List.filterMap_map, Function.comp_def, byte?]

@[simp] theorem bytesIn_byte (x : UInt8) (ms : List Mark) : bytesIn (byte x :: ms) = x :: bytesIn ms :=
  rfl

@[simp] theorem bytesIn_empty (ms : List Mark) : bytesIn (empty :: ms) = bytesIn ms := rfl

@[simp] theorem bytesIn_fail (ms : List Mark) : bytesIn (fail :: ms) = bytesIn ms := rfl

@[simp] theorem bytesIn_flatten (spans : List (List Mark)) :
    bytesIn spans.flatten = (spans.map bytesIn).flatten := by
  induction spans with
  | nil => rfl
  | cons span spans ih => simp [ih]

end Mark

open Mark

def marksOf : List Chunk → List Mark
  | [] => []
  | .data [] :: rest => .empty :: marksOf rest
  | .data (x :: xs) :: rest => (x :: xs).map .byte ++ marksOf rest
  | .fail :: rest => .fail :: marksOf rest

theorem marksOf_data {bs : Octets} (h : bs ≠ []) (rest : List Chunk) :
    marksOf (.data bs :: rest) = bs.map .byte ++ marksOf rest := by
  cases bs with
  | nil => exact absurd rfl h
  | cons x xs => rfl

theorem bytesIn_marksOf (cs : List Chunk) : bytesIn (marksOf cs) = bytesOf cs := by
  induction cs with
  | nil => rfl
  | cons c cs ih =>
    cases c with
    | data bs => cases bs <;> simp [marksOf, bytesOf, ih]
    | fail => simp [marksOf, bytesOf, ih]

-- What one read of up to `n` bytes may do to the marks ahead: take data bytes from the front, no
-- more than asked for and none only when none were asked for or none are left; or consume an empty
-- chunk and return nothing; or consume a failing item and fail.
inductive Takes (n : Nat) : List Mark → Except Fault Octets → List Mark → Prop
  | bytes {bs : Octets} {ms : List Mark} (hle : bs.length ≤ n) (hnil : bs = [] → n = 0 ∨ ms = []) :
      Takes n (bs.map .byte ++ ms) (.ok bs) ms
  | empty {ms : List Mark} : Takes n (.empty :: ms) (.ok []) ms
  | fail {ms : List Mark} : Takes n (.fail :: ms) (.error (.io .reset)) ms

theorem Takes.inv {n : Nat} {ms ms' : List Mark} {r : Except Fault Octets}
    (h : Takes n ms r ms') :
    (∃ bs, r = .ok bs ∧ ms = bs.map .byte ++ ms' ∧ bs.length ≤ n ∧ (bs = [] → n = 0 ∨ ms' = [])) ∨
      (r = .ok [] ∧ ms = .empty :: ms') ∨ (r = .error (.io .reset) ∧ ms = .fail :: ms') := by
  cases h with
  | bytes hle hnil => exact .inl ⟨_, rfl, rfl, hle, hnil⟩
  | empty => exact .inr (.inl ⟨rfl, rfl⟩)
  | fail => exact .inr (.inr ⟨rfl, rfl⟩)

-- One read of the chunks themselves, of at least one byte.
theorem read_takes (s : ChunkSource) {n : Nat} (hn : 0 < n) :
    Takes n (marksOf s.chunks) ((s.read n).1.mapError .io) (marksOf (s.read n).2.chunks) := by
  rcases s with ⟨_ | ⟨⟨_ | ⟨x, xs⟩⟩ | _, rest⟩⟩
  case nil => exact @Takes.bytes n [] [] (by simp) fun _ => .inr rfl
  case cons.fail => exact .fail
  case cons.data.nil =>
    simpa [read, marksOf, Except.mapError] using
      (Takes.empty : Takes n (.empty :: marksOf rest) (.ok []) (marksOf rest))
  case cons.data.cons =>
    have htake : (x :: xs).take n ≠ [] := by simp; omega
    have hsplit : marksOf (.data (x :: xs) :: rest) =
        ((x :: xs).take n).map .byte ++ marksOf (read n ⟨.data (x :: xs) :: rest⟩).2.chunks := by
      by_cases hd : ((x :: xs).drop n).isEmpty
      · have hd' : (x :: xs).drop n = [] := List.isEmpty_iff.mp hd
        simp only [read, hd, if_true]
        rw [marksOf_data (List.cons_ne_nil x xs), ← List.take_append_drop n (x :: xs), hd']
        simp
      · simp only [read, hd, Bool.false_eq_true, if_false]
        rw [marksOf_data (List.cons_ne_nil x xs), marksOf_data (fun h => hd (List.isEmpty_iff.mpr h)),
          ← List.append_assoc, ← List.map_append, List.take_append_drop]
    rw [hsplit]
    exact .bytes (List.length_take_le _ _) fun h => absurd h htake

-- What reading until `n` bytes have arrived makes of the marks ahead: it takes data bytes, up to
-- `n` of them; an empty chunk ends it early and is consumed, and the end of the marks ends it too;
-- a failing item is consumed and fails it, and the bytes gathered before are lost.
def fullRead : Nat → List Mark → Except Fault Octets × List Mark
  | 0, ms => (.ok [], ms)
  | _ + 1, [] => (.ok [], [])
  | n + 1, .byte x :: ms => ((x :: ·) <$> (fullRead n ms).1, (fullRead n ms).2)
  | _ + 1, .empty :: ms => (.ok [], ms)
  | _ + 1, .fail :: ms => (.error (.io .reset), ms)

-- Bytes at the front are taken as they come.
theorem fullRead_map_byte_append (bs : Octets) (ms : List Mark) {n : Nat} (h : bs.length ≤ n) :
    fullRead n (bs.map .byte ++ ms) =
      ((bs ++ ·) <$> (fullRead (n - bs.length) ms).1, (fullRead (n - bs.length) ms).2) := by
  induction bs generalizing n with
  | nil => simp
  | cons x bs ih =>
    obtain ⟨n, rfl⟩ : ∃ m, n = m + 1 := ⟨n - 1, by simp at h; omega⟩
    have hle : bs.length ≤ n := by simpa using h
    simp [fullRead, ih hle]

-- A read that returns fewer bytes than asked for met an empty chunk, which it consumed, or the
-- end of the marks.
theorem fullRead_ok {n : Nat} {ms ms' : List Mark} {bs : Octets}
    (h : fullRead n ms = (.ok bs, ms')) :
    (bs.length = n ∧ ms = bs.map .byte ++ ms') ∨
      (bs.length < n ∧ ms = bs.map .byte ++ .empty :: ms') ∨
      (bs.length < n ∧ ms = bs.map .byte ∧ ms' = []) := by
  fun_induction fullRead n ms generalizing bs ms' with
  | case1 | case2 | case4 =>
    simp only [Prod.mk.injEq, Except.ok.injEq] at h
    obtain ⟨rfl, rfl⟩ := h
    simp
  | case3 n x ms ih =>
    rcases hfr : fullRead n ms with ⟨r, ms₁⟩
    rw [hfr] at h
    cases r with
    | error e => cases h
    | ok bs' =>
      obtain ⟨h₁, rfl⟩ := Prod.mk.inj h
      obtain rfl : x :: bs' = bs := Except.ok.inj h₁
      rcases ih hfr with ⟨hl, hm⟩ | ⟨hl, hm⟩ | ⟨hl, hm, hend⟩
      · exact .inl ⟨by simp [hl], by simp [hm]⟩
      · exact .inr (.inl ⟨by simp; omega, by simp [hm]⟩)
      · exact .inr (.inr ⟨by simp; omega, by simp [hm], hend⟩)
  | case5 => simp at h

-- A read fails only on a failing item, after fewer bytes than asked for, which are lost.
theorem fullRead_error {n : Nat} {ms ms' : List Mark} {e : Fault}
    (h : fullRead n ms = (.error e, ms')) :
    e = .io .reset ∧ ∃ lost : Octets, lost.length < n ∧ ms = lost.map .byte ++ .fail :: ms' := by
  fun_induction fullRead n ms generalizing ms' with
  | case1 | case2 | case4 => simp at h
  | case3 n x ms ih =>
    rcases hfr : fullRead n ms with ⟨r, ms₁⟩
    rw [hfr] at h
    cases r with
    | ok bs' => cases h
    | error e' =>
      obtain ⟨h₁, rfl⟩ := Prod.mk.inj h
      obtain rfl : e' = e := Except.error.inj h₁
      obtain ⟨he, lost, hl, hm⟩ := ih hfr
      exact ⟨he, x :: lost, by simp; omega, by simp [hm]⟩
  | case5 n ms =>
    simp only [Prod.mk.injEq, Except.error.injEq] at h
    obtain ⟨rfl, rfl⟩ := h
    exact ⟨rfl, [], by simp, rfl⟩

-- A read that succeeds takes the bytes it returns, and the empty chunk that ended it if one did.
theorem fullRead_ok_span {n : Nat} {ms ms' : List Mark} {bs : Octets}
    (h : fullRead n ms = (.ok bs, ms')) :
    ∃ span, ms = span ++ ms' ∧ (span = bs.map .byte ∨ span = bs.map .byte ++ [.empty]) := by
  rcases fullRead_ok h with ⟨-, hms⟩ | ⟨-, hms⟩ | ⟨-, hms, hend⟩
  · exact ⟨_, hms, .inl rfl⟩
  · exact ⟨_, by simp [hms], .inr rfl⟩
  · exact ⟨_, by simp [hms, hend], .inl rfl⟩

end ChunkSource

open ChunkSource ChunkSource.Mark

namespace Buffered

-- The marks ahead of a buffered source: the bytes in its buffer, then the marks of its chunks.
def marks (b : Buffered ChunkSource) : List Mark :=
  b.pending.map .byte ++ marksOf b.inner.chunks

theorem bytesIn_marks (b : Buffered ChunkSource) : bytesIn b.marks = b.stream := by
  simp [marks, stream, ChunkSource.bytes, bytesIn_marksOf]

variable {b : Buffered ChunkSource} {n : Nat}

-- A read past the buffer, when it is empty, is one read of the chunks.
theorem pull_takes (hp : b.pending = []) (hn : 0 < n) :
    ∃ r b', pull n b = EStateM.resultOf r b' ∧ b'.pending = [] ∧ Takes n b.marks r b'.marks := by
  refine ⟨(b.inner.read n).1.mapError .io, { b with inner := (b.inner.read n).2 }, ?_, hp, ?_⟩
  · simp only [pull]
    rw [show ByteSource.read n b.inner = b.inner.read n from rfl]
    cases b.inner.read n with
    | mk r s => cases r <;> rfl
  · simpa [marks, hp] using ChunkSource.read_takes b.inner hn

-- What waiting for input does to the marks ahead: it consumes an empty chunk or a failing item at
-- the front, failing on the latter, and otherwise changes nothing.
def pollMarks : List Mark → Except Fault Unit × List Mark
  | .empty :: ms => (.ok (), ms)
  | .fail :: ms => (.error (.io .reset), ms)
  | ms => (.ok (), ms)

-- A refill of the empty buffer is one read of the chunks, whose bytes go into the buffer.
theorem fill_of_takes {r : Except Fault Octets} {b₁ : Buffered ChunkSource} (hp : b.pending = [])
    (hr : pull capacity b = EStateM.resultOf r b₁) :
    fill b = match r with
      | .ok bs => .ok () { b₁ with pending := bs }
      | .error e => .error e b₁ := by
  cases r with
  | ok bs => exact fill_of_pending_nil hp hr
  | error e =>
    simp [fill, hp, bind, EStateM.bind, get, getThe, MonadStateOf.get, EStateM.get, hr]

theorem fill_follows_marks (b : Buffered ChunkSource) :
    ∃ b', fill b = EStateM.resultOf (pollMarks b.marks).1 b' ∧ b'.marks = (pollMarks b.marks).2 := by
  by_cases hp : b.pending = []
  · obtain ⟨r, b₁, hr, hp₁, ht⟩ := pull_takes hp (show 0 < capacity by decide)
    have hm₁ : b₁.marks = marksOf b₁.inner.chunks := by simp [marks, hp₁]
    obtain ⟨bs, rfl, hms, -, hnil⟩ | ⟨rfl, hms⟩ | ⟨rfl, hms⟩ := ht.inv
    · -- the bytes read go into the buffer, so the marks ahead stay as they were
      have hf : fill b = .ok () { b₁ with pending := bs } := fill_of_takes hp hr
      have hpoll : pollMarks b.marks = (.ok (), b.marks) := by
        rcases bs with _ | ⟨x, xs⟩
        · obtain h | h := hnil rfl
          · exact absurd h (by decide)
          · simp [hms, h, pollMarks]
        · simp [hms, pollMarks]
      refine ⟨{ b₁ with pending := bs }, by rw [hpoll, hf]; rfl, ?_⟩
      rw [hpoll, hms, hm₁]
      rfl
    · have hf : fill b = .ok () { b₁ with pending := [] } := fill_of_takes hp hr
      exact ⟨_, by rw [hf, hms]; rfl, by rw [hms]; simp [pollMarks, marks, hp₁]⟩
    · have hf : fill b = .error (.io .reset) b₁ := fill_of_takes hp hr
      exact ⟨b₁, by rw [hf, hms]; rfl, by rw [hms]; rfl⟩
  · obtain ⟨x, xs, hx⟩ := List.exists_cons_of_ne_nil hp
    have hpoll : pollMarks b.marks = (.ok (), b.marks) := by simp [marks, hx, pollMarks]
    exact ⟨b, by rw [hpoll]; exact fill_of_pending_ne hp, by rw [hpoll]⟩

theorem pollMarks_cases (ms : List Mark) :
    pollMarks ms = (.ok (), ms) ∨ (∃ ms', ms = .empty :: ms' ∧ pollMarks ms = (.ok (), ms')) ∨
      (∃ ms', ms = .fail :: ms' ∧ pollMarks ms = (.error (.io .reset), ms')) := by
  unfold pollMarks
  split
  · exact .inr (.inl ⟨_, rfl, rfl⟩)
  · exact .inr (.inr ⟨_, rfl, rfl⟩)
  · exact .inl rfl

-- Waiting for input never consumes a data byte.
theorem fill_keeps_stream (b : Buffered ChunkSource) :
    ∃ b', (fill b = .ok () b' ∨ fill b = .error (.io .reset) b') ∧ b'.stream = b.stream := by
  obtain ⟨b', hf, hm⟩ := fill_follows_marks b
  refine ⟨b', ?_, ?_⟩
  · rcases pollMarks_cases b.marks with h | ⟨_, _, h⟩ | ⟨_, _, h⟩ <;> simp [hf, h]
  · rw [← bytesIn_marks, ← bytesIn_marks, hm]
    rcases pollMarks_cases b.marks with h | ⟨ms', hms, h⟩ | ⟨ms', hms, h⟩
    · rw [h]
    · rw [h, hms, bytesIn_empty]
    · rw [h, hms, bytesIn_fail]

-- One read of up to `n` bytes through the buffer takes marks from the front.
theorem read_takes (b : Buffered ChunkSource) (n : Nat) :
    ∃ r b', read n b = EStateM.resultOf r b' ∧ Takes n b.marks r b'.marks := by
  by_cases hb : b.pending = [] ∧ capacity ≤ n
  · -- past the empty buffer, straight to the chunks
    obtain ⟨r, b', hr, -, ht⟩ := pull_takes hb.1 (lt_of_lt_of_le (by decide) hb.2)
    refine ⟨r, b', ?_, ht⟩
    simp [read, hb.1, hb.2, bind, EStateM.bind, get, getThe, MonadStateOf.get, EStateM.get, hr]
  have hread : read n b = (fill >>= fun _ => take n) b := by
    have hb' : (b.pending.isEmpty && decide (capacity ≤ n)) = false := by
      simpa [List.isEmpty_iff] using hb
    simp [read, hb', bind, EStateM.bind, get, getThe, MonadStateOf.get, EStateM.get]
  rw [hread]
  by_cases hp : b.pending = []
  · -- the empty buffer is refilled by one read of the chunks, then serves the read
    obtain ⟨r, b₁, hr, hp₁, ht⟩ := pull_takes hp (show 0 < capacity by decide)
    have hm₁ : b₁.marks = marksOf b₁.inner.chunks := by simp [marks, hp₁]
    obtain ⟨bs, rfl, hms, -, hnil⟩ | ⟨rfl, hms⟩ | ⟨rfl, hms⟩ := ht.inv
    · have hf : fill b = .ok () { b₁ with pending := bs } := fill_of_takes hp hr
      refine ⟨.ok (bs.take n), { b₁ with pending := bs.drop n }, ?_, ?_⟩
      · simp [EStateM.bind_of_ok hf, take_eq]
      · have hsplit : b.marks =
            (bs.take n).map .byte ++ ({ b₁ with pending := bs.drop n } : Buffered ChunkSource).marks := by
          rw [hms, hm₁, marks, ← List.append_assoc, ← List.map_append, List.take_append_drop]
        rw [hsplit]
        refine .bytes (List.length_take_le _ _) fun h => ?_
        rcases List.take_eq_nil_iff.mp h with h | h
        · exact .inl h
        · obtain h' | h' := hnil h
          · exact absurd h' (by decide)
          · refine .inr ?_
            simp only [marks, h, List.drop_nil, List.map_nil, List.nil_append]
            rw [← hm₁, h']
    · have hf : fill b = .ok () { b₁ with pending := [] } := fill_of_takes hp hr
      refine ⟨.ok [], { b₁ with pending := [] }, by simp [EStateM.bind_of_ok hf, take_eq], ?_⟩
      rw [hms]
      simpa [marks, hp₁] using (Takes.empty : Takes n (.empty :: marksOf b₁.inner.chunks) _ _)
    · have hf : fill b = .error (.io .reset) b₁ := fill_of_takes hp hr
      exact ⟨.error (.io .reset), b₁, by simp [EStateM.bind_of_error hf], by rw [hms]; exact .fail⟩
  · -- the buffer serves the read
    refine ⟨.ok (b.pending.take n), { b with pending := b.pending.drop n }, ?_, ?_⟩
    · rw [EStateM.bind_of_ok (fill_of_pending_ne hp), take_eq]
      rfl
    · have hsplit : b.marks =
          (b.pending.take n).map .byte ++ ({ b with pending := b.pending.drop n } : Buffered ChunkSource).marks := by
        simp only [marks, ← List.append_assoc, ← List.map_append, List.take_append_drop]
      rw [hsplit]
      exact .bytes (List.length_take_le _ _) fun h => .inl (by simpa [hp] using h)

-- Reading until `want` more bytes have arrived follows `fullRead` on the marks ahead; `acc`
-- holds the pieces read so far, the latest first.
theorem readFullFrom_follows_marks (acc : List Octets) (want : Nat) :
    ∀ b : Buffered ChunkSource, ∃ b', b'.marks = (fullRead want b.marks).2 ∧
      readFullFrom acc want b =
        EStateM.resultOf ((acc.reverse.flatten ++ ·) <$> (fullRead want b.marks).1) b' := by
  induction acc, want using readFullFrom.induct with
  | case1 acc =>
    intro b
    refine ⟨b, by simp [fullRead], ?_⟩
    simp [readFullFrom, fullRead, pure, EStateM.pure]
  | case2 acc want hw ih =>
    intro b
    obtain ⟨w, rfl⟩ := Nat.exists_eq_succ_of_ne_zero hw
    obtain ⟨r, b₁, hr, ht⟩ := read_takes b (w + 1)
    obtain ⟨bs, rfl, hms, hle, hnil⟩ | ⟨rfl, hms⟩ | ⟨rfl, hms⟩ := ht.inv
    · by_cases hg : bs.length = 0
      · -- a read that returns nothing at the end of the marks ends the read
        obtain rfl : bs = [] := List.eq_nil_of_length_eq_zero hg
        have hend : b₁.marks = [] := (hnil rfl).resolve_left (by omega)
        refine ⟨b₁, by simp [hms, hend, fullRead], ?_⟩
        rw [readFullFrom]
        simp [hr, hms, hend, fullRead, bind, EStateM.bind, pure, EStateM.pure]
      · obtain ⟨b', hm', hrec⟩ := ih bs hg b₁
        have hfull := fullRead_map_byte_append bs b₁.marks hle
        refine ⟨b', by rw [hms, hfull]; exact hm', ?_⟩
        have hr' : read (w + 1) b = .ok bs b₁ := hr
        rw [readFullFrom, dif_neg hw]
        simp only [Nat.succ_eq_add_one] at hrec ⊢
        rw [EStateM.bind_of_ok hr', dif_neg hg, hrec, hms, hfull]
        cases (fullRead (w + 1 - bs.length) b₁.marks).1 <;> simp [Functor.map, Except.map]
    · refine ⟨b₁, by simp [hms, fullRead], ?_⟩
      rw [readFullFrom]
      simp [hr, hms, fullRead, bind, EStateM.bind, pure, EStateM.pure]
    · refine ⟨b₁, by simp [hms, fullRead], ?_⟩
      rw [readFullFrom]
      simp [hr, hms, fullRead, bind, EStateM.bind]

theorem readFull_follows_marks (b : Buffered ChunkSource) (n : Nat) :
    ∃ b', b'.marks = (fullRead n b.marks).2 ∧
      readFull n b = EStateM.resultOf (fullRead n b.marks).1 b' := by
  obtain ⟨b', hm, h⟩ := readFullFrom_follows_marks [] n b
  exact ⟨b', hm, by simpa [readFull] using h⟩

theorem fullRead_of_readFull {b b' : Buffered ChunkSource} {n : Nat} {r : Except Fault Octets}
    (h : readFull n b = EStateM.resultOf r b') : fullRead n b.marks = (r, b'.marks) := by
  obtain ⟨b'', hm, hr⟩ := readFull_follows_marks b n
  obtain ⟨rfl, rfl⟩ := EStateM.resultOf_inj.mp (h.symm.trans hr)
  rw [hm]

-- A `readFull` that returns fewer bytes than asked for stopped at an empty chunk, which it
-- consumed, or at the end of the chunks.
theorem readFull_short {b b' : Buffered ChunkSource} {n : Nat} {bs : Octets}
    (h : readFull n b = .ok bs b') (hl : bs.length < n) :
    b.marks = bs.map .byte ++ .empty :: b'.marks ∨ (b.marks = bs.map .byte ∧ b'.marks = []) := by
  rcases fullRead_ok (fullRead_of_readFull (r := .ok bs) h) with ⟨hl', -⟩ | ⟨-, hms⟩ | hend
  · omega
  · exact .inl hms
  · exact .inr hend.2

section ExactReads

variable {σ : Type} [ByteSource σ] {b b' : Buffered σ} {n : Nat}

-- `readExactOrEof` decides on the count that `readFull` returns.
theorem readExactOrEof_of_ok {bs : Octets} (h : readFull n b = .ok bs b') :
    readExactOrEof n b =
      if bs = [] then .ok none b'
      else if bs.length < n then .error (.io (.endedAfter bs.length n)) b'
      else .ok (some bs) b' := by
  simp only [readExactOrEof, bind, EStateM.bind, h, List.isEmpty_iff]
  split_ifs <;> rfl

theorem readExactOrEof_of_error {e : Fault} (h : readFull n b = .error e b') :
    readExactOrEof n b = .error e b' := by
  simp [readExactOrEof, bind, EStateM.bind, h]

end ExactReads

section ExactChunkReads

variable {b b' : Buffered ChunkSource} {n : Nat}

-- A `readFull` of chunks fails only on a failing item.
theorem readFull_error {e : Fault} (h : readFull n b = .error e b') :
    e = .io .reset ∧ ∃ lost : Octets, lost.length < n ∧ b.marks = lost.map .byte ++ .fail :: b'.marks :=
  fullRead_error (fullRead_of_readFull (r := .error e) h)

-- The end of the stream is reported when `readFull` returns no byte, and a stream that ended
-- part way through when it returns some but fewer than asked for.
theorem readExactOrEof_eof_iff : readExactOrEof n b = .ok none b' ↔ readFull n b = .ok [] b' := by
  constructor
  · intro h
    cases hr : readFull n b with
    | ok bs b'' =>
      rw [readExactOrEof_of_ok hr] at h
      split_ifs at h with h0 hl
      · cases h
        rw [h0]
      · simp at h
    | error e b'' => rw [readExactOrEof_of_error hr] at h; cases h
  · intro h
    rw [readExactOrEof_of_ok h, if_pos rfl]

theorem readExactOrEof_short_iff {got : Nat} :
    readExactOrEof n b = .error (.io (.endedAfter got n)) b' ↔
      ∃ bs, readFull n b = .ok bs b' ∧ bs.length = got ∧ 0 < got ∧ got < n := by
  constructor
  · intro h
    cases hr : readFull n b with
    | ok bs b'' =>
      rw [readExactOrEof_of_ok hr] at h
      split_ifs at h with h0 hl
      cases h
      exact ⟨bs, rfl, rfl, List.length_pos_of_ne_nil h0, hl⟩
    | error e b'' =>
      rw [readExactOrEof_of_error hr] at h
      cases h
      cases (readFull_error hr).1
  · rintro ⟨bs, h, rfl, h0, hl⟩
    rw [readExactOrEof_of_ok h, if_neg (fun h' => by simp [h'] at h0), if_pos hl]

end ExactChunkReads

-- A call made of a buffered source: by a framer, or by the worker waiting for input.
inductive Call
  | readSome (n : Nat)
  | readFull (n : Nat)
  | readExactOrEof (n : Nat)
  | poll
deriving DecidableEq, Repr

inductive Answer
  | bytes (bs : Octets)
  | exactly (bs : Option Octets)
  | ready
deriving DecidableEq, Repr

-- The bytes an answer hands over.
def Answer.received : Answer → Octets
  | bytes bs => bs
  | exactly bs => bs.getD []
  | ready => []

section Calls

variable {σ : Type} [ByteSource σ]

def Call.perform : Call → EStateM Fault (Buffered σ) Answer
  | .readSome n => Answer.bytes <$> Buffered.read n
  | .readFull n => Answer.bytes <$> Buffered.readFull n
  | .readExactOrEof n => Answer.exactly <$> Buffered.readExactOrEof n
  | .poll => do
    fill
    return .ready

-- Makes calls in order, going on after a failure: their answers, and the source after them.
def Call.runAll : List Call → Buffered σ → List (Except Fault Answer) × Buffered σ
  | [], b => ([], b)
  | c :: cs, b =>
    match c.perform b with
    | .ok a b' => (.ok a :: (runAll cs b').1, (runAll cs b').2)
    | .error e b' => (.error e :: (runAll cs b').1, (runAll cs b').2)

theorem runAll_cons {c : Call} {cs : List Call} {b b' : Buffered σ} {a : Except Fault Answer}
    (h : c.perform b = EStateM.resultOf a b') :
    Call.runAll (c :: cs) b = (a :: (Call.runAll cs b').1, (Call.runAll cs b').2) := by
  cases a <;> simp [Call.runAll, h]

end Calls

theorem map_of_resultOf {α β : Type} {f : α → β} {x : EStateM Fault (Buffered ChunkSource) α}
    {b b' : Buffered ChunkSource} {r : Except Fault α} (h : x b = EStateM.resultOf r b') :
    (f <$> x) b = EStateM.resultOf (f <$> r) b' := by
  show EStateM.map f x b = _
  cases r <;> simp [EStateM.map, h]

-- The call `c`, answering `a`, took the marks `span` from the front of the stream. A call takes
-- data bytes and at most one empty chunk or failing item after them. An answer hands over the bytes
-- it took; a `readExactOrEof` that ended part way through leaves the bytes it took in its caller's
-- buffer and tells how many; a failing item fails the call, and the bytes that a `readFull` or a
-- `readExactOrEof` had gathered before it are lost.
def Delivered : Call → Except Fault Answer → List Mark → Prop
  | _, .ok a, span => span = a.received.map .byte ∨ span = a.received.map .byte ++ [.empty]
  | .readExactOrEof n, .error (.io (.endedAfter got want)), span =>
    want = n ∧ 0 < got ∧ got < n ∧
      ∃ piece : Octets, piece.length = got ∧
        (span = piece.map .byte ∨ span = piece.map .byte ++ [.empty])
  | .readFull n, .error (.io .reset), span =>
    ∃ lost : Octets, lost.length < n ∧ span = lost.map .byte ++ [.fail]
  | .readExactOrEof n, .error (.io .reset), span =>
    ∃ lost : Octets, lost.length < n ∧ span = lost.map .byte ++ [.fail]
  | _, .error (.io .reset), span => span = [.fail]
  | _, _, _ => False

def DeliveredAll : List Call → List (Except Fault Answer) → List (List Mark) → Prop
  | [], [], [] => True
  | c :: cs, a :: as, span :: spans => Delivered c a span ∧ DeliveredAll cs as spans
  | _, _, _ => False

-- Each call takes the marks at the front of the stream, as `Delivered` says.
theorem perform_delivers (c : Call) (b : Buffered ChunkSource) :
    ∃ a b', c.perform b = EStateM.resultOf a b' ∧
      ∃ span, b.marks = span ++ b'.marks ∧ Delivered c a span := by
  cases c with
  | readSome n =>
    obtain ⟨r, b', hr, ht⟩ := read_takes b n
    refine ⟨Answer.bytes <$> r, b', map_of_resultOf hr, ?_⟩
    obtain ⟨bs, rfl, hms, -, -⟩ | ⟨rfl, hms⟩ | ⟨rfl, hms⟩ := ht.inv
    · exact ⟨bs.map Mark.byte, hms, .inl rfl⟩
    · exact ⟨[Mark.empty], hms, .inr rfl⟩
    · exact ⟨[Mark.fail], hms, rfl⟩
  | readFull n =>
    obtain ⟨b', hm, h⟩ := readFull_follows_marks b n
    refine ⟨Answer.bytes <$> (fullRead n b.marks).1, b', map_of_resultOf h, ?_⟩
    rcases hfr : fullRead n b.marks with ⟨r, ms'⟩
    rw [hfr] at hm
    cases r with
    | ok bs =>
      obtain ⟨span, hms, hspan⟩ := fullRead_ok_span hfr
      exact ⟨span, by rw [hms, hm], hspan⟩
    | error e =>
      obtain ⟨rfl, lost, hl, hms⟩ := fullRead_error hfr
      exact ⟨lost.map Mark.byte ++ [Mark.fail], by rw [hms, hm]; simp, lost, hl, rfl⟩
  | readExactOrEof n =>
    obtain ⟨b', hm, h⟩ := readFull_follows_marks b n
    rcases hfr : fullRead n b.marks with ⟨r, ms'⟩
    rw [hfr] at hm h
    cases r with
    | error e =>
      have hx : readExactOrEof n b = .error e b' := readExactOrEof_of_error h
      obtain ⟨rfl, lost, hl, hms⟩ := fullRead_error hfr
      exact ⟨_, b', map_of_resultOf (r := .error (.io .reset)) hx,
        lost.map Mark.byte ++ [Mark.fail], by rw [hms, hm]; simp, lost, hl, rfl⟩
    | ok bs =>
      have hx := readExactOrEof_of_ok (h : readFull n b = .ok bs b')
      obtain ⟨span, hms, hspan⟩ := fullRead_ok_span hfr
      have hsplit : b.marks = span ++ b'.marks := by rw [hms, hm]
      -- the stream ended before the read when no byte came, part way through when too few came
      by_cases h0 : bs = []
      · subst h0
        rw [if_pos rfl] at hx
        exact ⟨_, b', map_of_resultOf (r := .ok none) hx, span, hsplit, hspan⟩
      rw [if_neg h0] at hx
      by_cases hl : bs.length < n
      · rw [if_pos hl] at hx
        exact ⟨_, b', map_of_resultOf (r := .error _) hx, span, hsplit, rfl,
          List.length_pos_of_ne_nil h0, hl, bs, rfl, hspan⟩
      · rw [if_neg hl] at hx
        exact ⟨_, b', map_of_resultOf (r := .ok (some bs)) hx, span, hsplit, hspan⟩
  | poll =>
    obtain ⟨b', hf, hm⟩ := fill_follows_marks b
    simp only [Call.perform]
    rcases pollMarks_cases b.marks with h | ⟨ms', hms, h⟩ | ⟨ms', hms, h⟩
    · rw [h] at hf hm
      exact ⟨.ok .ready, b', by rw [EStateM.bind_of_ok (hf : fill b = .ok () b')]; rfl,
        [], by rw [hm]; rfl, .inl rfl⟩
    · rw [h] at hf hm
      exact ⟨.ok .ready, b', by rw [EStateM.bind_of_ok (hf : fill b = .ok () b')]; rfl,
        [Mark.empty], by rw [hms, hm]; rfl, .inr rfl⟩
    · rw [h] at hf hm
      exact ⟨.error (.io .reset), b',
        by rw [EStateM.bind_of_error (hf : fill b = .error (.io .reset) b')]; rfl,
        [Mark.fail], by rw [hms, hm]; rfl, rfl⟩

theorem runAll_delivers (calls : List Call) (b : Buffered ChunkSource) :
    ∃ spans, b.marks = spans.flatten ++ (Call.runAll calls b).2.marks ∧
      DeliveredAll calls (Call.runAll calls b).1 spans := by
  induction calls generalizing b with
  | nil => exact ⟨[], by simp [Call.runAll], trivial⟩
  | cons c cs ih =>
    obtain ⟨a, b', hp, span, hm, hd⟩ := perform_delivers c b
    obtain ⟨spans, hms, hall⟩ := ih b'
    refine ⟨span :: spans, ?_, ?_⟩
    · rw [runAll_cons hp, hm, hms]
      simp
    · rw [runAll_cons hp]
      exact ⟨hd, hall⟩

-- Reads through the buffer keep the stream's bytes in order. For every state of a buffered source
-- over any chunk list, and every sequence of calls, the calls take, one after the other, the marks
-- at the front of the stream: each hands over the bytes it took, except that the bytes a `readFull`
-- or `readExactOrEof` had gathered when a failing item failed it are lost (and a `readExactOrEof`
-- that ended part way through leaves them in its caller's buffer, telling how many). A `readFull`
-- returns fewer bytes than asked for only when a read returned nothing, at an empty chunk, which it
-- consumed, or at the end of the chunks. A `readExactOrEof` reports the end of the stream exactly
-- when that `readFull` returned no byte, and fails with an unexpected end of the stream exactly
-- when it returned some but fewer than asked for. Waiting for input never consumes a data byte.
theorem reads_keep_stream_order :
    (∀ (b : Buffered ChunkSource) (calls : List Call), ∃ spans : List (List Mark),
        b.marks = spans.flatten ++ (Call.runAll calls b).2.marks ∧
        b.stream = (spans.map bytesIn).flatten ++ (Call.runAll calls b).2.stream ∧
        DeliveredAll calls (Call.runAll calls b).1 spans) ∧
    (∀ (b b' : Buffered ChunkSource) (n : Nat) (bs : Octets), readFull n b = .ok bs b' →
        bs.length < n →
        b.marks = bs.map .byte ++ .empty :: b'.marks ∨ (b.marks = bs.map .byte ∧ b'.marks = [])) ∧
    (∀ (b b' : Buffered ChunkSource) (n got : Nat),
        (readExactOrEof n b = .ok none b' ↔ readFull n b = .ok [] b') ∧
        (readExactOrEof n b = .error (.io (.endedAfter got n)) b' ↔
          ∃ bs, readFull n b = .ok bs b' ∧ bs.length = got ∧ 0 < got ∧ got < n)) ∧
    (∀ got n : Nat, (IoFault.endedAfter got n).kind = .unexpectedEof ∧
        (IoFault.endedAfter got n).text = s!"stream ended after {got} of {n} bytes") ∧
    (∀ b : Buffered ChunkSource, ∃ b', (fill b = .ok () b' ∨ fill b = .error (.io .reset) b') ∧
        b'.stream = b.stream) := by
  refine ⟨fun b calls => ?_, fun b b' n bs h hl => readFull_short h hl,
    fun b b' n got => ⟨readExactOrEof_eof_iff, readExactOrEof_short_iff⟩,
    fun got n => ⟨rfl, rfl⟩, fill_keeps_stream⟩
  obtain ⟨spans, hms, hall⟩ := runAll_delivers calls b
  refine ⟨spans, hms, ?_, hall⟩
  -- the data bytes of both sides of the marks' equation
  rw [← bytesIn_marks, ← bytesIn_marks, hms, bytesIn_append, bytesIn_flatten]

end Buffered

end MediaRelay
