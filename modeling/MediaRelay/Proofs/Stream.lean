import Mathlib
import MediaRelay.Source.Chunked
import MediaRelay.Media.Framing

-- A chunked source serves the bytes of its chunks in order, but where one read stops depends on
-- where the chunks are cut. When no chunk is empty (or only trailing ones are) and none fails, a
-- read returns nothing only once all bytes have been served, and then the reads that framers
-- make do not depend on the cuts: `readFull n` returns the next `n` bytes of the stream, or all
-- that is left, and `readExactOrEof n` tells an exhausted stream from a short one by the stream
-- alone. A single read of up to `n` bytes returns some front part of the stream, never empty
-- while bytes are left.

namespace MediaRelay

namespace EStateM

variable {ε σ α β : Type} {x : EStateM ε σ α} {f : α → EStateM ε σ β} {s s' : σ}

theorem bind_of_ok {a : α} (h : x s = .ok a s') : (x >>= f) s = f a s' := by
  simp [bind, EStateM.bind, h]

theorem bind_of_error {e : ε} (h : x s = .error e s') : (x >>= f) s = .error e s' := by
  simp [bind, EStateM.bind, h]

@[simp] theorem pure_apply {a : α} : (pure a : EStateM ε σ α) s = .ok a s := rfl

@[simp] theorem throw_apply {e : ε} : (throw e : EStateM ε σ α) s = .error e s := rfl

end EStateM

namespace Octets

theorem slice_take {bs : Octets} {i n m : Nat} (h : i + n ≤ m) :
    slice (bs.take m) i n = slice bs i n := by
  simp only [slice, List.drop_take]
  rw [List.take_take, Nat.min_eq_left (by omega)]

theorem slice_append {xs ys : Octets} {i n : Nat} (h : i + n ≤ xs.length) :
    slice (xs ++ ys) i n = slice xs i n := by
  simp only [slice, List.drop_append_of_le_length (show i ≤ xs.length by omega)]
  exact List.take_append_of_le_length (by simp; omega)

end Octets

namespace ChunkSource

-- A chunk list is solid when a read comes back empty only once its bytes are all served: every
-- chunk holds data, and an empty chunk has no bytes after it.
def Solid : List Chunk → Prop
  | [] => True
  | .fail :: _ => False
  | .data bs :: rest => (bs = [] → bytesOf rest = []) ∧ Solid rest

theorem solid_of_nonempty {cs : List Chunk} (h : ∀ c ∈ cs, ∃ bs, c = .data bs ∧ bs ≠ []) :
    Solid cs := by
  induction cs with
  | nil => trivial
  | cons c cs ih =>
    have ⟨bs, hc, hne⟩ := h c List.mem_cons_self
    subst hc
    exact ⟨fun h' => absurd h' hne, ih fun c' hc' => h c' (List.mem_cons_of_mem _ hc')⟩

theorem solid_single (bs : Octets) : Solid [.data bs] :=
  ⟨fun _ => rfl, trivial⟩

-- One read of a solid source: a front part of its bytes, empty only at the end, and a solid
-- source behind it.
theorem read_of_solid {s : ChunkSource} {n : Nat} (hs : Solid s.chunks) (hn : 0 < n) :
    ∃ bs s', s.read n = (.ok bs, s') ∧ bs ++ s'.bytes = s.bytes ∧ bs.length ≤ n ∧
      (bs = [] → s.bytes = []) ∧ Solid s'.chunks := by
  have ⟨chunks⟩ := s
  cases chunks with
  | nil => exact ⟨[], ⟨[]⟩, rfl, rfl, Nat.zero_le _, fun _ => rfl, trivial⟩
  | cons c rest =>
    cases c with
    | fail => exact hs.elim
    | data c =>
      have ⟨hend, hr⟩ := hs
      refine ⟨_, _, rfl, bytes_read n ⟨.data c :: rest⟩ rfl, List.length_take_le _ _, ?eof, ?solid⟩
      case eof =>
        intro h
        have hc : c = [] := List.take_eq_nil_iff.mp h |>.resolve_left (by omega)
        simp [bytes, bytesOf, hc, hend hc]
      case solid =>
        by_cases hd : (c.drop n).isEmpty
        · simp [hd, hr]
        · simp only [hd]
          exact ⟨fun h => absurd (List.isEmpty_iff.mpr h) hd, hr⟩

end ChunkSource

namespace Buffered

-- The bytes still to be read: those in the buffer, then those the chunks have still to serve.
def stream (b : Buffered ChunkSource) : Octets :=
  b.pending ++ b.inner.bytes

-- A buffered source holds the stream `s` when `s` is what is left to read and the chunks behind
-- the buffer are solid.
structure Holds (b : Buffered ChunkSource) (s : Octets) : Prop where
  solid : ChunkSource.Solid b.inner.chunks
  stream_eq : b.stream = s

-- What one read of up to `n` bytes may return from the stream `s`: a front part of it, no longer
-- than `n`, and empty only when `s` is.
structure ReadOf (n : Nat) (s bs : Octets) : Prop where
  isPrefix : bs <+: s
  length_le : bs.length ≤ n
  eof : bs = [] → s = []

theorem ReadOf.eq_take {n : Nat} {s bs : Octets} (h : ReadOf n s bs) : bs = s.take bs.length := by
  have ⟨t, ht⟩ := h.isPrefix
  simp [← ht]

theorem ReadOf.ne_nil {n : Nat} {s bs : Octets} (h : ReadOf n s bs) (hs : s ≠ []) : bs ≠ [] :=
  fun h' => hs (h.eof h')

variable {b : Buffered ChunkSource} {s : Octets} {n : Nat}

theorem holds_start {cs : List Chunk} (h : ChunkSource.Solid cs) :
    Buffered.Holds { inner := ⟨cs⟩ } (ChunkSource.bytesOf cs) :=
  ⟨h, rfl⟩

theorem Holds.remaining_eq (h : b.Holds s) : b.remaining = s.length := by
  have hs := h.stream_eq
  simp only [stream, ChunkSource.bytes] at hs
  simp [remaining, ByteSource.remaining, ChunkSource.size, ChunkSource.lengthOf_eq, ← hs]

theorem pull_of_holds (hp : b.pending = []) (h : b.Holds s) (hn : 0 < n) :
    ∃ bs b', pull n b = .ok bs b' ∧ b'.pending = [] ∧ ReadOf n s bs ∧
      b'.Holds (s.drop bs.length) := by
  have ⟨bs, src, hr, happ, hl, he, hs⟩ := ChunkSource.read_of_solid h.solid hn
  have hst : s = bs ++ src.bytes := by rw [← h.stream_eq, stream, hp, ← happ]; rfl
  refine ⟨bs, { b with inner := src }, ?_, hp, ⟨⟨_, hst.symm⟩, hl, ?_⟩, ⟨hs, ?_⟩⟩
  · simp only [pull]
    rw [show ByteSource.read n b.inner = b.inner.read n from rfl, hr]
  · intro h0
    rw [← h.stream_eq, stream, hp, he h0]
    rfl
  · simp [stream, hp, hst]

theorem fill_of_pending_ne (hp : b.pending ≠ []) : fill b = .ok () b := by
  simp [fill, hp, bind, EStateM.bind, get, getThe, MonadStateOf.get, EStateM.get, pure,
    EStateM.pure]

theorem fill_of_pending_nil {bs : Octets} {b' : Buffered ChunkSource} (hp : b.pending = [])
    (hr : pull capacity b = .ok bs b') : fill b = .ok () { b' with pending := bs } := by
  simp [fill, hp, bind, EStateM.bind, get, getThe, MonadStateOf.get, EStateM.get, hr, modify,
    modifyGet, MonadStateOf.modifyGet, EStateM.modifyGet]

theorem take_eq : take n b = .ok (b.pending.take n) { b with pending := b.pending.drop n } := by
  simp [take, bind, EStateM.bind, get, getThe, MonadStateOf.get, EStateM.get, set,
    MonadStateOf.set, EStateM.set, pure, EStateM.pure]

-- A fill never fails on a solid source and keeps the stream; the buffer is left empty only
-- when the stream is.
theorem fill_of_holds (h : b.Holds s) :
    ∃ b', fill b = .ok () b' ∧ b'.Holds s ∧ (b'.pending = [] → s = []) := by
  by_cases hp : b.pending = []
  · have ⟨bs, b', hr, hp', hrd, h'⟩ := pull_of_holds hp h (show 0 < capacity by simp [capacity])
    refine ⟨_, fill_of_pending_nil hp hr, ⟨h'.solid, ?_⟩, hrd.eof⟩
    have ⟨t, ht⟩ := hrd.isPrefix
    have hs := h'.stream_eq
    simp only [stream, hp', List.nil_append] at hs
    simp only [stream, hs, ← ht, List.drop_left]
  · exact ⟨b, fill_of_pending_ne hp, h, fun h' => absurd h' hp⟩

theorem read_of_holds (h : b.Holds s) (hn : 0 < n) :
    ∃ bs b', read n b = .ok bs b' ∧ ReadOf n s bs ∧ b'.Holds (s.drop bs.length) := by
  by_cases hb : b.pending = [] ∧ capacity ≤ n
  · have ⟨bs, b', hr, _, hrd, h'⟩ := pull_of_holds hb.1 h hn
    refine ⟨bs, b', ?_, hrd, h'⟩
    simp [read, hb.1, hb.2, bind, EStateM.bind, get, getThe, MonadStateOf.get, EStateM.get, hr]
  · -- the read is served from the buffer, after a fill
    have ⟨b₁, hf, h₁, hend⟩ := fill_of_holds h
    have hs : b₁.pending ++ b₁.inner.bytes = s := h₁.stream_eq
    refine ⟨b₁.pending.take n, { b₁ with pending := b₁.pending.drop n }, ?_,
      ⟨?_, List.length_take_le _ _, fun h0 => ?_⟩, ⟨h₁.solid, ?_⟩⟩
    · have hb' : (b.pending.isEmpty && decide (capacity ≤ n)) = false := by
        simpa [List.isEmpty_iff] using hb
      simp [read, hb', bind, EStateM.bind, get, getThe, MonadStateOf.get, EStateM.get, hf, take_eq]
    · rw [← hs]
      exact (List.take_prefix n _).trans (List.prefix_append _ _)
    · cases List.take_eq_nil_iff.mp h0
      case inl h0 => omega
      case inr h0 => exact hend h0
    · rw [stream, ← hs, List.length_take, List.drop_append]
      cases Nat.le_total n b₁.pending.length
      case inl hl => simp [Nat.min_eq_left hl, Nat.sub_eq_zero_of_le hl]
      case inr hl => simp [Nat.min_eq_right hl, List.drop_eq_nil_of_le hl]

-- Reading until `want` bytes have arrived takes exactly the next `want` bytes of the stream,
-- however the reads are cut.
theorem readFullFrom_of_holds (acc : List Octets) (want : Nat) :
    ∀ {b : Buffered ChunkSource} {s : Octets}, b.Holds s →
      ∃ b', readFullFrom acc want b = .ok (acc.reverse.flatten ++ s.take want) b' ∧
        b'.Holds (s.drop want) := by
  induction acc, want using readFullFrom.induct with
  | case1 acc =>
    intro b s h
    exact ⟨b, by simp [readFullFrom, pure, EStateM.pure], by simpa using h⟩
  | case2 acc want hw ih =>
    intro b s h
    have ⟨got, b₁, hr, hrd, h₁⟩ := read_of_holds h (Nat.pos_of_ne_zero hw)
    by_cases hg : got.length = 0
    · -- an empty read only happens at the end of the stream
      have hs : s = [] := hrd.eof (List.eq_nil_of_length_eq_zero hg)
      subst hs
      refine ⟨b₁, ?_, by simpa using h₁⟩
      rw [readFullFrom]
      simp [hw, bind, EStateM.bind, hr, hg, pure, EStateM.pure]
    · have ⟨b', hrec, h'⟩ := ih got hg h₁
      have hle := hrd.length_le
      refine ⟨b', ?_, by simpa [Nat.add_sub_cancel' hle] using h'⟩
      rw [readFullFrom]
      simp only [hw, hg, dite_false, bind, EStateM.bind, hr, hrec]
      have hsplit : s.take want = got ++ (s.drop got.length).take (want - got.length) := by
        conv => lhs; rw [← Nat.add_sub_cancel' hle]
        rw [List.take_add, ← hrd.eq_take]
      simp [hsplit]

theorem readFull_of_holds (h : b.Holds s) :
    ∃ b', readFull n b = .ok (s.take n) b' ∧ b'.Holds (s.drop n) := by
  simpa [readFull] using readFullFrom_of_holds [] n h

theorem readExactOrEof_nil (h : b.Holds []) :
    ∃ b', readExactOrEof n b = .ok none b' ∧ b'.Holds [] := by
  have ⟨b', hr, h'⟩ := readFull_of_holds (n := n) h
  refine ⟨b', ?_, by simpa using h'⟩
  simp [readExactOrEof, bind, EStateM.bind, hr, pure, EStateM.pure]

theorem readExactOrEof_short (h : b.Holds s) (hs : s ≠ []) (hl : s.length < n) :
    ∃ b', readExactOrEof n b = .error (.io (.endedAfter s.length n)) b' ∧ b'.Holds [] := by
  have ⟨b', hr, h'⟩ := readFull_of_holds (n := n) h
  refine ⟨b', ?_, by simpa [List.drop_eq_nil_of_le (Nat.le_of_lt hl)] using h'⟩
  simp only [readExactOrEof, bind, EStateM.bind, hr, List.take_of_length_le (Nat.le_of_lt hl),
    List.isEmpty_iff, if_neg hs, hl, if_true]
  rfl

theorem readExactOrEof_full (h : b.Holds s) (hn : 0 < n) (hl : n ≤ s.length) :
    ∃ b', readExactOrEof n b = .ok (some (s.take n)) b' ∧ b'.Holds (s.drop n) := by
  have ⟨b', hr, h'⟩ := readFull_of_holds (n := n) h
  refine ⟨b', ?_, h'⟩
  have hne : s.take n ≠ [] := by
    intro h0
    cases List.take_eq_nil_iff.mp h0
    case inl h0 => omega
    case inr h0 => simp [h0] at hl; omega
  simp [readExactOrEof, bind, EStateM.bind, hr, hne, List.length_take, Nat.min_eq_left hl, pure,
    EStateM.pure]

end Buffered

namespace Framing

variable {σ φ α : Type} {m : EStateM Fault (Buffered σ) α} {f : Framing σ φ} {b' : Buffered σ}

@[simp] theorem markBroken_apply {n : Nat} :
    markBroken n f = .ok () { f with broken := f.broken + n } := rfl

@[simp] theorem setHeader_apply {h : Octets} : setHeader h f = .ok () { f with header := h } := rfl

@[simp] theorem appendHeader_apply {bs : Octets} :
    appendHeader bs f = .ok () { f with header := f.header ++ bs } := rfl

@[simp] theorem getOwn_apply : getOwn f = .ok f.own f := rfl

@[simp] theorem setOwn_apply {p : φ} : setOwn p f = .ok () { f with own := p } := rfl

theorem onSource_of_ok {a : α} (h : m f.source = .ok a b') :
    onSource m f = .ok a { f with source := b' } := by
  simp [onSource, h]

theorem onSource_of_error {e : Fault} (h : m f.source = .error e b') :
    onSource m f = .error e { f with source := b' } := by
  simp [onSource, h]

end Framing

end MediaRelay
