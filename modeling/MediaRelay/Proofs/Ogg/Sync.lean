import Mathlib
import MediaRelay.Proofs.Ogg.Units
import MediaRelay.Proofs.Requests
import MediaRelay.Proofs.BufferedReads

-- The page search loop ends, and its buffer stays small. Every search that drops bytes drops at
-- least one from the front, so searches on a buffer that gets no new input drop bytes only
-- finitely often before they find a page or ask for more (`skips_settle`); between two reads
-- from the source the loop makes at most one search more than its buffer has bytes. A search
-- asks for more only while the buffer is shorter than the longest page, 27 + 255 + 255 * 255
-- bytes, and a read adds at most 4096, so the buffer never holds more than 65306 + 4096 bytes.

namespace MediaRelay

namespace Ogg

section Skips

theorem skipToCapture_snd (buf : Octets) (k : Nat) : ∃ j, (skipToCapture buf k).2 = buf.drop j := by
  unfold skipToCapture
  split
  · split
    · exact ⟨0, rfl⟩
    · exact ⟨_, rfl⟩
  · exact ⟨_, rfl⟩

-- A search that drops bytes drops at least one, from the front.
theorem search_skipped_drop {X Y : Octets} (h : search X = .skipped Y) :
    ∃ k, 0 < k ∧ Y = X.drop k := by
  have hlt := search_skipped_lt h
  rw [search_eq] at h
  obtain ⟨j, hj⟩ : ∃ j, Y = X.drop j := by
    split_ifs at h <;> cases h <;>
      first | exact skipToCapture_snd X 0 | exact skipToCapture_snd X 1
  refine ⟨j, Nat.pos_of_ne_zero fun h0 => ?_, hj⟩
  subst h0
  simp [hj] at hlt

-- What `k` searches that each drop bytes leave of a buffer; nothing when one of them does not drop
-- bytes.
def skipRun : Nat → Octets → Option Octets
  | 0, buf => some buf
  | k + 1, buf =>
    match search buf with
    | .skipped rest => skipRun k rest
    | _ => none

-- Searches on a buffer that gets no new input drop bytes at most as many times as it has bytes,
-- and then find a page or ask for more.
theorem skips_settle (buf : Octets) :
    ∃ k ≤ buf.length, ∃ rest, skipRun k buf = some rest ∧ ∀ r, search rest ≠ .skipped r := by
  induction h : buf.length using Nat.strong_induction_on generalizing buf with
  | _ n ih =>
    cases hs : search buf with
    | skipped rest =>
      have hlt := search_skipped_lt hs
      obtain ⟨k, hk, rest', hrun, hend⟩ := ih rest.length (h ▸ hlt) rest rfl
      exact ⟨k + 1, by omega, rest', by simp [skipRun, hs, hrun], hend⟩
    | page p rest => exact ⟨0, by omega, buf, rfl, by simp [hs]⟩
    | incomplete => exact ⟨0, by omega, buf, rfl, by simp [hs]⟩

end Skips

section Bound

theorem bodyLength_le (lacing : Octets) : bodyLength lacing ≤ 255 * lacing.length := by
  induction lacing with
  | nil => simp [bodyLength]
  | cons b rest ih =>
    have hb : b.toNat < 256 := b.toNat_lt
    simp only [bodyLength, List.foldr_cons, List.length_cons] at ih ⊢
    omega

-- The longest a page can claim to be: the fixed header, 255 lacing values, and 255 bytes of body
-- for each.
theorem pageLength_le (buf : Octets) : pageLength buf ≤ 27 + 255 + 255 * 255 := by
  rw [pageLength, show pageHeaderSize = 27 from rfl]
  have hs : (buf.getD 26 0).toNat < 256 := (buf.getD 26 0).toNat_lt
  have hb := bodyLength_le (Octets.slice buf 27 (buf.getD 26 0).toNat)
  have hl : (Octets.slice buf 27 (buf.getD 26 0).toNat).length ≤ 255 := by
    simp only [Octets.slice, List.length_take]
    omega
  have hm : 255 * (Octets.slice buf 27 (buf.getD 26 0).toNat).length ≤ 255 * 255 :=
    Nat.mul_le_mul_left 255 hl
  omega

-- A search asks for more bytes only while the buffer is shorter than the longest page.
theorem search_incomplete_lt {buf : Octets} (h : search buf = .incomplete) :
    buf.length < 27 + 255 + 255 * 255 := by
  have hp := pageLength_le buf
  rw [search_eq] at h
  split_ifs at h <;> (try cases h) <;> omega

end Bound

section Loop

variable {σ : Type} [ByteSource σ]

theorem nextPageWithin_read_error {f : Framing σ Demux} {fuel : Nat} {e : Fault} {b' : Buffered σ}
    (h : search f.own.sync = .incomplete) (hr : Buffered.read readChunk f.source = .error e b') :
    nextPageWithin (fuel + 1) f = .error e { f with source := b' } := by
  simp only [nextPageWithin, bind, EStateM.bind, Framing.getOwn_apply, h]
  rw [Framing.onSource_of_error hr]

-- The state after searches that dropped bytes down to `rest`: the first drop starts a stretch
-- of dropped bytes, which is counted once.
def afterSkips (f : Framing σ Demux) (k : Nat) (rest : Octets) : Framing σ Demux :=
  if k = 0 then f
  else
    { f with
      own := { f.own with sync := rest, resyncing := true }
      broken := f.broken + (if f.own.resyncing then 0 else 1) }

-- Searches that drop bytes take one round each and read nothing.
theorem nextPageWithin_skipRun {k : Nat} :
    ∀ {f : Framing σ Demux} {rest : Octets}, skipRun k f.own.sync = some rest →
      ∀ fuel, nextPageWithin (fuel + k) f = nextPageWithin fuel (afterSkips f k rest) := by
  induction k with
  | zero =>
    intro f rest _ fuel
    simp [afterSkips]
  | succ k ih =>
    intro f rest h fuel
    cases hs : search f.own.sync with
    | skipped r =>
      rw [skipRun, hs] at h
      rw [← Nat.add_assoc, nextPageWithin_skipped hs, ih h fuel]
      -- the stretch is counted at the first drop, and the later drops are part of it
      cases k with
      | zero =>
        obtain rfl : r = rest := by simpa [skipRun] using h
        simp [afterSkips]
      | succ k => simp [afterSkips]
    | page p r => simp [skipRun, hs] at h
    | incomplete => simp [skipRun, hs] at h

end Loop

section Rounds

theorem remaining_eq_length_stream (b : Buffered ChunkSource) : b.remaining = b.stream.length := by
  simp [Buffered.remaining, Buffered.stream, ByteSource.remaining, ChunkSource.size,
    ChunkSource.bytes, ChunkSource.lengthOf_eq]

-- A round whose search asks for more reads once from the source: the read ends the search, by
-- returning nothing or failing, or moves a few bytes, in order, from the source to the buffer.
theorem incomplete_round {f : Framing ChunkSource Demux} (h : search f.own.sync = .incomplete) :
    ∃ b' : Buffered ChunkSource,
      (∀ fuel, nextPageWithin (fuel + 1) f = .ok none { f with source := b' }) ∨
      (∀ fuel, nextPageWithin (fuel + 1) f = .error (.io .reset) { f with source := b' }) ∨
      ∃ bs : Octets, bs ≠ [] ∧ bs.length ≤ readChunk ∧ f.source.stream = bs ++ b'.stream ∧
        ∀ fuel, nextPageWithin (fuel + 1) f =
          nextPageWithin fuel { f with source := b', own := { f.own with sync := f.own.sync ++ bs } } := by
  obtain ⟨r, b', hr, ht⟩ := Buffered.read_takes f.source readChunk
  refine ⟨b', ?_⟩
  obtain ⟨bs, rfl, hms, hle, -⟩ | ⟨rfl, -⟩ | ⟨rfl, -⟩ := ht.inv
  · have hr' : Buffered.read readChunk f.source = .ok bs b' := hr
    by_cases hbs : bs = []
    · exact .inl fun fuel => by rw [nextPageWithin_incomplete h hr', if_pos hbs]
    · have hstream : f.source.stream = bs ++ b'.stream := by
        rw [← Buffered.bytesIn_marks, ← Buffered.bytesIn_marks, hms]
        simp
      exact .inr (.inr ⟨bs, hbs, hle, hstream,
        fun fuel => by rw [nextPageWithin_incomplete h hr', if_neg hbs]⟩)
  · have hr' : Buffered.read readChunk f.source = .ok [] b' := hr
    exact .inl fun fuel => by rw [nextPageWithin_incomplete h hr', if_pos rfl]
  · have hr' : Buffered.read readChunk f.source = .error (.io .reset) b' := hr
    exact .inr (.inl fun fuel => nextPageWithin_read_error h hr')

-- The page search never runs out of rounds: `pageFuel` rounds are enough, and more change
-- nothing. Each round drops a byte of the buffer, or moves bytes from the source into it, or
-- ends the search.
theorem nextPageWithin_enough (fuel : Nat) :
    ∀ {fuel' : Nat} {f : Framing ChunkSource Demux}, pageFuel f ≤ fuel → pageFuel f ≤ fuel' →
      nextPageWithin fuel f = nextPageWithin fuel' f := by
  induction fuel with
  | zero => intro _ _ h; simp [pageFuel] at h
  | succ m ih =>
    intro fuel' f h h'
    obtain ⟨m', rfl⟩ : ∃ m', fuel' = m' + 1 := ⟨fuel' - 1, by simp [pageFuel] at h'; omega⟩
    cases hs : search f.own.sync with
    | page p rest => rw [nextPageWithin_page hs, nextPageWithin_page hs]
    | skipped rest =>
      have hlt := search_skipped_lt hs
      rw [nextPageWithin_skipped hs, nextPageWithin_skipped hs]
      exact ih (by simp [pageFuel] at h ⊢; omega) (by simp [pageFuel] at h' ⊢; omega)
    | incomplete =>
      obtain ⟨b', hend | hend | ⟨bs, hbs, -, hstream, hmore⟩⟩ := incomplete_round hs
      · rw [hend, hend]
      · rw [hend, hend]
      · -- the bytes read leave the source for the buffer, which the measure counts once
        have hlen : f.source.remaining = bs.length + b'.remaining := by
          rw [remaining_eq_length_stream, remaining_eq_length_stream, hstream, List.length_append]
        have hpos := List.length_pos_of_ne_nil hbs
        rw [hmore, hmore]
        exact ih (by simp [pageFuel] at h ⊢; omega) (by simp [pageFuel] at h' ⊢; omega)

end Rounds

section Bounded

-- The search buffer holds at most 65306 + 4096 bytes: one byte short of the longest page, and one
-- read more.
def SyncBounded {σ : Type} (f : Framing σ Demux) : Prop :=
  f.own.sync.length ≤ 65306 + 4096

-- A step of the framer leaves the search buffer bounded, whether it succeeds or fails.
def KeepsBounded {α : Type} (m : EStateM Fault (Framing ChunkSource Demux) α) : Prop :=
  ∀ f, SyncBounded f →
    match m f with
    | .ok _ f' => SyncBounded f'
    | .error _ f' => SyncBounded f'

theorem KeepsBounded.bind {α β : Type} {m : EStateM Fault (Framing ChunkSource Demux) α}
    {k : α → EStateM Fault (Framing ChunkSource Demux) β} (hm : KeepsBounded m)
    (hk : ∀ a, KeepsBounded (k a)) : KeepsBounded (m >>= k) := by
  intro f hf
  have h := hm f hf
  cases hmf : m f with
  | ok a f' =>
    rw [hmf] at h
    rw [EStateM.bind_of_ok hmf]
    exact hk a f' h
  | error e f' =>
    rw [hmf] at h
    rw [EStateM.bind_of_error hmf]
    exact h

theorem keepsBounded_pure {α : Type} (a : α) :
    KeepsBounded (pure a : EStateM Fault (Framing ChunkSource Demux) α) :=
  fun _ hf => hf

theorem keepsBounded_get : KeepsBounded (get : EStateM Fault (Framing ChunkSource Demux) _) :=
  fun _ hf => hf

theorem keepsBounded_onSource {α : Type} (m : EStateM Fault (Buffered ChunkSource) α) :
    KeepsBounded (Framing.onSource m : EStateM Fault (Framing ChunkSource Demux) α) := by
  intro f hf
  unfold Framing.onSource
  cases m f.source <;> exact hf

-- The search buffer grows only after a search that asked for more, so while it is shorter than
-- the longest page, and then by one read of at most 4096 bytes.
theorem keepsBounded_nextPageWithin (fuel : Nat) :
    KeepsBounded (nextPageWithin fuel : EStateM Fault (Framing ChunkSource Demux) _) := by
  induction fuel with
  | zero => exact keepsBounded_pure none
  | succ fuel ih =>
    intro f hf
    cases hs : search f.own.sync with
    | page p rest =>
      rw [nextPageWithin_page hs]
      have hsplit := (search_page_split hs).1
      have hlen : rest.length ≤ f.own.sync.length := by rw [hsplit]; simp
      exact le_trans hlen hf
    | skipped rest =>
      rw [nextPageWithin_skipped hs]
      exact ih _ (le_trans (le_of_lt (search_skipped_lt hs)) hf)
    | incomplete =>
      have hshort := search_incomplete_lt hs
      obtain ⟨b', hend | hend | ⟨bs, -, hle, -, hmore⟩⟩ := incomplete_round hs
      · rw [hend]
        exact hf
      · rw [hend]
        exact hf
      · rw [hmore]
        refine ih _ ?_
        simp only [SyncBounded, List.length_append]
        simp only [readChunk] at hle
        omega

theorem keepsBounded_nextPage :
    KeepsBounded (nextPage : EStateM Fault (Framing ChunkSource Demux) _) := by
  intro f hf
  exact keepsBounded_nextPageWithin (pageFuel f) f hf

theorem keepsBounded_joinContinued (fuel : Nat) :
    ∀ (unit : Octets) (ended : List Nat),
      KeepsBounded (joinContinued fuel unit ended : EStateM Fault (Framing ChunkSource Demux) _) := by
  induction fuel with
  | zero => intro unit ended; exact keepsBounded_pure _
  | succ fuel ih =>
    intro unit ended
    unfold joinContinued
    refine KeepsBounded.bind keepsBounded_nextPage fun o => ?_
    rcases o with _ | p
    · exact keepsBounded_pure _
    · dsimp only
      split
      · exact ih _ _
      · exact keepsBounded_pure _

theorem keepsBounded_beginStream (p : Page) :
    KeepsBounded (beginStream p : EStateM Fault (Framing ChunkSource Demux) _) := by
  intro f hf
  rw [beginStream_apply]
  exact hf

theorem keepsBounded_dataUnit (first : Page) :
    KeepsBounded (dataUnit first : EStateM Fault (Framing ChunkSource Demux) _) := by
  unfold dataUnit
  dsimp only
  -- after the pages are cut, recording the unit touches the stream table and the header only
  split
  · refine KeepsBounded.bind keepsBounded_get fun _ =>
      KeepsBounded.bind (keepsBounded_joinContinued _ _ _) fun ⟨unit, ended⟩ f hf => ?_
    rw [recordData_eq]
    exact hf
  · refine KeepsBounded.bind (keepsBounded_pure _) fun ⟨unit, ended⟩ f hf => ?_
    rw [recordData_eq]
    exact hf

theorem keepsBounded_nextUnit :
    KeepsBounded (nextUnit : EStateM Fault (Framing ChunkSource Demux) _) := by
  unfold nextUnit
  refine KeepsBounded.bind keepsBounded_nextPage fun o => ?_
  rcases o with _ | p
  · exact keepsBounded_pure _
  · dsimp only
    split
    · exact keepsBounded_beginStream p
    · exact keepsBounded_dataUnit p

end Bounded

end Ogg

namespace Reader

inductive Reachable {σ : Type} [ByteSource σ] (k : MediaKind) (r₀ : Reader σ k) : Reader σ k → Prop
  | start : Reachable k r₀ r₀
  | step {r : Reader σ k} (st : Step) : Reachable k r₀ r → Reachable k r₀ (report k st r).2

end Reader

namespace Ogg

theorem keepsBounded_step (st : Reader.Step) :
    KeepsBounded (Reader.step .theora st : EStateM Fault (Framing ChunkSource Demux) _) := by
  cases st with
  | next => exact KeepsBounded.bind keepsBounded_nextUnit fun _ => keepsBounded_pure _
  | poll => exact KeepsBounded.bind (keepsBounded_onSource _) fun _ => keepsBounded_pure _

-- Every reader that requests lead to from the start holds at most 65306 + 4096 bytes in its
-- search buffer.
theorem reachable_syncBounded {cs : List Chunk} {r : Reader ChunkSource .theora}
    (h : Reader.Reachable .theora (Reader.start .theora ⟨cs⟩) r) : SyncBounded r := by
  induction h with
  | start => simp [SyncBounded, Reader.start, MediaKind.startProgress]
  | step st _ ih =>
    have hk := keepsBounded_step st _ ih
    unfold Reader.report
    split <;> simp_all

theorem nextPage_eq_nextPageWithin {f : Framing ChunkSource Demux} {fuel : Nat}
    (h : pageFuel f ≤ fuel) : nextPageWithin fuel f = nextPage f :=
  nextPageWithin_enough fuel h le_rfl

-- The page search ends and its buffer stays bounded. A search that drops bytes drops at least one,
-- from the front; so searches on a buffer that gets no new input drop bytes at most as many times
-- as it has bytes, and then find a page or ask for more. Between two reads from the source the
-- search loop therefore makes those searches and one more: after them it returns a page or reads.
-- The loop never runs out of the rounds it is given. A search asks for more bytes only while the
-- buffer holds fewer than 27 + 255 + 255 * 255 bytes, so, a read adding at most 4096, no reader
-- that requests lead to from the start ever holds more than 65306 + 4096.
theorem page_search_ends_with_bounded_buffer :
    (∀ buf rest : Octets, search buf = .skipped rest → ∃ k, 0 < k ∧ rest = buf.drop k) ∧
    (∀ buf : Octets, ∃ k ≤ buf.length, ∃ rest,
        skipRun k buf = some rest ∧ ∀ r, search rest ≠ .skipped r) ∧
    (∀ f : Framing ChunkSource Demux, ∃ k ≤ f.own.sync.length, ∃ rest,
        skipRun k f.own.sync = some rest ∧ (∀ r, search rest ≠ .skipped r) ∧
        ∀ fuel, nextPageWithin (fuel + k) f = nextPageWithin fuel (afterSkips f k rest)) ∧
    (∀ (f : Framing ChunkSource Demux) (fuel : Nat), pageFuel f ≤ fuel →
        nextPageWithin fuel f = nextPage f) ∧
    (∀ buf : Octets, search buf = .incomplete → buf.length < 27 + 255 + 255 * 255) ∧
    (∀ (cs : List Chunk) (r : Reader ChunkSource .theora),
        Reader.Reachable .theora (Reader.start .theora ⟨cs⟩) r → r.own.sync.length ≤ 65306 + 4096) := by
  refine ⟨fun _ _ => search_skipped_drop, skips_settle, fun f => ?_,
    fun _ _ => nextPage_eq_nextPageWithin, fun _ => search_incomplete_lt,
    fun _ _ => reachable_syncBounded⟩
  obtain ⟨k, hk, rest, hrun, hend⟩ := skips_settle f.own.sync
  exact ⟨k, hk, rest, hrun, hend, nextPageWithin_skipRun hrun⟩

end Ogg

end MediaRelay
