import Mathlib
import MediaRelay.Media.Ogg.Streams
import MediaRelay.Proofs.Ogg.Scan

-- The Ogg framer's page search, read through a solid source, reports what the scan of the bytes
-- it has still to search reports: the framer's state is summed up by its upcoming scan steps
-- (`Tracks`), and each page search, however the reads are cut, moves from those steps to the
-- ones after the next page while counting the stretch of dropped bytes before it.

namespace MediaRelay

namespace Ogg

section Rounds

variable {σ : Type} [ByteSource σ] {f : Framing σ Demux} {fuel : Nat}

theorem nextPageWithin_page {p : Page} {rest : Octets} (h : search f.own.sync = .page p rest) :
    nextPageWithin (fuel + 1) f =
      .ok (some p) { f with own := { f.own with sync := rest, resyncing := false } } := by
  simp [nextPageWithin, h, bind, EStateM.bind, pure, EStateM.pure]

theorem nextPageWithin_skipped {rest : Octets} (h : search f.own.sync = .skipped rest) :
    nextPageWithin (fuel + 1) f =
      nextPageWithin fuel
        { f with
          own := { f.own with sync := rest, resyncing := true }
          broken := f.broken + (if f.own.resyncing then 0 else 1) } := by
  cases hr : f.own.resyncing <;> simp [nextPageWithin, h, hr, bind, EStateM.bind]

theorem nextPageWithin_incomplete {bs : Octets} {b' : Buffered σ}
    (h : search f.own.sync = .incomplete) (hr : Buffered.read readChunk f.source = .ok bs b') :
    nextPageWithin (fuel + 1) f =
      if bs = [] then .ok none { f with source := b' }
      else nextPageWithin fuel { f with source := b', own := { f.own with sync := f.own.sync ++ bs } } := by
  simp only [nextPageWithin, bind, EStateM.bind, Framing.getOwn_apply, h]
  rw [Framing.onSource_of_ok hr]
  by_cases hbs : bs = []
  · simp [hbs, pure, EStateM.pure]
  · simp [hbs, EStateM.bind]

end Rounds

-- The framer's state `f` is at the upcoming steps `F`.
def Tracks (f : Framing ChunkSource Demux) (F : List ScanStep) : Prop :=
  ∃ M, f.source.Holds M ∧ upcoming (f.own.sync ++ M) f.own.resyncing = F

-- A page search from `f`, at `F`, ends in `f'`: at the steps after the next page, with the
-- stretch of dropped bytes before that page counted, and the streams and header untouched.
structure PageRound (F : List ScanStep) (f f' : Framing ChunkSource Demux) : Prop where
  tracks : Tracks f' (nextFound F).2
  broken_eq : f'.broken = f.broken + lostMark F
  header_eq : f'.header = f.header
  streams_eq : f'.own.streams = f.own.streams

-- The page search follows the scan of everything that is left, however the source is cut: each
-- round drops bytes, which the scan drops too, or moves bytes from the source to the buffer,
-- which leaves what is left unchanged.
theorem nextPageWithin_tracks (fuel : Nat) :
    ∀ {f : Framing ChunkSource Demux} {M : Octets}, f.source.Holds M →
      f.own.sync.length + 2 * M.length + 1 ≤ fuel →
      ∃ f', nextPageWithin fuel f = .ok (nextFound (upcoming (f.own.sync ++ M) f.own.resyncing)).1 f' ∧
        PageRound (upcoming (f.own.sync ++ M) f.own.resyncing) f f' := by
  induction fuel with
  | zero => intro f M _ h; omega
  | succ fuel ih =>
    intro f M hM hfuel
    cases hs : search f.own.sync with
    | page p rest =>
      rw [upcoming_of_page _ hs, nextPageWithin_page hs]
      exact ⟨_, rfl, ⟨⟨M, hM, rfl⟩, by simp [lostMark], rfl, rfl⟩⟩
    | skipped rest =>
      have hlt := search_skipped_lt hs
      obtain ⟨hnext, hmark⟩ := upcoming_of_skipped (M := M) f.own.resyncing hs
      obtain ⟨f', hrun, hround⟩ := ih (f := { f with
          own := { f.own with sync := rest, resyncing := true }
          broken := f.broken + (if f.own.resyncing then 0 else 1) }) hM (by simp; omega)
      refine ⟨f', by rw [nextPageWithin_skipped hs, hnext]; exact hrun,
        ⟨by rw [hnext]; exact hround.tracks, ?_, hround.header_eq, hround.streams_eq⟩⟩
      rw [hround.broken_eq, hmark]
      simp only
      omega
    | incomplete =>
      obtain ⟨bs, b', hread, hro, hM'⟩ := Buffered.read_of_holds (n := readChunk) hM (by decide)
      rw [nextPageWithin_incomplete hs hread]
      by_cases hbs : bs = []
      · have hM0 : M = [] := hro.eof hbs
        subst hM0 hbs
        rw [if_pos rfl, upcoming_of_incomplete _ hs]
        refine ⟨_, rfl, ⟨⟨[], hM', upcoming_of_incomplete _ hs⟩, rfl, rfl, rfl⟩⟩
      · rw [if_neg hbs]
        obtain ⟨t, ht⟩ := hro.isPrefix
        have hdrop : M.drop bs.length = t := by rw [← ht, List.drop_left]
        have hlen : 0 < bs.length := List.length_pos_of_ne_nil hbs
        have hX : f.own.sync ++ bs ++ t = f.own.sync ++ M := by rw [← ht, List.append_assoc]
        have hfuel' : (f.own.sync ++ bs).length + 2 * t.length + 1 ≤ fuel := by
          rw [← ht] at hfuel
          simp at hfuel ⊢
          omega
        rw [hdrop] at hM'
        obtain ⟨f', hrun, hround⟩ := ih (f := { f with
          source := b', own := { f.own with sync := f.own.sync ++ bs } }) hM' hfuel'
        simp only [hX] at hrun hround
        exact ⟨f', hrun, ⟨hround.tracks, hround.broken_eq, hround.header_eq, hround.streams_eq⟩⟩

theorem nextPage_tracks {f : Framing ChunkSource Demux} {F : List ScanStep} (h : Tracks f F) :
    ∃ f', nextPage f = .ok (nextFound F).1 f' ∧ PageRound F f f' := by
  obtain ⟨M, hM, rfl⟩ := h
  have hfuel : pageFuel f = f.own.sync.length + 2 * M.length + 1 := by
    rw [pageFuel, hM.remaining_eq]
  obtain ⟨f', hrun, hround⟩ := nextPageWithin_tracks (pageFuel f) hM (le_of_eq hfuel.symm)
  refine ⟨f', ?_, hround⟩
  simp only [nextPage, bind, EStateM.bind, get, getThe, MonadStateOf.get, EStateM.get]
  exact hrun

-- A search from `f` to `f'` moves from the upcoming steps `F` to `F'`; the stretches of dropped
-- bytes it passes are counted, and the streams and header are untouched.
structure Searched (F F' : List ScanStep) (f f' : Framing ChunkSource Demux) : Prop where
  tracks : Tracks f' F'
  broken_eq : f'.broken + lostRuns F' = f.broken + lostRuns F
  header_eq : f'.header = f.header
  streams_eq : f'.own.streams = f.own.streams

theorem PageRound.searched {F : List ScanStep} {f f' : Framing ChunkSource Demux}
    (h : PageRound F f f') : Searched F (nextFound F).2 f f' := by
  refine ⟨h.tracks, ?_, h.header_eq, h.streams_eq⟩
  rw [h.broken_eq, lostRuns_eq F]
  omega

theorem Searched.trans {F₁ F₂ F₃ : List ScanStep} {f₁ f₂ f₃ : Framing ChunkSource Demux}
    (h₁ : Searched F₁ F₂ f₁ f₂) (h₂ : Searched F₂ F₃ f₂ f₃) : Searched F₁ F₃ f₁ f₃ :=
  ⟨h₂.tracks, by rw [h₂.broken_eq, h₁.broken_eq], h₂.header_eq.trans h₁.header_eq,
    h₂.streams_eq.trans h₁.streams_eq⟩

-- The serial numbers of the pages that end their stream.
def endedOf (ps : List Page) : List Nat :=
  (ps.filter Page.isEos).map Page.serial

-- Joining pages to a unit follows the scan too, given a round for each page left.
theorem joinContinued_tracks (fuel : Nat) :
    ∀ {f : Framing ChunkSource Demux} {F : List ScanStep} (unit : Octets) (ended : List Nat),
      Tracks f F → (pagesOf F).length < fuel →
      ∃ f', joinContinued fuel unit ended f =
          .ok (unit ++ (joinFound F).1.flatMap Page.bytes, ended ++ endedOf (joinFound F).1) f' ∧
        Searched F (joinFound F).2 f f' := by
  induction fuel with
  | zero => intro _ _ _ _ _ h; omega
  | succ fuel ih =>
    intro f F unit ended hF hlen
    obtain ⟨f₁, hrun, hround⟩ := nextPage_tracks hF
    have hs := hround.searched
    cases hn : nextFound F with
    | mk q F₁ =>
      rw [hn] at hrun hs
      cases q with
      | none =>
        obtain ⟨hF₁, _⟩ := nextFound_of_none hn
        subst hF₁
        rw [joinFound_of_none hn]
        refine ⟨f₁, ?_, hs⟩
        simp [joinContinued, bind, EStateM.bind, hrun, pure, EStateM.pure, endedOf]
      | some q =>
        have hpages := pagesOf_of_nextFound hn
        simp only at hs
        rw [joinFound_of_some hn]
        by_cases hc : q.isContinued
        · rw [if_pos hc]
          obtain ⟨f', hrun', hs'⟩ := ih (unit ++ q.bytes)
            (if q.isEos then ended ++ [q.serial] else ended) hs.tracks
            (by rw [hpages] at hlen; simp at hlen; omega)
          refine ⟨f', ?_, hs.trans hs'⟩
          simp only [joinContinued, bind, EStateM.bind, hrun, hc, if_true, hrun']
          cases he : q.isEos <;> simp [endedOf, he]
        · rw [if_neg hc]
          refine ⟨f₁, ?_, hs⟩
          simp only [joinContinued, bind, EStateM.bind, hrun, hc]
          cases he : q.isEos <;> simp [endedOf, he, pure, EStateM.pure]

theorem length_pagesOf_le {f : Framing ChunkSource Demux} {F : List ScanStep} (h : Tracks f F) :
    (pagesOf F).length ≤ f.own.sync.length + f.source.remaining := by
  obtain ⟨M, hM, rfl⟩ := h
  have hX := length_pagesOf_scan (f.own.sync ++ M)
  rw [hM.remaining_eq]
  cases f.own.resyncing <;> simp_all [upcoming, pagesOf_dropSkips]

theorem Tracks.bytes_ne_nil {f : Framing ChunkSource Demux} {F : List ScanStep} (hF : Tracks f F)
    {p : Page} (h : p ∈ pagesOf F) : p.bytes ≠ [] := by
  obtain ⟨M, _, rfl⟩ := hF
  have hmem : p ∈ pagesOf (scan (f.own.sync ++ M)) := by
    by_cases hr : f.own.resyncing <;> simpa [upcoming, hr, pagesOf_dropSkips] using h
  have := length_bytes_of_mem_scan hmem
  intro h0
  simp [h0] at this

end Ogg

end MediaRelay
