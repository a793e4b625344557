import Mathlib
import MediaRelay.Proofs.Ogg.Pages

-- Units of an Ogg stream, read through a solid source. The next unit depends only on the
-- upcoming scan steps: a BOS page alone, or a page with the pages joined to it. What the unit
-- does to the stream table and the published header is a function of its pages and of the
-- table and header before it (`recordUnit`).

namespace MediaRelay

namespace Ogg

-- A link of the chain is over once every stream in it has ended.
def linkEnded (t : StreamTable) : Bool := !t.isEmpty && t.allEnded

-- What a BOS page does to the stream table and the header.
def bosRecord (p : Page) (t : StreamTable) (h : Octets) : StreamTable × Octets :=
  let t₀ : StreamTable := if linkEnded t then [] else t
  let t₁ := t₀.put p.serial {}
  (if p.isEos then t₁.markEnded p.serial else t₁, (if linkEnded t then [] else h) ++ p.bytes)

-- What a unit of data that starts with a page of the stream `first` does to the stream table
-- and the header, when the pages in it end the streams `ended`.
def dataRecord (first : Page) (unit : Octets) (ended : List Nat) (t : StreamTable) (h : Octets) :
    StreamTable × Octets :=
  let s := t.find first.serial
  if s.captured then (ended.foldl StreamTable.markEnded t, h)
  else (ended.foldl StreamTable.markEnded (t.put first.serial { s with captured := true }), h ++ unit)

section Records

variable {σ : Type}

theorem beginStream_apply (p : Page) (f : Framing σ Demux) :
    beginStream p f = .ok p.bytes { f with
      own := { f.own with streams := (bosRecord p f.own.streams f.header).1 }
      header := (bosRecord p f.own.streams f.header).2 } := by
  have hcond : (!f.own.streams.isEmpty && f.own.streams.allEnded) = linkEnded f.own.streams := rfl
  unfold beginStream
  simp only [bind, EStateM.bind, Framing.getOwn_apply, hcond]
  cases hl : linkEnded f.own.streams <;> cases he : p.isEos <;>
    simp [modifyStreams, bind, EStateM.bind, bosRecord, hl, he, pure, EStateM.pure]

end Records

-- The framing after a unit of data is recorded in the stream table and the header.
def recordData {σ : Type} (p : Page) (unit : Octets) (ended : List Nat)
    (f : Framing σ Demux) : Framing σ Demux :=
  { f with
    own := { f.own with streams := (dataRecord p unit ended f.own.streams f.header).1 }
    header := (dataRecord p unit ended f.own.streams f.header).2 }

-- Once the pages of a unit of data are cut, the unit is recorded and returned.
theorem recordData_eq {σ : Type} [ByteSource σ] (p : Page) (unit : Octets) (ended : List Nat)
    (f : Framing σ Demux) :
    (do
      let d ← Framing.getOwn
      let s := d.streams.find p.serial
      if !s.captured then
        modifyStreams fun t => t.put p.serial { s with captured := true }
        Framing.appendHeader unit
      modifyStreams fun t => ended.foldl StreamTable.markEnded t
      return unit : EStateM Fault (Framing σ Demux) Octets) f = .ok unit (recordData p unit ended f) := by
  cases hcap : (f.own.streams.find p.serial).captured <;>
    simp [recordData, dataRecord, hcap, modifyStreams, bind, EStateM.bind, pure, EStateM.pure]

-- A unit of data, after the page `p` that starts it: its pages, and the steps after it.
theorem dataUnit_tracks {f : Framing ChunkSource Demux} {F : List ScanStep} (hF : Tracks f F)
    (p : Page) :
    ∃ f₂, dataUnit p f = .ok ((joinFound (.page p :: F)).1.flatMap Page.bytes)
        (recordData p ((joinFound (.page p :: F)).1.flatMap Page.bytes)
          (endedOf (joinFound (.page p :: F)).1) f₂) ∧
      Searched F (joinFound (.page p :: F)).2 f f₂ := by
  by_cases hc : p.isContinued
  · have hfuel := length_pagesOf_le hF
    obtain ⟨f₂, hjoin, hs⟩ := joinContinued_tracks (f.own.sync.length + f.source.remaining + 1)
      p.bytes (if p.isEos then [p.serial] else []) hF (by omega)
    refine ⟨f₂, ?_, by simpa [joinFound, hc] using hs⟩
    have hu : (joinFound (.page p :: F)).1.flatMap Page.bytes = p.bytes ++ (joinFound F).1.flatMap Page.bytes := by
      simp [joinFound, hc]
    have he : endedOf (joinFound (.page p :: F)).1 = (if p.isEos then [p.serial] else []) ++ endedOf (joinFound F).1 := by
      cases hb : p.isEos <;> simp [joinFound, hc, endedOf, hb]
    rw [hu, he, ← recordData_eq]
    simp only [dataUnit, hc, if_true, bind, EStateM.bind, get, getThe, MonadStateOf.get, EStateM.get, hjoin]
  · refine ⟨f, ?_, by simpa [joinFound, hc] using (⟨hF, rfl, rfl, rfl⟩ : Searched F F f f)⟩
    have hu : (joinFound (.page p :: F)).1.flatMap Page.bytes = p.bytes := by simp [joinFound, hc]
    have he : endedOf (joinFound (.page p :: F)).1 = if p.isEos then [p.serial] else [] := by
      cases hb : p.isEos <;> simp [joinFound, hc, endedOf, hb]
    rw [hu, he, ← recordData_eq]
    simp only [dataUnit, hc, Bool.false_eq_true, if_false, bind, EStateM.bind, pure, EStateM.pure]

-- The pages of the next unit, and the steps after it: a BOS page alone, or a unit of data.
def cutUnit (F : List ScanStep) : List Page × List ScanStep :=
  match nextFound F with
  | (none, _) => ([], [])
  | (some p, F₁) => if p.isBos then ([p], F₁) else joinFound (.page p :: F₁)

-- What a unit does to the stream table and the header.
def recordUnit : List Page → StreamTable × Octets → StreamTable × Octets
  | [], th => th
  | p :: ps, (t, h) =>
    if p.isBos then bosRecord p t h
    else dataRecord p ((p :: ps).flatMap Page.bytes) (endedOf (p :: ps)) t h

-- A call for the next unit from `f`, at `F`, ends in `f'`.
structure UnitStep (F : List ScanStep) (f f' : Framing ChunkSource Demux) : Prop where
  tracks : Tracks f' (cutUnit F).2
  broken_eq : f'.broken + lostRuns (cutUnit F).2 = f.broken + lostRuns F
  record_eq : (f'.own.streams, f'.header) = recordUnit (cutUnit F).1 (f.own.streams, f.header)

theorem joinFound_page_fst (p : Page) (F : List ScanStep) :
    ∃ ps, (joinFound (.page p :: F)).1 = p :: ps := by
  by_cases hc : p.isContinued
  · exact ⟨(joinFound F).1, by simp [joinFound, hc]⟩
  · exact ⟨[], by simp [joinFound, hc]⟩

theorem UnitStep.of_cut {F F' : List ScanStep} {ps : List Page} {f f' : Framing ChunkSource Demux}
    (hcut : cutUnit F = (ps, F')) (ht : Tracks f' F')
    (hb : f'.broken + lostRuns F' = f.broken + lostRuns F)
    (hr : (f'.own.streams, f'.header) = recordUnit ps (f.own.streams, f.header)) :
    UnitStep F f f' := by
  constructor <;> rw [hcut] <;> assumption

-- The next unit is cut from the scan, whatever the chunks and however far the buffer has got.
theorem nextUnit_tracks {f : Framing ChunkSource Demux} {F : List ScanStep} (h : Tracks f F) :
    ∃ f', nextUnit f = .ok ((cutUnit F).1.flatMap Page.bytes) f' ∧ UnitStep F f f' := by
  obtain ⟨f₁, hrun, hround⟩ := nextPage_tracks h
  have hs := hround.searched
  cases hn : nextFound F with
  | mk q F₁ =>
    rw [hn] at hrun hs
    cases q with
    | none =>
      obtain ⟨hF₁, _⟩ := nextFound_of_none hn
      subst hF₁
      have hcut : cutUnit F = ([], []) := by simp [cutUnit, hn]
      refine ⟨f₁, ?_, ?_⟩
      · simp [nextUnit, bind, EStateM.bind, hrun, hcut, pure, EStateM.pure]
      · exact UnitStep.of_cut hcut hs.tracks hs.broken_eq
          (by simp [recordUnit, hs.streams_eq, hs.header_eq])
    | some p =>
      by_cases hb : p.isBos
      · have hcut : cutUnit F = ([p], F₁) := by simp [cutUnit, hn, hb]
        refine ⟨{ f₁ with
          own := { f₁.own with streams := (bosRecord p f₁.own.streams f₁.header).1 }
          header := (bosRecord p f₁.own.streams f₁.header).2 }, ?_, ?_⟩
        · simp only [nextUnit, bind, EStateM.bind, hrun, hb, if_true, hcut]
          rw [beginStream_apply]
          simp
        · exact UnitStep.of_cut hcut hs.tracks hs.broken_eq
            (by simp [recordUnit, hb, hs.streams_eq, hs.header_eq])
      · have hcut : cutUnit F = ((joinFound (.page p :: F₁)).1, (joinFound (.page p :: F₁)).2) := by
          simp [cutUnit, hn, hb]
        obtain ⟨f₂, hdata, hs'⟩ := dataUnit_tracks hs.tracks p
        obtain ⟨ps, hps⟩ := joinFound_page_fst p F₁
        refine ⟨recordData p ((joinFound (.page p :: F₁)).1.flatMap Page.bytes)
          (endedOf (joinFound (.page p :: F₁)).1) f₂, ?_, ?_⟩
        · simp only [nextUnit, bind, EStateM.bind, hrun, hb, Bool.false_eq_true, if_false, hcut]
          exact hdata
        · refine UnitStep.of_cut hcut hs'.tracks (by rw [← hs.broken_eq, ← hs'.broken_eq]; rfl) ?_
          have hrec : recordUnit (joinFound (.page p :: F₁)).1 (f.own.streams, f.header) =
              dataRecord p ((joinFound (.page p :: F₁)).1.flatMap Page.bytes)
                (endedOf (joinFound (.page p :: F₁)).1) f.own.streams f.header := by
            rw [hps]
            simp only [recordUnit, hb, Bool.false_eq_true, if_false]
          rw [hrec, ← hs.streams_eq, ← hs.header_eq, ← hs'.streams_eq, ← hs'.header_eq]
          rfl

end Ogg

end MediaRelay
