import Mathlib
import MediaRelay.Proofs.Ogg.Units
import MediaRelay.Proofs.Requests

-- A whole run of the Ogg framer. Pages are cut into units by the rule of `cutPages`, and a drain
-- of the framer over a solid source returns exactly the units of the scan of the whole stream.

namespace MediaRelay

namespace Ogg

-- How pages are cut into units: a BOS page is a unit of its own; any other page starts a unit,
-- and when it continues a packet, the pages after it are joined to it up to and including the
-- first one that does not continue a packet, or up to the last page. `some acc` is a unit being
-- joined.
def cutPagesFrom : Option (List Page) → List Page → List (List Page)
  | none, [] => []
  | some acc, [] => [acc]
  | none, p :: ps =>
    if p.isBos || !p.isContinued then [p] :: cutPagesFrom none ps else cutPagesFrom (some [p]) ps
  | some acc, q :: qs =>
    if q.isContinued then cutPagesFrom (some (acc ++ [q])) qs else (acc ++ [q]) :: cutPagesFrom none qs

def cutPages (ps : List Page) : List (List Page) := cutPagesFrom none ps

theorem flatten_cutPagesFrom (acc : Option (List Page)) (ps : List Page) :
    (cutPagesFrom acc ps).flatten = acc.getD [] ++ ps := by
  induction ps generalizing acc with
  | nil => cases acc <;> simp [cutPagesFrom]
  | cons p ps ih =>
    cases acc with
    | none =>
      by_cases h : p.isBos || !p.isContinued
      · simp [cutPagesFrom, h, ih]
      · simp only [cutPagesFrom, h, Bool.false_eq_true, if_false, ih]
        simp
    | some acc =>
      by_cases h : p.isContinued
      · simp [cutPagesFrom, h, ih]
      · simp [cutPagesFrom, h, ih]

-- Cutting pages into units loses none and adds none.
theorem flatten_cutPages (ps : List Page) : (cutPages ps).flatten = ps := by
  simpa [cutPages] using flatten_cutPagesFrom none ps

theorem length_cutPagesFrom_le (acc : Option (List Page)) (ps : List Page) :
    (cutPagesFrom acc ps).length ≤ ps.length + (if acc.isSome then 1 else 0) := by
  induction ps generalizing acc with
  | nil => cases acc <;> simp [cutPagesFrom]
  | cons p ps ih =>
    cases acc with
    | none =>
      have h₁ := ih none
      have h₂ := ih (some [p])
      by_cases h : p.isBos || !p.isContinued <;> simp_all [cutPagesFrom]
    | some acc =>
      have h₁ := ih none
      have h₂ := ih (some (acc ++ [p]))
      by_cases h : p.isContinued <;> simp_all [cutPagesFrom] <;> omega

theorem length_cutPages_le (ps : List Page) : (cutPages ps).length ≤ ps.length := by
  simpa [cutPages] using length_cutPagesFrom_le none ps

theorem cutPagesFrom_joinFound (acc : List Page) (F : List ScanStep) :
    cutPagesFrom (some acc) (pagesOf F) =
      (acc ++ (joinFound F).1) :: cutPages (pagesOf (joinFound F).2) := by
  induction F generalizing acc with
  | nil => simp [pagesOf, cutPagesFrom, joinFound, cutPages]
  | cons x F ih =>
    cases x with
    | skip => simpa [pagesOf, joinFound] using ih acc
    | page q =>
      by_cases h : q.isContinued
      · have := ih (acc ++ [q])
        simp_all [pagesOf, joinFound, cutPagesFrom]
      · simp [pagesOf, joinFound, cutPagesFrom, h, cutPages]

theorem cutPages_of_cutUnit {F : List ScanStep} (h : (cutUnit F).1 ≠ []) :
    cutPages (pagesOf F) = (cutUnit F).1 :: cutPages (pagesOf (cutUnit F).2) := by
  cases hn : nextFound F with
  | mk q F₁ =>
    cases q with
    | none => simp [cutUnit, hn] at h
    | some p =>
      rw [pagesOf_of_nextFound hn]
      by_cases hb : p.isBos
      · simp [cutUnit, hn, hb, cutPages, cutPagesFrom]
      · by_cases hc : p.isContinued
        · have := cutPagesFrom_joinFound [p] F₁
          simp [cutUnit, hn, hb, cutPages, cutPagesFrom, hc, joinFound] at this ⊢
          exact this
        · simp [cutUnit, hn, hb, cutPages, cutPagesFrom, hc, joinFound]

theorem cutUnit_of_nil {F : List ScanStep} (h : (cutUnit F).1 = []) :
    pagesOf F = [] ∧ (cutUnit F).2 = [] := by
  cases hn : nextFound F with
  | mk q F₁ =>
    cases q with
    | none =>
      have := nextFound_of_none hn
      simp [cutUnit, hn, this.2]
    | some p =>
      obtain ⟨ps, hps⟩ := joinFound_page_fst p F₁
      by_cases hb : p.isBos <;> simp_all [cutUnit]

-- The stream table and header after a sequence of units.
def recordUnits (us : List (List Page)) (th : StreamTable × Octets) : StreamTable × Octets :=
  us.foldl (fun th u => recordUnit u th) th

theorem nextUnit_theora {r : Reader ChunkSource .theora} : Reader.nextUnit .theora r = nextUnit r :=
  rfl

-- A drain of the Ogg framer cuts the units of the upcoming scan steps, one per request, then
-- reports the end of the stream; by then every stretch of dropped bytes has been counted, and
-- the header is what the units made of it.
theorem drain_tracks (limit : Nat) :
    ∀ {r : Reader ChunkSource .theora} {F : List ScanStep}, Tracks r F →
      (cutPages (pagesOf F)).length < limit →
      (Reader.drain .theora limit r).map Reader.Report.outcome =
          (cutPages (pagesOf F)).map (fun u => .ok (.unit (u.flatMap Page.bytes))) ++ [.ok (.unit [])] ∧
        (Reader.drain .theora limit r).getLast?.map Reader.Report.broken = some (r.broken + lostRuns F) ∧
        (Reader.drain .theora limit r).getLast?.map Reader.Report.header =
          some (recordUnits (cutPages (pagesOf F)) (r.own.streams, r.header)).2 := by
  induction limit with
  | zero => intro r F _ h; omega
  | succ limit ih =>
    intro r F hF hlen
    obtain ⟨f', hrun, hstep⟩ := nextUnit_tracks hF
    rw [← nextUnit_theora] at hrun
    by_cases hu : (cutUnit F).1 = []
    · obtain ⟨hp, h2⟩ := cutUnit_of_nil hu
      have hb := hstep.broken_eq
      have hrec := hstep.record_eq
      rw [h2] at hb
      rw [hu] at hrun hrec
      rw [Reader.drain_of_nil hrun, hp]
      have hb' : f'.broken = r.broken + lostRuns F := by rw [← hb]; rfl
      have hh : f'.header = r.header := congrArg Prod.snd hrec
      simp [cutPages, cutPagesFrom, recordUnits, hb', hh]
    · have hcut := cutPages_of_cutUnit hu
      obtain ⟨p, ps, hpp⟩ := List.exists_cons_of_ne_nil hu
      have hmem : p ∈ pagesOf F := by
        rw [← flatten_cutPages (pagesOf F), hcut, hpp]
        simp
      have hne : (cutUnit F).1.flatMap Page.bytes ≠ [] := by
        rw [hpp]
        simp [hF.bytes_ne_nil hmem]
      rw [Reader.drain_of_ne_nil hne hrun]
      rw [hcut] at hlen
      obtain ⟨ho, hbr, hhd⟩ := ih hstep.tracks (by simp at hlen; omega)
      have hnil : Reader.drain .theora limit f' ≠ [] := by
        intro h0
        simp [h0] at ho
      refine ⟨?_, ?_, ?_⟩
      · rw [hcut, List.map_cons, ho]
        rfl
      · rw [List.getLast?_cons_of_ne_nil hnil, hbr, hstep.broken_eq]
      · rw [List.getLast?_cons_of_ne_nil hnil, hhd, hcut]
        simp only [recordUnits, List.foldl_cons]
        rw [← hstep.record_eq]

theorem tracks_start {cs : List Chunk} (h : ChunkSource.Solid cs) :
    Tracks (Reader.start .theora (ChunkSource.mk cs)) (scan (ChunkSource.bytesOf cs)) :=
  ⟨_, Buffered.holds_start h, rfl⟩

-- A drain from the start with more requests than the stream has bytes: every unit of the scan,
-- then the end, with every stretch of dropped bytes counted and the header of all the units.
theorem drain_start {cs : List Chunk} (hcs : ChunkSource.Solid cs) {limit : Nat}
    (hlim : (ChunkSource.bytesOf cs).length < limit) :
    let s := ChunkSource.bytesOf cs
    let out := Reader.drain .theora limit (Reader.start .theora (ChunkSource.mk cs))
    out.map Reader.Report.outcome =
        (cutPages (pagesOf (scan s))).map (fun u => .ok (.unit (u.flatMap Page.bytes))) ++
          [.ok (.unit [])] ∧
      out.getLast?.map Reader.Report.broken = some (lostRuns (scan s)) ∧
      out.getLast?.map Reader.Report.header = some (recordUnits (cutPages (pagesOf (scan s))) ([], [])).2 := by
  intro s out
  have hunits : (cutPages (pagesOf (scan s))).length < limit :=
    calc (cutPages (pagesOf (scan s))).length
        _ ≤ (pagesOf (scan s)).length := length_cutPages_le _
        _ ≤ s.length := length_pagesOf_scan s
        _ < limit := hlim
  obtain ⟨ho, hb, hh⟩ := drain_tracks limit (tracks_start hcs) hunits
  have hb0 : (Reader.start MediaKind.theora (ChunkSource.mk cs)).broken = 0 := rfl
  rw [hb0, Nat.zero_add] at hb
  exact ⟨ho, hb, hh⟩

-- Ogg framing is the greedy scan of the whole stream: read through any solid chunking, a drain
-- returns the scan's pages, cut into units, then the end of the stream, and counts one broken
-- stretch for each maximal run of skips. A stream made of valid pages is returned exactly, with
-- nothing counted.
theorem theora_drain_follows_scan (cs : List Chunk) (hcs : ChunkSource.Solid cs) (limit : Nat)
    (hlim : (ChunkSource.bytesOf cs).length < limit) :
    let s := ChunkSource.bytesOf cs
    let out := Reader.drain .theora limit (Reader.start .theora (ChunkSource.mk cs))
    out.map Reader.Report.outcome =
        (cutPages (pagesOf (scan s))).map (fun u => .ok (.unit (u.flatMap Page.bytes))) ++
          [.ok (.unit [])] ∧
      (cutPages (pagesOf (scan s))).flatten = pagesOf (scan s) ∧
      out.getLast?.map Reader.Report.broken = some (lostRuns (scan s)) ∧
      ∀ P : List Octets, (∀ q ∈ P, IsPage q) → s = P.flatten →
        pagesOf (scan s) = P.map pageOf ∧ lostRuns (scan s) = 0 ∧
          ((cutPages (pagesOf (scan s))).map fun u => u.flatMap Page.bytes).flatten = s := by
  intro s out
  obtain ⟨ho, hb, -⟩ := drain_start hcs hlim
  refine ⟨ho, flatten_cutPages _, hb, ?_⟩
  intro P hP hs
  have hscan : scan s = P.map fun q => .page (pageOf q) := by rw [hs]; exact scan_of_pages P hP
  refine ⟨by rw [hscan, pagesOf_pages], by rw [hscan, lostRuns_pages], ?_⟩
  rw [← List.flatMap_def, show (fun u => List.flatMap Page.bytes u) = fun u => (id u).flatMap Page.bytes
    from rfl, ← List.flatMap_assoc, List.flatMap_id, flatten_cutPages, hscan, pagesOf_pages, hs]
  simp [List.flatMap_map, pageOf]

-- Five bytes that never start a page, served as a single chunk.
theorem theora_drain_follows_scan_garbage :
    ChunkSource.Solid [.data [1, 2, 3, 4, 5]] ∧ (ChunkSource.bytesOf [.data [1, 2, 3, 4, 5]]).length < 6 ∧
    let s := ChunkSource.bytesOf [.data [1, 2, 3, 4, 5]]
    let out := Reader.drain .theora 6 (Reader.start .theora (ChunkSource.mk [.data [1, 2, 3, 4, 5]]))
    out.map Reader.Report.outcome =
        (cutPages (pagesOf (scan s))).map (fun u => .ok (.unit (u.flatMap Page.bytes))) ++
          [.ok (.unit [])] ∧
      (cutPages (pagesOf (scan s))).flatten = pagesOf (scan s) ∧
      out.getLast?.map Reader.Report.broken = some (lostRuns (scan s)) ∧
      ∀ P : List Octets, (∀ q ∈ P, IsPage q) → s = P.flatten →
        pagesOf (scan s) = P.map pageOf ∧ lostRuns (scan s) = 0 ∧
          ((cutPages (pagesOf (scan s))).map fun u => u.flatMap Page.bytes).flatten = s :=
  ⟨ChunkSource.solid_single _, by decide,
    theora_drain_follows_scan _ (ChunkSource.solid_single _) 6 (by decide)⟩

end Ogg

end MediaRelay
