import Mathlib
import MediaRelay.Proofs.Ogg.Table
import MediaRelay.Proofs.Ogg.Drain

-- The published header at the end of a chained Ogg stream. A link of the chain is a group of
-- logical streams: their BOS pages first, then their other pages, each stream ending on its last
-- page. After a drain of a stream of valid pages, the header holds the BOS pages of the last link
-- and, for each of its streams, the first unit of data that starts with one of its pages, in
-- stream order; nothing of the earlier links is left in it.
--
-- Two shapes of link are set aside. A unit that continues past the last page of a link joins the
-- next link's first BOS page to it, and that page then never starts a link; and when the first
-- stream of a link with several streams ends on its BOS page, the next BOS page finds every
-- stream in the table ended and starts the header again.

namespace MediaRelay

namespace Ogg

open StreamTable

section Spec

-- The units a client needs of a link, among its units in order: every BOS page, and for each
-- stream the first unit that starts with one of its other pages. `seen` holds the streams whose
-- unit is taken already.
def headerUnits : List (List Page) → List Nat → List (List Page)
  | [], _ => []
  | [] :: us, seen => headerUnits us seen
  | (p :: ps) :: us, seen =>
    if p.isBos then (p :: ps) :: headerUnits us seen
    else if p.serial ∈ seen then headerUnits us seen
    else (p :: ps) :: headerUnits us (p.serial :: seen)

-- The header a link of the chain calls for.
def linkHeader (us : List (List Page)) : Octets :=
  ((headerUnits us []).flatten).flatMap Page.bytes

-- The pages of one logical stream.
def streamPages (L : List Page) (x : Nat) : List Page :=
  L.filter (·.serial == x)

-- One link of a chained stream: its BOS pages come first, every stream in it has exactly one BOS
-- page, and the last page of each stream, and only that page, ends it.
structure WellFormedLink (L : List Page) : Prop where
  nonempty : L ≠ []
  bos_first : ∀ p ∈ L.dropWhile Page.isBos, p.isBos = false
  one_bos : ∀ p ∈ L, ((streamPages L p.serial).filter Page.isBos).length = 1
  eos_last : ∀ p ∈ L, (streamPages L p.serial).map Page.isEos =
    List.replicate ((streamPages L p.serial).length - 1) false ++ [true]

instance (L : List Page) : Decidable (WellFormedLink L) :=
  decidable_of_iff
    (L ≠ [] ∧ (∀ p ∈ L.dropWhile Page.isBos, p.isBos = false) ∧
      (∀ p ∈ L, ((streamPages L p.serial).filter Page.isBos).length = 1) ∧
      ∀ p ∈ L, (streamPages L p.serial).map Page.isEos =
        List.replicate ((streamPages L p.serial).length - 1) false ++ [true])
    ⟨fun ⟨a, b, c, d⟩ => ⟨a, b, c, d⟩, fun ⟨a, b, c, d⟩ => ⟨a, b, c, d⟩⟩

-- The link ends on a unit boundary: its last page is a BOS page or does not continue a packet.
def closesUnits (L : List Page) : Bool :=
  L.getLast?.all fun p => p.isBos || !p.isContinued

-- In a link of several streams, the first stream does not end on its BOS page.
def firstStreamLive (L : List Page) : Bool :=
  (L.filter Page.isBos).length < 2 || L.head?.all fun p => !p.isEos

end Spec

section Link

variable {L : List Page}

theorem WellFormedLink.filter_bos (hL : WellFormedLink L) :
    L.filter Page.isBos = L.takeWhile Page.isBos := by
  conv_lhs => rw [← List.takeWhile_append_dropWhile (p := Page.isBos) (l := L)]
  rw [List.filter_append, List.filter_eq_self.2 (fun p hp => List.mem_takeWhile_imp hp),
    List.filter_eq_nil_iff.2 (fun p hp => by simp [hL.bos_first p hp]), List.append_nil]

-- Every page's stream has its BOS page among the link's leading BOS pages.
theorem WellFormedLink.serial_mem (hL : WellFormedLink L) {p : Page} (hp : p ∈ L) :
    p.serial ∈ (L.takeWhile Page.isBos).map Page.serial := by
  have h1 := hL.one_bos p hp
  obtain ⟨b, hb⟩ : ∃ b, b ∈ (streamPages L p.serial).filter Page.isBos :=
    List.exists_mem_of_length_pos (by omega)
  simp only [streamPages, List.filter_filter, List.mem_filter, Bool.and_eq_true, beq_iff_eq] at hb
  obtain ⟨hbL, hbos, hser⟩ := hb
  have : b ∈ L.filter Page.isBos := List.mem_filter.2 ⟨hbL, hbos⟩
  rw [hL.filter_bos] at this
  exact List.mem_map.2 ⟨b, this, hser⟩

theorem WellFormedLink.bos_ne_nil (hL : WellFormedLink L) : L.takeWhile Page.isBos ≠ [] := by
  obtain ⟨p, hp⟩ := List.exists_mem_of_ne_nil L hL.nonempty
  intro h
  simpa [h] using hL.serial_mem hp

-- No two leading BOS pages belong to one stream.
theorem WellFormedLink.nodup_serials (hL : WellFormedLink L) :
    ((L.takeWhile Page.isBos).map Page.serial).Nodup := by
  rw [List.nodup_iff_count_le_one]
  intro x
  by_cases hx : x ∈ (L.takeWhile Page.isBos).map Page.serial
  · obtain ⟨b, hb, rfl⟩ := List.mem_map.1 hx
    have h1 := hL.one_bos b ((List.takeWhile_sublist _).subset hb)
    have hf : (streamPages L b.serial).filter Page.isBos =
        (L.takeWhile Page.isBos).filter (·.serial == b.serial) := by
      rw [← hL.filter_bos, streamPages, List.filter_filter, List.filter_filter]
      congr 1
      funext q
      exact Bool.and_comm _ _
    rw [List.count_eq_countP, List.countP_map, List.countP_eq_length_filter]
    rw [hf] at h1
    exact h1.le
  · rw [List.count_eq_zero_of_not_mem hx]
    omega

-- Every stream of the link has a page that ends it.
theorem WellFormedLink.ends (hL : WellFormedLink L) {p : Page} (hp : p ∈ L) :
    ∃ q ∈ L, q.serial = p.serial ∧ q.isEos = true := by
  have h := hL.eos_last p hp
  have ht : true ∈ (streamPages L p.serial).map Page.isEos := by
    rw [h]
    simp
  obtain ⟨q, hq, he⟩ := List.mem_map.1 ht
  simp only [streamPages, List.mem_filter, beq_iff_eq] at hq
  exact ⟨q, hq.1, hq.2, he⟩

end Link

section Cutting

-- Leading BOS pages are units of their own.
theorem cutPagesFrom_bos (B : List Page) (hB : ∀ p ∈ B, p.isBos = true) (ps : List Page) :
    cutPagesFrom none (B ++ ps) = B.map (fun p => [p]) ++ cutPagesFrom none ps := by
  induction B with
  | nil => rfl
  | cons b B ih =>
    have hb : b.isBos = true := hB b (by simp)
    rw [List.cons_append, cutPagesFrom, if_pos (by simp [hb]), ih (fun p hp => hB p (by simp [hp]))]
    rfl

-- Pages that end on a page not continuing a packet leave no unit open after them.
theorem cutPagesFrom_append_of_closed (acc : Option (List Page)) (D : List Page) (hD : D ≠ [])
    (hlast : (D.getLast hD).isContinued = false) (ps : List Page) :
    cutPagesFrom acc (D ++ ps) = cutPagesFrom acc D ++ cutPagesFrom none ps := by
  induction D generalizing acc with
  | nil => exact absurd rfl hD
  | cons q D ih =>
    by_cases hD' : D = []
    · subst hD'
      have hq : q.isContinued = false := hlast
      cases acc <;> simp [cutPagesFrom, hq]
    · have hl : (D.getLast hD').isContinued = false := by
        rwa [List.getLast_cons hD'] at hlast
      cases acc with
      | none =>
        by_cases h : q.isBos || !q.isContinued
        · simp [cutPagesFrom, h, ih none hD' hl]
        · simp only [List.cons_append, cutPagesFrom, h, Bool.false_eq_true, if_false]
          exact ih _ hD' hl
      | some a =>
        by_cases h : q.isContinued
        · simp only [List.cons_append, cutPagesFrom, h, if_true]
          exact ih _ hD' hl
        · simp [cutPagesFrom, h, ih none hD' hl]

theorem cutPagesFrom_ne_nil (acc : Option (List Page)) (hacc : ∀ a, acc = some a → a ≠ [])
    (ps : List Page) : ∀ u ∈ cutPagesFrom acc ps, u ≠ [] := by
  induction ps generalizing acc with
  | nil =>
    cases acc with
    | none => simp [cutPagesFrom]
    | some a => simpa [cutPagesFrom] using hacc a rfl
  | cons p ps ih =>
    cases acc with
    | none =>
      by_cases h : p.isBos || !p.isContinued
      · simpa [cutPagesFrom, h] using ih none (by simp)
      · simpa [cutPagesFrom, h] using ih (some [p]) (by simp)
    | some a =>
      by_cases h : p.isContinued
      · simpa [cutPagesFrom, h] using ih (some (a ++ [p])) (by simp)
      · simpa [cutPagesFrom, h] using ih none (by simp)

-- Every unit is made of some of the pages, and of one at least.
theorem mem_of_mem_cutPages {ps u : List Page} (hu : u ∈ cutPages ps) :
    u ≠ [] ∧ ∀ p ∈ u, p ∈ ps := by
  refine ⟨cutPagesFrom_ne_nil none (by simp) ps u hu, fun p hp => ?_⟩
  rw [← flatten_cutPages ps]
  exact List.mem_flatten.2 ⟨u, hu, hp⟩

variable {L : List Page}

-- A link's leading BOS pages are units of their own.
theorem cutPages_link (L : List Page) :
    cutPages L = (L.takeWhile Page.isBos).map (fun p => [p]) ++ cutPages (L.dropWhile Page.isBos) := by
  conv_lhs => rw [← List.takeWhile_append_dropWhile (p := Page.isBos) (l := L)]
  exact cutPagesFrom_bos _ (fun p hp => List.mem_takeWhile_imp hp) _

-- A link that ends on a unit boundary is cut on its own.
theorem cutPages_link_append (hL : WellFormedLink L) (hc : closesUnits L = true) (ps : List Page) :
    cutPages (L ++ ps) = cutPages L ++ cutPages ps := by
  rw [cutPages_link L]
  conv_lhs => rw [← List.takeWhile_append_dropWhile (p := Page.isBos) (l := L)]
  rw [List.append_assoc, cutPages, cutPagesFrom_bos _ (fun p hp => List.mem_takeWhile_imp hp),
    List.append_assoc]
  congr 1
  by_cases hD : L.dropWhile Page.isBos = []
  · rw [hD]
    rfl
  · -- the last page of the link is one of its other pages, so it does not continue a packet
    have hlast : L.getLast? = some ((L.dropWhile Page.isBos).getLast hD) := by
      conv_lhs => rw [← List.takeWhile_append_dropWhile (p := Page.isBos) (l := L)]
      rw [List.getLast?_append, List.getLast?_eq_some_getLast hD]
      rfl
    have hnb := hL.bos_first _ (List.getLast_mem hD)
    have hcont : ((L.dropWhile Page.isBos).getLast hD).isContinued = false := by
      simpa [closesUnits, hlast, hnb] using hc
    exact cutPagesFrom_append_of_closed none _ hD hcont ps

-- A chain whose links end on unit boundaries is cut link by link.
theorem cutPages_chain (Ls : List (List Page)) (hwf : ∀ L ∈ Ls, WellFormedLink L)
    (hc : ∀ L ∈ Ls.dropLast, closesUnits L = true) :
    cutPages Ls.flatten = (Ls.map cutPages).flatten := by
  induction Ls with
  | nil => rfl
  | cons L Ls ih =>
    by_cases hLs : Ls = []
    · subst hLs
      simp
    · have hdrop : (L :: Ls).dropLast = L :: Ls.dropLast := List.dropLast_cons_of_ne_nil hLs
      rw [hdrop] at hc
      rw [List.flatten_cons, cutPages_link_append (hwf L (by simp)) (hc L (by simp)),
        ih (fun L' h => hwf L' (by simp [h])) (fun L' h => hc L' (by simp [h]))]
      rfl

end Cutting

section Recording

-- BOS pages are always taken into the header, and take no stream's data unit.
theorem headerUnits_bos (B : List Page) (hB : ∀ p ∈ B, p.isBos = true) (us : List (List Page))
    (seen : List Nat) :
    headerUnits (B.map (fun p => [p]) ++ us) seen = B.map (fun p => [p]) ++ headerUnits us seen := by
  induction B with
  | nil => rfl
  | cons b B ih =>
    have hb : b.isBos = true := hB b (by simp)
    rw [List.map_cons, List.cons_append, headerUnits, if_pos hb, ih (fun p hp => hB p (by simp [hp]))]
    rfl

theorem recordUnits_cons (u : List Page) (us : List (List Page)) (th : StreamTable × Octets) :
    recordUnits (u :: us) th = recordUnits us (recordUnit u th) :=
  rfl

theorem recordUnits_append (us vs : List (List Page)) (th : StreamTable × Octets) :
    recordUnits (us ++ vs) th = recordUnits vs (recordUnits us th) :=
  List.foldl_append

theorem recordUnit_data {p : Page} (hb : p.isBos = false) (ps : List Page) (t : StreamTable)
    (h : Octets) :
    recordUnit (p :: ps) (t, h) = dataRecord p ((p :: ps).flatMap Page.bytes) (endedOf (p :: ps)) t h := by
  simp [recordUnit, hb]

theorem linkEnded_of_live {t : StreamTable} {e : Nat × LogicalStream} (he : e ∈ t)
    (hl : e.2.ended = false) : linkEnded t = false := by
  have : t.allEnded = false := by
    simp only [allEnded, List.all_eq_false]
    exact ⟨e, he, by simp [hl]⟩
  simp [linkEnded, this]

-- The state in which a link may start: nothing recorded yet, or every stream ended.
def LinkStart (t : StreamTable) (h : Octets) : Prop :=
  t = [] ∧ h = [] ∨ linkEnded t = true

-- The first BOS page of a link starts the table and the header afresh.
theorem bosRecord_of_start {t : StreamTable} {h : Octets} (hs : LinkStart t h) (p : Page) :
    bosRecord p t h = ([bosEntry p], p.bytes) := by
  have h0 : bosRecord p [] [] = ([bosEntry p], p.bytes) := by
    simpa using bosRecord_of_live (t := []) rfl (by simp) ([] : Octets)
  rcases hs with ⟨rfl, rfl⟩ | hl
  · exact h0
  · rw [bosRecord_of_linkEnded hl, h0]

-- While a stream of the link is live, each further BOS page adds the entry of its stream.
theorem recordUnits_bos (B : List Page) (hB : ∀ p ∈ B, p.isBos = true) :
    ∀ (t : StreamTable) (h : Octets), (keys t ++ B.map Page.serial).Nodup →
      (B ≠ [] → ∃ e ∈ t, e.2.ended = false) →
      recordUnits (B.map fun p => [p]) (t, h) = (t ++ B.map bosEntry, h ++ B.flatMap Page.bytes) := by
  induction B with
  | nil => intro t h _ _; simp [recordUnits]
  | cons b B ih =>
    intro t h hnd hlive
    obtain ⟨e, he, hl⟩ := hlive (by simp)
    have hb : b.isBos = true := hB b (by simp)
    have hfresh : b.serial ∉ keys t := by
      intro hm
      exact (List.nodup_append.1 hnd).2.2 _ hm _ (by simp) rfl
    have hstep : recordUnit [b] (t, h) = (t ++ [bosEntry b], h ++ b.bytes) := by
      simp only [recordUnit, hb, if_true]
      exact bosRecord_of_live (linkEnded_of_live he hl) hfresh h
    have hnd' : (keys (t ++ [bosEntry b]) ++ B.map Page.serial).Nodup := by
      simpa [bosEntry] using hnd
    rw [List.map_cons, recordUnits_cons, hstep, ih (fun p hp => hB p (by simp [hp])) _ _ hnd'
      (fun _ => ⟨e, by simp [he], hl⟩)]
    simp

-- A data unit takes the header's place of its stream the first time only.
theorem headerUnits_data {p : Page} (hb : p.isBos = false) (ps : List Page) (us : List (List Page))
    (seen : List Nat) :
    headerUnits ((p :: ps) :: us) seen =
      (if p.serial ∈ seen then [] else [p :: ps]) ++ headerUnits us (seen.insert p.serial) := by
  by_cases hs : p.serial ∈ seen <;> simp [headerUnits, hb, hs]

theorem endedOf_append (ps qs : List Page) : endedOf (ps ++ qs) = endedOf ps ++ endedOf qs := by
  simp [endedOf]

-- The table while the data units of a link are recorded: its keys are the link's streams `ks`,
-- the streams with a unit in the header are those `seen`, and every stream has ended or ends on
-- one of the pages still to come (`pending` lists the streams those pages end).
structure LinkTable (ks : List Nat) (t : StreamTable) (seen pending : List Nat) : Prop where
  keys_eq : keys t = ks
  captured_iff : ∀ x ∈ ks, (t.find x).captured = true ↔ x ∈ seen
  ended_or : ∀ x ∈ ks, (t.find x).ended = true ∨ x ∈ pending

variable {ks seen : List Nat} {t : StreamTable}

-- One data unit of the link keeps the invariant, and adds its bytes to the header when it is
-- the first of its stream.
theorem LinkTable.step {p : Page} {ps : List Page} {rest : List Nat}
    (hI : LinkTable ks t seen (endedOf (p :: ps) ++ rest)) (hpb : p.isBos = false)
    (hks : ∀ q ∈ p :: ps, q.serial ∈ ks) (h : Octets) :
    LinkTable ks (recordUnit (p :: ps) (t, h)).1 (seen.insert p.serial) rest ∧
      (recordUnit (p :: ps) (t, h)).2 =
        h ++ (if p.serial ∈ seen then [] else (p :: ps).flatMap Page.bytes) := by
  have hpk : p.serial ∈ keys t := hI.keys_eq ▸ hks p (by simp)
  have hek : ∀ x ∈ endedOf (p :: ps), x ∈ keys t := by
    intro x hx
    obtain ⟨q, hq, rfl⟩ := List.mem_map.1 hx
    exact hI.keys_eq ▸ hks q (List.mem_filter.1 hq).1
  obtain ⟨hk', hfind, hhd⟩ :=
    dataRecord_spec p ((p :: ps).flatMap Page.bytes) (endedOf (p :: ps)) t h hpk hek
  rw [recordUnit_data hpb]
  refine ⟨⟨hk'.trans hI.keys_eq, fun x hx => ?_, fun x hx => ?_⟩, ?_⟩
  · rw [hfind, List.mem_insert_iff, ← hI.captured_iff x hx]
    by_cases hxp : x = p.serial <;> simp [hxp]
  · rw [hfind]
    rcases hI.ended_or x hx with he | he
    · simp [he]
    · rcases List.mem_append.1 he with he | he
      · simp [he]
      · exact Or.inr he
  · have hc := hI.captured_iff p.serial (hI.keys_eq ▸ hpk)
    rw [hhd]
    by_cases hs : p.serial ∈ seen <;> simp [hs, hc]

-- The data units of a link, recorded over the link's table: every stream ends, and the header
-- gains the first unit of each stream not seen yet.
theorem recordUnits_data (us : List (List Page))
    (hus : ∀ u ∈ us, u ≠ [] ∧ ∀ p ∈ u, p.isBos = false ∧ p.serial ∈ ks) :
    ∀ (t : StreamTable) (h : Octets) (seen : List Nat), LinkTable ks t seen (endedOf us.flatten) →
      (∃ seen', LinkTable ks (recordUnits us (t, h)).1 seen' []) ∧
        (recordUnits us (t, h)).2 = h ++ (headerUnits us seen).flatten.flatMap Page.bytes := by
  induction us with
  | nil =>
    intro t h seen hI
    exact ⟨⟨seen, hI⟩, by simp [recordUnits, headerUnits]⟩
  | cons u us ih =>
    intro t h seen hI
    obtain ⟨hne, hpages⟩ := hus u (by simp)
    obtain ⟨p, ps, rfl⟩ := List.exists_cons_of_ne_nil hne
    obtain ⟨hpb, -⟩ := hpages p (by simp)
    rw [List.flatten_cons, endedOf_append] at hI
    obtain ⟨hI', hhd⟩ := hI.step hpb (fun q hq => (hpages q hq).2) h
    rw [recordUnits_cons]
    generalize recordUnit (p :: ps) (t, h) = r at hI' hhd ⊢
    obtain ⟨t', h'⟩ := r
    dsimp only at hI' hhd
    obtain ⟨hend, hrest⟩ := ih (fun u hu => hus u (List.mem_cons_of_mem _ hu)) t' h' _ hI'
    refine ⟨hend, ?_⟩
    rw [hrest, hhd, headerUnits_data hpb]
    by_cases hs : p.serial ∈ seen <;> simp [hs]

end Recording

section Chain

-- BOS entries start with no unit captured.
theorem find_bosEntries_captured (B : List Page) (x : Nat) :
    (find (B.map bosEntry) x).captured = false := by
  induction B with
  | nil => rfl
  | cons b B ih =>
    rw [List.map_cons, find_cons]
    split
    · rfl
    · exact ih

theorem keys_bosEntries (B : List Page) : keys (B.map bosEntry) = B.map Page.serial := by
  simp [keys, bosEntry, Function.comp_def]

variable {L : List Page}

-- The first stream of a link of several streams is live once its BOS page is recorded.
theorem WellFormedLink.first_live (hL : WellFormedLink L) (hlive : firstStreamLive L = true)
    {b : Page} {B' : List Page} (hbB : L.takeWhile Page.isBos = b :: B') (hB' : B' ≠ []) :
    b.isEos = false := by
  have hlen : ¬(L.filter Page.isBos).length < 2 := by
    rw [hL.filter_bos, hbB]
    obtain ⟨c, C, rfl⟩ := List.exists_cons_of_ne_nil hB'
    simp
  have hhead : L.head? = some b := by
    conv_lhs => rw [← List.takeWhile_append_dropWhile (p := Page.isBos) (l := L)]
    rw [hbB]
    rfl
  simpa [firstStreamLive, hlen, hhead] using hlive

-- The BOS pages of a link, recorded from a start: one fresh entry each, and their bytes.
theorem recordUnits_link_bos (hL : WellFormedLink L) (hlive : firstStreamLive L = true)
    {t : StreamTable} {h : Octets} (hs : LinkStart t h) :
    recordUnits ((L.takeWhile Page.isBos).map fun p => [p]) (t, h) =
      ((L.takeWhile Page.isBos).map bosEntry, (L.takeWhile Page.isBos).flatMap Page.bytes) := by
  have hB : ∀ p ∈ L.takeWhile Page.isBos, p.isBos = true := fun p hp => List.mem_takeWhile_imp hp
  have hnd := hL.nodup_serials
  obtain ⟨b, B', hbB⟩ := List.exists_cons_of_ne_nil hL.bos_ne_nil
  rw [hbB] at hB hnd ⊢
  have hb : b.isBos = true := hB b (by simp)
  have hfirst : recordUnit [b] (t, h) = ([bosEntry b], b.bytes) := by
    simp only [recordUnit, hb, if_true]
    exact bosRecord_of_start hs b
  have hnd' : (keys [bosEntry b] ++ B'.map Page.serial).Nodup := by
    simpa [bosEntry] using hnd
  have hlive' : B' ≠ [] → ∃ e ∈ [bosEntry b], e.2.ended = false := fun hB' =>
    ⟨bosEntry b, by simp, by simpa [bosEntry] using hL.first_live hlive hbB hB'⟩
  rw [List.map_cons, recordUnits_cons, hfirst,
    recordUnits_bos B' (fun p hp => hB p (by simp [hp])) _ _ hnd' hlive']
  simp

-- Once no stream has a page to come, a table over a link's streams has every stream ended.
theorem LinkTable.all_ended {ks seen : List Nat} {t : StreamTable} (hI : LinkTable ks t seen [])
    (hne : ks ≠ []) (hnd : ks.Nodup) : linkEnded t = true := by
  have ht : t ≠ [] := by
    intro h0
    apply hne
    rw [← hI.keys_eq, h0]
    rfl
  have hall : t.allEnded = true := (allEnded_iff (hI.keys_eq ▸ hnd)).2 fun x hx =>
    (hI.ended_or x (hI.keys_eq ▸ hx)).resolve_right List.not_mem_nil
  simp [Ogg.linkEnded, ht, hall]

-- After its BOS pages, the table of a link holds its streams, none captured, and each stream
-- ends on its BOS page or on one of the link's other pages.
theorem WellFormedLink.linkTable_bos (hL : WellFormedLink L) :
    LinkTable ((L.takeWhile Page.isBos).map Page.serial) ((L.takeWhile Page.isBos).map bosEntry) []
      (endedOf (cutPages (L.dropWhile Page.isBos)).flatten) := by
  have hks := keys_bosEntries (L.takeWhile Page.isBos)
  refine ⟨hks, fun x _ => by simp [find_bosEntries_captured], fun x hx => ?_⟩
  obtain ⟨b, hb, rfl⟩ := List.mem_map.1 hx
  obtain ⟨q, hqL, hqs, hqe⟩ := hL.ends ((List.takeWhile_sublist _).subset hb)
  rw [← List.takeWhile_append_dropWhile (p := Page.isBos) (l := L), List.mem_append] at hqL
  rcases hqL with hq | hq
  · left
    have := find_of_mem (hks ▸ hL.nodup_serials) (List.mem_map_of_mem (f := bosEntry) hq)
    simp only [bosEntry] at this
    rw [← hqs, this, hqe]
  · right
    rw [flatten_cutPages, ← hqs]
    exact List.mem_map_of_mem (List.mem_filter.2 ⟨hq, hqe⟩)

-- A whole link, recorded from a start, ends with every stream of it ended and the header it
-- calls for.
theorem recordUnits_link (hL : WellFormedLink L) (hlive : firstStreamLive L = true)
    {t : StreamTable} {h : Octets} (hs : LinkStart t h) :
    linkEnded (recordUnits (cutPages L) (t, h)).1 = true ∧
      (recordUnits (cutPages L) (t, h)).2 = linkHeader (cutPages L) := by
  -- the other pages of the link are data pages of its streams
  have hus : ∀ u ∈ cutPages (L.dropWhile Page.isBos), u ≠ [] ∧
      ∀ p ∈ u, p.isBos = false ∧ p.serial ∈ (L.takeWhile Page.isBos).map Page.serial := by
    intro u hu
    obtain ⟨hne, hmem⟩ := mem_of_mem_cutPages hu
    exact ⟨hne, fun p hp => ⟨hL.bos_first p (hmem p hp),
      hL.serial_mem ((List.dropWhile_sublist _).subset (hmem p hp))⟩⟩
  obtain ⟨⟨seen, hend⟩, hhd⟩ := recordUnits_data _ hus _
    ((L.takeWhile Page.isBos).flatMap Page.bytes) [] hL.linkTable_bos
  rw [cutPages_link L, recordUnits_append, recordUnits_link_bos hL hlive hs]
  refine ⟨hend.all_ended (by simpa using hL.bos_ne_nil) hL.nodup_serials, ?_⟩
  rw [hhd, linkHeader, headerUnits_bos _ (fun p hp => List.mem_takeWhile_imp hp), List.flatten_append,
    ← List.flatMap_def, List.flatMap_singleton', List.flatMap_append]

-- Links recorded one after the other leave the header of the last.
theorem recordUnits_chain (Ls : List (List Page)) (hne : Ls ≠ []) (hwf : ∀ L ∈ Ls, WellFormedLink L)
    (hlive : ∀ L ∈ Ls, firstStreamLive L = true) {t : StreamTable} {h : Octets} (hs : LinkStart t h) :
    (recordUnits (Ls.map cutPages).flatten (t, h)).2 = linkHeader (cutPages (Ls.getLast hne)) := by
  induction Ls generalizing t h with
  | nil => exact absurd rfl hne
  | cons L Ls ih =>
    obtain ⟨hend, hhd⟩ := recordUnits_link (hwf L (by simp)) (hlive L (by simp)) hs
    rw [List.map_cons, List.flatten_cons, recordUnits_append]
    by_cases hLs : Ls = []
    · subst hLs
      simpa [recordUnits] using hhd
    · rw [List.getLast_cons hLs]
      exact ih hLs (fun L' h' => hwf L' (by simp [h'])) (fun L' h' => hlive L' (by simp [h']))
        (Or.inr hend)

end Chain

section Drain

-- Read through any solid chunking, a stream of valid pages leaves the header its units record.
theorem drain_header_of_pages {P : List Octets} (hP : ∀ q ∈ P, IsPage q) {cs : List Chunk}
    (hcs : ChunkSource.Solid cs) (hs : ChunkSource.bytesOf cs = P.flatten) {limit : Nat}
    (hlim : (ChunkSource.bytesOf cs).length < limit) :
    (Reader.drain .theora limit (Reader.start .theora (ChunkSource.mk cs))).getLast?.map
        Reader.Report.header = some (recordUnits (cutPages (P.map pageOf)) ([], [])).2 := by
  obtain ⟨-, -, hhd⟩ := drain_start hcs hlim
  rw [hhd, hs, scan_of_pages P hP, pagesOf_pages]

-- The header after a drain of a chained stream. The stream is a chain of links, each a list of
-- valid pages; whatever its chunking, once the framer has returned every unit, the header holds
-- the last link's BOS pages and the first unit of data of each of its streams, each once and in
-- stream order, and nothing of an earlier link. Links are taken to end on a unit boundary, and a
-- link of several streams not to open with a stream of one page.
theorem theora_header_is_last_link (Ls : List (List Octets)) (hne : Ls ≠ [])
    (hpages : ∀ L ∈ Ls, ∀ q ∈ L, IsPage q)
    (hwf : ∀ L ∈ Ls, WellFormedLink (L.map pageOf))
    (hlive : ∀ L ∈ Ls, firstStreamLive (L.map pageOf) = true)
    (hclosed : ∀ L ∈ Ls.dropLast, closesUnits (L.map pageOf) = true)
    (cs : List Chunk) (hcs : ChunkSource.Solid cs)
    (hs : ChunkSource.bytesOf cs = (Ls.map List.flatten).flatten)
    (limit : Nat) (hlim : (ChunkSource.bytesOf cs).length < limit) :
    (Reader.drain .theora limit (Reader.start .theora (ChunkSource.mk cs))).getLast?.map
        Reader.Report.header =
      some (linkHeader (cutPages ((Ls.getLast hne).map pageOf))) := by
  have hPne : Ls.map (List.map pageOf) ≠ [] := by simpa using hne
  have hwf' : ∀ L ∈ Ls.map (List.map pageOf), WellFormedLink L := by
    simpa using hwf
  have hlive' : ∀ L ∈ Ls.map (List.map pageOf), firstStreamLive L = true := by
    simpa using hlive
  have hclosed' : ∀ L ∈ (Ls.map (List.map pageOf)).dropLast, closesUnits L = true := by
    simpa [← List.map_dropLast] using hclosed
  -- the stream is the links' pages one after the other
  have hP : ∀ q ∈ Ls.flatten, IsPage q := fun q hq => by
    obtain ⟨L, hL, hqL⟩ := List.mem_flatten.1 hq
    exact hpages L hL q hqL
  rw [drain_header_of_pages hP hcs (by rw [hs, List.flatten_flatten]) hlim, List.map_flatten,
    cutPages_chain _ hwf' hclosed', recordUnits_chain _ hPne hwf' hlive' (Or.inl ⟨rfl, rfl⟩),
    List.getLast_map]

-- A chain of two links: a stream of one page, then a stream of a BOS page and a last page, read
-- in two chunks that split the chain between its links.
theorem theora_header_is_last_link_chain :
    let Ls : List (List Octets) :=
      [[[79, 103, 103, 83, 0, 6, 0, 0, 0, 0, 0, 0, 0, 0, 1, 0, 0, 0, 0, 0, 0, 0, 105, 113, 112, 56, 1, 0]],
        [[79, 103, 103, 83, 0, 2, 0, 0, 0, 0, 0, 0, 0, 0, 2, 0, 0, 0, 0, 0, 0, 0, 29, 96, 61, 105, 1, 1, 1],
          [79, 103, 103, 83, 0, 4, 0, 0, 0, 0, 0, 0, 0, 0, 2, 0, 0, 0, 1, 0, 0, 0, 49, 145, 242, 110, 1, 1, 2]]]
    let cs : List Chunk := [.data (Ls.getD 0 []).flatten, .data (Ls.getD 1 []).flatten]
    ∃ hne : Ls ≠ [], (∀ L ∈ Ls, ∀ q ∈ L, IsPage q) ∧ (∀ L ∈ Ls, WellFormedLink (L.map pageOf)) ∧
      (∀ L ∈ Ls, firstStreamLive (L.map pageOf) = true) ∧
      (∀ L ∈ Ls.dropLast, closesUnits (L.map pageOf) = true) ∧ ChunkSource.Solid cs ∧
      ChunkSource.bytesOf cs = (Ls.map List.flatten).flatten ∧ (ChunkSource.bytesOf cs).length < 100 ∧
      (Reader.drain .theora 100 (Reader.start .theora (ChunkSource.mk cs))).getLast?.map
          Reader.Report.header =
        some (linkHeader (cutPages ((Ls.getLast hne).map pageOf))) := by
  intro Ls cs
  have hpages : ∀ L ∈ Ls, ∀ q ∈ L, IsPage q := by decide +kernel
  have hwf : ∀ L ∈ Ls, WellFormedLink (L.map pageOf) := by decide +kernel
  have hlive : ∀ L ∈ Ls, firstStreamLive (L.map pageOf) = true := by decide +kernel
  have hclosed : ∀ L ∈ Ls.dropLast, closesUnits (L.map pageOf) = true := by decide +kernel
  have hcs : ChunkSource.Solid cs := ⟨fun h => absurd h (by decide), fun _ => rfl, trivial⟩
  have hs : ChunkSource.bytesOf cs = (Ls.map List.flatten).flatten := rfl
  have hlim : (ChunkSource.bytesOf cs).length < 100 := by decide
  exact ⟨by simp [Ls], hpages, hwf, hlive, hclosed, hcs, hs, hlim,
    theora_header_is_last_link Ls (by simp [Ls]) hpages hwf hlive hclosed cs hcs hs 100 hlim⟩

-- A link that ends inside a continued packet: the unit its last page leads takes the next link's
-- BOS page in, that page never starts a link, and the header keeps the first link's pages.
theorem theora_header_keeps_swallowed_link :
    let cBos : Octets := [79, 103, 103, 83, 0, 2, 0, 0, 0, 0, 0, 0, 0, 0, 1, 0, 0, 0, 0, 0, 0, 0,
      151, 173, 28, 19, 1, 255] ++ List.replicate 255 170
    let cEos : Octets := [79, 103, 103, 83, 0, 5, 0, 0, 0, 0, 0, 0, 0, 0, 1, 0, 0, 0, 1, 0, 0, 0,
      251, 6, 108, 234, 1, 10] ++ List.replicate 10 187
    let dBos : Octets := [79, 103, 103, 83, 0, 2, 0, 0, 0, 0, 0, 0, 0, 0, 2, 0, 0, 0, 0, 0, 0, 0,
      24, 50, 90, 102, 1, 5] ++ List.replicate 5 204
    let dDat : Octets := [79, 103, 103, 83, 0, 0, 0, 0, 0, 0, 0, 0, 0, 0, 2, 0, 0, 0, 1, 0, 0, 0,
      154, 243, 160, 75, 1, 6] ++ List.replicate 6 221
    let dEos : Octets := [79, 103, 103, 83, 0, 4, 0, 0, 0, 0, 0, 0, 0, 0, 2, 0, 0, 0, 2, 0, 0, 0,
      142, 251, 194, 73, 1, 7] ++ List.replicate 7 238
    let Ls : List (List Octets) := [[cBos, cEos], [dBos, dDat, dEos]]
    let cs : List Chunk := [.data (Ls.map List.flatten).flatten]
    (∀ L ∈ Ls, ∀ q ∈ L, IsPage q) ∧ (∀ L ∈ Ls, WellFormedLink (L.map pageOf)) ∧
      closesUnits ([cBos, cEos].map pageOf) = false ∧
      linkHeader (cutPages ([dBos, dDat, dEos].map pageOf)) = dBos ++ dDat ∧
      (Reader.drain .theora 1000 (Reader.start .theora (ChunkSource.mk cs))).getLast?.map
          Reader.Report.header = some (cBos ++ cEos ++ dBos ++ dDat) := by
  intro cBos cEos dBos dDat dEos Ls cs
  have hpages : ∀ q ∈ Ls.flatten, IsPage q := by decide +kernel
  have hs : ChunkSource.bytesOf cs = Ls.flatten.flatten :=
    (List.append_nil _).trans List.flatten_flatten.symm
  have hlim : (ChunkSource.bytesOf cs).length < 1000 := by
    rw [hs]
    decide +kernel
  refine ⟨fun L hL q hq => hpages q (List.mem_flatten.2 ⟨L, hL, hq⟩), by decide +kernel,
    by decide +kernel, by decide +kernel, ?_⟩
  rw [drain_header_of_pages hpages (ChunkSource.solid_single _) hs hlim]
  decide +kernel

-- A link of two streams whose first ends on its BOS page: the second BOS page finds every stream
-- of the table ended, starts the header again, and the first stream's page is lost from it.
theorem theora_header_drops_stream_of_one_page :
    let c1 : Octets := [79, 103, 103, 83, 0, 6, 0, 0, 0, 0, 0, 0, 0, 0, 1, 0, 0, 0, 0, 0, 0, 0,
      228, 169, 110, 60, 1, 4] ++ List.replicate 4 170
    let dBos : Octets := [79, 103, 103, 83, 0, 2, 0, 0, 0, 0, 0, 0, 0, 0, 2, 0, 0, 0, 0, 0, 0, 0,
      24, 50, 90, 102, 1, 5] ++ List.replicate 5 204
    let dDat : Octets := [79, 103, 103, 83, 0, 0, 0, 0, 0, 0, 0, 0, 0, 0, 2, 0, 0, 0, 1, 0, 0, 0,
      154, 243, 160, 75, 1, 6] ++ List.replicate 6 221
    let dEos : Octets := [79, 103, 103, 83, 0, 4, 0, 0, 0, 0, 0, 0, 0, 0, 2, 0, 0, 0, 2, 0, 0, 0,
      142, 251, 194, 73, 1, 7] ++ List.replicate 7 238
    let L : List Octets := [c1, dBos, dDat, dEos]
    (∀ q ∈ L, IsPage q) ∧ WellFormedLink (L.map pageOf) ∧ firstStreamLive (L.map pageOf) = false ∧
      linkHeader (cutPages (L.map pageOf)) = c1 ++ dBos ++ dDat ∧
      (Reader.drain .theora 1000 (Reader.start .theora (ChunkSource.mk [.data L.flatten]))).getLast?.map
          Reader.Report.header = some (dBos ++ dDat) := by
  intro c1 dBos dDat dEos L
  have hpages : ∀ q ∈ L, IsPage q := by decide +kernel
  have hlim : (ChunkSource.bytesOf [.data L.flatten]).length < 1000 := by
    rw [show ChunkSource.bytesOf [.data L.flatten] = L.flatten from List.append_nil _]
    decide +kernel
  refine ⟨hpages, by decide +kernel, by decide +kernel, by decide +kernel, ?_⟩
  rw [drain_header_of_pages hpages (ChunkSource.solid_single _) (List.append_nil _) hlim]
  decide +kernel

end Drain

end Ogg

end MediaRelay
