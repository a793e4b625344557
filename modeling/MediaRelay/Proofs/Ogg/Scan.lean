import Mathlib
import MediaRelay.Media.Ogg.Page
import MediaRelay.Proofs.Stream

-- Page synchronisation. The framer searches a buffer that holds only what has been received so
-- far, and drops bytes as soon as they cannot start a page. The greedy scan below instead makes
-- every search on all the bytes that are left in the stream. The two agree: a page found in a
-- buffer is found whatever bytes follow it, and a skip decided on a buffer is decided on any
-- longer one, where it drops either the same bytes or, when no capture pattern was in sight,
-- bytes up to the first capture pattern that only the new bytes complete (`Resync`). A search
-- that is already dropping bytes cannot tell the two apart.

namespace MediaRelay

namespace Ogg

section Capture

def CaptureAt (buf : Octets) (i : Nat) : Prop := capture <+: buf.drop i

instance (buf : Octets) (i : Nat) : Decidable (CaptureAt buf i) :=
  inferInstanceAs (Decidable (capture <+: buf.drop i))

theorem captureAt_zero_iff {buf : Octets} : CaptureAt buf 0 ↔ capture.isPrefixOf buf = true := by
  simp [CaptureAt, List.isPrefixOf_iff_prefix]

theorem captureAt_cons_succ {b : UInt8} {buf : Octets} {i : Nat} :
    CaptureAt (b :: buf) (i + 1) ↔ CaptureAt buf i := by
  simp [CaptureAt]

theorem not_captureAt_nil {i : Nat} : ¬ CaptureAt [] i := by
  simp [CaptureAt, capture]

-- The first capture pattern of `buf` starts at `q`.
structure FirstCapture (buf : Octets) (q : Nat) : Prop where
  at_q : CaptureAt buf q
  before : ∀ j < q, ¬ CaptureAt buf j

theorem captureOffset?_eq_none_iff {buf : Octets} :
    captureOffset? buf = none ↔ ∀ j, ¬ CaptureAt buf j := by
  induction buf with
  | nil => simp [captureOffset?, not_captureAt_nil]
  | cons b rest ih =>
    by_cases h0 : CaptureAt (b :: rest) 0
    · have hp := captureAt_zero_iff.mp h0
      simp only [captureOffset?, hp, if_true, reduceCtorEq, false_iff, not_forall, not_not]
      exact ⟨0, h0⟩
    · have hp : capture.isPrefixOf (b :: rest) = false :=
        Bool.eq_false_iff.mpr fun h => h0 (captureAt_zero_iff.mpr h)
      simp only [captureOffset?, hp, Bool.false_eq_true, if_false, Option.map_eq_none_iff, ih]
      constructor
      · intro h j
        cases j with
        | zero => exact h0
        | succ j => exact captureAt_cons_succ.not.mpr (h j)
      · intro h j
        exact captureAt_cons_succ.not.mp (h (j + 1))

theorem captureOffset?_eq_some_iff {buf : Octets} {q : Nat} :
    captureOffset? buf = some q ↔ FirstCapture buf q := by
  induction buf generalizing q with
  | nil => simp [captureOffset?]; exact fun h => not_captureAt_nil h.at_q
  | cons b rest ih =>
    by_cases h0 : CaptureAt (b :: rest) 0
    · have hp := captureAt_zero_iff.mp h0
      simp only [captureOffset?, hp, if_true, Option.some.injEq]
      constructor
      · intro hq
        subst hq
        exact ⟨h0, fun j hj => absurd hj (Nat.not_lt_zero j)⟩
      · intro hf
        by_contra hq
        exact hf.before 0 (Nat.pos_of_ne_zero (Ne.symm hq)) h0
    · have hp : capture.isPrefixOf (b :: rest) = false :=
        Bool.eq_false_iff.mpr fun h => h0 (captureAt_zero_iff.mpr h)
      simp only [captureOffset?, hp, Bool.false_eq_true, if_false, Option.map_eq_some_iff]
      constructor
      · intro ⟨q', hq', hq⟩
        subst hq
        have hf := ih.mp hq'
        refine ⟨captureAt_cons_succ.mpr hf.at_q, ?_⟩
        intro j hj
        cases j with
        | zero => exact h0
        | succ j => exact captureAt_cons_succ.not.mpr (hf.before j (by omega))
      · intro hf
        cases q with
        | zero => exact absurd hf.at_q h0
        | succ q =>
          refine ⟨q, ih.mpr ⟨captureAt_cons_succ.mp hf.at_q, ?_⟩, rfl⟩
          intro j hj
          exact captureAt_cons_succ.not.mp (hf.before (j + 1) (by omega))

theorem captureAt_drop {buf : Octets} {a j : Nat} : CaptureAt (buf.drop a) j ↔ CaptureAt buf (a + j) := by
  simp [CaptureAt, List.drop_drop]

theorem captureAt_drop_sub {buf : Octets} {a j : Nat} (h : a ≤ j) :
    CaptureAt (buf.drop a) (j - a) ↔ CaptureAt buf j := by
  rw [captureAt_drop, Nat.add_sub_cancel' h]

theorem CaptureAt.le_length {buf : Octets} {i : Nat} (h : CaptureAt buf i) : i + 4 ≤ buf.length := by
  have := h.length_le
  simp [capture] at this
  omega

theorem captureAt_append {xs ys : Octets} {i : Nat} (h : i + 4 ≤ xs.length) :
    CaptureAt (xs ++ ys) i ↔ CaptureAt xs i := by
  unfold CaptureAt
  rw [List.drop_append_of_le_length (by omega)]
  constructor
  · intro hp
    exact List.prefix_of_prefix_length_le hp (List.prefix_append _ _) (by simp [capture]; omega)
  · intro hp
    exact hp.trans (List.prefix_append _ _)

theorem captureAt_append_length (xs : Octets) {ys : Octets} {j : Nat} :
    CaptureAt (xs ++ ys) (xs.length + j) ↔ CaptureAt ys j := by
  rw [← captureAt_drop, List.drop_left]

end Capture

section Skip

theorem skipToCapture_of_first {buf : Octets} {k p : Nat} (h : FirstCapture (buf.drop k) p)
    (hne : p + k ≠ 0) : skipToCapture buf k = (true, buf.drop (p + k)) := by
  unfold skipToCapture
  rw [captureOffset?_eq_some_iff.mpr h]
  exact if_neg hne

theorem skipToCapture_of_none {buf : Octets} {k : Nat} (h : ∀ j, ¬ CaptureAt (buf.drop k) j) :
    (skipToCapture buf k).2 = buf.drop (buf.length - min 3 buf.length) := by
  unfold skipToCapture
  rw [captureOffset?_eq_none_iff.mpr h]

theorem skipToCapture_fst {buf : Octets} (h4 : 4 ≤ buf.length) (hc : ¬ CaptureAt buf 0) :
    (skipToCapture buf 0).1 = true := by
  unfold skipToCapture
  split
  case h_1 p hp =>
    have hf := captureOffset?_eq_some_iff.mp hp
    have : p ≠ 0 := fun h => hc (by simpa [h] using hf.at_q)
    simp [this]
  case h_2 => simp; omega

theorem skipToCapture_lt {buf : Octets} {k : Nat} (hk : k ≤ 1) (h4 : 4 ≤ buf.length)
    (h0 : k = 0 → ¬ CaptureAt buf 0) : (skipToCapture buf k).2.length < buf.length := by
  cases hB : captureOffset? (buf.drop k) with
  | some p =>
    have hf := captureOffset?_eq_some_iff.mp hB
    have hfit := hf.at_q.le_length
    simp at hfit
    have hne : p + k ≠ 0 := by
      intro hz
      have hk0 : k = 0 := by omega
      have hp0 : p = 0 := by omega
      subst hk0 hp0
      exact h0 rfl (by simpa using hf.at_q)
    rw [skipToCapture_of_first hf hne]
    simp
    omega
  | none =>
    rw [skipToCapture_of_none (captureOffset?_eq_none_iff.mp hB)]
    simp
    omega

-- `Y` is what is left of `X` once the bytes before its first capture pattern are dropped, or any
-- bytes at all when it holds none: a search that is dropping bytes anyway goes on from `Y` as it
-- would from `X`.
def Resync (X Y : Octets) : Prop :=
  ∃ D, X = D ++ Y ∧ (∀ j < D.length, ¬ CaptureAt X j) ∧ (D = [] ∨ CaptureAt Y 0 ∨ ∀ j, ¬ CaptureAt Y j)

theorem resync_refl (X : Octets) : Resync X X :=
  ⟨[], rfl, fun _ h => absurd h (Nat.not_lt_zero _), Or.inl rfl⟩

theorem resync_of_drop {H : Octets} {a b : Nat} (hab : a ≤ b)
    (hno : ∀ j, a ≤ j → j < b → ¬ CaptureAt H j)
    (hend : a = b ∨ CaptureAt H b ∨ ∀ j, b ≤ j → ¬ CaptureAt H j) :
    Resync (H.drop a) (H.drop b) := by
  refine ⟨(H.drop a).take (b - a), ?_, ?_, ?_⟩
  · have hd : (H.drop a).drop (b - a) = H.drop b := by
      rw [List.drop_drop]
      congr 1
      omega
    rw [← hd, List.take_append_drop]
  · intro j hj
    rw [captureAt_drop]
    simp at hj
    exact hno (a + j) (by omega) (by omega)
  · rcases hend with hab' | hc | hno'
    · left
      simp [hab']
    · right; left
      simpa [captureAt_drop] using hc
    · right; right
      intro j
      rw [captureAt_drop]
      exact hno' (b + j) (by omega)

-- Whatever bytes follow, a skip decided on `B` drops the same bytes of `B ++ M`, or bytes up to a
-- capture pattern that only the new bytes complete.
theorem skipToCapture_append {B M : Octets} {k : Nat} (hk : k ≤ 1) (h4 : 4 ≤ B.length)
    (h0 : k = 0 → ¬ CaptureAt B 0) :
    Resync ((skipToCapture B k).2 ++ M) (skipToCapture (B ++ M) k).2 := by
  cases hB : captureOffset? (B.drop k) with
  | some p =>
    have hf := captureOffset?_eq_some_iff.mp hB
    have hfit := hf.at_q.le_length
    simp at hfit
    have hne : p + k ≠ 0 := by
      intro hz
      have hk0 : k = 0 := by omega
      have hp0 : p = 0 := by omega
      subst hk0 hp0
      exact h0 rfl (by simpa using hf.at_q)
    have hf' : FirstCapture ((B ++ M).drop k) p := by
      rw [List.drop_append_of_le_length (by omega)]
      refine ⟨(captureAt_append (by simp; omega)).mpr hf.at_q, fun j hj => ?_⟩
      rw [captureAt_append (by simp; omega)]
      exact hf.before j hj
    rw [skipToCapture_of_first hf hne, skipToCapture_of_first hf' hne,
      List.drop_append_of_le_length (by omega)]
    exact resync_refl _
  | none =>
    have hno := captureOffset?_eq_none_iff.mp hB
    have hmin : min 3 B.length = 3 := by omega
    rw [skipToCapture_of_none hno, hmin, ← List.drop_append_of_le_length (by omega)]
    cases hH : captureOffset? ((B ++ M).drop k) with
    | some q =>
      have hf := captureOffset?_eq_some_iff.mp hH
      have hq : B.length - 3 ≤ q + k := by
        by_contra hlt
        have hin : CaptureAt (B.drop k) q := by
          have := hf.at_q
          rw [List.drop_append_of_le_length (by omega)] at this
          exact (captureAt_append (by simp; omega)).mp this
        exact hno q hin
      rw [skipToCapture_of_first hf (by omega)]
      have hfit := hf.at_q.le_length
      simp at hfit
      refine resync_of_drop hq ?_ (Or.inr (Or.inl ?_))
      · intro j hj hjq hc
        exact hf.before (j - k) (by omega) ((captureAt_drop_sub (by omega)).2 hc)
      · simpa [captureAt_drop, Nat.add_comm] using hf.at_q
    | none =>
      have hno' := captureOffset?_eq_none_iff.mp hH
      rw [skipToCapture_of_none hno', show min 3 (B ++ M).length = 3 by simp; omega]
      refine resync_of_drop (by simp; omega) ?_ (Or.inr (Or.inr ?_))
      · intro j hj _ hc
        exact hno' (j - k) ((captureAt_drop_sub (by omega)).2 hc)
      · intro j hj hc
        exact hno' (j - k) ((captureAt_drop_sub (by simp at hj; omega)).2 hc)

end Skip

section Search

-- The length a page starting at the front of `buf` claims: the fixed header, the lacing table and
-- the body the lacing values add up to.
def pageLength (buf : Octets) : Nat :=
  pageHeaderSize + (buf.getD 26 0).toNat +
    bodyLength (Octets.slice buf pageHeaderSize (buf.getD 26 0).toNat)

-- The checksum stored in a page agrees with the one computed over it.
def crcOk (page : Octets) : Bool :=
  (pageCrc page).toNat == Octets.leNat (Octets.slice page crcOffset 4)

-- The page made of the given bytes.
def pageOf (page : Octets) : Page :=
  ⟨page, Octets.leNat (Octets.slice page 14 4), page.getD 5 0⟩

-- The search, with its decisions in the order the page layout asks for them.
theorem search_eq (buf : Octets) : search buf =
    if buf.length < 4 then .incomplete
    else if ¬ CaptureAt buf 0 then .skipped (skipToCapture buf 0).2
    else if buf.length < 27 then .incomplete
    else if buf.getD 4 0 ≠ 0 then .skipped (skipToCapture buf 1).2
    else if buf.length < pageLength buf then .incomplete
    else if crcOk (buf.take (pageLength buf)) then
      .page (pageOf (buf.take (pageLength buf))) (buf.drop (pageLength buf))
    else .skipped (skipToCapture buf 1).2 := by
  unfold search
  rw [show capture.length = 4 from rfl, show pageHeaderSize = 27 from rfl]
  by_cases h4 : buf.length < 4
  · rw [if_pos h4, if_pos h4]
  rw [if_neg h4, if_neg h4]
  by_cases hc : CaptureAt buf 0
  · have hp := captureAt_zero_iff.mp hc
    rw [if_neg (by simp [hp]), if_neg (not_not.mpr hc)]
    by_cases h27 : buf.length < 27
    · rw [if_pos h27, if_pos h27]
    rw [if_neg h27, if_neg h27]
    by_cases hv : buf.getD 4 0 ≠ 0
    · rw [if_pos (by simpa using hv), if_pos hv]
    rw [if_neg (by simpa using hv), if_neg hv]
    simp only [pageLength, pageHeaderSize, crcOk, pageOf, bne_iff_ne, ne_eq, beq_iff_eq]
    split_ifs <;> first | rfl | omega
  · have hf := skipToCapture_fst (Nat.not_lt.mp h4) hc
    have hp : capture.isPrefixOf buf = false :=
      Bool.eq_false_iff.mpr fun h => hc (captureAt_zero_iff.mpr h)
    rw [if_pos (by simp [hp]), if_pos hc]
    cases hs : skipToCapture buf 0 with
    | mk b rest =>
      rw [hs] at hf
      cases hf
      rfl

theorem search_skipped_lt {X Y : Octets} (h : search X = .skipped Y) : Y.length < X.length := by
  rw [search_eq] at h
  split_ifs at h with h4 hc h27 hv hl hcrc
  next =>
    cases h
    exact skipToCapture_lt (le_refl 1) (by omega) (by simp)
  next =>
    cases h
    exact skipToCapture_lt (le_refl 1) (by omega) (by simp)
  next =>
    cases h
    exact skipToCapture_lt (Nat.zero_le 1) (by omega) fun _ => hc

theorem search_page_split {X Y : Octets} {p : Page} (h : search X = .page p Y) :
    X = p.bytes ++ Y ∧ 27 ≤ p.bytes.length := by
  rw [search_eq] at h
  split_ifs at h with h4 hc h27 hv hl hcrc
  cases h
  refine ⟨(List.take_append_drop _ _).symm, ?_⟩
  simp only [pageOf, List.length_take]
  simp only [pageLength, pageHeaderSize] at hl ⊢
  omega

theorem pageLength_append {B M : Octets} (h27 : 27 ≤ B.length) (hl : pageLength B ≤ B.length) :
    pageLength (B ++ M) = pageLength B := by
  have h26 : (B ++ M).getD 26 0 = B.getD 26 0 := List.getD_append _ _ _ _ (by omega)
  have hslice : Octets.slice (B ++ M) 27 (B.getD 26 0).toNat = Octets.slice B 27 (B.getD 26 0).toNat :=
    Octets.slice_append (by simp only [pageLength, pageHeaderSize] at hl; omega)
  simp only [pageLength, pageHeaderSize, h26, hslice]

-- A page found in `B` is found, with the same bytes after it, whatever bytes follow `B`.
theorem search_append_page {B M rest : Octets} {p : Page} (h : search B = .page p rest) :
    search (B ++ M) = .page p (rest ++ M) := by
  rw [search_eq] at h
  split_ifs at h with h4 hc h27 hv hl hcrc
  cases h
  have hc' : CaptureAt (B ++ M) 0 := (captureAt_append (by omega)).mpr hc
  have hv' : (B ++ M).getD 4 0 = B.getD 4 0 := List.getD_append _ _ _ _ (by omega)
  have hpl := pageLength_append (M := M) (by omega) (Nat.not_lt.mp hl)
  have htake : (B ++ M).take (pageLength B) = B.take (pageLength B) :=
    List.take_append_of_le_length (by omega)
  rw [search_eq, if_neg (by simp; omega), if_neg (not_not.mpr hc'), if_neg (by simp; omega), hv',
    if_neg hv, hpl, if_neg (by simp; omega), htake, if_pos hcrc, List.drop_append_of_le_length (by omega)]

-- A skip decided on `B` is decided on `B ++ M` too, and the two leave buffers from which a
-- search that is already dropping bytes goes on alike.
theorem search_append_skipped {B M rest : Octets} (h : search B = .skipped rest) :
    ∃ Y, search (B ++ M) = .skipped Y ∧ Resync (rest ++ M) Y := by
  rw [search_eq] at h
  split_ifs at h with h4 hc h27 hv hl hcrc
  next =>
    cases h
    have hc' : CaptureAt (B ++ M) 0 := (captureAt_append (by omega)).mpr hc
    have hv' : (B ++ M).getD 4 0 = B.getD 4 0 := List.getD_append _ _ _ _ (by omega)
    refine ⟨_, ?_, skipToCapture_append (le_refl 1) (by omega) (by simp)⟩
    rw [search_eq, if_neg (by simp; omega), if_neg (not_not.mpr hc'), if_neg (by simp; omega), hv',
      if_pos hv]
  next =>
    cases h
    have hc' : CaptureAt (B ++ M) 0 := (captureAt_append (by omega)).mpr hc
    have hv' : (B ++ M).getD 4 0 = B.getD 4 0 := List.getD_append _ _ _ _ (by omega)
    have hpl := pageLength_append (M := M) (by omega) (Nat.not_lt.mp hl)
    have htake : (B ++ M).take (pageLength B) = B.take (pageLength B) :=
      List.take_append_of_le_length (by omega)
    refine ⟨_, ?_, skipToCapture_append (le_refl 1) (by omega) (by simp)⟩
    rw [search_eq, if_neg (by simp; omega), if_neg (not_not.mpr hc'), if_neg (by simp; omega), hv',
      if_neg hv, hpl, if_neg (by simp; omega), htake, if_neg hcrc]
  next =>
    cases h
    have hc' : ¬ CaptureAt (B ++ M) 0 := by rwa [captureAt_append (by omega)]
    refine ⟨_, ?_, skipToCapture_append (Nat.zero_le 1) (by omega) fun _ => hc⟩
    rw [search_eq, if_neg (by simp; omega), if_pos hc']

end Search

section Scan

-- What a search through a whole stream meets, in order.
inductive ScanStep
  | skip
  | page (p : Page)
deriving DecidableEq, Repr

-- The greedy scan of a whole stream: every search is made on all the bytes that are left.
set_option linter.unusedVariables false in
def scan (X : Octets) : List ScanStep :=
  match h : search X with
  | .incomplete => []
  | .skipped Y => .skip :: scan Y
  | .page p Y => .page p :: scan Y
termination_by X.length
decreasing_by
  · exact search_skipped_lt h
  · have := search_page_split h
    rw [this.1, List.length_append]
    omega

theorem scan_of_incomplete {X : Octets} (h : search X = .incomplete) : scan X = [] := by
  rw [scan]
  split <;> simp_all

theorem scan_of_skipped {X Y : Octets} (h : search X = .skipped Y) : scan X = .skip :: scan Y := by
  rw [scan]
  split <;> simp_all

theorem scan_of_page {X Y : Octets} {p : Page} (h : search X = .page p Y) :
    scan X = .page p :: scan Y := by
  rw [scan]
  split <;> simp_all

-- The steps of a scan from its first page on: what a search that is already dropping bytes still
-- has to report.
def dropSkips : List ScanStep → List ScanStep
  | .skip :: l => dropSkips l
  | l => l

theorem scan_of_no_capture {X : Octets} (h : ∀ j, ¬ CaptureAt X j) : dropSkips (scan X) = [] := by
  by_cases h4 : X.length < 4
  · rw [scan_of_incomplete (by rw [search_eq, if_pos h4])]
    rfl
  · have hs : search X = .skipped (X.drop (X.length - 3)) := by
      rw [search_eq, if_neg h4, if_pos (h 0), skipToCapture_of_none (by simpa using h),
        show min 3 X.length = 3 by omega]
    have h3 : search (X.drop (X.length - 3)) = .incomplete := by
      rw [search_eq, if_pos (by simp; omega)]
    rw [scan_of_skipped hs, scan_of_incomplete h3]
    rfl

-- Dropping bytes up to the first capture pattern leaves a scan with the same pages after its
-- leading skips.
theorem dropSkips_scan_of_resync {X Y : Octets} (h : Resync X Y) :
    dropSkips (scan X) = dropSkips (scan Y) := by
  obtain ⟨D, rfl, hno, hend⟩ := h
  rcases hend with hD | hc | hnone
  · subst hD
    rfl
  · cases D with
    | nil => rfl
    | cons d D =>
      have hfit := hc.le_length
      have hfirst : FirstCapture (d :: D ++ Y) (D.length + 1) := by
        refine ⟨?_, fun j hj => hno j (by simpa using hj)⟩
        exact (captureAt_append_length (d :: D)).mpr hc
      have hs : search (d :: D ++ Y) = .skipped Y := by
        have hc0 : ¬ CaptureAt (d :: D ++ Y) 0 := hno 0 (by simp)
        rw [search_eq, if_neg (by simp; omega), if_pos hc0,
          skipToCapture_of_first (by simpa using hfirst) (by omega)]
        simp
      rw [scan_of_skipped hs]
      rfl
  · have hall : ∀ j, ¬ CaptureAt (D ++ Y) j := by
      intro j hc
      by_cases hj : j < D.length
      · exact hno j hj hc
      · have : CaptureAt Y (j - D.length) := by
          rw [← captureAt_append_length D, show D.length + (j - D.length) = j by omega]
          exact hc
        exact hnone _ this
    rw [scan_of_no_capture hall, scan_of_no_capture hnone]

end Scan

section Steps

-- What is left for the framer to report from the bytes `X` it has still to search, when
-- `resyncing` tells whether the current stretch of dropped bytes has been counted already.
def upcoming (X : Octets) (resyncing : Bool) : List ScanStep :=
  if resyncing then dropSkips (scan X) else scan X

-- The next page of a scan, and the steps after it.
def nextFound : List ScanStep → Option Page × List ScanStep
  | [] => (none, [])
  | .skip :: l => nextFound l
  | .page p :: l => (some p, l)

-- A stretch of dropped bytes comes before the next page.
def lostMark : List ScanStep → Nat
  | .skip :: _ => 1
  | _ => 0

@[simp] theorem nextFound_dropSkips (l : List ScanStep) : nextFound (dropSkips l) = nextFound l := by
  induction l with
  | nil => rfl
  | cons x l ih => cases x <;> simp [dropSkips, nextFound, ih]

@[simp] theorem lostMark_dropSkips (l : List ScanStep) : lostMark (dropSkips l) = 0 := by
  induction l with
  | nil => rfl
  | cons x l ih =>
    cases x with
    | skip => exact ih
    | page p => rfl

theorem upcoming_of_page {B M rest : Octets} {p : Page} (r : Bool) (h : search B = .page p rest) :
    upcoming (B ++ M) r = .page p :: upcoming (rest ++ M) false := by
  have hX := scan_of_page (search_append_page (M := M) h)
  cases r <;> simp [upcoming, hX, dropSkips]

theorem upcoming_of_skipped {B M rest : Octets} (r : Bool) (h : search B = .skipped rest) :
    nextFound (upcoming (B ++ M) r) = nextFound (upcoming (rest ++ M) true) ∧
      lostMark (upcoming (B ++ M) r) = (if r then 0 else 1) + lostMark (upcoming (rest ++ M) true) := by
  obtain ⟨Y, hY, hres⟩ := search_append_skipped (M := M) h
  have hX := scan_of_skipped hY
  have hR : upcoming (rest ++ M) true = dropSkips (scan Y) := dropSkips_scan_of_resync hres
  rw [hR, lostMark_dropSkips]
  cases r
  case false => exact ⟨by simp [upcoming, hX, nextFound], by simp [upcoming, hX, lostMark]⟩
  case true => simp [upcoming, hX, dropSkips]

theorem upcoming_of_incomplete {B : Octets} (r : Bool) (h : search B = .incomplete) :
    upcoming (B ++ []) r = [] := by
  cases r <;> simp [upcoming, scan_of_incomplete h, dropSkips]

-- The number of stretches of dropped bytes in a scan: a skip starts one unless it directly
-- follows another.
def runsFrom : Bool → List ScanStep → Nat
  | _, [] => 0
  | _, .page _ :: l => runsFrom false l
  | inRun, .skip :: l => (if inRun then 0 else 1) + runsFrom true l

def lostRuns (l : List ScanStep) : Nat := runsFrom false l

theorem runsFrom_true (l : List ScanStep) : runsFrom true l = lostRuns (nextFound l).2 := by
  induction l with
  | nil => rfl
  | cons x l ih =>
    cases x with
    | skip => simpa [runsFrom, nextFound] using ih
    | page p => rfl

-- A page search takes the stretch before the next page off the count still to come.
theorem lostRuns_eq (l : List ScanStep) : lostRuns l = lostMark l + lostRuns (nextFound l).2 := by
  cases l with
  | nil => rfl
  | cons x l =>
    cases x with
    | skip => simp [lostRuns, runsFrom, lostMark, nextFound, runsFrom_true]
    | page p => simp [lostRuns, runsFrom, lostMark, nextFound]

-- The pages among the steps of a scan.
def pagesOf (l : List ScanStep) : List Page :=
  l.filterMap fun x => match x with
    | .skip => none
    | .page p => some p

theorem length_pagesOf_scan (X : Octets) : (pagesOf (scan X)).length ≤ X.length := by
  fun_induction scan X with
  | case1 X h => simp [pagesOf]
  | case2 X Y h ih =>
    have := search_skipped_lt h
    simp [pagesOf] at ih ⊢
    omega
  | case3 X p Y h ih =>
    obtain ⟨hX, h27⟩ := search_page_split h
    rw [hX]
    simp [pagesOf] at ih ⊢
    omega

theorem pagesOf_dropSkips (l : List ScanStep) : pagesOf (dropSkips l) = pagesOf l := by
  induction l with
  | nil => rfl
  | cons x l ih =>
    cases x with
    | skip => simpa [dropSkips, pagesOf] using ih
    | page p => rfl

theorem pagesOf_of_nextFound {l rest : List ScanStep} {q : Page} (h : nextFound l = (some q, rest)) :
    pagesOf l = q :: pagesOf rest := by
  induction l with
  | nil => simp [nextFound] at h
  | cons x l ih =>
    cases x with
    | skip => simpa [pagesOf] using ih h
    | page p =>
      simp only [nextFound, Prod.mk.injEq, Option.some.injEq] at h
      obtain ⟨rfl, rfl⟩ := h
      rfl

theorem nextFound_of_none {l rest : List ScanStep} (h : nextFound l = (none, rest)) :
    rest = [] ∧ pagesOf l = [] := by
  induction l with
  | nil => simp_all [nextFound, pagesOf]
  | cons x l ih =>
    cases x with
    | skip => simpa [pagesOf] using ih h
    | page p => simp [nextFound] at h

-- The pages joined to a unit that continues a packet: up to and including the first page that
-- does not continue one, or up to the end.
def joinFound : List ScanStep → List Page × List ScanStep
  | [] => ([], [])
  | .skip :: l => joinFound l
  | .page q :: l => if q.isContinued then (q :: (joinFound l).1, (joinFound l).2) else ([q], l)

theorem joinFound_of_some {l rest : List ScanStep} {q : Page} (h : nextFound l = (some q, rest)) :
    joinFound l = if q.isContinued then (q :: (joinFound rest).1, (joinFound rest).2) else ([q], rest) := by
  induction l with
  | nil => simp [nextFound] at h
  | cons x l ih =>
    cases x with
    | skip => exact ih h
    | page p =>
      simp only [nextFound, Prod.mk.injEq, Option.some.injEq] at h
      obtain ⟨rfl, rfl⟩ := h
      rfl

theorem joinFound_of_none {l rest : List ScanStep} (h : nextFound l = (none, rest)) :
    joinFound l = ([], []) := by
  induction l with
  | nil => rfl
  | cons x l ih =>
    cases x with
    | skip => exact ih h
    | page p => simp [nextFound] at h

theorem length_bytes_of_mem_scan {X : Octets} {p : Page} (h : p ∈ pagesOf (scan X)) :
    27 ≤ p.bytes.length := by
  fun_induction scan X with
  | case1 X hs => simp [pagesOf] at h
  | case2 X Y hs ih => exact ih (by simpa [pagesOf] using h)
  | case3 X q Y hs ih =>
    simp only [pagesOf, List.filterMap_cons, List.mem_cons] at h
    cases h with
    | inl h => subst h; exact (search_page_split hs).2
    | inr h => exact ih (by simpa [pagesOf] using h)

end Steps

section Valid

-- `q` is one whole page with a correct checksum, as a valid stream is made of.
structure IsPage (q : Octets) : Prop where
  capture : CaptureAt q 0
  version : q.getD 4 0 = 0
  header_le : 27 ≤ q.length
  length_eq : pageLength q = q.length
  crc : crcOk q = true

instance (q : Octets) : Decidable (IsPage q) :=
  decidable_of_iff (CaptureAt q 0 ∧ q.getD 4 0 = 0 ∧ 27 ≤ q.length ∧ pageLength q = q.length ∧ crcOk q = true)
    ⟨fun ⟨a, b, c, d, e⟩ => ⟨a, b, c, d, e⟩, fun ⟨a, b, c, d, e⟩ => ⟨a, b, c, d, e⟩⟩

theorem search_of_isPage {q : Octets} (h : IsPage q) (rest : Octets) :
    search (q ++ rest) = .page (pageOf q) rest := by
  have hc : CaptureAt (q ++ rest) 0 := (captureAt_append (by have := h.header_le; omega)).mpr h.capture
  have hv : (q ++ rest).getD 4 0 = q.getD 4 0 := List.getD_append _ _ _ _ (by have := h.header_le; omega)
  have hpl : pageLength (q ++ rest) = q.length := by
    rw [pageLength_append h.header_le (le_of_eq h.length_eq), h.length_eq]
  rw [search_eq, if_neg (by simp; have := h.header_le; omega), if_neg (not_not.mpr hc),
    if_neg (by simp; have := h.header_le; omega), hv, if_neg (not_not.mpr h.version), hpl,
    if_neg (by simp), List.take_left, if_pos h.crc, List.drop_left]

-- A stream of whole pages is scanned page by page, with nothing dropped.
theorem scan_of_pages (P : List Octets) (h : ∀ q ∈ P, IsPage q) :
    scan P.flatten = P.map fun q => .page (pageOf q) := by
  induction P with
  | nil => exact scan_of_incomplete (by rw [search_eq]; simp)
  | cons q P ih =>
    rw [List.flatten_cons, scan_of_page (search_of_isPage (h q List.mem_cons_self) _),
      ih fun q' hq' => h q' (List.mem_cons_of_mem _ hq'), List.map_cons]

theorem lostRuns_pages (P : List Octets) : lostRuns (P.map fun q => .page (pageOf q)) = 0 := by
  induction P with
  | nil => rfl
  | cons q P ih => exact ih

theorem pagesOf_pages (P : List Octets) : pagesOf (P.map fun q => .page (pageOf q)) = P.map pageOf := by
  simp [pagesOf, List.filterMap_map]

end Valid

end Ogg

end MediaRelay
