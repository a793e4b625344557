import Mathlib
import MediaRelay.Media.Flv
import MediaRelay.Proofs.Stream
import MediaRelay.Proofs.Requests

-- What an FLV reader does with any byte stream, whatever its cut into chunks: it accepts exactly
-- a file header followed by whole tags, hands out the tags one by one, publishes the file header
-- from the first call on, and counts the tags of unknown type. A declared header size out of
-- bounds is the only framing fault; it consumes the 9 bytes of the fixed part and nothing else.

namespace MediaRelay

namespace Flv

-- The length of the tag that starts `s`, trailer included, as its data size declares it.
def tagLength (s : Octets) : Nat :=
  15 + Octets.beNat (Octets.slice s 1 3)

def IsTag (T : Octets) : Prop :=
  T.length = tagLength T

instance : DecidablePred IsTag :=
  fun T => inferInstanceAs (Decidable (T.length = tagLength T))

-- The size that the fixed part of a file header at the start of `s` declares.
def declaredSize (s : Octets) : Nat :=
  Octets.beNat (Octets.slice s 5 4)

-- A file header with its first trailer: a declared size within the bounds the framer takes, and
-- as many bytes as it declares, plus the trailer.
def IsFileHeader (F : Octets) : Prop :=
  9 ≤ declaredSize F ∧ declaredSize F ≤ 1048576 ∧ F.length = declaredSize F + 4

instance : DecidablePred IsFileHeader :=
  fun F => inferInstanceAs (Decidable (9 ≤ declaredSize F ∧ _ ∧ _))

def isUnknown (T : Octets) : Bool :=
  (TagKind.ofByte? (T.headD 0)).isNone

def unknownTags (Ts : List Octets) : Nat :=
  (Ts.filter isUnknown).length

theorem IsTag.length_ge {T : Octets} (hT : IsTag T) : 15 ≤ T.length := by
  unfold IsTag tagLength at hT
  omega

theorem IsTag.ne_nil {T : Octets} (hT : IsTag T) : T ≠ [] := by
  intro h
  have := hT.length_ge
  simp [h] at this

theorem tagLength_append {T rest : Octets} (hT : IsTag T) : tagLength (T ++ rest) = T.length := by
  have hl := hT.length_ge
  unfold IsTag at hT
  rw [hT, tagLength, tagLength, Octets.slice_append (by omega)]

theorem isTag_take (hl : tagLength s ≤ s.length) : IsTag (s.take (tagLength s)) := by
  have h15 : 15 ≤ tagLength s := by simp [tagLength]
  unfold IsTag
  rw [List.length_take, Nat.min_eq_left hl, tagLength, tagLength, Octets.slice_take (by omega)]

theorem IsFileHeader.length_ge {F : Octets} (hF : IsFileHeader F) : 13 ≤ F.length := by
  have ⟨h9, _, hl⟩ := hF
  omega

theorem declaredSize_take {n : Nat} (h : 9 ≤ n) : declaredSize (s.take n) = declaredSize s := by
  simp only [declaredSize]
  rw [Octets.slice_take (by omega)]

theorem declaredSize_append {F : Octets} (rest : Octets) (hF : IsFileHeader F) :
    declaredSize (F ++ rest) = declaredSize F := by
  have := hF.length_ge
  rw [declaredSize, declaredSize, Octets.slice_append (by omega)]

theorem ofByte?_eq_none {b : UInt8} : TagKind.ofByte? b = none ↔ b ∉ ([8, 9, 18] : List UInt8) := by
  unfold TagKind.ofByte?
  split <;> simp_all

theorem unknownTags_eq (Ts : List Octets) :
    unknownTags Ts = Ts.countP fun T => T.headD 0 ∉ ([8, 9, 18] : List UInt8) := by
  rw [unknownTags, ← List.countP_eq_length_filter]
  congr 1
  funext T
  exact Bool.eq_iff_iff.mpr (by rw [isUnknown, Option.isNone_iff_eq_none, ofByte?_eq_none,
    decide_eq_true_iff])

theorem unknownTags_cons (T : Octets) (Ts : List Octets) :
    unknownTags (T :: Ts) = unknownTags [T] + unknownTags Ts := by
  simp only [unknownTags, List.filter_cons]
  split <;> simp [Nat.add_comm]

theorem declaredHeaderLength_of_bounds {fixed : Octets} (h9 : 9 ≤ declaredSize fixed)
    (hmax : declaredSize fixed ≤ 1048576) :
    declaredHeaderLength fixed = .ok (declaredSize fixed + 4) := by
  simp only [declaredSize] at h9 hmax
  simp [declaredHeaderLength, declaredSize, fileHeaderSize, maxFileHeaderSize, trailerSize,
    Nat.not_lt.mpr h9, Nat.not_lt.mpr hmax]

theorem declaredHeaderLength_cases (fixed : Octets) :
    (∃ e, declaredHeaderLength fixed = .error e) ∨
      (9 ≤ declaredSize fixed ∧ declaredSize fixed ≤ 1048576 ∧
        declaredHeaderLength fixed = .ok (declaredSize fixed + 4)) := by
  by_cases h9 : 9 ≤ declaredSize fixed
  · by_cases hmax : declaredSize fixed ≤ 1048576
    · exact .inr ⟨h9, hmax, declaredHeaderLength_of_bounds h9 hmax⟩
    · refine .inl ⟨.flvHeaderTooLong (declaredSize fixed) maxFileHeaderSize, ?_⟩
      simp only [declaredSize] at h9 hmax
      simp [declaredHeaderLength, declaredSize, fileHeaderSize, maxFileHeaderSize,
        Nat.not_lt.mpr h9, Nat.lt_of_not_le hmax]
  · refine .inl ⟨.flvHeaderTooShort (declaredSize fixed), ?_⟩
    simp only [declaredSize] at h9
    simp [declaredHeaderLength, declaredSize, fileHeaderSize, Nat.lt_of_not_le h9]

variable {f f' : Framing ChunkSource Bool} {s : Octets}

theorem readTag_nil (h : f.source.Holds []) :
    ∃ b', b'.Holds [] ∧ readTag f = .ok [] { f with source := b' } := by
  have ⟨b', hr, h'⟩ := Buffered.readExactOrEof_nil (n := tagHeaderSize) h
  refine ⟨b', h', ?_⟩
  simp only [readTag]
  rw [EStateM.bind_of_ok (Framing.onSource_of_ok hr)]
  rfl

theorem readTag_of_le (h : f.source.Holds s) (hl : tagLength s ≤ s.length) :
    ∃ b', b'.Holds (s.drop (tagLength s)) ∧
      readTag f = .ok (s.take (tagLength s))
        { f with source := b', broken := f.broken + unknownTags [s.take (tagLength s)] } := by
  have hlt : tagHeaderSize < tagLength s := by simp [tagLength, tagHeaderSize]; omega
  have ⟨b₁, hr₁, h₁⟩ := Buffered.readExactOrEof_full (n := tagHeaderSize) h (by decide) (by omega)
  have hrem : (TagHeader.parse (s.take tagHeaderSize)).remainingLength =
      tagLength s - tagHeaderSize := by
    simp only [TagHeader.remainingLength, TagHeader.parse, trailerSize, tagHeaderSize, tagLength]
    rw [Octets.slice_take (by omega)]
    omega
  have ⟨b₂, hr₂, h₂⟩ := Buffered.readExactOrEof_full h₁ (n := tagLength s - tagHeaderSize)
    (by omega) (by simp; omega)
  refine ⟨b₂, by simpa [List.drop_drop, Nat.add_sub_cancel' (Nat.le_of_lt hlt)] using h₂, ?_⟩
  simp only [readTag]
  rw [EStateM.bind_of_ok (Framing.onSource_of_ok (f := f) hr₁)]
  simp only [hrem]
  rw [EStateM.bind_of_ok (Framing.onSource_of_ok hr₂)]
  have hunit : s.take tagHeaderSize ++ (s.drop tagHeaderSize).take (tagLength s - tagHeaderSize) =
      s.take (tagLength s) := by
    rw [← List.take_add, Nat.add_sub_cancel' (Nat.le_of_lt hlt)]
  have hkind : (TagHeader.parse (s.take tagHeaderSize)).kind?.isNone =
      isUnknown (s.take (tagLength s)) := by
    simp [TagHeader.kind?, TagHeader.parse, isUnknown, List.head?_take, tagHeaderSize,
      show tagLength s ≠ 0 by omega]
  dsimp only
  rw [hkind, hunit]
  cases hk : isUnknown (s.take (tagLength s))
  case false => simp [unknownTags, hk]
  case true =>
    simp only [if_true]
    rw [EStateM.bind_of_ok Framing.markBroken_apply]
    simp [unknownTags, hk]

theorem readTag_of_lt (h : f.source.Holds s) (hs : s ≠ []) (hl : s.length < tagLength s) :
    ∃ e b', b'.Holds [] ∧ readTag f = .error (.io e) { f with source := b' } := by
  by_cases hh : s.length < tagHeaderSize
  · have ⟨b', hr, h'⟩ := Buffered.readExactOrEof_short h hs hh
    refine ⟨.endedAfter s.length tagHeaderSize, b', h', ?_⟩
    simp only [readTag]
    rw [EStateM.bind_of_error (Framing.onSource_of_error hr)]
  · have ⟨b₁, hr₁, h₁⟩ := Buffered.readExactOrEof_full (n := tagHeaderSize) h (by decide) (by omega)
    have hrem : (TagHeader.parse (s.take tagHeaderSize)).remainingLength =
        tagLength s - tagHeaderSize := by
      simp only [TagHeader.remainingLength, TagHeader.parse, trailerSize, tagHeaderSize, tagLength]
      rw [Octets.slice_take (by omega)]
      omega
    have hshort : (s.drop tagHeaderSize).length < tagLength s - tagHeaderSize := by simp; omega
    by_cases hd : s.drop tagHeaderSize = []
    · rw [hd] at h₁
      have ⟨b₂, hr₂, h₂⟩ := Buffered.readExactOrEof_nil (n := tagLength s - tagHeaderSize) h₁
      refine ⟨.endedInside "FLV tag body", b₂, h₂, ?_⟩
      simp only [readTag]
      rw [EStateM.bind_of_ok (Framing.onSource_of_ok (f := f) hr₁)]
      simp only [hrem]
      rw [EStateM.bind_of_ok (Framing.onSource_of_ok hr₂)]
      rfl
    · have ⟨b₂, hr₂, h₂⟩ := Buffered.readExactOrEof_short h₁ hd hshort
      refine ⟨.endedAfter (s.drop tagHeaderSize).length (tagLength s - tagHeaderSize), b₂, h₂, ?_⟩
      simp only [readTag]
      rw [EStateM.bind_of_ok (Framing.onSource_of_ok (f := f) hr₁)]
      simp only [hrem]
      rw [EStateM.bind_of_error (Framing.onSource_of_error hr₂)]

theorem readTag_ok_or_io (h : f.source.Holds s) :
    (∃ u f', readTag f = .ok u f') ∨ ∃ e f', readTag f = .error (.io e) f' := by
  by_cases hs : s = []
  · subst hs
    have ⟨b', _, hr⟩ := readTag_nil (f := f) h
    exact .inl ⟨_, _, hr⟩
  by_cases hl : tagLength s ≤ s.length
  · have ⟨b', _, hr⟩ := readTag_of_le (f := f) h hl
    exact .inl ⟨_, _, hr⟩
  · have ⟨e, b', _, hr⟩ := readTag_of_lt (f := f) h hs (by omega)
    exact .inr ⟨_, _, hr⟩

theorem readTag_ne_framing {e : FramingFault} (h : f.source.Holds s) :
    readTag f ≠ .error (.framing e) f' := by
  intro he
  cases readTag_ok_or_io h
  case inl hok =>
    have ⟨u, f'', hr⟩ := hok
    rw [hr] at he
    cases he
  case inr hio =>
    have ⟨e', f'', hr⟩ := hio
    rw [hr] at he
    cases he

theorem readFileHeader_nil (h : f.source.Holds []) :
    ∃ b', b'.Holds [] ∧ readFileHeader f = .ok none { f with source := b' } := by
  have ⟨b', hr, h'⟩ := Buffered.readExactOrEof_nil (n := fileHeaderSize) h
  refine ⟨b', h', ?_⟩
  simp only [readFileHeader]
  rw [EStateM.bind_of_ok (Framing.onSource_of_ok hr)]
  rfl

theorem readFileHeader_short (h : f.source.Holds s) (hs : s ≠ []) (hl : s.length < fileHeaderSize) :
    ∃ b', b'.Holds [] ∧
      readFileHeader f = .error (.io (.endedAfter s.length fileHeaderSize)) { f with source := b' } := by
  have ⟨b', hr, h'⟩ := Buffered.readExactOrEof_short h hs hl
  refine ⟨b', h', ?_⟩
  simp only [readFileHeader]
  rw [EStateM.bind_of_error (Framing.onSource_of_error hr)]

theorem readFileHeader_refused {e : FramingFault} (h : f.source.Holds s)
    (hl : fileHeaderSize ≤ s.length) (he : declaredHeaderLength (s.take fileHeaderSize) = .error e) :
    ∃ b', b'.Holds (s.drop fileHeaderSize) ∧
      readFileHeader f = .error (.framing e) { f with source := b' } := by
  have ⟨b', hr, h'⟩ := Buffered.readExactOrEof_full h (by decide) hl
  refine ⟨b', h', ?_⟩
  simp only [readFileHeader]
  rw [EStateM.bind_of_ok (Framing.onSource_of_ok hr)]
  simp only [he]
  rfl

theorem readFileHeader_of_le (h : f.source.Holds s) (hl : fileHeaderSize ≤ s.length)
    (h9 : 9 ≤ declaredSize s) (hmax : declaredSize s ≤ 1048576)
    (hlen : declaredSize s + 4 ≤ s.length) :
    ∃ b', b'.Holds (s.drop (declaredSize s + 4)) ∧
      readFileHeader f =
        .ok (some ()) { f with source := b', header := s.take (declaredSize s + 4), own := true } := by
  have ⟨b₁, hr₁, h₁⟩ := Buffered.readExactOrEof_full h (by decide) hl
  have hd : declaredHeaderLength (s.take fileHeaderSize) = .ok (declaredSize s + 4) := by
    rw [← declaredSize_take (n := fileHeaderSize) (by decide)] at h9 hmax ⊢
    exact declaredHeaderLength_of_bounds h9 hmax
  have ⟨b₂, hr₂, h₂⟩ := Buffered.readExactOrEof_full h₁ (n := declaredSize s + 4 - fileHeaderSize)
    (by simp [fileHeaderSize]; omega) (by simp [fileHeaderSize] at *; omega)
  have hsplit : fileHeaderSize + (declaredSize s + 4 - fileHeaderSize) = declaredSize s + 4 := by
    simp [fileHeaderSize]; omega
  refine ⟨b₂, by simpa [List.drop_drop, hsplit] using h₂, ?_⟩
  simp only [readFileHeader]
  rw [EStateM.bind_of_ok (Framing.onSource_of_ok hr₁)]
  simp only [hd]
  rw [EStateM.bind_of_ok (EStateM.pure_apply), EStateM.bind_of_ok (Framing.onSource_of_ok hr₂)]
  dsimp only
  rw [← List.take_add, hsplit, EStateM.bind_of_ok Framing.setHeader_apply,
    EStateM.bind_of_ok Framing.setOwn_apply]
  rfl

theorem readFileHeader_unfinished (h : f.source.Holds s) (hl : fileHeaderSize ≤ s.length)
    (h9 : 9 ≤ declaredSize s) (hmax : declaredSize s ≤ 1048576)
    (hlen : s.length < declaredSize s + 4) :
    ∃ e b', b'.Holds [] ∧ readFileHeader f = .error (.io e) { f with source := b' } := by
  have ⟨b₁, hr₁, h₁⟩ := Buffered.readExactOrEof_full h (by decide) hl
  have hd : declaredHeaderLength (s.take fileHeaderSize) = .ok (declaredSize s + 4) := by
    rw [← declaredSize_take (n := fileHeaderSize) (by decide)] at h9 hmax ⊢
    exact declaredHeaderLength_of_bounds h9 hmax
  have hshort : (s.drop fileHeaderSize).length < declaredSize s + 4 - fileHeaderSize := by
    simp [fileHeaderSize] at *; omega
  by_cases hrest : s.drop fileHeaderSize = []
  · rw [hrest] at h₁
    have ⟨b₂, hr₂, h₂⟩ := Buffered.readExactOrEof_nil (n := declaredSize s + 4 - fileHeaderSize) h₁
    refine ⟨.endedInside "FLV file header", b₂, h₂, ?_⟩
    simp only [readFileHeader]
    rw [EStateM.bind_of_ok (Framing.onSource_of_ok hr₁)]
    simp only [hd]
    rw [EStateM.bind_of_ok (EStateM.pure_apply), EStateM.bind_of_ok (Framing.onSource_of_ok hr₂)]
    rfl
  · have ⟨b₂, hr₂, h₂⟩ := Buffered.readExactOrEof_short h₁ hrest hshort
    refine ⟨.endedAfter (s.drop fileHeaderSize).length (declaredSize s + 4 - fileHeaderSize), b₂, h₂,
      ?_⟩
    simp only [readFileHeader]
    rw [EStateM.bind_of_ok (Framing.onSource_of_ok hr₁)]
    simp only [hd]
    rw [EStateM.bind_of_ok (EStateM.pure_apply), EStateM.bind_of_error (Framing.onSource_of_error hr₂)]

theorem nextUnit_of_read (ho : f.own = true) : nextUnit f = readTag f := by
  simp [nextUnit, bind, EStateM.bind, ho]

theorem nextUnit_of_eof (ho : f.own = false) (h : readFileHeader f = .ok none f') :
    nextUnit f = .ok [] f' := by
  simp [nextUnit, bind, EStateM.bind, ho, h]

theorem nextUnit_of_header (ho : f.own = false) (h : readFileHeader f = .ok (some ()) f') :
    nextUnit f = readTag f' := by
  simp [nextUnit, bind, EStateM.bind, ho, h]

theorem nextUnit_of_header_error {e : Fault} (ho : f.own = false)
    (h : readFileHeader f = .error e f') : nextUnit f = .error e f' := by
  simp [nextUnit, bind, EStateM.bind, ho, h]

theorem nextUnit_of_fileHeader {F rest : Octets} (hF : IsFileHeader F) (ho : f.own = false)
    (h : f.source.Holds (F ++ rest)) :
    ∃ b', b'.Holds rest ∧ nextUnit f = readTag { f with source := b', header := F, own := true } := by
  have hl := hF.length_ge
  have ⟨h9, hmax, hlen⟩ := hF
  have hd := declaredSize_append rest hF
  have ⟨b', h', hr⟩ := readFileHeader_of_le h (by simp [fileHeaderSize]; omega) (by omega)
    (by omega) (by simp; omega)
  rw [hd, ← hlen, List.drop_left] at h'
  rw [hd, ← hlen, List.take_left] at hr
  exact ⟨b', h', nextUnit_of_header ho hr⟩

theorem nextUnit_flv {r : Reader ChunkSource .flv} : Reader.nextUnit .flv r = nextUnit r :=
  rfl

def tagReports (F : Octets) : Nat → List Octets → List Reader.Report
  | b, [] => [⟨.ok (.unit []), F, b⟩]
  | b, T :: Ts => ⟨.ok (.unit T), F, b + unknownTags [T]⟩ :: tagReports F (b + unknownTags [T]) Ts

theorem tagReports_outcome (F : Octets) (b : Nat) (Ts : List Octets) :
    (tagReports F b Ts).map (·.outcome) = (Ts ++ [[]]).map fun T => .ok (.unit T) := by
  induction Ts generalizing b with
  | nil => rfl
  | cons T Ts ih => simp [tagReports, ih]

theorem tagReports_header (F : Octets) (b : Nat) (Ts : List Octets) :
    (tagReports F b Ts).map (·.header) = (Ts ++ [[]]).map fun _ => F := by
  induction Ts generalizing b with
  | nil => rfl
  | cons T Ts ih => simp [tagReports, ih]

theorem tagReports_last (F : Octets) (b : Nat) (Ts : List Octets) :
    (tagReports F b Ts).getLast? = some ⟨.ok (.unit []), F, b + unknownTags Ts⟩ := by
  induction Ts generalizing b with
  | nil => rfl
  | cons T Ts ih =>
    have hne : tagReports F (b + unknownTags [T]) Ts ≠ [] := by cases Ts <;> simp [tagReports]
    rw [tagReports, List.getLast?_cons_of_ne_nil hne, ih, unknownTags_cons T Ts, Nat.add_assoc]

theorem drain_tags {Ts : List Octets} (hTs : ∀ T ∈ Ts, IsTag T) :
    ∀ (f : Reader ChunkSource .flv) (limit : Nat), f.own = true → f.source.Holds Ts.flatten →
      Ts.length < limit → Reader.drain .flv limit f = tagReports f.header f.broken Ts := by
  induction Ts with
  | nil =>
    intro f limit ho h hl
    have ⟨b', h', hr⟩ := readTag_nil (f := f) h
    cases limit with
    | zero => omega
    | succ limit =>
      rw [Reader.drain_of_nil (nextUnit_flv.trans ((nextUnit_of_read ho).trans hr))]
      rfl
  | cons T Ts ih =>
    intro f limit ho h hl
    rw [List.flatten_cons] at h
    have hT := hTs T List.mem_cons_self
    have hlen : tagLength (T ++ Ts.flatten) = T.length := tagLength_append hT
    have ⟨b', h', hr⟩ := readTag_of_le (f := f) h (by simp [hlen])
    rw [hlen, List.drop_left] at h'
    rw [hlen, List.take_left] at hr
    cases limit with
    | zero => omega
    | succ limit =>
      rw [Reader.drain_of_ne_nil hT.ne_nil (nextUnit_flv.trans ((nextUnit_of_read ho).trans hr))]
      exact congrArg _ (ih (fun T' hT' => hTs T' (List.mem_cons_of_mem _ hT'))
        { f with source := b', broken := f.broken + unknownTags [T] } limit ho h'
        (by simp at hl; omega))

theorem tags_of_drain (limit : Nat) :
    ∀ (f : Reader ChunkSource .flv) (s : Octets),
      (Reader.drain .flv limit f).getLast?.map (·.outcome) = some (.ok (.unit [])) →
      f.own = true → f.source.Holds s → ∃ Ts : List Octets, (∀ T ∈ Ts, IsTag T) ∧ s = Ts.flatten := by
  induction limit with
  | zero =>
    intro f s hd
    simp [Reader.drain] at hd
  | succ limit ih =>
    intro f s hd ho h
    by_cases hs : s = []
    · exact ⟨[], by simp, by simp [hs]⟩
    by_cases hl : tagLength s ≤ s.length
    · obtain ⟨b', h', hr⟩ := readTag_of_le (f := f) h hl
      have hT := isTag_take hl
      rw [Reader.drain_of_ne_nil hT.ne_nil (nextUnit_flv.trans ((nextUnit_of_read ho).trans hr))]
        at hd
      cases Reader.last_outcome_cons hd
      case inl hstop =>
        -- the drain stopped at the tag, which is no end of the stream
        simp only [Except.ok.injEq, Reader.Outcome.unit.injEq] at hstop
        exact absurd hstop.2 hT.ne_nil
      case inr hd =>
        obtain ⟨Ts, hTs, hflat⟩ := ih _ _ hd ho h'
        refine ⟨s.take (tagLength s) :: Ts, ?_, ?_⟩
        · intro T hT'
          cases List.mem_cons.mp hT'
          case inl he => exact he ▸ hT
          case inr hm => exact hTs T hm
        · rw [List.flatten_cons, ← hflat, List.take_append_drop]
    · obtain ⟨e, b', h', hr⟩ := readTag_of_lt (f := f) h hs (by omega)
      rw [Reader.drain_of_error (nextUnit_flv.trans ((nextUnit_of_read ho).trans hr))] at hd
      simp at hd

theorem drain_wellformed {F : Octets} {Ts : List Octets} (hF : IsFileHeader F)
    (hTs : ∀ T ∈ Ts, IsTag T) {r : Reader ChunkSource .flv} (ho : r.own = false)
    (h : r.source.Holds (F ++ Ts.flatten)) {limit : Nat} (hl : Ts.length < limit) :
    Reader.drain .flv limit r = tagReports F r.broken Ts := by
  have ⟨b', h', hr⟩ := nextUnit_of_fileHeader (f := r) hF ho h
  have hstep : Reader.nextUnit .flv r =
      Reader.nextUnit .flv ({ r with source := b', header := F, own := true } : Framing _ Bool) :=
    hr.trans (nextUnit_of_read rfl).symm
  rw [Reader.drain_congr hstep]
  exact drain_tags hTs _ limit rfl h' hl

theorem wellformed_of_drain {limit : Nat} {r : Reader ChunkSource .flv} {s : Octets}
    (hd : (Reader.drain .flv limit r).getLast?.map (·.outcome) = some (.ok (.unit [])))
    (ho : r.own = false) (h : r.source.Holds s) :
    s = [] ∨ ∃ (F : Octets) (Ts : List Octets), IsFileHeader F ∧ (∀ T ∈ Ts, IsTag T) ∧
      s = F ++ Ts.flatten := by
  cases limit with
  | zero => simp [Reader.drain] at hd
  | succ limit =>
  by_cases hs : s = []
  · exact .inl hs
  by_cases h9 : s.length < fileHeaderSize
  · obtain ⟨b', _, hr⟩ := readFileHeader_short (f := r) h hs h9
    rw [Reader.drain_of_error (nextUnit_flv.trans (nextUnit_of_header_error ho hr))] at hd
    simp at hd
  cases declaredHeaderLength_cases (s.take fileHeaderSize)
  case inl hbad =>
    obtain ⟨e, he⟩ := hbad
    obtain ⟨b', _, hr⟩ := readFileHeader_refused (f := r) h (by omega) he
    rw [Reader.drain_of_error (nextUnit_flv.trans (nextUnit_of_header_error ho hr))] at hd
    simp at hd
  case inr hgood =>
    obtain ⟨hmin, hmax, _⟩ := hgood
    rw [declaredSize_take (by decide)] at hmin hmax
    by_cases hlen : s.length < declaredSize s + 4
    · obtain ⟨e, b', _, hr⟩ := readFileHeader_unfinished (f := r) h (by omega) hmin hmax hlen
      rw [Reader.drain_of_error (nextUnit_flv.trans (nextUnit_of_header_error ho hr))] at hd
      simp at hd
    · obtain ⟨b', h', hr⟩ := readFileHeader_of_le (f := r) h (by omega) hmin hmax (by omega)
      have hstep : Reader.nextUnit .flv r = Reader.nextUnit .flv
          ({ r with source := b', header := s.take (declaredSize s + 4), own := true } :
            Framing _ Bool) :=
        (nextUnit_of_header ho hr).trans (nextUnit_of_read rfl).symm
      rw [Reader.drain_congr hstep] at hd
      obtain ⟨Ts, hTs, hflat⟩ := tags_of_drain _ _ _ hd rfl h'
      refine .inr ⟨s.take (declaredSize s + 4), Ts, ⟨?_, ?_, ?_⟩, hTs, ?_⟩
      · rw [declaredSize_take (by omega)]; exact hmin
      · rw [declaredSize_take (by omega)]; exact hmax
      · rw [List.length_take, Nat.min_eq_left (by omega), declaredSize_take (by omega)]
      · rw [← hflat, List.take_append_drop]

theorem runSteps_empty (n : Nat) :
    ∀ r : Reader ChunkSource .flv, r.own = false → r.source.Holds [] →
      Reader.runSteps .flv (List.replicate n .next) r =
        List.replicate n ⟨.ok (.unit []), r.header, r.broken⟩ := by
  induction n with
  | zero => intro r _ _; rfl
  | succ n ih =>
    intro r ho h
    have ⟨b', h', hr⟩ := readFileHeader_nil (f := r) h
    have hrep := Reader.report_of_ok (Reader.step_next_of_ok (nextUnit_flv.trans (nextUnit_of_eof ho hr)))
    rw [List.replicate_succ, Reader.runSteps_cons, hrep]
    exact congrArg _ (ih _ ho h')

theorem nextUnit_framing_fault {r r' : Reader ChunkSource .flv} {e : FramingFault}
    (he : Reader.nextUnit .flv r = .error (.framing e) r') (h : r.source.Holds s) :
    r'.header = r.header ∧ r'.broken = r.broken ∧ r'.own = false ∧
      fileHeaderSize ≤ s.length ∧ declaredHeaderLength (s.take fileHeaderSize) = .error e ∧
      r'.source.Holds (s.drop fileHeaderSize) := by
  cases ho : r.own
  case true =>
    exact absurd ((nextUnit_flv.symm.trans he).symm.trans (nextUnit_of_read ho)).symm
      (readTag_ne_framing h)
  case false =>
    have he' : nextUnit r = .error (.framing e) r' := nextUnit_flv.symm.trans he
    by_cases hs : s = []
    · subst hs
      have ⟨b', _, hr⟩ := readFileHeader_nil (f := r) h
      rw [nextUnit_of_eof ho hr] at he'
      cases he'
    by_cases h9 : s.length < fileHeaderSize
    · have ⟨b', _, hr⟩ := readFileHeader_short (f := r) h hs h9
      rw [nextUnit_of_header_error ho hr] at he'
      cases he'
    cases declaredHeaderLength_cases (s.take fileHeaderSize)
    case inl hbad =>
      -- the refusal this call reports
      have ⟨e', he''⟩ := hbad
      have ⟨b', h', hr⟩ := readFileHeader_refused (f := r) h (by omega) he''
      rw [nextUnit_of_header_error ho hr] at he'
      cases he'
      exact ⟨rfl, rfl, ho, by omega, he'', h'⟩
    case inr hgood =>
      have ⟨hmin, hmax, _⟩ := hgood
      rw [declaredSize_take (by decide)] at hmin hmax
      by_cases hlen : s.length < declaredSize s + 4
      · have ⟨e', b', _, hr⟩ := readFileHeader_unfinished (f := r) h (by omega) hmin hmax hlen
        rw [nextUnit_of_header_error ho hr] at he'
        cases he'
      · have ⟨b', h', hr⟩ := readFileHeader_of_le (f := r) h (by omega) hmin hmax (by omega)
        rw [nextUnit_of_header ho hr] at he'
        exact absurd he' (readTag_ne_framing h')

-- The FLV grammar, read off any solid chunking of a stream: the drain ends at the end of the
-- stream exactly on an empty stream or a file header followed by whole tags; then it hands out
-- the tags in order with the file header published after every call, and counts the tags of
-- unknown type. Every framing fault leaves the header and the count alone and resumes right
-- after the 9 bytes it refused.
theorem drain_accepts_flv_grammar (cs : List Chunk) (hcs : ChunkSource.Solid cs) :
    let s := ChunkSource.bytesOf cs
    let r₀ := Reader.start .flv (ChunkSource.mk cs)
    r₀.header = MediaKind.flvDefaultHeader ∧
    ((∃ limit, (Reader.drain .flv limit r₀).getLast?.map (·.outcome) = some (.ok (.unit []))) ↔
        s = [] ∨ ∃ (F : Octets) (Ts : List Octets),
          IsFileHeader F ∧ (∀ T ∈ Ts, IsTag T) ∧ s = F ++ Ts.flatten) ∧
      (s = [] → ∀ n, Reader.runSteps .flv (List.replicate n .next) r₀ =
        List.replicate n ⟨.ok (.unit []), MediaKind.flvDefaultHeader, 0⟩) ∧
      (∀ (F : Octets) (Ts : List Octets), IsFileHeader F → (∀ T ∈ Ts, IsTag T) →
        s = F ++ Ts.flatten → ∀ limit, Ts.length < limit →
          (Reader.drain .flv limit r₀).map (·.outcome) =
              (Ts ++ [[]]).map (fun T => (.ok (.unit T) : Except Fault Reader.Outcome)) ∧
            (Reader.drain .flv limit r₀).map (·.header) = (Ts ++ [[]]).map (fun _ => F) ∧
            (Reader.drain .flv limit r₀).getLast?.map (·.broken) =
              some (Ts.countP fun T => T.headD 0 ∉ ([8, 9, 18] : List UInt8))) ∧
      (∀ (r r' : Reader ChunkSource .flv) (t : Octets) (e : FramingFault), r.source.Holds t →
        Reader.nextUnit .flv r = .error (.framing e) r' →
          r'.header = r.header ∧ r'.broken = r.broken ∧ r'.own = false ∧
            fileHeaderSize ≤ t.length ∧ declaredHeaderLength (t.take fileHeaderSize) = .error e ∧
            r'.source.Holds (t.drop fileHeaderSize)) := by
  intro s r₀
  have h₀ : r₀.source.Holds s := Buffered.holds_start hcs
  have hempty := fun (hs : s = []) n => runSteps_empty n r₀ rfl (hs ▸ h₀)
  refine ⟨rfl, ⟨fun ⟨_, hd⟩ => wellformed_of_drain hd rfl h₀, fun hg => ?_⟩, hempty, ?_,
    fun r r' t e h he => nextUnit_framing_fault he h⟩
  · cases hg
    case inl hs =>
      -- a single request already reports the end of the stream
      have ⟨b', _, hr⟩ := readFileHeader_nil (f := r₀) (hs ▸ h₀)
      refine ⟨1, ?_⟩
      rw [Reader.drain_of_nil (nextUnit_flv.trans (nextUnit_of_eof rfl hr))]
      rfl
    case inr hwf =>
      have ⟨F, Ts, hF, hTs, hs⟩ := hwf
      refine ⟨Ts.length + 1, ?_⟩
      rw [drain_wellformed hF hTs rfl (hs ▸ h₀) (Nat.lt_succ_self _), tagReports_last]
      rfl
  · intro F Ts hF hTs hs limit hl
    rw [drain_wellformed hF hTs rfl (hs ▸ h₀) hl]
    refine ⟨tagReports_outcome _ _ _, tagReports_header _ _ _, ?_⟩
    rw [tagReports_last, ← unknownTags_eq]
    exact congrArg some (Nat.zero_add _)

-- A file header and one video tag, served as a single chunk.
theorem drain_accepts_flv_grammar_one_tag :
    ChunkSource.Solid
      [.data (MediaKind.flvDefaultHeader ++ [9, 0, 0, 1, 0, 0, 0, 0, 0, 0, 0, 0x17, 0, 0, 0, 12])] ∧
    let s := ChunkSource.bytesOf
      [.data (MediaKind.flvDefaultHeader ++ [9, 0, 0, 1, 0, 0, 0, 0, 0, 0, 0, 0x17, 0, 0, 0, 12])]
    let r₀ := Reader.start .flv (ChunkSource.mk
      [.data (MediaKind.flvDefaultHeader ++ [9, 0, 0, 1, 0, 0, 0, 0, 0, 0, 0, 0x17, 0, 0, 0, 12])])
    r₀.header = MediaKind.flvDefaultHeader ∧
    ((∃ limit, (Reader.drain .flv limit r₀).getLast?.map (·.outcome) = some (.ok (.unit []))) ↔
        s = [] ∨ ∃ (F : Octets) (Ts : List Octets),
          IsFileHeader F ∧ (∀ T ∈ Ts, IsTag T) ∧ s = F ++ Ts.flatten) ∧
      (s = [] → ∀ n, Reader.runSteps .flv (List.replicate n .next) r₀ =
        List.replicate n ⟨.ok (.unit []), MediaKind.flvDefaultHeader, 0⟩) ∧
      (∀ (F : Octets) (Ts : List Octets), IsFileHeader F → (∀ T ∈ Ts, IsTag T) →
        s = F ++ Ts.flatten → ∀ limit, Ts.length < limit →
          (Reader.drain .flv limit r₀).map (·.outcome) =
              (Ts ++ [[]]).map (fun T => (.ok (.unit T) : Except Fault Reader.Outcome)) ∧
            (Reader.drain .flv limit r₀).map (·.header) = (Ts ++ [[]]).map (fun _ => F) ∧
            (Reader.drain .flv limit r₀).getLast?.map (·.broken) =
              some (Ts.countP fun T => T.headD 0 ∉ ([8, 9, 18] : List UInt8))) ∧
      (∀ (r r' : Reader ChunkSource .flv) (t : Octets) (e : FramingFault), r.source.Holds t →
        Reader.nextUnit .flv r = .error (.framing e) r' →
          r'.header = r.header ∧ r'.broken = r.broken ∧ r'.own = false ∧
            fileHeaderSize ≤ t.length ∧ declaredHeaderLength (t.take fileHeaderSize) = .error e ∧
            r'.source.Holds (t.drop fileHeaderSize)) :=
  ⟨ChunkSource.solid_single _, drain_accepts_flv_grammar _ (ChunkSource.solid_single _)⟩

end Flv

end MediaRelay
