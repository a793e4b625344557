import Mathlib
import MediaRelay.Media.Reader
import MediaRelay.Proofs.Stream
import MediaRelay.Proofs.Requests

-- A transport stream reader cuts whatever its source serves into units of 1050 cells: the
-- consecutive 197400-byte slices of the stream, the last one shorter where the stream ends, and
-- then the empty unit. Every unit but the last holds whole cells, so the cells of the units are
-- the cells of the stream, and the broken count it keeps is the number of unsynced cells in what
-- it has handed out.

namespace MediaRelay

namespace TransportStream

-- Cells do not straddle a boundary at a multiple of the cell size.
theorem cellsUpTo_append (m m' : Nat) {a : Octets} (ha : a.length = cellSize * m) (b : Octets) :
    cellsUpTo (m + m') (a ++ b) = cellsUpTo m a ++ cellsUpTo m' b := by
  induction m generalizing a with
  | zero =>
    rw [Nat.mul_zero, List.length_eq_zero_iff] at ha
    simp [ha, cellsUpTo]
  | succ m ih =>
    have hle : cellSize ≤ a.length := by rw [ha, Nat.mul_succ]; omega
    have hrest : (a.drop cellSize).length = cellSize * m := by
      rw [List.length_drop, ha, Nat.mul_succ]; omega
    rw [Nat.succ_add, cellsUpTo, cellsUpTo, List.take_append_of_le_length hle,
      List.drop_append_of_le_length hle, ih hrest, List.cons_append]

theorem cells_append {a : Octets} (ha : cellSize ∣ a.length) (b : Octets) :
    cells (a ++ b) = cells a ++ cells b := by
  obtain ⟨m, hm⟩ := ha
  have hc : 0 < cellSize := by decide
  have hdiv : (a ++ b).length / cellSize = m + b.length / cellSize := by
    rw [List.length_append, hm, Nat.mul_add_div hc]
  have hm' : a.length / cellSize = m := by rw [hm, Nat.mul_div_cancel_left m hc]
  rw [cells, cells, cells, hdiv, hm', cellsUpTo_append m _ hm]

theorem unsyncedCount_append {a : Octets} (ha : cellSize ∣ a.length) (b : Octets) :
    unsyncedCount (a ++ b) = unsyncedCount a + unsyncedCount b := by
  simp [unsyncedCount, cells_append ha, List.filter_append]

@[simp] theorem unsyncedCount_nil : unsyncedCount [] = 0 := rfl

end TransportStream

namespace Octets

-- The consecutive `n`-byte slices of a byte string, the last one shorter where it ends.
def slices (n : Nat) (s : Octets) : List Octets :=
  (List.range ((s.length + n - 1) / n)).map fun i => slice s (i * n) n

variable {n : Nat} {s : Octets}

@[simp] theorem length_slices : (slices n s).length = (s.length + n - 1) / n := by
  simp [slices]

@[simp] theorem slices_nil : slices n [] = [] := by
  cases n with
  | zero => rfl
  | succ n => simp [slices, Nat.div_eq_of_lt (Nat.lt_succ_self n)]

-- A non-empty string has one slice more than what follows its first slice.
theorem ceilDiv_succ {L : Nat} (hn : 0 < n) (hL : 0 < L) :
    (L + n - 1) / n = (L - n + n - 1) / n + 1 := by
  by_cases hle : L ≤ n
  · have h0 : (n - 1) / n = 0 := Nat.div_eq_of_lt (by omega)
    have h1 : (L + n - 1) / n = 1 := Nat.div_eq_of_lt_le (by omega) (by omega)
    rw [Nat.sub_eq_zero_of_le hle, Nat.zero_add, h0, h1]
  · rw [show L + n - 1 = L - n + n - 1 + n by omega, Nat.add_div_right _ hn]

-- Past its first slice a string is cut as the rest of it would be.
theorem slices_of_ne_nil (hn : 0 < n) (hs : s ≠ []) :
    slices n s = s.take n :: slices n (s.drop n) := by
  have hk : (s.length + n - 1) / n = ((s.drop n).length + n - 1) / n + 1 := by
    rw [List.length_drop]
    exact ceilDiv_succ hn (List.length_pos_iff.mpr hs)
  unfold slices
  rw [hk, List.range_succ_eq_map, List.map_cons, List.map_map]
  refine congrArg₂ List.cons ?_ (List.map_congr_left fun i _ => ?_)
  · rw [Nat.zero_mul, slice, List.drop_zero]
  · simp only [Function.comp, slice, List.drop_drop, Nat.succ_mul, Nat.add_comm n]

theorem flatten_slices (hn : 0 < n) (s : Octets) : (slices n s).flatten = s := by
  induction h : s.length using Nat.strong_induction_on generalizing s with
  | _ m ih =>
    by_cases hs : s = []
    · simp [hs]
    · have hlt : (s.drop n).length < m := by
        have := List.length_pos_iff.mpr hs
        rw [List.length_drop]
        omega
      rw [slices_of_ne_nil hn hs, List.flatten_cons, ih _ hlt _ rfl, List.take_append_drop]

-- Every slice holds bytes, and every slice before the last is a full one.
theorem slices_getElem {i : Nat} (hi : i < (slices n s).length) :
    (slices n s)[i] = slice s (i * n) n ∧ (slices n s)[i] ≠ [] ∧ (slices n s)[i].length ≤ n ∧
      (i + 1 < (slices n s).length → (slices n s)[i].length = n) := by
  have hn : 0 < n := by
    rcases Nat.eq_zero_or_pos n with rfl | hn
    · simp [slices] at hi
    · exact hn
  have hget : (slices n s)[i] = slice s (i * n) n := by simp [slices]
  rw [length_slices] at hi
  -- the index bound says where the slice starts: `i * n` is within the string
  have hstart : i * n + n ≤ s.length + n - 1 := by
    rw [← Nat.succ_mul]
    exact (Nat.le_div_iff_mul_le hn).mp hi
  refine ⟨hget, ?_⟩
  simp only [hget, length_slices, slice, List.length_take, List.length_drop]
  refine ⟨?_, by omega, fun h => ?_⟩
  · rw [Ne, List.take_eq_nil_iff, List.drop_eq_nil_iff]
    omega
  · have hnext : (i + 1) * n + n ≤ s.length + n - 1 := by
      rw [← Nat.succ_mul]
      exact (Nat.le_div_iff_mul_le hn).mp h
    rw [Nat.succ_mul] at hnext
    omega

-- What comes before a slice is a whole number of full slices.
theorem length_flatten_take_slices {i : Nat} (hi : i < (slices n s).length) :
    ((slices n s).take i).flatten.length = i * n := by
  induction i with
  | zero => simp
  | succ i ih =>
    have hi' : i < (slices n s).length := by omega
    rw [List.take_add_one, List.flatten_append, List.length_append, ih hi',
      List.getElem?_eq_getElem hi']
    simp [(slices_getElem hi').2.2.2 hi, Nat.succ_mul]

end Octets

namespace TransportStream

-- The units a transport stream is cut into: its consecutive slices of 1050 cells, the last one
-- shorter where the stream ends.
def units (s : Octets) : List Octets :=
  Octets.slices (cellSize * cellsPerUnit) s

theorem unitSize_pos : 0 < cellSize * cellsPerUnit := by decide

theorem unitSize_eq : cellSize * cellsPerUnit = 197400 := rfl

@[simp] theorem units_nil : units [] = [] := Octets.slices_nil

section Drain

variable {t : Octets}

-- One call hands out what one full read returns and adds its unsynced cells to the count.
theorem nextUnit_of_readFull {f : Framing ChunkSource Unit} {u : Octets} {b' : Buffered ChunkSource}
    (hr : Buffered.readFull (cellSize * cellsPerUnit) f.source = .ok u b') :
    nextUnit f = .ok u { f with source := b', broken := f.broken + unsyncedCount u } := by
  unfold nextUnit
  rw [EStateM.bind_of_ok (Framing.onSource_of_ok hr)]
  by_cases hn : 0 < unsyncedCount u
  · simp [hn, bind, EStateM.bind]
  · simp [Nat.eq_zero_of_not_pos hn]

-- On a stream, one call hands out its first unit.
theorem nextUnit_of_holds {r : Reader ChunkSource .mpegts} (h : r.source.Holds t) :
    ∃ r' : Reader ChunkSource .mpegts,
      Reader.nextUnit .mpegts r = .ok (t.take (cellSize * cellsPerUnit)) r' ∧
      r'.source.Holds (t.drop (cellSize * cellsPerUnit)) ∧ r'.header = r.header ∧
      r'.broken = r.broken + unsyncedCount (t.take (cellSize * cellsPerUnit)) := by
  obtain ⟨b', hr, h'⟩ := Buffered.readFull_of_holds (n := cellSize * cellsPerUnit) h
  exact ⟨_, nextUnit_of_readFull hr, h', rfl, rfl⟩

-- After a unit, what has been handed out is whole cells unless the unit took the rest.
theorem aligned_after_unit {p : Octets} (hp : cellSize ∣ p.length) :
    cellSize ∣ (p ++ t.take (cellSize * cellsPerUnit)).length ∨
      t.drop (cellSize * cellsPerUnit) = [] := by
  by_cases hlen : cellSize * cellsPerUnit ≤ t.length
  · left
    rw [List.length_append, List.length_take, Nat.min_eq_left hlen]
    exact Nat.dvd_add hp (Nat.dvd_mul_right cellSize cellsPerUnit)
  · right
    exact List.drop_eq_nil_of_le (by omega)

-- The drain from any point of the stream, with `p` what has been handed out so far: each
-- remaining unit in order, then the empty one, and after each the unsynced cells of all handed
-- out. The invariant is that `p` is a whole number of cells unless nothing is left.
theorem drain_units (p : Octets) (limit : Nat) :
    ∀ {r : Reader ChunkSource .mpegts} {t : Octets}, r.source.Holds t →
      r.broken = unsyncedCount p → (cellSize ∣ p.length ∨ t = []) → (units t).length < limit →
      Reader.drain .mpegts limit r =
        (List.range ((units t).length + 1)).map fun i =>
          ⟨.ok (.unit ((units t).getD i [])), r.header,
            unsyncedCount (p ++ ((units t).take (i + 1)).flatten)⟩ := by
  induction limit generalizing p with
  | zero => intro r t _ _ _ hl; omega
  | succ limit ih =>
    intro r t h hb hp hl
    obtain ⟨r', hnext, h', hhead, hbroken⟩ := nextUnit_of_holds h
    by_cases ht : t = []
    · -- the end of the stream: the empty unit, the count unchanged
      subst ht
      rw [List.take_nil] at hnext hbroken
      rw [Reader.drain_of_nil hnext]
      simp [hhead, hbroken, hb]
    · have hp' : cellSize ∣ p.length := hp.resolve_right ht
      have hu : t.take (cellSize * cellsPerUnit) ≠ [] := by simp [ht, unitSize_pos.ne']
      have hsplit := Octets.slices_of_ne_nil unitSize_pos ht
      rw [← units, ← units] at hsplit
      rw [hsplit, List.length_cons] at hl
      have hb' : r'.broken = unsyncedCount (p ++ t.take (cellSize * cellsPerUnit)) := by
        rw [hbroken, hb, unsyncedCount_append hp']
      rw [Reader.drain_of_ne_nil hu hnext, hsplit,
        ih _ h' hb' (aligned_after_unit hp') (by omega), hhead, hb', List.length_cons,
        List.range_succ_eq_map (n := (units (t.drop (cellSize * cellsPerUnit))).length + 1),
        List.map_cons, List.map_map]
      -- a full `simp` here leaves the kernel a slow definitional check
      refine congrArg₂ List.cons (by simp only [List.getD_cons_zero, List.take_succ_cons,
        List.take_zero, List.flatten_cons, List.flatten_nil, List.append_nil])
        (List.map_congr_left fun i _ => ?_)
      rw [Function.comp_apply, List.getD_cons_succ, List.take_succ_cons, List.flatten_cons,
        List.append_assoc]

-- From the start nothing has been handed out and the count is zero.
theorem drain_start {cs : List Chunk} (hcs : ChunkSource.Solid cs) {limit : Nat}
    (hl : (units (ChunkSource.bytesOf cs)).length < limit) :
    Reader.drain .mpegts limit (Reader.start .mpegts (ChunkSource.mk cs)) =
      (List.range ((units (ChunkSource.bytesOf cs)).length + 1)).map fun i =>
        ⟨.ok (.unit ((units (ChunkSource.bytesOf cs)).getD i [])), [],
          unsyncedCount (((units (ChunkSource.bytesOf cs)).take (i + 1)).flatten)⟩ := by
  rw [drain_units [] limit (Buffered.holds_start hcs) rfl (.inl ⟨0, rfl⟩) hl]
  -- `simp` would leave `[] ++ _` under `unsyncedCount` to a slow kernel check
  refine List.map_congr_left fun i _ => ?_
  rw [List.nil_append]
  rfl

end Drain

-- Each unit is the slice of the stream at its index; it holds bytes, and all but the last hold
-- exactly 1050 cells.
theorem units_getElem {s : Octets} {i : Nat} (hi : i < (units s).length) :
    (units s)[i] = Octets.slice s (i * 197400) 197400 ∧ (units s)[i] ≠ [] ∧
      (units s)[i].length ≤ 197400 ∧ (i + 1 < (units s).length → (units s)[i].length = 197400) := by
  rw [← unitSize_eq]
  exact Octets.slices_getElem hi

-- A unit starts at a multiple of the cell size.
theorem cellSize_dvd_offset {s : Octets} {i : Nat} (hi : i < (units s).length) :
    cellSize ∣ ((units s).take i).flatten.length := by
  rw [units, Octets.length_flatten_take_slices hi]
  exact Dvd.dvd.mul_left (Nat.dvd_mul_right cellSize cellsPerUnit) i

-- The units a transport stream reader hands out, however the stream is cut into chunks: the
-- consecutive slices of 1050 cells and the shorter non-empty tail, which together are the
-- stream, then the empty unit; each unit but the last is whole cells, so each starts at a
-- multiple of the cell size; and after each call the broken count is the number of unsynced
-- cells in the units handed out so far, in the end those of the whole stream.
theorem transport_units_are_cell_aligned (cs : List Chunk) (hcs : ChunkSource.Solid cs)
    (limit : Nat) (hl : (units (ChunkSource.bytesOf cs)).length < limit) :
    let s := ChunkSource.bytesOf cs
    Reader.drain .mpegts limit (Reader.start .mpegts (ChunkSource.mk cs)) =
        (List.range ((units s).length + 1)).map (fun i =>
          ⟨.ok (.unit ((units s).getD i [])), [],
            unsyncedCount (((units s).take (i + 1)).flatten)⟩) ∧
      (units s).flatten = s ∧
      (∀ i (hi : i < (units s).length), (units s)[i] = Octets.slice s (i * 197400) 197400 ∧
        (units s)[i] ≠ [] ∧ (units s)[i].length ≤ 197400 ∧
        (i + 1 < (units s).length → (units s)[i].length = 197400) ∧
        cellSize ∣ ((units s).take i).flatten.length) ∧
      (Reader.drain .mpegts limit (Reader.start .mpegts (ChunkSource.mk cs))).getLast?.map
        (·.broken) = some (unsyncedCount s) := by
  intro s
  have hflat : (units s).flatten = s := Octets.flatten_slices unitSize_pos s
  refine ⟨drain_start hcs hl, hflat, fun i hi => ?_, ?_⟩
  · obtain ⟨hslice, hne, hle, hfull⟩ := units_getElem hi
    exact ⟨hslice, hne, hle, hfull, cellSize_dvd_offset hi⟩
  · -- the last report comes after every unit has been handed out
    rw [drain_start hcs hl, List.getLast?_map, List.getLast?_range, if_neg (Nat.succ_ne_zero _),
      Nat.add_sub_cancel]
    simp only [Option.map_some, Option.some.injEq]
    rw [List.take_of_length_le (Nat.le_succ _), hflat]

-- A stream of two full units and a short tail, cut into chunks of uneven sizes.
theorem transport_units_are_cell_aligned_tail :
    ChunkSource.Solid [.data (List.replicate 200000 0x47), .data (List.replicate 200000 0)] ∧
    (units (ChunkSource.bytesOf
      [.data (List.replicate 200000 0x47), .data (List.replicate 200000 0)])).length < 4 ∧
    let s := ChunkSource.bytesOf
      [.data (List.replicate 200000 0x47), .data (List.replicate 200000 0)]
    Reader.drain .mpegts 4
        (Reader.start .mpegts (ChunkSource.mk
          [.data (List.replicate 200000 0x47), .data (List.replicate 200000 0)])) =
        (List.range ((units s).length + 1)).map (fun i =>
          ⟨.ok (.unit ((units s).getD i [])), [],
            unsyncedCount (((units s).take (i + 1)).flatten)⟩) ∧
      (units s).flatten = s ∧
      (∀ i (hi : i < (units s).length), (units s)[i] = Octets.slice s (i * 197400) 197400 ∧
        (units s)[i] ≠ [] ∧ (units s)[i].length ≤ 197400 ∧
        (i + 1 < (units s).length → (units s)[i].length = 197400) ∧
        cellSize ∣ ((units s).take i).flatten.length) ∧
      (Reader.drain .mpegts 4 (Reader.start .mpegts (ChunkSource.mk
          [.data (List.replicate 200000 0x47), .data (List.replicate 200000 0)]))).getLast?.map
        (·.broken) = some (unsyncedCount s) := by
  have hsolid : ChunkSource.Solid
      [.data (List.replicate 200000 0x47), .data (List.replicate 200000 0)] := by
    refine ChunkSource.solid_of_nonempty fun c hc => ?_
    simp only [List.mem_cons, List.not_mem_nil, or_false] at hc
    rcases hc with rfl | rfl
    all_goals exact ⟨_, rfl, List.ne_nil_of_length_pos (by rw [List.length_replicate]; decide)⟩
  have hl : (units (ChunkSource.bytesOf
      [.data (List.replicate 200000 0x47), .data (List.replicate 200000 0)])).length < 4 := by
    -- rewriting, not `simp`: its closing step on these literals is slow for the kernel
    rw [units, Octets.length_slices, unitSize_eq, ChunkSource.bytesOf, ChunkSource.bytesOf,
      ChunkSource.bytesOf, List.length_append, List.length_append, List.length_replicate,
      List.length_replicate, List.length_nil]
    decide
  exact ⟨hsolid, hl, transport_units_are_cell_aligned _ hsolid 4 hl⟩

end TransportStream

end MediaRelay
