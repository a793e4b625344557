import Mathlib
import MediaRelay.Proofs.Ogg.Units

-- The stream table seen key by key: what `find` reads after each write, and which serial numbers
-- are keys. What a unit does to the table (`bosRecord`, `dataRecord`) is then said in that view.

namespace MediaRelay

namespace Ogg

namespace StreamTable

-- The serial numbers in a table, in the order they were added.
def keys (t : StreamTable) : List Nat := t.map Prod.fst

@[simp] theorem keys_nil : keys [] = [] := rfl

@[simp] theorem keys_cons (e : Nat × LogicalStream) (t : StreamTable) :
    keys (e :: t) = e.1 :: keys t := rfl

@[simp] theorem keys_append (t u : StreamTable) : keys (t ++ u) = keys t ++ keys u :=
  List.map_append

@[simp] theorem find_nil (y : Nat) : find [] y = {} := rfl

theorem find_cons (e : Nat × LogicalStream) (t : StreamTable) (y : Nat) :
    find (e :: t) y = if e.1 = y then e.2 else find t y := by
  by_cases h : e.1 = y <;> simp [find, h]

theorem find_of_not_mem {t : StreamTable} {y : Nat} (h : y ∉ keys t) : find t y = {} := by
  induction t with
  | nil => rfl
  | cons e t ih =>
    simp only [keys_cons, List.mem_cons, not_or] at h
    rw [find_cons, if_neg (Ne.symm h.1), ih h.2]

theorem find_append (t u : StreamTable) (y : Nat) :
    find (t ++ u) y = if y ∈ keys t then find t y else find u y := by
  induction t with
  | nil => simp
  | cons e t ih =>
    rw [List.cons_append, find_cons, find_cons, ih]
    by_cases he : e.1 = y
    · simp [he]
    · simp [he, Ne.symm he]

theorem any_key_eq (t : StreamTable) (x : Nat) : t.any (·.1 == x) = decide (x ∈ keys t) := by
  induction t with
  | nil => rfl
  | cons e t ih =>
    rw [List.any_cons, ih, keys_cons]
    by_cases he : e.1 = x
    · simp [he]
    · simp [he, Ne.symm he]

-- `put` on a key that is there rewrites its entries in place.
theorem find_replace (t : StreamTable) (x y : Nat) (s : LogicalStream) :
    find (t.map fun e => if e.1 == x then (x, s) else e) y =
      if y = x ∧ x ∈ keys t then s else find t y := by
  induction t with
  | nil => simp
  | cons e t ih =>
    rw [List.map_cons, find_cons, find_cons, ih]
    by_cases he : e.1 = x
    · by_cases hy : y = x
      · simp [he, hy]
      · simp [he, hy, Ne.symm hy]
    · by_cases hy : e.1 = y
      · subst hy
        simp [he, Ne.symm he]
      · simp [he, hy, Ne.symm he]

theorem find_put (t : StreamTable) (x y : Nat) (s : LogicalStream) :
    (t.put x s).find y = if y = x then s else t.find y := by
  unfold put
  by_cases hx : x ∈ keys t
  · rw [any_key_eq, if_pos (decide_eq_true hx), find_replace]
    simp [hx]
  · rw [any_key_eq, if_neg (by simpa using hx), find_append]
    by_cases hy : y = x
    · subst hy
      simp [hx, find_cons]
    · by_cases hyt : y ∈ keys t
      · simp [hy, hyt]
      · simp [hy, hyt, find_cons, Ne.symm hy, find_of_not_mem hyt]

theorem keys_put (t : StreamTable) (x : Nat) (s : LogicalStream) :
    keys (t.put x s) = if x ∈ keys t then keys t else keys t ++ [x] := by
  unfold put
  by_cases hx : x ∈ keys t
  · rw [any_key_eq, if_pos (decide_eq_true hx), if_pos hx]
    simp only [keys, List.map_map]
    apply List.map_congr_left
    intro e _
    by_cases he : e.1 = x <;> simp [he]
  · rw [any_key_eq, if_neg (by simpa using hx), if_neg hx]
    simp [keys]

-- A new key goes at the end, and a second write to it stays there.
theorem put_of_not_mem {t : StreamTable} {x : Nat} (hx : x ∉ keys t) (s : LogicalStream) :
    t.put x s = t ++ [(x, s)] := by
  unfold put
  rw [any_key_eq, if_neg (by simpa using hx)]

theorem put_append_self {t : StreamTable} {x : Nat} (hx : x ∉ keys t) (s s' : LogicalStream) :
    (t ++ [(x, s)]).put x s' = t ++ [(x, s')] := by
  have hmem : x ∈ keys (t ++ [(x, s)]) := by simp
  unfold put
  rw [any_key_eq, if_pos (decide_eq_true hmem), List.map_append]
  congr 1
  · conv_rhs => rw [← List.map_id t]
    apply List.map_congr_left
    intro e he
    have hne : e.1 ≠ x := fun h => hx (h ▸ List.mem_map_of_mem he)
    simp [hne]
  · simp

theorem find_markEnded (t : StreamTable) (x y : Nat) :
    (t.markEnded x).find y = if y = x then { t.find x with ended := true } else t.find y :=
  find_put _ _ _ _

theorem keys_markEnded (t : StreamTable) (x : Nat) :
    keys (t.markEnded x) = if x ∈ keys t then keys t else keys t ++ [x] :=
  keys_put _ _ _

-- Marking a list of streams ended sets their `ended` flag and touches nothing else.
theorem find_foldl_markEnded (ended : List Nat) (t : StreamTable) (y : Nat) :
    (ended.foldl markEnded t).find y = if y ∈ ended then { t.find y with ended := true } else t.find y := by
  induction ended generalizing t with
  | nil => simp
  | cons x xs ih =>
    rw [List.foldl_cons, ih, find_markEnded]
    by_cases hy : y = x
    · subst hy
      simp
    · by_cases hxs : y ∈ xs <;> simp [hy, hxs]

theorem keys_foldl_markEnded (ended : List Nat) {t : StreamTable} (h : ∀ x ∈ ended, x ∈ keys t) :
    keys (ended.foldl markEnded t) = keys t := by
  induction ended generalizing t with
  | nil => rfl
  | cons x xs ih =>
    have hk : keys (t.markEnded x) = keys t := by
      rw [keys_markEnded, if_pos (h x (by simp))]
    rw [List.foldl_cons, ih, hk]
    intro y hy
    rw [hk]
    exact h y (by simp [hy])

-- Without two entries for one key, every entry is what `find` reads for its key.
theorem find_of_mem {t : StreamTable} (hd : (keys t).Nodup) {e : Nat × LogicalStream} (he : e ∈ t) :
    t.find e.1 = e.2 := by
  induction t with
  | nil => simp at he
  | cons e' t ih =>
    simp only [keys_cons, List.nodup_cons] at hd
    rw [find_cons]
    rcases List.mem_cons.1 he with rfl | he
    · simp
    · have hne : e'.1 ≠ e.1 := fun h => hd.1 (h ▸ List.mem_map_of_mem he)
      rw [if_neg hne, ih hd.2 he]

theorem allEnded_iff {t : StreamTable} (hd : (keys t).Nodup) :
    t.allEnded = true ↔ ∀ x ∈ keys t, (t.find x).ended = true := by
  simp only [allEnded, List.all_eq_true, keys, List.mem_map]
  constructor
  · rintro h x ⟨e, he, rfl⟩
    rw [find_of_mem hd he]
    exact h e he
  · intro h e he
    rw [← find_of_mem hd he]
    exact h e.1 ⟨e, he, rfl⟩

end StreamTable

open StreamTable

-- The entry a BOS page makes for its stream.
def bosEntry (p : Page) : Nat × LogicalStream := (p.serial, { ended := p.isEos })

-- A BOS page of a new stream, while a stream of the link is still live, adds its entry at the
-- end of the table and its bytes at the end of the header.
theorem bosRecord_of_live {t : StreamTable} (hl : linkEnded t = false) {p : Page}
    (hx : p.serial ∉ keys t) (h : Octets) :
    bosRecord p t h = (t ++ [bosEntry p], h ++ p.bytes) := by
  have hput := put_of_not_mem hx {}
  have hfind : find (t ++ [(p.serial, ({} : LogicalStream))]) p.serial = {} := by
    rw [find_append, if_neg hx, find_cons, if_pos rfl]
  cases he : p.isEos
  · simp [bosRecord, hl, hput, bosEntry, he]
  · simp [bosRecord, hl, hput, markEnded, hfind, put_append_self hx, bosEntry, he]

-- Once every stream has ended, a BOS page starts the table and the header again.
theorem bosRecord_of_linkEnded {t : StreamTable} (hl : linkEnded t = true) (p : Page) (h : Octets) :
    bosRecord p t h = bosRecord p [] [] := by
  have h0 : linkEnded [] = false := rfl
  simp only [bosRecord, hl, h0, if_true, Bool.false_eq_true, if_false, List.nil_append]

-- A unit of data of a known stream sets the stream's `captured` flag and the `ended` flag of
-- every stream it ends; its bytes join the header the first time only.
theorem dataRecord_spec (first : Page) (unit : Octets) (ended : List Nat) (t : StreamTable)
    (h : Octets) (hk : first.serial ∈ keys t) (he : ∀ x ∈ ended, x ∈ keys t) :
    keys (dataRecord first unit ended t h).1 = keys t ∧
      (∀ y, (dataRecord first unit ended t h).1.find y =
        { captured := (t.find y).captured || decide (y = first.serial)
          ended := (t.find y).ended || decide (y ∈ ended) }) ∧
      (dataRecord first unit ended t h).2 = if (t.find first.serial).captured then h else h ++ unit := by
  unfold dataRecord
  dsimp only
  split
  case isTrue hc =>
    refine ⟨keys_foldl_markEnded ended he, fun y => ?_, rfl⟩
    rw [find_foldl_markEnded]
    by_cases hy : y = first.serial
    · subst hy
      rcases hs : t.find first.serial with ⟨c, e⟩
      rw [hs] at hc
      by_cases hyx : first.serial ∈ ended <;> simp_all
    · by_cases hyx : y ∈ ended <;> simp [hy, hyx]
  case isFalse hc =>
    have hkp : keys (t.put first.serial { t.find first.serial with captured := true }) = keys t := by
      rw [keys_put, if_pos hk]
    refine ⟨?_, fun y => ?_, rfl⟩
    · rw [keys_foldl_markEnded ended (hkp ▸ he), hkp]
    · rw [find_foldl_markEnded, find_put]
      by_cases hy : y = first.serial
      · subst hy
        by_cases hyx : first.serial ∈ ended <;> simp [hyx]
      · by_cases hyx : y ∈ ended <;> simp [hy, hyx]

end Ogg

end MediaRelay
