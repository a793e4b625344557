import MediaRelay.Source.Basic

-- A chunked source serves a list of chunks in order, as a network socket would serve its segments.
-- A read never crosses from one chunk into the next: it returns as many bytes as it asks for, or
-- the rest of the current chunk if that is shorter. An empty chunk is consumed by one read that
-- returns nothing, and a failing chunk by one read that fails. Once the list is exhausted, every
-- read returns nothing.
--
-- The main statements: a read returns at most what it asks for (`length_read_le`), and the bytes a
-- read returns followed by the bytes left equal the bytes before the read (`bytes_read`).

namespace MediaRelay

inductive Chunk
  | data (bs : Octets)
  | fail
deriving DecidableEq, Repr

structure ChunkSource where
  chunks : List Chunk
deriving DecidableEq, Repr

namespace ChunkSource

def read (n : Nat) (s : ChunkSource) : Except IoFault Octets × ChunkSource :=
  match s.chunks with
  | [] => (.ok [], s)
  | .fail :: rest => (.error .reset, ⟨rest⟩)
  | .data bs :: rest =>
    let left := bs.drop n
    (.ok (bs.take n), ⟨if left.isEmpty then rest else .data left :: rest⟩)

def bytesOf : List Chunk → Octets
  | [] => []
  | .data bs :: rest => bs ++ bytesOf rest
  | .fail :: rest => bytesOf rest

def bytes (s : ChunkSource) : Octets :=
  bytesOf s.chunks

def lengthOf : List Chunk → Nat
  | [] => 0
  | .data bs :: rest => bs.length + lengthOf rest
  | .fail :: rest => lengthOf rest

def size (s : ChunkSource) : Nat :=
  lengthOf s.chunks

theorem lengthOf_eq (cs : List Chunk) : lengthOf cs = (bytesOf cs).length := by
  induction cs with
  | nil => rfl
  | cons c cs ih => cases c <;> simp [lengthOf, bytesOf, ih]

instance : ByteSource ChunkSource := ⟨read, size⟩

theorem length_read_le (n : Nat) (s : ChunkSource) {bs : Octets} (h : (s.read n).1 = .ok bs) :
    bs.length ≤ n := by
  unfold read at h
  split at h
  · cases h; simp
  · cases h
  · cases h; exact List.length_take_le _ _

theorem bytes_read (n : Nat) (s : ChunkSource) {bs : Octets} (h : (s.read n).1 = .ok bs) :
    bs ++ (s.read n).2.bytes = s.bytes := by
  rcases s with ⟨chunks⟩
  unfold read at h ⊢
  rcases chunks with _ | ⟨cs | _, rest⟩
  · cases h; rfl
  · simp only [Except.ok.injEq] at h
    subst h
    by_cases hl : (cs.drop n).isEmpty
    · have hd : cs.drop n = [] := List.isEmpty_iff.mp hl
      simp only [hl, if_true, bytes, bytesOf]
      conv => rhs; rw [← List.take_append_drop n cs, hd, List.append_nil]
    · simp only [hl, Bool.false_eq_true, if_false, bytes, bytesOf]
      rw [← List.append_assoc, List.take_append_drop]
  · cases h

end ChunkSource

end MediaRelay
