import Mathlib
import MediaRelay.Proofs.Stream
import MediaRelay.Proofs.Requests
import MediaRelay.Proofs.Ogg.Drain

-- Framing over a solid source does not depend on where the chunks are cut or on polls. For FLV
-- and transport streams the framers read only whole runs of bytes (`readFull`,
-- `readExactOrEof`), which take the same bytes from any two states that hold the same stream:
-- their steps are `Determined`, built up from such reads and from updates of the progress,
-- header and count. The Ogg framer reads whatever one read returns, but its state is summed up
-- by its upcoming scan steps. A poll refills the buffer without changing the stream.

namespace MediaRelay

namespace Framing

variable {φ α β : Type}

-- Two framing states that a framer reading whole runs of bytes cannot tell apart: the same
-- progress, header and count, and the same bytes left to read, however they are buffered and
-- chunked.
structure Agree (f g : Framing ChunkSource φ) : Prop where
  own_eq : f.own = g.own
  header_eq : f.header = g.header
  broken_eq : f.broken = g.broken
  stream : ∃ M, f.source.Holds M ∧ g.source.Holds M

-- Two results that agree: the same value or the same fault, in states that agree.
def AgreeResult : EStateM.Result Fault (Framing ChunkSource φ) α →
    EStateM.Result Fault (Framing ChunkSource φ) α → Prop
  | .ok a f, .ok b g => a = b ∧ Agree f g
  | .error e f, .error e' g => e = e' ∧ Agree f g
  | _, _ => False

-- A step whose result depends only on what agreeing states share.
def Determined (m : EStateM Fault (Framing ChunkSource φ) α) : Prop :=
  ∀ ⦃f g : Framing ChunkSource φ⦄, Agree f g → AgreeResult (m f) (m g)

theorem determined_pure (a : α) : Determined (pure a : EStateM Fault (Framing ChunkSource φ) α) :=
  fun _ _ h => ⟨rfl, h⟩

theorem determined_throw (e : Fault) : Determined (throw e : EStateM Fault (Framing ChunkSource φ) α) :=
  fun _ _ h => ⟨rfl, h⟩

-- A fault ends the step, whatever was to follow.
theorem determined_throw_bind (e : Fault) (k : α → EStateM Fault (Framing ChunkSource φ) β) :
    Determined (throw e >>= k) :=
  fun _ _ h => ⟨rfl, h⟩

theorem Determined.bind {m : EStateM Fault (Framing ChunkSource φ) α}
    {k : α → EStateM Fault (Framing ChunkSource φ) β} (hm : Determined m)
    (hk : ∀ a, Determined (k a)) : Determined (m >>= k) := by
  intro f g h
  have hr := hm h
  cases hf : m f with
  | ok a f' =>
    cases hg : m g with
    | ok b g' =>
      rw [hf, hg] at hr
      obtain ⟨rfl, h'⟩ := hr
      rw [EStateM.bind_of_ok hf, EStateM.bind_of_ok hg]
      exact hk a h'
    | error e g' => rw [hf, hg] at hr; exact hr.elim
  | error e f' =>
    cases hg : m g with
    | ok b g' => rw [hf, hg] at hr; exact hr.elim
    | error e' g' =>
      rw [hf, hg] at hr
      obtain ⟨rfl, h'⟩ := hr
      rw [EStateM.bind_of_error hf, EStateM.bind_of_error hg]
      exact ⟨rfl, h'⟩

theorem determined_getOwn : Determined (getOwn : EStateM Fault (Framing ChunkSource φ) φ) :=
  fun _ _ h => ⟨h.own_eq, h⟩

theorem determined_setOwn (p : φ) : Determined (setOwn p : EStateM Fault (Framing ChunkSource φ) Unit) :=
  fun _ _ h => ⟨rfl, rfl, h.header_eq, h.broken_eq, h.stream⟩

theorem determined_markBroken (n : Nat) :
    Determined (markBroken n : EStateM Fault (Framing ChunkSource φ) Unit) :=
  fun _ _ h => ⟨rfl, h.own_eq, h.header_eq, by simp [h.broken_eq], h.stream⟩

theorem determined_setHeader (bs : Octets) :
    Determined (setHeader bs : EStateM Fault (Framing ChunkSource φ) Unit) :=
  fun _ _ h => ⟨rfl, h.own_eq, rfl, h.broken_eq, h.stream⟩

-- Reading until `n` bytes have arrived takes the same bytes from agreeing states.
theorem determined_readFull (n : Nat) :
    Determined (onSource (Buffered.readFull n) : EStateM Fault (Framing ChunkSource φ) Octets) := by
  intro f g h
  obtain ⟨M, hf, hg⟩ := h.stream
  obtain ⟨bf, hrf, hbf⟩ := Buffered.readFull_of_holds (n := n) hf
  obtain ⟨bg, hrg, hbg⟩ := Buffered.readFull_of_holds (n := n) hg
  rw [onSource_of_ok hrf, onSource_of_ok hrg]
  exact ⟨rfl, h.own_eq, h.header_eq, h.broken_eq, _, hbf, hbg⟩

theorem onSource_bind {σ : Type} {m : EStateM Fault (Buffered σ) α}
    {k : α → EStateM Fault (Buffered σ) β} :
    (onSource (m >>= k) : EStateM Fault (Framing σ φ) β) = onSource m >>= fun a => onSource (k a) := by
  funext f
  simp only [onSource, bind, EStateM.bind]
  cases m f.source <;> rfl

theorem determined_readExactOrEof (n : Nat) :
    Determined (onSource (Buffered.readExactOrEof n) :
      EStateM Fault (Framing ChunkSource φ) (Option Octets)) := by
  unfold Buffered.readExactOrEof
  rw [onSource_bind]
  refine (determined_readFull n).bind fun bs => ?_
  split_ifs
  · exact determined_pure _
  · exact determined_throw _
  · exact determined_pure _

end Framing

namespace Flv

open Framing

theorem determined_readTag : Determined (readTag : EStateM Fault (Framing ChunkSource Bool) Octets) := by
  unfold readTag
  refine (determined_readExactOrEof _).bind fun o => ?_
  split
  · exact determined_pure _
  · dsimp only
    refine (determined_readExactOrEof _).bind fun o => ?_
    split
    · exact determined_throw _
    · split
      · exact (determined_markBroken 1).bind fun _ => determined_pure _
      · exact determined_pure _

theorem determined_readFileHeader :
    Determined (readFileHeader : EStateM Fault (Framing ChunkSource Bool) (Option Unit)) := by
  unfold readFileHeader
  refine (determined_readExactOrEof _).bind fun o => ?_
  split
  · exact determined_pure _
  · dsimp only
    -- once the declared size is checked, the rest of the header is read
    split
    · refine (determined_pure _).bind fun total => ?_
      refine (determined_readExactOrEof _).bind fun o => ?_
      split
      · exact determined_throw _
      · exact (determined_setHeader _).bind fun _ => (determined_setOwn _).bind fun _ =>
          determined_pure _
    · exact determined_throw_bind _ _

theorem determined_nextUnit : Determined (nextUnit : EStateM Fault (Framing ChunkSource Bool) Octets) := by
  unfold nextUnit
  refine determined_getOwn.bind fun b => ?_
  split
  · exact determined_readTag
  · refine determined_readFileHeader.bind fun o => ?_
    cases o with
    | none => exact determined_pure _
    | some u => exact determined_readTag

end Flv

namespace TransportStream

open Framing

theorem determined_nextUnit : Determined (nextUnit : EStateM Fault (Framing ChunkSource Unit) Octets) := by
  unfold nextUnit
  refine (determined_readFull _).bind fun unit => ?_
  dsimp only
  split
  · exact (determined_markBroken _).bind fun _ => determined_pure _
  · exact determined_pure _

end TransportStream

namespace Reader

-- The reports of a run at the requests of one kind.
def reportsAt (s : Step) (st : List Step) (reps : List Report) : List Report :=
  ((st.zip reps).filter fun p => p.1 = s).map Prod.snd

-- Two readers that give the same reports to the same requests: for Ogg, the same table, header
-- and count, at the same upcoming scan steps; for the other kinds, agreeing framing states.
def Same : (k : MediaKind) → Reader ChunkSource k → Reader ChunkSource k → Prop
  | .theora, r, r' => r.own.streams = r'.own.streams ∧ r.header = r'.header ∧ r.broken = r'.broken ∧
      ∃ F, Ogg.Tracks r F ∧ Ogg.Tracks r' F
  | .flv, r, r' => Framing.Agree r r'
  | .mpegts, r, r' => Framing.Agree r r'
  | .text, r, r' => Framing.Agree r r'

variable {k : MediaKind} {r r' : Reader ChunkSource k}

theorem same_next_of_determined (hd : Framing.Determined (nextUnit k : EStateM Fault (Reader ChunkSource k) Octets))
    (h : Framing.Agree r r') :
    (report k .next r).1 = (report k .next r').1 ∧ Framing.Agree (report k .next r).2 (report k .next r').2 := by
  have hr := hd h
  cases hf : nextUnit k r with
  | ok u f =>
    cases hg : nextUnit k r' with
    | ok u' g =>
      rw [hf, hg] at hr
      obtain ⟨rfl, hfg⟩ := hr
      rw [report_of_ok (step_next_of_ok hf), report_of_ok (step_next_of_ok hg), hfg.header_eq, hfg.broken_eq]
      exact ⟨rfl, hfg⟩
    | error e g => rw [hf, hg] at hr; exact hr.elim
  | error e f =>
    cases hg : nextUnit k r' with
    | ok u' g => rw [hf, hg] at hr; exact hr.elim
    | error e' g =>
      rw [hf, hg] at hr
      obtain ⟨rfl, hfg⟩ := hr
      rw [report_of_error (step_next_of_error hf), report_of_error (step_next_of_error hg),
        hfg.header_eq, hfg.broken_eq]
      exact ⟨rfl, hfg⟩

theorem reportsAt_cons (s x : Step) (st : List Step) (rep : Report) (reps : List Report) :
    reportsAt s (x :: st) (rep :: reps) = if x = s then rep :: reportsAt s st reps else reportsAt s st reps := by
  by_cases h : x = s <;> simp [reportsAt, h]

theorem poll_of_holds {M : Octets} (h : r.source.Holds M) :
    ∃ b', poll k r = .ok () { r with source := b' } ∧ b'.Holds M := by
  obtain ⟨b', hf, hb', -⟩ := Buffered.fill_of_holds h
  exact ⟨b', Framing.onSource_of_ok hf, hb'⟩

theorem same_next (hk : k ≠ .text) (h : Same k r r') :
    (report k .next r).1 = (report k .next r').1 ∧ Same k (report k .next r).2 (report k .next r').2 := by
  cases k with
  | flv => exact same_next_of_determined Flv.determined_nextUnit h
  | mpegts => exact same_next_of_determined TransportStream.determined_nextUnit h
  | text => exact absurd rfl hk
  | theora =>
    obtain ⟨hst, hh, hb, F, hF, hF'⟩ := h
    obtain ⟨f, hrun, hstep⟩ := Ogg.nextUnit_tracks hF
    obtain ⟨g, hrun', hstep'⟩ := Ogg.nextUnit_tracks hF'
    have hrec : (f.own.streams, f.header) = (g.own.streams, g.header) := by
      rw [hstep.record_eq, hstep'.record_eq, hst, hh]
    have hbr : f.broken = g.broken := by
      have := hstep.broken_eq
      have := hstep'.broken_eq
      omega
    rw [report_of_ok (step_next_of_ok (k := .theora) hrun), report_of_ok (step_next_of_ok (k := .theora) hrun')]
    simp only [Prod.mk.injEq] at hrec
    refine ⟨by rw [hrec.2, hbr], hrec.1, hrec.2, hbr, _, hstep.tracks, hstep'.tracks⟩

theorem agree_poll (h : Framing.Agree r r') :
    (report k .poll r).1 = ⟨.ok .ready, r.header, r.broken⟩ ∧
      Framing.Agree (report k .poll r).2 r' := by
  obtain ⟨M, hM, hM'⟩ := h.stream
  obtain ⟨b', hp, hb'⟩ := poll_of_holds hM
  rw [report_of_ok (step_poll_of_ok hp)]
  exact ⟨rfl, h.own_eq, h.header_eq, h.broken_eq, M, hb', hM'⟩

-- Waiting for input answers that it is ready and changes nothing a later request can see.
theorem same_poll (h : Same k r r') :
    (report k .poll r).1 = ⟨.ok .ready, r.header, r.broken⟩ ∧ Same k (report k .poll r).2 r' := by
  cases k with
  | flv => exact agree_poll h
  | mpegts => exact agree_poll h
  | text => exact agree_poll h
  | theora =>
    obtain ⟨hst, hh, hb, F, ⟨M, hM, hup⟩, hF'⟩ := h
    obtain ⟨b', hp, hb'⟩ := poll_of_holds hM
    rw [report_of_ok (step_poll_of_ok hp)]
    exact ⟨rfl, hst, hh, hb, F, ⟨M, hb', hup⟩, hF'⟩

-- The requests to cut units give the same reports whatever polls come between them.
theorem runSteps_same (hk : k ≠ .text) (st : List Step) :
    ∀ {r r' : Reader ChunkSource k}, Same k r r' →
      reportsAt .next st (runSteps k st r) = runSteps k (List.replicate (st.count .next) .next) r' ∧
        ∀ rep ∈ reportsAt .poll st (runSteps k st r), rep.outcome = .ok .ready := by
  induction st with
  | nil => intro r r' _; simp [reportsAt, runSteps]
  | cons s st ih =>
    intro r r' h
    cases s with
    | next =>
      obtain ⟨hrep, hsame⟩ := same_next hk h
      obtain ⟨ih₁, ih₂⟩ := ih hsame
      refine ⟨?_, ?_⟩
      · rw [List.count_cons_self, List.replicate_succ, runSteps_cons, runSteps_cons, reportsAt_cons,
          if_pos rfl, ih₁, hrep]
      · rw [runSteps_cons, reportsAt_cons, if_neg (by decide)]
        exact ih₂
    | poll =>
      obtain ⟨hrep, hsame⟩ := same_poll h
      obtain ⟨ih₁, ih₂⟩ := ih hsame
      refine ⟨?_, ?_⟩
      · rw [List.count_cons_of_ne (by decide), runSteps_cons, reportsAt_cons, if_neg (by decide), ih₁]
      · rw [runSteps_cons, reportsAt_cons, if_pos rfl]
        intro rep hmem
        cases List.mem_cons.mp hmem with
        | inl he => rw [he, hrep]
        | inr hr => exact ih₂ rep hr

theorem same_start (k : MediaKind) {cs₁ cs₂ : List Chunk} (h₁ : ChunkSource.Solid cs₁)
    (h₂ : ChunkSource.Solid cs₂) (hs : ChunkSource.bytesOf cs₁ = ChunkSource.bytesOf cs₂) :
    Same k (start k (ChunkSource.mk cs₁)) (start k (ChunkSource.mk cs₂)) := by
  have hM := Buffered.holds_start h₁
  rw [hs] at hM
  cases k with
  | flv => exact ⟨rfl, rfl, rfl, _, hM, Buffered.holds_start h₂⟩
  | mpegts => exact ⟨rfl, rfl, rfl, _, hM, Buffered.holds_start h₂⟩
  | text => exact ⟨rfl, rfl, rfl, _, hM, Buffered.holds_start h₂⟩
  | theora => exact ⟨rfl, rfl, rfl, _, ⟨_, hM, rfl⟩, Ogg.tracks_start h₂⟩

-- Framing does not depend on how the input is chunked nor on the polls made between requests:
-- two runs over solid chunkings of the same bytes, with polls placed anywhere, report the same
-- units and faults with the same header and count at each request for a unit, and every poll
-- answers that input is ready. Plain text is left out: its units are single reads.
theorem framing_ignores_chunking_and_polls (k : MediaKind) (hk : k ≠ .text) (cs₁ cs₂ : List Chunk)
    (h₁ : ChunkSource.Solid cs₁) (h₂ : ChunkSource.Solid cs₂)
    (hs : ChunkSource.bytesOf cs₁ = ChunkSource.bytesOf cs₂) (st₁ st₂ : List Step)
    (hn : st₁.count .next = st₂.count .next) :
    let out₁ := runSteps k st₁ (start k (ChunkSource.mk cs₁))
    let out₂ := runSteps k st₂ (start k (ChunkSource.mk cs₂))
    reportsAt .next st₁ out₁ = reportsAt .next st₂ out₂ ∧
      (∀ rep ∈ reportsAt .poll st₁ out₁, rep.outcome = .ok .ready) ∧
      ∀ rep ∈ reportsAt .poll st₂ out₂, rep.outcome = .ok .ready := by
  intro out₁ out₂
  obtain ⟨hnext₁, hpoll₁⟩ := runSteps_same hk st₁ (same_start k h₁ h₂ hs)
  obtain ⟨hnext₂, hpoll₂⟩ := runSteps_same hk st₂ (same_start k h₂ h₂ rfl)
  exact ⟨by rw [hnext₁, hnext₂, hn], hpoll₁, hpoll₂⟩

-- Two bytes of FLV, whole or split in two with a poll before the request.
theorem framing_ignores_chunking_and_polls_split :
    MediaKind.flv ≠ .text ∧ ChunkSource.Solid [.data [1, 2]] ∧
    ChunkSource.Solid [.data [1], .data [2]] ∧
    ChunkSource.bytesOf [.data [1, 2]] = ChunkSource.bytesOf [.data [1], .data [2]] ∧
    [Step.next].count .next = [Step.poll, Step.next].count .next ∧
    let out₁ := runSteps .flv [.next] (start .flv (ChunkSource.mk [.data [1, 2]]))
    let out₂ := runSteps .flv [.poll, .next] (start .flv (ChunkSource.mk [.data [1], .data [2]]))
    reportsAt .next [.next] out₁ = reportsAt .next [.poll, .next] out₂ ∧
      (∀ rep ∈ reportsAt .poll [.next] out₁, rep.outcome = .ok .ready) ∧
      ∀ rep ∈ reportsAt .poll [.poll, .next] out₂, rep.outcome = .ok .ready :=
  ⟨by decide, ChunkSource.solid_single _, ChunkSource.solid_of_nonempty (by simp), rfl, rfl,
    framing_ignores_chunking_and_polls .flv (by decide) [.data [1, 2]] [.data [1], .data [2]]
      (ChunkSource.solid_single _) (ChunkSource.solid_of_nonempty (by simp)) rfl _ _ rfl⟩

end Reader

end MediaRelay
