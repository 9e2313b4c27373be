/-
The handshake against a TLS engine of any behaviour.

`Engine` says what OpenSSL and the peer do: what every `SSL_do_handshake` puts into
`write_bio`, whether it reports a fatal error, after how many calls the handshake is
finished, how much `BIO_read` gives at most, and what every `read` returns. A memory BIO
that is empty has nothing to give, and `write` accepts everything.

`judoHandshake_` moves one chunk from `write_bio` to the socket in each round and looks
whether the handshake is finished before the next one; and it does not look at what
`SSL_do_handshake` returns. The two theorems say what follows from each.
-/
import JudoEngine.JudoServer.Connection
import JudoEngine.JudoServer.Packets

set_option autoImplicit false

open Words

namespace JudoEngine

/-- What the reads have returned. -/
def readResults : List (Event Op Ans) → List (Option (List Byte))
  | [] => []
  | ⟨.read _ _, r⟩ :: tr => r :: readResults tr
  | _ :: tr => readResults tr

/-! ## The engine

An engine answers from the number of calls of SSL_do_handshake so far, so what `write_bio`
holds in a round can be computed from the engine alone. -/

/-- The surroundings of one handshake, by the number of calls of `SSL_do_handshake`:
whether it is finished after that many, and for each call what it produces, whether it
reports a fatal error, how many bytes the next `BIO_read` gives at most, and what the next
`read` returns. -/
structure Engine where
  finished : ℕ → Bool
  produced : ℕ → List Byte
  fatal : ℕ → Bool
  moved : ℕ → ℕ
  moved_pos : ∀ k, 0 < moved k
  incoming : ℕ → Option (List Byte)

/-- How far a handshake is: the calls of `SSL_do_handshake`, what `write_bio` holds, and
whether there has been a read after a fatal error when nothing was left to be written. -/
structure Engine.State where
  calls : ℕ
  bio : List Byte
  late : Bool

namespace Engine

variable (engine : Engine)

/-- One of the first `k` calls has reported a fatal error. -/
def failed (k : ℕ) : Bool := (List.range k).any engine.fatal

/-- What a `BIO_read` after call `k` brings of these bytes. -/
def bring (size : ℤ) (k : ℕ) (bio : List Byte) : Option (List Byte) :=
  if bio = [] then none else some (bio.take (min (engine.moved k) size.toNat))

/-- The answers of the system. -/
def answer : State → (o : Op) → Ans o × State
  | s, .SSL_is_init_finished _ => (engine.finished s.calls, s)
  | s, .SSL_do_handshake _ => ((), ⟨s.calls + 1, s.bio ++ engine.produced s.calls, s.late⟩)
  | s, .BIO_read _ size =>
      (engine.bring size (s.calls - 1) s.bio,
        ⟨s.calls, s.bio.drop ((engine.bring size (s.calls - 1) s.bio).getD []).length, s.late⟩)
  | s, .write _ _ data => ((data.length : ℤ), s)
  | s, .read _ _ => (engine.incoming (s.calls - 1), ⟨s.calls, s.bio, s.late || (engine.failed s.calls && s.bio.isEmpty)⟩)
  | s, _ => (default, s)

/-- What `write_bio` holds before call `k`. -/
def pending (size : ℤ) : ℕ → List Byte
  | 0 => []
  | k + 1 => (pending size k ++ engine.produced k).drop
      ((engine.bring size k (pending size k ++ engine.produced k)).getD []).length

/-- What is moved to the socket after call `k`. -/
def chunk (size : ℤ) (k : ℕ) : Option (List Byte) := engine.bring size k (engine.pending size k ++ engine.produced k)

/-- The handshake in at most `fuel` rounds. -/
def play (t_node : ssl_node) (size : ℤ) (fuel : ℕ) (s : State) : List (Event Op Ans) × Option ℤ × State :=
  Prog.exec engine.answer (judoHandshake_ t_node size fuel) s

/-- Moving a chunk loses nothing. -/
theorem chunk_append (size : ℤ) (k : ℕ) :
    (engine.chunk size k).getD [] ++ engine.pending size (k + 1) = engine.pending size k ++ engine.produced k := by
  rw [pending, chunk]
  unfold bring
  split
  · rfl
  · rw [Option.getD_some, List.length_take]
    generalize engine.pending size k ++ engine.produced k = bio
    rcases Nat.le_total (min (engine.moved k) size.toNat) bio.length with hle | hle
    · rw [Nat.min_eq_left hle, List.take_append_drop]
    · rw [Nat.min_eq_right hle, List.take_of_length_le hle, List.drop_length, List.append_nil]

/-- `write_bio` is empty after a round just when the chunk is all of it. -/
theorem pending_succ_eq_nil (size : ℤ) (k : ℕ) : engine.pending size (k + 1) = []
    ↔ (engine.pending size k ++ engine.produced k).length ≤ min (engine.moved k) size.toNat := by
  rw [pending]
  unfold bring
  split
  · next hempty =>
      rw [hempty]
      exact ⟨fun _ => Nat.zero_le _, fun _ => rfl⟩
  · rw [Option.getD_some, List.length_take, List.drop_eq_nil_iff]
    omega

/-- A chunk is not empty. -/
theorem chunk_ne_nil {size : ℤ} (hsize : 0 < size) {k : ℕ} {c : List Byte} (hchunk : engine.chunk size k = some c) : c ≠ [] := by
  have hmoved := engine.moved_pos k
  unfold chunk bring at hchunk
  split at hchunk
  · exact absurd hchunk (Option.some_ne_none c).symm
  · next hne =>
      obtain rfl := Option.some.inj hchunk
      have hpos := List.length_pos_iff.mpr hne
      apply List.length_pos_iff.mp
      rw [List.length_take]
      omega

/-- There is no chunk just when there is nothing to move. -/
theorem chunk_eq_none {size : ℤ} {k : ℕ} : engine.chunk size k = none ↔ engine.pending size k ++ engine.produced k = [] := by
  unfold chunk bring
  split
  · next h => exact ⟨fun _ => h, fun _ => rfl⟩
  · next h => exact ⟨fun h' => absurd h' (Option.some_ne_none _), fun h' => absurd h' h⟩

/-! ## The rounds

There are three kinds of rounds: the handshake is finished, a chunk is moved, or bytes are
read. Each has its lemma, and the proofs below go by them. -/

variable (t_node : ssl_node) (size : ℤ) (fuel : ℕ)

/-- A round that finds the handshake finished. -/
theorem play_finished {k : ℕ} (late : Bool) (hfinished : engine.finished k = true) :
    let s : State := ⟨k, engine.pending size k, late⟩
    ∃ tr, engine.play t_node size (fuel + 1) s = (tr, some JUDO_SUCCESS, s) ∧ written tr = [] ∧ readResults tr = [] := by
  intro s
  unfold play
  rw [judoHandshake_, Prog.op_bind, Prog.exec_call]
  have hans : (engine.answer s (.SSL_is_init_finished t_node.ssl)).1 = true := hfinished
  rw [if_pos hans]
  exact ⟨_, rfl, rfl, rfl⟩

/-- What a round of `judoHandshake_` does with what `BIO_read` has brought. -/
def move (w : Option (List Byte)) : Sys (Option ℤ) :=
  if bytesRead w > 0 then do
    let _ ← sys (.write t_node.fp (bytesRead w) (w.getD []))
    judoHandshake_ t_node size fuel
  else do
    let r ← sys (.read t_node.fp size)
    if bytesRead r > 0 then do
      sys (.BIO_write t_node.read_bio (bytesRead r) (r.getD []))
      judoHandshake_ t_node size fuel
    else if bytesRead w < 0 then pure (some JUDO_SSL_HANDSHAKE_FAILURE)
    else judoHandshake_ t_node size fuel

/-- A round up to there. -/
theorem play_round {k : ℕ} (late : Bool) (hmore : engine.finished k = false) {w : Option (List Byte)}
    (hchunk : engine.chunk size k = w) :
    let x := Prog.exec engine.answer (move t_node size fuel w) ⟨k + 1, engine.pending size (k + 1), late⟩
    engine.play t_node size (fuel + 1) ⟨k, engine.pending size k, late⟩
      = (⟨.SSL_is_init_finished t_node.ssl, false⟩ :: ⟨.SSL_do_handshake t_node.ssl, ()⟩
        :: ⟨.BIO_read t_node.write_bio size, w⟩ :: x.1, x.2) := by
  subst hchunk
  have hinit : engine.answer ⟨k, engine.pending size k, late⟩ (.SSL_is_init_finished t_node.ssl)
      = (false, ⟨k, engine.pending size k, late⟩) := by
    rw [← hmore]
    rfl
  have hcall : engine.answer ⟨k, engine.pending size k, late⟩ (.SSL_do_handshake t_node.ssl)
      = ((), ⟨k + 1, engine.pending size k ++ engine.produced k, late⟩) := rfl
  have hread : engine.answer ⟨k + 1, engine.pending size k ++ engine.produced k, late⟩ (.BIO_read t_node.write_bio size)
      = (engine.chunk size k, ⟨k + 1, engine.pending size (k + 1), late⟩) := rfl
  unfold play
  rw [judoHandshake_, Prog.op_bind, Prog.exec_call, hinit, if_neg Bool.false_ne_true]
  dsimp only
  rw [Prog.op_bind, Prog.exec_call, hcall]
  dsimp only
  rw [Prog.op_bind, Prog.exec_call, hread]
  rfl

/-- A round that moves a chunk to the socket. -/
theorem play_chunk {k : ℕ} (late : Bool) {c : List Byte} (hmore : engine.finished k = false)
    (hchunk : engine.chunk size k = some c) (hc : c ≠ []) :
    let x := engine.play t_node size fuel ⟨k + 1, engine.pending size (k + 1), late⟩
    ∃ tr, engine.play t_node size (fuel + 1) ⟨k, engine.pending size k, late⟩ = (tr ++ x.1, x.2) ∧ written tr = [c]
      ∧ readResults tr = [] := by
  intro x
  rw [engine.play_round t_node size fuel late hmore hchunk, move, if_pos (bytesRead_pos hc)]
  exact ⟨[⟨.SSL_is_init_finished t_node.ssl, false⟩, ⟨.SSL_do_handshake t_node.ssl, ()⟩,
    ⟨.BIO_read t_node.write_bio size, some c⟩, ⟨.write t_node.fp (bytesRead (some c)) c, (c.length : ℤ)⟩], rfl, rfl, rfl⟩

/-- The read of a round that has nothing to move. -/
theorem answer_read {k : ℕ} (late : Bool) (hempty : engine.chunk size k = none) :
    engine.answer ⟨k + 1, engine.pending size (k + 1), late⟩ (.read t_node.fp size)
      = (engine.incoming k, ⟨k + 1, engine.pending size (k + 1), late || engine.failed (k + 1)⟩) := by
  have hnone : engine.pending size (k + 1) = [] := by
    rw [pending, engine.chunk_eq_none.mp hempty, List.drop_nil]
  rw [answer, hnone, List.isEmpty_nil, Bool.and_true]
  rfl

/-- A round that reads from the socket, and goes on with what has come. -/
theorem play_read {k : ℕ} (late : Bool) (hmore : engine.finished k = false) (hempty : engine.chunk size k = none)
    (hread : 0 < bytesRead (engine.incoming k)) :
    let x := engine.play t_node size fuel ⟨k + 1, engine.pending size (k + 1), late || engine.failed (k + 1)⟩
    ∃ tr, engine.play t_node size (fuel + 1) ⟨k, engine.pending size k, late⟩ = (tr ++ x.1, x.2) ∧ written tr = []
      ∧ readResults tr = [engine.incoming k] := by
  intro x
  have hnot : ¬ bytesRead (none : Option (List Byte)) > 0 := by decide
  rw [engine.play_round t_node size fuel late hmore hempty, move, if_neg hnot, Prog.op_bind, Prog.exec_call,
    engine.answer_read t_node size late hempty, if_pos hread]
  exact ⟨[⟨.SSL_is_init_finished t_node.ssl, false⟩, ⟨.SSL_do_handshake t_node.ssl, ()⟩,
    ⟨.BIO_read t_node.write_bio size, none⟩, ⟨.read t_node.fp size, engine.incoming k⟩,
    ⟨.BIO_write t_node.read_bio (bytesRead (engine.incoming k)) ((engine.incoming k).getD []), ()⟩], rfl, rfl, rfl⟩

/-- A round whose read brings nothing is the last one. -/
theorem play_cut {k : ℕ} (late : Bool) (hmore : engine.finished k = false) (hempty : engine.chunk size k = none)
    (hread : bytesRead (engine.incoming k) ≤ 0) :
    ∃ tr, engine.play t_node size (fuel + 1) ⟨k, engine.pending size k, late⟩
      = (tr, some JUDO_SSL_HANDSHAKE_FAILURE, ⟨k + 1, engine.pending size (k + 1), late || engine.failed (k + 1)⟩)
      ∧ written tr = [] ∧ readResults tr = [engine.incoming k] := by
  have hnot : ¬ bytesRead (none : Option (List Byte)) > 0 := by decide
  have hneg : bytesRead (none : Option (List Byte)) < 0 := by decide
  rw [engine.play_round t_node size fuel late hmore hempty, move, if_neg hnot, Prog.op_bind, Prog.exec_call,
    engine.answer_read t_node size late hempty, if_neg (not_lt.mpr hread), if_pos hneg]
  exact ⟨_, rfl, rfl, rfl⟩

theorem readResults_append (tr tr' : List (Event Op Ans)) : readResults (tr ++ tr') = readResults tr ++ readResults tr' := by
  induction tr with
  | nil => rfl
  | cons ev tr ih =>
      obtain ⟨o, x⟩ := ev
      cases o <;> simp only [List.cons_append, readResults, ih]

/-! ## The last flight

The loop looks whether the handshake is finished before it moves the next chunk, so of what
the last call has produced one chunk is written. -/

/-- A handshake that succeeds from call `k` on ends with the first look that finds it
finished. What it has written, and what is left in `write_bio`, is what was there and what
the engine has produced since. -/
theorem success_spec (hsize : 0 < size) : ∀ (k : ℕ) (late : Bool),
    let x := engine.play t_node size fuel ⟨k, engine.pending size k, late⟩
    x.2.1 = some JUDO_SUCCESS → ∃ n, engine.finished (k + n) = true ∧ (∀ i < n, engine.finished (k + i) = false)
      ∧ x.2.2.bio = engine.pending size (k + n)
      ∧ (written x.1).flatten ++ engine.pending size (k + n)
        = engine.pending size k ++ (List.range' k n).flatMap engine.produced := by
  induction fuel with
  | zero =>
      intro k late x hret
      exact absurd hret (Option.some_ne_none _).symm
  | succ fuel ih =>
      intro k late
      dsimp only
      cases hfinished : engine.finished k with
      | true =>
          obtain ⟨tr, hplay, hwritten, -⟩ := engine.play_finished t_node size fuel late hfinished
          rw [hplay, hwritten]
          exact fun _ => ⟨0, hfinished, fun i hi => absurd hi (Nat.not_lt_zero i), rfl, (List.append_nil _).symm⟩
      | false =>
          have hmoved := engine.chunk_append size k
          -- one more call, and the rounds after it
          have hnext : ∀ n, (∀ i < n, engine.finished (k + 1 + i) = false) → ∀ i < n + 1, engine.finished (k + i) = false := by
            intro n hall i hi
            cases i with
            | zero => exact hfinished
            | succ i =>
                rw [← Nat.add_assoc, Nat.add_right_comm]
                exact hall i (Nat.lt_of_succ_lt_succ hi)
          cases hchunk : engine.chunk size k with
          | some c =>
              obtain ⟨tr, hplay, hwritten, -⟩ := engine.play_chunk t_node size fuel late hfinished hchunk
                (engine.chunk_ne_nil hsize hchunk)
              rw [hplay]
              intro hret
              obtain ⟨n, hend, hall, hbio, hbytes⟩ := ih (k + 1) late hret
              rw [Nat.add_right_comm, Nat.add_assoc] at hend hbio hbytes
              refine ⟨n + 1, hend, hnext n hall, hbio, ?_⟩
              rw [hchunk, Option.getD_some] at hmoved
              dsimp only
              rw [written_append, hwritten, List.flatten_append, List.flatten_singleton, List.append_assoc, hbytes,
                ← List.append_assoc, hmoved, List.range'_succ, List.flatMap_cons, List.append_assoc]
          | none =>
              by_cases hread : 0 < bytesRead (engine.incoming k)
              · obtain ⟨tr, hplay, hwritten, -⟩ := engine.play_read t_node size fuel late hfinished hchunk hread
                rw [hplay]
                intro hret
                obtain ⟨n, hend, hall, hbio, hbytes⟩ := ih (k + 1) _ hret
                rw [Nat.add_right_comm, Nat.add_assoc] at hend hbio hbytes
                refine ⟨n + 1, hend, hnext n hall, hbio, ?_⟩
                rw [hchunk, Option.getD_none, List.nil_append] at hmoved
                dsimp only
                rw [written_append, hwritten, List.nil_append, hbytes, hmoved, List.range'_succ, List.flatMap_cons,
                  List.append_assoc]
              · obtain ⟨tr, hplay, -⟩ := engine.play_cut t_node size fuel late hfinished hchunk (not_lt.mp hread)
                rw [hplay]
                intro hret
                exact absurd (Option.some.inj hret) (by decide)

/-- **A finished handshake has been sent in full** exactly when the chunk after the last
call of `SSL_do_handshake` takes all that `write_bio` then holds: there is no other round
to move the rest. -/
theorem flight_sent_iff {K : ℕ} (hfinished : engine.finished K = true) (hfirst : ∀ k < K, engine.finished k = false)
    (hsize : 0 < size) (hret : (engine.play t_node size fuel ⟨0, [], false⟩).2.1 = some JUDO_SUCCESS) :
    ((engine.play t_node size fuel ⟨0, [], false⟩).2.2.bio = []
        ∧ (written (engine.play t_node size fuel ⟨0, [], false⟩).1).flatten = (List.range K).flatMap engine.produced)
      ↔ ∀ k, K = k + 1 → (engine.pending size k ++ engine.produced k).length ≤ min (engine.moved k) size.toNat := by
  obtain ⟨n, hend, hall, hbio, hbytes⟩ := engine.success_spec t_node size fuel hsize 0 false hret
  rw [Nat.zero_add] at hend hbio hbytes
  -- the round that ends the handshake is the first one that finds it finished
  obtain rfl : n = K := by
    rcases Nat.lt_trichotomy n K with hlt | heq | hgt
    · exact absurd (hend.symm.trans (hfirst n hlt)) (by decide)
    · exact heq
    · have hmore := hall K hgt
      rw [Nat.zero_add] at hmore
      exact absurd (hfinished.symm.trans hmore) (by decide)
  rw [← List.range_eq_range', pending, List.nil_append] at hbytes
  have hempty : engine.pending size n = []
      ↔ ∀ k, n = k + 1 → (engine.pending size k ++ engine.produced k).length ≤ min (engine.moved k) size.toNat := by
    cases n with
    | zero => exact ⟨fun _ k hk => absurd hk (Nat.succ_ne_zero k).symm, fun _ => rfl⟩
    | succ k =>
        rw [engine.pending_succ_eq_nil]
        constructor
        · rintro hle k' hk'
          obtain rfl := Nat.succ.inj hk'
          exact hle
        · exact fun h => h k rfl
  rw [← hempty]
  show (engine.play t_node size fuel ⟨0, engine.pending size 0, false⟩).2.2.bio = [] ∧ _ ↔ _
  rw [hbio]
  constructor
  · exact fun h => h.1
  · intro hnil
    rw [hnil, List.append_nil] at hbytes
    exact ⟨hnil, hbytes⟩

/-- An engine that produces one flight of this length, and is finished with it. -/
def oneFlight (length : ℕ) : Engine where
  finished k := k = 1
  produced _ := List.replicate length 0x16
  fatal _ := false
  moved _ := 64
  moved_pos _ := by norm_num
  incoming _ := none

/-- A flight that the buffer has room for. -/
theorem flight_sent_fits : ((oneFlight 40).play node64 64 2 ⟨0, [], false⟩).2.2.bio = []
    ∧ (written ((oneFlight 40).play node64 64 2 ⟨0, [], false⟩).1).flatten = (List.range 1).flatMap (oneFlight 40).produced := by
  refine ((oneFlight 40).flight_sent_iff node64 64 2 (K := 1) (by decide) (by decide) (by norm_num) (by decide +kernel)).mpr ?_
  intro k hk
  obtain rfl : k = 0 := by omega
  decide

/-- A last flight of 100 bytes and a buffer of 64: 36 bytes stay in `write_bio`. -/
theorem flight_left_over : ((oneFlight 100).play node64 64 2 ⟨0, [], false⟩).2.1 = some JUDO_SUCCESS
    ∧ ¬ (((oneFlight 100).play node64 64 2 ⟨0, [], false⟩).2.2.bio = []
      ∧ (written ((oneFlight 100).play node64 64 2 ⟨0, [], false⟩).1).flatten
        = (List.range 1).flatMap (oneFlight 100).produced) := by
  decide +kernel

/-! ## Fatal errors

`late` records a read after a fatal error with nothing left to be written. The three lemmas
are about a run from round `k` on, by induction on the rounds that are left. -/

/-- Round `k` takes place: no earlier one has found the handshake finished, or read
nothing. -/
def Reached (k : ℕ) : Prop := (∀ i ≤ k, engine.finished i = false)
  ∧ ∀ i < k, engine.chunk size i = none → 0 < bytesRead (engine.incoming i)

/-- A failed handshake stops: after a fatal error, when all of the alert has been written,
nothing is read any more and the call returns; and it returns after a read that brings
nothing. -/
structure Stops : Prop where
  noRead : ∀ fuel, (engine.play t_node size fuel ⟨0, [], false⟩).2.2.late = false
  returns : (∃ k, engine.Reached size k ∧ engine.failed (k + 1) = true ∧ engine.pending size (k + 1) = []) →
    ∃ fuel, (engine.play t_node size fuel ⟨0, [], false⟩).2.1 = some JUDO_SSL_HANDSHAKE_FAILURE
  cut : ∀ fuel, ∀ r ∈ readResults (engine.play t_node size fuel ⟨0, [], false⟩).1, bytesRead r ≤ 0 →
    (engine.play t_node size fuel ⟨0, [], false⟩).2.1 = some JUDO_SSL_HANDSHAKE_FAILURE

/-- A handshake that has failed has failed from then on. -/
theorem failed_mono {j k : ℕ} (hjk : j ≤ k) (hfailed : engine.failed j = true) : engine.failed k = true := by
  unfold failed at hfailed ⊢
  rw [List.any_eq_true] at hfailed ⊢
  obtain ⟨i, hi, hfatal⟩ := hfailed
  rw [List.mem_range] at hi
  exact ⟨i, List.mem_range.mpr (by omega), hfatal⟩

/-- From round `k` on: where the engine never reports a fatal error before `write_bio` is
empty, there is no late read. -/
theorem not_late (hsize : 0 < size)
    (hcond : ∀ k, engine.Reached size k → engine.failed (k + 1) = true → engine.pending size (k + 1) ≠ []) :
    ∀ (k : ℕ), (∀ i < k, engine.finished i = false ∧ (engine.chunk size i = none → 0 < bytesRead (engine.incoming i))) →
      (engine.play t_node size fuel ⟨k, engine.pending size k, false⟩).2.2.late = false := by
  -- by the rounds: a finished handshake, a chunk, a read that brings something, and one that does
  -- not
  induction fuel with
  | zero => exact fun k _ => rfl
  | succ fuel ih =>
      intro k hpassed
      cases hfinished : engine.finished k with
      | true =>
          obtain ⟨tr, hplay, -⟩ := engine.play_finished t_node size fuel false hfinished
          rw [hplay]
      | false =>
          cases hchunk : engine.chunk size k with
          | some c =>
              obtain ⟨tr, hplay, -⟩ := engine.play_chunk t_node size fuel false hfinished hchunk
                (engine.chunk_ne_nil hsize hchunk)
              rw [hplay]
              apply ih
              intro i hi
              rcases Nat.lt_succ_iff_lt_or_eq.mp hi with hi | rfl
              · exact hpassed i hi
              · exact ⟨hfinished, fun hnone => absurd (hchunk.symm.trans hnone) (Option.some_ne_none c)⟩
          | none =>
              have hreached : engine.Reached size k := by
                constructor
                · intro i hi
                  rcases Nat.lt_or_eq_of_le hi with hi | rfl
                  · exact (hpassed i hi).1
                  · exact hfinished
                · exact fun i hi => (hpassed i hi).2
              have hnil : engine.pending size (k + 1) = [] := by
                rw [pending, engine.chunk_eq_none.mp hchunk, List.drop_nil]
              have hquiet : engine.failed (k + 1) = false :=
                Bool.eq_false_iff.mpr fun hfailed => hcond k hreached hfailed hnil
              by_cases hread : 0 < bytesRead (engine.incoming k)
              · obtain ⟨tr, hplay, -⟩ := engine.play_read t_node size fuel false hfinished hchunk hread
                rw [hplay, hquiet, Bool.or_false]
                apply ih
                intro i hi
                rcases Nat.lt_succ_iff_lt_or_eq.mp hi with hi | rfl
                · exact hpassed i hi
                · exact ⟨hfinished, fun _ => hread⟩
              · obtain ⟨tr, hplay, -⟩ := engine.play_cut t_node size fuel false hfinished hchunk (not_lt.mp hread)
                rw [hplay]
                exact hquiet

/-- A call that fails does so in a round that has nothing to move and reads nothing. -/
theorem failure_spec (hsize : 0 < size) : ∀ (k : ℕ) (late : Bool),
    let x := engine.play t_node size fuel ⟨k, engine.pending size k, late⟩
    x.2.1 = some JUDO_SSL_HANDSHAKE_FAILURE → ∃ j, k ≤ j ∧ engine.chunk size j = none ∧ bytesRead (engine.incoming j) ≤ 0
      ∧ (engine.failed (j + 1) = true → x.2.2.late = true) := by
  -- by the rounds: finished, a chunk to write, bytes to read, or the cut; only the cut returns the
  -- failure
  induction fuel with
  | zero =>
      intro k late x hret
      exact absurd hret (Option.some_ne_none _).symm
  | succ fuel ih =>
      intro k late
      dsimp only
      cases hfinished : engine.finished k with
      | true =>
          obtain ⟨tr, hplay, -⟩ := engine.play_finished t_node size fuel late hfinished
          rw [hplay]
          intro hret
          exact absurd (Option.some.inj hret) (by decide)
      | false =>
          cases hchunk : engine.chunk size k with
          | some c =>
              obtain ⟨tr, hplay, -⟩ := engine.play_chunk t_node size fuel late hfinished hchunk
                (engine.chunk_ne_nil hsize hchunk)
              rw [hplay]
              intro hret
              obtain ⟨j, hle, hj⟩ := ih (k + 1) late hret
              exact ⟨j, by omega, hj⟩
          | none =>
              by_cases hread : 0 < bytesRead (engine.incoming k)
              · obtain ⟨tr, hplay, -⟩ := engine.play_read t_node size fuel late hfinished hchunk hread
                rw [hplay]
                intro hret
                obtain ⟨j, hle, hj⟩ := ih (k + 1) _ hret
                exact ⟨j, by omega, hj⟩
              · obtain ⟨tr, hplay, -⟩ := engine.play_cut t_node size fuel late hfinished hchunk (not_lt.mp hread)
                rw [hplay]
                intro _
                refine ⟨k, le_refl k, hchunk, not_lt.mp hread, fun hfailed => ?_⟩
                dsimp only
                rw [hfailed, Bool.or_true]

/-- A read that brings nothing ends the call, with that code. -/
theorem cut_spec (hsize : 0 < size) : ∀ (k : ℕ) (late : Bool),
    let x := engine.play t_node size fuel ⟨k, engine.pending size k, late⟩
    ∀ r ∈ readResults x.1, bytesRead r ≤ 0 → x.2.1 = some JUDO_SSL_HANDSHAKE_FAILURE := by
  -- by the rounds, as for failure_spec: a read of nothing belongs to the last round only
  induction fuel with
  | zero => exact fun k late r hr => absurd hr List.not_mem_nil
  | succ fuel ih =>
      intro k late
      dsimp only
      intro r hr hle
      cases hfinished : engine.finished k with
      | true =>
          obtain ⟨tr, hplay, -, hreads⟩ := engine.play_finished t_node size fuel late hfinished
          rw [hplay, hreads] at hr
          exact absurd hr List.not_mem_nil
      | false =>
          cases hchunk : engine.chunk size k with
          | some c =>
              obtain ⟨tr, hplay, -, hreads⟩ := engine.play_chunk t_node size fuel late hfinished hchunk
                (engine.chunk_ne_nil hsize hchunk)
              rw [hplay]
              rw [hplay, readResults_append, hreads] at hr
              exact ih (k + 1) late r hr hle
          | none =>
              by_cases hread : 0 < bytesRead (engine.incoming k)
              · obtain ⟨tr, hplay, -, hreads⟩ := engine.play_read t_node size fuel late hfinished hchunk hread
                rw [hplay]
                rw [hplay, readResults_append, hreads] at hr
                rcases List.mem_cons.mp hr with rfl | hr
                · exact absurd hread (not_lt.mpr hle)
                · exact ih (k + 1) _ r hr hle
              · obtain ⟨tr, hplay, -⟩ := engine.play_cut t_node size fuel late hfinished hchunk (not_lt.mp hread)
                rw [hplay]

/-- **A failed handshake stops** exactly when it does not fail: when no `SSL_do_handshake`
reports a fatal error, or `write_bio` is never empty after one. `judoHandshake_` does not
look at what `SSL_do_handshake` returns, and goes on reading. -/
theorem stops_iff (hsize : 0 < size) : engine.Stops t_node size
    ↔ ∀ k, engine.Reached size k → engine.failed (k + 1) = true → engine.pending size (k + 1) ≠ [] := by
  constructor
  · intro hstops k hreached hfailed hnil
    obtain ⟨fuel, hret⟩ := hstops.returns ⟨k, hreached, hfailed, hnil⟩
    obtain ⟨j, -, hchunk, hread, hlate⟩ := engine.failure_spec t_node size fuel hsize 0 false hret
    -- the round that read nothing is not before the one of the error, so its read was late
    have hle : k ≤ j := by
      by_contra hlt
      exact absurd (hreached.2 j (not_le.mp hlt) hchunk) (not_lt.mpr hread)
    have hfailed' := engine.failed_mono (Nat.succ_le_succ hle) hfailed
    exact absurd ((hstops.noRead fuel).symm.trans (hlate hfailed')) (by decide)
  · intro hcond
    refine ⟨fun fuel => ?_, ?_, fun fuel => ?_⟩
    · exact engine.not_late t_node size fuel hsize hcond 0 fun i hi => absurd hi (Nat.not_lt_zero i)
    · rintro ⟨k, hreached, hfailed, hnil⟩
      exact absurd hnil (hcond k hreached hfailed)
    · exact engine.cut_spec t_node size fuel hsize 0 false

/-- An engine that never fails, and a peer that has gone away. -/
theorem stops_quiet : (oneFlight 0).Stops node64 64 := by
  refine ((oneFlight 0).stops_iff node64 64 (by norm_num)).mpr fun k _ hfailed => ?_
  unfold failed at hfailed
  rw [List.any_eq_true] at hfailed
  obtain ⟨i, -, hfatal⟩ := hfailed
  exact absurd hfatal Bool.false_ne_true

/-- An engine that rejects the first bytes of a peer that keeps sending. -/
def rejecting : Engine where
  finished _ := false
  produced _ := []
  fatal k := k = 1
  moved _ := 64
  moved_pos _ := by norm_num
  incoming _ := some [0x00]

/-- `judoHandshake_` goes on reading from it. -/
theorem reads_after_failure : ¬ rejecting.Stops node64 64 := by
  intro hstops
  have hlate := hstops.noRead 2
  revert hlate
  decide +kernel

end Engine

end JudoEngine
