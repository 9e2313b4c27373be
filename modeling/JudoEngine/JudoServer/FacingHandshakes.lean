/-
Two handshakes that face each other.

Each end runs `judoHandshake_` over an OpenSSL of its own (`Tls`: any automaton that eats
what is in `read_bio` and puts something into `write_bio`), and what one end writes is what
the other one reads. A step is one operation of one end; bytes are read in any pieces that
fit into the buffer, as TCP may cut them, and `BIO_read` may give less than it has.

`judoHandshake_` is a pump: it only carries bytes from one place to the next. The protocol
`carrying` says so with the bytes that it has in its hands, and everything else is read off
that: nothing that one OpenSSL produces is lost, repeated or reordered on its way to the
other (`handshakes_transparent`), and the two ends wait for each other only when neither
has anything to say, or when one of them has returned with bytes left in `write_bio`
(`handshakes_atRest_iff`).

`write` accepts everything here, and a `read` that finds nothing waits for bytes. It does not
fail, nor does it run into the five seconds that `judoAccept_` and `judoSocketConnect_` set
with `SO_RCVTIMEO`: where this module says that an end waits, the program gives up after
that time with a read that returns -1, and `judoHandshake_` returns `JUDO_SSL_HANDSHAKE_FAILURE`.
-/
import JudoEngine.JudoServer.Handshake
import JudoEngine.Lib.Obeys

set_option autoImplicit false

open Words

namespace JudoEngine

/-! ## OpenSSL at one end

Nothing is assumed about the state machine in OpenSSL. Its memory BIOs are byte queues, and
the socket is one, too. -/

/-- Whether the handshake is finished, and what a call of `SSL_do_handshake` makes of what
`read_bio` holds: the next state, what is left there, and what goes into `write_bio`. -/
structure Tls (σ : Type) where
  finished : σ → Bool
  handshake : σ → List Byte → σ × List Byte × List Byte

/-- Its state and its two BIOs, all that has ever been put into `write_bio`, and what is on
its way to the socket. -/
structure Ssl (σ : Type) where
  state : σ
  read_bio : List Byte
  write_bio : List Byte
  made : List Byte
  incoming : List Byte

/-- Some of the first bytes, at most `size` of them. -/
structure Chunk (size : ℤ) (bytes d : List Byte) : Prop where
  nonempty : d ≠ []
  length : (d.length : ℤ) ≤ size
  first : d <+: bytes

variable {σ : Type}

/-- What an operation does there, with the answers that it can have. A read waits for
bytes, and `write` accepts everything. -/
inductive Ssl.Does (tls : Tls σ) (c : Ssl σ) : Event Op Ans → Ssl σ → Prop where
  | finished (ssl : ℕ) : Does tls c ⟨.SSL_is_init_finished ssl, tls.finished c.state⟩ c
  | handshake (ssl : ℕ) : Does tls c ⟨.SSL_do_handshake ssl, ()⟩ { c with
      state := (tls.handshake c.state c.read_bio).1
      read_bio := (tls.handshake c.state c.read_bio).2.1
      write_bio := c.write_bio ++ (tls.handshake c.state c.read_bio).2.2
      made := c.made ++ (tls.handshake c.state c.read_bio).2.2 }
  | nothing (bio : ℕ) (size : ℤ) (h : c.write_bio = []) : Does tls c ⟨.BIO_read bio size, none⟩ c
  | bring (bio : ℕ) (size : ℤ) (d : List Byte) (h : Chunk size c.write_bio d) :
      Does tls c ⟨.BIO_read bio size, some d⟩ { c with write_bio := c.write_bio.drop d.length }
  | feed (bio : ℕ) (size : ℤ) (d : List Byte) : Does tls c ⟨.BIO_write bio size d, ()⟩ { c with read_bio := c.read_bio ++ d }
  | read (fd size : ℤ) (d : List Byte) (h : Chunk size c.incoming d) :
      Does tls c ⟨.read fd size, some d⟩ { c with incoming := c.incoming.drop d.length }
  | write (fd size : ℤ) (d : List Byte) : Does tls c ⟨.write fd size d, (d.length : ℤ)⟩ c
  | log (t_str : String) (t_num_values : ℤ) : Does tls c ⟨.log t_str t_num_values, ()⟩ c

/-- A chunk and the rest. -/
theorem Chunk.append_drop {size : ℤ} {bytes d : List Byte} (h : Chunk size bytes d) : d ++ bytes.drop d.length = bytes := by
  obtain ⟨rest, rfl⟩ := h.first
  rw [List.drop_left]

/-- There is one when there are bytes, and room for them. -/
theorem exists_chunk {size : ℤ} (hsize : 0 < size) {bytes : List Byte} (hne : bytes ≠ []) : ∃ d, Chunk size bytes d := by
  have hpos := List.length_pos_iff.mpr hne
  refine ⟨bytes.take size.toNat, ?_, ?_, List.take_prefix _ _⟩
  · apply List.length_pos_iff.mp
    rw [List.length_take]
    omega
  · rw [List.length_take]
    omega

/-- The bytes that an operation moves: out of `write_bio`, onto the socket, off it, and
into `read_bio`. -/
def brought : Event Op Ans → List Byte
  | ⟨.BIO_read _ _, r⟩ => r.getD []
  | _ => []

/-- The bytes that go out to the socket. -/
def sentOut : Event Op Ans → List Byte
  | ⟨.write _ _ d, _⟩ => d
  | _ => []

/-- The bytes that come in from it. -/
def gotIn : Event Op Ans → List Byte
  | ⟨.read _ _, r⟩ => r.getD []
  | _ => []

/-- The bytes that are put into `read_bio`. -/
def fed : Event Op Ans → List Byte
  | ⟨.BIO_write _ _ d, _⟩ => d
  | _ => []

/-- What the other end makes of it. -/
def Ssl.arrive (c : Ssl σ) : Event Op Ans → Ssl σ
  | ⟨.write _ _ d, _⟩ => { c with incoming := c.incoming ++ d }
  | _ => c

/-- What is written is on its way behind what was. -/
theorem Ssl.arrive_incoming (c : Ssl σ) (ev : Event Op Ans) : (c.arrive ev).incoming = c.incoming ++ sentOut ev := by
  obtain ⟨o, x⟩ := ev
  cases o with
  | write fd n d => rfl
  | _ => exact (List.append_nil _).symm

/-- What is read is no longer on its way. -/
theorem Ssl.Does.incoming {tls : Tls σ} {c c' : Ssl σ} {ev : Event Op Ans} (h : c.Does tls ev c') :
    gotIn ev ++ c'.incoming = c.incoming := by
  cases h with
  | read fd n d h => exact h.append_drop
  | _ => rfl

/-! ## The pump

One buffer carries both ways, so the protocol is about what is in it: nothing may be
overwritten that has not been delivered. -/

/-- What `judoHandshake_` has in its buffer, on its way out and on its way in, and whether
the last operation has found `write_bio` empty. -/
structure Hand where
  out : List Byte
  inward : List Byte
  dry : Bool

/-- A read comes only with empty hands and after an empty `write_bio`, and what is written
or put into `read_bio` is what was taken last. -/
def carrying (t_node : ssl_node) (size : ℤ) : Protocol Op Ans Hand where
  allows h
    | .SSL_is_init_finished _ | .SSL_do_handshake _ | .log _ _ => True
    | .BIO_read _ n => h.out = [] ∧ n = size
    | .write _ _ d => d = h.out
    | .read fd n => h = ⟨[], [], true⟩ ∧ fd = t_node.fp ∧ n = size
    | .BIO_write _ _ d => d = h.inward
    | _ => False
  answers
    | ⟨.BIO_read _ _, r⟩ => r ≠ some []
    | ⟨.read _ _, r⟩ => ∃ d, r = some d ∧ d ≠ []
    | _ => True
  after h
    | ⟨.BIO_read _ _, r⟩ => ⟨r.getD [], h.inward, r.isNone⟩
    | ⟨.write _ _ _, _⟩ => ⟨[], h.inward, false⟩
    | ⟨.read _ _, r⟩ => ⟨h.out, r.getD [], false⟩
    | ⟨.BIO_write _ _ _, _⟩ => ⟨h.out, [], false⟩
    | _ => ⟨h.out, h.inward, false⟩

/-- What one end can be answered is an answer of the protocol. -/
theorem Ssl.Does.answers {t_node : ssl_node} {size : ℤ} {tls : Tls σ} {c c' : Ssl σ} {ev : Event Op Ans}
    (h : c.Does tls ev c') : (carrying t_node size).answers ev := by
  cases h with
  | bring bio n d h => exact fun heq => h.nonempty (Option.some.inj heq)
  | read fd n d h => exact ⟨d, rfl, h.nonempty⟩
  | nothing => exact (Option.some_ne_none _).symm
  | _ => trivial

/-- It returns with empty hands, and with success if it has had enough rounds. -/
def EmptyHanded (h : Hand) (ret : Option ℤ) : Prop :=
  h.out = [] ∧ h.inward = [] ∧ (ret = some JUDO_SUCCESS ∨ ret = none)

/-- `judoHandshake_` only carries. -/
theorem obeys_judoHandshake_ (t_node : ssl_node) (size : ℤ) (fuel : ℕ) : ∀ (h : Hand), h.out = [] → h.inward = [] →
    Prog.Obeys (carrying t_node size) EmptyHanded (judoHandshake_ t_node size fuel) h := by
  induction fuel with
  | zero => exact fun h hout hin => ⟨hout, hin, .inr rfl⟩
  | succ fuel ih =>
      intro h hout hin
      unfold judoHandshake_
      refine .step trivial fun finished _ => ?_
      split
      · exact .step trivial fun _ _ => ⟨hout, hin, .inl rfl⟩
      · refine .step trivial fun _ _ => .step ⟨hout, rfl⟩ fun w hw => ?_
        split
        · exact .step rfl fun _ _ => ih _ rfl hin
        · next hnot =>
            -- nothing was there, for what `BIO_read` brings is not empty
            cases w with
            | some d => exact absurd (bytesRead_pos fun hd => hw (congrArg some hd)) hnot
            | none =>
                have hempty : Hand.mk [] h.inward true = ⟨[], [], true⟩ := by rw [hin]
                refine .step ⟨hempty, rfl, rfl⟩ fun r hr => ?_
                obtain ⟨d, rfl, hd⟩ := hr
                rw [if_pos (bytesRead_pos hd)]
                exact .step rfl fun _ _ => ih _ rfl rfl

/-! ## Runs

Both programs are run as they are, an operation at a time and in any order. -/

/-- What the two ends have left to do, what they have done, and OpenSSL at each. -/
structure Facing (σ : Type) where
  left : Bool → Sys (Option ℤ)
  log : Bool → List (Event Op Ans)
  ssl : Bool → Ssl σ

namespace Facing

/-- Two handshakes with nothing in the BIOs and nothing on the way. -/
def start (t_node : Bool → ssl_node) (size : ℤ) (fuel : ℕ) (init : Bool → σ) : Facing σ :=
  ⟨fun e => judoHandshake_ (t_node e) size fuel, fun _ => [], fun e => ⟨init e, [], [], [], []⟩⟩

/-- One end has done an operation. -/
def moved (s : Facing σ) (e : Bool) (ev : Event Op Ans) (p : Sys (Option ℤ)) (c : Ssl σ) : Facing σ :=
  ⟨Function.update s.left e p, Function.update s.log e (s.log e ++ [ev]),
    Function.update (Function.update s.ssl (!e) ((s.ssl !e).arrive ev)) e c⟩

/-- One operation of one end. -/
inductive Step (tls : Bool → Tls σ) (s : Facing σ) : Facing σ → Prop where
  | step (e : Bool) (o : Op) (k : Ans o → Sys (Option ℤ)) (x : Ans o) (c : Ssl σ) (hleft : s.left e = .call o k)
      (hdoes : (s.ssl e).Does (tls e) ⟨o, x⟩ c) : Step tls s (s.moved e ⟨o, x⟩ (k x) c)

/-- What can come of them. -/
inductive Reach (tls : Bool → Tls σ) (t_node : Bool → ssl_node) (size : ℤ) (fuel : ℕ) (init : Bool → σ) : Facing σ → Prop where
  | start : Reach tls t_node size fuel init (start t_node size fuel init)
  | step {s s' : Facing σ} (h : Reach tls t_node size fuel init s) (hstep : Step tls s s') : Reach tls t_node size fuel init s'

/-- Neither end can do anything. -/
def AtRest (tls : Bool → Tls σ) (s : Facing σ) : Prop := ∀ s', ¬ Step tls s s'

variable {tls : Bool → Tls σ} {t_node : Bool → ssl_node} {size : ℤ} {fuel : ℕ} {init : Bool → σ} {s s' : Facing σ}

section Moved

variable (s) (e : Bool) (ev : Event Op Ans) (p : Sys (Option ℤ)) (c : Ssl σ)

/-- What an operation changes at its own end, and at the other one. -/
@[simp] theorem moved_left : (s.moved e ev p c).left e = p := Function.update_self ..

@[simp] theorem moved_left_other : (s.moved e ev p c).left (!e) = s.left (!e) := Function.update_of_ne (Bool.not_ne_self e) ..

@[simp] theorem moved_log : (s.moved e ev p c).log e = s.log e ++ [ev] := Function.update_self ..

@[simp] theorem moved_log_other : (s.moved e ev p c).log (!e) = s.log (!e) := Function.update_of_ne (Bool.not_ne_self e) ..

@[simp] theorem moved_ssl : (s.moved e ev p c).ssl e = c := Function.update_self ..

@[simp] theorem moved_ssl_other : (s.moved e ev p c).ssl (!e) = (s.ssl !e).arrive ev := by
  unfold moved
  dsimp only
  rw [Function.update_of_ne (Bool.not_ne_self e)]
  exact Function.update_self ..

/-- What holds of the end that has moved and of the other one. -/
theorem forall_ends {P : Bool → Prop} (hself : P e) (hother : P !e) : ∀ d, P d := by
  intro d
  by_cases hd : d = e
  · rw [hd]
    exact hself
  · rw [Bool.eq_not_of_ne hd]
    exact hother

end Moved

/-! ## One end

The invariant of one end balances its books: what came out of `write_bio` against what was
written, and what was read against what was put into `read_bio`. -/

/-- What one end has in its hands. -/
def hand (t_node : ssl_node) (size : ℤ) (tr : List (Event Op Ans)) : Hand := (carrying t_node size).afters ⟨[], [], false⟩ tr

/-- All that came out of `write_bio` has been written but for what is in hand, all that
was read is in `read_bio` but for that, and `write_bio` is empty when it was found so. -/
structure Carries (t_node : ssl_node) (size : ℤ) (p : Sys (Option ℤ)) (tr : List (Event Op Ans)) (c : Ssl σ) : Prop where
  obeys : Prog.Obeys (carrying t_node size) EmptyHanded p (hand t_node size tr)
  out : tr.flatMap sentOut ++ (hand t_node size tr).out = tr.flatMap brought
  inward : tr.flatMap fed ++ (hand t_node size tr).inward = tr.flatMap gotIn
  made : c.made = tr.flatMap brought ++ c.write_bio
  dry : (hand t_node size tr).dry = true → c.write_bio = []
  room : ((hand t_node size tr).out.length : ℤ) ≤ size ∧ ((hand t_node size tr).inward.length : ℤ) ≤ size

theorem hand_snoc (t_node : ssl_node) (size : ℤ) (tr : List (Event Op Ans)) (ev : Event Op Ans) :
    hand t_node size (tr ++ [ev]) = (carrying t_node size).after (hand t_node size tr) ev := Protocol.afters_append ..

/-- **One operation** of one end. -/
theorem Carries.step {t_node : ssl_node} {tls : Tls σ} {c c' : Ssl σ} {o : Op} {k : Ans o → Sys (Option ℤ)} {x : Ans o}
    {tr : List (Event Op Ans)} (h : Carries t_node size (.call o k) tr c) (hdoes : c.Does tls ⟨o, x⟩ c') :
    Carries t_node size (k x) (tr ++ [⟨o, x⟩]) c' := by
  obtain ⟨⟨hallows, hrest⟩, hout, hin, hmade, hdry, hroom⟩ := h
  have hobeys := hrest x hdoes.answers
  rw [← hand_snoc] at hobeys
  have hflat : ∀ f : Event Op Ans → List Byte, (tr ++ [(⟨o, x⟩ : Event Op Ans)]).flatMap f = tr.flatMap f ++ f ⟨o, x⟩ := fun f => by
    rw [List.flatMap_append, List.flatMap_singleton]
  -- the hands after the operation are the protocol's step, so the balances are about `o` and `x`
  -- alone
  suffices hnow : (tr.flatMap sentOut ++ sentOut ⟨o, x⟩) ++ ((carrying t_node size).after (hand t_node size tr) ⟨o, x⟩).out
        = tr.flatMap brought ++ brought ⟨o, x⟩
      ∧ (tr.flatMap fed ++ fed ⟨o, x⟩) ++ ((carrying t_node size).after (hand t_node size tr) ⟨o, x⟩).inward
        = tr.flatMap gotIn ++ gotIn ⟨o, x⟩
      ∧ c'.made = (tr.flatMap brought ++ brought ⟨o, x⟩) ++ c'.write_bio
      ∧ (((carrying t_node size).after (hand t_node size tr) ⟨o, x⟩).dry = true → c'.write_bio = [])
      ∧ (((carrying t_node size).after (hand t_node size tr) ⟨o, x⟩).out.length : ℤ) ≤ size
      ∧ (((carrying t_node size).after (hand t_node size tr) ⟨o, x⟩).inward.length : ℤ) ≤ size by
    refine ⟨hobeys, ?_, ?_, ?_, ?_, ?_⟩
    · rw [hflat, hflat, hand_snoc]
      exact hnow.1
    · rw [hflat, hflat, hand_snoc]
      exact hnow.2.1
    · rw [hflat]
      exact hnow.2.2.1
    · rw [hand_snoc]
      exact hnow.2.2.2.1
    · rw [hand_snoc]
      exact hnow.2.2.2.2
  clear hobeys hflat
  generalize hand t_node size tr = h at hallows hout hin hdry hroom
  have hsize : 0 ≤ size := (Int.natCast_nonneg _).trans hroom.1
  have hidle : (tr.flatMap sentOut ++ []) ++ h.out = tr.flatMap brought ++ []
      ∧ (tr.flatMap fed ++ []) ++ h.inward = tr.flatMap gotIn ++ [] := by
    simp only [List.append_nil]
    exact ⟨hout, hin⟩
  -- one case for each thing that OpenSSL and the socket do
  cases hdoes with
  | finished ssl => exact ⟨hidle.1, hidle.2, by rw [hmade]; simp [brought], fun hd => absurd hd Bool.false_ne_true, hroom⟩
  | log t_str t_num_values => exact ⟨hidle.1, hidle.2, by rw [hmade]; simp [brought], fun hd => absurd hd Bool.false_ne_true, hroom⟩
  | handshake ssl =>
      refine ⟨hidle.1, hidle.2, ?_, fun hd => absurd hd Bool.false_ne_true, hroom⟩
      dsimp only
      rw [hmade]
      simp [brought]
  | nothing bio n hempty =>
      obtain ⟨hnil, -⟩ := hallows
      rw [hnil] at hidle
      exact ⟨hidle.1, hidle.2, by rw [hmade]; simp [brought], fun _ => hempty, hsize, hroom.2⟩
  | bring bio n d hchunk =>
      obtain ⟨hnil, rfl⟩ := hallows
      rw [hnil, List.append_nil] at hout
      refine ⟨?_, hidle.2, ?_, fun hd => absurd hd Bool.false_ne_true, hchunk.length, hroom.2⟩
      · show (tr.flatMap sentOut ++ []) ++ d = tr.flatMap brought ++ d
        rw [List.append_nil, hout]
      · show c.made = (tr.flatMap brought ++ d) ++ c.write_bio.drop d.length
        rw [List.append_assoc, hchunk.append_drop, hmade]
  | feed bio n d =>
      refine ⟨hidle.1, ?_, by rw [hmade]; simp [brought], fun hd => absurd hd Bool.false_ne_true, hroom.1, hsize⟩
      show (tr.flatMap fed ++ d) ++ [] = tr.flatMap gotIn ++ []
      rw [hallows, hin, List.append_nil]
  | read fd n d hchunk =>
      obtain ⟨rfl, -, rfl⟩ := hallows
      rw [List.append_nil] at hin
      refine ⟨hidle.1, ?_, by rw [hmade]; simp [brought], fun hd => absurd hd Bool.false_ne_true, hsize, hchunk.length⟩
      show (tr.flatMap fed ++ []) ++ d = tr.flatMap gotIn ++ d
      rw [List.append_nil, hin]
  | write fd n d =>
      refine ⟨?_, hidle.2, by rw [hmade]; simp [brought], fun hd => absurd hd Bool.false_ne_true, hsize, hroom.2⟩
      show (tr.flatMap sentOut ++ d) ++ [] = tr.flatMap brought ++ []
      rw [hallows, hout, List.append_nil]

/-! ## Both ends

What one end has written and the other has not read is on its way, which ties the two balances
together. -/

/-- Each end carries, and what is on its way to it has been written by the other one and
not been read. -/
structure Inv (t_node : Bool → ssl_node) (size : ℤ) (s : Facing σ) : Prop where
  carries : ∀ e, Carries (t_node e) size (s.left e) (s.log e) (s.ssl e)
  way : ∀ e, (s.log !e).flatMap sentOut = (s.log e).flatMap gotIn ++ (s.ssl e).incoming

/-- It holds at the start. -/
theorem inv_start (hsize : 0 ≤ size) : Inv t_node size (start t_node size fuel init : Facing σ) :=
  ⟨fun e => ⟨obeys_judoHandshake_ (t_node e) size fuel _ rfl rfl, rfl, rfl, rfl, fun _ => rfl, hsize, hsize⟩, fun _ => rfl⟩

/-- Only the bytes on the way change for the other end. -/
theorem Carries.arrive {t_node : ssl_node} {p : Sys (Option ℤ)} {tr : List (Event Op Ans)} {c : Ssl σ}
    (h : Carries t_node size p tr c) (ev : Event Op Ans) : Carries t_node size p tr (c.arrive ev) := by
  obtain ⟨o, x⟩ := ev
  cases o with
  | write fd n d => exact ⟨h.obeys, h.out, h.inward, h.made, h.dry, h.room⟩
  | _ => exact h

/-- Every operation keeps it. -/
theorem Inv.step (h : Inv t_node size s) (hstep : Step tls s s') : Inv t_node size s' := by
  obtain ⟨e, o, k, x, c, hleft, hdoes⟩ := hstep
  have hcarries := h.carries e
  rw [hleft] at hcarries
  refine ⟨forall_ends e ?_ ?_, forall_ends e ?_ ?_⟩
  · rw [moved_left, moved_log, moved_ssl]
    exact hcarries.step hdoes
  · rw [moved_left_other, moved_log_other, moved_ssl_other]
    exact (h.carries !e).arrive _
  · rw [moved_log, moved_log_other, moved_ssl, h.way e, List.flatMap_append, List.flatMap_singleton, List.append_assoc,
      hdoes.incoming]
  · have hway := h.way !e
    rw [Bool.not_not] at hway ⊢
    rw [moved_log, moved_log_other, moved_ssl_other, Ssl.arrive_incoming, List.flatMap_append, List.flatMap_singleton, hway,
      List.append_assoc]

/-- So it holds in every run. -/
theorem Reach.inv (hsize : 0 ≤ size) (h : Reach tls t_node size fuel init s) : Inv t_node size s := by
  induction h with
  | start => exact inv_start hsize
  | step _ hstep ih => exact ih.step hstep

/-- What one OpenSSL has made, from the other one's `read_bio` back to its own
`write_bio`. -/
theorem Inv.made (h : Inv t_node size s) (e : Bool) : (s.ssl !e).made = (s.log e).flatMap fed
    ++ (hand (t_node e) size (s.log e)).inward ++ (s.ssl e).incoming ++ (hand (t_node !e) size (s.log !e)).out
    ++ (s.ssl !e).write_bio := by
  rw [(h.carries !e).made, ← (h.carries !e).out, h.way e, (h.carries e).inward]

/-- **Transparency.** Two handshakes that face each other, over any two OpenSSLs and with
any cutting of what is on the way, at any moment: what one OpenSSL has been given is the
beginning of what the other one has made, and all that is missing is, in this order, in
the buffer of the one end, on its way, in the buffer of the other, and in its
`write_bio`. -/
theorem handshakes_transparent (hsize : 0 ≤ size) (h : Reach tls t_node size fuel init s) (e : Bool) :
    ∃ inward out : List Byte, (s.ssl !e).made = (s.log e).flatMap fed ++ inward ++ (s.ssl e).incoming ++ out
        ++ (s.ssl !e).write_bio
      ∧ (inward.length : ℤ) ≤ size ∧ (out.length : ℤ) ≤ size :=
  ⟨_, _, (h.inv hsize).made e, ((h.inv hsize).carries e).room.2, ((h.inv hsize).carries !e).room.1⟩

/-- One end makes three bytes and is finished with that, the other waits for three. -/
def threeBytes : Bool → Tls Bool
  | true => ⟨fun state => state, fun _ bio => (true, bio, [22, 3, 3])⟩
  | false => ⟨fun state => state, fun _ bio => (decide (3 ≤ bio.length), bio, [])⟩

/-- With a buffer of two bytes, the first end returns and the other one has two of them. -/
theorem reach_starved : ∃ s, Reach threeBytes (fun _ => node64) 2 3 (fun _ => false) s ∧ s.left true = .ret (some JUDO_SUCCESS)
    ∧ (∃ k, s.left false = .call (.read 5 2) k) ∧ (s.ssl false).incoming = [] ∧ (s.ssl false).write_bio = []
    ∧ (s.ssl true).write_bio = [3] := by
  have h₀ : Reach threeBytes (fun _ => node64) 2 3 (fun _ => false) _ := .start
  -- the first end
  have h₁ := h₀.step (.step true _ _ _ _ rfl (.finished 0))
  have h₂ := h₁.step (.step true _ _ _ _ rfl (.handshake 0))
  have h₃ := h₂.step (.step true _ _ _ _ rfl (.bring 0 2 [22, 3] ⟨by decide, by decide, ⟨[3], rfl⟩⟩))
  have h₄ := h₃.step (.step true _ _ _ _ rfl (.write 5 2 [22, 3]))
  have h₅ := h₄.step (.step true _ _ _ _ rfl (.finished 0))
  have h₆ := h₅.step (.step true _ _ _ _ rfl (.log _ _))
  -- and the other one
  have h₇ := h₆.step (.step false _ _ _ _ rfl (.finished 0))
  have h₈ := h₇.step (.step false _ _ _ _ rfl (.handshake 0))
  have h₉ := h₈.step (.step false _ _ _ _ rfl (.nothing 0 2 rfl))
  have h₁₀ := h₉.step (.step false _ _ _ _ rfl (.read 5 2 [22, 3] ⟨by decide, by decide, ⟨[], rfl⟩⟩))
  have h₁₁ := h₁₀.step (.step false _ _ _ _ rfl (.feed 0 2 [22, 3]))
  have h₁₂ := h₁₁.step (.step false _ _ _ _ rfl (.finished 0))
  have h₁₃ := h₁₂.step (.step false _ _ _ _ rfl (.handshake 0))
  have h₁₄ := h₁₃.step (.step false _ _ _ _ rfl (.nothing 0 2 rfl))
  exact ⟨_, h₁₄, rfl, ⟨_, rfl⟩, rfl, rfl, rfl⟩

/-- The last byte is in `write_bio`. -/
theorem handshakes_transparent_starved : ∃ s : Facing Bool, Reach threeBytes (fun _ => node64) 2 3 (fun _ => false) s
    ∧ (s.ssl true).write_bio = [3] ∧ ∃ inward out : List Byte, (s.ssl true).made = (s.log false).flatMap fed ++ inward
      ++ (s.ssl false).incoming ++ out ++ (s.ssl true).write_bio
      ∧ (inward.length : ℤ) ≤ 2 ∧ (out.length : ℤ) ≤ 2 := by
  obtain ⟨s, hreach, -, -, -, -, hleft⟩ := reach_starved
  exact ⟨s, hreach, hleft, handshakes_transparent (by decide) hreach false⟩

/-! ## Coming to a stop

An end that cannot move has returned or reads from an empty stream, for every other operation
is always answered. -/

/-- One end has returned that the handshake is finished, or has used up its rounds. -/
def Returned (s : Facing σ) (e : Bool) : Prop := s.left e = .ret (some JUDO_SUCCESS) ∨ s.left e = .ret none

/-- It waits for bytes, with nothing left to be written. -/
structure Waits (t_node : Bool → ssl_node) (size : ℤ) (s : Facing σ) (e : Bool) : Prop where
  left : ∃ k, s.left e = .call (.read (t_node e).fp size) k
  nothing : (s.ssl e).incoming = []
  written : (s.ssl e).write_bio = []

/-- An end with nothing left to do has returned. -/
theorem Inv.returned (h : Inv t_node size s) {e : Bool} {ret : Option ℤ} (hret : s.left e = .ret ret) : Returned s e := by
  have hobeys := (h.carries e).obeys
  rw [hret] at hobeys
  rcases hobeys.2.2 with rfl | rfl
  · exact .inl hret
  · exact .inr hret

/-- An end at rest has returned, or waits. -/
theorem Inv.stopped (h : Inv t_node size s) (hsize : 0 < size) (hrest : AtRest tls s) (e : Bool) :
    Returned s e ∨ Waits t_node size s e := by
  have hobeys := (h.carries e).obeys
  cases hleft : s.left e with
  | ret ret => exact .inl (h.returned hleft)
  | call o k =>
      rw [hleft] at hobeys
      have hallows := hobeys.1
      have hmoves : ∀ x c, ¬ (s.ssl e).Does (tls e) ⟨o, x⟩ c := fun x c hdoes => hrest _ (.step e o k x c hleft hdoes)
      -- of all a handshake asks, only the read of an empty line has no answer
      cases o with
      | SSL_is_init_finished ssl => exact absurd (.finished ssl) (hmoves _ _)
      | SSL_do_handshake ssl => exact absurd (.handshake ssl) (hmoves _ _)
      | log t_str t_num_values => exact absurd (.log t_str t_num_values) (hmoves _ _)
      | write fd n d => exact absurd (.write fd n d) (hmoves _ _)
      | BIO_write bio n d => exact absurd (.feed bio n d) (hmoves _ _)
      | BIO_read bio n =>
          obtain ⟨-, rfl⟩ := hallows
          by_cases hempty : (s.ssl e).write_bio = []
          · exact absurd (.nothing bio n hempty) (hmoves _ _)
          · obtain ⟨d, hd⟩ := exists_chunk hsize hempty
            exact absurd (.bring bio n d hd) (hmoves _ _)
      | read fd n =>
          obtain ⟨hhand, rfl, rfl⟩ := hallows
          refine .inr ⟨⟨k, hleft⟩, ?_, (h.carries e).dry (by rw [hhand])⟩
          by_contra hne
          obtain ⟨d, hd⟩ := exists_chunk hsize hne
          exact hmoves _ _ (.read _ n d hd)
      | _ => exact hallows.elim

/-- One that has returned or waits can do nothing. -/
theorem atRest_of_stopped (h : ∀ e, Returned s e ∨ Waits t_node size s e) : AtRest tls s := by
  rintro s' ⟨e, o, k, x, c, hleft, hdoes⟩
  rcases h e with (hret | hret) | hwaits
  · rw [hret] at hleft
    cases hleft
  · rw [hret] at hleft
    cases hleft
  · obtain ⟨k', hleft'⟩ := hwaits.left
    rw [hleft] at hleft'
    cases hleft'
    cases hdoes with
    | read fd n d hd =>
        obtain ⟨rest, hrest⟩ := hd.first
        rw [hwaits.nothing] at hrest
        exact hd.nonempty (List.append_eq_nil_iff.mp hrest).1

/-- Neither has anything in its hands then. -/
theorem Inv.emptyHanded (h : Inv t_node size s) {e : Bool} (hstop : Returned s e ∨ Waits t_node size s e) :
    (hand (t_node e) size (s.log e)).out = [] ∧ (hand (t_node e) size (s.log e)).inward = [] := by
  have hobeys := (h.carries e).obeys
  rcases hstop with (hret | hret) | hwaits
  · rw [hret] at hobeys
    exact ⟨hobeys.1, hobeys.2.1⟩
  · rw [hret] at hobeys
    exact ⟨hobeys.1, hobeys.2.1⟩
  · obtain ⟨k, hleft⟩ := hwaits.left
    rw [hleft] at hobeys
    rw [hobeys.1.1]
    exact ⟨rfl, rfl⟩

/-- **Waiting for each other.** Two handshakes that face each other stop just when each has
returned or waits for bytes that are not on their way. One that waits has been given all
that the other OpenSSL has made but for what is left in its `write_bio`; and something can
be left there only when that end has returned. -/
theorem handshakes_atRest_iff (hsize : 0 < size) (h : Reach tls t_node size fuel init s) : AtRest tls s ↔
    ∀ e, Returned s e ∨ (Waits t_node size s e ∧ (s.ssl !e).made = (s.log e).flatMap fed ++ (s.ssl !e).write_bio
      ∧ ((s.ssl !e).write_bio ≠ [] → Returned s !e)) := by
  have hinv := h.inv hsize.le
  constructor
  · intro hrest e
    have hstop := hinv.stopped hsize hrest
    refine (hstop e).imp_right fun hwaits => ⟨hwaits, ?_, fun hleft => ?_⟩
    · rw [hinv.made e, (hinv.emptyHanded (hstop e)).2, (hinv.emptyHanded (hstop !e)).1, hwaits.nothing, List.append_nil,
        List.append_nil, List.append_nil]
    · exact (hstop !e).resolve_right fun hwaits' => hleft hwaits'.written
  · exact fun hstop => atRest_of_stopped fun e => (hstop e).imp_right fun hwaits => hwaits.1

/-- The first end has returned, and the other one waits for the byte that was left. -/
theorem handshakes_atRest_starved : ∃ s : Facing Bool, Reach threeBytes (fun _ => node64) 2 3 (fun _ => false) s
    ∧ AtRest threeBytes s ∧ (s.ssl true).write_bio = [3]
    ∧ ∀ e, Returned s e ∨ (Waits (fun _ => node64) 2 s e ∧ (s.ssl !e).made = (s.log e).flatMap fed ++ (s.ssl !e).write_bio
      ∧ ((s.ssl !e).write_bio ≠ [] → Returned s !e)) := by
  obtain ⟨s, hreach, hret, hwaits, hnothing, hwritten, hleft⟩ := reach_starved
  have hstop : ∀ e, Returned s e ∨ Waits (fun _ => node64) 2 s e :=
    forall_ends true (.inl (.inl hret)) (.inr ⟨hwaits, hnothing, hwritten⟩)
  have hrest : AtRest threeBytes s := atRest_of_stopped hstop
  exact ⟨s, hreach, hrest, hleft, (handshakes_atRest_iff (by decide) hreach).mp hrest⟩

end Facing

end JudoEngine
