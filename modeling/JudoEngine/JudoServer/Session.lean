/-
Two nodes that talk to each other, each with any number of threads.

A `Session` is the two ends of one connection: what every call at either end has left to
do, who holds the mutex of either node, and what is on its way in either direction. A
step is one operation of one call at one end, so a run is any interleaving of all of
them. That calls take the node's mutex, and that a `judoRead_` waits with it, is all that
orders them.

The link is a good one: `write` accepts everything, a `read` gives a whole packet, and one
that finds nothing waits until there is something. Sockets that come from `judoAccept_` and
`judoSocketConnect_` are not quite so patient: both set `SO_RCVTIMEO` to five seconds, after
which `read` fails and `judoRead_` ends the connection. What is said here is about sessions
in which no read comes to that.

What is proved of the runs is about both directions at once: what a call of `judoRead_`
returns is a message that was sent, the one whose turn it is (`session_delivers`).
-/
import JudoEngine.JudoServer.Calls

set_option autoImplicit false

open Words Threads

namespace JudoEngine

/-! ## Runs

A call of either function is the program that it is, one operation after the other; all that
orders the calls is the mutex of their node and what is on its way. -/

/-- The calls at the two ends, and what is on its way from either. -/
structure Session where
  pool : Bool → Pool Op Ans Got
  link : Bool → Link

/-- The two ends agree on the size of a packet and on whether there are certificates. -/
structure Paired (ends : Bool → End) (certs : Bool) (packet_buf_size : ℤ) : Prop where
  certs : ∀ e, (ends e).t_node.certs = certs
  size : ∀ e, (ends e).t_node.bufferSize = packet_buf_size
  room : 64 ≤ packet_buf_size

/-- All packets of a message together are less than 2^31 bytes, and a call may take that
many rounds. -/
def Fits (packet_buf_size : ℤ) (fuel : ℕ) (m : Buffer × ℕ) : Prop :=
  InInt32 (packetCount packet_buf_size m.2 * packet_buf_size) ∧ packetCount packet_buf_size m.2 ≤ fuel

namespace Session

/-- Nothing has been done. -/
def start (fuel : ℕ) (ends : Bool → End) (uses : Bool → ℕ → Use) : Session :=
  ⟨fun e => ⟨fun t => (uses e t).code fuel (ends e), fun _ => none, []⟩, fun _ => .empty⟩

/-- Call `t` of one end has done an operation and has `p` left, and `l` is left of what was
on its way to it. -/
def moved (ends : Bool → End) (s : Session) (e : Bool) (t : ℕ) (ev : Event Op Ans) (p : Sys Got) (l : Link) : Session :=
  ⟨Function.update s.pool e ⟨Function.update (s.pool e).left t p, nodeLocks.after t ev.op (s.pool e).holder,
    (s.pool e).log ++ [(t, ev)]⟩, Function.update (Function.update s.link (!e) l) e ((s.link e).put (ends e).t_node.certs ev)⟩

/-- One operation of one call at one end: the mutex must be free if it is taken, and what
comes from the other end must be there if it is read. -/
inductive Step (ends : Bool → End) (s : Session) : Session → Prop where
  | step (e : Bool) (t : ℕ) (o : Op) (k : Ans o → Sys Got) (x : Ans o) (l : Link) (hleft : (s.pool e).left t = .call o k)
      (hfree : ∀ m, nodeLocks.takes o = some m → (s.pool e).holder m = none) (hrecord : GivesRecord ⟨o, x⟩)
      (htake : (s.link !e).take ⟨o, x⟩ = some l) : Step ends s (s.moved ends e t ⟨o, x⟩ (k x) l)

/-- What can come of these calls. -/
inductive Reach (fuel : ℕ) (ends : Bool → End) (uses : Bool → ℕ → Use) : Session → Prop where
  | start : Reach fuel ends uses (start fuel ends uses)
  | step {s s' : Session} (h : Reach fuel ends uses s) (hstep : Step ends s s') : Reach fuel ends uses s'

/-- No call can do anything. -/
def AtRest (ends : Bool → End) (s : Session) : Prop := ∀ s', ¬ Step ends s s'

/-- The calls at one end that have had the mutex, in that order. -/
def served (ends : Bool → End) (s : Session) (e : Bool) : List ℕ := takers nodeLocks (ends e).t_node.addr (s.pool e).log

/-- The messages that were sent, in the order of their calls. -/
def sent (ends : Bool → End) (uses : Bool → ℕ → Use) (s : Session) (e : Bool) : List (Buffer × ℕ) :=
  (s.served ends e).filterMap fun t => (uses e t).message

/-- The calls that read, in their order. -/
def readers (ends : Bool → End) (uses : Bool → ℕ → Use) (s : Session) (e : Bool) : List ℕ :=
  (s.served ends e).filter fun t => (uses e t).reads

/-! ## What holds of all of them

The invariant ties each end to what the calls there have done: the pool is a run of theirs,
and the link is what was put on it and has not been taken off. -/

variable {fuel : ℕ} {ends : Bool → End} {uses : Bool → ℕ → Use} {s s' : Session}

section Moved

variable (s) (e : Bool) (t : ℕ) (ev : Event Op Ans) (p : Sys Got) (l : Link)

/-- What a step changes at the end that makes it, and at the other one. -/
theorem moved_pool : (s.moved ends e t ev p l).pool e = ⟨Function.update (s.pool e).left t p,
    nodeLocks.after t ev.op (s.pool e).holder, (s.pool e).log ++ [(t, ev)]⟩ := Function.update_self ..

@[simp] theorem moved_left : ((s.moved ends e t ev p l).pool e).left t = p := by
  rw [moved_pool]
  exact Function.update_self ..

@[simp] theorem moved_pool_other : (s.moved ends e t ev p l).pool (!e) = s.pool (!e) :=
  Function.update_of_ne (Bool.not_ne_self e) ..

@[simp] theorem moved_link : (s.moved ends e t ev p l).link e = (s.link e).put (ends e).t_node.certs ev :=
  Function.update_self ..

@[simp] theorem moved_link_other : (s.moved ends e t ev p l).link (!e) = l := by
  unfold moved
  dsimp only
  rw [Function.update_of_ne (Bool.not_ne_self e)]
  exact Function.update_self ..

/-- What holds of the end that has moved and of the other one. -/
theorem forall_ends {P : Bool → Prop} (hself : P e) (hother : P !e) : ∀ d, P d := by
  intro d
  by_cases hd : d = e
  · rw [hd]
    exact hself
  · rw [Bool.eq_not_of_ne hd]
    exact hother

end Moved

/-- Each end is a run of its calls, and what is on its way is what the one end has put on
the link and the other has not taken. -/
structure Inv (fuel : ℕ) (ends : Bool → End) (uses : Bool → ℕ → Use) (s : Session) : Prop where
  reach : ∀ e, Threads.Reach nodeLocks (fun t => (uses e t).code fuel (ends e)) (s.pool e)
  records : ∀ e, ∀ ev ∈ (s.pool e).log, GivesRecord ev.2
  links : ∀ e, (Link.empty.puts (ends e).t_node.certs ((s.pool e).log.map Prod.snd)).takes ((s.pool !e).log.map Prod.snd)
    = some (s.link e)

/-- It holds before anything is done. -/
theorem inv_start : Inv fuel ends uses (start fuel ends uses) :=
  ⟨fun _ => .start, fun _ _ hev => absurd hev List.not_mem_nil, fun _ => rfl⟩

/-- One operation keeps it. -/
theorem Inv.step (h : Inv fuel ends uses s) (hstep : Step ends s s') : Inv fuel ends uses s' := by
  obtain ⟨e, t, o, k, x, l, hleft, hfree, hrecord, htake⟩ := hstep
  refine ⟨forall_ends e ?_ ?_, forall_ends e ?_ ?_, forall_ends e ?_ ?_⟩
  · rw [moved_pool]
    exact (h.reach e).step (.step t o k x hleft hfree)
  · rw [moved_pool_other]
    exact h.reach !e
  · intro ev hev
    rw [moved_pool] at hev
    rcases List.mem_append.mp hev with hev | hev
    · exact h.records e ev hev
    · rw [List.mem_singleton.mp hev]
      exact hrecord
  · rw [moved_pool_other]
    exact h.records !e
  · -- the end puts something on its own link, ...
    rw [moved_pool, moved_pool_other, moved_link]
    dsimp only
    rw [List.map_append, Link.puts_append]
    exact Link.takes_puts [⟨o, x⟩] (h.links e)
  · -- ... and may take something off the other one
    have hlinks := h.links !e
    rw [Bool.not_not] at hlinks ⊢
    rw [moved_pool_other, moved_pool, moved_link_other]
    dsimp only
    rw [List.map_append, Link.takes_append, hlinks, Option.bind_some]
    show ((s.link !e).take ⟨o, x⟩).bind _ = some l
    rw [htake]
    rfl

/-- So it holds all along. -/
theorem Reach.inv (h : Reach fuel ends uses s) : Inv fuel ends uses s := by
  induction h with
  | start => exact inv_start
  | step _ hstep ih => exact ih.step hstep

/-! ## Whole calls on the link

A call that has returned has put one message on the link, or has taken one off. -/

variable {certs : Bool} {packet_buf_size : ℤ} {m : Buffer × ℕ}

/-- What a reading call has returned and stored, for a message. -/
def Received (e : End) (packet_buf_size : ℤ) (m : Buffer × ℕ) (tr : List (Event Op Ans)) (g : Got) : Prop :=
  ∃ out, g = .got (some (e.server, 0, out, packetCount packet_buf_size m.2 * packet_buf_size))
    ∧ stores tr = placed out 0 (delivered packet_buf_size m.1 m.2)

/-- A whole call that sends puts its message on the link. -/
theorem puts_send (hp : Paired ends certs packet_buf_size) {e : Bool} {u : Use} (hm : u.message = some m)
    (hfits : Fits packet_buf_size fuel m) {tr : List (Event Op Ans)} {g : Got} (hruns : Prog.Runs (u.code fuel (ends e)) tr g)
    (hrecords : ∀ ev ∈ tr, GivesRecord ev) :
    ∃ c, Carried certs packet_buf_size m c ∧ ∀ l : Link, (l.puts (ends e).t_node.certs tr).flying = l.flying ++ c := by
  cases u with
  | read t_out_buf => cases hm
  | send t_buffer n =>
      cases hm
      obtain ⟨ret, hsend, rfl⟩ := Prog.runs_bind_ret.mp hruns
      have hone : 1 ≤ packet_buf_size := by have := hp.room; omega
      have hcount : InInt32 (packetCount (ends e).t_node.bufferSize n) := by
        rw [hp.size]
        exact inInt32_of_mul hone hfits.1
      rw [← hp.certs e, ← hp.size e]
      exact puts_judoSend_ (by rw [hp.size]; exact hp.room) t_buffer n hcount hsend hrecords

/-- One that reads takes the first message off it, ... -/
theorem takes_read (hp : Paired ends certs packet_buf_size) {e : Bool} {u : Use} (hu : u.reads = true)
    (hfits : Fits packet_buf_size fuel m) {c rest : List Packet} (hc : Carried certs packet_buf_size m c) {l l' : Link}
    (hflying : l.flying = c ++ rest) {tr : List (Event Op Ans)} {g : Got} (hruns : Prog.Runs (u.code fuel (ends e)) tr g)
    (htakes : l.takes tr = some l') : Received (ends e) packet_buf_size m tr g ∧ l'.flying = rest := by
  cases u with
  | send t_buffer n => cases hu
  | read t_out_buf =>
      obtain ⟨tr₁, tr₂, ret, rfl, hread, hend⟩ := Prog.runs_bind.mp hruns
      obtain ⟨l₁, htakes₁, htakes₂⟩ := Link.takes_split htakes
      rw [← hp.certs e, ← hp.size e] at hc
      unfold Fits at hfits
      rw [← hp.size e] at hfits ⊢
      obtain ⟨out, rfl, hrest, hstores⟩ := runs_judoRead_ (by rw [hp.size]; exact hp.room) hfits.1 hfits.2 hc hflying hread htakes₁
      obtain ⟨rfl, rfl⟩ := hend
      cases htakes₂
      exact ⟨⟨out, rfl, by rw [stores_append, hstores, stores_nil, List.append_nil]⟩, hrest⟩

/-- ... or waits for one. -/
theorem takes_read_nil {e : Bool} {u : Use} (hu : u.reads = true) (hfuel : 0 < fuel) {l : Link} (hflying : l.flying = [])
    {tr : List (Event Op Ans)} {g : Got} (hruns : Prog.Runs (u.code fuel (ends e)) tr g) : l.takes tr = none := by
  cases u with
  | send t_buffer n => cases hu
  | read t_out_buf =>
      obtain ⟨tr₁, tr₂, ret, rfl, hread, -⟩ := Prog.runs_bind.mp hruns
      rw [Link.takes_append, not_takes_judoRead_ hfuel hflying hread]
      rfl

/-- A call that reads puts nothing on it. -/
theorem puts_free {e : Bool} {u : Use} (hu : u.reads = true) :
    Prog.Only (fun o => Link.isPut o = false) (u.code fuel (ends e)) := by
  cases u with
  | send t_buffer n => cases hu
  | read t_out_buf => exact (asks_read fuel (ends e) t_out_buf).mono fun o ho => ho.1

theorem puts_of_reads {e : Bool} {u : Use} (hu : u.message = none) {tr : List (Event Op Ans)} {g : Got}
    (hruns : Prog.Runs (u.code fuel (ends e)) tr g) (l : Link) : l.puts certs tr = l := by
  cases u with
  | send t_buffer n => cases hu
  | read t_out_buf => exact Link.puts_of_not fun ev hev => ((asks_read fuel (ends e) t_out_buf).of_runs hruns ev hev).1

/-- One that sends takes nothing off it. -/
theorem takes_of_sends {e : Bool} {u : Use} (hu : u.reads = false) {tr : List (Event Op Ans)} {g : Got}
    (hruns : Prog.Runs (u.code fuel (ends e)) tr g) (l : Link) : l.takes tr = some l := by
  cases u with
  | send t_buffer n => exact Link.takes_of_not fun ev hev => ((asks_send fuel (ends e) t_buffer n).of_runs hruns ev hev).1
  | read t_out_buf => cases hu

/-! ## One call after the other

By induction on the calls that have had the mutex. The first message is gone when it has been
read, so the next call that reads finds the next one. -/

/-- Whole calls put their messages on the link, in their order. -/
theorem puts_order (hp : Paired ends certs packet_buf_size) {e : Bool}
    (hfits : ∀ t m, (uses e t).message = some m → Fits packet_buf_size fuel m) {whole : ℕ → List (Event Op Ans)}
    (hwhole : ∀ t, ∃ g, Prog.Runs ((uses e t).code fuel (ends e)) (whole t) g)
    (hrecords : ∀ t, ∀ ev ∈ whole t, GivesRecord ev) (order : List ℕ) :
    ∃ cs, List.Forall₂ (Carried certs packet_buf_size) (order.filterMap fun t => (uses e t).message) cs
      ∧ ∀ l : Link, (l.puts (ends e).t_node.certs (order.flatMap fun t => watch Link.onLink (whole t))).flying
        = l.flying ++ cs.flatten := by
  -- on the order in which the threads took the mutex: a reader puts nothing on the line
  induction order with
  | nil => exact ⟨[], .nil, fun l => (List.append_nil _).symm⟩
  | cons t order ih =>
      obtain ⟨cs, hall, hputs⟩ := ih
      obtain ⟨g, hruns⟩ := hwhole t
      simp only [List.flatMap_cons, Link.puts_append, hputs, Link.puts_watch]
      cases hm : (uses e t).message with
      | none =>
          rw [List.filterMap_cons_none (f := fun t => (uses e t).message) hm]
          refine ⟨cs, hall, fun l => ?_⟩
          rw [puts_of_reads hm hruns]
      | some m =>
          obtain ⟨c, hc, hput⟩ := puts_send hp hm (hfits t m hm) hruns (hrecords t)
          rw [List.filterMap_cons_some (f := fun t => (uses e t).message) hm]
          refine ⟨c :: cs, .cons hc hall, fun l => ?_⟩
          rw [hput, List.flatten_cons, List.append_assoc]

/-- Whole calls take them off it, in theirs: every call that reads gets the message whose
turn it is. -/
theorem takes_order (hp : Paired ends certs packet_buf_size) (hfuel : 0 < fuel) {e : Bool} {whole : ℕ → List (Event Op Ans)}
    {got : ℕ → Got} (order : List ℕ) : (∀ t ∈ order, Prog.Runs ((uses e t).code fuel (ends e)) (whole t) (got t)) →
    ∀ {ms : List (Buffer × ℕ)} {cs : List (List Packet)} {extra : List Packet} {l l' : Link},
      List.Forall₂ (Carried certs packet_buf_size) ms cs → (∀ m ∈ ms, Fits packet_buf_size fuel m) →
      l.flying = cs.flatten ++ extra → (extra = [] ∨ (order.filter fun t => (uses e t).reads).length ≤ ms.length) →
      l.takes (order.flatMap fun t => watch Link.onLink (whole t)) = some l' →
        (order.filter fun t => (uses e t).reads).length ≤ ms.length
          ∧ l'.flying = (cs.drop (order.filter fun t => (uses e t).reads).length).flatten ++ extra
          ∧ ∀ (i t : ℕ), (order.filter fun t => (uses e t).reads)[i]? = some t →
            ∃ m, ms[i]? = some m ∧ Received (ends e) packet_buf_size m (whole t) (got t) := by
  induction order with
  | nil =>
      intro _ ms cs extra l l' _ _ hflying _ htakes
      cases htakes
      exact ⟨Nat.zero_le _, hflying, fun i t ht => by simp at ht⟩
  | cons t order ih =>
      intro hwhole ms cs extra l l' hall hfits hflying hcount htakes
      have hruns := hwhole t List.mem_cons_self
      have hrest := fun u hu => hwhole u (List.mem_cons_of_mem _ hu)
      rw [List.flatMap_cons] at htakes
      obtain ⟨l₁, htakes₁, htakes₂⟩ := Link.takes_split htakes
      rw [Link.takes_watch] at htakes₁
      cases hreads : (uses e t).reads with
      | false =>
          rw [takes_of_sends hreads hruns] at htakes₁
          cases htakes₁
          rw [List.filter_cons_of_neg (p := fun t => (uses e t).reads) (by rw [hreads]; exact Bool.false_ne_true)] at hcount ⊢
          exact ih hrest hall hfits hflying hcount htakes₂
      | true =>
          rw [List.filter_cons_of_pos (p := fun t => (uses e t).reads) hreads] at hcount ⊢
          cases hall with
          | nil =>
              -- nothing is left to be read
              rcases hcount with rfl | hcount
              · rw [takes_read_nil hreads hfuel hflying hruns] at htakes₁
                cases htakes₁
              · exact absurd hcount (Nat.not_succ_le_zero _)
          | @cons m c ms cs hc hall =>
              rw [List.flatten_cons, List.append_assoc] at hflying
              obtain ⟨hreceived, hflying₁⟩ := takes_read hp hreads (hfits m List.mem_cons_self) hc hflying hruns htakes₁
              obtain ⟨hle, hflying', hothers⟩ := ih hrest hall (fun m' hm' => hfits m' (List.mem_cons_of_mem _ hm')) hflying₁
                (hcount.imp_right Nat.le_of_succ_le_succ) htakes₂
              refine ⟨Nat.succ_le_succ hle, hflying', fun i u hu => ?_⟩
              cases i with
              | zero =>
                  cases hu
                  exact ⟨m, rfl, hreceived⟩
              | succ i => exact hothers i u hu

/-! ## Going on

To say what a call that has not returned has done, it is gone on with: there is a run in which
it returns, and what has been done so far is the beginning of that. -/

/-- An answer to every operation, with a record where one is given out. -/
def someAnswer : (o : Op) → Ans o
  | .BIO_read _ _ => some [0]
  | _ => default

theorem givesRecord_someAnswer (o : Op) : GivesRecord ⟨o, someAnswer o⟩ := by
  cases o with
  | BIO_read bio size => exact ⟨[0], rfl, List.cons_ne_nil _ _⟩
  | _ => trivial

/-- Everything but a read can be answered. -/
theorem exists_take (l : Link) {o : Op} (hread : ∀ fd size, o ≠ .read fd size) :
    ∃ x, GivesRecord ⟨o, x⟩ ∧ l.take ⟨o, x⟩ = some l := by
  cases o with
  | read fd size => exact absurd rfl (hread fd size)
  | SSL_read ssl size => exact ⟨some l.opening, trivial, if_pos rfl⟩
  | indeterminate => exact ⟨(0 : ℤ), trivial, rfl⟩
  | BIO_read bio size => exact ⟨some [0], ⟨[0], rfl, List.cons_ne_nil _ _⟩, rfl⟩
  | _ => exact ⟨default, trivial, rfl⟩

/-- Any call can be gone on with to the end, if enough comes. -/
theorem exists_takes {α : Type} (p : Packet) (q : Sys α) : ∀ (l : Link), l.flying = [] →
    ∃ (n : ℕ) (tr : List (Event Op Ans)) (a : α) (l' : Link), Prog.Runs q tr a
      ∧ (l.more (List.replicate n p)).takes tr = some l' ∧ l'.flying = [] := by
  induction q with
  | ret a => exact fun l hl => ⟨0, [], a, l, ⟨rfl, rfl⟩, congrArg some Link.more_nil, hl⟩
  | call o k ih =>
      intro l hl
      -- a read takes the next packet of the supply, and every other operation has an answer anyway
      by_cases hread : ∀ fd size, o ≠ .read fd size
      · obtain ⟨x, -, htake⟩ := exists_take l hread
        obtain ⟨n, tr, a, l', hruns, htakes, hl'⟩ := ih x l hl
        refine ⟨n, ⟨o, x⟩ :: tr, a, l', ⟨x, tr, rfl, hruns⟩, ?_, hl'⟩
        rw [Link.takes, Link.take_more htake]
        exact htakes
      · simp only [not_forall, not_not] at hread
        obtain ⟨fd, size, rfl⟩ := hread
        obtain ⟨n, tr, a, l', hruns, htakes, hl'⟩ := ih (some p.2) { l with opening := p.1 } hl
        refine ⟨n + 1, ⟨.read fd size, some p.2⟩ :: tr, a, l', ⟨some p.2, tr, rfl, hruns⟩, ?_, hl'⟩
        have htake : (l.more (List.replicate (n + 1) p)).take ⟨.read fd size, some p.2⟩
            = some (Link.more { l with opening := p.1 } (List.replicate n p)) := by
          unfold Link.take Link.more
          rw [hl]
          exact if_pos rfl
        rw [Link.takes, htake]
        exact htakes

/-- Any call goes on until it returns or waits for a packet. -/
theorem exists_leads {α : Type} (q : Sys α) : ∀ (l : Link), ∃ (tr : List (Event Op Ans)) (q' : Sys α) (l' : Link),
    Prog.Leads q tr q' ∧ (∀ ev ∈ tr, GivesRecord ev) ∧ l.takes tr = some l'
      ∧ ((∃ a, q' = .ret a) ∨ ∃ fd size k, q' = .call (.read fd size) k ∧ l'.flying = []) := by
  -- by the program that is left: it returns, goes on, or waits for a packet
  induction q with
  | ret a => exact fun l => ⟨[], .ret a, l, rfl, fun ev hev => absurd hev List.not_mem_nil, rfl, .inl ⟨a, rfl⟩⟩
  | call o k ih =>
      intro l
      have hstep : ∀ (x : Ans o) (l₁ : Link), GivesRecord ⟨o, x⟩ → l.take ⟨o, x⟩ = some l₁ →
          ∃ (tr : List (Event Op Ans)) (q' : Sys α) (l' : Link), Prog.Leads (.call o k) tr q' ∧ (∀ ev ∈ tr, GivesRecord ev)
            ∧ l.takes tr = some l' ∧ ((∃ a, q' = .ret a) ∨ ∃ fd size k, q' = .call (.read fd size) k ∧ l'.flying = []) := by
        intro x l₁ hrecord htake
        obtain ⟨tr, q', l', hleads, hrecords, htakes, hend⟩ := ih x l₁
        refine ⟨⟨o, x⟩ :: tr, q', l', ⟨k, rfl, hleads⟩, ?_, ?_, hend⟩
        · intro ev hev
          rcases List.mem_cons.mp hev with rfl | hev
          · exact hrecord
          · exact hrecords ev hev
        · rw [Link.takes, htake]
          exact htakes
      by_cases hread : ∀ fd size, o ≠ .read fd size
      · obtain ⟨x, hrecord, htake⟩ := exists_take l hread
        exact hstep x l hrecord htake
      · simp only [not_forall, not_not] at hread
        obtain ⟨fd, size, rfl⟩ := hread
        cases hflying : l.flying with
        | nil => exact ⟨[], _, l, rfl, fun ev hev => absurd hev List.not_mem_nil, rfl, .inr ⟨fd, size, k, rfl, hflying⟩⟩
        | cons p flying =>
            refine hstep (some p.2) { l with flying := flying, opening := p.1 } trivial ?_
            unfold Link.take
            rw [hflying]
            exact if_pos rfl

/-- A call that reads does not wait when its message is there. -/
theorem exists_takes_read (hp : Paired ends certs packet_buf_size) {e : Bool} {u : Use} (hu : u.reads = true)
    (hfits : Fits packet_buf_size fuel m) {c rest : List Packet} (hc : Carried certs packet_buf_size m c) {l : Link}
    (hflying : l.flying = c ++ rest) : ∃ (tr : List (Event Op Ans)) (g : Got) (l' : Link),
      Prog.Runs (u.code fuel (ends e)) tr g ∧ (∀ ev ∈ tr, GivesRecord ev) ∧ l.takes tr = some l' := by
  obtain ⟨tr, q, l', hleads, hrecords, htakes, ⟨g, rfl⟩ | ⟨fd, size, k, rfl, hnothing⟩⟩ :=
    exists_leads (u.code fuel (ends e)) l
  · have hruns := hleads.runs (Prog.runs_ret.mpr ⟨rfl, rfl⟩)
    rw [List.append_nil] at hruns
    exact ⟨tr, g, l', hruns, hrecords, htakes⟩
  · -- if it waited, more packets would be read than its message has
    obtain ⟨n, tr', g, l'', hrest, htakes', hempty⟩ := exists_takes ([], []) (.call (.read fd size) k) l' hnothing
    have hall := Link.takes_more (List.replicate n ([], [])) tr htakes
    have hwhole : (l.more (List.replicate n ([], []))).takes (tr ++ tr') = some l'' := by
      rw [Link.takes_append, hall]
      exact htakes'
    have hmore : (l.more (List.replicate n ([], []))).flying = c ++ (rest ++ List.replicate n ([], [])) := by
      rw [Link.more_flying, hflying, List.append_assoc]
    obtain ⟨-, hleft⟩ := takes_read hp hu hfits hc hmore (hleads.runs hrest) hwhole
    rw [hempty] at hleft
    have hnil := (List.append_eq_nil_iff.mp hleft.symm).2
    rw [List.replicate_eq_nil_iff] at hnil
    subst hnil
    obtain ⟨x, tr'', rfl, -⟩ := hrest
    obtain ⟨l₁, htake, -⟩ := Link.takes_cons htakes'
    obtain ⟨p, flying, hfirst, -⟩ := Link.take_read htake
    rw [Link.more_flying, hnothing] at hfirst
    cases hfirst

/-- One call goes on alone. -/
theorem Reach.alone {e : Bool} {t : ℕ} {q : Sys Got} {tr : List (Event Op Ans)} : ∀ {s : Session} {p : Sys Got} {l : Link},
    Reach fuel ends uses s → (s.pool e).left t = p → Prog.Only (fun o => ∀ m, nodeLocks.takes o = some m → False) p →
      Prog.Leads p tr q → (∀ ev ∈ tr, GivesRecord ev) → (s.link !e).takes tr = some l →
        ∃ s', Reach fuel ends uses s' ∧ (s'.pool e).left t = q ∧ s'.pool (!e) = s.pool (!e)
          ∧ s'.link e = (s.link e).puts (ends e).t_node.certs tr ∧ s'.link (!e) = l := by
  induction tr with
  | nil =>
      rintro s p l h hleft _ rfl _ htakes
      cases htakes
      exact ⟨s, h, hleft, rfl, rfl, rfl⟩
  | cons ev tr ih =>
      rintro s p l h hleft hfree ⟨k, rfl, hrest⟩ hrecords htakes
      obtain ⟨l₁, htake, htakes'⟩ := Link.takes_cons htakes
      have hstep := h.step (.step e t ev.op k ev.ans l₁ hleft (fun m hm => (hfree.1 m hm).elim)
        (hrecords _ List.mem_cons_self) htake)
      obtain ⟨s', h', hleft', hpool, hlink, hlink'⟩ := ih hstep (moved_left ..) (hfree.2 ev.ans) hrest
        (fun ev hev => hrecords ev (List.mem_cons_of_mem _ hev)) (by rw [moved_link_other]; exact htakes')
      rw [moved_pool_other] at hpool
      rw [moved_link] at hlink
      exact ⟨s', h', hleft', hpool, hlink, hlink'⟩

/-- A call from its beginning on, when the mutex is free. -/
theorem Reach.call (h : Reach fuel ends uses s) {e : Bool} {t : ℕ} {q : Sys Got} {tr : List (Event Op Ans)} {l : Link}
    (hleft : (s.pool e).left t = (uses e t).code fuel (ends e)) (hhold : (s.pool e).holder (ends e).t_node.addr = none)
    (hleads : Prog.Leads ((uses e t).code fuel (ends e)) tr q) (hrecords : ∀ ev ∈ tr, GivesRecord ev)
    (htakes : (s.link !e).takes tr = some l) :
    ∃ s', Reach fuel ends uses s' ∧ (s'.pool e).left t = q ∧ s'.pool (!e) = s.pool (!e)
      ∧ s'.link e = (s.link e).puts (ends e).t_node.certs tr ∧ s'.link (!e) = l := by
  have hown := ownNode_code fuel (ends e) (uses e t)
  obtain ⟨o, k, hcode, hlock, -, hinside⟩ := critical_link fuel (ends e) (uses e t)
  cases tr with
  | nil =>
      cases htakes
      exact ⟨s, h, hleft.trans hleads, rfl, rfl, rfl⟩
  | cons ev tr =>
      obtain ⟨k', hcall, hrest⟩ := hleads
      have heq := hcode.symm.trans hcall
      cases heq
      rw [hcode] at hleft hown
      obtain ⟨l₁, htake, htakes'⟩ := Link.takes_cons htakes
      have hstep := h.step (.step e t ev.op k' ev.ans l₁ hleft (fun m hm => by
        obtain rfl := Option.some.inj (hlock.symm.trans hm)
        exact hhold) (hrecords _ List.mem_cons_self) htake)
      -- the mutex is not taken again, and there is no other
      have hfree : Prog.Only (fun o => ∀ m, nodeLocks.takes o = some m → False) (k' ev.ans) :=
        ((hown.2 ev.ans).and (hinside ev.ans).only).mono fun o ho m hm => ho.2 (ho.1.takes m hm ▸ hm)
      obtain ⟨s', h', hleft', hpool, hlink, hlink'⟩ := hstep.alone (moved_left ..) hfree hrest
        (fun ev hev => hrecords ev (List.mem_cons_of_mem _ hev)) (by rw [moved_link_other]; exact htakes')
      rw [moved_pool_other] at hpool
      rw [moved_link] at hlink
      exact ⟨s', h', hleft', hpool, hlink, hlink'⟩

/-! ## Delivery

The messages that were sent, in the order of the calls, are the ones that the calls on the
other side read, in theirs. -/

/-- What one end has put on its link are its messages, if the call that has the mutex goes
on to the end; and they are all there when that call does not send. -/
theorem Inv.carried (h : Inv fuel ends uses s) (hp : Paired ends certs packet_buf_size) {e : Bool}
    (hfits : ∀ t m, (uses e t).message = some m → Fits packet_buf_size fuel m) :
    ∃ (cs : List (List Packet)) (extra : List (Event Op Ans)),
      List.Forall₂ (Carried certs packet_buf_size) (s.sent ends uses e) cs
      ∧ ((Link.empty.puts (ends e).t_node.certs ((s.pool e).log.map Prod.snd)).puts (ends e).t_node.certs extra).flying
        = cs.flatten
      ∧ ((∀ t, (s.pool e).holder (ends e).t_node.addr = some t → (uses e t).message = none) →
        (Link.empty.puts (ends e).t_node.certs ((s.pool e).log.map Prod.snd)).flying = cs.flatten) := by
  obtain ⟨whole, returned, extra, hruns, hrecords, -, -, hlog, hextra⟩ := (h.reach e).completed someAnswer
    givesRecord_someAnswer (fun t => critical_link fuel (ends e) (uses e t)) (h.records e)
  obtain ⟨cs, hall, hputs⟩ := puts_order hp hfits (fun t => ⟨returned t, hruns t⟩) hrecords (s.served ends e)
  have hflying : ((Link.empty.puts (ends e).t_node.certs ((s.pool e).log.map Prod.snd)).puts (ends e).t_node.certs extra).flying
      = cs.flatten := by
    rw [← Link.puts_watch ((s.pool e).log.map Prod.snd), ← Link.puts_append]
    exact (congrArg (fun tr => (Link.puts (ends e).t_node.certs .empty tr).flying) hlog).trans (hputs .empty)
  refine ⟨cs, extra, hall, hflying, fun hreader => ?_⟩
  rw [← hflying]
  refine congrArg Link.flying (Link.puts_of_not fun ev hev => ?_).symm
  obtain ⟨t, hhold, hmem⟩ := hextra ev hev
  have hnone := hreader t hhold
  have hrun := hruns t
  -- what a holder has still to put comes from a judoSend_; a judoRead_ asks and puts nothing
  cases hu : uses e t with
  | send t_buffer n =>
      rw [hu] at hnone
      cases hnone
  | read t_out_buf =>
      rw [hu] at hrun
      exact ((asks_read fuel (ends e) t_out_buf).of_runs hrun ev hmem).1

/-- A call that has returned has had the mutex. -/
theorem Inv.mem_served (h : Inv fuel ends uses s) {e : Bool} {t : ℕ} {g : Got} (hret : (s.pool e).left t = .ret g) :
    t ∈ s.served ends e := by
  by_contra ht
  have ho := (h.reach e).ordered fun t => critical_link fuel (ends e) (uses e t)
  obtain ⟨⟨o, k, hcall, -⟩, -⟩ := ho.before t ht
  rw [hret] at hcall
  cases hcall

/-- **Delivery.** Two nodes with any number of calls of `judoSend_` and `judoRead_` at
both ends, in any interleaving, plain or under TLS: a `judoRead_` that has returned has
returned 0 and stored the message that the other end sent in its turn, the i-th reading
call of one end the i-th message of the other. -/
theorem session_delivers (hp : Paired ends certs packet_buf_size)
    (hfits : ∀ e t m, (uses e t).message = some m → Fits packet_buf_size fuel m) (hfuel : 0 < fuel)
    (h : Reach fuel ends uses s) (e : Bool) {t : ℕ} {g : Got} (hreads : (uses e t).reads = true)
    (hret : (s.pool e).left t = .ret g) :
    ∃ (i : ℕ) (m : Buffer × ℕ), (s.readers ends uses e)[i]? = some t ∧ (s.sent ends uses !e)[i]? = some m
      ∧ Received (ends e) packet_buf_size m (mine t (s.pool e).log) g := by
  obtain ⟨cs, extra, hall, hflying, -⟩ := h.inv.carried hp (hfits !e)
  have hlink := h.inv.links !e
  rw [Bool.not_not] at hlink
  have htakes := @Link.takes_puts (ends !e).t_node.certs _ extra _ _ hlink
  -- the calls up to this one are whole
  obtain ⟨whole, returned, extra', hruns, -, hdone, hsame, -, -⟩ := (h.inv.reach e).completed someAnswer
    givesRecord_someAnswer (fun t => critical_link fuel (ends e) (uses e t)) (h.inv.records e)
  have ho := (h.inv.reach e).ordered fun t => critical_link fuel (ends e) (uses e t)
  obtain ⟨before, after, hserved⟩ := List.append_of_mem (h.inv.mem_served hret)
  unfold served at hserved
  obtain ⟨hmine, rfl⟩ := hdone t g hret
  have hbefore := ho.before_last hserved
  have hwatch : (before ++ [t]).flatMap (fun u => watch Link.onLink (whole u))
      = (before ++ [t]).flatMap fun u => watch Link.onLink (mine u (s.pool e).log) := by
    refine List.flatMap_congr fun u hu => ?_
    rcases List.mem_append.mp hu with hu | hu
    · exact hsame u (hserved ▸ List.mem_append_left _ hu) (hbefore u hu)
    · rw [List.mem_singleton.mp hu, hmine]
  rw [← Link.takes_watch, ho.log] at htakes
  rw [hserved, List.append_cons, List.flatMap_append, ← hwatch] at htakes
  obtain ⟨l₁, htakes₁, -⟩ := Link.takes_split htakes
  obtain ⟨-, -, hall'⟩ := takes_order hp hfuel (before ++ [t]) (fun u _ => hruns u) hall
    (fun m hm => by
      obtain ⟨u, -, hu⟩ := List.mem_filterMap.mp hm
      exact hfits (!e) u m hu)
    (hflying.trans (List.append_nil _).symm) (.inl rfl) htakes₁
  have hlast : ∀ rest : List ℕ, ((before ++ t :: rest).filter fun u => (uses e u).reads)[(before.filter fun u => (uses e u).reads).length]? = some t := by
    intro rest
    rw [List.filter_append, List.filter_cons_of_pos (p := fun u => (uses e u).reads) hreads, List.getElem?_append_right le_rfl,
      Nat.sub_self]
    rfl
  obtain ⟨m, hm, hreceived⟩ := hall' _ t (hlast [])
  rw [hmine] at hreceived
  refine ⟨_, m, ?_, hm, hreceived⟩
  unfold readers served
  rw [hserved]
  exact hlast after

/-- Two nodes without certificates. -/
def pair : Bool → End := fun _ => ⟨.init_ default, node64, ⟨5, 1, 1⟩⟩

theorem paired_pair : Paired pair false 64 :=
  ⟨fun _ => (by decide : node64.certs = false), fun _ => (by decide : node64.bufferSize = 64), le_refl 64⟩

/-- One end sends a byte with each call, the other one reads. -/
def oneWay : Bool → ℕ → Use
  | true, _ => .send (fun _ => 65) 1
  | false, _ => .read 0

/-- A message of one byte fits. -/
theorem fits_oneWay (e : Bool) (t : ℕ) (m : Buffer × ℕ) (hm : (oneWay e t).message = some m) : Fits 64 1 m := by
  cases e with
  | false => cases hm
  | true =>
      cases hm
      exact ⟨by decide, by decide⟩

/-- A byte is sent, and read. -/
theorem session_delivers_byte : ∃ (s : Session) (g : Got), Reach 1 pair oneWay s ∧ (s.pool false).left 0 = .ret g
    ∧ ∃ (i : ℕ) (m : Buffer × ℕ), (s.readers pair oneWay false)[i]? = some 0 ∧ (s.sent pair oneWay true)[i]? = some m
      ∧ Received (pair false) 64 m (mine 0 (s.pool false).log) g := by
  have hstart : Reach 1 pair oneWay (.start 1 pair oneWay) := .start
  -- the call that sends ...
  have hsend := Prog.runs_exec (h := fun (_ : Unit) o => (someAnswer o, ())) ((oneWay true 0).code 1 (pair true)) ()
  have hrecords := Prog.exec_forall (h := fun (_ : Unit) o => (someAnswer o, ())) (fun _ o => givesRecord_someAnswer o)
    ((oneWay true 0).code 1 (pair true)) ()
  have hsends := @takes_of_sends 1 pair true (oneWay true 0) rfl _ _ hsend
  obtain ⟨s₁, h₁, -, hpool, hlink, -⟩ := hstart.call (e := true) (t := 0) rfl rfl hsend.leads hrecords (hsends _)
  obtain ⟨c, hc, hputs⟩ := puts_send paired_pair (e := true) (u := oneWay true 0) rfl (fits_oneWay true 0 _ rfl) hsend hrecords
  -- ... and the one that reads
  have hflying : (s₁.link true).flying = c ++ [] := by
    rw [hlink, hputs, List.append_nil]
    rfl
  obtain ⟨tr, g, l, hread, hrecords', htakes⟩ := exists_takes_read paired_pair (e := false) (u := oneWay false 0) rfl
    (fits_oneWay true 0 _ rfl) hc hflying
  have hpool₁ : s₁.pool false = (Session.start 1 pair oneWay).pool false := hpool
  obtain ⟨s₂, h₂, hret, -⟩ := h₁.call (e := false) (t := 0) (by rw [hpool₁]; rfl) (by rw [hpool₁]; rfl) hread.leads hrecords' htakes
  exact ⟨s₂, g, h₂, hret, session_delivers paired_pair fits_oneWay Nat.one_pos h₂ false rfl hret⟩

end Session

end JudoEngine
