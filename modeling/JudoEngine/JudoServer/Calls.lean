/-
The calls that the threads at one end of a connection make.

A thread sends a message with `judoSend_` or reads one with `judoRead_`. Either is a
critical section of the node's mutex, which a `std::unique_lock` gives back also when an
exception leaves the function; and either asks for nothing but its own node's mutex and
its own socket. That is all that is used of them where many of them run at once.
-/
import JudoEngine.JudoServer.Link

set_option autoImplicit false

open Words Threads

namespace JudoEngine

/-! ## The calls

A thread's call is a program that ends in what the call returns. The code of `judoRead_` is
followed by what C++ does when an exception leaves it: the destructor of the lock still runs. -/

/-- What a thread does with its end of the connection. -/
inductive Use where
  | send (t_buffer : Buffer) (t_size : ℕ)
  | read (t_out_buf : ℕ)

/-- What that returns. -/
inductive Got where
  | sent (ret : ℤ)
  | got (ret : Option (JudoServer × ℤ × ℕ × ℤ))

/-- One end of a connection. -/
structure End where
  server : JudoServer
  t_node : ssl_node
  t_poll : pollfd

namespace Use

/-- The message that it sends. -/
def message : Use → Option (Buffer × ℕ)
  | send t_buffer t_size => some (t_buffer, t_size)
  | read _ => none

/-- It reads one. -/
def reads : Use → Bool
  | send _ _ => false
  | read _ => true

/-- The code of it. An exception that leaves `judoRead_` gives back the mutex. -/
def code (fuel : ℕ) (e : End) : Use → Sys Got
  | send t_buffer t_size => do
      let ret ← judoSend_ e.t_node t_buffer t_size
      pure (.sent ret)
  | read t_out_buf => do
      match ← judoRead_ fuel e.server e.t_node e.t_poll t_out_buf with
      | some ret => pure (.got (some ret))
      | none => do
          sys (.unlock e.t_node.addr)
          pure (.got none)

end Use

/-! ## What the calls ask for

Two things matter where many calls run at once, and both are about single operations: whether
it can block (a `read`, a mutex), and whose node it is about. They are proved together,
because the walk through the two functions is the same. -/

/-- What a round of `judoSend_` does with a packet. -/
def packing : Op → Bool
  | .SSL_write _ _ | .BIO_read _ _ | .write _ _ _ => true
  | _ => false

/-- By induction on the packets. -/
theorem packing_loop (t_node : ssl_node) (t_buffer : Buffer) (t_size buffer_size packets : ℤ) (n : ℕ) :
    ∀ (i index : ℤ) (buffer : Buffer), Prog.Only (fun o => packing o = true)
      (judoSend_.loop t_node t_buffer t_size buffer_size packets n i index buffer) := by
  induction n with
  | zero => exact fun _ _ _ => trivial
  | succ n ih =>
      intro i index buffer
      unfold judoSend_.loop
      dsimp only
      split
      · exact .step rfl fun _ => .step rfl fun _ => .step rfl fun _ => ih _ _ _
      · exact .step rfl fun _ => ih _ _ _

/-- What `judoRead_` does with a packet, and when it disconnects. -/
def unpacking : Op → Bool
  | .log _ _ | .close _ | .SSL_free _ | .SSL_CTX_free _ | .delete_ssl_node _ | .BIO_write _ _ _ | .SSL_read _ _
  | .new_char _ | .store _ _ _ => true
  | _ => false

/-- The node's own things are given back. -/
theorem unpacking_judoDisconnect_ (server : JudoServer) (t_node : ssl_node) (t_poll : pollfd) :
    Prog.Only (fun o => unpacking o = true) (judoDisconnect_ server t_node t_poll) := by
  unfold judoDisconnect_ dstr_ssl_node
  refine .step rfl fun _ => .step rfl fun _ => Prog.Only.bind ?_ fun _ => trivial
  exact .step rfl fun _ => .step rfl fun _ => .step rfl fun _ => trivial

/-- Under TLS two operations. -/
theorem unpacking_unseal (t_node : ssl_node) (packet_buf_size bytes_read : ℤ) (packet_buffer : Buffer) :
    Prog.Only (fun o => unpacking o = true) (judoRead_.unseal t_node packet_buf_size bytes_read packet_buffer) := by
  unfold judoRead_.unseal
  split
  · exact .step rfl fun _ => .step rfl fun _ => trivial
  · trivial

/-- An array at most. -/
theorem unpacking_reserve (b packet_buf_size : ℤ) (t_out_buf : ℕ) (t_outbuf_size : ℤ) :
    Prog.Only (fun o => unpacking o = true) (judoRead_.reserve b packet_buf_size t_out_buf t_outbuf_size) := by
  unfold judoRead_.reserve
  split
  · split
    · trivial
    · exact .step rfl fun _ => trivial
  · trivial

/-- The stores of a payload. -/
theorem unpacking_copy (t_out_buf : ℕ) (packet_buffer : Buffer) (n : ℕ) : ∀ (i index : ℤ),
    Prog.Only (fun o => unpacking o = true) (judoRead_.copy t_out_buf packet_buffer n i index) := by
  induction n with
  | zero => exact fun _ _ => trivial
  | succ n ih => exact fun i index => .step rfl fun _ => ih _ _

/-- Neither is the mutex. -/
theorem keepsOff_of_packing (m : ℕ) (o : Op) (ho : packing o = true) :
    nodeLocks.takes o ≠ some m ∧ nodeLocks.gives o ≠ some m := by
  have hfree : (none : Option ℕ) ≠ some m := (Option.some_ne_none _).symm
  cases o <;> first | exact ⟨hfree, hfree⟩ | exact absurd ho Bool.false_ne_true

/-- Nor is it here. -/
theorem keepsOff_of_unpacking (m : ℕ) (o : Op) (ho : unpacking o = true) :
    nodeLocks.takes o ≠ some m ∧ nodeLocks.gives o ≠ some m := by
  have hfree : (none : Option ℕ) ≠ some m := (Option.some_ne_none _).symm
  cases o <;> first | exact ⟨hfree, hfree⟩ | exact absurd ho Bool.false_ne_true

/-- The node's mutex is the only one that is used, and a read is one of the connection's
for a packet. -/
structure OwnNode (e : End) (o : Op) : Prop where
  takes : ∀ m, nodeLocks.takes o = some m → m = e.t_node.addr
  gives : ∀ m, nodeLocks.gives o = some m → m = e.t_node.addr
  read : ∀ fd size, o = .read fd size → fd = e.t_node.fp ∧ size = e.t_node.bufferSize

/-- An operation that uses no mutex and does not read. -/
theorem ownNode_of_free {e : End} {o : Op} (htakes : nodeLocks.takes o = none) (hgives : nodeLocks.gives o = none)
    (hread : ∀ fd size, o ≠ .read fd size) : OwnNode e o := by
  refine ⟨fun m hm => ?_, fun m hm => ?_, fun fd size h => absurd h (hread fd size)⟩
  · rw [htakes] at hm
    cases hm
  · rw [hgives] at hm
    cases hm

/-- It is the connection's read. -/
theorem OwnNode.eq_read {e : End} {o : Op} (h : OwnNode e o) (hread : ∃ fd size, o = .read fd size) :
    o = .read e.t_node.fp e.t_node.bufferSize := by
  obtain ⟨fd, size, ho⟩ := hread
  obtain ⟨hfd, hsize⟩ := h.read fd size ho
  rw [ho, hfd, hsize]

/-- All that is done with a packet to be sent is free of mutexes and reads, ... -/
theorem ownNode_of_packing (e : End) (o : Op) (ho : packing o = true) : OwnNode e o := by
  cases o <;> first | exact absurd ho Bool.false_ne_true | exact ownNode_of_free rfl rfl (by simp)

/-- ... and so is what is done with one that has come. -/
theorem ownNode_of_unpacking (e : End) (o : Op) (ho : unpacking o = true) : OwnNode e o := by
  cases o <;> first | exact absurd ho Bool.false_ne_true | exact ownNode_of_free rfl rfl (by simp)

/-- The mutex of the node, ... -/
theorem ownNode_lock (e : End) : OwnNode e (.lock e.t_node.addr) := by
  refine ⟨fun m hm => ?_, fun m hm => ?_, by simp⟩
  · cases hm
    rfl
  · cases hm

/-- ... given back, ... -/
theorem ownNode_unlock (e : End) : OwnNode e (.unlock e.t_node.addr) := by
  refine ⟨fun m hm => ?_, fun m hm => ?_, by simp⟩
  · cases hm
  · cases hm
    rfl

/-- ... and the read of a packet. -/
theorem ownNode_read (e : End) : OwnNode e (.read e.t_node.fp e.t_node.bufferSize) := by
  refine ⟨fun m hm => ?_, fun m hm => ?_, fun fd size h => ?_⟩
  · cases hm
  · cases hm
  · cases h
    exact ⟨rfl, rfl⟩

/-- Nothing is taken from the link by sending, ... -/
theorem isTake_of_packing (o : Op) (ho : packing o = true) : Link.isTake o = false := by
  cases o <;> first | rfl | exact absurd ho Bool.false_ne_true

/-- ... and nothing put on it by reading. -/
theorem isPut_of_unpacking (o : Op) (ho : unpacking o = true) : Link.isPut o = false := by
  cases o <;> first | rfl | exact absurd ho Bool.false_ne_true

/-- What a call that sends asks for, ... -/
theorem asks_send (fuel : ℕ) (e : End) (t_buffer : Buffer) (t_size : ℕ) :
    Prog.Only (fun o => Link.isTake o = false ∧ OwnNode e o) ((Use.send t_buffer t_size).code fuel e) := by
  have hfree : ∀ {o : Op}, Link.isTake o = false → nodeLocks.takes o = none → nodeLocks.gives o = none →
      (∀ fd size, o ≠ .read fd size) → Link.isTake o = false ∧ OwnNode e o := fun htake hlock hunlock hread =>
    ⟨htake, ownNode_of_free hlock hunlock hread⟩
  unfold Use.code judoSend_
  dsimp only
  refine Prog.Only.bind (.step ⟨rfl, ownNode_lock e⟩ fun _ => .step (hfree rfl rfl rfl (by simp)) fun buffer => ?_) fun _ => trivial
  generalize 1 + (t_size : ℤ).tdiv (e.t_node.bufferSize - 40) = packets
  refine Prog.Only.bind (Prog.Only.mono (fun o ho => ⟨isTake_of_packing o ho, ownNode_of_packing e o ho⟩) (packing_loop ..)) fun _ => ?_
  exact .step (hfree rfl rfl rfl (by simp)) fun _ => .step ⟨rfl, ownNode_unlock e⟩ fun _ => trivial

/-- ... and one that reads. -/
theorem asks_read (fuel : ℕ) (e : End) (t_out_buf : ℕ) :
    Prog.Only (fun o => Link.isPut o = false ∧ OwnNode e o) ((Use.read t_out_buf).code fuel e) := by
  have hfree : ∀ {o : Op}, Link.isPut o = false → nodeLocks.takes o = none → nodeLocks.gives o = none →
      (∀ fd size, o ≠ .read fd size) → Link.isPut o = false ∧ OwnNode e o := fun hput hlock hunlock hread =>
    ⟨hput, ownNode_of_free hlock hunlock hread⟩
  have hunpacking : ∀ o, unpacking o = true → Link.isPut o = false ∧ OwnNode e o := fun o ho =>
    ⟨isPut_of_unpacking o ho, ownNode_of_unpacking e o ho⟩
  have hunlock : Link.isPut (.unlock e.t_node.addr) = false ∧ OwnNode e (.unlock e.t_node.addr) :=
    ⟨rfl, ownNode_unlock e⟩
  -- the rounds, by induction
  have hloop : ∀ (buffer : ℕ) (n : ℕ) (packet_buffer : Buffer) (out : ℕ) (index size : ℤ),
      Prog.Only (fun o => Link.isPut o = false ∧ OwnNode e o) (judoRead_.loop e.server e.t_node e.t_poll buffer
        e.t_node.bufferSize n packet_buffer out index size) := by
    intro buffer n
    induction n with
    | zero => exact fun _ _ _ _ => trivial
    | succ n ih =>
        intro packet_buffer out index size
        unfold judoRead_.loop
        refine .step ⟨rfl, ownNode_read e⟩ fun r => ?_
        split
        · exact Prog.Only.bind (Prog.Only.mono hunpacking (unpacking_judoDisconnect_ ..)) fun _ => .step hunlock fun _ => trivial
        · refine Prog.Only.bind (Prog.Only.mono hunpacking (unpacking_unseal ..)) fun q => ?_
          dsimp only
          generalize q.int32 0 = a, q.int32 4 = b
          refine Prog.Only.bind (Prog.Only.mono hunpacking (unpacking_reserve ..)) fun reserved => ?_
          cases reserved with
          | none => trivial
          | some reserved =>
              dsimp only
              generalize (e.t_node.bufferSize - 40).toNat = c
              refine Prog.Only.bind (Prog.Only.mono hunpacking (unpacking_copy ..)) fun _ => ?_
              split
              · exact ih _ _ _ _
              · exact .step (hfree rfl rfl rfl (by simp)) fun _ => .step hunlock fun _ => trivial
  unfold Use.code judoRead_
  dsimp only
  refine Prog.Only.bind ?_ fun ret => ?_
  · refine .step ⟨rfl, ownNode_lock e⟩ fun _ => .step (hfree rfl rfl rfl (by simp)) fun index => ?_
    exact .step (hfree rfl rfl rfl (by simp)) fun packet_buffer => hloop _ _ _ _ _ _
  · cases ret with
    | none => exact .step hunlock fun _ => trivial
    | some ret => trivial

/-! ## The critical sections

Each call takes the mutex, does all its work, and gives it back. `Inside` is the state in
between; the loop of `judoRead_` stays there in every round and leaves it on each of its
exits. -/

section Critical

variable {watched : Op → Bool} (hlock : ∀ m, watched (.lock m) = false) (hunlock : ∀ m, watched (.unlock m) = false)

include hunlock in
/-- The mutex of the node is given back before the end, also when an exception does it. -/
theorem inside_loop (server : JudoServer) (t_node : ssl_node) (t_poll : pollfd) (buffer : ℕ) (packet_buf_size : ℤ)
    {f : Option (JudoServer × ℤ × ℕ × ℤ) → Sys Got} (hsome : ∀ ret, ∃ g, f (some ret) = pure g)
    (hnone : ∃ g, f none = sys (.unlock t_node.addr) >>= fun _ => pure g) (fuel : ℕ) :
    ∀ (packet_buffer : Buffer) (t_out_buf : ℕ) (index t_outbuf_size : ℤ),
      Threads.Inside nodeLocks t_node.addr watched (judoRead_.loop server t_node t_poll buffer packet_buf_size fuel
        packet_buffer t_out_buf index t_outbuf_size >>= f) := by
  have hfree : (none : Option ℕ) ≠ some t_node.addr := (Option.some_ne_none _).symm
  have hoff := keepsOff_of_unpacking t_node.addr
  -- the two ways out: by an exception, and by `return`
  have hgive : Threads.Inside nodeLocks t_node.addr watched (pure none >>= f) := by
    obtain ⟨g, hg⟩ := hnone
    rw [Prog.pure_eq, Prog.ret_bind, hg]
    exact Inside.give hfree rfl (hunlock _) fun _ => trivial
  have hreturn : ∀ ret, Threads.Inside nodeLocks t_node.addr watched
      ((sys (.unlock t_node.addr) >>= fun _ => pure (some ret)) >>= f) := by
    intro ret
    obtain ⟨g, hg⟩ := hsome ret
    rw [Prog.bind_assoc]
    refine Inside.give hfree rfl (hunlock _) fun _ => ?_
    rw [Prog.pure_eq, Prog.ret_bind, hg]
    trivial
  induction fuel with
  | zero => exact fun _ _ _ _ => hgive
  | succ fuel ih =>
      intro packet_buffer t_out_buf index t_outbuf_size
      unfold judoRead_.loop
      rw [Prog.bind_assoc]
      -- a round: the read, and then the disconnect or the packet
      refine Inside.other hfree hfree fun r => ?_
      split
      · rw [Prog.bind_assoc]
        exact Inside.bind (Prog.Only.mono hoff (unpacking_judoDisconnect_ ..)) fun server' => hreturn _
      · rw [Prog.bind_assoc]
        refine Inside.bind (Prog.Only.mono hoff (unpacking_unseal ..)) fun q => ?_
        dsimp only
        generalize q.int32 0 = a, q.int32 4 = b
        rw [Prog.bind_assoc]
        refine Inside.bind (Prog.Only.mono hoff (unpacking_reserve ..)) fun reserved => ?_
        cases reserved with
        | none => exact hgive
        | some reserved =>
            dsimp only
            rw [Prog.bind_assoc]
            refine Inside.bind (Prog.Only.mono hoff (unpacking_copy ..)) fun _ => ?_
            split
            · exact ih _ _ _ _
            · rw [Prog.bind_assoc]
              exact Inside.other hfree hfree fun _ => hreturn _

include hlock hunlock in
/-- `judoSend_` is a critical section. -/
theorem critical_send (t_node : ssl_node) (t_buffer : Buffer) (t_size : ℤ) :
    Critical nodeLocks t_node.addr watched (judoSend_ t_node t_buffer t_size) := by
  have hfree : (none : Option ℕ) ≠ some t_node.addr := (Option.some_ne_none _).symm
  unfold judoSend_
  refine Critical.take rfl (hlock _) fun _ => Inside.other hfree hfree fun buffer => ?_
  refine Inside.bind (Prog.Only.mono (keepsOff_of_packing _) (packing_loop ..)) fun _ => Inside.other hfree hfree fun _ => ?_
  exact Inside.give hfree rfl (hunlock _) fun _ => trivial

include hlock hunlock in
/-- Every call is a critical section of its node's mutex, whatever is watched of it. -/
theorem critical_code (fuel : ℕ) (e : End) (u : Use) : Critical nodeLocks e.t_node.addr watched (u.code fuel e) := by
  have hfree : (none : Option ℕ) ≠ some e.t_node.addr := (Option.some_ne_none _).symm
  cases u with
  | send t_buffer t_size => exact (critical_send hlock hunlock e.t_node t_buffer t_size).then fun _ => trivial
  | read t_out_buf =>
      unfold Use.code judoRead_
      dsimp only
      rw [Prog.bind_assoc]
      refine Critical.take rfl (hlock _) fun _ => ?_
      rw [Prog.bind_assoc]
      refine Inside.other hfree hfree fun index => ?_
      rw [Prog.bind_assoc]
      refine Inside.other hfree hfree fun packet_buffer => ?_
      exact inside_loop hunlock _ _ _ _ _ (fun ret => ⟨_, rfl⟩) ⟨_, rfl⟩ _ _ _ _ _

end Critical

/-- What it does to the link, it does in its critical section. -/
theorem critical_link (fuel : ℕ) (e : End) (u : Use) : Critical nodeLocks e.t_node.addr Link.onLink (u.code fuel e) :=
  critical_code (fun _ => rfl) (fun _ => rfl) fuel e u

/-! ## What is left of them

What the following modules use. -/

/-- Only a call that reads reads. -/
theorem reads_code (fuel : ℕ) (e : End) (u : Use) (hu : u.reads = false) :
    Prog.Only (fun o => Link.isTake o = false) (u.code fuel e) := by
  cases u with
  | send t_buffer t_size => exact (asks_send fuel e t_buffer t_size).mono fun o ho => ho.1
  | read t_out_buf => cases hu

/-- What a call asks for. -/
theorem ownNode_code (fuel : ℕ) (e : End) (u : Use) : Prog.Only (OwnNode e) (u.code fuel e) := by
  cases u with
  | send t_buffer t_size => exact (asks_send fuel e t_buffer t_size).mono fun o ho => ho.2
  | read t_out_buf => exact (asks_read fuel e t_out_buf).mono fun o ho => ho.2

end JudoEngine
