/-
One connection among the others.

The event loop reads from its connections in turn, and accepts new ones in between. What a
client has sent comes out of the calls of `judoRead_` that are made for its node, message by
message, whatever is done for the other connections: an iteration touches the socket and the
`SSL` of its own row and no others, and a new connection brings new ones with it.

Two things are asked for. The loop keeps to its table, which it does when its steps are
`Spared`; and while the connection is open the system does not give out its socket or its
`SSL` a second time.
-/
import JudoEngine.JudoServer.Session
import JudoEngine.JudoServer.CharArrays
import JudoEngine.JudoServer.NodeLife
import JudoEngine.JudoServer.SetUp

set_option autoImplicit false

open Words Threads Histories

namespace JudoEngine

/-! ## A connection and the others

What a function does for one node is told apart from what it does for another by the socket
and the `SSL` that an operation names. -/

/-- A node with another socket, and with another `SSL` when both have one. -/
structure Foreign (n m : ssl_node) : Prop where
  fp : m.fp ≠ n.fp
  ssl : n.certs = true → m.certs = true → m.ssl ≠ n.ssl

instance (n m : ssl_node) : Decidable (Foreign n m) :=
  decidable_of_iff (m.fp ≠ n.fp ∧ (n.certs = true → m.certs = true → m.ssl ≠ n.ssl))
    ⟨fun h => ⟨h.1, h.2⟩, fun h => ⟨h.1, h.2⟩⟩

/-- What a function of this node may ask for, where it receives something. -/
def own (n : ssl_node) : Op → Bool
  | .read fd _ => decide (fd = n.fp)
  | .SSL_read ssl _ => n.certs && decide (ssl = n.ssl)
  | _ => true

/-- The operations by which something is received on its connection. -/
def receives (n : ssl_node) (o : Op) : Bool := Link.isTake o && own n o

/-- What the system does not do while the connection is open: give out its socket or its
`SSL`, or hand in another node with them. -/
def Keeps (n : ssl_node) : Event Op Ans → Prop
  | ⟨.accept _, fp⟩ => (fp : ℤ) ≠ n.fp
  | ⟨.SSL_new _, ssl⟩ => n.certs = true → (ssl : ℕ) ≠ n.ssl
  | ⟨.dump, requests⟩ => ∀ r ∈ (requests : List judo_request_node), r.ssl_info = n ∨ Foreign n r.ssl_info
  | _ => True

/-- The nodes of a table. -/
def tableNodes (m_ssl_nodes : DualDynamicArray pollfd ssl_node) : List ssl_node := m_ssl_nodes.rows.map Prod.snd

/-- They are this one and foreign ones. -/
def Among (n : ssl_node) (m_ssl_nodes : DualDynamicArray pollfd ssl_node) : Prop :=
  ∀ m ∈ tableNodes m_ssl_nodes, m = n ∨ Foreign n m

/-- The loop keeps to its table, and no other node in it has the connection. -/
structure Hosts (n : ssl_node) (st : RunState) : Prop where
  onRow : OnRow st
  server : ∀ server, st.server = some server → Configured server ∧ Among n server.m_ssl_nodes

/-- The iteration reads from the node. -/
def Outcome.isTurn (n : ssl_node) : Outcome → Bool
  | .served (.read row _) => decide (row.2 = n)
  | _ => false

/-- The iterations of a run that do. -/
def turns (n : ssl_node) (hist : List (RunState × (Outcome × List (Event Op Ans)))) : List (Outcome × List (Event Op Ans)) :=
  (hist.map Prod.snd).filter fun x => x.1.isTurn n

/-- `judoRead_` has returned 0 in it, and stored the message. -/
def Stored (n : ssl_node) (m : Buffer × ℕ) (turn : Outcome × List (Event Op Ans)) : Prop :=
  ∃ row out, turn.1 = .served (.read row 0) ∧ stores turn.2 = placed out 0 (delivered n.bufferSize m.1 m.2)

variable {n m : ssl_node}

/-! ## What is taken off the link

A record of the event loop has operations of all connections in it. Those that receive
something on this one are all that the link needs to see. -/

/-- What a node's own functions do to the link is all received on its connection. -/
theorem receives_of_own {o : Op} (hown : own n o = true) (htake : Link.isTake o = true) : receives n o = true := by
  rw [receives, hown, htake]
  rfl

/-- A foreign node's functions receive nothing there. -/
theorem Foreign.not_receives (h : Foreign n m) {o : Op} (hown : own m o = true) (ho : o ≠ .indeterminate) :
    receives n o = false := by
  cases o with
  | read fd size =>
      have hfd : fd = m.fp := of_decide_eq_true hown
      have hne : fd ≠ n.fp := hfd.trans_ne h.fp
      exact decide_eq_false hne
  | SSL_read ssl size =>
      obtain ⟨hcerts, hssl⟩ := Bool.and_eq_true_iff.mp hown
      show (n.certs && decide (ssl = n.ssl)) = false
      cases hn : n.certs with
      | false => rfl
      | true => exact decide_eq_false ((of_decide_eq_true hssl).trans_ne (h.ssl hn hcerts))
  | indeterminate => exact absurd rfl ho
  | _ => rfl

/-- Only what is received counts, if nothing else is taken. -/
theorem takes_receives {tr : List (Event Op Ans)} (h : ∀ ev ∈ tr, own n ev.op = true) (l : Link) :
    l.takes (watch (receives n) tr) = l.takes tr := by
  induction tr generalizing l with
  | nil => rfl
  | cons ev tr ih =>
      have hrest := ih fun ev' hev' => h ev' (List.mem_cons_of_mem _ hev')
      rw [watch, List.filter_cons]
      split
      · exact congrArg (l.take ev).bind (funext hrest)
      · next hev =>
          have hnot : Link.isTake ev.op = false :=
            Bool.eq_false_iff.mpr fun htake => hev (receives_of_own (h ev List.mem_cons_self) htake)
          rw [Link.takes, Link.take_of_not hnot]
          exact hrest l

/-- Nothing is received when all that is taken is uninitialised memory. -/
theorem takes_others {tr : List (Event Op Ans)} (h : ∀ ev ∈ tr, receives n ev.op = true → ev.op = .indeterminate) {l l' : Link}
    (htakes : l.takes (watch (receives n) tr) = some l') : l' = l := by
  induction tr generalizing l with
  | nil => exact (Option.some.inj htakes).symm
  | cons ev tr ih =>
      have hrest := fun ev' hev' => h ev' (List.mem_cons_of_mem _ hev')
      rw [watch, List.filter_cons] at htakes
      split at htakes
      · next hev =>
          obtain ⟨l₁, htake, hmore⟩ := Link.takes_cons htakes
          obtain ⟨o, x⟩ := ev
          obtain rfl : o = .indeterminate := h _ List.mem_cons_self hev
          obtain ⟨-, rfl⟩ := Link.take_indeterminate htake
          exact ih hrest hmore
      · exact ih hrest htakes

/-! ## What the functions receive

judoRead_ and judoHandshake_ work on their own node's socket and `SSL`, so they receive
nothing on another connection. On its own a read takes one message. -/

/-- Disconnecting a node, reading from it and its handshake ask for nothing else. -/
theorem own_judoDisconnect_ (server : JudoServer) (n : ssl_node) (t_poll : pollfd) :
    Prog.Only (fun o => own n o = true) (judoDisconnect_ server n t_poll) := by
  unfold judoDisconnect_ dstr_ssl_node
  refine .step rfl fun _ => .step rfl fun _ => Prog.Only.bind ?_ fun _ => trivial
  exact .step rfl fun _ => .step rfl fun _ => .step rfl fun _ => trivial

theorem own_judoRead_ (fuel : ℕ) (server : JudoServer) (n : ssl_node) (t_poll : pollfd) (t_out_buf : ℕ) :
    Prog.Only (fun o => own n o = true) (judoRead_ fuel server n t_poll t_out_buf) := by
  have hcopy : ∀ (out_buf : ℕ) (packet_buffer : Buffer) (k : ℕ) (i index : ℤ),
      Prog.Only (fun o => own n o = true) (judoRead_.copy out_buf packet_buffer k i index) := by
    intro out_buf packet_buffer k
    induction k with
    | zero => exact fun _ _ => trivial
    | succ k ih => exact fun _ _ => .step rfl fun _ => ih _ _
  have hloop : ∀ (buffer : ℕ) (packet_buf_size : ℤ) (fuel : ℕ) (packet_buffer : Buffer) (t_out_buf : ℕ) (index t_outbuf_size : ℤ),
      Prog.Only (fun o => own n o = true)
        (judoRead_.loop server n t_poll buffer packet_buf_size fuel packet_buffer t_out_buf index t_outbuf_size) := by
    intro buffer packet_buf_size fuel
    -- by the rounds, each of which reads, unseals, reserves and copies
    induction fuel with
    | zero => exact fun _ _ _ _ => trivial
    | succ fuel ih =>
        intro packet_buffer t_out_buf index t_outbuf_size
        unfold judoRead_.loop
        refine .step (decide_eq_true rfl) fun r => ?_
        split
        · exact Prog.Only.bind (own_judoDisconnect_ ..) fun _ => .step rfl fun _ => trivial
        · refine Prog.Only.bind ?_ fun packet_buffer => ?_
          · unfold judoRead_.unseal
            split
            · next hcerts =>
                have hread : own n (.SSL_read n.ssl packet_buf_size) = true := by
                  rw [own, hcerts, decide_eq_true rfl, Bool.and_self]
                exact .step rfl fun _ => .step hread fun _ => trivial
            · trivial
          dsimp only
          generalize packet_buffer.int32 0 = a, packet_buffer.int32 4 = b, (packet_buf_size - 40).toNat = k
          refine Prog.Only.bind ?_ fun out => ?_
          · unfold judoRead_.reserve
            generalize toInt32 (b * packet_buf_size) = size
            split
            · split
              · trivial
              · exact .step rfl fun _ => trivial
            · trivial
          cases out with
          | none => trivial
          | some out =>
              refine Prog.Only.bind (hcopy ..) fun _ => ?_
              split
              · exact ih _ _ _ _
              · exact .step rfl fun _ => .step rfl fun _ => trivial
  unfold judoRead_
  refine .step rfl fun _ => .step rfl fun index => ?_
  generalize n.bufferSize = packet_buf_size
  exact Prog.Only.step rfl fun packet_buffer => hloop ..

theorem own_judoHandshake_ (n : ssl_node) (t_buffer_size : ℤ) (fuel : ℕ) :
    Prog.Only (fun o => own n o = true) (judoHandshake_ n t_buffer_size fuel) := by
  induction fuel with
  | zero => trivial
  | succ fuel ih =>
      unfold judoHandshake_
      refine .step rfl fun finished => ?_
      split
      · exact .step rfl fun _ => trivial
      · refine .step rfl fun _ => .step rfl fun w => ?_
        split
        · exact .step rfl fun _ => ih
        · refine .step (decide_eq_true rfl) fun r => ?_
          split
          · exact .step rfl fun _ => ih
          · split
            · trivial
            · exact ih

/-- More rounds than were needed change nothing. -/
theorem runs_loop_succ {server : JudoServer} {t_poll : pollfd} {buffer : ℕ} {packet_buf_size : ℤ}
    {r : JudoServer × ℤ × ℕ × ℤ} (fuel : ℕ) : ∀ {packet_buffer : Buffer} {t_out_buf : ℕ} {index t_outbuf_size : ℤ}
      {tr : List (Event Op Ans)},
      Prog.Runs (judoRead_.loop server n t_poll buffer packet_buf_size fuel packet_buffer t_out_buf index t_outbuf_size) tr (some r) →
        Prog.Runs (judoRead_.loop server n t_poll buffer packet_buf_size (fuel + 1) packet_buffer t_out_buf index t_outbuf_size) tr
          (some r) := by
  -- by the rounds: a record of a call that returns leaves no choice in any of them
  induction fuel with
  | zero => exact fun h => absurd h.2.symm (Option.some_ne_none r)
  | succ fuel ih =>
      intro packet_buffer t_out_buf index t_outbuf_size tr h
      rw [judoRead_.loop] at h ⊢
      obtain ⟨x, tr, rfl, hround⟩ := Prog.runs_step.mp h
      refine Prog.runs_step.mpr ⟨x, tr, rfl, ?_⟩
      by_cases hx : bytesRead x ≤ 0
      · rw [if_pos hx] at hround ⊢
        exact hround
      rw [if_neg hx] at hround ⊢
      obtain ⟨tr₁, tr₂, q, rfl, hunseal, hcounts⟩ := Prog.runs_bind.mp hround
      refine Prog.runs_bind.mpr ⟨tr₁, tr₂, q, rfl, hunseal, ?_⟩
      obtain ⟨tr₃, tr₄, out, rfl, hreserve, hrest⟩ := Prog.runs_bind.mp hcounts
      refine Prog.runs_bind.mpr ⟨tr₃, tr₄, out, rfl, hreserve, ?_⟩
      cases out with
      | none => exact absurd hrest.2.symm (Option.some_ne_none r)
      | some out =>
          dsimp only at hrest ⊢
          generalize (packet_buf_size - 40).toNat = k, q.int32 0 = a, q.int32 4 = b at hrest ⊢
          obtain ⟨tr₅, tr₆, u, rfl, hcopy, hend⟩ := Prog.runs_bind.mp hrest
          refine Prog.runs_bind.mpr ⟨tr₅, tr₆, u, rfl, hcopy, ?_⟩
          by_cases hmore : a ≠ b
          · rw [if_pos hmore] at hend ⊢
            exact ih hend
          · rw [if_neg hmore] at hend ⊢
            exact hend

/-- A call that has returned would have returned the same with more rounds. -/
theorem runs_judoRead_add {server : JudoServer} {t_poll : pollfd} {t_out_buf : ℕ} {tr : List (Event Op Ans)}
    {r : JudoServer × ℤ × ℕ × ℤ} {fuel : ℕ} (h : Prog.Runs (judoRead_ fuel server n t_poll t_out_buf) tr (some r)) (k : ℕ) :
    Prog.Runs (judoRead_ (fuel + k) server n t_poll t_out_buf) tr (some r) := by
  obtain ⟨u, tr, rfl, hindex⟩ := Prog.runs_step.mp h
  obtain ⟨index, tr, rfl, hnew⟩ := Prog.runs_step.mp hindex
  obtain ⟨packet_buffer, tr, rfl, hloop⟩ := Prog.runs_step.mp hnew
  refine Prog.runs_step.mpr ⟨u, _, rfl, Prog.runs_step.mpr ⟨index, _, rfl, Prog.runs_step.mpr ⟨packet_buffer, _, rfl, ?_⟩⟩⟩
  induction k with
  | zero => exact hloop
  | succ k ih => exact runs_loop_succ _ ih

/-- A turn of the node takes the packets of one message off its link, and stores it. -/
theorem delivers_judoRead_ (hB : 64 ≤ n.bufferSize) {server server' : JudoServer} {t_poll : pollfd} {m : Buffer × ℕ}
    (hfit : InInt32 (packetCount n.bufferSize m.2 * n.bufferSize)) {c rest : List Packet} (hc : Carried n.certs n.bufferSize m c)
    {l l' : Link} (hflying : l.flying = c ++ rest) {fuel t_out_buf t_out_buf' : ℕ} {ret size : ℤ} {tr : List (Event Op Ans)}
    (hruns : Prog.Runs (judoRead_ fuel server n t_poll t_out_buf) tr (some (server', ret, t_out_buf', size)))
    (htakes : l.takes tr = some l') :
    ret = 0 ∧ l'.flying = rest ∧ ∃ out, stores tr = placed out 0 (delivered n.bufferSize m.1 m.2) := by
  have hmore := runs_judoRead_add hruns (packetCount n.bufferSize m.2)
  obtain ⟨out, hret, hrest, hstores⟩ := runs_judoRead_ hB hfit (Nat.le_add_left ..) hc hflying hmore htakes
  obtain ⟨-, hret⟩ := Prod.mk.inj (Option.some.inj hret)
  exact ⟨(Prod.mk.inj hret).1, hrest, out, hstores⟩

/-! ## A new connection

Accepting goes through a handshake of its own and adds a row with its own socket, so the
connection that is looked at receives nothing in the meantime. -/

/-- What takes nothing off a link receives nothing. -/
theorem receives_of_not_take {o : Op} (h : Link.isTake o = false) : receives n o = false := by
  rw [receives, h, Bool.false_and]

theorem isTake_of_filling (o : Op) (ho : filling o = true) : Link.isTake o = false := by
  cases o <;> first | rfl | exact absurd ho Bool.false_ne_true

theorem isTake_of_sending (o : Op) (ho : sending o = true) : Link.isTake o = false := by
  cases o <;> first | rfl | exact absurd ho Bool.false_ne_true

/-- The greeting is only sent. -/
theorem takesNothing_greet (server : JudoServer) (m : ssl_node) (buffer : ℕ) :
    Prog.Only (fun o => Link.isTake o = false) (judoAccept_.greet server m buffer) := by
  unfold judoAccept_.greet
  refine .step rfl fun _ => .step rfl fun _ => .step rfl fun _ => ?_
  exact Prog.Only.bind (Prog.Only.mono isTake_of_sending (sending_judoSend_ ..)) fun _ => .step rfl fun _ => trivial

/-- So the greeting receives nothing. -/
theorem receives_greet {server : JudoServer} {buffer : ℕ} {tr : List (Event Op Ans)} {r : Option (JudoServer × ℤ)}
    (h : Prog.Runs (judoAccept_.greet server m buffer) tr r) : ∀ ev ∈ tr, receives n ev.op = false :=
  fun ev hev => receives_of_not_take ((takesNothing_greet server m buffer).of_runs h ev hev)

/-- Its handshake is on its own socket. -/
theorem Foreign.receives_judoHandshake_ (h : Foreign n m) {t_buffer_size : ℤ} {fuel : ℕ} {tr : List (Event Op Ans)} {ret : Option ℤ}
    (hruns : Prog.Runs (judoHandshake_ m t_buffer_size fuel) tr ret) : ∀ ev ∈ tr, receives n ev.op = false := by
  intro ev hev
  refine h.not_receives ((own_judoHandshake_ m t_buffer_size fuel).of_runs hruns ev hev) fun ho => ?_
  have hshaking := (shaking_judoHandshake_ m t_buffer_size fuel).of_runs hruns ev hev
  rw [ho] at hshaking
  cases hshaking

theorem filling_acceptFill (server : JudoServer) (node : ssl_node) :
    Prog.Only (fun o => filling o = true) (judoAccept_.fill server node) := by
  unfold judoAccept_.fill
  split
  · exact filling_judoFillServerSSLFields_ ..
  · trivial

/-- Filling in the fields of a new node does not either. -/
theorem receives_fill {server : JudoServer} {node : ssl_node} {tr : List (Event Op Ans)} {filled : ssl_node × ℤ}
    (h : Prog.Runs (judoAccept_.fill server node) tr filled) : ∀ ev ∈ tr, receives n ev.op = false :=
  fun ev hev => receives_of_not_take (isTake_of_filling _ ((filling_acceptFill server node).of_runs h ev hev))

/-- A node with certificates has an `SSL` of its own. -/
theorem ssl_of_fill {server : JudoServer} (hconf : Configured server) {node : ssl_node} {tr : List (Event Op Ans)}
    {filled : ssl_node × ℤ} (h : Prog.Runs (judoAccept_.fill server node) tr filled) (hret : filled.2 = JUDO_SUCCESS)
    (hcerts : ({ filled.1 with mode := server.connectionMode } : ssl_node).certs = true) :
    ∃ ctx, (⟨.SSL_new ctx, filled.1.ssl⟩ : Event Op Ans) ∈ tr := by
  have htls : server.m_mode &&& JUDO_MODE_SSL_ENABLED ≠ 0 := by
    by_cases hserver : server.m_mode &&& JUDO_MODE_SERVER_CERTS_REQ ≠ 0
    · exact hconf.together _ (mem_certFlags.mpr (.inl rfl)) hserver
    by_cases hclient : server.m_mode &&& JUDO_MODE_CLIENT_CERTS_REQ ≠ 0
    · exact hconf.together _ (mem_certFlags.mpr (.inr rfl)) hclient
    · have hplain : (0x0A : Byte) &&& (JUDO_CON_SERVER_CERTS ||| JUDO_CON_CLIENT_CERTS) = 0 := by decide
      rw [connectionMode_eq hconf, if_neg hserver, if_neg hclient] at hcerts
      exact absurd hplain (of_decide_eq_true hcerts)
  unfold judoAccept_.fill at h
  rw [if_pos htls] at h
  cases runs_judoFillServerSSLFields_ h with
  | refused ctx ret hne => exact absurd hret hne
  | filled ctx ssl read_bio write_bio hfile hmade =>
      have hmem : (⟨.SSL_new ctx, ssl⟩ : Event Op Ans) ∈ tlsEvents tr := by
        rw [hmade]
        exact List.mem_cons_of_mem _ (List.mem_singleton_self _)
      exact ⟨ctx, List.mem_of_mem_filter hmem⟩

/-- **`judoAccept_`** receives nothing on the connection, and adds a foreign node if any. -/
theorem foreign_judoAccept_ {server server' : JudoServer} (hconf : Configured server) {fuel : ℕ} {tr : List (Event Op Ans)}
    {ret : ℤ} (h : Prog.Runs (judoAccept_ (judoHandshake_ · · fuel) server) tr (some (server', ret)))
    (hkeeps : ∀ ev ∈ tr, Keeps n ev) :
    (∀ ev ∈ tr, receives n ev.op = false) ∧ (server' = server ∨ ∃ m, Foreign n m
      ∧ server' = { server with m_ssl_nodes := server.m_ssl_nodes.add ⟨m.fp, POLLIN, 0⟩ m }) := by
  cases judoAccept_.call h with
  | @unfilled node filled trᵢ hfill hret =>
      refine ⟨?_, .inl rfl⟩
      exact List.forall_mem_cons.mpr ⟨rfl, List.forall_mem_append.mpr ⟨receives_fill hfill, by simp [receives, Link.isTake]⟩⟩
  | @filled node filled trᵢ tr server' ret hfill hfilled hway =>
      obtain ⟨-, hkeeps⟩ := List.forall_mem_cons.mp hkeeps
      obtain ⟨hkeepsᵢ, hkeeps⟩ := List.forall_mem_append.mp hkeeps
      generalize hnode : ({ filled.1 with mode := server.connectionMode } : ssl_node) = new_node at hway
      have hforeign : ∀ {fp : ℤ}, fp ≠ n.fp → Foreign n { new_node with fp := fp } := by
        intro fp hfp
        refine ⟨hfp, fun hn hcerts => ?_⟩
        subst hnode
        obtain ⟨ctx, hmem⟩ := ssl_of_fill hconf hfill hfilled hcerts
        exact hkeepsᵢ _ hmem hn
      have hasked : ∀ {buffer : ℕ × Buffer} {fp w : ℤ} {r : Option (List Byte)}, fp ≠ n.fp →
          ∀ ev ∈ judoAccept_.asked server new_node buffer fp w r, receives n ev.op = false := by
        intro buffer fp w r hfp
        simp [judoAccept_.asked, receives, Link.isTake, own, hfp]
      -- the handshake and the greeting are those of the new node; what is left is that this one is
      -- foreign
      suffices hrest : (∀ ev ∈ tr, receives n ev.op = false) ∧ (server' = server ∨ ∃ m, Foreign n m
          ∧ server' = { server with m_ssl_nodes := server.m_ssl_nodes.add ⟨m.fp, POLLIN, 0⟩ m }) from
        ⟨List.forall_mem_cons.mpr ⟨rfl, List.forall_mem_append.mpr ⟨receives_fill hfill, hrest.1⟩⟩, hrest.2⟩
      cases hway with
      | unwritten hw => exact ⟨by simp [receives, Link.isTake], .inl rfl⟩
      | @refused buffer fp w r hw hr =>
          have hfp : fp ≠ n.fp := hkeeps ⟨.accept server.m_server_list_sock, fp⟩ (by simp [judoAccept_.asked])
          exact ⟨List.forall_mem_append.mpr ⟨hasked hfp, by simp [receives, Link.isTake]⟩, .inl rfl⟩
      | @unshaken buffer fp w r out fd trₕ hw hr hcerts hhand hout =>
          have hfp : fp ≠ n.fp := hkeeps ⟨.accept server.m_server_list_sock, fp⟩ (by simp [judoAccept_.asked])
          refine ⟨List.forall_mem_append.mpr ⟨hasked hfp, List.forall_mem_append.mpr ⟨?_, by simp [receives, Link.isTake]⟩⟩, .inl rfl⟩
          exact (hforeign hfp).receives_judoHandshake_ hhand
      | @shaken buffer fp w r trₕ tr server' ret hw hr hcerts hhand hgreet =>
          have hfp : fp ≠ n.fp := hkeeps ⟨.accept server.m_server_list_sock, fp⟩ (by simp [judoAccept_.asked])
          refine ⟨List.forall_mem_append.mpr ⟨hasked hfp, List.forall_mem_append.mpr ⟨?_, receives_greet hgreet⟩⟩, ?_⟩
          · exact (hforeign hfp).receives_judoHandshake_ hhand
          · exact .inr ⟨_, hforeign hfp, (runs_greet hgreet).1⟩
      | @plain buffer fp w r tr server' ret hw hr hcerts hgreet =>
          have hfp : fp ≠ n.fp := hkeeps ⟨.accept server.m_server_list_sock, fp⟩ (by simp [judoAccept_.asked])
          refine ⟨List.forall_mem_append.mpr ⟨hasked hfp, receives_greet hgreet⟩, ?_⟩
          exact .inr ⟨_, hforeign hfp, (runs_greet hgreet).1⟩

/-! ## The table

Which nodes the table has is all that matters here, and not in which row a node is. -/

section Table

variable {d : DualDynamicArray pollfd ssl_node} {rows : List (pollfd × ssl_node)}

/-- They are those of the rows. -/
theorem tableNodes_of_rep (hrep : d.Rep rows) : tableNodes d = rows.map Prod.snd := by
  rw [tableNodes, hrep.rows_eq]

/-- A store to `revents` leaves the nodes. -/
theorem tableNodes_modifyFirst (hrep : d.Rep rows) (k : ℕ) (f : pollfd → pollfd) :
    tableNodes (d.modifyFirst k f) = tableNodes d := by
  rw [tableNodes_of_rep hrep]
  by_cases hk : k < rows.length
  · rw [tableNodes_of_rep (hrep.modifyFirst hk f)]
    exact DualDynamicArray.map_set_row hk rfl
  · exact tableNodes_of_rep (hrep.modifyFirst_beyond (Nat.le_of_not_lt hk) f)

/-- Polling leaves the nodes. -/
theorem tableNodes_mapFirst (hrep : d.Rep rows) (f : ℕ → pollfd → pollfd) : tableNodes (d.mapFirst f) = tableNodes d := by
  rw [tableNodes_of_rep hrep, tableNodes_of_rep (hrep.mapFirst f)]
  refine List.ext_getElem (by simp) fun i hi hi' => ?_
  rw [List.getElem_map, List.getElem_mapIdx, List.getElem_map]

theorem tableNodes_add (hrep : d.Rep rows) (p : pollfd) (m : ssl_node) : tableNodes (d.add p m) = tableNodes d ++ [m] := by
  rw [tableNodes_of_rep hrep, tableNodes_of_rep (DualDynamicArray.add_spec hrep p m).1, List.map_append]
  rfl

/-- Removing a row adds none. -/
theorem mem_tableNodes_of_remove (hrep : d.Rep rows) (p : pollfd) (hm : m ∈ tableNodes (d.remove compare_pollfd p)) :
    m ∈ tableNodes d := by
  rcases DualDynamicArray.find_spec compare_pollfd hrep p with ⟨hnone, -⟩ | ⟨k, hk, hfind, -⟩
  · rwa [DualDynamicArray.remove, if_neg (not_not.mpr hnone)] at hm
  · rw [tableNodes_of_rep (DualDynamicArray.remove_spec hrep hk hfind)] at hm
    rw [tableNodes_of_rep hrep]
    obtain ⟨row, hrow, rfl⟩ := List.mem_map.mp hm
    exact List.mem_map_of_mem (List.mem_of_mem_eraseIdx ((DualDynamicArray.perm_removeRow rows k hk).subset hrow))

/-- A foreign node can be added. -/
theorem Among.add (h : Among n d) (hrep : d.Rep rows) (p : pollfd) (hm : m = n ∨ Foreign n m) : Among n (d.add p m) := by
  unfold Among
  rw [tableNodes_add hrep]
  exact List.forall_mem_append.mpr ⟨h, List.forall_mem_singleton.mpr hm⟩

theorem Among.remove (h : Among n d) (hrep : d.Rep rows) (p : pollfd) : Among n (d.remove compare_pollfd p) :=
  fun m hm => h m (mem_tableNodes_of_remove hrep p hm)

theorem Among.of_tableNodes {d' : DualDynamicArray pollfd ssl_node} (h : Among n d) (hsame : tableNodes d' = tableNodes d) :
    Among n d' := by
  unfold Among
  rw [hsame]
  exact h

/-- The requests that are handed in bring no other node with the connection. -/
theorem Among.load (requests : List judo_request_node) : ∀ {server : JudoServer} {rows : List (pollfd × ssl_node)},
    server.m_ssl_nodes.Rep rows → Among n server.m_ssl_nodes → (∀ r ∈ requests, r.ssl_info = n ∨ Foreign n r.ssl_info) →
      Among n (run.load server requests).m_ssl_nodes := by
  induction requests with
  | nil => exact fun _ h _ => h
  | cons current queue ih =>
      intro server rows hrep h hall
      obtain ⟨hcurrent, hqueue⟩ := List.forall_mem_cons.mp hall
      unfold run.load
      split
      · exact ih (DualDynamicArray.add_spec hrep ..).1 (h.add hrep _ hcurrent) hqueue
      · exact ih hrep h hqueue

end Table

/-! ## An iteration

It is a turn of the node when it reads from it. Any other iteration receives nothing on the
connection. -/

/-- The loop's own accesses take nothing. -/
theorem isTake_of_access (o : Op) (ho : isAccess o = true) : Link.isTake o = false := by
  cases o <;> first | rfl | exact absurd ho Bool.false_ne_true

theorem stores_of_access {tr : List (Event Op Ans)} (h : ∀ ev ∈ tr, isAccess ev.op = true) : stores tr = [] := by
  refine List.filterMap_eq_nil_iff.mpr fun ev hev => ?_
  have haccess := h ev hev
  obtain ⟨o, x⟩ := ev
  cases o with
  | access arrays index m_arrays m_size => rfl
  | _ => cases haccess

theorem stores_discarded (current_node : ssl_node) (ret : ℤ) (buffer : ℕ) (buffer_size : ℤ) :
    stores (run.discarded current_node ret buffer buffer_size) = [] := by
  unfold run.discarded
  by_cases hsize : buffer_size = -1
  · rw [if_pos hsize]
    rfl
  · rw [if_neg hsize]
    rfl

/-- So they leave the link as it is. -/
theorem takes_of_access {tr : List (Event Op Ans)} (h : ∀ ev ∈ tr, isAccess ev.op = true) (l : Link) :
    l.takes (watch (receives n) tr) = some l :=
  Link.takes_of_not fun ev hev => isTake_of_access _ (h ev (List.mem_of_mem_filter hev))

/-- Clearing a row leaves the nodes. -/
theorem tableNodes_clear {s s' : Round} {tr : List (Event Op Ans)} (h : Prog.Runs s.clear tr s') {rows : List (pollfd × ssl_node)}
    (hrep : s.table.Rep rows) : (∃ rows', s'.table.Rep rows') ∧ tableNodes s'.table = tableNodes s.table := by
  obtain ⟨x, tr, rfl, rfl, rfl⟩ := h
  split
  · refine ⟨?_, tableNodes_modifyFirst hrep _ _⟩
    by_cases hk : s.index.toNat < rows.length
    · exact ⟨_, hrep.modifyFirst hk _⟩
    · exact ⟨_, hrep.modifyFirst_beyond (Nat.le_of_not_lt hk) _⟩
  · exact ⟨⟨rows, hrep⟩, rfl⟩

/-- The nodes of the table after it. -/
theorem Among.serve {s s₁ : Round} {rows : List (pollfd × ssl_node)} (hamong : Among n s.table) (hrep : s.table.Rep rows)
    (hconf : Configured s.server) {fuel : ℕ} {p : pollfd} {tr : List (Event Op Ans)} {act : Act}
    (hserve : ServeRun fuel s p m tr s₁ act) (hkeeps : ∀ ev ∈ tr, Keeps n ev) :
    (∃ rows', s₁.table.Rep rows') ∧ Among n s₁.table := by
  cases hserve with
  | idle hrevents => exact ⟨⟨rows, hrep⟩, hamong⟩
  | accept hrevents hfd haccept =>
      rcases (foreign_judoAccept_ hconf haccept (List.forall_mem_cons.mp hkeeps).2).2 with rfl | ⟨m', hm', rfl⟩
      · exact ⟨⟨rows, hrep⟩, hamong⟩
      · exact ⟨⟨_, (DualDynamicArray.add_spec hrep ..).1⟩, hamong.add hrep _ (.inr hm')⟩
  | @read trc tr' s₂ x server ret size buffer hrevents hfd hclear hread =>
      obtain ⟨⟨rows₂, hrep₂⟩, hsame⟩ := tableNodes_clear hclear hrep
      have hamong₂ := hamong.of_tableNodes hsame
      rcases runs_reads hread with ⟨rfl, rfl, -⟩ | ⟨rfl, rfl, -⟩
      · rw [if_neg (by decide)]
        exact ⟨⟨rows₂, hrep₂⟩, hamong₂⟩
      · rw [if_pos rfl]
        refine ⟨?_, hamong₂.remove hrep₂ p⟩
        -- where no row has the descriptor the table is what it was
        rcases DualDynamicArray.find_spec compare_pollfd hrep₂ p with ⟨hnone, -⟩ | ⟨k, hk, hfind, -⟩
        · refine ⟨rows₂, ?_⟩
          show (s₂.table.remove compare_pollfd p).Rep rows₂
          rwa [DualDynamicArray.remove, if_neg (not_not.mpr hnone)]
        · exact ⟨_, DualDynamicArray.remove_spec hrep₂ hk hfind⟩

/-- What it receives: nothing unless it is a turn of the node, and then a message. -/
structure Turned (n : ssl_node) (turn : Outcome × List (Event Op Ans)) (l l' : Link) : Prop where
  other : turn.1.isTurn n = false → l' = l
  flying : turn.1.isTurn n = true → l.flying ≠ []
  turn : turn.1.isTurn n = true → ∀ {m : Buffer × ℕ} {c rest : List Packet}, InInt32 (packetCount n.bufferSize m.2 * n.bufferSize) →
    Carried n.certs n.bufferSize m c → l.flying = c ++ rest → Stored n m turn ∧ l'.flying = rest

/-- An iteration that is no turn of the node should leave the link as it was. -/
theorem turned_of_other {turn : Outcome × List (Event Op Ans)} {l l' : Link} (hturn : turn.1.isTurn n = false) (hsame : l' = l) :
    Turned n turn l l' := by
  refine ⟨fun _ => hsame, fun h => ?_, fun h => ?_⟩
  · rw [hturn] at h
    cases h
  · rw [hturn] at h
    cases h

/-- Serving a row takes a message off the link if it is a turn of the node, and nothing if
not. -/
theorem turned_serve (hB : 64 ≤ n.bufferSize) {s s₁ : Round} (hconf : Configured s.server) {fuel : ℕ} {p : pollfd}
    (hm : m = n ∨ Foreign n m) {tr : List (Event Op Ans)} {act : Act} (hserve : ServeRun fuel s p m tr s₁ act)
    (hkeeps : ∀ ev ∈ tr, Keeps n ev) {l l' : Link} (htakes : l.takes (watch (receives n) tr) = some l') :
    Turned n (.served act, tr) l l' := by
  -- by what is done for the row: nothing, an accept, or a read for this node or a foreign one
  cases hserve with
  | idle hrevents => exact turned_of_other rfl (Option.some.inj htakes).symm
  | accept hrevents hfd haccept =>
      have hnothing := (foreign_judoAccept_ hconf haccept (List.forall_mem_cons.mp hkeeps).2).1
      refine turned_of_other rfl (takes_others (List.forall_mem_cons.mpr ⟨fun h => ?_, fun ev hev h => ?_⟩) htakes)
      · cases h
      · rw [hnothing ev hev] at h
        cases h
  | @read trc tr' s₂ x server ret size buffer hrevents hfd hclear hread =>
      have hown := (own_judoRead_ fuel s₂.server m p x.toNat).of_runs hread
      rcases hm with rfl | hforeign
      · -- the packets are taken by `judoRead_`
        have hall : ∀ ev ∈ trc ++ ⟨.indeterminate, x⟩ :: (tr' ++ run.discarded m ret buffer size), own m ev.op = true := by
          refine List.forall_mem_append.mpr ⟨fun ev hev => ?_, List.forall_mem_cons.mpr ⟨rfl, ?_⟩⟩
          · have haccess := access_clear hclear ev hev
            revert haccess
            cases ev.op <;> first | exact fun _ => rfl | exact fun h => absurd h Bool.false_ne_true
          · exact List.forall_mem_append.mpr ⟨hown, forall_discarded (P := fun o => own m o = true) (fun _ _ => rfl) (fun _ => rfl) rfl
              m ret buffer size⟩
        rw [takes_receives hall] at htakes
        obtain ⟨l₁, htakes₁, htakes₂⟩ := Link.takes_split htakes
        rw [Link.takes_of_not fun ev hev => isTake_of_access _ (access_clear hclear ev hev)] at htakes₁
        obtain rfl := Option.some.inj htakes₁
        obtain ⟨l₂, htake, htakes₃⟩ := Link.takes_cons htakes₂
        obtain ⟨-, rfl⟩ := Link.take_indeterminate htake
        obtain ⟨l₃, hreads, hend⟩ := Link.takes_split htakes₃
        rw [Link.takes_of_not (forall_discarded (P := fun o => Link.isTake o = false) (fun _ _ => rfl) (fun _ => rfl) rfl m ret buffer size)] at hend
        obtain rfl := Option.some.inj hend
        have hstores : stores (trc ++ ⟨.indeterminate, x⟩ :: (tr' ++ run.discarded m ret buffer size)) = stores tr' := by
          rw [stores_append, stores_of_access (access_clear hclear), stores_cons, stores_append, stores_discarded]
          exact List.append_nil _
        refine ⟨fun h => ?_, fun _ hnil => ?_, fun _ {msg c rest} hfit hc hflying => ?_⟩
        · exact absurd h (by simp [Outcome.isTurn])
        · rw [not_takes_judoRead_ (Nat.succ_pos fuel) hnil (runs_judoRead_add hread 1)] at hreads
          cases hreads
        · obtain ⟨rfl, hrest, out, hout⟩ := delivers_judoRead_ hB hfit hc hflying hread hreads
          exact ⟨⟨(p, m), out, rfl, hstores.trans hout⟩, hrest⟩
      · -- another connection
        refine turned_of_other (decide_eq_false fun heq => hforeign.fp (congrArg ssl_node.fp heq)) (takes_others ?_ htakes)
        refine List.forall_mem_append.mpr ⟨fun ev hev h => ?_, List.forall_mem_cons.mpr ⟨fun _ => rfl, ?_⟩⟩
        · rw [receives_of_not_take (isTake_of_access _ (access_clear hclear ev hev))] at h
          cases h
        · refine List.forall_mem_append.mpr ⟨fun ev hev h => ?_, fun ev hev h => ?_⟩
          · by_contra hne
            rw [hforeign.not_receives (hown ev hev) hne] at h
            cases h
          · have hnot : Link.isTake ev.op = false :=
              forall_discarded (P := fun o => Link.isTake o = false) (fun _ _ => rfl) (fun _ => rfl) rfl m ret buffer size ev hev
            rw [receives_of_not_take hnot] at h
            cases h

/-! ## Steps and runs

By induction on the steps: the messages stored so far and those still on the link are the
messages that were sent, in their order. -/

variable {st st' : RunState}

/-- **One step** leaves the connection where it is. -/
theorem Hosts.step (h : Hosts n st) {out : Outcome} {tr : List (Event Op Ans)} (hspared : Spared st out)
    (hstep : LoopStep st out tr st') (hkeeps : ∀ ev ∈ tr, Keeps n ev) : Hosts n st' := by
  refine ⟨(step_onRow h.onRow hspared hstep).2, fun server' hserver' => ?_⟩
  have hconf : ∀ server, st.server = some server → Configured server' := fun server hserver =>
    (h.server server hserver).1.of_sameButTable (hstep.sameButTable hserver hserver')
  -- load adds what was asked for, and poll's answers and the cleared revents leave the nodes as they are
  cases hstep with
  | @round server a tr s ha hruns =>
      refine ⟨hconf server rfl, ?_⟩
      obtain ⟨rows, hrep⟩ := h.onRow
      obtain ⟨requests, tr, rfl, polled, tr, rfl, rfl, rfl⟩ := hruns
      obtain rfl := Option.some.inj hserver'
      obtain ⟨rows', hrep'⟩ := rep_load requests hrep
      have hload := (h.server server rfl).2.load requests hrep (hkeeps _ List.mem_cons_self)
      exact hload.of_tableNodes (tableNodes_mapFirst hrep' _)
  | @iteration s s' act tr fuel hgo hruns =>
      refine ⟨hconf s.server rfl, ?_⟩
      obtain ⟨rows, -, hat⟩ := h.onRow
      obtain ⟨i, hi⟩ := hat hgo
      obtain ⟨tr₀, tr₁, tr₂, s₁, rfl, -, -, hserve, hadvance⟩ := serveRun_of_at hi hi.lt hruns
      obtain ⟨-, hkeeps'⟩ := List.forall_mem_append.mp hkeeps
      obtain ⟨⟨rows', hrep'⟩, hamong⟩ := Among.serve (s := { s with array_size := s.table.getSize }) (h.server s.server rfl).2
        hi.rep (h.server s.server rfl).1 hserve (List.forall_mem_append.mp hkeeps').1
      obtain rfl := Option.some.inj hserver'
      rcases runs_advance hadvance with ⟨-, -, rfl⟩ | ⟨-, s₂, hclear, rfl⟩
      · exact hamong
      · exact hamong.of_tableNodes (tableNodes_clear hclear hrep').2
  | halt fuel hgo hruns => exact absurd hserver' (Option.some_ne_none _).symm
  | again hdone => exact h.server server' hserver'

/-- What a step receives on it. -/
theorem Hosts.turned (h : Hosts n st) (hB : 64 ≤ n.bufferSize) {out : Outcome} {tr : List (Event Op Ans)}
    (hstep : LoopStep st out tr st') (hkeeps : ∀ ev ∈ tr, Keeps n ev) (hne : st' ≠ .halted) {l l' : Link}
    (htakes : l.takes (watch (receives n) tr) = some l') : Turned n (out, tr) l l' := by
  cases hstep with
  | round ha hruns =>
      obtain ⟨requests, tr, rfl, polled, tr, rfl, rfl, -⟩ := hruns
      refine turned_of_other rfl (takes_others (List.forall_mem_cons.mpr ⟨fun h => ?_, ?_⟩) htakes)
      · cases h
      · exact List.forall_mem_singleton.mpr fun h => absurd h Bool.false_ne_true
  | @iteration s s' act tr fuel hgo hruns =>
      obtain ⟨rows, -, hat⟩ := h.onRow
      obtain ⟨i, hi⟩ := hat hgo
      have hlt := hi.lt
      obtain ⟨tr₀, tr₁, tr₂, s₁, rfl, hfirst, hlast, hserve, -⟩ := serveRun_of_at hi hlt hruns
      obtain ⟨hconf, hamong⟩ := h.server s.server rfl
      -- the accesses of the loop do not count
      rw [watch_append, Link.takes_append, takes_of_access hfirst, Option.bind_some, watch_append, Link.takes_append] at htakes
      obtain ⟨l₁, htakes₁, htakes₂⟩ := Option.bind_eq_some_iff.mp htakes
      rw [takes_of_access hlast] at htakes₂
      obtain rfl := Option.some.inj htakes₂
      have hnode : rows[i].2 = n ∨ Foreign n rows[i].2 := by
        refine hamong _ ?_
        rw [tableNodes_of_rep hi.rep]
        exact List.mem_map_of_mem (List.getElem_mem hlt)
      have hserved := turned_serve hB (s := { s with array_size := s.table.getSize }) hconf hnode hserve
        (List.forall_mem_append.mp (List.forall_mem_append.mp hkeeps).2).1 htakes₁
      refine ⟨hserved.other, hserved.flying, fun hturn {m c rest} hfit hc hflying => ?_⟩
      obtain ⟨⟨row, out, hact, hstores⟩, hrest⟩ := hserved.turn hturn hfit hc hflying
      refine ⟨⟨row, out, hact, ?_⟩, hrest⟩
      show stores (tr₀ ++ (tr₁ ++ tr₂)) = _
      rw [stores_append, stores_append, stores_of_access hfirst, stores_of_access hlast, List.nil_append, List.append_nil]
      exact hstores
  | halt fuel hgo hruns => exact absurd rfl hne
  | again hdone => exact turned_of_other rfl (Option.some.inj htakes).symm

variable {hist : List (RunState × (Outcome × List (Event Op Ans)))}

theorem turns_snoc (x : RunState × (Outcome × List (Event Op Ans))) :
    turns n (hist ++ [x]) = turns n hist ++ if x.2.1.isTurn n = true then [x.2] else [] := by
  unfold turns
  rw [List.map_append, List.filter_append, List.map_singleton, List.filter_singleton, Bool.cond_eq_ite]

/-- **A run** takes the messages off the link one after the other, a turn for each. -/
theorem Hosts.run (hstart : Hosts n st) (hB : 64 ≤ n.bufferSize) (h : History (fun s l s' => LoopStep s l.1 l.2 s') st hist st')
    (hspared : ∀ x ∈ hist, Spared x.1 x.2.1) (hkeeps : ∀ ev ∈ recordOf hist, Keeps n ev) (hne : st' ≠ .halted)
    {ms : List (Buffer × ℕ)} (hfit : ∀ m ∈ ms, InInt32 (packetCount n.bufferSize m.2 * n.bufferSize)) {cs : List (List Packet)}
    (hcarried : List.Forall₂ (Carried n.certs n.bufferSize) ms cs) {l l' : Link} (hflying : l.flying = cs.flatten)
    (htakes : l.takes (watch (receives n) (recordOf hist)) = some l') :
    Hosts n st' ∧ ∃ got left cs', ms = got ++ left ∧ List.Forall₂ (Stored n) got (turns n hist)
      ∧ List.Forall₂ (Carried n.certs n.bufferSize) left cs' ∧ l'.flying = cs'.flatten := by
  -- by the steps; a turn needs a message on the link, for it would not have returned without one
  induction h generalizing l' with
  | start =>
      obtain rfl := Option.some.inj htakes
      exact ⟨hstart, [], ms, cs, rfl, .nil, hcarried, hflying⟩
  | @step hist s s' x h hstep ih =>
      obtain ⟨hspared, hspared'⟩ := List.forall_mem_append.mp hspared
      rw [recordOf_snoc] at hkeeps htakes
      obtain ⟨hkeeps, hkeeps'⟩ := List.forall_mem_append.mp hkeeps
      rw [watch_append] at htakes
      obtain ⟨l₁, htakes₁, htakes₂⟩ := Link.takes_split htakes
      have hs : s ≠ .halted := by
        rintro rfl
        cases hstep
      obtain ⟨hhosts, got, left, cs', hms, hgot, hleft, hflying₁⟩ := ih hspared hkeeps hs htakes₁
      have hturned := hhosts.turned hB hstep hkeeps' hne htakes₂
      refine ⟨hhosts.step (hspared' _ (List.mem_singleton_self _)) hstep hkeeps', ?_⟩
      cases hturn : x.1.isTurn n with
      | false =>
          rw [turns_snoc, hturn, if_neg Bool.false_ne_true, List.append_nil]
          obtain rfl := hturned.other hturn
          exact ⟨got, left, cs', hms, hgot, hleft, hflying₁⟩
      | true =>
          rw [turns_snoc, hturn, if_pos rfl]
          cases hleft with
          | nil => exact absurd hflying₁ (hturned.flying hturn)
          | @cons m c left cs' hc hleft =>
              have hm : m ∈ ms := by
                rw [hms]
                exact List.mem_append_right _ List.mem_cons_self
              obtain ⟨hdelivers, hrest⟩ := hturned.turn hturn (hfit m hm) hc hflying₁
              refine ⟨got ++ [m], left, cs', ?_, ?_, hleft, hrest⟩
              · rw [hms, List.append_assoc, List.singleton_append]
              · exact List.rel_append hgot (.cons hdelivers .nil)

/-- `Keeps`, as a test. -/
def keepsTest (n : ssl_node) : Event Op Ans → Bool
  | ⟨.accept _, fp⟩ => decide ((fp : ℤ) ≠ n.fp)
  | ⟨.SSL_new _, ssl⟩ => decide (n.certs = true → (ssl : ℕ) ≠ n.ssl)
  | ⟨.dump, requests⟩ => (requests : List judo_request_node).all fun r => decide (r.ssl_info = n ∨ Foreign n r.ssl_info)
  | _ => true

theorem keepsTest_iff (ev : Event Op Ans) : keepsTest n ev = true ↔ Keeps n ev := by
  obtain ⟨o, x⟩ := ev
  cases o with
  | accept fd => exact decide_eq_true_iff
  | SSL_new ctx => exact decide_eq_true_iff
  | dump => exact List.all_eq_true.trans (forall₂_congr fun _ _ => decide_eq_true_iff)
  | _ => exact iff_of_true rfl trivial

instance (n : ssl_node) : DecidablePred (Keeps n) := fun ev => decidable_of_iff _ (keepsTest_iff ev)

end JudoEngine
