/-
How the member functions handle nodes.

For each function, what it does to the nodes that there are: it leaves them alone, gives
one its TLS fields, or comes out with one more. That holds on every way through the
function but the wrong ones: where a node that never got TLS fields is destroyed as if it
had, or where a node is used that has just been destroyed. On these the function does
what it must not, whatever it is answered.
-/
import JudoEngine.JudoServer.ConnectionTable
import JudoEngine.JudoServer.Nodes

set_option autoImplicit false

open Words Lifetime

namespace JudoEngine

/-- The ways out that are wrong. A node is destroyed by `dstr_ssl_node`, which needs its
TLS fields, and on some ways out it is used after that. -/
def Turn.Wrong : Turn → Prop
  | .unwritten tls | .unanswered tls | .unconnected tls | .refused tls => tls = false
  | .acceptUnshaken | .connectUnfilled | .unread | .connectUnshaken | .disconnected => True
  | .stray => False

/-- The row that is read is not one of the table. -/
def Turn.Stray (b : Turn) : Prop := b = .stray

/-- The function only does to nodes what it may, and ends as `Q` says. -/
abbrev Handles {α : Type} (Q : α → Objects TlsField → Prop) (p : NodeSys α) (s : Objects TlsField) : Prop :=
  Behaves Turn.Wrong Turn.Stray Q p s

/-- The mode asks for certificates. -/
def wantsCerts (t_mode : Byte) : Bool := t_mode &&& (JUDO_CON_SERVER_CERTS ||| JUDO_CON_CLIENT_CERTS) ≠ 0

/-! ## Rows

The loop writes to `revents` while it works, and a row that has been written to is still the
same row for what follows. So what is kept of a row is its descriptor and its node. -/

/-- What there is of the rows besides their events. -/
def keys (rows : List (pollfd × ssl_node)) : List (ℤ × ssl_node) := rows.map fun row => (row.1.fd, row.2)

/-- The two servers differ in the `revents` of their rows at most. -/
def Alike (server server' : JudoServer) : Prop :=
  ∃ m_ssl_nodes, server' = { server with m_ssl_nodes := m_ssl_nodes }
    ∧ ∀ rows, server.m_ssl_nodes.Rep rows → ∃ rows', m_ssl_nodes.Rep rows' ∧ keys rows' = keys rows

/-- A row may be replaced by one with the same descriptor and node. -/
theorem keys_set {rows : List (pollfd × ssl_node)} {k : ℕ} (hk : k < rows.length) {row : pollfd × ssl_node}
    (h : (row.1.fd, row.2) = (rows[k].1.fd, rows[k].2)) : keys (rows.set k row) = keys rows :=
  DualDynamicArray.map_set_row hk h

/-- Nothing has been written. -/
theorem Alike.refl (server : JudoServer) : Alike server server := ⟨server.m_ssl_nodes, rfl, fun rows hrep => ⟨rows, hrep, rfl⟩⟩

/-- Two writes after each other. -/
theorem Alike.trans {server server' server'' : JudoServer} (h : Alike server server') (h' : Alike server' server'') :
    Alike server server'' := by
  obtain ⟨d, rfl, hd⟩ := h
  obtain ⟨d', rfl, hd'⟩ := h'
  refine ⟨d', rfl, fun rows hrep => ?_⟩
  obtain ⟨rows', hrep', hkeys⟩ := hd rows hrep
  obtain ⟨rows'', hrep'', hkeys'⟩ := hd' rows' hrep'
  exact ⟨rows'', hrep'', hkeys'.trans hkeys⟩

/-- The store to `revents` is such a write, or it goes beyond the table. -/
theorem alike_clear {r r' : Round} {tr : List (Event Op Ans)} (h : Prog.Runs r.clear tr r') : Alike r.server r'.server := by
  obtain ⟨x, tr, rfl, rfl, rfl⟩ := h
  split
  · refine ⟨_, rfl, fun rows hrep => ?_⟩
    by_cases hi : r.index.toNat < rows.length
    · refine ⟨_, hrep.modifyFirst hi _, ?_⟩
      exact keys_set hi rfl
    · exact ⟨rows, hrep.modifyFirst_beyond (not_lt.mp hi) _, rfl⟩
  · exact .refl _

/-- The end of an iteration may store to `revents` too. -/
theorem alike_advance {r r' : Round} {tr : List (Event Op Ans)} (h : Prog.Runs (run.advance r) tr r') :
    Alike r.server r'.server := by
  rcases runs_advance h with ⟨-, -, rfl⟩ | ⟨-, r₁, hclear, rfl⟩
  · exact .refl _
  · have hcleared := alike_clear hclear
    exact hcleared

namespace Nodes

variable {s : Objects TlsField}

/-- The function leaves the nodes as they are. -/
abbrev LeavesAlone {α : Type} (p : NodeSys α) (s : Objects TlsField) : Prop := Handles (fun _ s' => s' = s) p s

/-- What has its fields is there. -/
theorem live_of_filled {a : ℕ} (h : s.Filled a) : (s a).isSome = true := by
  rw [h]
  rfl

/-- Without notes nothing is done to a node. -/
theorem leavesAlone_lift {α : Type} (p : Sys α) (s : Objects TlsField) : LeavesAlone (lift p) s :=
  Behaves.mono (behaves_lift p s) fun _ _ h => h.1

/-! ## Destroying

`dstr_ssl_node` is the one place where both TLS fields are needed. There are two ways to go
wrong with it: a node without TLS fields, and a use of the node behind it. -/

/-- With both fields set the node is destroyed, and nothing else. -/
theorem handles_dstr_ssl_node {n : ssl_node} (h : s.Filled n.addr) :
    Handles (fun _ s' => s' = Function.update s n.addr none) (dstr_ssl_node n) s := by
  refine .apply h rfl (.op fun _ => .apply h rfl (.op fun _ => .destroy (live_of_filled h) ?_))
  exact fun _ => rfl

/-- The node has no TLS fields. -/
theorem misbehaves_dstr_ssl_node {α : Type} {n : ssl_node} {fields : TlsField → Bool} (h : s n.addr = some fields)
    (hssl : fields .ssl = false) (f : Unit → NodeSys α) : Misbehaves (dstr_ssl_node n >>= f) s :=
  Misbehaves.bind f (misbehaves_apply h hssl)

/-- The node is used when it has been destroyed. -/
theorem misbehaves_use_after {α : Type} (n : ssl_node) (f : Unit → NodeSys α) :
    Misbehaves (dstr_ssl_node n >>= fun _ => note (.use n.addr) >>= f) s := by
  refine .later fun _ => .later fun _ => .later fun _ => ?_
  exact misbehaves_use (Function.update_self ..)

/-! ## TLS

A node starts with neither field set. `ssl_ctx` is set at once, `ssl` only on the way to
success, and so there is a state in between: the failure after which `judoConnect_` still uses
`ssl`. -/

/-- What filling the fields of a node returns is no such code. -/
theorem not_lateCode : ¬ LateCode JUDO_SUCCESS ∧ ¬ LateCode JUDO_READ_CERT_FILE_FAILURE
    ∧ ¬ LateCode JUDO_READ_KEY_FILE_FAILURE := by
  decide

/-- A file that is refused gives the function's code. -/
theorem handles_useFile {use : String → NodeSys ℤ} (huse : ∀ file, LeavesAlone (use file) s) (failure : ℤ)
    (file : Option String) : Handles (fun ret s' => s' = s ∧ (ret ≠ JUDO_SUCCESS → ret = failure)) (useFile use failure file) s := by
  cases file with
  | none => exact ⟨rfl, fun hne => absurd rfl hne⟩
  | some file =>
      refine Behaves.bind (huse file) ?_
      rintro ret s' rfl
      split
      · exact fun _ => ⟨rfl, fun _ => rfl⟩
      · exact ⟨rfl, fun hne => absurd rfl hne⟩

/-- A node is filled, or its `ssl` stays as it is. -/
theorem handles_judoFillGeneralSSLFields_ {n : ssl_node} {fields : TlsField → Bool} (h : s n.addr = some fields)
    (t_cert t_key : Option String) (server_method : Bool) :
    Handles (fun filled s' => filled.1.addr = n.addr ∧ filled.1.mode = n.mode ∧ ¬ LateCode filled.2
        ∧ ∃ fields', s' = Function.update s n.addr (some fields') ∧ fields' .ssl_ctx = true
          ∧ (filled.2 = JUDO_SUCCESS → fields' = fun _ => true) ∧ (filled.2 ≠ JUDO_SUCCESS → fields' .ssl = fields .ssl))
      (judoFillGeneralSSLFields_ n t_cert t_key server_method) s := by
  refine .op fun ctx => .set h ?_
  have hctx : Function.update s n.addr (some (Function.update fields .ssl_ctx true)) n.addr
      = some (Function.update fields .ssl_ctx true) := Function.update_self ..
  have hset : Function.update fields .ssl_ctx true .ssl_ctx = true := Function.update_self ..
  have hssl : Function.update fields .ssl_ctx true .ssl = fields .ssl := Function.update_of_ne (by decide) ..
  refine .apply hctx hset ?_
  have huse : ∀ o : Op, LeavesAlone (note (.apply n.addr .ssl_ctx) >>= fun _ => ask o)
      (Function.update s n.addr (some (Function.update fields .ssl_ctx true))) := fun o => .apply hctx hset fun _ => rfl
  refine Behaves.bind (handles_useFile (fun file => huse (.SSL_CTX_use_certificate_file ctx file)) _ _) ?_
  rintro ret s' ⟨rfl, hfailure⟩
  split
  · next hret =>
      obtain rfl := hfailure hret
      exact ⟨rfl, rfl, not_lateCode.2.1, _, rfl, hset, fun hok => absurd hok hret, fun _ => hssl⟩
  refine Behaves.bind (handles_useFile (fun file => huse (.SSL_CTX_use_PrivateKey_file ctx file)) _ _) ?_
  rintro ret s' ⟨rfl, hfailure⟩
  split
  · next hret =>
      obtain rfl := hfailure hret
      exact ⟨rfl, rfl, not_lateCode.2.2, _, rfl, hset, fun hok => absurd hok hret, fun _ => hssl⟩
  refine .apply hctx hset (.op fun ssl => .set hctx ?_)
  -- now both fields have been set
  have hboth : Function.update (Function.update fields .ssl_ctx true) .ssl true = fun _ => true := by
    funext f
    cases f <;> rfl
  rw [hboth, Function.update_idem]
  have hfilled : Objects.Filled (Function.update s n.addr (some fun _ => true)) n.addr := Function.update_self ..
  have hlive := live_of_filled hfilled
  refine .op fun _ => .use hlive (.op fun _ => .use hlive (.apply hfilled rfl (.op fun _ => ?_)))
  exact ⟨rfl, rfl, not_lateCode.1, _, rfl, rfl, fun _ => rfl, fun hne => absurd rfl hne⟩

/-- As in the general function: the server tests before it uses `ssl`. -/
theorem handles_judoFillServerSSLFields_ {n : ssl_node} {fields : TlsField → Bool} (h : s n.addr = some fields)
    (server : JudoServer) :
    Handles (fun filled s' => filled.1.addr = n.addr ∧ ¬ LateCode filled.2
        ∧ ∃ fields', s' = Function.update s n.addr (some fields') ∧ fields' .ssl_ctx = true
          ∧ (filled.2 = JUDO_SUCCESS → fields' = fun _ => true) ∧ (filled.2 ≠ JUDO_SUCCESS → fields' .ssl = fields .ssl))
      (judoFillServerSSLFields_ server n) s := by
  refine Behaves.bind (handles_judoFillGeneralSSLFields_ h _ _ _) ?_
  rintro filled s' ⟨haddr, -, hcode, fields', rfl, hctx, hok, hfail⟩
  split
  · exact ⟨haddr, hcode, fields', rfl, hctx, hok, hfail⟩
  · next hret =>
      obtain rfl := hok (not_not.mp hret)
      refine .apply (Function.update_self ..) rfl (.op fun _ => ?_)
      exact ⟨haddr, not_lateCode.1, _, rfl, rfl, fun _ => rfl, fun hne => absurd rfl hne⟩

/-- A client's node is filled on every way through the function that is not wrong. -/
theorem handles_judoFillClientSSLFields_ {n : ssl_node} (h : s n.addr = some fun _ => false) (t_cert t_key : Option String) :
    Handles (fun filled s' => filled.1.addr = n.addr ∧ filled.1.mode = n.mode ∧ filled.2 = JUDO_SUCCESS
        ∧ s' = Function.update s n.addr (some fun _ => true))
      (judoFillClientSSLFields_ n t_cert t_key) s := by
  refine Behaves.bind (handles_judoFillGeneralSSLFields_ h _ _ _) ?_
  rintro filled s' ⟨haddr, hmode, -, fields', rfl, -, hok, hfail⟩
  split
  · next hret =>
      -- the state is set of a node that has no `ssl`
      refine .branch (fun _ => ?_) fun hright => absurd trivial hright
      exact misbehaves_apply (Function.update_self ..) (hfail hret)
  · next hret =>
      obtain rfl := hok (not_not.mp hret)
      refine .apply (Function.update_self ..) rfl (.op fun _ => ?_)
      exact ⟨haddr, hmode, not_not.mp hret, rfl⟩

/-- By induction on the rounds: each of them uses the node, and none changes what it has. -/
theorem leavesAlone_judoHandshake_ {n : ssl_node} (h : s.Filled n.addr) (t_buffer_size : ℤ) (fuel : ℕ) :
    LeavesAlone (judoHandshake_ n t_buffer_size fuel) s := by
  have hlive := live_of_filled h
  induction fuel with
  | zero => rfl
  | succ fuel ih =>
      refine .apply h rfl (.op fun finished => ?_)
      split
      · exact .use hlive (.op fun _ => rfl)
      refine .apply h rfl (.op fun _ => .use hlive (.op fun w => ?_))
      split
      · exact .use hlive (.op fun _ => ih)
      refine .use hlive (.op fun r => ?_)
      split
      · exact .use hlive (.op fun _ => ih)
      split
      · rfl
      · exact ih

/-- The listening node; `m_mode` says whether it has been filled. -/
theorem handles_judoSetUpServerSockSSL {server : JudoServer} {fields : TlsField → Bool}
    (h : s server.m_server_list_sock_node.addr = some fields) (t_cert t_private_key : Option String) :
    Handles (fun r s' => r.1.m_server_list_sock_node.addr = server.m_server_list_sock_node.addr
        ∧ ∃ fields', s' = Function.update s server.m_server_list_sock_node.addr (some fields') ∧ fields' .ssl_ctx = true
          ∧ (r.2 = JUDO_SUCCESS → fields' = fun _ => true) ∧ (r.2 ≠ JUDO_SUCCESS → fields' .ssl = fields .ssl))
      (judoSetUpServerSockSSL server t_cert t_private_key) s := by
  refine Behaves.bind (handles_judoFillServerSSLFields_ h _) ?_
  rintro filled s' ⟨haddr, -, fields', rfl, hctx, hok, hfail⟩
  split
  · exact fun _ => ⟨haddr, fields', rfl, hctx, hok, hfail⟩
  · next hret => exact fun _ => ⟨haddr, fields', rfl, hctx, fun _ => hok (not_not.mp hret), fun hne => absurd rfl hne⟩

/-! ## Sending and receiving

On a node that is there and has what its mode asks for, both functions leave all nodes as they
are. The exception is the disconnect, on which nothing right can be said: the lock of the node
outlives it. -/

/-- A node that its connection can use: it has TLS fields if the mode says that it needs
them. -/
structure Usable (s : Objects TlsField) (n : ssl_node) : Prop where
  live : (s n.addr).isSome = true
  filled : n.certs = true → s.Filled n.addr

/-- By induction on the packets. -/
theorem leavesAlone_send_loop {n : ssl_node} (h : Usable s n) (t_buffer : Buffer) (t_size buffer_size packets : ℤ) (k : ℕ) :
    ∀ (i index : ℤ) (buffer : Buffer), LeavesAlone (judoSend_.loop n t_buffer t_size buffer_size packets k i index buffer) s := by
  induction k with
  | zero => exact fun _ _ _ => rfl
  | succ k ih =>
      intro i index buffer
      refine .use h.live ?_
      split
      · next hcerts =>
          refine .apply (h.filled hcerts) rfl (.op fun _ => .use h.live (.op fun r => .use h.live (.op fun _ => ?_)))
          exact ih ..
      · exact .use h.live (.op fun _ => ih ..)

/-- The mutex before and after is a use like any other. -/
theorem leavesAlone_judoSend_ {n : ssl_node} (h : Usable s n) (t_buffer : Buffer) (t_size : ℤ) :
    LeavesAlone (judoSend_ n t_buffer t_size) s := by
  refine .use h.live (.op fun _ => .use h.live (.op fun buffer => ?_))
  refine Behaves.bind (leavesAlone_send_loop h _ _ _ _ _ _ _ _) ?_
  rintro - s' rfl
  exact .op fun _ => .use h.live (.op fun _ => rfl)

/-- TLS is only used where the mode says so, and there the fields are set. -/
theorem leavesAlone_unseal {n : ssl_node} (h : Usable s n) (packet_buf_size bytes_read : ℤ) (packet_buffer : Buffer) :
    LeavesAlone (judoRead_.unseal n packet_buf_size bytes_read packet_buffer) s := by
  refine .use h.live ?_
  split
  · next hcerts => exact .use h.live (.op fun _ => .apply (h.filled hcerts) rfl (.op fun _ => rfl))
  · rfl

/-- The mutex of the node is given back when the node is gone. -/
theorem misbehaves_judoDisconnect_ {α : Type} (server : JudoServer) (n : ssl_node) (t_poll : pollfd) (f : JudoServer → NodeSys α) :
    Misbehaves (judoDisconnect_ server n t_poll >>= fun server => note (.use n.addr) >>= fun _ => f server) s := by
  refine .later fun _ => .later fun _ => ?_
  exact misbehaves_use_after n fun _ => f { server with m_ssl_nodes := server.m_ssl_nodes.remove compare_pollfd t_poll }

/-- What a call of `judoRead_` comes to when it does not disconnect. -/
def Received (server : JudoServer) (s : Objects TlsField) (out : Option (JudoServer × ℤ × ℕ × ℤ)) (s' : Objects TlsField) : Prop :=
  s' = s ∧ ∀ r, out = some r → r.1 = server ∧ r.2.1 = 0

/-- By induction on the rounds. A round that goes on is harmless; the one that disconnects
is wrong whatever follows. -/
theorem handles_read_loop (server : JudoServer) {n : ssl_node} (h : Usable s n) (t_poll : pollfd) (buffer : ℕ)
    (packet_buf_size : ℤ) (fuel : ℕ) : ∀ (packet_buffer : Buffer) (t_out_buf : ℕ) (index t_outbuf_size : ℤ),
    Handles (Received server s)
      (judoRead_.loop server n t_poll buffer packet_buf_size fuel packet_buffer t_out_buf index t_outbuf_size) s := by
  induction fuel with
  | zero => exact fun _ _ _ _ => ⟨rfl, fun _ hnone => absurd hnone (Option.some_ne_none _).symm⟩
  | succ fuel ih =>
      intro packet_buffer t_out_buf index t_outbuf_size
      refine .use h.live (.op fun r => ?_)
      split
      · -- the node is destroyed while its lock is held
        refine .branch (fun _ => ?_) fun hright => absurd trivial hright
        exact misbehaves_judoDisconnect_ server n t_poll _
      · refine Behaves.bind (leavesAlone_unseal h _ _ _) ?_
        rintro packet_buffer s' rfl
        -- whatever the header says
        generalize packet_buffer.int32 0 = a, packet_buffer.int32 4 = b
        refine Behaves.bind (leavesAlone_lift _ _) ?_
        rintro out s' rfl
        rcases out with _ | ⟨out_buf, outbuf_size⟩
        · exact ⟨rfl, fun _ hnone => absurd hnone (Option.some_ne_none _).symm⟩
        refine Behaves.bind (leavesAlone_lift _ _) ?_
        rintro - s' rfl
        split
        · exact ih _ _ _ _
        · exact .op fun _ => .use h.live (.op fun _ => ⟨rfl, fun _ hsome => Option.some.inj hsome ▸ ⟨rfl, rfl⟩⟩)

/-- The same of the call. -/
theorem handles_judoRead_ (fuel : ℕ) (server : JudoServer) {n : ssl_node} (h : Usable s n) (t_poll : pollfd) (t_out_buf : ℕ) :
    Handles (Received server s) (judoRead_ fuel server n t_poll t_out_buf) s := by
  refine .use h.live (.op fun _ => .op fun index => .use h.live (.op fun packet_buffer => ?_))
  exact handles_read_loop server h t_poll _ _ fuel _ _ _ _

/-! ## Opening connections

A call that opens a connection either changes nothing or has added a row with a node that is
its own. `Opened` says so for both functions, with `tls` for what its nodes get: the server's
mode decides it in `judoAccept_`, and `t_mode` in `judoConnect_`. -/

/-- What a call that opens a connection comes to: it changes nothing, or adds a row with a
node of its own; and it has not come to its descriptor too late. `tls` says whether such a node
has its TLS fields. -/
def Opened (tls : Bool) (server : JudoServer) (s : Objects TlsField) (out : Option (JudoServer × ℤ)) (s' : Objects TlsField) :
    Prop :=
  ∀ r, out = some r → ¬ LateCode r.2 ∧ ((tls = true ∧ r.1 = server ∧ s' = s)
    ∨ ∃ n : ssl_node, s n.addr = none ∧ r.1 = { server with m_ssl_nodes := server.m_ssl_nodes.add ⟨n.fp, POLLIN, 0⟩ n }
      ∧ s' = Function.update s n.addr (some fun _ => tls) ∧ (n.certs = true → tls = true))

/-- A call that does not return says nothing. -/
theorem opened_none {tls : Bool} {server : JudoServer} {s' : Objects TlsField} : Opened tls server s none s' :=
  fun _ hnone => absurd hnone (Option.some_ne_none _).symm

/-- A clean failure. -/
theorem opened_unchanged {server : JudoServer} {ret : ℤ} (hret : ¬ LateCode ret) : Opened true server s (some (server, ret)) s := by
  intro r hr
  obtain rfl := Option.some.inj hr
  exact ⟨hret, .inl ⟨rfl, rfl, rfl⟩⟩

section NewNode

variable {tls : Bool} {n : ssl_node}

/-- The nodes with a new one. -/
abbrev withNode (s : Objects TlsField) (n : ssl_node) (tls : Bool) : Objects TlsField :=
  Function.update s n.addr (some fun _ => tls)

/-- The new node is there, ... -/
theorem withNode_self : withNode s n tls n.addr = some fun _ => tls := Function.update_self ..

/-- ... can be used, ... -/
theorem live_new : (withNode s n tls n.addr).isSome = true := by
  rw [withNode_self]
  rfl

/-- ... and is as usable as its mode needs, if certificates come with TLS. -/
theorem usable_new (hcerts : n.certs = true → tls = true) : Usable (withNode s n tls) n where
  live := live_new
  filled h := by rw [Objects.Filled, withNode_self, hcerts h]

/-- A new node is given up again. -/
theorem handles_dstr_new (hfree : s n.addr = none) : Handles (fun _ s' => s' = s) (dstr_ssl_node n) (withNode s n true) := by
  refine Behaves.mono (handles_dstr_ssl_node withNode_self) fun _ s' hs' => ?_
  rw [hs', withNode, Function.update_idem, ← hfree, Function.update_eq_self]

/-- A new node that has no TLS fields cannot be. -/
theorem misbehaves_dstr_new {α : Type} (f : Unit → NodeSys α) : Misbehaves (dstr_ssl_node n >>= f) (withNode s n false) :=
  misbehaves_dstr_ssl_node withNode_self rfl f

/-! ### Accepting

`judoAccept_.negotiate` has three exits on which the node is given up. With TLS they are clean
but for the failed handshake; without TLS each of them is wrong. -/

variable {server : JudoServer}

/-- The row is added. From here on the node belongs to the table. -/
theorem handles_greet (hfree : s n.addr = none) (hcerts : n.certs = true → tls = true) (buffer : ℕ) :
    Handles (Opened tls server s) (judoAccept_.greet server n buffer) (withNode s n tls) := by
  refine .use live_new (.op fun _ => .op fun buffer => .op fun _ => ?_)
  refine Behaves.bind (leavesAlone_judoSend_ (usable_new hcerts) _ _) ?_
  rintro - s' rfl
  refine .op fun _ r hr => ?_
  rw [← Option.some.inj hr]
  exact ⟨not_lateCode.1, .inr ⟨n, hfree, rfl, rfl, hcerts⟩⟩

/-- A failed handshake is wrong: the descriptor is read from the node when it is gone. -/
theorem handles_accept_shaken (hfree : s n.addr = none) (hcerts : n.certs = true → tls = true) (buffer : ℕ) (ret : Option ℤ) :
    Handles (Opened tls server s) (judoAccept_.shaken server n buffer ret) (withNode s n tls) := by
  rcases ret with _ | ret
  · exact opened_none
  refine dite (ret ≠ JUDO_SUCCESS) (fun hret => ?_) fun hret => ?_
  · rw [judoAccept_.shaken, if_pos hret]
    refine .branch (fun _ => ?_) fun hright => absurd trivial hright
    exact fun _ => misbehaves_use_after n _
  · rw [judoAccept_.shaken, if_neg hret]
    exact handles_greet hfree hcerts buffer

/-- Up to the mode byte. Whether giving the node up is wrong depends on TLS alone, so both
exits are one case (`hgiveUp`). -/
theorem handles_accept_negotiate (fuel : ℕ) (hfree : s n.addr = none) (hcerts : n.certs = true → sslEnabled server = true) :
    Handles (Opened (sslEnabled server) server s) (judoAccept_.negotiate fuel server n) (withNode s n (sslEnabled server)) := by
  -- the node is given up: with TLS that is fine
  have hgiveUp : ∀ fp : ℤ, ∀ b : Turn, (b.Wrong ↔ sslEnabled server = false) →
      Handles (Opened (sslEnabled server) server s)
        (do mark b; note (.use n.addr); ask (.close fp); dstr_ssl_node { n with fp := fp }; pure (some (server, JUDO_FAILURE)))
        (withNode s n (sslEnabled server)) := by
    intro fp b hb
    cases htls : sslEnabled server with
    | false =>
        refine .branch (fun _ => ?_) fun hright => absurd (hb.mpr htls) hright
        exact .later fun _ => misbehaves_dstr_new (n := { n with fp := fp }) _
    | true =>
        refine .branch (fun hwrong => ?_) fun _ => .use live_new (.op fun _ => ?_)
        · exact absurd (htls.symm.trans (hb.mp hwrong)) Bool.noConfusion
        · refine Behaves.bind (handles_dstr_new (n := { n with fp := fp }) hfree) ?_
          rintro - s' rfl
          exact opened_unchanged (by decide)
  -- the address, the descriptor, its option and the mode byte
  refine .op fun buffer => .use live_new (.op fun fp => .use live_new (.op fun _ => .use live_new (.op fun ret_val => ?_)))
  split
  · exact hgiveUp fp _ Iff.rfl
  refine .use live_new (.op fun resp => .use live_new (.op fun _ => ?_))
  split
  · split
    · next hncerts =>
        have hfilled := (usable_new (s := s) hcerts).filled hncerts
        refine Behaves.bind (leavesAlone_judoHandshake_ (n := { n with fp := fp }) hfilled _ _) ?_
        rintro ret s' rfl
        exact handles_accept_shaken (n := { n with fp := fp }) hfree hcerts _ ret
    · exact handles_greet (n := { n with fp := fp }) hfree hcerts _
  · exact hgiveUp fp _ Iff.rfl

/-- The fields of the node when `judoAccept_.fill` has returned. -/
theorem handles_acceptFill : Handles (fun filled s' => filled.1.addr = n.addr
      ∧ ∃ fields, s' = Function.update s n.addr (some fields)
        ∧ (filled.2 = JUDO_SUCCESS → fields = fun _ => sslEnabled server)
        ∧ (filled.2 ≠ JUDO_SUCCESS → sslEnabled server = true ∧ ¬ LateCode filled.2)) (judoAccept_.fill server n)
      (withNode s n false) := by
  unfold judoAccept_.fill
  split
  · next hssl =>
      have htls : sslEnabled server = true := decide_eq_true hssl
      refine Behaves.mono (handles_judoFillServerSSLFields_ withNode_self server) ?_
      rintro filled s' ⟨haddr, hcode, fields, rfl, -, hok, -⟩
      rw [withNode, Function.update_idem]
      exact ⟨haddr, fields, rfl, fun hret => htls ▸ hok hret, fun _ => ⟨htls, hcode⟩⟩
  · next hssl =>
      have htls : sslEnabled server = false := decide_eq_false hssl
      exact ⟨rfl, _, rfl, fun _ => htls ▸ rfl, fun hne => absurd rfl hne⟩

/-- An accept. Under TLS it fails cleanly when the fields cannot be set. -/
theorem handles_judoAccept_ (fuel : ℕ)
    (hcerts : ∀ n : ssl_node, n.mode = server.connectionMode → n.certs = true → sslEnabled server = true) :
    Handles (Opened (sslEnabled server) server s) (judoAccept_ fuel server) s := by
  refine .op fun n => .new fun hfree => .use live_new ?_
  refine Behaves.bind handles_acceptFill ?_
  rintro ⟨node, ret⟩ s' ⟨haddr, fields, rfl, hok, hfail⟩
  dsimp only at haddr hok hfail
  split
  · next hret =>
      -- here the source deletes the node itself, without `dstr_ssl_node`
      refine .destroy ?_ (.op fun _ => ?_)
      · rw [Function.update_self]
        rfl
      · rw [Function.update_idem, ← hfree, Function.update_eq_self, (hfail hret).1]
        exact opened_unchanged (hfail hret).2
  · next hret =>
      obtain rfl := hok (not_not.mp hret)
      rw [← haddr] at hfree ⊢
      refine .use live_new ?_
      exact handles_accept_negotiate (n := { node with mode := server.connectionMode }) fuel hfree fun h => hcerts _ rfl h

/-! ### Connecting

The same with the certificate bits of the node in place of the server's mode. A client whose
files are refused is wrong in any case, so behind `judoConnect_.fill` the node is known to be
filled. -/

/-- The bits differ. Here it is the node's own bits that decide. -/
theorem handles_refuse (client : JudoServer) (hfree : s n.addr = none) (buffer : ℕ) {output : ℤ} (hcode : ¬ LateCode output)
    (htls : tls = n.certs) : Handles (Opened tls client s) (judoConnect_.refuse client n buffer output) (withNode s n tls) := by
  rw [htls]
  cases hn : n.certs with
  | false =>
      refine .branch (fun _ => ?_) fun hright => absurd hn hright
      exact .later fun _ => .later fun _ _ => misbehaves_dstr_new _
  | true =>
      refine .branch (fun hwrong => ?_) fun _ => .use live_new (.op fun _ => .use live_new (.op fun _ => .op fun _ => ?_))
      · exact absurd (hn.symm.trans hwrong) Bool.noConfusion
      · refine Behaves.bind (handles_dstr_new hfree) ?_
        rintro - s' rfl
        exact opened_unchanged hcode

/-- The row of the client's end. -/
theorem handles_hello (client : JudoServer) (hfree : s n.addr = none) (hcerts : n.certs = true → tls = true)
    (buffer : ℕ × Buffer) : Handles (Opened tls client s) (judoConnect_.hello client n buffer) (withNode s n tls) := by
  refine .use live_new ?_
  refine Behaves.bind (leavesAlone_judoSend_ (usable_new hcerts) _ _) ?_
  rintro - s' rfl
  refine .op fun _ r hr => ?_
  rw [← Option.some.inj hr]
  exact ⟨not_lateCode.1, .inr ⟨n, hfree, rfl, rfl, hcerts⟩⟩

/-- After the handshake of the client's end, which only a node with TLS gets to. -/
theorem handles_connect_shaken (client : JudoServer) (hfree : s n.addr = none)
    (buffer : ℕ × Buffer) (size : ℤ) (ret : Option ℤ) :
    Handles (Opened true client s) (judoConnect_.shaken client n buffer size ret) (withNode s n true) := by
  rcases ret with _ | ret
  · exact opened_none
  refine dite (ret ≠ JUDO_SUCCESS) (fun hret => ?_) fun hret => ?_
  · rw [judoConnect_.shaken, if_pos hret]
    refine .branch (fun _ => ?_) fun hright => absurd trivial hright
    exact fun _ => misbehaves_use_after n _
  · rw [judoConnect_.shaken, if_neg hret]
    refine .use live_new (.op fun r => .use live_new (.op fun _ => .apply withNode_self rfl (.op fun c => ?_)))
    exact handles_hello client hfree (fun _ => rfl) _

/-- With or without a handshake. -/
theorem handles_join (fuel : ℕ) (client : JudoServer) (hfree : s n.addr = none) (hcerts : n.certs = true → tls = true)
    (buffer : ℕ) : Handles (Opened tls client s) (judoConnect_.join fuel client n buffer) (withNode s n tls) := by
  unfold judoConnect_.join
  generalize shiftOne (0x3F &&& n.mode) = size
  refine .use live_new (.op fun _ => ?_)
  split
  · exact opened_none
  refine .op fun buffer => .use live_new ?_
  split
  · next hncerts =>
      obtain rfl := hcerts hncerts
      refine Behaves.bind (leavesAlone_judoHandshake_ withNode_self _ _) ?_
      rintro ret s' rfl
      exact handles_connect_shaken client hfree buffer size ret
  · exact handles_hello client hfree hcerts buffer

/-- Once the socket is connected. The received mode has the bits of `t_mode` when it is
accepted, so the node keeps what it has. -/
theorem handles_connect_negotiate (fuel : ℕ) (client : JudoServer) (hfree : s n.addr = none) :
    Handles (Opened n.certs client s) (judoConnect_.negotiate fuel client n n.mode) (withNode s n n.certs) := by
  refine .op fun buffer => .use live_new (.op fun r => ?_)
  split
  · -- whatever byte has come in
    generalize buffer.2.fill (Option.getD r []) 0 = mode
    dsimp only
    split
    · exact handles_refuse client hfree _ (by split <;> decide) rfl
    split
    · exact handles_refuse client hfree _ (by split <;> decide) rfl
    next hserver hclient =>
      refine .use live_new (.op fun _ => .op fun _ => ?_)
      refine handles_join (n := { n with mode := mode }) fuel client hfree (fun h => ?_) _
      exact decide_eq_true ((certs_of_mode (n := { n with mode := mode }) ⟨not_not.mp hserver, not_not.mp hclient⟩).mp h)
  · refine .branch (fun _ => ?_) fun hright => absurd trivial hright
    exact fun _ => misbehaves_use_after n _

/-- A node that `judoConnect_.fill` returns is filled: a failure is a wrong way out already. -/
theorem handles_connectFill (t_cert t_key : Option String) (t_mode : Byte) :
    Handles (fun filled s' => filled.1.addr = n.addr ∧ filled.1.mode = t_mode ∧ filled.2 = JUDO_SUCCESS
      ∧ s' = withNode s n (wantsCerts t_mode)) (judoConnect_.fill { n with mode := t_mode } t_cert t_key) (withNode s n false) := by
  unfold judoConnect_.fill
  split
  · next hcerts =>
      have htls : wantsCerts t_mode = true := decide_eq_true hcerts
      refine Behaves.mono (handles_judoFillClientSSLFields_ (n := { n with mode := t_mode }) withNode_self t_cert t_key) ?_
      rintro filled s' ⟨haddr, hmode, hret, rfl⟩
      rw [htls, withNode, Function.update_idem]
      exact ⟨haddr, hmode, hret, rfl⟩
  · next hcerts =>
      have htls : wantsCerts t_mode = false := decide_eq_false hcerts
      rw [htls]
      exact ⟨rfl, rfl, rfl, rfl⟩

/-- A connect. Its node has TLS fields if `t_mode` asks for certificates. -/
theorem handles_judoConnect_ (fuel : ℕ) (client : JudoServer) (t_cert t_key : Option String) (t_mode : Byte) :
    Handles (Opened (wantsCerts t_mode) client s) (judoConnect_ fuel client t_cert t_key t_mode) s := by
  unfold judoConnect_
  split
  · next hmissing =>
      -- the files are only missed if the mode asks for a client's certificate
      have htls : wantsCerts t_mode = true := decide_eq_true fun hzero => hmissing.1 ?_
      · rw [htls]
        exact opened_unchanged (by decide)
      · rw [BitVec.and_or_distrib_left] at hzero
        exact (BitVec.or_eq_zero_iff.mp hzero).2
  refine .op fun n => .new fun hfree => .use live_new ?_
  refine Behaves.bind (handles_connectFill t_cert t_key t_mode) ?_
  rintro ⟨node, ret⟩ s' ⟨haddr, hmode, rfl, rfl⟩
  dsimp only at haddr hmode
  obtain rfl := hmode
  rw [if_neg (not_not.mpr rfl)]
  -- the fields are set if the mode asks for certificates, and then the node is one that has any
  have hnode : withNode s n (wantsCerts node.mode) = withNode s node node.certs := by
    rw [withNode, withNode, haddr]
    rfl
  rw [hnode, ← haddr]
  rw [← haddr] at hfree
  change Handles (Opened node.certs client s) _ _
  refine .op fun _ => .use live_new ?_
  refine Behaves.bind (behaves_lift _ _) ?_
  rintro ⟨ret, fp⟩ s' ⟨rfl, tr, hsocket⟩
  -- a socket that cannot be connected has been closed by `judoSocketConnect_` itself
  have hcode : ¬ LateCode ret := by
    obtain ⟨fp', w, ⟨-, -, heq⟩ | ⟨-, -, heq⟩⟩ := runs_judoSocketConnect_ hsocket
    · rw [(Prod.mk.inj heq).1]
      decide
    · rw [(Prod.mk.inj heq).1]
      decide
  dsimp only
  split
  -- not connected: the node is given up, and it has TLS fields or has not
  · cases hn : node.certs with
    | false =>
        refine .branch (fun _ => ?_) fun hright => absurd hn hright
        exact misbehaves_dstr_new _
    | true =>
        refine .branch (fun hwrong => ?_) fun _ => ?_
        · exact absurd (hn.symm.trans hwrong) Bool.noConfusion
        · refine Behaves.bind (handles_dstr_new (n := { node with fp := fp }) hfree) ?_
          rintro - s' rfl
          exact opened_unchanged hcode
  · exact handles_connect_negotiate (n := { node with fp := fp }) fuel client hfree

end NewNode

/-! ## The loop of `run`

An iteration is an accept, or it reads without disconnecting, or it does nothing. What is
needed for the reading half is that the nodes of the table are usable, which is the invariant
of the next module. -/

/-- What an iteration comes to for the nodes, up to the `revents` of a row: it is an accept,
or nothing has changed. -/
def Iterated (server : JudoServer) (s : Objects TlsField) (out : Option (Round × Act)) (s' : Objects TlsField) : Prop :=
  ∀ r, out = some r → ∃ server', Alike server' r.1.server
    ∧ match r.2 with
      | .accept ret => Opened (sslEnabled server) server s (some (server', ret)) s'
      | .read _ ret => ret = 0 ∧ server' = server ∧ s' = s
      | .idle => server' = server ∧ s' = s

/-- An iteration that does not return says nothing. -/
theorem iterated_none {server : JudoServer} {s' : Objects TlsField} : Iterated server s none s' :=
  fun _ hnone => absurd hnone (Option.some_ne_none _).symm

/-- The row decides which function is called. A connection's row has a usable node, if it
is a row of the table. -/
theorem handles_serve (fuel : ℕ) (r : Round) (current_poll : pollfd) (current_node : ssl_node)
    (huse : (current_poll, current_node) ∈ r.table.rows → current_poll.fd ≠ r.server.m_server_list_sock → Usable s current_node)
    (hcerts : ∀ n : ssl_node, n.mode = r.server.connectionMode → n.certs = true → sslEnabled r.server = true) :
    Handles (Iterated r.server s) (serve fuel r current_poll current_node) s := by
  unfold serve
  split
  · split
    · refine .op fun _ => ?_
      refine Behaves.bind (handles_judoAccept_ fuel hcerts) ?_
      rintro (_ | ⟨server, ret⟩) s' hopened
      · exact iterated_none
      · intro out hout
        obtain rfl := Option.some.inj hout
        exact ⟨server, .refl _, hopened⟩
    next hfd =>
    by_cases hrow : (current_poll, current_node) ∈ r.table.rows
    · have husable := huse hrow hfd
      rw [watch, if_pos hrow, Prog.pure_eq, Prog.ret_bind]
      refine Behaves.bind (behaves_lift _ _) ?_
      rintro r' s' ⟨rfl, tr, hclear⟩
      refine .op fun buffer => ?_
      refine Behaves.bind (handles_judoRead_ fuel r'.server husable current_poll _) ?_
      rintro (_ | ⟨server, ret, out_buf, size⟩) s' ⟨rfl, hreceived⟩
      · exact iterated_none
      -- it has read a message, and goes on with the array
      · obtain ⟨rfl, rfl⟩ := hreceived _ rfl
        have halike := alike_clear hclear
        refine .use husable.live (Behaves.bind (leavesAlone_lift _ _) ?_)
        rintro goesOn s' rfl
        cases goesOn with
        | false => exact iterated_none
        | true =>
            intro out hout
            obtain rfl := Option.some.inj hout
            exact ⟨r.server, halike, rfl, rfl, rfl⟩
    · -- nothing is said of a row that is not in the table
      rw [watch, if_neg hrow]
      exact fun hstray => absurd rfl hstray
  · intro out hout
    obtain rfl := Option.some.inj hout
    exact ⟨r.server, .refl _, rfl, rfl⟩

/-- An iteration, with the two reads of the arrays before and the end of it behind. -/
theorem handles_iteration (fuel : ℕ) (r : Round)
    (huse : ∀ row ∈ r.table.rows, row.1.fd ≠ r.server.m_server_list_sock → Usable s row.2)
    (hcerts : ∀ n : ssl_node, n.mode = r.server.connectionMode → n.certs = true → sslEnabled r.server = true) :
    Handles (Iterated r.server s) (iteration fuel r) s := by
  unfold iteration
  refine Behaves.bind (leavesAlone_lift _ _) ?_
  rintro p s' rfl
  refine Behaves.bind (leavesAlone_lift _ _) ?_
  rintro n s' rfl
  refine Behaves.bind (handles_serve fuel { r with array_size := r.table.getSize } p n (huse (p, n)) hcerts) ?_
  rintro (_ | ⟨r', act⟩) s' hserved
  · exact iterated_none
  · refine Behaves.bind (behaves_lift _ _) ?_
    rintro r'' s' ⟨rfl, tr, hadvance⟩ out hout
    obtain rfl := Option.some.inj hout
    obtain ⟨server', halike, hact⟩ := hserved _ rfl
    exact ⟨server', halike.trans (alike_advance hadvance), hact⟩

/-! ## The destructor

It walks the rows backwards and removes each one as it goes, so the rows that are left are
always a table of their own. All is well if and only if every node has been filled. -/

/-- The destructor may find newer fields for the listening node, at the same address. -/
theorem node_addr (server : JudoServer) (n : ssl_node) : (server.node n).addr = n.addr := by
  unfold JudoServer.node
  split
  · next h => exact h.symm
  · rfl

/-- The rows that the destructor walks, from the last one on: their nodes are distinct, and
so are their descriptors. -/
structure Walk (m_ssl_nodes : DualDynamicArray pollfd ssl_node) (rows : List (pollfd × ssl_node)) : Prop where
  rep : m_ssl_nodes.Rep rows
  fds : (fds rows).Nodup
  addrs : (rows.map fun row => row.2.addr).Nodup

/-- One round: the last row is taken out. -/
theorem Walk.next {m_ssl_nodes : DualDynamicArray pollfd ssl_node} {rows : List (pollfd × ssl_node)} {i : ℕ}
    (h : Walk m_ssl_nodes rows) (hi : rows.length = i + 1) :
    ∃ row ∈ rows, m_ssl_nodes.m_first_array i = some row.1 ∧ m_ssl_nodes.m_second_array i = some row.2
      ∧ ∃ rows', rows.Perm (row :: rows') ∧ rows'.length = i ∧ Walk (m_ssl_nodes.remove compare_pollfd row.1) rows'
        ∧ ∀ row' ∈ rows', row'.2.addr ≠ row.2.addr := by
  obtain ⟨row, hmem, hfirst, hsecond, rows', hperm, hlen, hrep, hfds⟩ := remove_last h.rep h.fds hi
  have haddrs := (hperm.map fun row => row.2.addr).nodup_iff.mp h.addrs
  obtain ⟨hother, hrest⟩ := List.nodup_cons.mp haddrs
  refine ⟨row, hmem, hfirst, hsecond, rows', hperm, hlen, ⟨hrep, hfds, hrest⟩, fun row' hrow' heq => ?_⟩
  exact hother (List.mem_map.mpr ⟨row', hrow', heq⟩)

/-- By induction on the rows that are left; each of them is filled when its turn comes,
because the nodes are distinct. -/
theorem handles_destroy_loop (server : JudoServer) (i : ℕ) : ∀ {m_ssl_nodes : DualDynamicArray pollfd ssl_node}
    {rows : List (pollfd × ssl_node)} {s : Objects TlsField}, Walk m_ssl_nodes rows → rows.length = i →
    (∀ row ∈ rows, s.Filled row.2.addr) → Handles (fun _ _ => True) (destroy.loop server i m_ssl_nodes) s := by
  induction i with
  | zero => exact fun _ _ _ => trivial
  | succ i ih =>
      intro m_ssl_nodes rows s hwalk hi hfilled
      obtain ⟨row, hrow, hfirst, hsecond, rows', hperm, hlen, hwalk', hother⟩ := hwalk.next hi
      refine .op fun wild => ?_
      rw [hfirst, hsecond]
      have hnode : s.Filled (server.node row.2).addr := by
        rw [node_addr]
        exact hfilled row hrow
      refine Behaves.bind (handles_dstr_ssl_node hnode) ?_
      rintro - s' rfl
      refine .op fun wild => ih hwalk' hlen fun row' hrow' => ?_
      rw [Objects.Filled, node_addr, Option.getD_some, Function.update_of_ne (hother row' hrow')]
      exact hfilled row' (hperm.mem_iff.mpr (List.mem_cons_of_mem _ hrow'))

/-- A row whose node has no TLS fields is come to in the end. -/
theorem misbehaves_destroy_loop (server : JudoServer) (i : ℕ) : ∀ {m_ssl_nodes : DualDynamicArray pollfd ssl_node}
    {rows : List (pollfd × ssl_node)} {s : Objects TlsField}, Walk m_ssl_nodes rows → rows.length = i →
    ∀ {row : pollfd × ssl_node} {fields : TlsField → Bool}, row ∈ rows → s row.2.addr = some fields → fields .ssl = false →
      Misbehaves (destroy.loop server i m_ssl_nodes) s := by
  induction i with
  | zero =>
      intro m_ssl_nodes rows s hwalk hi row fields hrow
      rw [List.length_eq_zero_iff.mp hi] at hrow
      exact absurd hrow List.not_mem_nil
  | succ i ih =>
      intro m_ssl_nodes rows s hwalk hi row fields hrow hfields hssl
      obtain ⟨last, hlast, hfirst, hsecond, rows', hperm, hlen, hwalk', hother⟩ := hwalk.next hi
      intro wild
      rw [hfirst, hsecond]
      -- it is this one, or it is among the others
      rcases List.mem_cons.mp (hperm.mem_iff.mp hrow) with rfl | hrow'
      · rw [← node_addr server] at hfields
        exact misbehaves_dstr_ssl_node hfields hssl _
      · refine .later fun _ => .later fun _ => .later fun _ wild => ?_
        refine ih hwalk' hlen hrow' ?_ hssl
        rw [← hfields, node_addr]
        exact Function.update_of_ne (hother row hrow') ..

/-- The destructor, when every node in the table has its TLS fields. -/
theorem handles_destroy {server : JudoServer} {rows : List (pollfd × ssl_node)} (hwalk : Walk server.m_ssl_nodes rows)
    (hfilled : ∀ row ∈ rows, s.Filled row.2.addr) : Handles (fun _ _ => True) (destroy server) s := by
  refine Behaves.bind (handles_destroy_loop server _ hwalk hwalk.rep.size.symm hfilled) fun _ _ _ => ?_
  exact fun _ => trivial

/-- The destructor, when one of them has not. -/
theorem misbehaves_destroy {server : JudoServer} {rows : List (pollfd × ssl_node)} (hwalk : Walk server.m_ssl_nodes rows)
    {row : pollfd × ssl_node} {fields : TlsField → Bool} (hrow : row ∈ rows) (hfields : s row.2.addr = some fields)
    (hssl : fields .ssl = false) : Misbehaves (destroy server) s :=
  Misbehaves.bind _ (misbehaves_destroy_loop server _ hwalk hwalk.rep.size.symm hrow hfields hssl)

end Nodes

end JudoEngine
