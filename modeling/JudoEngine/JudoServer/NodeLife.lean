/-
The life of the nodes of a server, from the constructor to the destructor.

A node comes with a connection, and with the server itself, and goes on one of the ways
out or with the destructor. `NodeRun` is any life of a server, with notes of what happens
to its nodes, and `nodes_legal_iff` says in which of these lives nothing happens to a
node that must not: no wrong way out is taken, and when the destructor comes, every node
that it finds in the table has got TLS fields.
-/
import JudoEngine.JudoServer.Downgrade
import JudoEngine.JudoServer.Flags
import JudoEngine.JudoServer.Handling

set_option autoImplicit false

open Words Lifetime

namespace JudoEngine

/-! ## Lives

A life is a list of calls and steps of the event loop, one program after another. Notes
between the operations say what is done to a node, and do not change what the programs do. -/

/-- Where the life of a server is. -/
inductive NodeState where
  | idle (server : JudoServer)
  | running (s : RunState)
  | destroyed (server : JudoServer)

/-- The server, while there is one and it is not in a call that does not return. -/
def NodeState.server : NodeState → Option JudoServer
  | .idle server => some server
  | .running s => s.server
  | .destroyed _ => none

/-- The connection that an iteration has tried to open: with TLS or without. -/
def Act.tried (server : JudoServer) : Act → List Bool
  | .accept _ => [Nodes.sslEnabled server]
  | _ => []

/-- What can be done next. It returns the connections that it has tried to open, and where
it leaves the server. -/
inductive Does : NodeState → NodeSys (List Bool × NodeState) → Prop where
  | judoSetUpServerSockSSL (server : JudoServer) (t_cert t_private_key : Option String) :
      Does (.idle server) (do
        let r ← Nodes.judoSetUpServerSockSSL server t_cert t_private_key
        pure ([], .idle r.1))
  | judoServerRequireCerts (server : JudoServer) :
      Does (.idle server) (do
        let r ← lift (JudoEngine.judoServerRequireCerts server)
        pure ([], .idle r.1))
  | judoClientRequireCerts (server : JudoServer) :
      Does (.idle server) (do
        let r ← lift (JudoEngine.judoClientRequireCerts server)
        pure ([], .idle r.1))
  | judoConnect_ (fuel : ℕ) (client : JudoServer) (t_cert t_key : Option String) (t_mode : Byte) :
      Does (.idle client) (do
        let out ← Nodes.judoConnect_ fuel client t_cert t_key t_mode
        pure ([wantsCerts t_mode], out.elim (.running .halted) fun r => .idle r.1))
  | run (server : JudoServer) : Does (.idle server) (pure ([], .running (.outer { server with m_active := true } 0)))
  | round (server : JudoServer) (a : ℤ) (ha : a ≠ 9) :
      Does (.running (.outer server a)) (do
        let s ← lift (run.round server a)
        pure ([], .running (.inner s)))
  | iteration (fuel : ℕ) (s : Round) (hgo : s.sockets_to_handel ≠ 0) :
      Does (.running (.inner s)) (do
        let out ← Nodes.iteration fuel s
        pure (out.elim ([], .running .halted) fun r => (r.2.tried s.server, .running (.inner r.1))))
  | again (s : Round) (hdone : s.sockets_to_handel = 0) :
      Does (.running (.inner s)) (pure ([], .running (.outer s.server s.a)))
  | returns (server : JudoServer) : Does (.running (.outer server 9)) (pure ([], .idle server))

/-- What is recorded of a life. -/
abbrev NodeEvents := List (NotedEvent Op Ans TlsField Turn)

/-- A server that was constructed, with an address or without, and what it has done since:
the connections that it has tried to open, and the record. -/
inductive NodeRun : List Bool → NodeEvents → NodeState → Prop where
  | new {tr : NodeEvents} {server : JudoServer} (hinit : Prog.Runs Nodes.init tr server) : NodeRun [] tr (.idle server)
  | newAt {t_addr : sockaddr_in} {tr tr' : NodeEvents} {server server' : JudoServer} {ret : ℤ}
      (hinit : Prog.Runs Nodes.init tr server)
      (hmakes : Prog.Runs (lift (judoMakeServerSock_ { server with m_list_sock_addr := t_addr })) tr' (server', ret)) :
      NodeRun [] (tr ++ tr') (.idle server')
  | step {made : List Bool} {tr tr' : NodeEvents} {st : NodeState} {p : NodeSys (List Bool × NodeState)}
      {r : List Bool × NodeState} (h : NodeRun made tr st) (hdoes : Does st p) (hruns : Prog.Runs p tr' r) :
      NodeRun (made ++ r.1) (tr ++ tr') r.2
  | destroy {made : List Bool} {tr tr' : NodeEvents} {server : JudoServer} (h : NodeRun made tr (.idle server))
      (hruns : Prog.Runs (Nodes.destroy server) tr' ()) : NodeRun made (tr ++ tr') (.destroyed server)

/-- What is around the server: an allocator, a kernel, and nobody who queues requests (no
function of the server does). -/
structure Surroundings (tr : NodeEvents) : Prop where
  allocates : Allocates (.empty TlsField) (notes tr)
  sane : Sane [] (events tr)
  unasked : ∀ requests : List judo_request_node, ⟨.dump, requests⟩ ∈ events tr → requests = []

/-- The destructor finds TLS fields in every node of the table: every connection that the
server has tried to open was one with TLS, and TLS has been set up if it listens. -/
def NodeState.Closes (made : List Bool) : NodeState → Prop
  | .destroyed server => false ∉ made
      ∧ ∀ row ∈ server.m_ssl_nodes.rows, row.2.addr = server.m_server_list_sock_node.addr → Nodes.sslEnabled server = true
  | _ => True

/-! ## The invariant

The nodes of the table are there and all different, and each has TLS fields or none according
to the way in which its connection was opened. The listening node has its fields from the
set-up on. -/

/-- The nodes and the descriptors of the table, given by its descriptors and nodes `ks`: they
are distinct, and each connection has a node of its own, with TLS fields or without as
`made` has it. -/
structure NodeInv (made : List Bool) (ks : List (ℤ × ssl_node)) (opened : List ℤ) (server : JudoServer)
    (s : Objects TlsField) : Prop where
  configured : Configured server
  table : ∃ rows, server.m_ssl_nodes.Rep rows ∧ keys rows = ks
  fds : (ks.map Prod.fst).Nodup
  addrs : (ks.map fun k => k.2.addr).Nodup
  inUse : ∀ k ∈ ks, k.1 ∈ opened ∨ k.1 < 0
  nonneg : ∀ fd ∈ opened, 0 ≤ fd
  listening : ∃ fields, s server.m_server_list_sock_node.addr = some fields ∧ fields .ssl = Nodes.sslEnabled server
    ∧ (Nodes.sslEnabled server = true → fields = fun _ => true)
  rows : ∀ k ∈ ks, (k.2.addr = server.m_server_list_sock_node.addr ∧ k.1 = server.m_server_list_sock)
    ∨ (k.2.addr ≠ server.m_server_list_sock_node.addr
      ∧ ∃ tls ∈ made, s k.2.addr = some (fun _ => tls) ∧ (k.2.certs = true → tls = true))
  plain : false ∈ made →
    ∃ k ∈ ks, k.2.addr ≠ server.m_server_list_sock_node.addr ∧ s k.2.addr = some fun _ => false

/-- The invariant, where there is a server. -/
def NodeState.Inv (made : List Bool) (opened : List ℤ) (s : Objects TlsField) (st : NodeState) : Prop :=
  ∀ server, st.server = some server → ∃ ks, NodeInv made ks opened server s

/-- A server that requires certificates has TLS. -/
theorem Configured.together {server : JudoServer} (h : Configured server) :
    ∀ flag ∈ certFlags, server.m_mode &&& flag ≠ 0 → server.m_mode &&& JUDO_MODE_SSL_ENABLED ≠ 0 := by
  have hrequire : ∀ {server server' : JudoServer} {flag : BitVec 16} {done failed : String} {tr : List (Event Op Ans)} {ret : ℤ},
      Prog.Runs (requireCerts server flag done failed) tr (server', ret) →
      (∀ flag ∈ certFlags, server.m_mode &&& flag ≠ 0 → server.m_mode &&& JUDO_MODE_SSL_ENABLED ≠ 0) →
      ∀ flag ∈ certFlags, server'.m_mode &&& flag ≠ 0 → server'.m_mode &&& JUDO_MODE_SSL_ENABLED ≠ 0 := by
    intro server server' flag done failed tr ret hruns ih
    rcases (runs_requireCerts hruns).2 with ⟨hssl, -, -, rfl⟩ | ⟨-, rfl⟩
    · exact fun _ _ _ => or_flag_ne_zero (.inl hssl)
    · exact ih
  induction h with
  | init node => exact fun flag _ hset => absurd BitVec.zero_and hset
  | addr _ _ ih => exact ih
  | active _ ih => exact ih
  | table _ _ ih => exact ih
  | judoMakeServerSock_ _ hruns ih =>
      rcases runs_judoMakeServerSock_ hruns with ⟨-, rfl, -, -⟩ | ⟨-, -, fd, -, rfl⟩
      · exact ih
      · exact ih
  | @judoSetUpServerSockSSL server _ _ _ _ ret _ hruns ih =>
      -- the flag for TLS is never taken back
      obtain ⟨-, node, rfl⟩ := runs_judoSetUpServerSockSSL hruns
      by_cases hret : ret = JUDO_SUCCESS
      · rw [if_pos hret]
        exact fun _ _ _ => or_flag_ne_zero (.inr (by decide))
      · rw [if_neg hret]
        exact ih
  | judoServerRequireCerts _ hruns ih => exact hrequire hruns ih
  | judoClientRequireCerts _ hruns ih => exact hrequire hruns ih

/-- So the connections that `judoAccept_` makes only have certificate bits with TLS. -/
theorem Configured.sslEnabled_of_certs {server : JudoServer} (h : Configured server) (n : ssl_node)
    (hmode : n.mode = server.connectionMode) (hcerts : n.certs = true) : Nodes.sslEnabled server = true := by
  obtain ⟨hserver, hclient⟩ := matches_connectionMode h
  rw [ssl_node.certs, decide_eq_true_iff, hmode, BitVec.and_or_distrib_left] at hcerts
  refine decide_eq_true ?_
  by_cases hs : server.connectionMode &&& JUDO_CON_SERVER_CERTS = 0
  · refine h.together JUDO_MODE_CLIENT_CERTS_REQ (by decide) (hclient.mp fun hc => hcerts ?_)
    rw [hs, hc]
    exact BitVec.zero_or
  · exact h.together JUDO_MODE_SERVER_CERTS_REQ (by decide) (hserver.mp hs)

section Invariant

variable {made : List Bool} {ks : List (ℤ × ssl_node)} {opened : List ℤ} {server server' : JudoServer} {s : Objects TlsField}

/-- A call that changes nothing of this. -/
theorem NodeInv.keep (h : NodeInv made ks opened server s) (hconfigured : Configured server')
    (htable : server'.m_ssl_nodes = server.m_ssl_nodes) (hsock : server'.m_server_list_sock = server.m_server_list_sock)
    (hnode : server'.m_server_list_sock_node = server.m_server_list_sock_node)
    (hssl : Nodes.sslEnabled server' = Nodes.sslEnabled server) : NodeInv made ks opened server' s where
  configured := hconfigured
  table := htable ▸ h.table
  fds := h.fds
  addrs := h.addrs
  inUse := h.inUse
  nonneg := h.nonneg
  listening := by
    rw [hnode, hssl]
    exact h.listening
  rows := by
    rw [hnode, hsock]
    exact h.rows
  plain := by
    rw [hnode]
    exact h.plain

/-- The `revents` have nothing to do with it. -/
theorem NodeInv.alike (h : NodeInv made ks opened server s) (halike : Alike server server') : NodeInv made ks opened server' s := by
  obtain ⟨d, rfl, hd⟩ := halike
  obtain ⟨rows, hrep, hkeys⟩ := h.table
  obtain ⟨rows', hrep', hkeys'⟩ := hd rows hrep
  exact ⟨h.configured.table d, ⟨rows', hrep', hkeys'.trans hkeys⟩, h.fds, h.addrs, h.inUse, h.nonneg, h.listening, h.rows, h.plain⟩

/-- `judoSetUpServerSockSSL` has set the fields of the listening node. -/
theorem NodeInv.setUp (h : NodeInv made ks opened server s) (hconfigured : Configured server')
    (htable : server'.m_ssl_nodes = server.m_ssl_nodes) (hsock : server'.m_server_list_sock = server.m_server_list_sock)
    (hnode : server'.m_server_list_sock_node.addr = server.m_server_list_sock_node.addr) {fields : TlsField → Bool}
    (hssl : fields .ssl = Nodes.sslEnabled server') (hboth : Nodes.sslEnabled server' = true → fields = fun _ => true) :
    NodeInv made ks opened server' (Function.update s server.m_server_list_sock_node.addr (some fields)) where
  configured := hconfigured
  table := htable ▸ h.table
  fds := h.fds
  addrs := h.addrs
  inUse := h.inUse
  nonneg := h.nonneg
  listening := by
    rw [hnode, Function.update_self]
    exact ⟨fields, rfl, hssl, hboth⟩
  rows k hk := by
    rw [hnode, hsock]
    rcases h.rows k hk with hlisten | ⟨hne, tls, htls, hfields, hcerts⟩
    · exact .inl hlisten
    · refine .inr ⟨hne, tls, htls, ?_, hcerts⟩
      rw [Function.update_of_ne hne, hfields]
  plain hplain := by
    obtain ⟨k, hk, hne, hfields⟩ := h.plain hplain
    rw [hnode]
    refine ⟨k, hk, hne, ?_⟩
    rw [Function.update_of_ne hne, hfields]

/-- The nodes in the table are there. -/
theorem NodeInv.ne_of_free (h : NodeInv made ks opened server s) {a : ℕ} (hfree : s a = none) :
    a ≠ server.m_server_list_sock_node.addr ∧ ∀ k ∈ ks, k.2.addr ≠ a := by
  obtain ⟨fields, hfields, -⟩ := h.listening
  have hlisten : a ≠ server.m_server_list_sock_node.addr := by
    rintro rfl
    exact Option.some_ne_none _ (hfields.symm.trans hfree)
  refine ⟨hlisten, fun k hk heq => ?_⟩
  rcases h.rows k hk with ⟨hnode, -⟩ | ⟨-, tls, -, hk', -⟩
  · exact hlisten (heq.symm.trans hnode)
  · rw [heq, hfree] at hk'
    exact Option.some_ne_none _ hk'.symm

/-- A node that a connection uses. -/
theorem NodeInv.usable (h : NodeInv made ks opened server s) {k : ℤ × ssl_node} (hk : k ∈ ks)
    (hfd : k.1 ≠ server.m_server_list_sock) : Nodes.Usable s k.2 := by
  rcases h.rows k hk with ⟨-, hsock⟩ | ⟨-, tls, -, hfields, hcerts⟩
  · exact absurd hsock hfd
  · refine ⟨?_, fun hk => ?_⟩
    · rw [hfields]
      rfl
    · rw [Objects.Filled, hfields, hcerts hk]

/-- A connection has not been opened, for which there would have been TLS. -/
theorem NodeInv.notOpened (h : NodeInv made ks opened server s) : NodeInv (made ++ [true]) ks opened server s where
  configured := h.configured
  table := h.table
  fds := h.fds
  addrs := h.addrs
  inUse := h.inUse
  nonneg := h.nonneg
  listening := h.listening
  rows k hk := (h.rows k hk).imp_right fun ⟨hne, tls, htls, hfields⟩ => ⟨hne, tls, List.mem_append_left _ htls, hfields⟩
  plain hplain := by
    rcases List.mem_append.mp hplain with hplain | hplain
    · exact h.plain hplain
    · exact absurd (List.mem_singleton.mp hplain) Bool.noConfusion

/-- A connection has been opened. -/
theorem NodeInv.add (h : NodeInv made ks opened server s) {n : ssl_node} {tls : Bool} (hfree : s n.addr = none)
    (hcerts : n.certs = true → tls = true) (hfp : 0 ≤ n.fp) (hfresh : n.fp ∉ opened) :
    NodeInv (made ++ [tls]) (ks ++ [(n.fp, n)]) (n.fp :: opened)
      { server with m_ssl_nodes := server.m_ssl_nodes.add ⟨n.fp, POLLIN, 0⟩ n } (Nodes.withNode s n tls) := by
  obtain ⟨hlisten, hother⟩ := h.ne_of_free hfree
  have hkeep : ∀ k ∈ ks, Nodes.withNode s n tls k.2.addr = s k.2.addr := fun k hk => Function.update_of_ne (hother k hk) ..
  refine ⟨h.configured.table _, ?_, ?_, ?_, ?_, List.forall_mem_cons.mpr ⟨hfp, h.nonneg⟩, ?_, ?_, ?_⟩
  · obtain ⟨rows, hrep, hkeys⟩ := h.table
    refine ⟨_, (DualDynamicArray.add_spec hrep ⟨n.fp, POLLIN, 0⟩ n).1, ?_⟩
    rw [keys, List.map_append]
    exact congrArg (· ++ _) hkeys
  · rw [List.map_append]
    -- the descriptors of the table are open ones, but for that of a socket that could not be made
    refine h.fds.append (List.nodup_singleton _) (List.disjoint_singleton.mpr fun hmem => ?_)
    obtain ⟨k, hk, hfd⟩ := List.mem_map.mp hmem
    have hin := h.inUse k hk
    rw [show k.1 = n.fp from hfd] at hin
    exact hin.elim hfresh fun hneg => absurd hfp (not_le.mpr hneg)
  · rw [List.map_append]
    refine h.addrs.append (List.nodup_singleton _) (List.disjoint_singleton.mpr fun hmem => ?_)
    obtain ⟨k, hk, haddr⟩ := List.mem_map.mp hmem
    exact hother k hk haddr
  · refine List.forall_mem_append.mpr ⟨fun k hk => ?_, List.forall_mem_singleton.mpr (.inl List.mem_cons_self)⟩
    exact (h.inUse k hk).imp_left (List.mem_cons_of_mem _)
  · obtain ⟨fields, hfields, hssl⟩ := h.listening
    exact ⟨fields, (Function.update_of_ne hlisten.symm ..).trans hfields, hssl⟩
  · refine List.forall_mem_append.mpr ⟨fun k hk => ?_, List.forall_mem_singleton.mpr (.inr ⟨hlisten, tls, ?_, ?_, hcerts⟩)⟩
    · rcases h.rows k hk with hnode | ⟨hne, tls', htls, hfields, hk'⟩
      · exact .inl hnode
      · exact .inr ⟨hne, tls', List.mem_append_left _ htls, (hkeep k hk).trans hfields, hk'⟩
    · exact List.mem_append_right _ (List.mem_singleton_self _)
    · exact Nodes.withNode_self
  · intro hplain
    rcases List.mem_append.mp hplain with hplain | hplain
    · obtain ⟨k, hk, hne, hfields⟩ := h.plain hplain
      exact ⟨k, List.mem_append_left _ hk, hne, (hkeep k hk).trans hfields⟩
    · obtain rfl := List.mem_singleton.mp hplain
      exact ⟨(n.fp, n), List.mem_append_right _ (List.mem_singleton_self _), hlisten, Nodes.withNode_self⟩

/-- What a call that opens a connection does to the nodes goes with what it does to the
descriptors; the two are found out about separately, for servers with the same rows but for
their `revents`. -/
theorem NodeInv.opens (h : NodeInv made ks opened server s) {tls : Bool} {s' : Objects TlsField} {ret : ℤ}
    {server₁ server₂ : JudoServer} {tr : List (Event Op Ans)} (hopened : Nodes.Opened tls server s (some (server₁, ret)) s')
    (hfds : Prompt tr ret → OpensFd opened tr server server₂) (h₁ : Alike server₁ server') (h₂ : Alike server₂ server') :
    ∃ ks', NodeInv (made ++ [tls]) ks' (openFds opened tr) server' s' := by
  obtain ⟨rows, hrep, hkeys⟩ := h.table
  -- both come out as `server'`, so they have the same rows but for the `revents`
  have hsame : ∀ {rows₁ rows₂ : List (pollfd × ssl_node)}, server₁.m_ssl_nodes.Rep rows₁ → server₂.m_ssl_nodes.Rep rows₂ →
      keys rows₁ = keys rows₂ := by
    intro rows₁ rows₂ hrep₁ hrep₂
    obtain ⟨d, rfl, hd⟩ := h₁
    obtain ⟨d', heq, hd'⟩ := h₂
    obtain ⟨rows₁', hrep₁', hkeys₁⟩ := hd rows₁ hrep₁
    obtain ⟨rows₂', hrep₂', hkeys₂⟩ := hd' rows₂ hrep₂
    obtain rfl : d = d' := congrArg JudoServer.m_ssl_nodes heq
    rw [← hkeys₁, ← hkeys₂, hrep₁'.rows_eq.symm.trans hrep₂'.rows_eq]
  -- and so either both have a row more or none has
  have hadds : ∀ n : ssl_node, keys rows ≠ keys (rows ++ [(⟨n.fp, POLLIN, 0⟩, n)]) := by
    intro n heq
    have hlen := congrArg List.length heq
    rw [keys, keys, List.length_map, List.length_map, List.length_append, List.length_singleton] at hlen
    omega
  have hrow : ∀ {server' : JudoServer} {n : ssl_node},
      server' = { server with m_ssl_nodes := server.m_ssl_nodes.add ⟨n.fp, POLLIN, 0⟩ n } →
      server'.m_ssl_nodes.Rep (rows ++ [(⟨n.fp, POLLIN, 0⟩, n)]) := by
    rintro _ n rfl
    exact (DualDynamicArray.add_spec hrep _ n).1
  obtain ⟨hcode, hopened⟩ := hopened _ rfl
  have hfds := hfds fun _ _ => hcode
  rcases hopened with ⟨rfl, hunchanged, rfl⟩ | ⟨n, hfree, hadd, rfl, hcerts⟩
  · dsimp only at hunchanged
    rcases hfds with ⟨-, hclosed⟩ | ⟨n, hadd, -⟩
    · rw [hclosed]
      exact ⟨ks, h.notOpened.alike (hunchanged ▸ h₁)⟩
    · exact absurd (hsame (hunchanged ▸ hrep) (hrow hadd)) (hadds n)
  · dsimp only at hadd
    rcases hfds with ⟨hunchanged, -⟩ | ⟨n', hadd', hfp, hfresh, hmore⟩
    · exact absurd (hsame (hrow hadd) (hunchanged ▸ hrep)).symm (hadds n)
    · -- the row that has been added is the same
      have heq := hsame (hrow hadd) (hrow hadd')
      rw [keys, keys, List.map_append, List.map_append] at heq
      obtain rfl : n = n' := (Prod.mk.inj (List.cons.inj (List.append_cancel_left heq)).1).2
      rw [hmore]
      exact ⟨_, (h.add hfree hcerts hfp hfresh).alike (hadd ▸ h₁)⟩

/-- The rows as the destructor finds them. -/
theorem NodeInv.walk (h : NodeInv made ks opened server s) :
    ∃ rows, server.m_ssl_nodes.rows = rows ∧ keys rows = ks ∧ Nodes.Walk server.m_ssl_nodes rows := by
  obtain ⟨rows, hrep, rfl⟩ := h.table
  have hfds := h.fds
  have haddrs := h.addrs
  rw [keys, List.map_map] at hfds haddrs
  exact ⟨rows, hrep.rows_eq, rfl, hrep, hfds, haddrs⟩

/-- An iteration works on a row of the table, whose node is one of these. -/
theorem NodeInv.handles_iteration {r : Round} (h : NodeInv made ks opened r.server s) (fuel : ℕ) :
    Handles (Nodes.Iterated r.server s) (Nodes.iteration fuel r) s := by
  refine Nodes.handles_iteration fuel r (fun row hrow hfd => ?_) fun n => h.configured.sslEnabled_of_certs n
  obtain ⟨rows, hrows, rfl, -⟩ := h.walk
  refine h.usable (k := (row.1.fd, row.2)) ?_ hfd
  rw [hrows] at hrow
  exact List.mem_map.mpr ⟨row, hrow, rfl⟩

/-- `judoSetUpServerSockSSL`. -/
theorem NodeInv.judoSetUpServerSockSSL (h : NodeInv made ks opened server s) {t_cert t_private_key : Option String}
    {tr : List (Event Op Ans)} {ret : ℤ} (hruns : Prog.Runs (JudoEngine.judoSetUpServerSockSSL server t_cert t_private_key) tr (server', ret))
    {fields fields' : TlsField → Bool} (hfields : s server.m_server_list_sock_node.addr = some fields)
    (hnode : server'.m_server_list_sock_node.addr = server.m_server_list_sock_node.addr) (hctx : fields' .ssl_ctx = true)
    (hok : ret = JUDO_SUCCESS → fields' = fun _ => true) (hfail : ret ≠ JUDO_SUCCESS → fields' .ssl = fields .ssl) :
    NodeInv made ks (openFds opened tr) server' (Function.update s server.m_server_list_sock_node.addr (some fields')) := by
  have hconfigured := h.configured.judoSetUpServerSockSSL hruns
  obtain ⟨hquiet, node, rfl⟩ := runs_judoSetUpServerSockSSL hruns
  rw [openFds_of_quiet hquiet]
  -- m_mode gets the flag only on success; on failure the node's fields are as before
  have hssl : fields' .ssl = Nodes.sslEnabled { server with
      m_server_cert_file := t_cert
      m_server_private_key_file := t_private_key
      m_server_list_sock_node := node
      m_mode := if ret = JUDO_SUCCESS then server.m_mode ||| JUDO_MODE_SSL_ENABLED else server.m_mode } := by
    by_cases hret : ret = JUDO_SUCCESS
    · rw [if_pos hret, hok hret]
      exact (decide_eq_true (or_flag_ne_zero (.inr (by decide)))).symm
    · rw [if_neg hret, hfail hret]
      obtain ⟨fields₀, hfields₀, hsame, -⟩ := h.listening
      obtain rfl := Option.some.inj (hfields.symm.trans hfields₀)
      exact hsame
  refine h.setUp hconfigured rfl rfl hnode hssl fun hon => ?_
  funext f
  cases f with
  | ssl => exact hssl.trans hon
  | ssl_ctx => exact hctx

/-- The two requirements leave TLS as it is. -/
theorem NodeInv.requireCerts (h : NodeInv made ks opened server s) {flag : BitVec 16} {done failed : String}
    {tr : List (Event Op Ans)} {ret : ℤ} (hruns : Prog.Runs (JudoEngine.requireCerts server flag done failed) tr (server', ret))
    (hconfigured : Configured server') : NodeInv made ks (openFds opened tr) server' s := by
  obtain ⟨hquiet, hserver⟩ := runs_requireCerts hruns
  rw [openFds_of_quiet hquiet]
  rcases hserver with ⟨hssl, -, -, rfl⟩ | ⟨-, rfl⟩
  · refine h.keep hconfigured rfl rfl rfl ?_
    exact (decide_eq_true (or_flag_ne_zero (.inl hssl))).trans (decide_eq_true hssl).symm
  · exact h

/-- The outer loop of `run`, when nobody has queued requests. -/
theorem alike_round {a : ℤ} {r : Round} {tr : List (Event Op Ans)} (hruns : Prog.Runs (run.round server a) tr r)
    (hunasked : ∀ requests : List judo_request_node, ⟨.dump, requests⟩ ∈ tr → requests = []) :
    Alike server r.server ∧ fdEvents tr = [] := by
  obtain ⟨requests, tr, rfl, polled, tr, rfl, rfl, rfl⟩ := hruns
  obtain rfl := hunasked requests List.mem_cons_self
  refine ⟨⟨_, rfl, fun rows hrep => ⟨_, hrep.mapFirst _, ?_⟩⟩, rfl⟩
  refine List.ext_getElem ?_ fun j hj hj' => ?_
  · rw [keys, keys, List.length_map, List.length_map, List.length_mapIdx]
  · simp only [keys, List.getElem_map, List.getElem_mapIdx]

/-- An iteration of `run`. -/
theorem NodeInv.iteration {r r' : Round} (h : NodeInv made ks opened r.server s) {fuel : ℕ} {act : Act} {s' : Objects TlsField}
    {tr : List (Event Op Ans)} (hruns : Prog.Runs (run.iteration fuel r) tr (some (r', act)))
    (hiterated : Nodes.Iterated r.server s (some (r', act)) s') (hsane : Sane opened tr) :
    ∃ ks', NodeInv (made ++ act.tried r.server) ks' (openFds opened tr) r'.server s' := by
  obtain ⟨server₁, halike, hact⟩ := hiterated _ rfl
  obtain ⟨p, n, before, tr', after, r₁, rfl, hbefore, hafter, hserve, hadvance⟩ := serveRun_of_iteration hruns
  have hafter' := alike_advance hadvance
  have hopen : openFds opened (before ++ tr' ++ after) = openFds opened tr' := by
    rw [openFds_append, openFds_append, openFds_of_quiet hbefore, openFds_of_quiet hafter]
  have hserved := (sane_append.mp (sane_append.mp hsane).1).2
  rw [openFds_of_quiet hbefore] at hserved
  rw [hopen]
  cases hserve with
  | idle hrevents =>
      obtain ⟨rfl, rfl⟩ := hact
      refine ⟨ks, ?_⟩
      rw [show made ++ Act.idle.tried r.server = made from List.append_nil _]
      exact h.alike halike
  | @accept tr server₂ ret hrevents hfd haccept =>
      -- the log entry before the call has to do with no descriptor
      have hfds : Prompt tr ret → OpensFd opened tr r.server server₂ := opensFd_judoAccept_ haccept h.nonneg hserved.2
      have hopens := h.opens hact hfds halike hafter'
      exact hopens
  | @read tr tr' r₂ x server₂ ret size buffer hrevents hfd hclear hread =>
      obtain ⟨rfl, rfl, rfl⟩ := hact
      refine ⟨ks, ?_⟩
      have hread' : fdEvents tr' = [] := by
        rcases runs_reads hread with ⟨-, -, hquiet⟩ | ⟨hret, -⟩
        · exact hquiet
        · exact absurd hret (by decide)
      have hquiet : fdEvents (tr ++ ⟨.indeterminate, x⟩ :: (tr' ++ run.discarded n 0 buffer size)) = [] := by
        obtain ⟨y, tr, rfl, rfl, rfl⟩ := hclear
        change fdEvents (tr' ++ run.discarded n 0 buffer size) = []
        rw [fdEvents_append, hread', fdEvents_discarded]
        rfl
      rw [openFds_of_quiet hquiet, show made ++ (Act.read (p, n) 0).tried r.server = made from List.append_nil _]
      exact h.alike halike

/-- The destructor finds a node without TLS fields, or destroys them all properly. -/
theorem NodeInv.destroy_iff (h : NodeInv made ks opened server s) {tr : NodeEvents} (hruns : Prog.Runs (Nodes.destroy server) tr ())
    (hallocates : Allocates s (notes tr)) (hstray : ∀ b ∈ branches tr, ¬ b.Stray) :
    Legal s (notes tr) ↔ (∀ b ∈ branches tr, ¬ b.Wrong) ∧ NodeState.Closes made (.destroyed server) := by
  obtain ⟨rows, hrows, rfl, hwalk⟩ := h.walk
  obtain ⟨fields, hfields, hssl, hboth⟩ := h.listening
  have hkey : ∀ row ∈ rows, (row.1.fd, row.2) ∈ keys rows := fun row hrow => List.mem_map.mpr ⟨row, hrow, rfl⟩
  have hcloses : Legal s (notes tr) → NodeState.Closes made (.destroyed server) := by
    intro hlegal
    -- a node without TLS fields that is in the table is come to in the end
    have hnot : ¬ Misbehaves (Nodes.destroy server) s := fun hmis => hmis.runs hruns hlegal
    refine ⟨fun hplain => hnot ?_, fun row hrow haddr => by_contra fun hoff => hnot ?_⟩
    · obtain ⟨k, hk, -, hunset⟩ := h.plain hplain
      obtain ⟨row, hrow, rfl⟩ := List.mem_map.mp hk
      exact Nodes.misbehaves_destroy hwalk hrow hunset rfl
    · rw [hrows] at hrow
      rw [← haddr] at hfields
      exact Nodes.misbehaves_destroy hwalk hrow hfields (hssl.trans (eq_false_of_ne_true hoff))
  have hhandles : NodeState.Closes made (.destroyed server) → Handles (fun _ _ => True) (Nodes.destroy server) s := by
    rintro ⟨hplain, hlisten⟩
    refine Nodes.handles_destroy hwalk fun row hrow => ?_
    rcases h.rows _ (hkey row hrow) with ⟨haddr, -⟩ | ⟨-, tls, htls, hset, -⟩
    · rw [Objects.Filled, haddr, hfields, hboth (hlisten row (hrows ▸ hrow) haddr)]
    · rw [Objects.Filled, hset]
      cases tls with
      | true => rfl
      | false => exact absurd htls hplain
  constructor
  · intro hlegal
    exact ⟨((hhandles (hcloses hlegal)).legal_iff hruns hallocates hstray).1.mp hlegal, hcloses hlegal⟩
  · rintro ⟨hright, hclose⟩
    exact ((hhandles hclose).legal_iff hruns hallocates hstray).1.mpr hright

/-! ## One step

What a step does is handled by the lemma of its function; what is proved here is that the
function finds the nodes in the state that the lemma asks for. -/

variable {st : NodeState} {p : NodeSys (List Bool × NodeState)}

/-- **What a server does next** it does properly, unless it comes to a wrong way out. -/
theorem Does.handles (hinv : st.Inv made opened s) (hdoes : Does st p) : Handles (fun _ _ => True) p s := by
  cases hdoes with
  | judoSetUpServerSockSSL server t_cert t_private_key =>
      obtain ⟨ks, h⟩ := hinv server rfl
      obtain ⟨fields, hfields, -⟩ := h.listening
      exact Behaves.bind (Nodes.handles_judoSetUpServerSockSSL hfields t_cert t_private_key) fun _ _ _ => trivial
  | judoServerRequireCerts server => exact Behaves.bind (Nodes.leavesAlone_lift _ _) fun _ _ _ => trivial
  | judoClientRequireCerts server => exact Behaves.bind (Nodes.leavesAlone_lift _ _) fun _ _ _ => trivial
  | judoConnect_ fuel client t_cert t_key t_mode =>
      exact Behaves.bind (Nodes.handles_judoConnect_ fuel client t_cert t_key t_mode) fun _ _ _ => trivial
  | run server => trivial
  | round server a ha => exact Behaves.bind (Nodes.leavesAlone_lift _ _) fun _ _ _ => trivial
  | iteration fuel r hgo =>
      obtain ⟨ks, h⟩ := hinv r.server rfl
      exact Behaves.bind (h.handles_iteration fuel) fun _ _ _ => trivial
  | again r hdone => trivial
  | returns server => trivial

/-- And the invariant still holds afterwards. -/
theorem Does.inv (hinv : st.Inv made opened s) (hdoes : Does st p) {tr : NodeEvents} {r : List Bool × NodeState}
    (hruns : Prog.Runs p tr r) (hallocates : Allocates s (notes tr)) (hsane : Sane opened (events tr))
    (hunasked : ∀ requests : List judo_request_node, ⟨.dump, requests⟩ ∈ events tr → requests = [])
    (hstray : ∀ b ∈ branches tr, ¬ b.Stray) (hlegal : Legal s (notes tr)) :
    r.2.Inv (made ++ r.1) (openFds opened (events tr)) (replay s (notes tr)) := by
  intro server' hserver'
  -- by the calls and the steps of the loop; those that open a connection may add a node
  cases hdoes with
  | judoSetUpServerSockSSL server t_cert t_private_key =>
      obtain ⟨ks, h⟩ := hinv server rfl
      obtain ⟨fields, hfields, -⟩ := h.listening
      obtain ⟨⟨server₁, ret⟩, hsetup, rfl⟩ := Prog.runs_bind_ret.mp hruns
      obtain rfl := Option.some.inj hserver'
      have hhandles := Nodes.handles_judoSetUpServerSockSSL hfields t_cert t_private_key
      obtain ⟨hnode, fields', hreplay, hctx, hok, hfail⟩ := (hhandles.legal_iff hsetup hallocates hstray).2 hlegal
      have herased := runs_erase hsetup
      rw [Nodes.erase_judoSetUpServerSockSSL] at herased
      rw [hreplay, List.append_nil]
      exact ⟨ks, h.judoSetUpServerSockSSL herased hfields hnode hctx hok hfail⟩
  | judoServerRequireCerts server =>
      obtain ⟨ks, h⟩ := hinv server rfl
      obtain ⟨⟨server₁, ret⟩, hrequire, rfl⟩ := Prog.runs_bind_ret.mp hruns
      obtain rfl := Option.some.inj hserver'
      obtain ⟨hnone, -, hrequire⟩ := runs_lift hrequire
      rw [hnone, List.append_nil]
      exact ⟨ks, h.requireCerts hrequire (h.configured.judoServerRequireCerts hrequire)⟩
  | judoClientRequireCerts server =>
      obtain ⟨ks, h⟩ := hinv server rfl
      obtain ⟨⟨server₁, ret⟩, hrequire, rfl⟩ := Prog.runs_bind_ret.mp hruns
      obtain rfl := Option.some.inj hserver'
      obtain ⟨hnone, -, hrequire⟩ := runs_lift hrequire
      rw [hnone, List.append_nil]
      exact ⟨ks, h.requireCerts hrequire (h.configured.judoClientRequireCerts hrequire)⟩
  | judoConnect_ fuel client t_cert t_key t_mode =>
      obtain ⟨ks, h⟩ := hinv client rfl
      obtain ⟨out, hconnect, rfl⟩ := Prog.runs_bind_ret.mp hruns
      rcases out with _ | ⟨client₁, ret⟩
      · exact absurd hserver' (Option.some_ne_none _).symm
      obtain rfl := Option.some.inj hserver'
      have hhandles := Nodes.handles_judoConnect_ (s := s) fuel client t_cert t_key t_mode
      have hopened := (hhandles.legal_iff hconnect hallocates hstray).2 hlegal
      have herased := runs_erase hconnect
      rw [Nodes.erase_judoConnect_] at herased
      exact h.opens hopened (opensFd_judoConnect_ herased h.nonneg hsane) (.refl _) (.refl _)
  | run server =>
      obtain ⟨ks, h⟩ := hinv server rfl
      obtain ⟨rfl, rfl⟩ := hruns
      obtain rfl := Option.some.inj hserver'
      rw [List.append_nil]
      exact ⟨ks, h.keep h.configured.active rfl rfl rfl rfl⟩
  | round server a ha =>
      obtain ⟨ks, h⟩ := hinv server rfl
      obtain ⟨r₁, hround, rfl⟩ := Prog.runs_bind_ret.mp hruns
      obtain rfl := Option.some.inj hserver'
      obtain ⟨hnone, -, hround⟩ := runs_lift hround
      obtain ⟨halike, hquiet⟩ := alike_round hround hunasked
      rw [hnone, List.append_nil, openFds_of_quiet hquiet]
      exact ⟨ks, h.alike halike⟩
  | iteration fuel r hgo =>
      obtain ⟨ks, h⟩ := hinv r.server rfl
      obtain ⟨out, hiteration, rfl⟩ := Prog.runs_bind_ret.mp hruns
      rcases out with _ | ⟨r₁, act⟩
      · exact absurd hserver' (Option.some_ne_none _).symm
      obtain rfl := Option.some.inj hserver'
      have hiterated := ((h.handles_iteration fuel).legal_iff hiteration hallocates hstray).2 hlegal
      have herased := runs_erase hiteration
      rw [Nodes.erase_iteration] at herased
      exact h.iteration herased hiterated hsane
  | again r hdone =>
      obtain ⟨ks, h⟩ := hinv r.server rfl
      obtain ⟨rfl, rfl⟩ := hruns
      obtain rfl := Option.some.inj hserver'
      rw [List.append_nil]
      exact ⟨ks, h⟩
  | returns server =>
      obtain ⟨ks, h⟩ := hinv server rfl
      obtain ⟨rfl, rfl⟩ := hruns
      obtain rfl := Option.some.inj hserver'
      rw [List.append_nil]
      exact ⟨ks, h⟩

/-! ## The constructors

A server starts without nodes of connections, and with a row of its own when it listens. -/

/-- Without an address. -/
theorem nodeInv_init {tr : NodeEvents} (hruns : Prog.Runs Nodes.init tr server) :
    Legal (.empty TlsField) (notes tr) ∧ branches tr = [] ∧ openFds [] (events tr) = [] ∧ server.m_ssl_nodes = .new
      ∧ NodeInv [] [] [] server (replay (.empty TlsField) (notes tr)) := by
  obtain ⟨node, tr, rfl, -, tr, rfl, -, tr, rfl, rfl, rfl⟩ := hruns
  have hoff : Nodes.sslEnabled (.init_ node) = false := decide_eq_false (not_not.mpr BitVec.zero_and)
  refine ⟨⟨trivial, trivial⟩, rfl, rfl, rfl, .init node, ⟨[], DualDynamicArray.rep_new, rfl⟩, ?_, ?_, ?_, ?_, ?_, ?_, ?_⟩
  · exact List.nodup_nil
  · exact List.nodup_nil
  · exact fun _ hk => absurd hk List.not_mem_nil
  · exact fun _ hfd => absurd hfd List.not_mem_nil
  · exact ⟨_, Function.update_self .., hoff.symm, fun hon => absurd (hoff.symm.trans hon) Bool.noConfusion⟩
  · exact fun _ hk => absurd hk List.not_mem_nil
  · exact fun hplain => absurd hplain List.not_mem_nil

/-- With one: there is a row for the listening node. -/
theorem NodeInv.judoMakeServerSock_ (h : NodeInv [] [] [] server s) (hnew : server.m_ssl_nodes = .new) (t_addr : sockaddr_in)
    {tr : List (Event Op Ans)} {ret : ℤ}
    (hruns : Prog.Runs (judoMakeServerSock_ { server with m_list_sock_addr := t_addr }) tr (server', ret)) :
    ∃ ks, NodeInv [] ks (openFds [] tr) server' s := by
  have hconfigured := (h.configured.addr t_addr).judoMakeServerSock_ hruns
  rcases runs_judoMakeServerSock_ hruns with ⟨-, rfl, -, hquiet⟩ | ⟨-, -, fd, hfds, rfl⟩
  · rw [openFds_of_quiet hquiet]
    exact ⟨[], h.keep hconfigured rfl rfl rfl rfl⟩
  · have hrep : server.m_ssl_nodes.Rep [] := hnew ▸ DualDynamicArray.rep_new
    have hopen : openFds [] tr = if 0 ≤ fd then [fd] else [] := by
      rw [← openFds_fdEvents, hfds]
      rfl
    rw [hopen]
    refine ⟨[(fd, server.m_server_list_sock_node)], hconfigured, ⟨_, (DualDynamicArray.add_spec hrep _ _).1, rfl⟩,
      List.nodup_singleton _, List.nodup_singleton _, ?_, ?_, h.listening, ?_, fun hplain => absurd hplain List.not_mem_nil⟩
    · rw [List.forall_mem_singleton]
      split
      · exact .inl List.mem_cons_self
      · next hneg => exact .inr (not_le.mp hneg)
    · split
      · next hfd => exact List.forall_mem_singleton.mpr hfd
      · exact fun _ hmem => absurd hmem List.not_mem_nil
    · exact List.forall_mem_singleton.mpr (.inl ⟨rfl, rfl⟩)

/-! ## Whole lives

A record is legal when it is legal up to its last step and that step is handled. The
destructor is the only step whose legality asks for more, which is `Closes`. -/

variable {tr tr' : NodeEvents}

/-- What is around a life is around its parts, each from where the one before has left it. -/
theorem Surroundings.split (h : Surroundings (tr ++ tr')) :
    Surroundings tr ∧ Allocates (replay (.empty TlsField) (notes tr)) (notes tr') ∧ Sane (openFds [] (events tr)) (events tr')
      ∧ ∀ requests : List judo_request_node, ⟨.dump, requests⟩ ∈ events tr' → requests = [] := by
  obtain ⟨hallocates, hsane, hunasked⟩ := h
  rw [notes_append] at hallocates
  rw [events_append] at hsane hunasked
  obtain ⟨hallocates, hallocates'⟩ := allocates_append.mp hallocates
  obtain ⟨hsane, hsane'⟩ := sane_append.mp hsane
  exact ⟨⟨hallocates, hsane, fun requests hmem => hunasked requests (List.mem_append_left _ hmem)⟩, hallocates', hsane',
    fun requests hmem => hunasked requests (List.mem_append_right _ hmem)⟩

/-- Only the destructor ends a life. -/
theorem Does.closes (hdoes : Does st p) : st.Closes made := by
  cases hdoes <;> trivial

/-- No other step ends in a state in which that would be asked for. -/
theorem Does.closes_after (hdoes : Does st p) {tr : NodeEvents} {r : List Bool × NodeState} (hruns : Prog.Runs p tr r) :
    r.2.Closes made := by
  cases hdoes with
  | judoSetUpServerSockSSL server t_cert t_private_key =>
      obtain ⟨-, -, rfl⟩ := Prog.runs_bind_ret.mp hruns
      trivial
  | judoServerRequireCerts server =>
      obtain ⟨-, -, rfl⟩ := Prog.runs_bind_ret.mp hruns
      trivial
  | judoClientRequireCerts server =>
      obtain ⟨-, -, rfl⟩ := Prog.runs_bind_ret.mp hruns
      trivial
  | judoConnect_ fuel client t_cert t_key t_mode =>
      obtain ⟨out, -, rfl⟩ := Prog.runs_bind_ret.mp hruns
      cases out <;> trivial
  | run server =>
      obtain ⟨-, rfl⟩ := hruns
      trivial
  | round server a ha =>
      obtain ⟨-, -, rfl⟩ := Prog.runs_bind_ret.mp hruns
      trivial
  | iteration fuel s hgo =>
      obtain ⟨out, -, rfl⟩ := Prog.runs_bind_ret.mp hruns
      cases out <;> trivial
  | again s hdone =>
      obtain ⟨-, rfl⟩ := hruns
      trivial
  | returns server =>
      obtain ⟨-, rfl⟩ := hruns
      trivial

theorem forall_branches_append {P : Turn → Prop} :
    (∀ b ∈ branches (tr ++ tr'), P b) ↔ (∀ b ∈ branches tr, P b) ∧ ∀ b ∈ branches tr', P b := by
  rw [branches_append, List.forall_mem_append]

/-- The record of a life is legal exactly when it should be, and then the invariant holds. -/
theorem NodeRun.legal_iff (h : NodeRun made tr st) : Surroundings tr → (∀ b ∈ branches tr, ¬ b.Stray) →
    (Legal (.empty TlsField) (notes tr) ↔ (∀ b ∈ branches tr, ¬ b.Wrong) ∧ st.Closes made)
      ∧ (Legal (.empty TlsField) (notes tr) → st.Inv made (openFds [] (events tr)) (replay (.empty TlsField) (notes tr))) := by
  -- a step only behaves where the invariant holds, and that is known as long as all was legal
  induction h with
  | new hinit =>
      intro _ _
      obtain ⟨hlegal, hnone, hopen, -, hinv⟩ := nodeInv_init hinit
      rw [hnone, hopen]
      refine ⟨iff_of_true hlegal ⟨fun _ hb => absurd hb List.not_mem_nil, trivial⟩, ?_⟩
      rintro - server' heq
      obtain rfl := Option.some.inj heq
      exact ⟨[], hinv⟩
  | @newAt t_addr tr tr' server server' ret hinit hmakes =>
      intro _ _
      obtain ⟨hlegal, hnone, hopen, hnew, hinv⟩ := nodeInv_init hinit
      obtain ⟨hnone', hnone'', hmakes⟩ := runs_lift hmakes
      rw [notes_append, branches_append, events_append, openFds_append, hnone, hnone', hnone'', hopen, List.append_nil]
      refine ⟨iff_of_true hlegal ⟨fun _ hb => absurd hb List.not_mem_nil, trivial⟩, ?_⟩
      rintro - server'' heq
      obtain rfl := Option.some.inj heq
      exact hinv.judoMakeServerSock_ hnew t_addr hmakes
  | @step made tr tr' st p r h hdoes hruns ih =>
      intro hworld hstray
      obtain ⟨hbefore, hallocates, hsane, hunasked⟩ := hworld.split
      rw [forall_branches_append] at hstray
      obtain ⟨hiff, hinv⟩ := ih hbefore hstray.1
      rw [notes_append, legal_append, forall_branches_append, events_append, openFds_append, replay_append]
      refine ⟨⟨?_, ?_⟩, ?_⟩
      · rintro ⟨hlegal, hlegal'⟩
        have hright := ((hdoes.handles (hinv hlegal)).legal_iff hruns hallocates hstray.2).1.mp hlegal'
        exact ⟨⟨(hiff.mp hlegal).1, hright⟩, hdoes.closes_after hruns⟩
      · rintro ⟨⟨hright, hright'⟩, -⟩
        have hlegal := hiff.mpr ⟨hright, hdoes.closes⟩
        exact ⟨hlegal, ((hdoes.handles (hinv hlegal)).legal_iff hruns hallocates hstray.2).1.mpr hright'⟩
      · rintro ⟨hlegal, hlegal'⟩
        exact hdoes.inv (hinv hlegal) hruns hallocates hsane hunasked hstray.2 hlegal'
  | @destroy made tr tr' server h hruns ih =>
      intro hworld hstray
      obtain ⟨hbefore, hallocates, -⟩ := hworld.split
      rw [forall_branches_append] at hstray
      obtain ⟨hiff, hinv⟩ := ih hbefore hstray.1
      rw [notes_append, legal_append, forall_branches_append]
      refine ⟨⟨?_, ?_⟩, fun _ _ hnone => absurd hnone (Option.some_ne_none _).symm⟩
      · rintro ⟨hlegal, hlegal'⟩
        obtain ⟨ks, hnodes⟩ := hinv hlegal server rfl
        obtain ⟨hright, hcloses⟩ := (hnodes.destroy_iff hruns hallocates hstray.2).mp hlegal'
        exact ⟨⟨(hiff.mp hlegal).1, hright⟩, hcloses⟩
      · rintro ⟨⟨hright, hright'⟩, hcloses⟩
        have hlegal := hiff.mpr ⟨hright, trivial⟩
        obtain ⟨ks, hnodes⟩ := hinv hlegal server rfl
        exact ⟨hlegal, (hnodes.destroy_iff hruns hallocates hstray.2).mpr ⟨hright', hcloses⟩⟩

/-- In the middle of a call, nothing has happened to a node that must not unless the call
has come to a wrong way out. -/
theorem NodeRun.legal_within (h : NodeRun made tr st) (hdoes : Does st p) {q : NodeSys (List Bool × NodeState)}
    (hleads : Prog.Leads p tr' q) (hworld : Surroundings (tr ++ tr')) (hstray : ∀ b ∈ branches (tr ++ tr'), ¬ b.Stray)
    (hright : ∀ b ∈ branches (tr ++ tr'), ¬ b.Wrong) : Legal (.empty TlsField) (notes (tr ++ tr')) := by
  rw [forall_branches_append] at hstray hright
  obtain ⟨hbefore, hallocates, -⟩ := hworld.split
  obtain ⟨hiff, hinv⟩ := h.legal_iff hbefore hstray.1
  have hlegal := hiff.mpr ⟨hright.1, hdoes.closes⟩
  rw [notes_append]
  exact legal_append.mpr ⟨hlegal, (hdoes.handles (hinv hlegal)).leads hleads hallocates hstray.2 hright.2⟩

/-- Then a node is destroyed once, nothing is done to it afterwards, and what needs its TLS
fields finds them set. -/
theorem NodeRun.proper (h : NodeRun made tr st) (hworld : Surroundings tr) (hstray : ∀ b ∈ branches tr, ¬ b.Stray)
    (hright : ∀ b ∈ branches tr, ¬ b.Wrong) (hcloses : st.Closes made) :
    (∀ (x : Note TlsField) (l l' l'' : List (Note TlsField)), notes tr = l ++ .destroy x.addr :: (l' ++ x :: l'') →
        x = .new x.addr ∨ .new x.addr ∈ l')
      ∧ ∀ (a : ℕ) (f : TlsField) (l l' : List (Note TlsField)), notes tr = l ++ .apply a f :: l' → .set a f ∈ l := by
  have hlegal := (h.legal_iff hworld hstray).1.mpr ⟨hright, hcloses⟩
  constructor
  · intro x l l' l'' heq
    rw [heq] at hlegal
    exact hlegal.renewed
  · intro a f l l' heq
    rw [heq] at hlegal
    exact hlegal.has_set

/-- **What happens to the nodes of a server**, over a whole life, is what may happen to them
exactly when no wrong way out has been taken and the destructor finds TLS fields in every
node; and in the middle of a call nothing has happened that must not either. -/
theorem nodes_legal_iff (h : NodeRun made tr st) (hworld : Surroundings tr) (hstray : ∀ b ∈ branches tr, ¬ b.Stray) :
    (Legal (.empty TlsField) (notes tr) ↔ (∀ b ∈ branches tr, ¬ b.Wrong) ∧ st.Closes made)
      ∧ ∀ (p q : NodeSys (List Bool × NodeState)) (tr' : NodeEvents), Does st p → Prog.Leads p tr' q → Surroundings (tr ++ tr') →
        (∀ b ∈ branches (tr ++ tr'), ¬ b.Stray) → (∀ b ∈ branches (tr ++ tr'), ¬ b.Wrong) →
          Legal (.empty TlsField) (notes (tr ++ tr')) := by
  refine ⟨(h.legal_iff hworld hstray).1, fun p q tr' hdoes hleads => ?_⟩
  exact h.legal_within hdoes hleads

end Invariant

/-- An allocator that hands out one address after the other, and a server that asks for its
own certificates, if it answers at all. -/
def certsAnswer (connected : ℤ) : ℕ → (o : NotedOp Op TlsField Turn) → NotedAns Ans o × ℕ
  | a, .op .new_ssl_node => ({ (default : ssl_node) with addr := a }, a + 1)
  | a, .op .socket => ((3 : ℤ), a)
  | a, .op (.connect _) => (connected, a)
  | a, .op (.read _ _) => (some [0x46], a)
  | a, .op (.SSL_is_init_finished _) => (true, a)
  | a, .op _ => (default, a)
  | a, .note _ => ((), a)
  | a, .branch _ => ((), a)

/-- The client when it has connected. -/
def certsClient : JudoServer :=
  { JudoServer.init_ default with
    m_ssl_nodes := DualDynamicArray.new.add ⟨3, POLLIN, 0⟩ { (default : ssl_node) with addr := 1, fp := 3, mode := 0x46 } }

/-- It connects to that server, and is destroyed. -/
theorem nodes_legal_iff_certs : ∃ tr, NodeRun [true] tr (.destroyed certsClient) ∧ Legal (.empty TlsField) (notes tr)
    ∧ (Legal (.empty TlsField) (notes tr) ↔ (∀ b ∈ branches tr, ¬ b.Wrong) ∧ NodeState.Closes [true] (.destroyed certsClient)) := by
  have hinit : Prog.Runs Nodes.init _ (.init_ default) := Prog.runs_exec (h := certsAnswer 0) _ 0
  have hdoes : Does (.idle (.init_ default)) _ := .judoConnect_ 1 (.init_ default) none none 0x40
  have hconnect : Prog.Runs _ _ ([true], NodeState.idle certsClient) := Prog.runs_exec (h := certsAnswer 0) (do
    let out ← Nodes.judoConnect_ 1 (.init_ default) none none 0x40
    pure ([wantsCerts 0x40], out.elim (NodeState.running .halted) fun r => NodeState.idle r.1)) 1
  have hdestroy : Prog.Runs (Nodes.destroy certsClient) _ () := Prog.runs_exec (h := certsAnswer 0) _ 2
  have hrun := NodeRun.destroy (.step (.new hinit) hdoes hconnect) hdestroy
  have hiff : ∀ {tr : NodeEvents}, NodeRun [true] tr (.destroyed certsClient) → branches tr = [] → Surroundings tr →
      Legal (.empty TlsField) (notes tr) ∧ (Legal (.empty TlsField) (notes tr) ↔
        (∀ b ∈ branches tr, ¬ b.Wrong) ∧ NodeState.Closes [true] (.destroyed certsClient)) := by
    intro tr hrun hnone hworld
    have hiff := (nodes_legal_iff hrun hworld (by simp [hnone])).1
    refine ⟨hiff.mpr ⟨by simp [hnone], by decide, by decide⟩, hiff⟩
  refine ⟨_, hrun, hiff hrun rfl ⟨?_, ?_, ?_⟩⟩
  · refine ⟨rfl, ?_⟩
    refine ⟨rfl, ?_⟩
    repeat refine ⟨trivial, ?_⟩
    trivial
  · repeat first
      | exact trivial
      | refine ⟨trivial, ?_⟩
      | refine ⟨fun _ => List.not_mem_nil, ?_⟩
      | refine ⟨fun hneg => absurd hneg (by decide), ?_⟩
  · intro requests hmem
    repeat obtain _ | ⟨_, hmem⟩ := hmem

/-- A connection without TLS cannot be made, and its node is destroyed as if it had been one
with TLS. -/
theorem plain_node_destroyed : ¬ ∀ (made : List Bool) (tr : NodeEvents) (st : NodeState),
    NodeRun made tr st → Surroundings tr → Legal (.empty TlsField) (notes tr) := by
  intro h
  have hinit : Prog.Runs Nodes.init _ (.init_ default) := Prog.runs_exec (h := certsAnswer (-1)) _ 0
  have hdoes : Does (.idle (.init_ default)) _ := .judoConnect_ 0 (.init_ default) none none 0
  have hconnect : Prog.Runs _ _ ([false], NodeState.idle (.init_ default)) := Prog.runs_exec (h := certsAnswer (-1)) (do
    let out ← Nodes.judoConnect_ 0 (.init_ default) none none 0
    pure ([wantsCerts 0], out.elim (NodeState.running .halted) fun r => NodeState.idle r.1)) 1
  have hlegal := h _ _ _ (.step (.new hinit) hdoes hconnect) ⟨⟨rfl, rfl, trivial, trivial, trivial, trivial, trivial, trivial⟩,
    ⟨trivial, trivial, trivial, trivial, fun _ => List.not_mem_nil, trivial, fun _ => by decide, trivial, trivial, trivial,
      trivial, trivial⟩, ?_⟩
  · -- `SSL_free` of a node whose `ssl` has not been set
    obtain ⟨-, -, -, -, ⟨fields, hfields, hset⟩, -⟩ := hlegal
    cases hfields
    exact Bool.false_ne_true hset
  · intro requests hmem
    repeat obtain _ | ⟨_, hmem⟩ := hmem

end JudoEngine
