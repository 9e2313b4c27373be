/-
The life of a `JudoServer`: it is constructed, and then its member functions are called
one after the other.

`Makes` says what one call does, `run` included, which may be left at any point that it
reaches; `Life` puts the calls together and keeps a log of them. What a statement is
about is narrowed by a condition on each call. The constructor that takes an address
calls `judoMakeServerSock_`, and that call is logged like any other.
-/
import JudoEngine.JudoServer.Exits
import JudoEngine.JudoServer.Negotiation
import JudoEngine.JudoServer.Run

set_option autoImplicit false

open Words

namespace JudoEngine

/-! ## Calls

`run` is a call like the others, but it need not end, and nothing that holds of a server
should wait for it to: so it is logged with the state that it has reached. The destructor is
no call; it comes once and last, and the modules that are about it run it after a life. -/

/-- The server as `run` has it at some point. -/
def RunState.server : RunState → Option JudoServer
  | outer server _ => some server
  | inner s => some s.server
  | halted => none

/-- A call of a member function. -/
inductive ServerCall where
  | judoMakeServerSock_
  | judoSetUpServerSockSSL (t_cert t_private_key : Option String)
  | judoServerRequireCerts
  | judoClientRequireCerts
  | judoAccept_
  | judoConnect_ (t_cert t_key : Option String) (t_mode : Byte)
  | judoRead_ (t_node : ssl_node) (t_poll : pollfd)
  | judoDisconnect_ (t_node : ssl_node) (t_poll : pollfd)
  | run
  deriving DecidableEq

/-- What a call does, with the record of its operations, and what it returns. -/
inductive Makes (server : JudoServer) : ServerCall → List (Event Op Ans) → JudoServer → ℤ → Prop where
  | judoMakeServerSock_ {tr : List (Event Op Ans)} {server' : JudoServer} {ret : ℤ}
      (h : Prog.Runs (JudoEngine.judoMakeServerSock_ server) tr (server', ret)) :
      Makes server .judoMakeServerSock_ tr server' ret
  | judoSetUpServerSockSSL {t_cert t_private_key : Option String} {tr : List (Event Op Ans)} {server' : JudoServer} {ret : ℤ}
      (h : Prog.Runs (JudoEngine.judoSetUpServerSockSSL server t_cert t_private_key) tr (server', ret)) :
      Makes server (.judoSetUpServerSockSSL t_cert t_private_key) tr server' ret
  | judoServerRequireCerts {tr : List (Event Op Ans)} {server' : JudoServer} {ret : ℤ}
      (h : Prog.Runs (JudoEngine.judoServerRequireCerts server) tr (server', ret)) :
      Makes server .judoServerRequireCerts tr server' ret
  | judoClientRequireCerts {tr : List (Event Op Ans)} {server' : JudoServer} {ret : ℤ}
      (h : Prog.Runs (JudoEngine.judoClientRequireCerts server) tr (server', ret)) :
      Makes server .judoClientRequireCerts tr server' ret
  | judoAccept_ (fuel : ℕ) {tr : List (Event Op Ans)} {server' : JudoServer} {ret : ℤ}
      (h : Prog.Runs (JudoEngine.judoAccept_ (judoHandshake_ · · fuel) server) tr (some (server', ret))) :
      Makes server .judoAccept_ tr server' ret
  | judoConnect_ (fuel : ℕ) {t_cert t_key : Option String} {t_mode : Byte} {tr : List (Event Op Ans)}
      {server' : JudoServer} {ret : ℤ}
      (h : Prog.Runs (JudoEngine.judoConnect_ (judoHandshake_ · · fuel) server t_cert t_key t_mode) tr (some (server', ret))) :
      Makes server (.judoConnect_ t_cert t_key t_mode) tr server' ret
  | judoRead_ (fuel : ℕ) {t_node : ssl_node} {t_poll : pollfd} {t_out_buf t_out_buf' : ℕ} {tr : List (Event Op Ans)}
      {server' : JudoServer} {ret size : ℤ}
      (h : Prog.Runs (JudoEngine.judoRead_ fuel server t_node t_poll t_out_buf) tr (some (server', ret, t_out_buf', size))) :
      Makes server (.judoRead_ t_node t_poll) tr server' ret
  | judoDisconnect_ {t_node : ssl_node} {t_poll : pollfd} {tr : List (Event Op Ans)} {server' : JudoServer} (ret : ℤ)
      (h : Prog.Runs (JudoEngine.judoDisconnect_ server t_node t_poll) tr server') :
      Makes server (.judoDisconnect_ t_node t_poll) tr server' ret
  | run {tr : List (Event Op Ans)} {s : RunState} {server' : JudoServer} (ret : ℤ)
      (h : LoopRun (fun _ _ => True) server tr s) (hserver : s.server = some server') : Makes server .run tr server' ret

/-- A call that has been made. -/
structure Called where
  call : ServerCall
  before : JudoServer
  trace : List (Event Op Ans)
  after : JudoServer
  ret : ℤ

/-- `JudoServer::init_`, with what it asks for. -/
def JudoServer.init : Sys JudoServer := do
  let node ← sys .new_ssl_node
  sys (.log "Server Init Complete" 0)
  pure (.init_ node)

/-- What the pointer in a row points to: the fields of the listening node may have been
set since its row was added. -/
def JudoServer.node (server : JudoServer) (n : ssl_node) : ssl_node :=
  if n.addr = server.m_server_list_sock_node.addr then server.m_server_list_sock_node else n

/-- The loop of `JudoServer::~JudoServer`, with the rows below `i` to go. A position that
the table has no row for holds anything. -/
def JudoServer.destroy.loop (server : JudoServer) :
    (i : ℕ) → DualDynamicArray pollfd ssl_node → Sys (DualDynamicArray pollfd ssl_node)
  | 0, m_ssl_nodes => pure m_ssl_nodes
  | i + 1, m_ssl_nodes => do
      let wild ← sys (.access m_ssl_nodes.arrays i m_ssl_nodes.arrays m_ssl_nodes.m_size)
      dstr_ssl_node (server.node ((m_ssl_nodes.m_second_array i).getD wild.2))
      let wild ← sys (.access m_ssl_nodes.arrays i m_ssl_nodes.arrays m_ssl_nodes.m_size)
      loop server i (m_ssl_nodes.remove compare_pollfd ((m_ssl_nodes.m_first_array i).getD wild.1))

/-- `JudoServer::~JudoServer`. -/
def JudoServer.destroy (server : JudoServer) : Sys Unit := do
  let _ ← JudoServer.destroy.loop server server.m_ssl_nodes.getSize server.m_ssl_nodes
  sys (.close server.m_server_list_sock)

/-- A server that was constructed, with an address or without, and the calls made since,
all of which meet a condition. -/
inductive Life (P : ServerCall → JudoServer → Prop) : Option sockaddr_in → List Called → JudoServer → Prop where
  | new {tr : List (Event Op Ans)} {server : JudoServer} (hinit : Prog.Runs JudoServer.init tr server) : Life P none [] server
  | newAt {t_addr : sockaddr_in} {tr tr' : List (Event Op Ans)} {server server' : JudoServer} {ret : ℤ}
      (hinit : Prog.Runs JudoServer.init tr server)
      (hmakes : Makes { server with m_list_sock_addr := t_addr } .judoMakeServerSock_ tr' server' ret) :
      Life P (some t_addr) [⟨.judoMakeServerSock_, { server with m_list_sock_addr := t_addr }, tr', server', ret⟩] server'
  | call {t_addr : Option sockaddr_in} {log : List Called} {server server' : JudoServer} {call : ServerCall}
      {tr : List (Event Op Ans)} {ret : ℤ} (h : Life P t_addr log server) (hcond : P call server)
      (hmakes : Makes server call tr server' ret) : Life P t_addr (log ++ [⟨call, server, tr, server', ret⟩]) server'

/-! ## What the calls leave alone

Most calls change nothing of the object but the table. The exceptions are listed: one lemma
for each of them says what it sets, and under which condition. -/

/-- The two servers differ in their tables at most. -/
def SameButTable (server server' : JudoServer) : Prop :=
  ∃ m_ssl_nodes, server' = { server with m_ssl_nodes := m_ssl_nodes }

namespace SameButTable

variable {server server' server'' : JudoServer}

/-- Nothing has changed. -/
theorem refl (server : JudoServer) : SameButTable server server := ⟨server.m_ssl_nodes, rfl⟩

/-- One change after the other. -/
theorem trans (h : SameButTable server server') (h' : SameButTable server' server'') : SameButTable server server'' := by
  obtain ⟨d, rfl⟩ := h
  obtain ⟨d', rfl⟩ := h'
  exact ⟨d', rfl⟩

end SameButTable

section Calls

variable {server server' : JudoServer} {tr : List (Event Op Ans)} {ret : ℤ}

/-- It adds a row at most. -/
theorem sameButTable_judoAccept_ {shake : ssl_node → ℤ → Sys (Option ℤ)} (hshake : ∀ n size, Internal (shake n size))
    (h : Prog.Runs (judoAccept_ shake server) tr (some (server', ret))) : SameButTable server server' := by
  rcases runs_judoAccept_table hshake h with ⟨-, rfl⟩ | ⟨-, n, rfl, -⟩
  · exact .refl _
  · exact ⟨_, rfl⟩

/-- So does a connect. -/
theorem sameButTable_judoConnect_ {shake : ssl_node → ℤ → Sys (Option ℤ)} (hshake : ∀ n size, Internal (shake n size))
    {t_cert t_key : Option String} {t_mode : Byte}
    (h : Prog.Runs (judoConnect_ shake server t_cert t_key t_mode) tr (some (server', ret))) : SameButTable server server' := by
  cases runs_connects hshake h with
  | unfilled hfds hret hclient => exact hclient ▸ .refl server
  | closed fp hfds hret hclient => exact hclient ▸ .refl server
  | late fp fd hfds hfreed hret hclient => exact hclient ▸ .refl server
  | added n buffer pre post htr hpost hfds hmode hconnect hmet =>
      obtain ⟨rfl, -⟩ := runs_hello hpost
      exact ⟨_, rfl⟩

/-- And a read takes one out at most. -/
theorem sameButTable_judoRead_ {fuel : ℕ} {t_node : ssl_node} {t_poll : pollfd} {t_out_buf t_out_buf' : ℕ} {size : ℤ}
    (h : Prog.Runs (judoRead_ fuel server t_node t_poll t_out_buf) tr (some (server', ret, t_out_buf', size))) :
    SameButTable server server' := by
  rcases runs_reads h with ⟨-, rfl, -⟩ | ⟨-, rfl, -⟩
  · exact .refl _
  · exact ⟨_, rfl⟩

/-- `judoDisconnect_` takes the row out, and closes the node's descriptor. -/
theorem runs_judoDisconnect_ {t_node : ssl_node} {t_poll : pollfd}
    (h : Prog.Runs (judoDisconnect_ server t_node t_poll) tr server') :
    server' = { server with m_ssl_nodes := server.m_ssl_nodes.remove compare_pollfd t_poll }
      ∧ fdEvents tr = [⟨.close t_node.fp, ()⟩] := by
  obtain ⟨-, tr, rfl, -, tr, rfl, -, tr, rfl, -, tr, rfl, -, tr, rfl, rfl, rfl⟩ := h
  exact ⟨rfl, rfl⟩

/-- `judoMakeServerSock_` fails on an empty address; otherwise it adds a row, whatever
`socket` has answered. -/
theorem runs_judoMakeServerSock_ (h : Prog.Runs (judoMakeServerSock_ server) tr (server', ret)) :
    (server.m_list_sock_addr = ⟨0, 0⟩ ∧ server' = server ∧ ret = JUDO_NO_SERVER_SOCK_ADDR ∧ fdEvents tr = [])
      ∨ server.m_list_sock_addr ≠ ⟨0, 0⟩ ∧ ret = JUDO_SUCCESS ∧ ∃ fd : ℤ, fdEvents tr = [⟨.socket, fd⟩]
        ∧ server' = { server with
            m_server_list_sock := fd
            m_ssl_nodes := server.m_ssl_nodes.add ⟨fd, POLLIN, 0⟩ server.m_server_list_sock_node } := by
  unfold judoMakeServerSock_ at h
  split at h
  · next haddr =>
      obtain ⟨-, tr, rfl, rfl, hret⟩ := h
      obtain ⟨rfl, rfl⟩ := Prod.mk.inj hret
      exact .inl ⟨haddr, rfl, rfl, rfl⟩
  · next haddr =>
      obtain ⟨fd, tr, rfl, -, tr, rfl, -, tr, rfl, -, tr, rfl, -, tr, rfl, rfl, hret⟩ := h
      obtain ⟨rfl, rfl⟩ := Prod.mk.inj hret
      exact .inr ⟨haddr, rfl, fd, rfl, rfl⟩

/-- `judoSetUpServerSockSSL` keeps the files it is given, and sets its flag when the
listening node could be filled. -/
theorem runs_judoSetUpServerSockSSL {t_cert t_private_key : Option String}
    (h : Prog.Runs (judoSetUpServerSockSSL server t_cert t_private_key) tr (server', ret)) :
    fdEvents tr = [] ∧ ∃ node : ssl_node, server' = { server with
      m_server_cert_file := t_cert
      m_server_private_key_file := t_private_key
      m_server_list_sock_node := node
      m_mode := if ret = JUDO_SUCCESS then server.m_mode ||| JUDO_MODE_SSL_ENABLED else server.m_mode } := by
  obtain ⟨tr₁, tr₂, filled, rfl, hfill, hrest⟩ := Prog.runs_bind.mp h
  have hquiet := fdEvents_of_internal (internal_judoFillServerSSLFields_ ..) hfill
  rw [fdEvents_append, hquiet]
  dsimp only at hrest
  split at hrest
  · next hfilled =>
      obtain ⟨-, tr, rfl, rfl, hret⟩ := hrest
      obtain ⟨rfl, rfl⟩ := Prod.mk.inj hret
      exact ⟨rfl, filled.1, by rw [if_neg hfilled]⟩
  · obtain ⟨-, tr, rfl, rfl, hret⟩ := hrest
    obtain ⟨rfl, rfl⟩ := Prod.mk.inj hret
    exact ⟨rfl, filled.1, by rw [if_pos rfl]⟩

/-- The two requirements are only set with TLS, and before `run`. -/
theorem runs_requireCerts {flag : BitVec 16} {done failed : String}
    (h : Prog.Runs (requireCerts server flag done failed) tr (server', ret)) :
    fdEvents tr = []
      ∧ ((server.m_mode &&& JUDO_MODE_SSL_ENABLED ≠ 0 ∧ server.m_active = false ∧ ret = 0
            ∧ server' = { server with m_mode := server.m_mode ||| flag })
          ∨ ret = -1 ∧ server' = server) := by
  unfold requireCerts at h
  split at h
  · next hready =>
      obtain ⟨-, tr, rfl, rfl, hret⟩ := h
      obtain ⟨rfl, rfl⟩ := Prod.mk.inj hret
      exact ⟨rfl, .inl ⟨hready.1, Bool.eq_false_iff.mpr hready.2, rfl, rfl⟩⟩
  · obtain ⟨-, tr, rfl, rfl, hret⟩ := h
    obtain ⟨rfl, rfl⟩ := Prod.mk.inj hret
    exact ⟨rfl, .inr ⟨rfl, rfl⟩⟩

/-! ## `run`

The loop changes the table and, before its first step, `m_active`. Whatever is in the table is
the matter of other modules. -/

/-- A round with another table. -/
theorem sameButTable_withTable (s : Round) (d : DualDynamicArray pollfd ssl_node) :
    SameButTable s.server (s.withTable d).server := ⟨d, rfl⟩

/-- The store to `revents`. -/
theorem sameButTable_clear {s s' : Round} (h : Prog.Runs s.clear tr s') : SameButTable s.server s'.server := by
  obtain ⟨x, tr, rfl, rfl, rfl⟩ := h
  split
  · exact sameButTable_withTable ..
  · exact .refl _

/-- Serving a row is a store and a call. -/
theorem sameButTable_serve {fuel : ℕ} {s s' : Round} {act : Act} {p : pollfd} {n : ssl_node}
    (h : ServeRun fuel s p n tr s' act) : SameButTable s.server s'.server := by
  cases h with
  | idle => exact .refl _
  | accept hrevents hfd haccept => exact sameButTable_judoAccept_ (fun _ _ => internal_judoHandshake_ ..) haccept
  | read hrevents hfd hclear hread =>
      have hserved := (sameButTable_clear hclear).trans (sameButTable_judoRead_ hread)
      split
      · exact hserved
      · exact hserved

/-- An iteration is the same with another store at its end. -/
theorem sameButTable_iteration {fuel : ℕ} {s s' : Round} {act : Act}
    (h : Prog.Runs (run.iteration fuel s) tr (some (s', act))) : SameButTable s.server s'.server := by
  obtain ⟨p, n, before, tr', after, s₁, -, -, -, hserve, hadvance⟩ := serveRun_of_iteration h
  have hserved : SameButTable { s with array_size := s.table.getSize }.server s₁.server := sameButTable_serve hserve
  rcases runs_advance hadvance with ⟨-, -, rfl⟩ | ⟨-, s₃, hclear, rfl⟩
  · exact hserved
  · have hcleared := sameButTable_clear hclear
    exact hserved.trans hcleared

/-- Requests add rows. -/
theorem sameButTable_load (requests : List judo_request_node) : ∀ (server : JudoServer),
    SameButTable server (run.load server requests) := by
  induction requests with
  | nil => exact .refl
  | cons current queue ih =>
      intro server
      unfold run.load
      split
      · exact SameButTable.trans ⟨_, rfl⟩ (ih _)
      · exact ih server

/-- A step of `run` changes the table at most. -/
theorem LoopStep.sameButTable {s s' : RunState} {out : Outcome} (h : LoopStep s out tr s') (hserver : s.server = some server)
    (hserver' : s'.server = some server') : SameButTable server server' := by
  cases h with
  | round ha hruns =>
      obtain ⟨requests, tr, rfl, polled, tr, rfl, rfl, rfl⟩ := hruns
      cases hserver
      cases hserver'
      exact (sameButTable_load requests _).trans ⟨_, rfl⟩
  | iteration fuel hgo hruns =>
      cases hserver
      cases hserver'
      exact sameButTable_iteration hruns
  | halt fuel hgo hruns => exact absurd hserver' (Option.some_ne_none _).symm
  | again hdone =>
      cases hserver
      cases hserver'
      exact .refl _

/-- `run` sets `m_active`, and changes nothing else but the table. -/
theorem LoopRun.sameButTable {P : RunState → Outcome → Prop} {s : RunState} (h : LoopRun P server tr s) :
    ∀ {server' : JudoServer}, s.server = some server' → SameButTable { server with m_active := true } server' := by
  induction h with
  | start =>
      intro server' hserver'
      cases hserver'
      exact .refl _
  | @step tr tr' s s' out h hcond hstep ih =>
      intro server' hserver'
      cases hs : s.server with
      | none =>
          -- nothing follows a call that does not return
          cases s with
          | halted => cases hstep
          | outer => cases hs
          | inner => cases hs
      | some server₁ => exact (ih hs).trans (hstep.sameButTable hs hserver')

end Calls

/-! ## The whole life

`Configured` is the invariant that a server's mode and buffer agree with each other
(`Negotiation`). Nothing that has been said above can break it. -/

/-- A change of the table does not matter to it. -/
theorem Configured.of_sameButTable {server server' : JudoServer} (h : Configured server) (hsame : SameButTable server server') :
    Configured server' := by
  obtain ⟨d, rfl⟩ := hsame
  exact h.table d

/-- Every call keeps the configuration; the four that set something have their lemma in
`Negotiation`. -/
theorem Configured.of_makes {server server' : JudoServer} {call : ServerCall} {tr : List (Event Op Ans)} {ret : ℤ}
    (h : Configured server) (hmakes : Makes server call tr server' ret) : Configured server' := by
  cases hmakes with
  | judoMakeServerSock_ hruns => exact h.judoMakeServerSock_ hruns
  | judoSetUpServerSockSSL hruns => exact h.judoSetUpServerSockSSL hruns
  | judoServerRequireCerts hruns => exact h.judoServerRequireCerts hruns
  | judoClientRequireCerts hruns => exact h.judoClientRequireCerts hruns
  | judoAccept_ fuel hruns => exact h.of_sameButTable (sameButTable_judoAccept_ (fun _ _ => internal_judoHandshake_ ..) hruns)
  | judoConnect_ fuel hruns =>
      exact h.of_sameButTable (sameButTable_judoConnect_ (fun _ _ => internal_judoHandshake_ ..) hruns)
  | judoRead_ fuel hruns => exact h.of_sameButTable (sameButTable_judoRead_ hruns)
  | judoDisconnect_ ret hruns =>
      obtain ⟨rfl, -⟩ := runs_judoDisconnect_ hruns
      exact h.table _
  | run ret hruns hserver => exact h.active.of_sameButTable (hruns.sameButTable hserver)

variable {P : ServerCall → JudoServer → Prop} {t_addr : Option sockaddr_in} {log : List Called} {server : JudoServer}

/-- Every server that there can be is configured by its calls. -/
theorem Life.configured (h : Life P t_addr log server) : Configured server := by
  induction h with
  | new hinit =>
      obtain ⟨node, tr, rfl, -, tr, rfl, rfl, rfl⟩ := hinit
      exact .init node
  | newAt hinit hmakes =>
      obtain ⟨node, tr, rfl, -, tr, rfl, rfl, rfl⟩ := hinit
      exact Configured.of_makes ((Configured.init node).addr _) hmakes
  | call h hcond hmakes ih => exact ih.of_makes hmakes

end JudoEngine
