/-
What `~JudoServer` destroys, closes and takes out.

It goes through the table from the last row down, destroys the row's node and takes the row
out by its `pollfd`. The table moves its last row into a gap and shrinks on the way, but the
last row is the one that is taken out, so each round is about one row more. A node that is in
two rows is destroyed in both; what it holds as TLS fields is freed, set or not; and no row's
socket is closed. The only socket that is closed is the listening one, of which the object has
another copy.
-/
import JudoEngine.JudoServer.Handling
import JudoEngine.Lib.Obeys

set_option autoImplicit false

open Words

namespace JudoEngine

/-! ## The tables of a server

The destructor removes rows by their pollfd, so what it does depends on how the table came
about: on adds, removes and stores to `revents`, one of which each function that writes the
table makes. -/

/-- The tables that the operations on tables lead to. -/
inductive MadeTable : DualDynamicArray pollfd ssl_node → Prop where
  | new : MadeTable .new
  | add {d : DualDynamicArray pollfd ssl_node} (h : MadeTable d) (t_poll : pollfd) (t_node : ssl_node) :
      MadeTable (d.add t_poll t_node)
  | remove {d : DualDynamicArray pollfd ssl_node} (h : MadeTable d) (t_poll : pollfd) :
      MadeTable (d.remove compare_pollfd t_poll)
  | modifyFirst {d : DualDynamicArray pollfd ssl_node} (h : MadeTable d) (index : ℕ) (f : pollfd → pollfd) :
      MadeTable (d.modifyFirst index f)
  | mapFirst {d : DualDynamicArray pollfd ssl_node} (h : MadeTable d) (f : ℕ → pollfd → pollfd) : MadeTable (d.mapFirst f)

/-- They store rows. -/
theorem MadeTable.rep {d : DualDynamicArray pollfd ssl_node} (h : MadeTable d) : d.Rep d.rows := by
  have hrows : ∃ rows, d.Rep rows := by
    induction h with
    | new => exact ⟨[], DualDynamicArray.rep_new⟩
    | add h t_poll t_node ih =>
        obtain ⟨rows, hrep⟩ := ih
        exact ⟨_, (DualDynamicArray.add_spec hrep t_poll t_node).1⟩
    | remove h t_poll ih =>
        obtain ⟨rows, hrep⟩ := ih
        exact (DualDynamicArray.removes compare_pollfd hrep t_poll).2
    | modifyFirst h index f ih =>
        obtain ⟨rows, hrep⟩ := ih
        by_cases hindex : index < rows.length
        · exact ⟨_, hrep.modifyFirst hindex f⟩
        · exact ⟨rows, hrep.modifyFirst_beyond (not_lt.mp hindex) f⟩
    | mapFirst h f ih =>
        obtain ⟨rows, hrep⟩ := ih
        exact ⟨_, hrep.mapFirst f⟩
  obtain ⟨rows, hrep⟩ := hrows
  exact hrep.rows_eq.symm ▸ hrep

section Calls

variable {server server' : JudoServer} {tr : List (Event Op Ans)} {ret : ℤ}

/-- `judoAccept_` adds a row or leaves the table. -/
theorem madeTable_judoAccept_ {fuel : ℕ} (h : MadeTable server.m_ssl_nodes)
    (hruns : Prog.Runs (judoAccept_ (judoHandshake_ · · fuel) server) tr (some (server', ret))) :
    MadeTable server'.m_ssl_nodes := by
  rcases runs_judoAccept_table (fun _ _ => internal_judoHandshake_ ..) hruns with ⟨-, rfl⟩ | ⟨-, n, rfl, -⟩
  · exact h
  · exact h.add ..

/-- So does `judoConnect_`. -/
theorem madeTable_judoConnect_ {fuel : ℕ} {t_cert t_key : Option String} {t_mode : Byte} (h : MadeTable server.m_ssl_nodes)
    (hruns : Prog.Runs (judoConnect_ (judoHandshake_ · · fuel) server t_cert t_key t_mode) tr (some (server', ret))) :
    MadeTable server'.m_ssl_nodes := by
  cases runs_connects (fun _ _ => internal_judoHandshake_ ..) hruns with
  | unfilled hfds hret hclient => exact hclient ▸ h
  | closed fp hfds hret hclient => exact hclient ▸ h
  | late fp fd hfds hfreed hret hclient => exact hclient ▸ h
  | added n buffer pre post htr hpost hfds hmode hconnect hmet =>
      obtain ⟨rfl, -⟩ := runs_hello hpost
      exact h.add ..

/-- `judoRead_` removes one or leaves it. -/
theorem madeTable_judoRead_ {fuel : ℕ} {t_node : ssl_node} {t_poll : pollfd} {t_out_buf t_out_buf' : ℕ} {size : ℤ}
    (h : MadeTable server.m_ssl_nodes)
    (hruns : Prog.Runs (judoRead_ fuel server t_node t_poll t_out_buf) tr (some (server', ret, t_out_buf', size))) :
    MadeTable server'.m_ssl_nodes := by
  rcases runs_reads hruns with ⟨-, rfl, -⟩ | ⟨-, rfl, -⟩
  · exact h
  · exact h.remove t_poll

/-- Clearing stores to `revents`. -/
theorem madeTable_clear {s s' : Round} (h : MadeTable s.table) (hruns : Prog.Runs s.clear tr s') : MadeTable s'.table := by
  obtain ⟨x, tr, rfl, rfl, rfl⟩ := hruns
  split
  · exact h.modifyFirst ..
  · exact h

/-- Serving a row is one of the calls. -/
theorem madeTable_serve {fuel : ℕ} {s s' : Round} {act : Act} {p : pollfd} {n : ssl_node} (h : MadeTable s.table)
    (hserve : ServeRun fuel s p n tr s' act) : MadeTable s'.table := by
  cases hserve with
  | idle => exact h
  | accept hrevents hfd haccept => exact madeTable_judoAccept_ h haccept
  | read hrevents hfd hclear hread =>
      have hserved := madeTable_judoRead_ (madeTable_clear h hclear) hread
      split
      · exact hserved
      · exact hserved

/-- Loading adds the rows of the requests. -/
theorem madeTable_load (requests : List judo_request_node) : ∀ {server : JudoServer}, MadeTable server.m_ssl_nodes →
    MadeTable (run.load server requests).m_ssl_nodes := by
  induction requests with
  | nil => exact fun h => h
  | cons current queue ih =>
      intro server h
      unfold run.load
      split
      · exact ih (h.add ..)
      · exact ih h

/-- Each step of `run` keeps to these tables. -/
theorem LoopStep.madeTable {s s' : RunState} {out : Outcome} (hstep : LoopStep s out tr s') (hserver : s.server = some server)
    (hserver' : s'.server = some server') (h : MadeTable server.m_ssl_nodes) : MadeTable server'.m_ssl_nodes := by
  cases hstep with
  | round ha hruns =>
      obtain ⟨requests, tr, rfl, polled, tr, rfl, rfl, rfl⟩ := hruns
      cases hserver
      cases hserver'
      exact (madeTable_load requests h).mapFirst _
  | @iteration s s' act tr fuel hgo hruns =>
      cases hserver
      cases hserver'
      obtain ⟨p, n, before, tr', after, s₁, -, -, -, hserve, hadvance⟩ := serveRun_of_iteration hruns
      have hbefore : MadeTable (Round.table { s with array_size := s.table.getSize }) := h
      have hserved : MadeTable s₁.table := madeTable_serve hbefore hserve
      rcases runs_advance hadvance with ⟨-, -, rfl⟩ | ⟨-, s₃, hclear, rfl⟩
      · exact hserved
      · have hcleared := madeTable_clear hserved hclear
        exact hcleared
  | halt fuel hgo hruns => exact absurd hserver' (Option.some_ne_none _).symm
  | again hdone =>
      cases hserver
      cases hserver'
      exact h

/-- So does the whole run. -/
theorem LoopRun.madeTable {P : RunState → Outcome → Prop} {s : RunState} (hrun : LoopRun P server tr s)
    (h : MadeTable server.m_ssl_nodes) : ∀ {server' : JudoServer}, s.server = some server' → MadeTable server'.m_ssl_nodes := by
  induction hrun with
  | start =>
      intro server' hserver'
      cases hserver'
      exact h
  | @step tr tr' s s' out hrun hcond hstep ih =>
      intro server' hserver'
      cases hs : s.server with
      | none =>
          cases s with
          | halted => cases hstep
          | outer => cases hs
          | inner => cases hs
      | some server₁ => exact hstep.madeTable hs hserver' (ih hs)

/-- So does every call. -/
theorem Makes.madeTable {call : ServerCall} (hmakes : Makes server call tr server' ret) (h : MadeTable server.m_ssl_nodes) :
    MadeTable server'.m_ssl_nodes := by
  -- the set-up calls leave the table; the others add the row of a node they made, or take a row out
  cases hmakes with
  | judoMakeServerSock_ hruns =>
      rcases runs_judoMakeServerSock_ hruns with ⟨-, rfl, -, -⟩ | ⟨-, -, fd, -, rfl⟩
      · exact h
      · exact h.add ..
  | judoSetUpServerSockSSL hruns =>
      obtain ⟨-, node, rfl⟩ := runs_judoSetUpServerSockSSL hruns
      exact h
  | judoServerRequireCerts hruns =>
      obtain ⟨-, ⟨-, -, -, rfl⟩ | ⟨-, rfl⟩⟩ := runs_requireCerts hruns
      · exact h
      · exact h
  | judoClientRequireCerts hruns =>
      obtain ⟨-, ⟨-, -, -, rfl⟩ | ⟨-, rfl⟩⟩ := runs_requireCerts hruns
      · exact h
      · exact h
  | judoAccept_ fuel hruns => exact madeTable_judoAccept_ h hruns
  | judoConnect_ fuel hruns => exact madeTable_judoConnect_ h hruns
  | judoRead_ fuel hruns => exact madeTable_judoRead_ h hruns
  | judoDisconnect_ ret hruns =>
      obtain ⟨rfl, -⟩ := runs_judoDisconnect_ hruns
      exact h.remove _
  | run ret hrun hserver => exact hrun.madeTable h hserver

end Calls

/-- **Every table** that a server ever has is one of these. -/
theorem Life.madeTable {P : ServerCall → JudoServer → Prop} {t_addr : Option sockaddr_in} {log : List Called}
    {server : JudoServer} (h : Life P t_addr log server) : MadeTable server.m_ssl_nodes := by
  induction h with
  | new hinit =>
      obtain ⟨node, tr, rfl, -, tr, rfl, rfl, rfl⟩ := hinit
      exact .new
  | newAt hinit hmakes =>
      obtain ⟨node, tr, rfl, -, tr, rfl, rfl, rfl⟩ := hinit
      exact hmakes.madeTable .new
  | call h hcond hmakes ih => exact hmakes.madeTable ih

/-! ## The destructor

Its trace is read in three ways: which nodes are deleted, which descriptors are closed and,
below, which TLS objects are freed. -/

/-- `~JudoServer`, with the table that it has in the end. -/
def JudoServer.destroyed (server : JudoServer) : Sys (DualDynamicArray pollfd ssl_node) := do
  let m_ssl_nodes ← JudoServer.destroy.loop server server.m_ssl_nodes.getSize server.m_ssl_nodes
  sys (.close server.m_server_list_sock)
  pure m_ssl_nodes

/-- The nodes that are deleted. -/
def deletedNodes (tr : List (Event Op Ans)) : List ℕ :=
  tr.filterMap fun ev =>
    match ev.op with
    | .delete_ssl_node node => some node
    | _ => none

/-- The descriptors that are closed. -/
def closedFds (tr : List (Event Op Ans)) : List ℤ :=
  tr.filterMap fun ev =>
    match ev.op with
    | .close fd => some fd
    | _ => none

theorem deletedNodes_append (tr tr' : List (Event Op Ans)) : deletedNodes (tr ++ tr') = deletedNodes tr ++ deletedNodes tr' :=
  List.filterMap_append

theorem closedFds_append (tr tr' : List (Event Op Ans)) : closedFds (tr ++ tr') = closedFds tr ++ closedFds tr' :=
  List.filterMap_append

/-! ### TLS objects

`dstr_ssl_node` frees the `ssl` and the `ssl_ctx` of its node, whether anybody has set them
or not. Freeing a null pointer does nothing; any other pointer must be that of an object
which OpenSSL has given out and which has not been freed since.
-/

/-- The objects that there are. -/
structure TlsObjects where
  ssl : List ℕ
  ssl_ctx : List ℕ

/-- How they come and go. -/
def tlsLedger : Protocol Op Ans TlsObjects where
  allows held o :=
    match o with
    | .SSL_free ssl => ssl = 0 ∨ ssl ∈ held.ssl
    | .SSL_CTX_free ctx => ctx = 0 ∨ ctx ∈ held.ssl_ctx
    | _ => True
  answers _ := True
  after held ev :=
    match ev with
    | ⟨.SSL_new _, ssl⟩ => { held with ssl := ssl :: held.ssl }
    | ⟨.SSL_CTX_new _, ctx⟩ => { held with ssl_ctx := ctx :: held.ssl_ctx }
    | ⟨.SSL_free ssl, _⟩ => { held with ssl := held.ssl.erase ssl }
    | ⟨.SSL_CTX_free ctx, _⟩ => { held with ssl_ctx := held.ssl_ctx.erase ctx }
    | _ => held

/-- Those of a server after these calls. -/
def tlsObjects (log : List Called) : TlsObjects := tlsLedger.afters ⟨[], []⟩ (wholeTrace log)

/-- The TLS fields of these nodes are null, or objects that there are, each of them in one
field. -/
def FieldsThere (held : TlsObjects) (nodes : List ssl_node) : Prop :=
  ∀ p, p ≠ 0 → (nodes.map ssl_node.ssl).count p ≤ held.ssl.count p ∧ (nodes.map ssl_node.ssl_ctx).count p ≤ held.ssl_ctx.count p

/-- The `ssl` fields that are freed. -/
def freedSsl (tr : List (Event Op Ans)) : List ℕ :=
  tr.filterMap fun ev =>
    match ev.op with
    | .SSL_free ssl => some ssl
    | _ => none

/-- The `ssl_ctx` fields that are freed. -/
def freedCtx (tr : List (Event Op Ans)) : List ℕ :=
  tr.filterMap fun ev =>
    match ev.op with
    | .SSL_CTX_free ctx => some ctx
    | _ => none

/-- What the destructor asks for. -/
def destroying : Op → Bool
  | .access _ _ _ _ | .SSL_free _ | .SSL_CTX_free _ | .delete_ssl_node _ | .close _ => true
  | _ => false

/-- One pointer is freed, and then the others. -/
theorem count_free_iff {p : ℕ} {freed held : List ℕ} :
    ((p = 0 ∨ p ∈ held) ∧ ∀ q, q ≠ 0 → freed.count q ≤ (held.erase p).count q)
      ↔ ∀ q, q ≠ 0 → (p :: freed).count q ≤ held.count q := by
  -- a pointer that is freed is held once less for the rest, and every other as often as before
  constructor
  · rintro ⟨hthere, hrest⟩ q hq
    have hcount := hrest q hq
    by_cases hsame : p = q
    · subst hsame
      have hpos : 0 < held.count p := List.count_pos_iff.mpr (hthere.resolve_left hq)
      rw [List.count_erase_self] at hcount
      rw [List.count_cons_self]
      omega
    · rw [List.count_erase_of_ne (Ne.symm hsame)] at hcount
      rwa [List.count_cons_of_ne hsame]
  · intro hall
    refine ⟨or_iff_not_imp_left.mpr fun hp => ?_, fun q hq => ?_⟩
    · have hcount := hall p hp
      rw [List.count_cons_self] at hcount
      exact List.count_pos_iff.mp (by omega)
    · have hcount := hall q hq
      by_cases hsame : p = q
      · subst hsame
        rw [List.count_cons_self] at hcount
        rw [List.count_erase_self]
        omega
      · rw [List.count_cons_of_ne hsame] at hcount
        rwa [List.count_erase_of_ne (Ne.symm hsame)]

/-- A destruction frees what is there exactly when no pointer is freed too often. -/
theorem follows_tlsLedger_iff {tr : List (Event Op Ans)} (hops : ∀ ev ∈ tr, destroying ev.op = true) : ∀ {held : TlsObjects},
    tlsLedger.Follows held tr ↔ (∀ p, p ≠ 0 → (freedSsl tr).count p ≤ held.ssl.count p)
      ∧ ∀ p, p ≠ 0 → (freedCtx tr).count p ≤ held.ssl_ctx.count p := by
  induction tr with
  | nil => exact iff_of_true trivial ⟨fun _ _ => Nat.zero_le _, fun _ _ => Nat.zero_le _⟩
  | cons ev tr ih =>
      intro held
      obtain ⟨hop, hrest⟩ := List.forall_mem_cons.mp hops
      obtain ⟨o, x⟩ := ev
      -- only the two frees are on the ledger, and each takes one from the count of its object
      cases o with
      | SSL_free ssl =>
          refine (and_congr_right fun _ => ih hrest).trans ?_
          rw [← and_assoc]
          exact and_congr_left fun _ => count_free_iff
      | SSL_CTX_free ctx =>
          refine (and_congr_right fun _ => ih hrest).trans ?_
          rw [and_left_comm]
          exact and_congr_right fun _ => count_free_iff
      | access arrays index m_arrays m_size => exact (and_iff_right trivial).trans (ih hrest)
      | delete_ssl_node node => exact (and_iff_right trivial).trans (ih hrest)
      | close fd => exact (and_iff_right trivial).trans (ih hrest)
      | _ => cases hop

/-- Each stored node is destroyed once, each stored socket is closed once, nothing else is
destroyed or closed, and the table is empty in the end; and the TLS objects that are freed
with the nodes are there. A negative descriptor is no socket. -/
structure DestroyedComplete (held : TlsObjects) (rows : List (pollfd × ssl_node)) (tr : List (Event Op Ans))
    (m_ssl_nodes : DualDynamicArray pollfd ssl_node) : Prop where
  destroyed : ∀ node, (deletedNodes tr).count node = if node ∈ rows.map fun row => row.2.addr then 1 else 0
  closed : ∀ fd : ℤ, 0 ≤ fd → (closedFds tr).count fd = if fd ∈ fds rows then 1 else 0
  freed : tlsLedger.Follows held tr
  empty : m_ssl_nodes.getSize = 0

section

variable {server : JudoServer} {tr : List (Event Op Ans)} {m_ssl_nodes : DualDynamicArray pollfd ssl_node}

theorem freedSsl_append (tr tr' : List (Event Op Ans)) : freedSsl (tr ++ tr') = freedSsl tr ++ freedSsl tr' := List.filterMap_append

theorem freedCtx_append (tr tr' : List (Event Op Ans)) : freedCtx (tr ++ tr') = freedCtx tr ++ freedCtx tr' := List.filterMap_append

/-- What has been done to the nodes of these rows. -/
structure DestroyedRows (server : JudoServer) (rows : List (pollfd × ssl_node)) (tr : List (Event Op Ans)) : Prop where
  deleted : (deletedNodes tr).Perm (rows.map fun row => row.2.addr)
  ssl : (freedSsl tr).Perm (rows.map fun row => (server.node row.2).ssl)
  ssl_ctx : (freedCtx tr).Perm (rows.map fun row => (server.node row.2).ssl_ctx)
  only : ∀ ev ∈ tr, destroying ev.op = true

/-- **The loop** destroys the nodes of all rows, closes nothing, and takes all rows out. -/
theorem runs_destroy_loop {i : ℕ} : ∀ {d : DualDynamicArray pollfd ssl_node} {rows : List (pollfd × ssl_node)}
    {tr : List (Event Op Ans)}, d.Rep rows → (fds rows).Nodup → rows.length = i →
    Prog.Runs (JudoServer.destroy.loop server i d) tr m_ssl_nodes →
      DestroyedRows server rows tr ∧ closedFds tr = [] ∧ m_ssl_nodes.getSize = 0 := by
  -- on the rows left: the last row goes, since remove moves the last row into the place of the one
  -- removed
  induction i with
  | zero =>
      intro d rows tr hrep _ hi hruns
      obtain ⟨rfl, rfl⟩ := hruns
      rw [List.length_eq_zero_iff.mp hi] at hrep ⊢
      exact ⟨⟨.nil, .nil, .nil, fun _ hnil => absurd hnil List.not_mem_nil⟩, rfl, hrep.size⟩
  | succ i ih =>
      intro d rows tr hrep hdistinct hi hruns
      obtain ⟨row, -, hfirst, hsecond, rows', hperm, hlen, hrep', hdistinct'⟩ := remove_last hrep hdistinct hi
      obtain ⟨wild, tr, rfl, -, tr, rfl, -, tr, rfl, -, tr, rfl, wild', tr, rfl, hrest⟩ := hruns
      rw [hfirst] at hrest
      have hrest : Prog.Runs (JudoServer.destroy.loop server i (d.remove compare_pollfd row.1)) tr m_ssl_nodes := hrest
      obtain ⟨hrows, hclosed, hempty⟩ := ih hrep' hdistinct' hlen hrest
      rw [hsecond, Option.getD_some, Nodes.node_addr]
      refine ⟨⟨?_, ?_, ?_, ?_⟩, hclosed, hempty⟩
      · exact (hrows.deleted.cons row.2.addr).trans (hperm.map fun row : pollfd × ssl_node => row.2.addr).symm
      · exact (hrows.ssl.cons (server.node row.2).ssl).trans (hperm.map fun row : pollfd × ssl_node => (server.node row.2).ssl).symm
      · exact (hrows.ssl_ctx.cons (server.node row.2).ssl_ctx).trans
          (hperm.map fun row : pollfd × ssl_node => (server.node row.2).ssl_ctx).symm
      · exact List.forall_mem_cons.mpr ⟨rfl, List.forall_mem_cons.mpr ⟨rfl, List.forall_mem_cons.mpr ⟨rfl,
          List.forall_mem_cons.mpr ⟨rfl, List.forall_mem_cons.mpr ⟨rfl, hrows.only⟩⟩⟩⟩⟩

/-- What any destruction does. -/
theorem runs_destroyed (htable : MadeTable server.m_ssl_nodes) (hdistinct : (fds server.m_ssl_nodes.rows).Nodup)
    (hruns : Prog.Runs server.destroyed tr m_ssl_nodes) :
    DestroyedRows server server.m_ssl_nodes.rows tr ∧ closedFds tr = [server.m_server_list_sock] ∧ m_ssl_nodes.getSize = 0 := by
  have hrep := htable.rep
  obtain ⟨tr₁, tr₂, d, rfl, hloop, -, tr, rfl, rfl, rfl⟩ := Prog.runs_bind.mp hruns
  obtain ⟨hrows, hclosed, hempty⟩ := runs_destroy_loop hrep hdistinct hrep.size.symm hloop
  refine ⟨⟨?_, ?_, ?_, ?_⟩, ?_, hempty⟩
  · rw [deletedNodes_append, show deletedNodes [⟨.close server.m_server_list_sock, ()⟩] = [] from rfl, List.append_nil]
    exact hrows.deleted
  · rw [freedSsl_append, show freedSsl [⟨.close server.m_server_list_sock, ()⟩] = [] from rfl, List.append_nil]
    exact hrows.ssl
  · rw [freedCtx_append, show freedCtx [⟨.close server.m_server_list_sock, ()⟩] = [] from rfl, List.append_nil]
    exact hrows.ssl_ctx
  · exact List.forall_mem_append.mpr ⟨hrows.only, List.forall_mem_singleton.mpr rfl⟩
  · rw [closedFds_append, hclosed]
    rfl

/-- Once each means that none is stored twice. -/
theorem count_eq_iff_nodup {α : Type} [DecidableEq α] (l : List α) :
    (∀ x, l.count x = if x ∈ l then 1 else 0) ↔ l.Nodup := by
  constructor
  · intro hcount
    refine List.nodup_iff_count_le_one.mpr fun x => ?_
    rw [hcount x]
    split
    · exact Nat.le_refl 1
    · exact Nat.zero_le 1
  · intro hnodup x
    split
    · next hmem => exact List.count_eq_one_of_mem hnodup hmem
    · next hmem => exact List.count_eq_zero_of_not_mem hmem

/-- **The destructor.** Whatever a server has done before, if its table has no descriptor
twice, the destructor accounts for all nodes and sockets exactly when no node is in two
rows, the TLS fields of the nodes are there, and the listening socket is the only one that
the table stores. -/
theorem destroyed_complete_iff {t_addr : Option sockaddr_in} {log : List Called}
    (hlife : Life (fun _ _ => True) t_addr log server) (hdistinct : (fds server.m_ssl_nodes.rows).Nodup)
    (hruns : Prog.Runs server.destroyed tr m_ssl_nodes) :
    DestroyedComplete (tlsObjects log) server.m_ssl_nodes.rows tr m_ssl_nodes
      ↔ (server.m_ssl_nodes.rows.map fun row => row.2.addr).Nodup
        ∧ (∀ fd : ℤ, 0 ≤ fd → (fd ∈ fds server.m_ssl_nodes.rows ↔ fd = server.m_server_list_sock))
        ∧ FieldsThere (tlsObjects log) (server.m_ssl_nodes.rows.map fun row => server.node row.2) := by
  obtain ⟨hrows, hclosed, hempty⟩ := runs_destroyed hlife.madeTable hdistinct hruns
  -- each of the three parts of completeness is one of the three conditions
  have hnodes : (∀ node, (deletedNodes tr).count node = if node ∈ server.m_ssl_nodes.rows.map fun row => row.2.addr then 1 else 0)
      ↔ (server.m_ssl_nodes.rows.map fun row => row.2.addr).Nodup := by
    rw [← count_eq_iff_nodup]
    exact forall_congr' fun node => by rw [hrows.deleted.count_eq]
  -- the only socket that is closed is the listening one
  have hsockets : (∀ fd : ℤ, 0 ≤ fd → (closedFds tr).count fd = if fd ∈ fds server.m_ssl_nodes.rows then 1 else 0)
      ↔ ∀ fd : ℤ, 0 ≤ fd → (fd ∈ fds server.m_ssl_nodes.rows ↔ fd = server.m_server_list_sock) := by
    refine forall₂_congr fun fd _ => ?_
    rw [hclosed, List.count_singleton]
    by_cases hsock : server.m_server_list_sock = fd
    · by_cases hmem : fd ∈ fds server.m_ssl_nodes.rows
      · simp [hsock, hmem]
      · simp [hsock, hmem]
    · by_cases hmem : fd ∈ fds server.m_ssl_nodes.rows
      · simp [hsock, hmem, Ne.symm hsock]
      · simp [hsock, hmem, Ne.symm hsock]
  have hfields : tlsLedger.Follows (tlsObjects log) tr
      ↔ FieldsThere (tlsObjects log) (server.m_ssl_nodes.rows.map fun row => server.node row.2) := by
    rw [follows_tlsLedger_iff hrows.only, ← forall₂_and]
    refine forall₂_congr fun p _ => ?_
    rw [hrows.ssl.count_eq, hrows.ssl_ctx.count_eq, List.map_map, List.map_map]
    exact Iff.rfl
  constructor
  · intro hcomplete
    exact ⟨hnodes.mp hcomplete.destroyed, hsockets.mp hcomplete.closed, hfields.mp hcomplete.freed⟩
  · rintro ⟨hnodup, honly, hthere⟩
    exact ⟨hnodes.mpr hnodup, hsockets.mpr honly, hfields.mpr hthere, hempty⟩

end

/-- A system that hands out each number once, as an address or as a descriptor. -/
def freshAnswer : ℤ → (o : Op) → Ans o × ℤ
  | n, .new_ssl_node => ({ (default : ssl_node) with addr := n.toNat }, n + 1)
  | n, .SSL_CTX_new _ => (n.toNat, n + 1)
  | n, .SSL_new _ => (n.toNat, n + 1)
  | n, .SSL_CTX_use_certificate_file _ _ => (1, n)
  | n, .SSL_CTX_use_PrivateKey_file _ _ => (1, n)
  | n, o => orderlyAnswer n o

/-- A server with a listening socket, and these rows behind its own. -/
def serverWith (rows : List (pollfd × ssl_node)) : JudoServer :=
  { JudoServer.init_ { (default : ssl_node) with addr := 2 } with
    m_list_sock_addr := ⟨0x7F000001, 0x901F⟩
    m_server_list_sock := 3
    m_ssl_nodes := rows.foldl (fun d row => d.add row.1 row.2)
      (DualDynamicArray.new.add ⟨3, POLLIN, 0⟩ { (default : ssl_node) with addr := 2 }) }

/-- A connection that it makes. -/
def connection : pollfd × ssl_node := (⟨5, POLLIN, 0⟩, { (default : ssl_node) with addr := 4, fp := 5, mode := 0x0A })

/-- A server that listens. -/
theorem life_listening : ∃ log, Life (fun _ _ => True) (some ⟨0x7F000001, 0x901F⟩) log (serverWith []) :=
  ⟨_, .newAt (Prog.runs_exec (h := freshAnswer) JudoServer.init 2)
    (.judoMakeServerSock_ (Prog.runs_exec (h := freshAnswer) _ 3))⟩

/-- One with a connection. -/
theorem life_connected : ∃ log, Life (fun _ _ => True) (some ⟨0x7F000001, 0x901F⟩) log (serverWith [connection]) := by
  obtain ⟨log, hlife⟩ := life_listening
  have hconnect : Makes (serverWith []) (.judoConnect_ none none 0) _ (serverWith [connection]) 0 :=
    .judoConnect_ 0 (Prog.runs_exec (h := freshAnswer) _ 4)
  exact ⟨_, hlife.call trivial hconnect⟩

/-- The listening server when TLS has been set up. -/
def securedServer : JudoServer :=
  { serverWith [] with
    m_server_cert_file := some "cert.pem"
    m_server_private_key_file := some "key.pem"
    m_server_list_sock_node := { (default : ssl_node) with addr := 2, ssl := 5, ssl_ctx := 4 }
    m_mode := (serverWith []).m_mode ||| JUDO_MODE_SSL_ENABLED }

/-- One with TLS, whose objects are those of its set-up. -/
theorem life_secured : ∃ log, Life (fun _ _ => True) (some ⟨0x7F000001, 0x901F⟩) log securedServer
    ∧ (tlsObjects log).ssl = [5] ∧ (tlsObjects log).ssl_ctx = [4] := by
  have hmake : Makes { JudoServer.init_ { (default : ssl_node) with addr := 2 } with m_list_sock_addr := ⟨0x7F000001, 0x901F⟩ }
      .judoMakeServerSock_ _ (serverWith []) 0 := .judoMakeServerSock_ (Prog.runs_exec (h := freshAnswer) _ 3)
  have hsetup : Makes (serverWith []) (.judoSetUpServerSockSSL (some "cert.pem") (some "key.pem")) _ securedServer 0 :=
    .judoSetUpServerSockSSL (Prog.runs_exec (h := freshAnswer) _ 4)
  have hlife : Life (fun _ _ => True) (some ⟨0x7F000001, 0x901F⟩) _ securedServer :=
    (Life.newAt (Prog.runs_exec (h := freshAnswer) JudoServer.init 2) hmake).call trivial hsetup
  exact ⟨_, hlife, by decide, by decide⟩

/-- A server with TLS and without connections is destroyed completely. -/
theorem destroyed_complete_secured : ∃ log tr m_ssl_nodes,
    Life (fun _ _ => True) (some ⟨0x7F000001, 0x901F⟩) log securedServer ∧ Prog.Runs securedServer.destroyed tr m_ssl_nodes
      ∧ DestroyedComplete (tlsObjects log) securedServer.m_ssl_nodes.rows tr m_ssl_nodes := by
  obtain ⟨log, hlife, hssl, hctx⟩ := life_secured
  have hruns := Prog.runs_exec (h := freshAnswer) securedServer.destroyed 6
  have honly : ∀ fd : ℤ, 0 ≤ fd → (fd ∈ fds securedServer.m_ssl_nodes.rows ↔ fd = 3) := fun fd _ => List.mem_singleton
  have hthere : FieldsThere (tlsObjects log) (securedServer.m_ssl_nodes.rows.map fun row => securedServer.node row.2) := by
    intro p _
    rw [hssl, hctx]
    exact ⟨le_rfl, le_rfl⟩
  exact ⟨log, _, _, hlife, hruns,
    (destroyed_complete_iff hlife (List.nodup_singleton 3) hruns).mpr ⟨List.nodup_singleton 2, honly, hthere⟩⟩

/-- The socket of a connection stays open. -/
theorem not_destroyed_complete : ¬ ∀ (t_addr : Option sockaddr_in) (log : List Called) (server : JudoServer)
    (tr : List (Event Op Ans)) (m_ssl_nodes : DualDynamicArray pollfd ssl_node), Life (fun _ _ => True) t_addr log server →
    (fds server.m_ssl_nodes.rows).Nodup → Prog.Runs server.destroyed tr m_ssl_nodes →
    DestroyedComplete (tlsObjects log) server.m_ssl_nodes.rows tr m_ssl_nodes := by
  intro hall
  obtain ⟨log, hlife⟩ := life_connected
  have hruns := Prog.runs_exec (h := freshAnswer) (serverWith [connection]).destroyed 6
  have hdistinct : (fds (serverWith [connection]).m_ssl_nodes.rows).Nodup := by decide
  obtain ⟨-, hclosed, -⟩ := runs_destroyed hlife.madeTable hdistinct hruns
  have hcount := (hall _ log _ _ _ hlife hdistinct hruns).closed 5 (by decide)
  rw [hclosed] at hcount
  exact absurd hcount (by decide)

end JudoEngine
