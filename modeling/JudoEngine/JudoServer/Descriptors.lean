/-
The descriptors that a server has to close.

A descriptor comes to the server from `socket` or `accept`, or with a request that hands in
a connection, and it goes when it is closed. The table is the list of them: whatever is
called, and wherever a run of the event loop is left, those that have come and not gone are
the descriptors of the rows, each in one row, and nothing is closed that is not among them.
-/
import JudoEngine.JudoServer.ConnectionTable
import JudoEngine.JudoServer.AccessSafety
import JudoEngine.JudoServer.Draining
import JudoEngine.Lib.History
import JudoEngine.Lib.Obeys

set_option autoImplicit false

open Words Histories

namespace JudoEngine

/-! ## What the server has

Like the open descriptors of a connection table, but with those that a request hands in: they
are open already and become the server's when the queue is dumped. -/

/-- The descriptors that it has after one more operation. -/
def heldStep (held : List ℤ) : Event Op Ans → List ℤ
  | ⟨.dump, requests⟩ => held ++ fds (connecting requests)
  | ev => fdStep held ev

/-- A descriptor that is closed is one that it has. -/
def fdLedger : Protocol Op Ans (List ℤ) where
  allows held o := ∀ fd, o = .close fd → 0 ≤ fd → fd ∈ held
  answers _ := True
  after := heldStep

/-- A descriptor that comes is one that it does not have, and one that is handed in comes with
its own node. -/
def Comes (held : List ℤ) : Event Op Ans → Prop
  | ⟨.dump, requests⟩ =>
      (held ++ fds (connecting requests)).Nodup ∧ ∀ row ∈ connecting requests, 0 ≤ row.1.fd ∧ row.1.fd = row.2.fp
  | ev => SaneEvent held ev

/-- That all along a record. -/
def AllCome : List ℤ → List (Event Op Ans) → Prop
  | _, [] => True
  | held, ev :: tr => Comes held ev ∧ AllCome (heldStep held ev) tr

variable {held : List ℤ} {tr : List (Event Op Ans)}

theorem allCome_append {tr' : List (Event Op Ans)} : ∀ {held : List ℤ},
    AllCome held (tr ++ tr') ↔ AllCome held tr ∧ AllCome (fdLedger.afters held tr) tr' := by
  induction tr with
  | nil => exact ⟨fun h => ⟨trivial, h⟩, fun h => h.2⟩
  | cons ev tr ih => exact (and_congr_right fun _ => ih).trans and_assoc.symm

/-- No connection is handed in. -/
def Undumped (tr : List (Event Op Ans)) : Prop := ∀ ev ∈ tr, ev.op ≠ .dump

/-- Programs other than the event loop do not dump the queue. -/
theorem undumped_of_ordinary {α : Type} {p : Sys α} (hp : Ordinary p) {a : α} (h : Prog.Runs p tr a) : Undumped tr := by
  intro ev hev heq
  have hordinary := hp.of_runs h ev hev
  rw [heq] at hordinary
  cases hordinary

theorem heldStep_of_ne {ev : Event Op Ans} (h : ev.op ≠ .dump) : heldStep held ev = fdStep held ev := by
  obtain ⟨o, x⟩ := ev
  cases o with
  | dump => exact absurd rfl h
  | _ => rfl

theorem comes_of_ne {ev : Event Op Ans} (h : ev.op ≠ .dump) : Comes held ev ↔ SaneEvent held ev := by
  obtain ⟨o, x⟩ := ev
  cases o with
  | dump => exact absurd rfl h
  | _ => rfl

/-- Then what the server has is what is open. -/
theorem Undumped.afters (h : Undumped tr) : ∀ (held : List ℤ), fdLedger.afters held tr = openFds held tr := by
  induction tr with
  | nil => exact fun _ => rfl
  | cons ev tr ih =>
      intro held
      have hstep : fdLedger.after held ev = fdStep held ev := heldStep_of_ne (h ev List.mem_cons_self)
      rw [Protocol.afters, hstep]
      exact ih (fun ev' hev' => h ev' (List.mem_cons_of_mem _ hev')) _

/-- So what is asked of such a record is that it is sane. -/
theorem Undumped.sane (h : Undumped tr) : ∀ {held : List ℤ}, AllCome held tr → Sane held tr := by
  induction tr with
  | nil => exact fun _ => trivial
  | cons ev tr ih =>
      intro held hcome
      obtain ⟨hev, hrest⟩ := List.forall_mem_cons.mp h
      refine ⟨(comes_of_ne hev).mp hcome.1, ih hrest ?_⟩
      rw [← heldStep_of_ne hev]
      exact hcome.2

/-- Only what opens and closes descriptors matters. -/
theorem Undumped.follows (h : Undumped tr) : ∀ {held : List ℤ},
    fdLedger.Follows held (fdEvents tr) → fdLedger.Follows held tr := by
  induction tr with
  | nil => exact fun _ => trivial
  | cons ev tr ih =>
      intro held hfollows
      obtain ⟨hev, hrest⟩ := List.forall_mem_cons.mp h
      rw [fdEvents_cons] at hfollows
      split at hfollows
      · exact ⟨hfollows.1, ih hrest hfollows.2⟩
      · next htouches =>
          -- not a `close`, so it is allowed; and it leaves what the server has
          have hsame : fdLedger.after held ev = held :=
            (heldStep_of_ne hev).trans (fdStep_of_quiet (Bool.eq_false_iff.mpr htouches) held)
          refine ⟨fun fd heq => ?_, ih hrest (by rw [hsame]; exact hfollows)⟩
          rw [heq] at htouches
          exact absurd rfl htouches

/-! ## The table lists it

The ledger reads the descriptors off the rows. Adding, removing and loading rows change it as
accepting, closing and handing in descriptors do. -/

/-- What the server has is the descriptors of its rows, and the node of a connection has the
descriptor of its row. -/
structure Ledger (held : List ℤ) (rows : List (pollfd × ssl_node)) (server : JudoServer) : Prop where
  rep : server.m_ssl_nodes.Rep rows
  perm : held.Perm (fds rows)
  nodup : held.Nodup
  nonneg : ∀ fd ∈ held, 0 ≤ fd
  own : ∀ row ∈ rows, row.1.fd ≠ server.m_server_list_sock → row.1.fd = row.2.fp

/-- What a call does, and leaves. -/
def Settles (held : List ℤ) (tr : List (Event Op Ans)) (server' : JudoServer) : Prop :=
  fdLedger.Follows held tr ∧ ∃ rows', Ledger (fdLedger.afters held tr) rows' server'

section Table

variable {rows : List (pollfd × ssl_node)} {server server' : JudoServer}

/-- A call that leaves the table alone. -/
theorem Ledger.keep (h : Ledger held rows server) (htable : server'.m_ssl_nodes = server.m_ssl_nodes)
    (hsock : server'.m_server_list_sock = server.m_server_list_sock) : Ledger held rows server' where
  rep := htable ▸ h.rep
  perm := h.perm
  nodup := h.nodup
  nonneg := h.nonneg
  own := hsock ▸ h.own

/-- A new connection. -/
theorem Ledger.add (h : Ledger held rows server) {n : ssl_node} (hfp : 0 ≤ n.fp) (hfresh : n.fp ∉ held) :
    Ledger (n.fp :: held) (rows ++ [(⟨n.fp, POLLIN, 0⟩, n)])
      { server with m_ssl_nodes := server.m_ssl_nodes.add ⟨n.fp, POLLIN, 0⟩ n } where
  rep := (DualDynamicArray.add_spec h.rep _ n).1
  perm := by
    have happend : fds (rows ++ [(⟨n.fp, POLLIN, 0⟩, n)]) = fds rows ++ [n.fp] := List.map_append ..
    rw [happend]
    exact (h.perm.cons _).trans (List.perm_append_singleton ..).symm
  nodup := List.nodup_cons.mpr ⟨hfresh, h.nodup⟩
  nonneg := List.forall_mem_cons.mpr ⟨hfp, h.nonneg⟩
  own := List.forall_mem_append.mpr ⟨h.own, List.forall_mem_singleton.mpr fun _ => rfl⟩

/-- A disconnect. -/
theorem Ledger.remove (h : Ledger held rows server) {row : pollfd × ssl_node} (hrow : row ∈ rows) {t_poll : pollfd}
    (hfd : row.1.fd = t_poll.fd) (hsock : t_poll.fd ≠ server.m_server_list_sock) :
    row.2.fp = t_poll.fd ∧ t_poll.fd ∈ held ∧ ∃ rows', Ledger (held.filter fun fd => fd ≠ t_poll.fd) rows'
      { server with m_ssl_nodes := server.m_ssl_nodes.remove compare_pollfd t_poll } := by
  have hdistinct : (fds rows).Nodup := h.perm.nodup_iff.mp h.nodup
  obtain ⟨rows', hrep, hperm⟩ := remove_perm h.rep hdistinct hrow hfd
  have hfds : (fds rows).Perm (t_poll.fd :: fds rows') := hfd ▸ hperm.map fun row : pollfd × ssl_node => row.1.fd
  obtain ⟨hnot, -⟩ := List.nodup_cons.mp (hfds.nodup_iff.mp hdistinct)
  refine ⟨((h.own row hrow (hfd.trans_ne hsock)).symm.trans hfd), ?_, rows', hrep, ?_, h.nodup.filter _, ?_, ?_⟩
  · exact (h.perm.trans hfds).mem_iff.mpr List.mem_cons_self
  · -- no other row has this descriptor
    have hself : (fds rows').filter (fun fd => fd ≠ t_poll.fd) = fds rows' := by
      refine List.filter_eq_self.mpr fun fd hmem => decide_eq_true ?_
      rintro rfl
      exact hnot hmem
    have hfilter := (h.perm.trans hfds).filter fun fd => fd ≠ t_poll.fd
    rwa [List.filter_cons_of_neg (by simp), hself] at hfilter
  · exact fun fd hmem => h.nonneg fd (List.mem_filter.mp hmem).1
  · exact fun row' hrow' => h.own row' (hperm.mem_iff.mpr (List.mem_cons_of_mem _ hrow'))

/-- The connections that are handed in. -/
theorem Ledger.load (h : Ledger held rows server) {requests : List judo_request_node} (hcome : Comes held ⟨.dump, requests⟩) :
    Ledger (held ++ fds (connecting requests)) (rows ++ connecting requests) (run.load server requests) where
  rep := rep_load_connecting requests h.rep
  perm := by
    have happend : fds (rows ++ connecting requests) = fds rows ++ fds (connecting requests) := List.map_append ..
    rw [happend]
    exact h.perm.append_right _
  nodup := hcome.1
  nonneg := by
    refine List.forall_mem_append.mpr ⟨h.nonneg, fun fd hfd => ?_⟩
    obtain ⟨row, hrow, rfl⟩ := List.mem_map.mp hfd
    exact (hcome.2 row hrow).1
  own := by
    rw [load_m_server_list_sock]
    exact List.forall_mem_append.mpr ⟨h.own, fun row hrow _ => (hcome.2 row hrow).2⟩

/-- Each row is still there, but for its `revents`. -/
theorem exists_row {rows' : List (pollfd × ssl_node)}
    (hsame : rows'.map (fun row => (row.1.fd, row.2)) = rows.map fun row => (row.1.fd, row.2)) {row : pollfd × ssl_node}
    (hrow : row ∈ rows') : ∃ row' ∈ rows, row'.1.fd = row.1.fd ∧ row'.2 = row.2 := by
  have hmem : (row.1.fd, row.2) ∈ rows.map fun row => (row.1.fd, row.2) := hsame ▸ List.mem_map_of_mem hrow
  obtain ⟨row', hrow', heq⟩ := List.mem_map.mp hmem
  exact ⟨row', hrow', Prod.mk.inj heq⟩

/-- Stores to `revents`. -/
theorem Ledger.revents (h : Ledger held rows server) {m_ssl_nodes : DualDynamicArray pollfd ssl_node}
    {rows' : List (pollfd × ssl_node)} (hrep : m_ssl_nodes.Rep rows')
    (hsame : rows'.map (fun row => (row.1.fd, row.2)) = rows.map fun row => (row.1.fd, row.2)) :
    Ledger held rows' { server with m_ssl_nodes := m_ssl_nodes } where
  rep := hrep
  perm := by
    have hfds : fds rows' = fds rows := by
      have hmap := congrArg (List.map Prod.fst) hsame
      rwa [List.map_map, List.map_map] at hmap
    rw [hfds]
    exact h.perm
  nodup := h.nodup
  nonneg := h.nonneg
  own row hrow := by
    obtain ⟨row', hrow', hfd, hnode⟩ := exists_row hsame hrow
    rw [← hfd, ← hnode]
    exact h.own row' hrow'

/-! ## Calls

A call opens at most one descriptor, and closes at most that one or the one that it was called
for. The exits that read the descriptor from a deleted node are excluded: what they close is
whatever the memory happens to hold. -/

/-- A record with neither open, close nor dump. -/
theorem follows_quiet (held : List ℤ) (hdump : Undumped tr) (hquiet : fdEvents tr = []) :
    fdLedger.Follows held tr ∧ fdLedger.afters held tr = held :=
  ⟨hdump.follows (by rw [hquiet]; trivial), (hdump.afters held).trans (openFds_of_quiet hquiet)⟩

/-- A call that opens and closes nothing, and leaves the table alone. -/
theorem Ledger.quiet (h : Ledger held rows server) (hdump : Undumped tr) (hquiet : fdEvents tr = [])
    (htable : server'.m_ssl_nodes = server.m_ssl_nodes) (hsock : server'.m_server_list_sock = server.m_server_list_sock) :
    Settles held tr server' := by
  obtain ⟨hfollows, hsame⟩ := follows_quiet held hdump hquiet
  refine ⟨hfollows, rows, ?_⟩
  rw [hsame]
  exact h.keep htable hsock

/-- What was done before comes first. -/
theorem Settles.after {tr' : List (Event Op Ans)} (hfollows : fdLedger.Follows held tr)
    (h : Settles (fdLedger.afters held tr) tr' server') : Settles held (tr ++ tr') server' := by
  obtain ⟨hfollows', rows', hledger⟩ := h
  refine ⟨hfollows.append hfollows', rows', ?_⟩
  rw [Protocol.afters_append]
  exact hledger

/-- A call that may open a connection. -/
theorem Ledger.opens (h : Ledger held rows server) (hdump : Undumped tr) (hfollows : fdLedger.Follows held (fdEvents tr))
    (hopens : OpensFd held tr server server') : Settles held tr server' := by
  refine ⟨hdump.follows hfollows, ?_⟩
  rw [hdump.afters]
  rcases hopens with ⟨rfl, hsame⟩ | ⟨n, rfl, hfp, hfresh, hmore⟩
  · rw [hsame]
    exact ⟨rows, h⟩
  · rw [hmore]
    exact ⟨_, h.add hfp hfresh⟩

/-- Whatever has been opened may be closed again. -/
theorem follows_closed {fp : ℤ} {ev : Event Op Ans} (hev : ev = ⟨.socket, fp⟩ ∨ ∃ fd, ev = ⟨.accept fd, fp⟩) :
    fdLedger.Follows held [ev, ⟨.close fp, ()⟩] := by
  -- what has failed to open is closed too, but that is no descriptor
  have hmem : 0 ≤ fp → fp ∈ (if 0 ≤ fp then fp :: held else held) := by
    intro hfp
    rw [if_pos hfp]
    exact List.mem_cons_self
  have hclose : ∀ fd : ℤ, (Op.close fp) = .close fd → 0 ≤ fd → fd ∈ (if 0 ≤ fp then fp :: held else held) := by
    intro fd heq
    cases heq
    exact hmem
  rcases hev with rfl | ⟨fd, rfl⟩
  · exact ⟨fun _ heq => Op.noConfusion heq, hclose, trivial⟩
  · exact ⟨fun _ heq => Op.noConfusion heq, hclose, trivial⟩

/-- `judoAccept_` may open a connection. -/
theorem Ledger.judoAccept_ (h : Ledger held rows server) {fuel : ℕ} {ret : ℤ}
    (hruns : Prog.Runs (JudoEngine.judoAccept_ (judoHandshake_ · · fuel) server) tr (some (server', ret)))
    (hcome : AllCome held tr) (hnone : NoneFreed tr) : Settles held tr server' := by
  have hdump := undumped_of_ordinary (ordinary_judoAccept_ (fun _ _ => (internal_judoHandshake_ ..).ordinary) server) hruns
  refine h.opens hdump ?_ (opensFd_judoAccept_ hruns h.nonneg (hdump.sane hcome) hnone.prompt)
  cases runs_accepts (fun _ _ => internal_judoHandshake_ ..) hruns with
  | unfilled hquiet hret hserver =>
      rw [hquiet]
      trivial
  | closed fp hfds hret hserver =>
      rw [hfds]
      exact follows_closed (.inr ⟨_, rfl⟩)
  | late fp fd hfds hfreed hret hserver => exact absurd rfl (hnone _ hfreed)
  | added n buffer pre post htr hpost hfds hmode hwrite hmet =>
      rw [htr, fdEvents_append, hfds, fdEvents_of_internal (internal_greet ..) hpost]
      exact ⟨fun _ heq => Op.noConfusion heq, trivial⟩

/-- So may `judoConnect_`. -/
theorem Ledger.judoConnect_ (h : Ledger held rows server) {fuel : ℕ} {t_cert t_key : Option String} {t_mode : Byte} {ret : ℤ}
    (hruns : Prog.Runs (JudoEngine.judoConnect_ (judoHandshake_ · · fuel) server t_cert t_key t_mode) tr (some (server', ret)))
    (hcome : AllCome held tr) (hnone : NoneFreed tr) : Settles held tr server' := by
  have hdump := undumped_of_ordinary
    (ordinary_judoConnect_ (fun _ _ => (internal_judoHandshake_ ..).ordinary) server t_cert t_key t_mode) hruns
  refine h.opens hdump ?_ (opensFd_judoConnect_ hruns h.nonneg (hdump.sane hcome) hnone.prompt)
  cases runs_connects (fun _ _ => internal_judoHandshake_ ..) hruns with
  | unfilled hquiet hret hclient =>
      rw [hquiet]
      trivial
  | closed fp hfds hret hclient =>
      rw [hfds]
      exact follows_closed (.inl rfl)
  | late fp fd hfds hfreed hret hclient => exact absurd rfl (hnone _ hfreed)
  | added n buffer pre post htr hpost hfds hmode hconnect hmet =>
      rw [htr, fdEvents_append, hfds, fdEvents_of_internal (internal_hello ..) hpost]
      exact ⟨fun _ heq => Op.noConfusion heq, trivial⟩

/-- A call for a row: it closes its connection, or nothing. -/
theorem Ledger.closes (h : Ledger held rows server) (hdump : Undumped tr) {row : pollfd × ssl_node} (hrow : row ∈ rows)
    {t_poll : pollfd} (hfd : row.1.fd = t_poll.fd) (hsock : t_poll.fd ≠ server.m_server_list_sock)
    (hcloses : (server' = server ∧ fdEvents tr = [])
      ∨ server' = { server with m_ssl_nodes := server.m_ssl_nodes.remove compare_pollfd t_poll }
        ∧ fdEvents tr = [⟨.close row.2.fp, ()⟩]) : Settles held tr server' := by
  rcases hcloses with ⟨rfl, hquiet⟩ | ⟨rfl, hclose⟩
  · exact h.quiet hdump hquiet rfl rfl
  · obtain ⟨hfp, hmem, rows', hledger⟩ := h.remove hrow hfd hsock
    -- the node's descriptor is that of the row, which the server has
    rw [hfp] at hclose
    have hheld : fdLedger.afters held tr = held.filter fun fd => fd ≠ t_poll.fd := by
      rw [hdump.afters, ← openFds_fdEvents, hclose]
      rfl
    refine ⟨hdump.follows ?_, rows', hheld ▸ hledger⟩
    rw [hclose]
    refine ⟨fun fd heq _ => ?_, trivial⟩
    cases heq
    exact hmem

theorem ordinary_requireCerts (server : JudoServer) (flag : BitVec 16) (done failed : String) :
    Ordinary (requireCerts server flag done failed) := by
  unfold requireCerts
  split
  · exact .step rfl fun _ => trivial
  · exact .step rfl fun _ => trivial

/-- Requiring certificates opens and closes nothing. -/
theorem Ledger.requireCerts (h : Ledger held rows server) {flag : BitVec 16} {done failed : String} {ret : ℤ}
    (hruns : Prog.Runs (JudoEngine.requireCerts server flag done failed) tr (server', ret)) : Settles held tr server' := by
  have hdump := undumped_of_ordinary (ordinary_requireCerts ..) hruns
  obtain ⟨hquiet, hserver⟩ := runs_requireCerts hruns
  rcases hserver with ⟨-, -, -, rfl⟩ | ⟨-, rfl⟩
  · exact h.quiet hdump hquiet rfl rfl
  · exact h.quiet hdump hquiet rfl rfl

/-- **A call** keeps the ledger. -/
theorem Ledger.makes (h : Ledger held rows server) {call : ServerCall} {ret : ℤ} (hcond : Connecting call server)
    (hmakes : Makes server call tr server' ret) (hcome : AllCome held tr) (hnone : NoneFreed tr) : Settles held tr server' := by
  -- one case for each call; reading and disconnecting are for a row of the table, which may be
  -- closed
  cases hmakes with
  | judoMakeServerSock_ => exact hcond.elim
  | run => exact hcond.elim
  | judoSetUpServerSockSSL hruns =>
      obtain ⟨hquiet, node, rfl⟩ := runs_judoSetUpServerSockSSL hruns
      refine h.quiet (undumped_of_ordinary ?_ hruns) hquiet rfl rfl
      refine Prog.Only.bind (internal_judoFillServerSSLFields_ ..).ordinary fun filled => ?_
      dsimp only
      split
      · exact .step rfl fun _ => trivial
      · exact .step rfl fun _ => trivial
  | judoServerRequireCerts hruns => exact h.requireCerts hruns
  | judoClientRequireCerts hruns => exact h.requireCerts hruns
  | judoAccept_ fuel hruns => exact h.judoAccept_ hruns hcome hnone
  | judoConnect_ fuel hruns => exact h.judoConnect_ hruns hcome hnone
  | judoRead_ fuel hruns =>
      obtain ⟨hsock, row, hrow, hfd, rfl⟩ := hcond
      rw [h.rep.rows_eq] at hrow
      refine h.closes (undumped_of_ordinary (ordinary_judoRead_ ..) hruns) hrow hfd hsock ?_
      exact (runs_reads hruns).imp And.right And.right
  | judoDisconnect_ ret hruns =>
      obtain ⟨hsock, row, hrow, hfd, rfl⟩ := hcond
      rw [h.rep.rows_eq] at hrow
      refine h.closes (undumped_of_ordinary ?_ hruns) hrow hfd hsock (.inr (runs_judoDisconnect_ hruns))
      exact .step rfl fun _ => .step rfl fun _ => ordinary_dstr_ssl_node _ fun _ => trivial

/-! ## The event loop

A round clears `revents`, takes the requests in and polls; an iteration accepts or reads for
one row. Only spared steps are meant, since the row that is served must be one of the table. -/

/-- The accesses of the loop. -/
theorem quiet_of_access (h : ∀ ev ∈ tr, isAccess ev.op = true) : Undumped tr ∧ fdEvents tr = [] := by
  refine ⟨fun ev hev heq => ?_, List.filter_eq_nil_iff.mpr fun ev hev => ?_⟩
  · have haccess := h ev hev
    rw [heq] at haccess
    cases haccess
  · have haccess := h ev hev
    revert haccess
    cases ev.op <;> first | exact fun _ => Bool.false_ne_true | exact fun h => absurd h Bool.false_ne_true

/-- A store to `revents` of one row. -/
theorem Ledger.clear {s s' : Round} (h : Ledger held rows s.server) (hruns : Prog.Runs s.clear tr s') :
    ∃ rows', Ledger held rows' s'.server
      ∧ rows'.map (fun row => (row.1.fd, row.2)) = rows.map fun row => (row.1.fd, row.2) := by
  obtain ⟨x, tr, rfl, rfl, rfl⟩ := hruns
  split
  · by_cases hk : s.index.toNat < rows.length
    · have hsame : (rows.set s.index.toNat (clearedRow rows[s.index.toNat])).map (fun row => (row.1.fd, row.2))
          = rows.map fun row => (row.1.fd, row.2) := DualDynamicArray.map_set_row hk rfl
      exact ⟨_, h.revents (h.rep.modifyFirst hk _) hsame, hsame⟩
    · exact ⟨rows, h.revents (h.rep.modifyFirst_beyond (Nat.le_of_not_lt hk) _) rfl, rfl⟩
  · exact ⟨rows, h, rfl⟩

/-- What the loop does around `judoRead_`. -/
theorem quiet_around {s s' : Round} {trc tr' : List (Event Op Ans)} (hclear : Prog.Runs s.clear trc s') {fuel : ℕ}
    {t_node : ssl_node} {t_poll : pollfd} {t_out_buf : ℕ} {out : Option (JudoServer × ℤ × ℕ × ℤ)}
    (hread : Prog.Runs (judoRead_ fuel server t_node t_poll t_out_buf) tr' out) {current_node : ssl_node} {x ret : ℤ}
    {buffer : ℕ} {buffer_size : ℤ} :
    Undumped (trc ++ ⟨.indeterminate, x⟩ :: (tr' ++ run.discarded current_node ret buffer buffer_size))
      ∧ fdEvents (trc ++ ⟨.indeterminate, x⟩ :: (tr' ++ run.discarded current_node ret buffer buffer_size)) = fdEvents tr' := by
  obtain ⟨hdump, hquiet⟩ := quiet_of_access (access_clear hclear)
  have hdumpr := undumped_of_ordinary (ordinary_judoRead_ ..) hread
  refine ⟨List.forall_mem_append.mpr ⟨hdump, List.forall_mem_cons.mpr ⟨fun heq => Op.noConfusion heq, ?_⟩⟩, ?_⟩
  · exact List.forall_mem_append.mpr ⟨hdumpr, forall_discarded (P := fun o => o ≠ .dump)
      (fun _ _ heq => Op.noConfusion heq) (fun _ heq => Op.noConfusion heq) (fun heq => Op.noConfusion heq) current_node ret buffer buffer_size⟩
  · rw [fdEvents_append, hquiet, List.nil_append]
    show fdEvents (tr' ++ _) = _
    rw [fdEvents_append, fdEvents_discarded, List.append_nil]

/-- What it does for a row. -/
theorem Ledger.serve {s s₁ : Round} (h : Ledger held rows s.server) {row : pollfd × ssl_node} (hrow : row ∈ rows)
    {fuel : ℕ} {act : Act} (hserve : ServeRun fuel s row.1 row.2 tr s₁ act) (hcome : AllCome held tr)
    (hnone : NoneFreed tr) : Settles held tr s₁.server := by
  cases hserve with
  | idle hrevents => exact ⟨trivial, rows, h⟩
  | accept hrevents hfd haccept =>
      obtain ⟨hfollows, hledger⟩ := h.judoAccept_ haccept hcome.2 (List.forall_mem_cons.mp hnone).2
      exact ⟨⟨fun _ heq => Op.noConfusion heq, hfollows⟩, hledger⟩
  | @read trc tr' s₂ x server ret size buffer hrevents hfd hclear hread =>
      obtain ⟨rows₂, hledger, hsame⟩ := h.clear hclear
      have hsock : s₂.server.m_server_list_sock = s.server.m_server_list_sock := by
        obtain ⟨d, hd⟩ := sameButTable_clear hclear
        rw [hd]
      obtain ⟨hdump, hfds⟩ := quiet_around hclear hread
      obtain ⟨row₂, hrow₂, hfd₂, hnode⟩ := exists_row hsame.symm hrow
      have hreads := runs_reads hread
      rw [← hfds, ← hnode] at hreads
      -- `judoRead_` is given the row from before the store
      have hsettles : Settles held _ server :=
        hledger.closes hdump hrow₂ hfd₂ (hsock ▸ hfd) (hreads.imp And.right And.right)
      split
      · exact hsettles
      · exact hsettles

/-- **An iteration.** -/
theorem Ledger.iteration {s s' : Round} (h : Ledger held rows s.server) {i : ℕ} (hat : At s rows i) {fuel : ℕ} {act : Act}
    (hruns : Prog.Runs (run.iteration fuel s) tr (some (s', act))) (hcome : AllCome held tr) (hnone : NoneFreed tr) :
    Settles held tr s'.server := by
  obtain ⟨tr₀, tr₁, tr₂, s₁, rfl, hfirst, hlast, hserve, hadvance⟩ := serveRun_of_at hat hat.lt hruns
  obtain ⟨hdump₀, hquiet₀⟩ := quiet_of_access hfirst
  obtain ⟨hfollows₀, hsame₀⟩ := follows_quiet held hdump₀ hquiet₀
  obtain ⟨-, hnone'⟩ := List.forall_mem_append.mp hnone
  obtain ⟨hnone₁, -⟩ := List.forall_mem_append.mp hnone'
  obtain ⟨-, hcome'⟩ := allCome_append.mp hcome
  rw [hsame₀] at hcome'
  obtain ⟨hfollows₁, rows₁, hledger₁⟩ := Ledger.serve (s := { s with array_size := s.table.getSize }) h
    (List.getElem_mem hat.lt) hserve (allCome_append.mp hcome').1 hnone₁
  -- the accesses before the row is served, the call for it, and the accesses after it
  refine Settles.after hfollows₀ ?_
  rw [hsame₀]
  refine Settles.after hfollows₁ ?_
  obtain ⟨hdump₂, hquiet₂⟩ := quiet_of_access hlast
  obtain ⟨hfollows₂, hsame₂⟩ := follows_quiet (fdLedger.afters held tr₁) hdump₂ hquiet₂
  refine ⟨hfollows₂, ?_⟩
  rw [hsame₂]
  rcases runs_advance hadvance with ⟨-, -, rfl⟩ | ⟨-, s₃, hclear, rfl⟩
  · exact ⟨rows₁, hledger₁⟩
  · obtain ⟨rows₃, hledger₃, -⟩ := hledger₁.clear hclear
    exact ⟨rows₃, hledger₃⟩

/-- A round of the outer loop. -/
theorem Ledger.round {a : ℤ} {s : Round} (h : Ledger held rows server) (hruns : Prog.Runs (run.round server a) tr s)
    (hcome : AllCome held tr) : Settles held tr s.server := by
  obtain ⟨requests, tr, rfl, polled, tr, rfl, rfl, rfl⟩ := hruns
  have hload := h.load hcome.1
  refine ⟨⟨fun _ heq => Op.noConfusion heq, fun _ heq => Op.noConfusion heq, trivial⟩, ?_⟩
  have hrep := hload.rep.mapFirst fun i p => { p with revents := polled.2 i }
  refine ⟨_, hload.revents hrep ?_⟩
  refine List.ext_getElem (by simp) fun i hi hi' => ?_
  rw [List.getElem_map, List.getElem_mapIdx, List.getElem_map]

end Table

/-- The loop stands at a row, and the table lists what the server has. -/
structure Balanced (held : List ℤ) (st : RunState) : Prop where
  onRow : OnRow st
  ledger : ∀ server, st.server = some server → ∃ rows, Ledger held rows server

/-- **One step.** -/
theorem Balanced.step {st st' : RunState} (h : Balanced held st) {out : Outcome} (hspared : Spared st out)
    (hstep : LoopStep st out tr st') (hne : st' ≠ .halted) (hcome : AllCome held tr) (hnone : NoneFreed tr) :
    fdLedger.Follows held tr ∧ Balanced (fdLedger.afters held tr) st' := by
  have honRow := (step_onRow h.onRow hspared hstep).2
  have hsettled : ∀ {server' : JudoServer}, st'.server = some server' → Settles held tr server' →
      fdLedger.Follows held tr ∧ Balanced (fdLedger.afters held tr) st' := by
    intro server' hserver' hsettles
    refine ⟨hsettles.1, honRow, fun server hserver => ?_⟩
    obtain rfl := Option.some.inj (hserver'.symm.trans hserver)
    exact hsettles.2
  cases hstep with
  | @round server a tr s ha hruns =>
      obtain ⟨rows, hledger⟩ := h.ledger server rfl
      exact hsettled rfl (hledger.round hruns hcome)
  | @iteration s s' act tr fuel hgo hruns =>
      obtain ⟨rows, hrep, hat⟩ := h.onRow
      obtain ⟨i, hi⟩ := hat hgo
      obtain ⟨rows', hledger⟩ := h.ledger s.server rfl
      -- a table has its rows only
      obtain rfl : rows' = rows := hledger.rep.rows_eq.symm.trans hrep.rows_eq
      exact hsettled rfl (hledger.iteration hi hruns hcome hnone)
  | halt fuel hgo hruns => exact absurd rfl hne
  | again hdone => exact ⟨trivial, honRow, h.ledger⟩

/-- **A run.** -/
theorem Ledger.run {rows : List (pollfd × ssl_node)} {server : JudoServer} (h : Ledger held rows server) {st : RunState}
    (hrun : LoopRun Spared server tr st) : st ≠ .halted → AllCome held tr → NoneFreed tr →
      fdLedger.Follows held tr ∧ Balanced (fdLedger.afters held tr) st := by
  induction hrun with
  | start =>
      refine fun _ _ _ => ⟨trivial, ⟨rows, h.rep⟩, fun server' hserver' => ⟨rows, ?_⟩⟩
      obtain rfl := Option.some.inj hserver'
      exact h.keep rfl rfl
  | @step tr tr' st st' out hrun hspared hstep ih =>
      intro hne hcome hnone
      have hgoing : st ≠ .halted := by
        rintro rfl
        cases hstep
      obtain ⟨hcome₁, hcome₂⟩ := allCome_append.mp hcome
      obtain ⟨hnone₁, hnone₂⟩ := List.forall_mem_append.mp hnone
      obtain ⟨hfollows, hbalanced⟩ := ih hgoing hcome₁ hnone₁
      obtain ⟨hfollows', hbalanced'⟩ := hbalanced.step hspared hstep hne hcome₂ hnone₂
      rw [Protocol.afters_append]
      exact ⟨hfollows.append hfollows', hbalanced'⟩

/-! ## Whole lives

A life here has runs in it, left wherever they stop, so its calls and the steps of its runs
follow one another on one server. -/

/-- The life of a server whose listening socket, if it has one, was opened, and whose runs
are spared; with all that is done in it. -/
inductive SparedLife : List (Event Op Ans) → JudoServer → Prop where
  | new {tr : List (Event Op Ans)} {server : JudoServer} (hinit : Prog.Runs JudoServer.init tr server) : SparedLife tr server
  | newAt {t_addr : sockaddr_in} {tr tr' : List (Event Op Ans)} {server server' : JudoServer} {ret : ℤ}
      (hinit : Prog.Runs JudoServer.init tr server)
      (hmakes : Prog.Runs (judoMakeServerSock_ { server with m_list_sock_addr := t_addr }) tr' (server', ret))
      (hsocket : ∀ fd : ℤ, ⟨.socket, fd⟩ ∈ tr' → 0 ≤ fd) : SparedLife (tr ++ tr') server'
  | call {tr tr' : List (Event Op Ans)} {server server' : JudoServer} {call : ServerCall} {ret : ℤ} (h : SparedLife tr server)
      (hcond : Connecting call server) (hmakes : Makes server call tr' server' ret) : SparedLife (tr ++ tr') server'
  | run {tr tr' : List (Event Op Ans)} {server server' : JudoServer} {st : RunState} (h : SparedLife tr server)
      (hrun : LoopRun Spared server tr' st) (hserver : st.server = some server') : SparedLife (tr ++ tr') server'

variable {server : JudoServer}

/-- A new server has nothing and no rows. -/
theorem ledger_new (h : server.m_ssl_nodes = .new) : Ledger [] [] server where
  rep := h ▸ DualDynamicArray.rep_new
  perm := .refl _
  nodup := List.nodup_nil
  nonneg _ hfd := absurd hfd List.not_mem_nil
  own _ hrow := absurd hrow List.not_mem_nil

/-- Its constructor opens nothing. -/
theorem follows_init (h : Prog.Runs JudoServer.init tr server) :
    fdLedger.Follows [] tr ∧ fdLedger.afters [] tr = [] ∧ server.m_ssl_nodes = .new := by
  obtain ⟨node, tr, rfl, -, tr, rfl, rfl, rfl⟩ := h
  exact ⟨⟨fun _ heq => Op.noConfusion heq, fun _ heq => Op.noConfusion heq, trivial⟩, rfl, rfl⟩

/-- The constructor. -/
theorem ledger_newAt {server' : JudoServer} {ret : ℤ} (hruns : Prog.Runs (judoMakeServerSock_ server) tr (server', ret))
    (h : server.m_ssl_nodes = .new) (hsocket : ∀ fd : ℤ, ⟨.socket, fd⟩ ∈ tr → 0 ≤ fd) : Settles [] tr server' := by
  have hordinary : Ordinary (judoMakeServerSock_ server) := by
    unfold judoMakeServerSock_
    split
    · exact .step rfl fun _ => trivial
    · exact .step rfl fun _ => .step rfl fun _ => .step rfl fun _ => .step rfl fun _ => .step rfl fun _ => trivial
  have hdump := undumped_of_ordinary hordinary hruns
  rcases runs_judoMakeServerSock_ hruns with ⟨-, rfl, -, hquiet⟩ | ⟨-, -, fd, hfds, rfl⟩
  · exact (ledger_new h).quiet hdump hquiet rfl rfl
  · have hfd : 0 ≤ fd := hsocket fd (List.mem_of_mem_filter (hfds ▸ List.mem_singleton_self _))
    have hrep : server.m_ssl_nodes.Rep [] := h ▸ DualDynamicArray.rep_new
    have hheld : fdLedger.afters [] tr = [fd] := by
      rw [hdump.afters, ← openFds_fdEvents, hfds]
      exact if_pos hfd
    refine ⟨hdump.follows ?_, [(⟨fd, POLLIN, 0⟩, server.m_server_list_sock_node)], ?_⟩
    · rw [hfds]
      exact ⟨fun _ heq => Op.noConfusion heq, trivial⟩
    · rw [hheld]
      refine ⟨(DualDynamicArray.add_spec hrep _ _).1, .refl _, List.nodup_singleton fd, List.forall_mem_singleton.mpr hfd, ?_⟩
      exact List.forall_mem_singleton.mpr fun hne => absurd rfl hne

/-- The table lists what the server has after every such life. -/
theorem ledger_of_life (h : SparedLife tr server) : AllCome [] tr → NoneFreed tr → Settles [] tr server := by
  -- by the calls and runs of the life, with the record cut where each of them begins
  induction h with
  | new hinit =>
      obtain ⟨hfollows, hsame, hnew⟩ := follows_init hinit
      refine fun _ _ => ⟨hfollows, [], ?_⟩
      rw [hsame]
      exact ledger_new hnew
  | newAt hinit hmakes hsocket =>
      obtain ⟨hfollows, hsame, hnew⟩ := follows_init hinit
      refine fun _ _ => Settles.after hfollows ?_
      rw [hsame]
      exact ledger_newAt hmakes hnew hsocket
  | call h hcond hmakes ih =>
      intro hcome hnone
      obtain ⟨hcome₁, hcome₂⟩ := allCome_append.mp hcome
      obtain ⟨hnone₁, hnone₂⟩ := List.forall_mem_append.mp hnone
      obtain ⟨hfollows, rows, hledger⟩ := ih hcome₁ hnone₁
      exact Settles.after hfollows (hledger.makes hcond hmakes hcome₂ hnone₂)
  | @run tr tr' server server' st h hrun hserver ih =>
      intro hcome hnone
      obtain ⟨hcome₁, hcome₂⟩ := allCome_append.mp hcome
      obtain ⟨hnone₁, hnone₂⟩ := List.forall_mem_append.mp hnone
      obtain ⟨hfollows, rows, hledger⟩ := ih hcome₁ hnone₁
      have hne : st ≠ .halted := by
        rintro rfl
        cases hserver
      obtain ⟨hfollows', hbalanced⟩ := hledger.run hrun hne hcome₂ hnone₂
      exact Settles.after hfollows ⟨hfollows', hbalanced.ledger server' hserver⟩

/-- **The descriptors of a server.** In a life that is spared, in which only descriptors come
that it does not have and nothing is read from a node that has been deleted, what is closed is
one that it has at that moment; and at the end it has exactly those of the rows of its table,
each in one row, and each connection's is that of its node. -/
theorem descriptors_of_life (h : SparedLife tr server) (hcome : AllCome [] tr) (hnone : NoneFreed tr) :
    (∀ before fd u after, tr = before ++ ⟨.close fd, u⟩ :: after → 0 ≤ fd → fd ∈ fdLedger.afters [] before)
      ∧ (fdLedger.afters [] tr).Perm (fds server.m_ssl_nodes.rows) ∧ (fds server.m_ssl_nodes.rows).Nodup
      ∧ ∀ row ∈ server.m_ssl_nodes.rows, row.1.fd ≠ server.m_server_list_sock → row.1.fd = row.2.fp := by
  obtain ⟨hfollows, rows, hledger⟩ := ledger_of_life h hcome hnone
  rw [hledger.rep.rows_eq]
  refine ⟨fun before fd u after hsplit hfd => ?_, hledger.perm, hledger.perm.nodup_iff.mp hledger.nodup, hledger.own⟩
  rw [hsplit] at hfollows
  exact hfollows.split fd rfl hfd

/-! ## A connection handed in

A request hands in descriptor 7, a client is accepted as 4, and the connection handed in is
closed: the listening socket and the client are left. -/

/-- `Comes`, as a test. -/
def comesTest (held : List ℤ) : Event Op Ans → Bool
  | ⟨.dump, requests⟩ =>
      decide (held ++ fds (connecting requests)).Nodup
        && (connecting requests).all fun row => decide (0 ≤ row.1.fd ∧ row.1.fd = row.2.fp)
  | ⟨.socket, fp⟩ | ⟨.accept _, fp⟩ => decide (0 ≤ (fp : ℤ) → (fp : ℤ) ∉ held)
  | ⟨.write fd _ _, w⟩ => decide (fd < 0 → (w : ℤ) ≤ 0)
  | ⟨.connect fd, w⟩ => decide (fd < 0 → (w : ℤ) < 0)
  | _ => true

theorem comesTest_iff (held : List ℤ) (ev : Event Op Ans) : comesTest held ev = true ↔ Comes held ev := by
  obtain ⟨o, x⟩ := ev
  cases o with
  | dump =>
      refine (Bool.and_eq_true_iff).trans (and_congr decide_eq_true_iff ?_)
      exact List.all_eq_true.trans (forall₂_congr fun _ _ => decide_eq_true_iff)
  | socket => exact decide_eq_true_iff
  | accept fd => exact decide_eq_true_iff
  | write fd size data => exact decide_eq_true_iff
  | connect fd => exact decide_eq_true_iff
  | _ => exact iff_of_true rfl trivial

/-- The same test all along a record, -/
def allComeTest : List ℤ → List (Event Op Ans) → Bool
  | _, [] => true
  | held, ev :: tr => comesTest held ev && allComeTest (heldStep held ev) tr

theorem allComeTest_iff : ∀ {held : List ℤ}, allComeTest held tr = true ↔ AllCome held tr := by
  induction tr with
  | nil => exact iff_of_true rfl trivial
  | cons ev tr ih =>
      intro held
      exact Bool.and_eq_true_iff.trans (and_congr (comesTest_iff held ev) ih)

instance (held : List ℤ) (tr : List (Event Op Ans)) : Decidable (AllCome held tr) := decidable_of_iff _ allComeTest_iff

/-- A connection that another part of the program has made. -/
def handedNode : ssl_node := { clientNode with fp := 7 }

/-- It is handed in, and there is a client at the listening socket. -/
def handingAnswer : ℤ → (o : Op) → Ans o × ℤ
  | fd, .dump => ([⟨handedNode, ⟨7, POLLIN, 0⟩, .ADD_CONNECT⟩], fd)
  | fd, .poll _ => ((1, fun i => if i = 0 then POLLIN else 0), fd)
  | fd, .accept _ => (fd, fd + 1)
  | fd, o => orderlyAnswer fd o

/-- The server when it starts to run. -/
def handingServer : JudoServer := listeningServer (DualDynamicArray.new.add ⟨3, POLLIN, 0⟩ default)

/-- Its first round, in which the connection is handed in. -/
def handingRound : List (Event Op Ans) × Round × ℤ :=
  Prog.exec handingAnswer (run.round { handingServer with m_active := true } 0) 4

/-- The iteration that accepts the client. -/
def handingIteration : List (Event Op Ans) × Option (Round × Act) × ℤ :=
  Prog.exec handingAnswer (run.iteration 1 handingRound.2.1) 4

/-- The loop when the client has been accepted. -/
def handingStep : Round × Act := handingIteration.2.1.getD (handingRound.2.1, .idle)

/-- The client is accepted, and then the connection that was handed in is closed. -/
theorem descriptors_of_life_handed :
    ∃ tr server, SparedLife tr server ∧ AllCome [] tr ∧ NoneFreed tr ∧ fds server.m_ssl_nodes.rows = [3, 4]
      ∧ (∀ before fd u after, tr = before ++ ⟨.close fd, u⟩ :: after → 0 ≤ fd → fd ∈ fdLedger.afters [] before)
      ∧ (fdLedger.afters [] tr).Perm (fds server.m_ssl_nodes.rows) ∧ (fds server.m_ssl_nodes.rows).Nodup
      ∧ ∀ row ∈ server.m_ssl_nodes.rows, row.1.fd ≠ server.m_server_list_sock → row.1.fd = row.2.fp := by
  have hinit : Prog.Runs JudoServer.init _ (.init_ default) := Prog.runs_exec (h := orderlyAnswer) JudoServer.init 3
  have hmakes : Prog.Runs (judoMakeServerSock_ { JudoServer.init_ default with m_list_sock_addr := ⟨0x7F000001, 0x901F⟩ }) _
      (handingServer, 0) := Prog.runs_exec (h := orderlyAnswer) _ 3
  -- the run: one round and one iteration, both spared
  have hround := Prog.runs_exec (h := handingAnswer) (run.round { handingServer with m_active := true } 0) 4
  have hiteration : Prog.Runs (run.iteration 1 handingRound.2.1) handingIteration.1 (some handingStep) := by
    have hruns := Prog.runs_exec (h := handingAnswer) (run.iteration 1 handingRound.2.1) 4
    have hsome : handingIteration.2.1.isSome = true := by decide +kernel
    obtain ⟨out, hout⟩ := Option.isSome_iff_exists.mp hsome
    rw [handingStep, hout, Option.getD_some, ← hout]
    exact hruns
  have hrow : Spared (.outer { handingServer with m_active := true } 0)
      (.polled handingRound.2.1.table.getSize handingRound.2.1.sockets_to_handel handingRound.2.1.marked) := by
    intro _
    decide +kernel
  have hroom : Spared (.inner handingRound.2.1) (.served handingStep.2) := by
    have haccept : handingStep.2 = .accept 0 := by decide +kernel
    rw [haccept]
    intro _
    decide +kernel
  have hrun : LoopRun Spared handingServer ([] ++ handingRound.1 ++ handingIteration.1) (.inner handingStep.1) :=
    .step (.step .start hrow (.round (by decide) hround)) hroom (.iteration 1 (by decide +kernel) hiteration)
  -- and then a disconnect of the connection that was handed in
  have hcond : Connecting (.judoDisconnect_ handedNode ⟨7, POLLIN, POLLIN⟩) handingStep.1.server :=
    ⟨by decide +kernel, (⟨7, POLLIN, 0⟩, handedNode), by decide +kernel, rfl, rfl⟩
  have hdisconnect : Makes handingStep.1.server (.judoDisconnect_ handedNode ⟨7, POLLIN, POLLIN⟩) _ _ 0 :=
    .judoDisconnect_ 0 (Prog.runs_exec (h := orderlyAnswer) _ 5)
  have hlife : SparedLife _ _ :=
    (SparedLife.newAt hinit hmakes ((socketMade_newAt hmakes rfl).mpr (by decide))).run hrun rfl |>.call hcond hdisconnect
  obtain ⟨tr, server, hlife, hcome, hnone, hrows⟩ :
      ∃ tr server, SparedLife tr server ∧ AllCome [] tr ∧ NoneFreed tr ∧ fds server.m_ssl_nodes.rows = [3, 4] :=
    ⟨_, _, hlife, by decide +kernel, noneFreed_of_test (by decide +kernel), by decide +kernel⟩
  exact ⟨tr, server, hlife, hcome, hnone, hrows, descriptors_of_life hlife hcome hnone⟩

end JudoEngine
