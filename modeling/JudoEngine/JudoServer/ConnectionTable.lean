/-
The connection table, and what a disconnect does to it.

`judoDisconnect_` closes the descriptor of the node and takes out the row of the
`pollfd`. That these belong to one connection, and to no other, rests on the table: its
descriptors are distinct and open, and each connection's row has the descriptor of its
node. The row of the listening socket has whatever `socket` has answered, though, and
-1 is not an open descriptor.
-/
import JudoEngine.JudoServer.Life
import JudoEngine.JudoServer.Service
import JudoEngine.DualDynamicArray.Bag

set_option autoImplicit false

open Words

namespace JudoEngine

/-! ## Descriptors

The open descriptors are not a field of the server: they are read off the trace, where socket
and accept open one and close closes one. A trace is sane when the system behaves as it
should, handing out only descriptors that are not open. -/

/-- The open descriptors after one more operation. -/
def fdStep (opened : List ℤ) : Event Op Ans → List ℤ
  | ⟨.socket, fp⟩ | ⟨.accept _, fp⟩ => if 0 ≤ (fp : ℤ) then fp :: opened else opened
  | ⟨.close fd, _⟩ => opened.filter fun fp => fp ≠ fd
  | _ => opened

/-- The open descriptors after a record. -/
def openFds (opened : List ℤ) (tr : List (Event Op Ans)) : List ℤ := tr.foldl fdStep opened

/-- The system does not hand out a descriptor that is open, and a `write` to a negative
one fails, as does a `connect`. -/
def SaneEvent (opened : List ℤ) : Event Op Ans → Prop
  | ⟨.socket, fp⟩ | ⟨.accept _, fp⟩ => 0 ≤ (fp : ℤ) → (fp : ℤ) ∉ opened
  | ⟨.write fd _ _, w⟩ => fd < 0 → (w : ℤ) ≤ 0
  | ⟨.connect fd, w⟩ => fd < 0 → (w : ℤ) < 0
  | _ => True

/-- That all along a record. -/
def Sane (opened : List ℤ) : List (Event Op Ans) → Prop
  | [] => True
  | ev :: tr => SaneEvent opened ev ∧ Sane (fdStep opened ev) tr

@[simp] theorem openFds_nil (opened : List ℤ) : openFds opened [] = opened := rfl

theorem openFds_append (opened : List ℤ) (tr tr' : List (Event Op Ans)) :
    openFds opened (tr ++ tr') = openFds (openFds opened tr) tr' := List.foldl_append ..

theorem sane_append {tr tr' : List (Event Op Ans)} : ∀ {opened : List ℤ},
    Sane opened (tr ++ tr') ↔ Sane opened tr ∧ Sane (openFds opened tr) tr' := by
  induction tr with
  | nil => exact ⟨fun h => ⟨trivial, h⟩, fun h => h.2⟩
  | cons ev tr ih =>
      intro opened
      rw [List.cons_append, Sane, ih, Sane, and_assoc]
      rfl

/-- A call that is none of `socket`, `accept` and `close` leaves the descriptors alone. -/
theorem fdStep_of_quiet {ev : Event Op Ans} (h : touchesFds ev.op = false) (opened : List ℤ) : fdStep opened ev = opened := by
  obtain ⟨o, x⟩ := ev
  cases o <;> first | rfl | exact absurd h.symm Bool.false_ne_true

/-- Only what opens or closes a descriptor matters to which are open. -/
theorem openFds_fdEvents (tr : List (Event Op Ans)) : ∀ (opened : List ℤ), openFds opened (fdEvents tr) = openFds opened tr := by
  induction tr with
  | nil => exact fun _ => rfl
  | cons ev tr ih =>
      intro opened
      rw [fdEvents_cons]
      split
      · exact ih _
      · next h =>
          have hquiet := fdStep_of_quiet (Bool.eq_false_iff.mpr h) opened
          show openFds opened (fdEvents tr) = openFds (fdStep opened ev) tr
          rw [hquiet]
          exact ih _

theorem Sane.fdEvents {tr : List (Event Op Ans)} : ∀ {opened : List ℤ}, Sane opened tr → Sane opened (fdEvents tr) := by
  induction tr with
  | nil => exact fun h => h
  | cons ev tr ih =>
      intro opened hsane
      rw [fdEvents_cons]
      split
      · exact ⟨hsane.1, ih hsane.2⟩
      · next h =>
          have htail := hsane.2
          rw [fdStep_of_quiet (Bool.eq_false_iff.mpr h)] at htail
          exact ih htail

/-- What a `write` or a `connect` answers does not depend on what is open. -/
theorem Sane.mem {tr : List (Event Op Ans)} {ev : Event Op Ans} (hev : ev ∈ tr) : ∀ {opened : List ℤ}, Sane opened tr →
    ∃ opened', SaneEvent opened' ev := by
  induction tr with
  | nil => exact absurd hev List.not_mem_nil
  | cons ev' tr ih =>
      intro opened hsane
      rcases List.mem_cons.mp hev with rfl | hev
      · exact ⟨opened, hsane.1⟩
      · exact ih hev hsane.2

/-- A descriptor to which bytes were written is a real one. -/
theorem Sane.nonneg_of_write {tr : List (Event Op Ans)} {opened : List ℤ} (hsane : Sane opened tr) {fd size w : ℤ}
    {data : List Byte} (hev : ⟨.write fd size data, w⟩ ∈ tr) (hw : 0 < w) : 0 ≤ fd := by
  obtain ⟨opened', hwrite⟩ := hsane.mem hev
  by_contra hneg
  exact absurd (hwrite (not_le.mp hneg)) (not_le.mpr hw)

/-- So is one that was connected. -/
theorem Sane.nonneg_of_connect {tr : List (Event Op Ans)} {opened : List ℤ} (hsane : Sane opened tr) {fd w : ℤ}
    (hev : ⟨.connect fd, w⟩ ∈ tr) (hw : 0 ≤ w) : 0 ≤ fd := by
  obtain ⟨opened', hconnect⟩ := hsane.mem hev
  by_contra hneg
  exact absurd (hconnect (not_le.mp hneg)) (not_lt.mpr hw)

/-! ## What the table should be

Apart from the rows of the constructor each row is that of a connection, under the descriptor
of its node. The descriptors are distinct and open, and a disconnect takes out its own row and
closes its own descriptor. The constructor's row is kept apart: the node of the listening
socket has no descriptor of its own. -/

/-- The calls in such a life: whatever opens or closes a connection. A row is only
disconnected if it is in the table, and not that of the listening socket. -/
def Connecting (call : ServerCall) (server : JudoServer) : Prop :=
  match call with
  | .judoRead_ t_node t_poll | .judoDisconnect_ t_node t_poll =>
      t_poll.fd ≠ server.m_server_list_sock ∧ ∃ row ∈ server.m_ssl_nodes.rows, row.1.fd = t_poll.fd ∧ row.2 = t_node
  | .judoMakeServerSock_ | .run => False
  | _ => True

/-- Everything that has been done. -/
def wholeTrace (log : List Called) : List (Event Op Ans) := log.flatMap fun c => c.trace

/-- The rows that the constructor has left. -/
def constructed (log : List Called) : List (pollfd × ssl_node) :=
  (log.filter fun c => c.call = .judoMakeServerSock_).flatMap fun c => c.after.m_ssl_nodes.rows

/-- The call has disconnected the connection with this node and this descriptor. -/
def Called.Disconnects (c : Called) (t_node : ssl_node) (t_poll : pollfd) : Prop :=
  c.call = .judoDisconnect_ t_node t_poll ∨ c.call = .judoRead_ t_node t_poll ∧ c.ret = -1

/-- It has closed that connection's descriptor, and none else, and taken out its row, and
none else. -/
def Called.DisconnectsOne (c : Called) (t_node : ssl_node) (t_poll : pollfd) : Prop :=
  t_node.fp = t_poll.fd ∧ fdEvents c.trace = [⟨.close t_poll.fd, ()⟩]
    ∧ ∃ row, row.1.fd = t_poll.fd ∧ row.2 = t_node ∧ c.before.m_ssl_nodes.rows.Perm (row :: c.after.m_ssl_nodes.rows)

/-- The descriptors in the table are distinct and open, each connection has that of its
node, and a disconnect is one of the connection that it was called for. -/
structure ConnectionTable (log : List Called) (server : JudoServer) : Prop where
  distinct : (fds server.m_ssl_nodes.rows).Nodup
  opened : ∀ row ∈ server.m_ssl_nodes.rows, row.1.fd ∈ openFds [] (wholeTrace log)
  connections : ∃ connections, server.m_ssl_nodes.rows.Perm (constructed log ++ connections)
    ∧ ∀ row ∈ connections, row.1.fd = row.2.fp
  disconnects : ∀ c ∈ log, ∀ t_node t_poll, c.Disconnects t_node t_poll → c.DisconnectsOne t_node t_poll

/-- The constructor's `socket` has succeeded, if it has called it. -/
def SocketMade (log : List Called) : Prop :=
  ∀ c ∈ log, c.call = .judoMakeServerSock_ → ∀ fd : ℤ, ⟨.socket, fd⟩ ∈ c.trace → 0 ≤ fd

/-! ## The invariant

The rows of the array, in its order, are `rows`, and `connections` are those that judoAccept_
and judoConnect_ have added. Removing a row swaps the last one into the gap, so the two lists
agree only up to a permutation. -/

/-- The table with the descriptors open: the constructor's row, which may have one that is
not, and those of the connections. -/
structure TableInv (base connections rows : List (pollfd × ssl_node)) (opened : List ℤ) (server : JudoServer) : Prop where
  rep : server.m_ssl_nodes.Rep rows
  perm : rows.Perm (base ++ connections)
  distinct : (fds rows).Nodup
  listening : ∀ row ∈ base, row.1.fd = server.m_server_list_sock ∧ (row.1.fd ∈ opened ∨ row.1.fd < 0)
  connected : ∀ row ∈ connections, row.1.fd = row.2.fp ∧ row.1.fd ∈ opened
  nonneg : ∀ fd ∈ opened, 0 ≤ fd

section Invariant

variable {base connections rows : List (pollfd × ssl_node)} {opened : List ℤ} {server : JudoServer}

/-- A call that leaves the table alone. -/
theorem TableInv.keep (h : TableInv base connections rows opened server) {server' : JudoServer}
    (htable : server'.m_ssl_nodes = server.m_ssl_nodes) (hsock : server'.m_server_list_sock = server.m_server_list_sock) :
    TableInv base connections rows opened server' where
  rep := htable ▸ h.rep
  perm := h.perm
  distinct := h.distinct
  listening := hsock ▸ h.listening
  connected := h.connected
  nonneg := h.nonneg

/-- A descriptor that is not open is that of no row, if it is one. -/
theorem TableInv.fresh (h : TableInv base connections rows opened server) {fp : ℤ} (hfp : 0 ≤ fp) (hfresh : fp ∉ opened) :
    fp ∉ fds rows := by
  intro hmem
  obtain ⟨row, hrow, rfl⟩ := List.mem_map.mp hmem
  rcases List.mem_append.mp (h.perm.mem_iff.mp hrow) with hbase | hconn
  · rcases (h.listening row hbase).2 with hopen | hneg
    · exact hfresh hopen
    · exact absurd hfp (not_le.mpr hneg)
  · exact hfresh (h.connected row hconn).2

/-- A new connection. -/
theorem TableInv.add (h : TableInv base connections rows opened server) {n : ssl_node} (hfp : 0 ≤ n.fp)
    (hfresh : n.fp ∉ opened) :
    TableInv base (connections ++ [(⟨n.fp, POLLIN, 0⟩, n)]) (rows ++ [(⟨n.fp, POLLIN, 0⟩, n)]) (n.fp :: opened)
      { server with m_ssl_nodes := server.m_ssl_nodes.add ⟨n.fp, POLLIN, 0⟩ n } where
  rep := (DualDynamicArray.add_spec h.rep _ n).1
  perm := by
    rw [← List.append_assoc]
    exact h.perm.append_right _
  distinct := by
    have happend : fds (rows ++ [(⟨n.fp, POLLIN, 0⟩, n)]) = fds rows ++ [n.fp] := List.map_append ..
    rw [happend]
    refine h.distinct.append (List.nodup_singleton _) ?_
    exact List.disjoint_singleton.mpr (h.fresh hfp hfresh)
  listening row hrow := by
    obtain ⟨hsock, hopen⟩ := h.listening row hrow
    exact ⟨hsock, hopen.imp_left (List.mem_cons_of_mem _)⟩
  connected row hrow := by
    rcases List.mem_append.mp hrow with hrow | hrow
    · obtain ⟨hfd, hopen⟩ := h.connected row hrow
      exact ⟨hfd, List.mem_cons_of_mem _ hopen⟩
    · rw [List.mem_singleton.mp hrow]
      exact ⟨rfl, List.mem_cons_self⟩
  nonneg := List.forall_mem_cons.mpr ⟨hfp, h.nonneg⟩

/-- A call that opens a descriptor, if at all, and closes it again. -/
theorem fdStep_close {fp : ℤ} (hopened : ∀ fd ∈ opened, 0 ≤ fd) (hfresh : 0 ≤ fp → fp ∉ opened) :
    (if 0 ≤ fp then fp :: opened else opened).filter (fun fd => fd ≠ fp) = opened := by
  have hne : ∀ fd ∈ opened, decide (fd ≠ fp) = true := by
    intro fd hfd
    apply decide_eq_true
    rintro rfl
    exact hfresh (hopened fd hfd) hfd
  split
  · rw [List.filter_cons_of_neg (by simp)]
    exact List.filter_eq_self.mpr hne
  · exact List.filter_eq_self.mpr hne

/-- The row that a `pollfd` finds is the one with its descriptor. -/
theorem remove_perm {d : DualDynamicArray pollfd ssl_node} (hrep : d.Rep rows) (hdistinct : (fds rows).Nodup)
    {row : pollfd × ssl_node} (hrow : row ∈ rows) {t_poll : pollfd} (hfd : row.1.fd = t_poll.fd) :
    ∃ rows', (d.remove compare_pollfd t_poll).Rep rows' ∧ rows.Perm (row :: rows') := by
  rcases DualDynamicArray.find_spec compare_pollfd hrep t_poll with ⟨-, hnone⟩ | ⟨k, hk, hfind, hmatch, -⟩
  · obtain ⟨j, hj, rfl⟩ := List.getElem_of_mem hrow
    exact absurd (sub_eq_zero.mpr hfd.symm) (hnone j hj)
  · have hsame : rows[k] = row := by
      refine List.inj_on_of_nodup_map hdistinct (List.getElem_mem hk) hrow ?_
      exact (sub_eq_zero.mp hmatch).symm.trans hfd.symm
    refine ⟨_, DualDynamicArray.remove_spec hrep hk hfind, ?_⟩
    refine (List.getElem_cons_eraseIdx_perm hk).symm.trans ?_
    rw [hsame]
    exact (DualDynamicArray.perm_removeRow rows k hk).symm.cons row

/-- The last row is taken out, by its own `pollfd`. -/
theorem remove_last {d : DualDynamicArray pollfd ssl_node} (hrep : d.Rep rows) (hdistinct : (fds rows).Nodup) {i : ℕ}
    (hi : rows.length = i + 1) :
    ∃ row ∈ rows, d.m_first_array i = some row.1 ∧ d.m_second_array i = some row.2
      ∧ ∃ rows', rows.Perm (row :: rows') ∧ rows'.length = i ∧ (d.remove compare_pollfd row.1).Rep rows' ∧ (fds rows').Nodup := by
  have hlt : i < rows.length := by omega
  have hmem := List.getElem_mem hlt
  obtain ⟨rows', hrep', hperm⟩ := remove_perm hrep hdistinct hmem rfl
  have hfds := (hperm.map fun row : pollfd × ssl_node => row.1.fd).nodup_iff.mp hdistinct
  have hlen := hperm.length_eq
  refine ⟨rows[i], hmem, hrep.first i hlt, hrep.second i hlt, rows', hperm, ?_, hrep', (List.nodup_cons.mp hfds).2⟩
  rw [List.length_cons] at hlen
  omega

/-- A disconnect. -/
theorem TableInv.remove (h : TableInv base connections rows opened server) {row : pollfd × ssl_node} (hrow : row ∈ rows)
    {t_poll : pollfd} (hfd : row.1.fd = t_poll.fd) (hsock : t_poll.fd ≠ server.m_server_list_sock) :
    row.2.fp = t_poll.fd ∧ ∃ connections' rows', rows.Perm (row :: rows')
      ∧ TableInv base connections' rows' (opened.filter fun fd => fd ≠ t_poll.fd)
        { server with m_ssl_nodes := server.m_ssl_nodes.remove compare_pollfd t_poll } := by
  -- only the row of the listening socket is not that of a connection
  have hconn : row ∈ connections := by
    rcases List.mem_append.mp (h.perm.mem_iff.mp hrow) with hbase | hconn
    · exact absurd (hfd.symm.trans (h.listening row hbase).1) hsock
    · exact hconn
  obtain ⟨before, after, rfl⟩ := List.append_of_mem hconn
  obtain ⟨rows', hrep, hperm⟩ := remove_perm h.rep h.distinct hrow hfd
  -- the order of the rows is not kept: the last one moves into the gap
  have hrest : rows'.Perm (base ++ (before ++ after)) := by
    refine List.Perm.cons_inv (a := row) (hperm.symm.trans (h.perm.trans ?_))
    rw [← List.append_assoc, ← List.append_assoc]
    exact List.perm_middle
  have hfds : (fds rows).Perm (row.1.fd :: fds rows') := hperm.map fun row : pollfd × ssl_node => row.1.fd
  have hnodup : (row.1.fd :: fds rows').Nodup := hfds.nodup_iff.mp h.distinct
  -- no other row has this descriptor, so all that is left is open
  have hother : ∀ row' ∈ rows', row'.1.fd ≠ t_poll.fd := by
    intro row' hrow' heq
    exact (List.nodup_cons.mp hnodup).1 (List.mem_map.mpr ⟨row', hrow', heq.trans hfd.symm⟩)
  refine ⟨((h.connected row hconn).1.symm.trans hfd), before ++ after, rows', hperm, hrep, hrest, (List.nodup_cons.mp hnodup).2, ?_, ?_, ?_⟩
  · intro row' hrow'
    obtain ⟨hlisten, hopen⟩ := h.listening row' hrow'
    refine ⟨hlisten, hopen.imp_left fun hmem => List.mem_filter.mpr ⟨hmem, decide_eq_true ?_⟩⟩
    exact fun heq => hsock (heq.symm.trans hlisten)
  · intro row' hrow'
    have hmem : row' ∈ rows' := hrest.mem_iff.mpr (List.mem_append_right _ hrow')
    have hold : row' ∈ before ++ row :: after := by
      rcases List.mem_append.mp hrow' with hleft | hright
      · exact List.mem_append_left _ hleft
      · exact List.mem_append_right _ (List.mem_cons_of_mem _ hright)
    obtain ⟨hfp, hopen⟩ := h.connected row' hold
    exact ⟨hfp, List.mem_filter.mpr ⟨hopen, decide_eq_true (hother row' hmem)⟩⟩
  · exact fun fd hmem => h.nonneg fd (List.mem_filter.mp hmem).1

/-! ## Calls

judoAccept_ and judoConnect_ open a descriptor and either add a row with it or close it again,
and a disconnect closes the descriptor of a row and takes the row out. Setting up TLS and
requiring certificates do neither. -/

/-- A trace that neither opens nor closes leaves the descriptors as they were. -/
theorem openFds_of_quiet {tr : List (Event Op Ans)} (h : fdEvents tr = []) : openFds opened tr = opened := by
  rw [← openFds_fdEvents, h, openFds_nil]

/-- A descriptor is opened and closed again. -/
theorem openFds_of_closed {tr : List (Event Op Ans)} {fp : ℤ} {ev : Event Op Ans}
    (hev : ev = ⟨.socket, fp⟩ ∨ ∃ fd, ev = ⟨.accept fd, fp⟩) (h : fdEvents tr = [ev, ⟨.close fp, ()⟩])
    (hopened : ∀ fd ∈ opened, 0 ≤ fd) (hsane : Sane opened tr) : openFds opened tr = opened := by
  have hevents := hsane.fdEvents
  rw [h] at hevents
  rw [← openFds_fdEvents, h]
  rcases hev with rfl | ⟨fd, rfl⟩
  · exact fdStep_close hopened hevents.1
  · exact fdStep_close hopened hevents.1

/-- A descriptor is opened, and it is one. -/
theorem openFds_of_added {tr : List (Event Op Ans)} {fp : ℤ} {ev : Event Op Ans}
    (hev : ev = ⟨.socket, fp⟩ ∨ ∃ fd, ev = ⟨.accept fd, fp⟩) (h : fdEvents tr = [ev]) (hfp : 0 ≤ fp)
    (hsane : Sane opened tr) : openFds opened tr = fp :: opened ∧ fp ∉ opened := by
  have hevents := hsane.fdEvents
  rw [h] at hevents
  rw [← openFds_fdEvents, h]
  rcases hev with rfl | ⟨fd, rfl⟩
  · exact ⟨if_pos hfp, hevents.1 hfp⟩
  · exact ⟨if_pos hfp, hevents.1 hfp⟩

/-- What a call that opens a connection does to the descriptors: none is left open, or the
one of the row that it has added is. -/
def OpensFd (opened : List ℤ) (tr : List (Event Op Ans)) (server server' : JudoServer) : Prop :=
  (server' = server ∧ openFds opened tr = opened)
    ∨ ∃ n : ssl_node, server' = { server with m_ssl_nodes := server.m_ssl_nodes.add ⟨n.fp, POLLIN, 0⟩ n }
      ∧ 0 ≤ n.fp ∧ n.fp ∉ opened ∧ openFds opened tr = n.fp :: opened

/-- The call does not close what it reads from a node that it has deleted. -/
def Prompt (tr : List (Event Op Ans)) (ret : ℤ) : Prop := ∀ fd : ℤ, ⟨.freed, fd⟩ ∈ tr → ¬ LateCode ret

/-- A trace with no close of a value out of a deleted node closes what it opened. -/
theorem NoneFreed.prompt {tr : List (Event Op Ans)} (h : NoneFreed tr) {ret : ℤ} : Prompt tr ret :=
  fun _ hfreed => absurd rfl (h _ hfreed)

/-- `judoAccept_` opens at most the descriptor it adds: one that it refuses it closes. -/
theorem opensFd_judoAccept_ {fuel : ℕ} {tr : List (Event Op Ans)} {server' : JudoServer} {ret : ℤ}
    (hruns : Prog.Runs (judoAccept_ (judoHandshake_ · · fuel) server) tr (some (server', ret)))
    (hopened : ∀ fd ∈ opened, 0 ≤ fd) (hsane : Sane opened tr) (hprompt : Prompt tr ret) : OpensFd opened tr server server' := by
  cases runs_accepts (fun _ _ => internal_judoHandshake_ ..) hruns with
  | unfilled hquiet hret hserver => exact .inl ⟨hserver, openFds_of_quiet hquiet⟩
  | closed fp hfds hret hserver => exact .inl ⟨hserver, openFds_of_closed (.inr ⟨_, rfl⟩) hfds hopened hsane⟩
  | late fp fd hfds hfreed hret hserver => exact absurd hret (hprompt fd hfreed)
  | added n buffer pre post htr hpost hfds hmode hwrite hmet =>
      obtain ⟨rfl, -⟩ := runs_greet hpost
      obtain ⟨size, data, w, hmem, hw⟩ := hwrite
      rw [htr] at hsane ⊢
      have hpre := (sane_append.mp hsane).1
      have hfp := hpre.nonneg_of_write hmem hw
      obtain ⟨hopen, hfresh⟩ := openFds_of_added (.inr ⟨_, rfl⟩) hfds hfp hpre
      refine .inr ⟨n, rfl, hfp, hfresh, ?_⟩
      rw [openFds_append, hopen, openFds_of_quiet (fdEvents_of_internal (internal_greet ..) hpost)]

/-- `judoConnect_` closes its socket on every exit but the successful one. -/
theorem opensFd_judoConnect_ {fuel : ℕ} {t_cert t_key : Option String} {t_mode : Byte} {tr : List (Event Op Ans)}
    {server' : JudoServer} {ret : ℤ}
    (hruns : Prog.Runs (judoConnect_ (judoHandshake_ · · fuel) server t_cert t_key t_mode) tr (some (server', ret)))
    (hopened : ∀ fd ∈ opened, 0 ≤ fd) (hsane : Sane opened tr) (hprompt : Prompt tr ret) : OpensFd opened tr server server' := by
  cases runs_connects (fun _ _ => internal_judoHandshake_ ..) hruns with
  | unfilled hquiet hret hclient => exact .inl ⟨hclient, openFds_of_quiet hquiet⟩
  | closed fp hfds hret hclient => exact .inl ⟨hclient, openFds_of_closed (.inl rfl) hfds hopened hsane⟩
  | late fp fd hfds hfreed hret hclient => exact absurd hret (hprompt fd hfreed)
  | added n buffer pre post htr hpost hfds hmode hconnect hmet =>
      obtain ⟨rfl, -⟩ := runs_hello hpost
      obtain ⟨w, hmem, hw⟩ := hconnect
      rw [htr] at hsane ⊢
      have hpre := (sane_append.mp hsane).1
      have hfp := hpre.nonneg_of_connect hmem hw
      obtain ⟨hopen, hfresh⟩ := openFds_of_added (.inl rfl) hfds hfp hpre
      refine .inr ⟨n, rfl, hfp, hfresh, ?_⟩
      rw [openFds_append, hopen, openFds_of_quiet (fdEvents_of_internal (internal_hello ..) hpost)]

/-- Either way the invariant is kept. -/
theorem TableInv.opens (h : TableInv base connections rows opened server) {tr : List (Event Op Ans)} {server' : JudoServer}
    (hopens : OpensFd opened tr server server') :
    ∃ connections' rows', TableInv base connections' rows' (openFds opened tr) server' := by
  rcases hopens with ⟨rfl, hsame⟩ | ⟨n, rfl, hfp, hfresh, hmore⟩
  · rw [hsame]
    exact ⟨connections, rows, h⟩
  · rw [hmore]
    exact ⟨_, _, h.add hfp hfresh⟩

/-- Disconnecting a connection in the table keeps it too, and takes out its row and closes
its descriptor and no others. -/
theorem TableInv.disconnect (h : TableInv base connections rows opened server) {t_node : ssl_node} {t_poll : pollfd}
    (hcond : t_poll.fd ≠ server.m_server_list_sock ∧ ∃ row ∈ server.m_ssl_nodes.rows, row.1.fd = t_poll.fd ∧ row.2 = t_node)
    {call : ServerCall} {tr : List (Event Op Ans)} {ret : ℤ} (hfds : fdEvents tr = [⟨.close t_node.fp, ()⟩]) :
    (∃ connections' rows', TableInv base connections' rows' (openFds opened tr)
        { server with m_ssl_nodes := server.m_ssl_nodes.remove compare_pollfd t_poll })
      ∧ Called.DisconnectsOne
          ⟨call, server, tr, { server with m_ssl_nodes := server.m_ssl_nodes.remove compare_pollfd t_poll }, ret⟩ t_node t_poll := by
  obtain ⟨hsock, row, hrow, hfd, hnode⟩ := hcond
  rw [h.rep.rows_eq] at hrow
  obtain ⟨hfp, connections', rows', hperm, hinv⟩ := h.remove hrow hfd hsock
  rw [hnode] at hfp
  rw [hfp] at hfds
  have hopen : openFds opened tr = opened.filter fun fd => fd ≠ t_poll.fd := by
    rw [← openFds_fdEvents, hfds]
    rfl
  refine ⟨⟨connections', rows', hopen ▸ hinv⟩, hfp, hfds, row, hfd, hnode, ?_⟩
  rw [h.rep.rows_eq]
  exact hperm.trans (hinv.rep.rows_eq ▸ List.Perm.refl _)

/-- The two requirements only set a flag. -/
theorem TableInv.requireCerts (h : TableInv base connections rows opened server) {flag : BitVec 16} {done failed : String}
    {tr : List (Event Op Ans)} {server' : JudoServer} {ret : ℤ}
    (hruns : Prog.Runs (JudoEngine.requireCerts server flag done failed) tr (server', ret)) :
    TableInv base connections rows (openFds opened tr) server' := by
  obtain ⟨hquiet, hserver⟩ := runs_requireCerts hruns
  rw [openFds_of_quiet hquiet]
  rcases hserver with ⟨-, -, -, rfl⟩ | ⟨-, rfl⟩
  · exact h.keep rfl rfl
  · exact h

/-- Most calls cannot disconnect anything. -/
theorem disconnectsOne_of_ne {c : Called}
    (hother : ∀ t_node t_poll, c.call ≠ .judoDisconnect_ t_node t_poll ∧ c.call ≠ .judoRead_ t_node t_poll)
    (t_node : ssl_node) (t_poll : pollfd) (h : c.Disconnects t_node t_poll) : c.DisconnectsOne t_node t_poll := by
  rcases h with hcall | ⟨hcall, -⟩
  · exact absurd hcall (hother t_node t_poll).1
  · exact absurd hcall (hother t_node t_poll).2

/-- **A call** keeps the invariant, and disconnects nothing but the connection that it was
called for. -/
theorem TableInv.makes (h : TableInv base connections rows opened server) {call : ServerCall} {tr : List (Event Op Ans)}
    {server' : JudoServer} {ret : ℤ} (hcond : Connecting call server) (hmakes : Makes server call tr server' ret)
    (hsane : Sane opened tr) (hnone : NoneFreed tr) :
    (∃ connections' rows', TableInv base connections' rows' (openFds opened tr) server')
      ∧ ∀ t_node t_poll, Called.Disconnects ⟨call, server, tr, server', ret⟩ t_node t_poll →
        Called.DisconnectsOne ⟨call, server, tr, server', ret⟩ t_node t_poll := by
  -- one case for each call: the set-up calls keep the rows, two calls may add one, and two may
  -- remove one
  cases hmakes with
  | judoMakeServerSock_ => exact hcond.elim
  | run => exact hcond.elim
  | judoSetUpServerSockSSL hruns =>
      obtain ⟨hquiet, node, rfl⟩ := runs_judoSetUpServerSockSSL hruns
      refine ⟨⟨connections, rows, ?_⟩, disconnectsOne_of_ne fun _ _ => ⟨nofun, nofun⟩⟩
      rw [openFds_of_quiet hquiet]
      exact h.keep rfl rfl
  | judoServerRequireCerts hruns =>
      exact ⟨⟨connections, rows, h.requireCerts hruns⟩, disconnectsOne_of_ne fun _ _ => ⟨nofun, nofun⟩⟩
  | judoClientRequireCerts hruns =>
      exact ⟨⟨connections, rows, h.requireCerts hruns⟩, disconnectsOne_of_ne fun _ _ => ⟨nofun, nofun⟩⟩
  | judoAccept_ fuel hruns =>
      exact ⟨h.opens (opensFd_judoAccept_ hruns h.nonneg hsane hnone.prompt), disconnectsOne_of_ne fun _ _ => ⟨nofun, nofun⟩⟩
  | judoConnect_ fuel hruns =>
      exact ⟨h.opens (opensFd_judoConnect_ hruns h.nonneg hsane hnone.prompt), disconnectsOne_of_ne fun _ _ => ⟨nofun, nofun⟩⟩
  | judoRead_ fuel hruns =>
      -- a read either stays with its node or disconnects it
      rcases runs_reads hruns with ⟨rfl, rfl, hquiet⟩ | ⟨rfl, rfl, hclose⟩
      · refine ⟨⟨connections, rows, ?_⟩, ?_⟩
        · rw [openFds_of_quiet hquiet]
          exact h
        · rintro t_node t_poll (hcall | ⟨-, hret⟩)
          · exact ServerCall.noConfusion hcall
          · exact absurd (show (0 : ℤ) = -1 from hret) (by decide)
      · obtain ⟨hinv, hone⟩ := h.disconnect hcond hclose
        refine ⟨hinv, ?_⟩
        rintro t_node t_poll (hcall | ⟨hcall, -⟩)
        · exact ServerCall.noConfusion hcall
        · cases hcall
          exact hone
  | judoDisconnect_ ret hruns =>
      obtain ⟨rfl, hclose⟩ := runs_judoDisconnect_ hruns
      obtain ⟨hinv, hone⟩ := h.disconnect hcond hclose
      refine ⟨hinv, ?_⟩
      rintro t_node t_poll (hcall | ⟨hcall, -⟩)
      · cases hcall
        exact hone
      · exact ServerCall.noConfusion hcall

end Invariant

/-! ## Whole lives

The descriptors open after a life are those that its whole trace leaves open, and the rows of
the constructor are those after judoMakeServerSock_. Both grow call by call, as the life does. -/

theorem wholeTrace_snoc (log : List Called) (c : Called) : wholeTrace (log ++ [c]) = wholeTrace log ++ c.trace := by
  rw [wholeTrace, List.flatMap_append, List.flatMap_singleton]
  rfl

theorem constructed_snoc (log : List Called) {c : Called} (hc : c.call ≠ .judoMakeServerSock_) :
    constructed (log ++ [c]) = constructed log := by
  rw [constructed, List.filter_append, List.filter_cons_of_neg (by simpa using hc), List.filter_nil, List.append_nil]
  rfl

theorem constructed_singleton {c : Called} (hc : c.call = .judoMakeServerSock_) : constructed [c] = c.after.m_ssl_nodes.rows := by
  rw [constructed, List.filter_cons_of_pos (by simpa using hc), List.filter_nil, List.flatMap_singleton]

variable {t_addr : Option sockaddr_in} {log : List Called} {server : JudoServer}

/-- A server with an empty table meets the invariant. -/
theorem tableInv_new (h : server.m_ssl_nodes = .new) : TableInv [] [] [] [] server where
  rep := h ▸ DualDynamicArray.rep_new
  perm := .refl _
  distinct := List.nodup_nil
  listening _ hrow := absurd hrow List.not_mem_nil
  connected _ hrow := absurd hrow List.not_mem_nil
  nonneg _ hfd := absurd hfd List.not_mem_nil

/-- The constructor's row, if there is one, is that of the listening socket. -/
theorem tableInv_newAt {tr : List (Event Op Ans)} {server' : JudoServer} {ret : ℤ}
    (hruns : Prog.Runs (judoMakeServerSock_ server) tr (server', ret)) (h : server.m_ssl_nodes = .new) :
    ∃ rows, TableInv server'.m_ssl_nodes.rows [] rows (openFds [] tr) server' := by
  have hrep : server.m_ssl_nodes.Rep [] := h ▸ DualDynamicArray.rep_new
  rcases runs_judoMakeServerSock_ hruns with ⟨-, rfl, -, hquiet⟩ | ⟨-, -, fd, hfds, rfl⟩
  · refine ⟨[], ?_⟩
    rw [openFds_of_quiet hquiet, hrep.rows_eq]
    exact tableInv_new h
  · have hadd := (DualDynamicArray.add_spec hrep ⟨fd, POLLIN, 0⟩ server.m_server_list_sock_node).1
    have hopen : openFds [] tr = if 0 ≤ fd then [fd] else [] := by
      rw [← openFds_fdEvents, hfds]
      rfl
    refine ⟨_, hadd, ?_, List.nodup_singleton fd, ?_, fun _ hrow => absurd hrow List.not_mem_nil, ?_⟩
    · rw [hadd.rows_eq, List.append_nil]
    · rw [hadd.rows_eq, hopen]
      intro row hrow
      rw [List.mem_singleton.mp hrow]
      refine ⟨rfl, ?_⟩
      split
      · exact .inl (List.mem_singleton_self fd)
      · next hneg => exact .inr (not_le.mp hneg)
    · rw [hopen]
      split
      · next hfd => exact List.forall_mem_singleton.mpr hfd
      · exact fun _ hfd => absurd hfd List.not_mem_nil

/-- The invariant holds after every life whose trace is sane and closes nothing out of
deleted nodes, and every disconnect on the way removed its own row and closed its own
descriptor. -/
theorem tableInv_of_life (h : Life Connecting t_addr log server) : Sane [] (wholeTrace log) → NoneFreed (wholeTrace log) →
    (∃ connections rows, TableInv (constructed log) connections rows (openFds [] (wholeTrace log)) server)
      ∧ ∀ c ∈ log, ∀ t_node t_poll, c.Disconnects t_node t_poll → c.DisconnectsOne t_node t_poll := by
  -- by the calls of the life: the constructors give the empty table or the listening row, and every
  -- later call keeps the invariant
  induction h with
  | new hinit =>
      obtain ⟨node, tr, rfl, -, tr, rfl, rfl, rfl⟩ := hinit
      exact fun _ _ => ⟨⟨[], [], tableInv_new rfl⟩, fun _ hc => absurd hc List.not_mem_nil⟩
  | @newAt t_addr tr tr' server server' ret hinit hmakes =>
      obtain ⟨node, tr, rfl, -, tr, rfl, rfl, rfl⟩ := hinit
      intro hsane _
      refine ⟨⟨[], ?_⟩, ?_⟩
      · rw [wholeTrace, List.flatMap_singleton, constructed_singleton rfl]
        cases hmakes with
        | judoMakeServerSock_ hruns => exact tableInv_newAt hruns rfl
      · exact List.forall_mem_singleton.mpr (disconnectsOne_of_ne fun _ _ => ⟨nofun, nofun⟩)
  | @call t_addr log server server' call tr ret h hcond hmakes ih =>
      intro hsane hnone
      rw [wholeTrace_snoc] at hsane hnone ⊢
      obtain ⟨hbefore, hafter⟩ := sane_append.mp hsane
      obtain ⟨hnone₁, hnone₂⟩ := List.forall_mem_append.mp hnone
      obtain ⟨⟨connections, rows, hinv⟩, hlog⟩ := ih hbefore hnone₁
      obtain ⟨hinv', hone⟩ := hinv.makes hcond hmakes hafter hnone₂
      have hcall : call ≠ .judoMakeServerSock_ := by
        rintro rfl
        exact hcond
      rw [openFds_append, constructed_snoc _ hcall]
      exact ⟨hinv', List.forall_mem_append.mpr ⟨hlog, List.forall_mem_singleton.mpr hone⟩⟩

/-- What the constructor's `socket` has answered is what its row has. -/
theorem socketMade_newAt {tr : List (Event Op Ans)} {server' : JudoServer} {ret : ℤ}
    (hruns : Prog.Runs (judoMakeServerSock_ server) tr (server', ret)) (h : server.m_ssl_nodes = .new) :
    (∀ fd : ℤ, ⟨.socket, fd⟩ ∈ tr → 0 ≤ fd) ↔ ∀ row ∈ server'.m_ssl_nodes.rows, 0 ≤ row.1.fd := by
  have hrep : server.m_ssl_nodes.Rep [] := h ▸ DualDynamicArray.rep_new
  have hsocket : ∀ fd : ℤ, ⟨.socket, fd⟩ ∈ tr ↔ ⟨.socket, fd⟩ ∈ fdEvents tr := by
    intro fd
    exact ⟨fun hmem => List.mem_filter.mpr ⟨hmem, rfl⟩, fun hmem => List.mem_of_mem_filter hmem⟩
  simp only [hsocket]
  rcases runs_judoMakeServerSock_ hruns with ⟨-, rfl, -, hquiet⟩ | ⟨-, -, fd, hfds, rfl⟩
  · rw [hquiet, hrep.rows_eq]
    exact ⟨fun _ _ hrow => absurd hrow List.not_mem_nil, fun _ _ hmem => absurd hmem List.not_mem_nil⟩
  · have hadd := (DualDynamicArray.add_spec hrep ⟨fd, POLLIN, 0⟩ server.m_server_list_sock_node).1
    rw [hfds, hadd.rows_eq]
    constructor
    · intro hmade row hrow
      rw [List.mem_singleton.mp hrow]
      exact hmade fd (List.mem_singleton_self _)
    · intro hmade fd' hmem
      cases List.mem_singleton.mp hmem
      exact hmade _ (List.mem_singleton_self _)

/-- The socket of the constructor was made exactly when the rows it has left have a
descriptor. -/
theorem socketMade_iff (h : Life Connecting t_addr log server) : SocketMade log ↔ ∀ row ∈ constructed log, 0 ≤ row.1.fd := by
  induction h with
  | new hinit => exact ⟨fun _ _ hrow => absurd hrow List.not_mem_nil, fun _ _ hc => absurd hc List.not_mem_nil⟩
  | newAt hinit hmakes =>
      obtain ⟨node, tr, rfl, -, tr, rfl, rfl, rfl⟩ := hinit
      rw [SocketMade, List.forall_mem_singleton, constructed_singleton rfl]
      cases hmakes with
      | judoMakeServerSock_ hruns =>
          rw [← socketMade_newAt hruns rfl]
          exact ⟨fun hmade => hmade rfl, fun hmade _ => hmade⟩
  | @call t_addr log server server' call tr ret h hcond hmakes ih =>
      have hcall : call ≠ .judoMakeServerSock_ := by
        rintro rfl
        exact hcond
      rw [constructed_snoc _ hcall, ← ih, SocketMade, List.forall_mem_append]
      exact ⟨fun hmade => hmade.1, fun hmade => ⟨hmade, List.forall_mem_singleton.mpr fun heq => absurd heq hcall⟩⟩

/-- **The table** is as it should be exactly when the constructor's `socket` has
succeeded, if it has been called, as long as no descriptor to be closed is read from a node that
has been deleted. -/
theorem connectionTable_iff (h : Life Connecting t_addr log server) (hsane : Sane [] (wholeTrace log))
    (hnone : NoneFreed (wholeTrace log)) : ConnectionTable log server ↔ SocketMade log := by
  obtain ⟨⟨connections, rows, hinv⟩, hlog⟩ := tableInv_of_life h hsane hnone
  have hrows := hinv.rep.rows_eq
  rw [socketMade_iff h]
  constructor
  · intro htable row hrow
    apply hinv.nonneg
    apply htable.opened
    rw [hrows]
    exact hinv.perm.mem_iff.mpr (List.mem_append_left _ hrow)
  · intro hmade
    refine ⟨hrows ▸ hinv.distinct, fun row hrow => ?_, ⟨connections, ?_, fun row hrow => (hinv.connected row hrow).1⟩, hlog⟩
    · rw [hrows] at hrow
      rcases List.mem_append.mp (hinv.perm.mem_iff.mp hrow) with hbase | hconn
      · rcases (hinv.listening row hbase).2 with hopen | hneg
        · exact hopen
        · exact absurd (hmade row hbase) (not_le.mpr hneg)
      · exact (hinv.connected row hconn).2
    · rw [hrows]
      exact hinv.perm

/-- A system that hands out one descriptor after the other, and a peer that wants no
certificates. -/
def orderlyAnswer : ℤ → (o : Op) → Ans o × ℤ
  | fd, .socket => (fd, fd + 1)
  | fd, .read _ _ => (some [0x0A], fd)
  | fd, .write _ _ data => ((data.length : ℤ), fd)
  | fd, _ => (default, fd)

/-- A server with a listening socket. -/
def listeningServer (m_ssl_nodes : DualDynamicArray pollfd ssl_node) : JudoServer :=
  { JudoServer.init_ default with
    m_list_sock_addr := ⟨0x7F000001, 0x901F⟩
    m_server_list_sock := 3
    m_ssl_nodes := m_ssl_nodes }

/-- The node of a connection that it makes. -/
def connectedNode : ssl_node := { (default : ssl_node) with fp := 4, mode := 0x0A }

/-- It connects to another server, and disconnects. -/
theorem connectionTable_iff_disconnect : ∃ log server, Life Connecting (some ⟨0x7F000001, 0x901F⟩) log server
    ∧ log.map (·.call) = [.judoMakeServerSock_, .judoConnect_ none none 0, .judoDisconnect_ connectedNode ⟨4, POLLIN, POLLIN⟩]
    ∧ Sane [] (wholeTrace log) ∧ NoneFreed (wholeTrace log) ∧ (ConnectionTable log server ↔ SocketMade log) := by
  have hinit : Prog.Runs JudoServer.init _ (.init_ default) := Prog.runs_exec (h := orderlyAnswer) JudoServer.init 3
  have hmakes : Makes { JudoServer.init_ default with m_list_sock_addr := ⟨0x7F000001, 0x901F⟩ } .judoMakeServerSock_ _
      (listeningServer (DualDynamicArray.new.add ⟨3, POLLIN, 0⟩ default)) 0 :=
    .judoMakeServerSock_ (Prog.runs_exec (h := orderlyAnswer) _ 3)
  have hconnect : Makes (listeningServer (DualDynamicArray.new.add ⟨3, POLLIN, 0⟩ default)) (.judoConnect_ none none 0) _
      (listeningServer ((DualDynamicArray.new.add ⟨3, POLLIN, 0⟩ default).add ⟨4, POLLIN, 0⟩ connectedNode)) 0 :=
    .judoConnect_ 0 (Prog.runs_exec (h := orderlyAnswer) _ 4)
  have hdisconnect : Makes (listeningServer ((DualDynamicArray.new.add ⟨3, POLLIN, 0⟩ default).add ⟨4, POLLIN, 0⟩ connectedNode))
      (.judoDisconnect_ connectedNode ⟨4, POLLIN, POLLIN⟩) _ _ 0 :=
    .judoDisconnect_ 0 (Prog.runs_exec (h := orderlyAnswer) _ 5)
  have hcalls : Connecting (.judoConnect_ none none 0) (listeningServer (DualDynamicArray.new.add ⟨3, POLLIN, 0⟩ default)) := trivial
  have hrow : Connecting (.judoDisconnect_ connectedNode ⟨4, POLLIN, POLLIN⟩)
      (listeningServer ((DualDynamicArray.new.add ⟨3, POLLIN, 0⟩ default).add ⟨4, POLLIN, 0⟩ connectedNode)) :=
    ⟨by decide, (⟨4, POLLIN, 0⟩, connectedNode), by decide, rfl, rfl⟩
  have hlife : Life Connecting (some ⟨0x7F000001, 0x901F⟩) _ _ :=
    (Life.newAt hinit hmakes).call hcalls hconnect |>.call hrow hdisconnect
  have hiff : ∀ {log : List Called} {server : JudoServer}, Life Connecting (some ⟨0x7F000001, 0x901F⟩) log server →
      Sane [] (wholeTrace log) → NoneFreed (wholeTrace log) →
      Sane [] (wholeTrace log) ∧ NoneFreed (wholeTrace log) ∧ (ConnectionTable log server ↔ SocketMade log) :=
    fun hlife hsane hnone => ⟨hsane, hnone, connectionTable_iff hlife hsane hnone⟩
  -- the kernel answers in order: 3 for the listening socket, 4 for the connection
  refine ⟨_, _, hlife, rfl, hiff hlife ?_ (noneFreed_of_test (by decide))⟩
  exact ⟨fun _ => List.not_mem_nil, trivial, trivial, trivial, trivial, trivial, trivial, fun _ => by decide, trivial,
    fun hneg => absurd hneg (by decide), trivial, trivial, fun hneg => absurd hneg (by decide), trivial, trivial, trivial, trivial,
    trivial, fun hneg => absurd hneg (by decide), trivial, trivial, trivial, trivial, trivial, trivial, trivial, trivial, trivial⟩

/-- There is no listening socket, and the table has a row for it. -/
theorem no_listening_socket : ¬ ∀ (t_addr : Option sockaddr_in) (log : List Called) (server : JudoServer),
    Life Connecting t_addr log server → Sane [] (wholeTrace log) → ConnectionTable log server := by
  intro h
  have hinit : Prog.Runs JudoServer.init [⟨.new_ssl_node, (default : ssl_node)⟩, ⟨.log "Server Init Complete" 0, ()⟩]
      (.init_ default) := ⟨_, _, rfl, _, _, rfl, rfl, rfl⟩
  have hmakes : Makes { JudoServer.init_ default with m_list_sock_addr := ⟨0x7F000001, 0x901F⟩ } .judoMakeServerSock_
      [⟨.socket, (-1 : ℤ)⟩, ⟨.setsockopt (-1), ()⟩, ⟨.bind (-1), (-1 : ℤ)⟩, ⟨.listen (-1), (-1 : ℤ)⟩,
        ⟨.log "Server socket successfully opened at /%a" 1, ()⟩]
      { JudoServer.init_ default with
        m_list_sock_addr := ⟨0x7F000001, 0x901F⟩
        m_server_list_sock := -1
        m_ssl_nodes := DualDynamicArray.new.add ⟨-1, POLLIN, 0⟩ default } JUDO_SUCCESS := by
    refine .judoMakeServerSock_ ?_
    unfold judoMakeServerSock_
    rw [if_neg (by decide)]
    exact ⟨_, _, rfl, _, _, rfl, _, _, rfl, _, _, rfl, _, _, rfl, rfl, rfl⟩
  have htable := h _ _ _ (.newAt hinit hmakes) ⟨fun hnonneg => absurd hnonneg (by decide), trivial, trivial, trivial, trivial, trivial⟩
  have hopen := htable.opened (⟨-1, POLLIN, 0⟩, default) (by decide)
  exact absurd hopen (by decide)

end JudoEngine
