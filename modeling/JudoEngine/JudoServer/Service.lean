/-
Who is served in a round of the event loop.

`poll` marks the rows that are ready, and the inner loop makes one call for each of
them: `judoAccept_` for the listening socket, `judoRead_` for any other row. Serving a
row may append one, or take it out and move the last row into its place; what
carries the argument is that the rows from `index` on are always those that still
wait, in some order, with rows that are not ready between them.

A client that closes its connection without having sent anything upsets the round: the
loop then prints and deletes a pointer that nobody has set, and whether the rows that
still wait are served depends on what comes of that. So does one that is alone in the
table: the loop then clears the `revents` of a row before the first (`servedOnce_iff`).
-/
import Mathlib.Data.List.Nodup
import JudoEngine.JudoServer.AccessSafety

set_option autoImplicit false

open Words

namespace JudoEngine

/-! ## Calls

Which call a row is due is decided when poll has returned, from its `revents` and its
descriptor. Which call an iteration has made is read off its record. -/

/-- A call that the loop makes for a row. -/
inductive RowCall where
  | judoAccept_
  | judoRead_ (row : pollfd × ssl_node)
  deriving DecidableEq

/-- The call of an iteration. -/
def Act.call : Act → Option RowCall
  | .idle => none
  | .accept _ => some .judoAccept_
  | .read row _ => some (.judoRead_ row)

/-- A read that ends with the client's disconnection. -/
def Act.disconnects : Act → Bool
  | .read _ ret => ret = -1
  | _ => false

/-- The call that a row is due when `poll` has returned. -/
def due (m_server_list_sock : ℤ) (row : pollfd × ssl_node) : Option RowCall :=
  if row.1.revents &&& POLLIN = 0 then none
  else if row.1.fd = m_server_list_sock then some .judoAccept_ else some (.judoRead_ row)

/-- `poll` counts the row. -/
def ready (row : pollfd × ssl_node) : Bool := row.1.revents ≠ 0

/-- The row is due an accept. -/
def listens (m_server_list_sock : ℤ) (row : pollfd × ssl_node) : Bool := due m_server_list_sock row = some .judoAccept_

/-- What the system does not do: accept a descriptor that the table has, or write to a
negative one. -/
def Kernel (table : DualDynamicArray pollfd ssl_node) (ev : Event Op Ans) : Prop :=
  match ev with
  | ⟨.accept _, fp⟩ => 0 ≤ (fp : ℤ) → ∀ i < table.m_size, ∀ p ∈ table.m_first_array i, p.fd ≠ fp
  | ⟨.write fd _ _, w⟩ => fd < 0 → (w : ℤ) ≤ 0
  | _ => True

/-- What is given in an iteration; the capacity of the table does not change in it. -/
structure Orderly (s : Round) (tr : List (Event Op Ans)) (s' : Round) : Prop where
  cap : s'.table.m_cap = s.table.m_cap
  kernel : ∀ ev ∈ tr, Kernel s.table ev

/-- The iteration leaves the loop its arrays as long as it needs them, and the system does not
do in it what it does not do. -/
structure Steady (s : Round) (act : Act) (tr : List (Event Op Ans)) : Prop where
  room : act = .accept JUDO_SUCCESS → s.table.m_size < s.table.m_cap
  shrinks : act.disconnects = true → s.table.Shrinks → s.sockets_to_handel = 1 ∧ s.index ≠ s.table.m_size - 1
  kernel : ∀ ev ∈ tr, Kernel s.table ev

/-- What an iteration has done, with its record. -/
abbrev IterationRecord := Act × List (Event Op Ans)

/-- Iterations of the inner loop, one after the other. -/
inductive Iterations (P : Round → List (Event Op Ans) → Round → Prop) (s₀ : Round) : List IterationRecord → Round → Prop where
  | start : Iterations P s₀ [] s₀
  | step {steps : List IterationRecord} {s s' : Round} {act : Act} {tr : List (Event Op Ans)} (fuel : ℕ)
      (h : Iterations P s₀ steps s) (hgo : s.sockets_to_handel ≠ 0)
      (hruns : Prog.Runs (run.iteration fuel s) tr (some (s', act))) (hP : P s tr s') :
      Iterations P s₀ (steps ++ [(act, tr)]) s'

/-- What the loop does itself in an iteration. -/
def loopsItself : Op → Bool
  | .access _ _ _ _ | .log _ _ | .indeterminate | .print_client _ _ | .delete_char _ | .undefined => true
  | _ => false

/-- The record of an iteration that makes this call: one run of the function, and what the
loop does itself before and after it. -/
inductive MakesCall : Option RowCall → List (Event Op Ans) → Prop where
  | nothing {tr : List (Event Op Ans)} (hitself : ∀ ev ∈ tr, loopsItself ev.op = true) : MakesCall none tr
  | judoAccept_ {before called after : List (Event Op Ans)} {fuel : ℕ} {server server' : JudoServer} {ret : ℤ}
      (hitself : ∀ ev ∈ before ++ after, loopsItself ev.op = true)
      (hcalled : Prog.Runs (judoAccept_ (judoHandshake_ · · fuel) server) called (some (server', ret))) :
      MakesCall (some .judoAccept_) (before ++ (called ++ after))
  | judoRead_ {before called after : List (Event Op Ans)} {fuel : ℕ} {server server' : JudoServer}
      {row : pollfd × ssl_node} {x buffer : ℕ} {ret size : ℤ} (hitself : ∀ ev ∈ before ++ after, loopsItself ev.op = true)
      (hcalled : Prog.Runs (judoRead_ fuel server row.2 row.1 x) called (some (server', ret, buffer, size))) :
      MakesCall (some (.judoRead_ row)) (before ++ (called ++ after))

/-- What the first `read` of a record brings. -/
def firstRead : List (Event Op Ans) → Option (List Byte)
  | [] => none
  | ⟨.read _ _, r⟩ :: _ => r
  | _ :: tr => firstRead tr

/-- If it is a call of `judoRead_`, it has received something. -/
def ReceivesSome (x : IterationRecord) : Prop := ∀ row ret, x.1 = .read row ret → 0 < bytesRead (firstRead x.2)

/-- The size of the table at the first access of a record. -/
def rowsBefore : List (Event Op Ans) → ℕ
  | ⟨.access _ _ _ m_size, _⟩ :: _ => m_size
  | _ => 0

/-- A client that disconnects is not alone in the table. -/
def Accompanied (x : IterationRecord) : Prop := ∀ row, x.1 = .read row (-1) → 1 < rowsBefore x.2

/-! ## The invariant

The calls made and the calls still due make up those that were due at first, as lists up to
their order: a disconnect moves the last row forward, and an accept adds one behind. -/

/-- The descriptors in the table. -/
def fds (rows : List (pollfd × ssl_node)) : List ℤ := rows.map fun row => row.1.fd

/-- After `acts`, with row `i` the next: the calls made and those that the rows from
`i` on are due make up those that the rows were due at first, and there are
enough sockets left to handle (after a `poll` that has failed their number is negative, and
does not end the loop). -/
structure Serving (m_server_list_sock : ℤ) (rows₀ : List (pollfd × ssl_node)) (acts : List Act) (s : Round)
    (rows : List (pollfd × ssl_node)) (i : ℕ) : Prop where
  rep : s.table.Rep rows
  arrays : s.sockets_to_handel ≠ 0 → s.arrays = s.table.arrays
  index : s.index = i
  sock : s.server.m_server_list_sock = m_server_list_sock
  nodup : (fds rows).Nodup
  enough : 0 ≤ s.sockets_to_handel → ((rows.drop i).countP ready : ℤ) ≤ s.sockets_to_handel
  calls : (acts.filterMap Act.call ++ (rows.drop i).filterMap (due m_server_list_sock)).Perm
    (rows₀.filterMap (due m_server_list_sock))
  budget : acts.length + (rows.drop i).length + (rows.drop i).countP (listens m_server_list_sock) ≤ rows₀.length + 1

variable {m_server_list_sock : ℤ} {rows₀ rows : List (pollfd × ssl_node)} {acts : List Act} {s s₁ s' : Round} {i : ℕ}

/-- A row that is due a call is ready. -/
theorem ready_of_due {row : pollfd × ssl_node} (h : row.1.revents &&& POLLIN ≠ 0) : ready row = true := by
  refine decide_eq_true fun hzero => h ?_
  rw [hzero]
  exact BitVec.zero_and

theorem fds_set {k : ℕ} (hk : k < rows.length) {row : pollfd × ssl_node} (hfd : row.1.fd = rows[k].1.fd) :
    fds (rows.set k row) = fds rows := DualDynamicArray.map_set_row hk hfd

theorem fds_cleared (hi : i < rows.length) : fds (rows.set i (clearedRow rows[i])) = fds rows := by
  refine fds_set hi ?_
  rfl

/-! ## A visited row

Serving a row changes the rest of the table by one move at most. This lemma says what the rest
must look like for the invariant to go on. -/

/-- Rows that are not ready are due nothing. -/
theorem not_ready (m_server_list_sock : ℤ) {extra : List (pollfd × ssl_node)} (h : ∀ row ∈ extra, row.1.revents = 0) :
    extra.countP ready = 0 ∧ extra.filterMap (due m_server_list_sock) = []
      ∧ extra.countP (listens m_server_list_sock) = 0 := by
  have hdue : ∀ row ∈ extra, due m_server_list_sock row = none := by
    intro row hrow
    unfold due
    rw [h row hrow]
    exact if_pos BitVec.zero_and
  refine ⟨?_, ?_, ?_⟩
  · rw [List.countP_eq_zero]
    intro row hrow
    simp [ready, h row hrow]
  · rw [List.filterMap_eq_nil_iff]
    exact hdue
  · rw [List.countP_eq_zero]
    intro row hrow
    simp [listens, hdue row hrow]

/-- **A visited row.** It has had its call; the rows after it still wait, in some
order, maybe with rows that are not ready. -/
theorem Serving.visit (h : Serving m_server_list_sock rows₀ acts s rows i) (hi : i < rows.length) {act : Act}
    (hact : act.call = due m_server_list_sock rows[i]) {j : ℕ} {rows' extra : List (pollfd × ssl_node)}
    (hrep : s'.table.Rep rows') (harrays : s'.sockets_to_handel ≠ 0 → s'.arrays = s'.table.arrays) (hindex : s'.index = j)
    (hsock : s'.server.m_server_list_sock = m_server_list_sock) (hnodup : (fds rows').Nodup)
    (hsockets : s.sockets_to_handel ≤ s'.sockets_to_handel + if ready rows[i] then 1 else 0)
    (hfewer : s'.sockets_to_handel ≤ s.sockets_to_handel)
    (hsuffix : (rows'.drop j).Perm (rows.drop (i + 1) ++ extra)) (hextra : ∀ row ∈ extra, row.1.revents = 0)
    (hlength : extra.length ≤ if listens m_server_list_sock rows[i] then 1 else 0) :
    Serving m_server_list_sock rows₀ (acts ++ [act]) s' rows' j := by
  obtain ⟨hready, hdue, hlistens⟩ := not_ready m_server_list_sock hextra
  have hdrop : rows.drop i = rows[i] :: rows.drop (i + 1) := List.drop_eq_getElem_cons hi
  refine ⟨hrep, harrays, hindex, hsock, hnodup, ?_, ?_, ?_⟩
  · -- a row that was ready may have been counted off
    intro hnonneg
    have henough := h.enough (hnonneg.trans hfewer)
    rw [hdrop, List.countP_cons] at henough
    rw [hsuffix.countP_eq, List.countP_append, hready]
    push_cast at henough ⊢
    omega
  · -- the call moves from those that are due to those that were made
    refine List.Perm.trans ?_ h.calls
    refine ((hsuffix.filterMap _).append_left _).trans ?_
    rw [hdrop, List.filterMap_append, List.filterMap_append, hdue, List.append_nil, List.append_assoc]
    refine List.Perm.append_left _ ?_
    rw [List.filterMap_cons, List.filterMap_cons, hact]
    cases due m_server_list_sock rows[i] <;> exact .refl _
  · -- one iteration more; an accept may have added a row, and then the listening one is behind us
    have hbudget := h.budget
    rw [hdrop, List.countP_cons, List.length_cons] at hbudget
    rw [hsuffix.countP_eq, hsuffix.length_eq, List.countP_append, hlistens, List.length_append, List.length_append,
      List.length_singleton]
    omega

/-! ## The end of an iteration

The loop goes on to the next index, or ends when it was at the last row, and then clears
`revents` once more. -/

/-- The store at the end of an iteration only clears `revents` of a row that has been
visited. -/
theorem clear_visited {tr : List (Event Op Ans)} (hruns : Prog.Runs s.clear tr s') (hrep : s.table.Rep rows) {j : ℕ}
    (hindex : s.index + 1 = j) (hj : j ≤ rows.length) :
    ∃ table rows', s' = s.withTable table ∧ table.Rep rows' ∧ table.arrays = s.table.arrays
      ∧ fds rows' = fds rows ∧ rows'.drop j = rows.drop j := by
  obtain ⟨x, tr, rfl, rfl, rfl⟩ := hruns
  by_cases hcurrent : s.Current
  · rw [if_pos hcurrent]
    obtain ⟨k, hk⟩ := Int.eq_ofNat_of_zero_le hcurrent.2
    have hlt : k < rows.length := by omega
    rw [hk, Int.toNat_natCast]
    refine ⟨_, _, rfl, hrep.modifyFirst hlt _, rfl, fds_set hlt rfl, ?_⟩
    rw [List.drop_set_of_lt (by omega)]
  · rw [if_neg hcurrent]
    exact ⟨s.table, rows, rfl, hrep, rfl, rfl, rfl⟩

theorem advance_m_cap {tr : List (Event Op Ans)} (hruns : Prog.Runs (run.advance s₁) tr s') :
    s'.table.m_cap = s₁.table.m_cap := by
  rcases runs_advance hruns with ⟨-, -, rfl⟩ | ⟨-, s₂, ⟨x, tr, rfl, rfl, rfl⟩, rfl⟩
  · rfl
  · show (if s₁.Current then _ else _ : Round).table.m_cap = _
    split <;> rfl

/-- The end of an iteration. -/
theorem Serving.advance {j : ℕ} (h : Serving m_server_list_sock rows₀ acts { s₁ with index := s₁.index + 1 } rows j)
    (hlast : s₁.index = s₁.array_size - 1 → j ≤ rows.length ∧ (rows.drop j).countP ready = 0)
    (hnext : s₁.index ≠ s₁.array_size - 1 → s₁.sockets_to_handel ≠ 0 → j < rows.length) {tr : List (Event Op Ans)}
    (hruns : Prog.Runs (run.advance s₁) tr s') :
    ∃ rows', Serving m_server_list_sock rows₀ acts s' rows' j ∧ (s'.sockets_to_handel ≠ 0 → j < rows'.length) := by
  rcases runs_advance hruns with ⟨hgo, -, rfl⟩ | ⟨hend, s₂, hclear, rfl⟩
  · exact ⟨rows, h, hnext hgo⟩
  · obtain ⟨hj, hnone⟩ := hlast hend
    obtain ⟨table, rows', rfl, hrep, harrays, hfds, hdrop⟩ := clear_visited hclear h.rep h.index hj
    refine ⟨rows', ?_, fun hne => absurd rfl hne⟩
    exact
      { rep := hrep
        arrays := fun hne => absurd rfl hne
        index := h.index
        sock := h.sock
        nodup := hfds ▸ h.nodup
        enough := fun _ => by
          rw [hdrop, hnone]
          exact le_rfl
        calls := hdrop ▸ h.calls
        budget := hdrop ▸ h.budget }

/-! ## An iteration

Three things may come of the row that is served: it stays, a row is added behind the others,
or it is taken out. -/

/-- Nothing is left after the last row. -/
theorem drop_last (hi : i + 1 = rows.length) : rows.drop (i + 1) = [] := List.drop_of_length_le (by omega)

/-- What the rest of an iteration needs to know once the row is served. -/
def Visited (m_server_list_sock : ℤ) (rows₀ : List (pollfd × ssl_node)) (acts : List Act) (s₁ : Round) : Prop :=
  ∃ rows j, Serving m_server_list_sock rows₀ acts { s₁ with index := s₁.index + 1 } rows j
    ∧ (s₁.index = s₁.array_size - 1 → j ≤ rows.length ∧ (rows.drop j).countP ready = 0)
    ∧ (s₁.index ≠ s₁.array_size - 1 → s₁.sockets_to_handel ≠ 0 → j < rows.length)

/-- The row stays where it is. -/
theorem Serving.stay (h : Serving m_server_list_sock rows₀ acts s rows i) (hi : i < rows.length) {act : Act}
    (hact : act.call = due m_server_list_sock rows[i]) {rows' extra : List (pollfd × ssl_node)}
    (hrep : s₁.table.Rep rows') (harrays : s₁.arrays = s₁.table.arrays) (hindex : s₁.index = s.index)
    (hsize : s₁.array_size = rows.length) (hsock : s₁.server.m_server_list_sock = m_server_list_sock)
    (hnodup : (fds rows').Nodup)
    (hsockets : s.sockets_to_handel ≤ s₁.sockets_to_handel + if ready rows[i] then 1 else 0)
    (hfewer : s₁.sockets_to_handel ≤ s.sockets_to_handel)
    (hsuffix : rows'.drop (i + 1) = rows.drop (i + 1) ++ extra) (hextra : ∀ row ∈ extra, row.1.revents = 0)
    (hlength : extra.length ≤ if listens m_server_list_sock rows[i] then 1 else 0)
    (hrows : rows'.length = rows.length + extra.length) : Visited m_server_list_sock rows₀ (acts ++ [act]) s₁ := by
  have hindex' := h.index
  refine ⟨rows', i + 1, h.visit hi hact hrep (fun _ => harrays) ?_ hsock hnodup hsockets hfewer (.of_eq hsuffix) hextra hlength,
    fun hlast => ⟨by omega, ?_⟩, fun hgo _ => ?_⟩
  · show s₁.index + 1 = ((i + 1 : ℕ) : ℤ)
    omega
  · rw [hsuffix, drop_last (by omega), List.nil_append]
    exact (not_ready m_server_list_sock hextra).1
  · omega

theorem due_accept {row : pollfd × ssl_node} (hrevents : row.1.revents &&& POLLIN ≠ 0) (hfd : row.1.fd = m_server_list_sock) :
    due m_server_list_sock row = some .judoAccept_ := by
  rw [due, if_neg hrevents, if_pos hfd]

theorem due_read {row : pollfd × ssl_node} (hrevents : row.1.revents &&& POLLIN ≠ 0) (hfd : row.1.fd ≠ m_server_list_sock) :
    due m_server_list_sock row = some (.judoRead_ row) := by
  rw [due, if_neg hrevents, if_neg hfd]

/-- The row that is found for a descriptor is the one that has it. -/
theorem find_cleared (h : Serving m_server_list_sock rows₀ acts s rows i) (hi : i < rows.length) :
    (s.cleared i).find compare_pollfd rows[i].1 = (i : ℤ) := by
  have hlen : i < (rows.set i (clearedRow rows[i])).length := by
    rw [List.length_set]
    exact hi
  rcases DualDynamicArray.find_spec compare_pollfd (rep_cleared h.rep hi) rows[i].1 with
    ⟨-, hnone⟩ | ⟨k, hk, hfind, hmatch, -⟩
  · refine absurd ?_ (hnone i hlen)
    rw [List.getElem_set_self]
    exact sub_self _
  · have hk' : k < rows.length := by
      rw [List.length_set] at hk
      exact hk
    have hfd : rows[i].1.fd = rows[k].1.fd := by
      refine (sub_eq_zero.mp hmatch).trans ?_
      rw [List.getElem_set]
      split
      · next hik =>
          subst hik
          rfl
      · rfl
    -- the descriptors are distinct, so the row with this one is row `i`
    have hsame : (fds rows)[i]? = (fds rows)[k]? := by
      unfold fds
      rw [List.getElem?_map, List.getElem?_map, List.getElem?_eq_getElem hi, List.getElem?_eq_getElem hk']
      exact congrArg some hfd
    have hik : i = k := (List.getElem?_inj (by rw [fds, List.length_map]; exact hi) h.nodup).mp hsame
    rw [hfind, hik]

/-- The row is taken out, and the last row moved into its place. -/
theorem Serving.remove (h : Serving m_server_list_sock rows₀ acts s rows i) (hi : i < rows.length) :
    ∃ rows', ((s.cleared i).remove compare_pollfd rows[i].1).Rep rows' ∧ rows'.length = rows.length - 1
      ∧ (fds rows').Nodup ∧ (rows'.drop i).Perm (rows.drop (i + 1)) := by
  have hlen : i < (rows.set i (clearedRow rows[i])).length := by
    rw [List.length_set]
    exact hi
  have hrep := DualDynamicArray.remove_spec (rep_cleared h.rep hi) hlen (find_cleared h hi)
  refine ⟨_, hrep, ?_, ?_, ?_⟩
  · rw [DualDynamicArray.length_removeRow, List.length_set]
  · have hperm := (DualDynamicArray.perm_removeRow _ i hlen).map fun row => row.1.fd
    have hsub : ((rows.set i (clearedRow rows[i])).eraseIdx i).Sublist (rows.set i (clearedRow rows[i])) :=
      List.eraseIdx_sublist ..
    have hnodup : (fds (rows.set i (clearedRow rows[i]))).Nodup := (fds_cleared hi).symm ▸ h.nodup
    exact hperm.nodup_iff.mpr (hnodup.sublist (hsub.map _))
  · refine (DualDynamicArray.drop_removeRow _ i hlen).trans ?_
    rw [List.drop_set_of_lt (Nat.lt_succ_self i)]

/-- **Serving a row.** What follows needs the rest of the rows only. -/
theorem Serving.served (h : Serving m_server_list_sock rows₀ acts s rows i) (hi : i < rows.length)
    (hgo : s.sockets_to_handel ≠ 0) {act : Act} {tr : List (Event Op Ans)}
    (hserved : RowServed { s with array_size := s.table.m_size } i rows[i] tr s₁ act)
    {tr' : List (Event Op Ans)} (htr : ∀ ev ∈ tr, ev ∈ tr') (hsteady : Steady s act tr') :
    Visited m_server_list_sock rows₀ (acts ++ [act]) s₁ := by
  have hsize : s.table.m_size = rows.length := h.rep.size
  have hindex := h.index
  have harrays := h.arrays hgo
  have hnil : ∀ row ∈ ([] : List (pollfd × ssl_node)), row.1.revents = 0 := fun _ hmem => absurd hmem List.not_mem_nil
  cases hserved with
  | idle hrevents =>
      refine h.stay hi (if_pos hrevents).symm h.rep harrays rfl (congrArg Int.ofNat hsize) h.sock h.nodup ?_ le_rfl
        (List.append_nil _).symm hnil (Nat.zero_le _) rfl
      show s.sockets_to_handel ≤ s.sockets_to_handel + _
      split <;> omega
  | refused ret hrevents hfd hret =>
      refine h.stay hi (due_accept hrevents (hfd.trans h.sock)).symm h.rep harrays rfl (congrArg Int.ofNat hsize) h.sock
        h.nodup ?_ le_rfl (List.append_nil _).symm hnil (Nat.zero_le _) rfl
      show s.sockets_to_handel ≤ s.sockets_to_handel + _
      split <;> omega
  | accepted n size w data hrevents hfd haccept hwrite hw =>
      obtain ⟨hrep, hroom, -⟩ := DualDynamicArray.add_spec h.rep ⟨n.fp, POLLIN, 0⟩ n
      have hdue := due_accept hrevents (hfd.trans h.sock)
      have hlt : rows.length < s.table.m_cap := hsize ▸ hsteady.room rfl
      -- the descriptor is new
      have hnew : n.fp ∉ fds rows := by
        intro hmem
        have hfp : 0 ≤ n.fp := by
          by_contra hneg
          have hle : w ≤ 0 := hsteady.kernel _ (htr _ hwrite) (not_le.mp hneg)
          omega
        obtain ⟨row, hrow, hsame⟩ := List.mem_map.mp hmem
        obtain ⟨k, hk, rfl⟩ := List.getElem_of_mem hrow
        exact hsteady.kernel _ (htr _ haccept) hfp k (by omega) _ (h.rep.first k hk) hsame
      refine h.stay hi hdue.symm hrep (harrays.trans (hroom hlt).1.symm) rfl (congrArg Int.ofNat hsize) h.sock ?_ ?_ le_rfl
        (List.drop_append_of_le_length (by omega)) ?_ ?_ ?_
      · have happend : fds (rows ++ [(⟨n.fp, POLLIN, 0⟩, n)]) = fds rows ++ [n.fp] := List.map_append ..
        rw [happend, List.nodup_append]
        refine ⟨h.nodup, List.nodup_singleton _, fun a ha b hb heq => hnew ?_⟩
        rw [← List.mem_singleton.mp hb, ← heq]
        exact ha
      · show s.sockets_to_handel ≤ s.sockets_to_handel + _
        split <;> omega
      · intro row hrow
        rw [List.mem_singleton.mp hrow]
      · have hlistens : listens m_server_list_sock rows[i] = true := decide_eq_true hdue
        rw [if_pos hlistens]
        exact le_rfl
      · rw [List.length_append]
  | received hrevents hfd =>
      refine h.stay hi (due_read hrevents (h.sock ▸ hfd)).symm (rep_cleared h.rep hi) harrays rfl
        (congrArg Int.ofNat hsize) h.sock ?_ ?_ (Int.sub_le_self _ (by decide)) ?_ hnil (Nat.zero_le _) (List.length_set ..)
      · exact (fds_cleared hi).symm ▸ h.nodup
      · rw [if_pos (ready_of_due hrevents)]
        show s.sockets_to_handel ≤ s.sockets_to_handel - 1 + 1
        omega
      · rw [List.drop_set_of_lt (Nat.lt_succ_self i), List.append_nil]
  | disconnected hrevents hfd =>
      have hfd' : rows[i].1.fd ≠ m_server_list_sock := h.sock ▸ hfd
      have hact : Act.call (.read rows[i] (-1)) = due m_server_list_sock rows[i] := (due_read hrevents hfd').symm
      have hshrinks := hsteady.shrinks rfl
      obtain ⟨rows', hrep, hlen, hnodup, hsuffix⟩ := h.remove hi
      -- the arrays are replaced only when no socket is left after this one
      have hkept : s.sockets_to_handel - 1 ≠ 0 →
          s.arrays = ((s.cleared i).remove compare_pollfd rows[i].1).arrays := fun hne => by
        have hsame : ¬ (s.cleared i).Shrinks := fun hs => hne (by rw [(hshrinks hs).1]; rfl)
        exact harrays.trans (DualDynamicArray.remove_arrays hsame _).1.symm
      refine ⟨rows', i, h.visit hi hact hrep hkept ?_ h.sock hnodup ?_ (Int.sub_le_self _ (by decide))
        (hsuffix.trans (.of_eq (List.append_nil _).symm)) hnil (Nat.zero_le _), fun hlast => ?_, fun hmore _ => ?_⟩
      · show s.index - 1 + 1 = i
        omega
      · rw [if_pos (ready_of_due hrevents)]
        show s.sockets_to_handel ≤ s.sockets_to_handel - 1 + 1
        omega
      · simp only at hlast
        refine ⟨by omega, ?_⟩
        rw [hsuffix.countP_eq, drop_last (by omega)]
        rfl
      · simp only at hmore
        omega

/-! ## The round

By induction on the iterations, from the first row on. The sockets left to handle count down
with the ready rows, so the round is over when no call is due. -/

/-- One iteration, from row `i`. -/
theorem Serving.iteration (h : Serving m_server_list_sock rows₀ acts s rows i) (hi : i < rows.length)
    (hgo : s.sockets_to_handel ≠ 0) {fuel : ℕ} {act : Act} {tr : List (Event Op Ans)}
    (hruns : Prog.Runs (run.iteration fuel s) tr (some (s', act))) (hsteady : Steady s act tr) :
    ∃ rows' j, Serving m_server_list_sock rows₀ (acts ++ [act]) s' rows' j ∧ (s'.sockets_to_handel ≠ 0 → j < rows'.length) := by
  rcases runs_iteration ⟨h.rep, h.arrays hgo, h.index, hi⟩ hi hruns with
    ⟨hnone, -⟩ | ⟨tr₀, tr₁, tr₂, s₁, act', s₂, rfl, hsome, -, hserved, hadvance⟩
  · exact absurd hnone (Option.some_ne_none _)
  obtain ⟨rfl, rfl⟩ := Prod.mk.inj (Option.some.inj hsome)
  have htr : ∀ ev ∈ tr₁, ev ∈ tr₀ ++ tr₁ ++ tr₂ := fun ev hev =>
    List.mem_append_left _ (List.mem_append_right _ hev)
  obtain ⟨rows₁, j, hserving, hlast, hnext⟩ := h.served hi hgo hserved htr hsteady
  obtain ⟨rows', hserving', hmore⟩ := hserving.advance hlast hnext hadvance
  exact ⟨rows', j, hserving', hmore⟩

/-- When the capacity stays the same, the loop keeps its arrays. -/
theorem Orderly.steady (h : At s rows i) {fuel : ℕ} {act : Act} {tr : List (Event Op Ans)}
    (hruns : Prog.Runs (run.iteration fuel s) tr (some (s', act))) (horderly : Orderly s tr s') : Steady s act tr := by
  rcases runs_iteration h h.lt hruns with ⟨hnone, -⟩ | ⟨tr₀, tr₁, tr₂, s₁, act', s₂, rfl, hsome, -, hserved, hadvance⟩
  · exact absurd hnone (Option.some_ne_none _)
  obtain ⟨rfl, rfl⟩ := Prod.mk.inj (Option.some.inj hsome)
  have hcap : s₁.table.m_cap = s.table.m_cap := (advance_m_cap hadvance).symm.trans horderly.cap
  refine ⟨fun haccept => ?_, fun hread hshrinks => ?_, horderly.kernel⟩
  · cases hserved with
    | refused ret hrevents hfd hret => exact absurd (Act.accept.inj haccept) hret
    | accepted n size w data hrevents hfd hin hwrite hw =>
        -- a table that is full doubles its capacity
        obtain ⟨-, -, hfull⟩ := DualDynamicArray.add_spec h.rep ⟨n.fp, POLLIN, 0⟩ n
        rw [h.rep.size]
        refine lt_of_le_of_ne h.rep.cap fun heq => ?_
        have hpos := h.rep.pos
        have hdouble : s.table.m_cap = 2 * s.table.m_cap := hcap.symm.trans (hfull heq).2
        omega
    | idle hrevents => cases haccept
    | received hrevents hfd => cases haccept
    | disconnected hrevents hfd => cases haccept
  · cases hserved with
    | disconnected hrevents hfd =>
        -- a removal that shrinks the arrays halves the capacity
        have hi := h.lt
        obtain ⟨k, -, hfind⟩ := find_of_cleared h.rep hi
        have hfound : (s.cleared i).find compare_pollfd rows[i].1 ≠ -1 := by
          rw [hfind]
          omega
        have hshrunk : (s.cleared i).Shrinks := hshrinks
        have hhalf : s.table.m_cap / 2 = s.table.m_cap := (DualDynamicArray.remove_m_cap hshrunk hfound).symm.trans hcap
        have hpos := h.rep.pos
        omega
    | idle hrevents => cases hread
    | refused ret hrevents hfd hret => cases hread
    | accepted n size w data hrevents hfd hin hwrite hw => cases hread
    | received hrevents hfd => cases hread

/-- All of them. -/
theorem Iterations.serving {s₀ : Round} {steps : List IterationRecord}
    (hstart : Serving m_server_list_sock rows₀ [] s₀ rows₀ 0) (hgo : s₀.sockets_to_handel ≠ 0 → 0 < rows₀.length)
    (h : Iterations Orderly s₀ steps s) :
    ∃ rows i, Serving m_server_list_sock rows₀ (steps.map Prod.fst) s rows i ∧ (s.sockets_to_handel ≠ 0 → i < rows.length) := by
  induction h with
  | start => exact ⟨rows₀, 0, hstart, hgo⟩
  | step fuel h hne hruns horderly ih =>
      obtain ⟨rows, i, hserving, hi⟩ := ih
      have hat : At _ rows i := ⟨hserving.rep, hserving.arrays hne, hserving.index, hi hne⟩
      rw [List.map_append]
      exact hserving.iteration (hi hne) hne hruns (horderly.steady hat hruns)

/-- There is one listening row at most. -/
theorem countP_listens (hnodup : (fds rows).Nodup) : rows.countP (listens m_server_list_sock) ≤ 1 := by
  have hfd : ∀ row : pollfd × ssl_node, listens m_server_list_sock row = true → row.1.fd = m_server_list_sock := by
    intro row hlistens
    have hdue := of_decide_eq_true hlistens
    unfold due at hdue
    split at hdue
    · cases hdue
    · split at hdue
      · assumption
      · cases hdue
  calc rows.countP (listens m_server_list_sock)
      ≤ rows.countP (fun row => row.1.fd == m_server_list_sock) :=
        List.countP_mono_left fun row _ hlistens => beq_iff_eq.mpr (hfd row hlistens)
    _ = (fds rows).count m_server_list_sock := by
        rw [fds, List.count, List.countP_map]
        rfl
    _ ≤ 1 := List.nodup_iff_count_le_one.mp hnodup m_server_list_sock

/-- The round begins with all rows waiting. -/
theorem serving_round {server : JudoServer} {a : ℤ} {tr : List (Event Op Ans)} {s₀ : Round}
    (hround : Prog.Runs (run.round server a) tr s₀) (hrep : s₀.table.Rep rows) (hnodup : (fds rows).Nodup)
    (hpoll : 0 ≤ s₀.sockets_to_handel → s₀.sockets_to_handel = rows.countP ready) :
    Serving server.m_server_list_sock rows [] s₀ rows 0 := by
  obtain ⟨harrays, hindex, hsock⟩ := runs_round hround
  exact
      { rep := hrep
        arrays := fun _ => harrays
        index := hindex
        sock := hsock
        nodup := hnodup
        enough := fun hnonneg => (hpoll hnonneg).symm.le
        calls := .refl _
        budget := by
          rw [List.drop_zero, List.length_nil, Nat.zero_add]
          exact Nat.add_le_add_left (countP_listens hnodup) _ }

/-- When no socket is left to handle, all calls have been made. -/
theorem Serving.done (h : Serving m_server_list_sock rows₀ acts s rows i) (hdone : s.sockets_to_handel = 0) :
    (acts.filterMap Act.call).Perm (rows₀.filterMap (due m_server_list_sock)) := by
  -- nobody who is left is ready
  have hnone : (rows.drop i).countP ready = 0 := by
    have henough := h.enough hdone.symm.le
    omega
  have hcalls := h.calls
  have hnil : (rows.drop i).filterMap (due m_server_list_sock) = [] := by
    refine (not_ready m_server_list_sock fun row hrow => ?_).2.1
    by_contra hne
    exact List.countP_eq_zero.mp hnone row hrow (decide_eq_true hne)
  rwa [hnil, List.append_nil] at hcalls

/-! ## What an iteration is

So far the calls were those that iterations are listed with. Here each is found in the record
of its iteration, as one run of its function. -/

/-- The loop clears rows itself, reads them, and does away with an array. -/
theorem clear_itself {tr : List (Event Op Ans)} (hruns : Prog.Runs s.clear tr s') : ∀ ev ∈ tr, loopsItself ev.op = true := by
  obtain ⟨x, tr, rfl, rfl, rfl⟩ := hruns
  exact List.forall_mem_singleton.mpr rfl

theorem itself_discarded (n : ssl_node) (ret : ℤ) (buffer : ℕ) (size : ℤ) :
    ∀ ev ∈ run.discarded n ret buffer size, loopsItself ev.op = true :=
  forall_discarded (P := fun o => loopsItself o = true) (fun _ _ => rfl) (fun _ => rfl) rfl n ret buffer size

theorem loopsItself_of_isAccess {o : Op} (ho : isAccess o = true) : loopsItself o = true := by
  cases o with
  | access arrays index m_arrays m_size => rfl
  | _ => cases ho

/-- Serving a row makes one call, or none. -/
theorem makes_serve {fuel : ℕ} {p : pollfd} {n : ssl_node} {tr before after : List (Event Op Ans)} {act : Act}
    (hserve : ServeRun fuel s p n tr s' act) (hbefore : ∀ ev ∈ before, loopsItself ev.op = true)
    (hafter : ∀ ev ∈ after, loopsItself ev.op = true) : MakesCall act.call (before ++ (tr ++ after)) := by
  cases hserve with
  | idle hrevents => exact .nothing (List.forall_mem_append.mpr ⟨hbefore, hafter⟩)
  | @accept tr server ret hrevents hfd haccept =>
      have hmakes : MakesCall (some .judoAccept_) ((before ++ [⟨.log "Accepting Client" 0, ()⟩]) ++ (tr ++ after)) := .judoAccept_
        (List.forall_mem_append.mpr ⟨List.forall_mem_append.mpr ⟨hbefore, List.forall_mem_singleton.mpr rfl⟩, hafter⟩) haccept
      rwa [List.append_assoc] at hmakes
  | @read trc tr' s₁ x server ret size buffer hrevents hfd hclear hread =>
      have hmakes : MakesCall (some (.judoRead_ (p, n)))
          ((before ++ (trc ++ [⟨.indeterminate, x⟩])) ++ (tr' ++ (run.discarded n ret buffer size ++ after))) := .judoRead_
        (List.forall_mem_append.mpr ⟨List.forall_mem_append.mpr ⟨hbefore, List.forall_mem_append.mpr
          ⟨clear_itself hclear, List.forall_mem_singleton.mpr rfl⟩⟩, List.forall_mem_append.mpr ⟨itself_discarded n ret buffer size, hafter⟩⟩) hread
      simp only [List.append_assoc, List.cons_append, List.nil_append] at hmakes ⊢
      exact hmakes

/-! ## What a read has received

`*t_outbuf_size` is -1 until a packet has come, and never again after that: `new` throws
for a size below 0. So the loop is given an array exactly when the first `read` has brought
something.
-/

/-- What the loop does itself before a call does not read. -/
theorem firstRead_after {before tr : List (Event Op Ans)} (h : ∀ ev ∈ before, loopsItself ev.op = true) :
    firstRead (before ++ tr) = firstRead tr := by
  induction before with
  | nil => rfl
  | cons ev before ih =>
      obtain ⟨o, x⟩ := ev
      obtain ⟨ho, hrest⟩ := List.forall_mem_cons.mp h
      rw [List.cons_append, ← ih hrest]
      cases o with
      | read fd size => cases ho
      | _ => rfl

/-- What the loop does itself after that does not read either. -/
theorem firstRead_before {tr after : List (Event Op Ans)} (h : ∀ ev ∈ after, loopsItself ev.op = true) :
    firstRead (tr ++ after) = firstRead tr := by
  induction tr with
  | nil =>
      have hnone : firstRead (after ++ []) = firstRead [] := firstRead_after h
      rwa [List.append_nil] at hnone
  | cons ev tr ih =>
      obtain ⟨o, x⟩ := ev
      cases o with
      | read fd size => rfl
      | _ => exact ih

/-- A size that `new` accepts is not -1. -/
theorem reserve_size {b packet_buf_size : ℤ} {out out' : ℕ} {size size' : ℤ} {tr : List (Event Op Ans)}
    (hruns : Prog.Runs (judoRead_.reserve b packet_buf_size out size) tr (some (out', size'))) : size' ≠ -1 := by
  unfold judoRead_.reserve at hruns
  split at hruns
  · split at hruns
    · exact absurd hruns.2 (Option.some_ne_none _).symm
    · next hneg =>
        obtain ⟨x, tr, rfl, rfl, hret⟩ := hruns
        obtain ⟨-, rfl⟩ := Prod.mk.inj (Option.some.inj hret)
        omega
  · next hsize =>
      obtain ⟨-, rfl⟩ := Prod.mk.inj (Option.some.inj hruns.2)
      exact hsize

section Reads

variable {server server' : JudoServer} {t_node : ssl_node} {t_poll : pollfd} {ret size : ℤ} {out' : ℕ}

/-- A loop that has an array keeps it, and one that gets a packet gets one. -/
theorem loop_size {buffer : ℕ} {packet_buf_size : ℤ} (fuel : ℕ) : ∀ {p : Buffer} {out : ℕ} {index size₀ : ℤ}
    {tr : List (Event Op Ans)}, Prog.Runs (judoRead_.loop server t_node t_poll buffer packet_buf_size fuel p out index size₀) tr
      (some (server', ret, out', size)) → (size = -1 ↔ size₀ = -1 ∧ bytesRead (firstRead tr) ≤ 0) := by
  -- by the rounds: only the first one sets the size, and all others keep it
  induction fuel with
  | zero => exact fun hruns => absurd hruns.2 (Option.some_ne_none _).symm
  | succ fuel ih =>
      intro p out index size₀ tr hruns
      unfold judoRead_.loop at hruns
      obtain ⟨r, tr, rfl, h₁⟩ := Prog.runs_step.mp hruns
      show _ ↔ _ ∧ bytesRead r ≤ 0
      split at h₁
      · next hnothing =>
          obtain ⟨-, tr, rfl, -, tr, rfl, -, tr, rfl, -, tr, rfl, -, tr, rfl, -, tr, rfl, rfl, hret⟩ := h₁
          obtain ⟨-, hpair⟩ := Prod.mk.inj (Option.some.inj hret)
          obtain ⟨-, hpair⟩ := Prod.mk.inj hpair
          obtain ⟨-, rfl⟩ := Prod.mk.inj hpair
          exact ⟨fun h => ⟨h, hnothing⟩, And.left⟩
      next hsome =>
      refine iff_of_false ?_ fun h => hsome h.2
      obtain ⟨tr₁, tr₂, p', rfl, -, h₂⟩ := Prog.runs_bind.mp h₁
      dsimp only at h₂
      generalize p'.int32 0 = a, p'.int32 4 = b at h₂
      obtain ⟨tr₃, tr₄, reserved, rfl, hreserve, h₃⟩ := Prog.runs_bind.mp h₂
      split at h₃
      · exact absurd h₃.2 (Option.some_ne_none _).symm
      next out₁ size₁ =>
      have hsize := reserve_size hreserve
      obtain ⟨tr₅, tr₆, -, rfl, -, h₄⟩ := Prog.runs_bind.mp h₃
      split at h₄
      · exact fun h => hsize ((ih h₄).mp h).1
      · obtain ⟨-, tr, rfl, -, tr, rfl, rfl, hret⟩ := h₄
        obtain ⟨-, hpair⟩ := Prod.mk.inj (Option.some.inj hret)
        obtain ⟨-, hpair⟩ := Prod.mk.inj hpair
        obtain ⟨-, rfl⟩ := Prod.mk.inj hpair
        exact hsize

/-- The same for a whole call. -/
theorem read_size {fuel x : ℕ} {tr : List (Event Op Ans)}
    (hruns : Prog.Runs (judoRead_ fuel server t_node t_poll x) tr (some (server', ret, out', size))) :
    size = -1 ↔ bytesRead (firstRead tr) ≤ 0 := by
  unfold judoRead_ at hruns
  obtain ⟨-, tr, rfl, h₁⟩ := Prog.runs_step.mp hruns
  obtain ⟨index, tr, rfl, h₂⟩ := Prog.runs_step.mp h₁
  obtain ⟨packet_buffer, tr, rfl, h₃⟩ := Prog.runs_step.mp h₂
  exact (loop_size fuel h₃).trans (and_iff_right rfl)

end Reads

/-- What is done with the array is undefined when there is none. -/
theorem undefined_discarded (n : ssl_node) (ret : ℤ) (buffer : ℕ) (size : ℤ) :
    (∃ ends, (⟨.undefined, ends⟩ : Event Op Ans) ∈ run.discarded n ret buffer size) ↔ size = -1 := by
  unfold run.discarded
  constructor
  · rintro ⟨ends, hmem⟩
    by_contra hsize
    rw [if_neg hsize] at hmem
    rcases List.mem_cons.mp hmem with heq | hmem
    · cases heq
    · cases List.mem_singleton.mp hmem
  · rintro rfl
    exact ⟨false, List.mem_cons_of_mem _ (List.mem_cons_of_mem _ (List.mem_singleton_self _))⟩

/-- The functions that the loop calls do nothing whose behaviour is undefined. -/
theorem not_undefined_of_ordinary {α : Type} {p : Sys α} (hp : Ordinary p) {tr : List (Event Op Ans)} {a : α}
    (hruns : Prog.Runs p tr a) : ∀ ends, (⟨.undefined, ends⟩ : Event Op Ans) ∉ tr :=
  fun _ hmem => absurd (hp.of_runs hruns _ hmem) Bool.false_ne_true

theorem not_undefined_of_access {tr : List (Event Op Ans)} (h : ∀ ev ∈ tr, isAccess ev.op = true) :
    ∀ ends, (⟨.undefined, ends⟩ : Event Op Ans) ∉ tr :=
  fun _ hmem => absurd (h _ hmem) Bool.false_ne_true

/-- **Serving a row** does something undefined exactly when its read has received nothing. -/
theorem undefined_serve {fuel : ℕ} {p : pollfd} {n : ssl_node} {tr : List (Event Op Ans)} {act : Act}
    (hserve : ServeRun fuel s p n tr s' act) :
    (∃ ends, (⟨.undefined, ends⟩ : Event Op Ans) ∈ tr) ↔ ∃ row ret, act = .read row ret ∧ bytesRead (firstRead tr) ≤ 0 := by
  -- only what is done with an array can be undefined, so only reads matter
  cases hserve with
  | idle hrevents =>
      refine iff_of_false ?_ ?_
      · rintro ⟨ends, hmem⟩
        cases hmem
      · rintro ⟨row, ret, hact, -⟩
        cases hact
  | accept hrevents hfd haccept =>
      have hordinary := ordinary_judoAccept_ (fun n size => (internal_judoHandshake_ n size fuel).ordinary) s.server
      refine iff_of_false ?_ ?_
      · rintro ⟨ends, hmem⟩
        rcases List.mem_cons.mp hmem with heq | hmem
        · cases heq
        · exact not_undefined_of_ordinary hordinary haccept ends hmem
      · rintro ⟨row, ret, hact, -⟩
        cases hact
  | @read trc tr' s₁ x server ret size buffer hrevents hfd hclear hread =>
      have hfirst : firstRead (trc ++ ⟨.indeterminate, x⟩ :: (tr' ++ run.discarded n ret buffer size)) = firstRead tr' := by
        rw [firstRead_after (clear_itself hclear)]
        exact firstRead_before (itself_discarded n ret buffer size)
      rw [hfirst, ← read_size hread, ← undefined_discarded n ret buffer size]
      constructor
      · rintro ⟨ends, hmem⟩
        refine ⟨_, _, rfl, ends, ?_⟩
        rcases List.mem_append.mp hmem with hmem | hmem
        · exact absurd hmem (not_undefined_of_access (access_clear hclear) ends)
        · rcases List.mem_cons.mp hmem with heq | hmem
          · cases heq
          · exact (List.mem_append.mp hmem).resolve_left (not_undefined_of_ordinary (ordinary_judoRead_ ..) hread ends)
      · rintro ⟨row, ret, -, ends, hmem⟩
        exact ⟨ends, List.mem_append_right _ (List.mem_cons_of_mem _ (List.mem_append_right _ hmem))⟩

/-- An iteration makes the call that it is listed with, and does something undefined exactly
when that is a read that has received nothing. -/
theorem iteration_record {rows : List (pollfd × ssl_node)} {i : ℕ} (h : At s rows i) {fuel : ℕ} {tr : List (Event Op Ans)}
    {act : Act} (hruns : Prog.Runs (run.iteration fuel s) tr (some (s', act))) :
    MakesCall act.call tr ∧ ((∀ ends, (⟨.undefined, ends⟩ : Event Op Ans) ∉ tr) ↔ ReceivesSome (act, tr)) := by
  obtain ⟨tr₀, tr₁, tr₂, s₁, rfl, hfirst, hlast, hserve, -⟩ := serveRun_of_at h h.lt hruns
  have hbefore : ∀ ev ∈ tr₀, loopsItself ev.op = true := fun ev hev => loopsItself_of_isAccess (hfirst ev hev)
  have hafter : ∀ ev ∈ tr₂, loopsItself ev.op = true := fun ev hev => loopsItself_of_isAccess (hlast ev hev)
  refine ⟨makes_serve hserve hbefore hafter, ?_⟩
  have hundefined : (∃ ends, (⟨.undefined, ends⟩ : Event Op Ans) ∈ tr₀ ++ (tr₁ ++ tr₂)) ↔ ∃ ends, ⟨.undefined, ends⟩ ∈ tr₁ := by
    refine exists_congr fun ends => ?_
    rw [List.mem_append, List.mem_append, or_iff_right (not_undefined_of_access hfirst ends),
      or_iff_left (not_undefined_of_access hlast ends)]
  have hread : firstRead (tr₀ ++ (tr₁ ++ tr₂)) = firstRead (tr₁ ++ tr₂) := firstRead_after hbefore
  rw [← not_exists, hundefined, undefined_serve hserve]
  unfold ReceivesSome
  dsimp only
  rw [hread, firstRead_before hafter]
  push Not
  exact Iff.rfl

/-! ## A client that is alone

When the only row is taken out, the loop clears a row of a table that has none. -/

/-- The first access is made with the table as it was before. -/
theorem rowsBefore_iteration {fuel : ℕ} {tr : List (Event Op Ans)} {r : Option (Round × Act)}
    (hruns : Prog.Runs (run.iteration fuel s) tr r) : rowsBefore tr = s.table.m_size := by
  obtain ⟨tr₁, tr₂, p, rfl, ⟨x, tr, rfl, -⟩, -⟩ := Prog.runs_bind.mp hruns
  exact rfl

/-- An iteration of this kind is spared unless it takes the only row out. -/
theorem Steady.spared {act : Act} {tr : List (Event Op Ans)} (hsteady : Steady s act tr)
    (halone : ∀ row, act = .read row (-1) → 1 < s.table.m_size) : Spared (.inner s) (.served act) := by
  cases act with
  | idle => exact trivial
  | accept ret => exact fun hret => hsteady.room (congrArg Act.accept hret)
  | read row ret =>
      intro hret
      exact ⟨halone row (congrArg (Act.read row) hret), hsteady.shrinks (decide_eq_true hret)⟩

/-- An iteration stays on the table exactly when it does not take the only row out. -/
theorem safe_iff {rows : List (pollfd × ssl_node)} {i : ℕ} (h : At s rows i) {fuel : ℕ} {tr : List (Event Op Ans)} {act : Act}
    (hruns : Prog.Runs (run.iteration fuel s) tr (some (s', act))) (hsteady : Steady s act tr) :
    (∀ ev ∈ tr, SafeAccess ev) ↔ Accompanied (act, tr) := by
  unfold Accompanied
  rw [rowsBefore_iteration hruns]
  rcases runs_iteration h h.lt hruns with ⟨hnone, -⟩ | ⟨tr₀, tr₁, tr₂, s₁, act', s₂, rfl, hsome, hfirst, hserved, hadvance⟩
  · exact absurd hnone (Option.some_ne_none _)
  obtain ⟨rfl, rfl⟩ := Prod.mk.inj (Option.some.inj hsome)
  constructor
  · intro hsafe row hread
    by_contra hone
    have hsize := h.rep.size
    have hindex := h.index
    have hlt := h.lt
    cases hserved with
    | disconnected hrevents hfd =>
        -- the index is -1 now, and that is taken for the last row
        rcases runs_advance hadvance with ⟨hgo, -⟩ | ⟨-, s₃, ⟨x, tr, rfl, -⟩, -⟩
        · refine hgo ?_
          show s.index - 1 = (s.table.m_size : ℤ) - 1 - 1
          omega
        · obtain ⟨-, hnonneg, -⟩ := hsafe ⟨_, x⟩ (List.mem_append_right _ List.mem_cons_self)
          have hnonneg : 0 ≤ s.index - 1 := hnonneg
          omega
    | idle hrevents => cases hread
    | refused ret hrevents hfd hret => cases hread
    | accepted n size w data hrevents hfd hin hwrite hw => cases hread
    | received hrevents hfd => cases hread
  · intro halone
    obtain ⟨hlast, -⟩ := iteration_onRow h h.lt hserved hadvance (hsteady.spared halone)
    exact List.forall_mem_append.mpr ⟨hfirst, hlast⟩

/-! ## An iteration that does not return

Two things stop the loop in the middle of a round: a call that does not return, and what
comes of the pointer that `judoRead_` has not set.
-/

variable {steps : List IterationRecord}

/-- Each iteration is what it is listed as. -/
theorem Iterations.records {s₀ : Round} (hstart : Serving m_server_list_sock rows₀ [] s₀ rows₀ 0)
    (hgo : s₀.sockets_to_handel ≠ 0 → 0 < rows₀.length) (h : Iterations Orderly s₀ steps s) :
    ∀ x ∈ steps, MakesCall x.1.call x.2 ∧ ((∀ ends, (⟨.undefined, ends⟩ : Event Op Ans) ∉ x.2) ↔ ReceivesSome x)
      ∧ ((∀ ev ∈ x.2, SafeAccess ev) ↔ Accompanied x) := by
  induction h with
  | start => exact fun x hx => absurd hx List.not_mem_nil
  | step fuel h hne hruns horderly ih =>
      obtain ⟨rows, i, hserving, hi⟩ := h.serving hstart hgo
      refine List.forall_mem_append.mpr ⟨ih, List.forall_mem_singleton.mpr ?_⟩
      have hat : At _ rows i := ⟨hserving.rep, hserving.arrays hne, hserving.index, hi hne⟩
      obtain ⟨hmakes, hdefined⟩ := iteration_record hat hruns
      exact ⟨hmakes, hdefined, safe_iff hat hruns (horderly.steady hat hruns)⟩

instance (table : DualDynamicArray pollfd ssl_node) : DecidablePred (Kernel table)
  | ⟨.accept _, fp⟩ =>
      inferInstanceAs (Decidable (0 ≤ (fp : ℤ) → ∀ i < table.m_size, ∀ p ∈ table.m_first_array i, p.fd ≠ fp))
  | ⟨.write fd _ _, w⟩ => inferInstanceAs (Decidable (fd < 0 → (w : ℤ) ≤ 0))
  | ⟨o, x⟩ => by
      unfold Kernel
      split <;> infer_instance

instance (s : Round) (act : Act) (tr : List (Event Op Ans)) : Decidable (Steady s act tr) :=
  decidable_of_iff ((act = .accept JUDO_SUCCESS → s.table.m_size < s.table.m_cap)
    ∧ (act.disconnects = true → s.table.Shrinks → s.sockets_to_handel = 1 ∧ s.index ≠ s.table.m_size - 1)
    ∧ ∀ ev ∈ tr, Kernel s.table ev) ⟨fun h => ⟨h.1, h.2.1, h.2.2⟩, fun h => ⟨h.room, h.shrinks, h.kernel⟩⟩

/-- An iteration with no bytes coming in. -/
def quietIteration (s : Round) : List (Event Op Ans) × Option (Round × Act) × Arrivals :=
  Prog.exec Arrivals.answer (run.iteration 1 s) ⟨[]⟩

/-- The state after it, and what it has done. -/
def quietStep (s : Round) : Round × Act := (quietIteration s).2.1.getD (s, .idle)

/-- It is an iteration of `run`. -/
theorem runs_quiet {s : Round} (h : (quietIteration s).2.1.isSome = true) :
    Prog.Runs (run.iteration 1 s) (quietIteration s).1 (some (quietStep s)) := by
  obtain ⟨out, hout⟩ := Option.isSome_iff_exists.mp h
  have hruns := Prog.runs_exec (h := Arrivals.answer) (run.iteration 1 s) ⟨[]⟩
  rw [quietStep, hout, Option.getD_some, ← hout]
  exact hruns

end JudoEngine
