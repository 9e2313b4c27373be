/-
`JudoServer::run`: the event loop.

An iteration of the inner loop is one program, and so is what the outer loop does
before the inner one; `LoopStep` puts them together, since neither loop need end. The
loop keeps pointers to the table's arrays while the calls it makes may replace
these: every access goes through `Op.access`, which records the arrays and the row
it goes to and those that the table has at that moment.

What is printed is left out, but for what `run` prints when `judoRead_` has returned, and
`m_input_queue` is the list that `dump` takes from it.
-/
import JudoEngine.JudoServer.Exits

set_option autoImplicit false

open Words

namespace JudoEngine

/-! ## The table as the loop sees it

The loop reads and writes rows through pointers that it has got before the calls of a round.
While these are the table's own an access is one to the table; after the table has made new
arrays, or with an index that no row has, a read brings whatever the system answers. -/

/-- The local variables of `run` in the inner loop, and the object. `arrays`
numbers the pair that `poll_array` and `node_array` point to. -/
structure Round where
  server : JudoServer
  a : ℤ
  arrays : ℕ
  array_size : ℤ
  sockets_to_handel : ℤ
  index : ℤ

/-- The table. -/
abbrev Round.table (s : Round) : DualDynamicArray pollfd ssl_node := s.server.m_ssl_nodes

/-- The access that the loop makes at `index`. -/
def Round.access (s : Round) : Op := .access s.arrays s.index s.table.arrays s.table.m_size

/-- `index` is a position of an array that the table owns. -/
def Round.Current (s : Round) : Prop := s.arrays = s.table.arrays ∧ 0 ≤ s.index

instance (s : Round) : Decidable s.Current := inferInstanceAs (Decidable (_ ∧ _))

/-- `poll_array[index]`. -/
def Round.poll_array (s : Round) : Sys pollfd := do
  let wild ← sys s.access
  pure (if s.Current then (s.table.m_first_array s.index.toNat).getD wild.1 else wild.1)

/-- `node_array[index]`. -/
def Round.node_array (s : Round) : Sys ssl_node := do
  let wild ← sys s.access
  pure (if s.Current then (s.table.m_second_array s.index.toNat).getD wild.2 else wild.2)

/-- Another table. -/
def Round.withTable (s : Round) (m_ssl_nodes : DualDynamicArray pollfd ssl_node) : Round :=
  { s with server := { s.server with m_ssl_nodes := m_ssl_nodes } }

/-- `poll_array[index].revents = 0`. A store to memory that the table does not own
does nothing to the table. -/
def Round.clear (s : Round) : Sys Round := do
  let _ ← sys s.access
  pure (if s.Current then s.withTable (s.table.modifyFirst s.index.toNat fun p => { p with revents := 0 }) else s)

/-! ## The inner loop

One definition for each statement of the body, and the body from these. What need not return
is an `Option`: a call whose loop does not end, or what comes after something undefined. -/

/-- What an iteration does for its row: which function it calls, and what that
returns. -/
inductive Act where
  | idle
  | accept (ret : ℤ)
  | read (row : pollfd × ssl_node) (ret : ℤ)
  deriving DecidableEq

/-- `std::cout << current_node->fp << (buffer)` and `delete[] buffer`; says whether the
program goes on. When `judoRead_` has received nothing, `buffer_size` is still -1 and
`buffer` is whatever the stack held: both are undefined then. When it has disconnected its
client, `current_node` has been deleted, and the number that is printed is whatever its
memory holds. -/
def run.discard (current_node : ssl_node) (ret : ℤ) (buffer : ℕ) (buffer_size : ℤ) : Sys Bool := do
  sys (.print_client (if ret = -1 then none else some current_node.fp) buffer)
  sys (.delete_char buffer)
  if buffer_size = -1 then do
    let ends ← sys .undefined
    pure (!ends)
  else pure true

/-- `if (current_poll.revents & POLLIN)`. Neither `judoAccept_` nor `judoRead_` need
return; `fuel` bounds the loops in them. -/
def run.serve (fuel : ℕ) (s : Round) (current_poll : pollfd) (current_node : ssl_node) : Sys (Option (Round × Act)) :=
  if current_poll.revents &&& POLLIN ≠ 0 then
    if current_poll.fd = s.server.m_server_list_sock then do
      sys (.log "Accepting Client" 0)
      match ← judoAccept_ (fun t_node t_buffer_size => judoHandshake_ t_node t_buffer_size fuel) s.server with
      | none => pure none
      | some (server, ret) => pure (some ({ s with server := server, a := s.a + 1 }, .accept ret))
    else do
      let s ← s.clear
      let buffer ← sys .indeterminate
      match ← judoRead_ fuel s.server current_node current_poll buffer.toNat with
      | none => pure none
      | some (server, ret, buffer, buffer_size) => do
          let s := { s with server := server, sockets_to_handel := s.sockets_to_handel - 1, a := s.a + 1 }
          let goesOn ← run.discard current_node ret buffer buffer_size
          if goesOn then
            pure (some
              (if ret = -1 then { s with index := s.index - 1, array_size := s.array_size - 1 } else s,
                .read (current_poll, current_node) ret))
          else pure none
  else pure (some (s, .idle))

/-- `if (index == array_size - 1)`, and `index++`. -/
def run.advance (s : Round) : Sys Round :=
  if s.index = s.array_size - 1 then do
    let s ← s.clear
    pure { s with sockets_to_handel := 0, index := s.index + 1 }
  else pure { s with index := s.index + 1 }

/-- One iteration of `while (sockets_to_handel != 0)`. -/
def run.iteration (fuel : ℕ) (s : Round) : Sys (Option (Round × Act)) := do
  let s := { s with array_size := s.table.getSize }
  let current_poll ← s.poll_array
  let current_node ← s.node_array
  match ← run.serve fuel s current_poll current_node with
  | none => pure none
  | some (s, act) => do
      let s ← run.advance s
      pure (some (s, act))

/-! ## The outer loop

A state is a place in `run` where a loop begins again, and a step is what is done from there
to the next one. Only a run has an order; nothing in it has to end. -/

/-- `while (queue->getSize() != 0)`. A `DISCONNECT` request does nothing yet. -/
def run.load (server : JudoServer) : List judo_request_node → JudoServer
  | [] => server
  | current :: queue =>
      match current.req with
      | .ADD_CONNECT =>
          run.load { server with m_ssl_nodes := server.m_ssl_nodes.add current.poll current.ssl_info } queue
      | _ => run.load server queue

/-- `while (a != 9)` up to the inner loop. -/
def run.round (server : JudoServer) (a : ℤ) : Sys Round := do
  let requests ← sys .dump
  let server := run.load server requests
  let m_ssl_nodes := server.m_ssl_nodes
  let polled ← sys (.poll ((List.range m_ssl_nodes.getSize).map m_ssl_nodes.m_first_array))
  pure
    { server := { server with m_ssl_nodes := m_ssl_nodes.mapFirst fun i p => { p with revents := polled.2 i } }
      a := a
      arrays := m_ssl_nodes.arrays
      array_size := m_ssl_nodes.getSize
      sockets_to_handel := polled.1
      index := 0 }

/-- Where `run` is: before a round of the outer loop, before an iteration of the
inner one, or in a call that does not return. -/
inductive RunState where
  | outer (server : JudoServer) (a : ℤ)
  | inner (s : Round)
  | halted

/-- How many rows have `POLLIN`. -/
def Round.marked (s : Round) : ℕ :=
  (List.range s.table.getSize).countP fun i => (s.table.m_first_array i).any fun p => p.revents &&& POLLIN ≠ 0

/-- What the system has decided in a step: the result of `poll` on so many rows, and how
many of them it has marked, or the result of the call made for a row. -/
inductive Outcome where
  | polled (array_size : ℕ) (result : ℤ) (marked : ℕ)
  | served (act : Act)
  | other

/-- One step of `run`, with the record of its operations. -/
inductive LoopStep : RunState → Outcome → List (Event Op Ans) → RunState → Prop where
  | round {server : JudoServer} {a : ℤ} {tr : List (Event Op Ans)} {s : Round} (ha : a ≠ 9)
      (hruns : Prog.Runs (run.round server a) tr s) :
      LoopStep (.outer server a) (.polled s.table.getSize s.sockets_to_handel s.marked) tr (.inner s)
  | iteration {s s' : Round} {act : Act} {tr : List (Event Op Ans)} (fuel : ℕ) (hgo : s.sockets_to_handel ≠ 0)
      (hruns : Prog.Runs (run.iteration fuel s) tr (some (s', act))) :
      LoopStep (.inner s) (.served act) tr (.inner s')
  | halt {s : Round} {tr : List (Event Op Ans)} (fuel : ℕ) (hgo : s.sockets_to_handel ≠ 0)
      (hruns : Prog.Runs (run.iteration fuel s) tr none) : LoopStep (.inner s) .other tr .halted
  | again {s : Round} (hdone : s.sockets_to_handel = 0) : LoopStep (.inner s) .other [] (.outer s.server s.a)

/-- `run` up to some point, with the record of its operations, all of whose steps
meet a condition on the state before the step and on its outcome. -/
inductive LoopRun (P : RunState → Outcome → Prop) (server : JudoServer) : List (Event Op Ans) → RunState → Prop where
  | start : LoopRun P server [] (.outer { server with m_active := true } 0)
  | step {tr tr' : List (Event Op Ans)} {s s' : RunState} {out : Outcome} (h : LoopRun P server tr s) (hcond : P s out)
      (hstep : LoopStep s out tr' s') : LoopRun P server (tr ++ tr') s'

/-! ## Accesses

While the loop stands at a row of its table, each access is safe and reads or writes that row. -/

/-- If this is an access of the loop, it goes to a row of the table. -/
def SafeAccess (ev : Event Op Ans) : Prop :=
  match ev.op with
  | .access arrays index m_arrays m_size => arrays = m_arrays ∧ 0 ≤ index ∧ index < m_size
  | _ => True

instance : DecidablePred SafeAccess
  | ⟨.access arrays index m_arrays m_size, _⟩ =>
      inferInstanceAs (Decidable (arrays = m_arrays ∧ 0 ≤ index ∧ index < m_size))
  | ⟨o, x⟩ => by
      unfold SafeAccess
      split <;> infer_instance

/-- Only the loop makes such accesses. -/
theorem safeAccess_of_ordinary {ev : Event Op Ans} (h : ordinary ev.op = true) : SafeAccess ev := by
  obtain ⟨o, x⟩ := ev
  cases o with
  | access arrays index m_arrays m_size => exact absurd h Bool.false_ne_true
  | _ => trivial

/-- The next access goes to row `i`. -/
structure At (s : Round) (rows : List (pollfd × ssl_node)) (i : ℕ) : Prop where
  rep : s.table.Rep rows
  arrays : s.arrays = s.table.arrays
  index : s.index = i
  lt : i < rows.length

variable {s : Round} {rows : List (pollfd × ssl_node)} {i : ℕ}

/-- The access is safe. -/
theorem At.safe (h : At s rows i) (x : Ans s.access) : SafeAccess ⟨s.access, x⟩ := by
  have hsize := h.rep.size
  have hindex := h.index
  have hlt := h.lt
  exact ⟨h.arrays, by omega, by omega⟩

/-- The position is one of the table's arrays. -/
theorem At.current (h : At s rows i) : s.Current := by
  have hindex := h.index
  exact ⟨h.arrays, by omega⟩

theorem At.toNat_index (h : At s rows i) : s.index.toNat = i := by
  have hindex := h.index
  omega

/-- What is read is the row's `pollfd`. -/
theorem At.poll_array (h : At s rows i) (hi : i < rows.length) {tr : List (Event Op Ans)} {p : pollfd} (hruns : Prog.Runs s.poll_array tr p) :
    p = rows[i].1 ∧ ∀ ev ∈ tr, SafeAccess ev := by
  obtain ⟨x, tr, rfl, rfl, rfl⟩ := hruns
  refine ⟨?_, fun ev hev => ?_⟩
  · rw [if_pos h.current, h.toNat_index, h.rep.first i h.lt, Option.getD_some]
  · rw [List.mem_singleton.mp hev]
    exact h.safe x

/-- The same for the row's node. -/
theorem At.node_array (h : At s rows i) (hi : i < rows.length) {tr : List (Event Op Ans)} {n : ssl_node} (hruns : Prog.Runs s.node_array tr n) :
    n = rows[i].2 ∧ ∀ ev ∈ tr, SafeAccess ev := by
  obtain ⟨x, tr, rfl, rfl, rfl⟩ := hruns
  refine ⟨?_, fun ev hev => ?_⟩
  · rw [if_pos h.current, h.toNat_index, h.rep.second i h.lt, Option.getD_some]
  · rw [List.mem_singleton.mp hev]
    exact h.safe x

/-- The table with the `revents` of row `i` cleared. -/
def Round.cleared (s : Round) (i : ℕ) : DualDynamicArray pollfd ssl_node :=
  s.table.modifyFirst i fun p => { p with revents := 0 }

/-- Its rows. -/
def clearedRow (row : pollfd × ssl_node) : pollfd × ssl_node := ({ row.1 with revents := 0 }, row.2)

theorem rep_cleared (hrep : s.table.Rep rows) (hi : i < rows.length) :
    (s.cleared i).Rep (rows.set i (clearedRow rows[i])) := hrep.modifyFirst hi _

/-- The store leaves this table. -/
theorem At.clear (h : At s rows i) {tr : List (Event Op Ans)} {s' : Round} (hruns : Prog.Runs s.clear tr s') :
    s' = s.withTable (s.cleared i) ∧ ∀ ev ∈ tr, SafeAccess ev := by
  obtain ⟨x, tr, rfl, rfl, rfl⟩ := hruns
  refine ⟨?_, fun ev hev => ?_⟩
  · rw [if_pos h.current, h.toNat_index]
    rfl
  · rw [List.mem_singleton.mp hev]
    exact h.safe x

/-! ## What an iteration does

The lemmas here take an iteration apart once and for all: what the loop does itself, and what
the call that it makes has done. Every other module about the loop begins from these. -/

/-- What is done with the array that `judoRead_` has left, when the program goes on. -/
def run.discarded (current_node : ssl_node) (ret : ℤ) (buffer : ℕ) (buffer_size : ℤ) : List (Event Op Ans) :=
  ⟨.print_client (if ret = -1 then none else some current_node.fp) buffer, ()⟩ :: ⟨.delete_char buffer, ()⟩ :: if buffer_size = -1 then [⟨.undefined, false⟩] else []

/-- It does three things only. -/
theorem only_discard {P : Op → Prop} (hprint : ∀ fp b, P (.print_client fp b)) (hdelete : ∀ b, P (.delete_char b))
    (hundefined : P .undefined) (current_node : ssl_node) (ret : ℤ) (buffer : ℕ) (buffer_size : ℤ) :
    Prog.Only P (run.discard current_node ret buffer buffer_size) := by
  refine .step (hprint _ buffer) fun _ => .step (hdelete buffer) fun _ => ?_
  split
  · exact .step hundefined fun _ => trivial
  · trivial

/-- What is true of the three is true of all of it. -/
theorem forall_discarded {P : Op → Prop} (hprint : ∀ fp b, P (.print_client fp b)) (hdelete : ∀ b, P (.delete_char b))
    (hundefined : P .undefined) (current_node : ssl_node) (ret : ℤ) (buffer : ℕ) (buffer_size : ℤ) :
    ∀ ev ∈ run.discarded current_node ret buffer buffer_size, P ev.op := by
  refine List.forall_mem_cons.mpr ⟨hprint _ buffer, List.forall_mem_cons.mpr ⟨hdelete buffer, ?_⟩⟩
  split
  · exact List.forall_mem_singleton.mpr hundefined
  · exact fun ev hev => absurd hev List.not_mem_nil

theorem fdEvents_discarded (current_node : ssl_node) (ret : ℤ) (buffer : ℕ) (buffer_size : ℤ) :
    fdEvents (run.discarded current_node ret buffer buffer_size) = [] := by
  unfold run.discarded
  by_cases hsize : buffer_size = -1
  · rw [if_pos hsize]
    rfl
  · rw [if_neg hsize]
    rfl

/-- There is only one way to go on after that. -/
theorem runs_discard {current_node : ssl_node} {ret : ℤ} {buffer : ℕ} {buffer_size : ℤ} {tr : List (Event Op Ans)}
    (hruns : Prog.Runs (run.discard current_node ret buffer buffer_size) tr true) :
    tr = run.discarded current_node ret buffer buffer_size := by
  obtain ⟨-, tr, rfl, h₁⟩ := Prog.runs_step.mp hruns
  obtain ⟨-, tr, rfl, hrest⟩ := Prog.runs_step.mp h₁
  unfold run.discarded
  split at hrest
  · next hsize =>
      obtain ⟨ends, tr, rfl, rfl, hgo⟩ := hrest
      cases ends with
      | false => rw [if_pos hsize]
      | true => exact absurd hgo (by decide)
  · next hsize =>
      obtain ⟨rfl, -⟩ := hrest
      rw [if_neg hsize]

/-- What serving a row does, when it returns: nothing, or it has called `judoAccept_`, or
`judoRead_`. -/
inductive ServeRun (fuel : ℕ) (s : Round) (p : pollfd) (n : ssl_node) : List (Event Op Ans) → Round → Act → Prop where
  | idle (hrevents : p.revents &&& POLLIN = 0) : ServeRun fuel s p n [] s .idle
  | accept {tr : List (Event Op Ans)} {server : JudoServer} {ret : ℤ} (hrevents : p.revents &&& POLLIN ≠ 0)
      (hfd : p.fd = s.server.m_server_list_sock)
      (haccept : Prog.Runs (judoAccept_ (judoHandshake_ · · fuel) s.server) tr (some (server, ret))) :
      ServeRun fuel s p n (⟨.log "Accepting Client" 0, ()⟩ :: tr) { s with server := server, a := s.a + 1 } (.accept ret)
  | read {tr tr' : List (Event Op Ans)} {s₁ : Round} {x : ℤ} {server : JudoServer} {ret size : ℤ} {buffer : ℕ}
      (hrevents : p.revents &&& POLLIN ≠ 0) (hfd : p.fd ≠ s.server.m_server_list_sock) (hclear : Prog.Runs s.clear tr s₁)
      (hread : Prog.Runs (judoRead_ fuel s₁.server n p x.toNat) tr' (some (server, ret, buffer, size))) :
      ServeRun fuel s p n (tr ++ ⟨.indeterminate, x⟩ :: (tr' ++ run.discarded n ret buffer size))
        (if ret = -1 then
          { s₁ with
            server := server
            sockets_to_handel := s₁.sockets_to_handel - 1
            a := s₁.a + 1
            index := s₁.index - 1
            array_size := s₁.array_size - 1 }
        else { s₁ with server := server, sockets_to_handel := s₁.sockets_to_handel - 1, a := s₁.a + 1 })
        (.read (p, n) ret)

/-- Serving that returns is one of these. -/
theorem serveRun_of_runs {fuel : ℕ} {s' : Round} {p : pollfd} {n : ssl_node} {act : Act} {tr : List (Event Op Ans)}
    (h : Prog.Runs (run.serve fuel s p n) tr (some (s', act))) : ServeRun fuel s p n tr s' act := by
  -- by the two tests of the source: whether the row is ready, and whether it is that of the
  -- listening socket
  unfold run.serve at h
  split at h
  · next hrevents =>
      split at h
      · next hfd =>
          obtain ⟨-, tr, rfl, h₁⟩ := Prog.runs_step.mp h
          obtain ⟨tr₁, tr₂, out, rfl, haccept, h₂⟩ := Prog.runs_bind.mp h₁
          split at h₂
          · exact absurd h₂.2 (Option.some_ne_none _).symm
          · obtain ⟨rfl, hret⟩ := h₂
            obtain ⟨rfl, rfl⟩ := Prod.mk.inj (Option.some.inj hret)
            rw [List.append_nil]
            exact .accept hrevents hfd haccept
      · next hfd =>
          obtain ⟨tr₁, tr₂, s₁, rfl, hclear, h₁⟩ := Prog.runs_bind.mp h
          obtain ⟨buffer, tr₃, rfl, h₂⟩ := Prog.runs_step.mp h₁
          obtain ⟨tr₄, tr₅, out, rfl, hread, h₃⟩ := Prog.runs_bind.mp h₂
          split at h₃
          · exact absurd h₃.2 (Option.some_ne_none _).symm
          · obtain ⟨trₚ, trₑ, goesOn, rfl, hdiscard, hend⟩ := Prog.runs_bind.mp h₃
            cases goesOn with
            | false => exact absurd hend.2 (Option.some_ne_none _).symm
            | true =>
                obtain ⟨rfl, hret⟩ := hend
                obtain ⟨rfl, rfl⟩ := Prod.mk.inj (Option.some.inj hret)
                rw [runs_discard hdiscard, List.append_nil]
                exact .read hrevents hfd hclear hread
  · next hrevents =>
      obtain ⟨rfl, hret⟩ := h
      obtain ⟨rfl, rfl⟩ := Prod.mk.inj (Option.some.inj hret)
      exact .idle (not_not.mp hrevents)

/-- The test at the end of an iteration. -/
theorem runs_advance {s s' : Round} {tr : List (Event Op Ans)} (hruns : Prog.Runs (run.advance s) tr s') :
    (s.index ≠ s.array_size - 1 ∧ tr = [] ∧ s' = { s with index := s.index + 1 })
      ∨ s.index = s.array_size - 1 ∧ ∃ s₁, Prog.Runs s.clear tr s₁
        ∧ s' = { s₁ with sockets_to_handel := 0, index := s₁.index + 1 } := by
  unfold run.advance at hruns
  split at hruns
  · next hlast =>
      obtain ⟨tr₁, tr₂, s₁, rfl, hclear, rfl, rfl⟩ := Prog.runs_bind.mp hruns
      rw [List.append_nil]
      exact .inr ⟨hlast, s₁, hclear, rfl⟩
  · next hlast =>
      obtain ⟨rfl, rfl⟩ := hruns
      exact .inl ⟨hlast, rfl, rfl⟩

/-- The parts of an iteration that returns: only the row served has to do with
descriptors. -/
theorem serveRun_of_iteration {fuel : ℕ} {s' : Round} {act : Act} {tr : List (Event Op Ans)}
    (h : Prog.Runs (run.iteration fuel s) tr (some (s', act))) :
    ∃ p n before tr' after s₁, tr = before ++ tr' ++ after ∧ fdEvents before = [] ∧ fdEvents after = []
      ∧ ServeRun fuel { s with array_size := s.table.getSize } p n tr' s₁ act ∧ Prog.Runs (run.advance s₁) after s' := by
  obtain ⟨tr₁, tr₂, p, rfl, hpoll, h₁⟩ := Prog.runs_bind.mp h
  obtain ⟨tr₃, tr₄, n, rfl, hnode, h₂⟩ := Prog.runs_bind.mp h₁
  obtain ⟨tr₅, tr₆, out, rfl, hserve, h₃⟩ := Prog.runs_bind.mp h₂
  split at h₃
  · exact absurd h₃.2 (Option.some_ne_none _).symm
  next s₁ act' =>
  obtain ⟨tr₇, tr₈, s₂, rfl, hadvance, rfl, hret⟩ := Prog.runs_bind.mp h₃
  obtain ⟨rfl, rfl⟩ := Prod.mk.inj (Option.some.inj hret)
  refine ⟨p, n, tr₁ ++ tr₃, tr₅, tr₇, s₁, ?_, ?_, ?_, serveRun_of_runs hserve, hadvance⟩
  · simp only [List.append_assoc, List.append_nil]
  · obtain ⟨x, tr, rfl, rfl, rfl⟩ := hpoll
    obtain ⟨y, tr, rfl, rfl, rfl⟩ := hnode
    rfl
  · rcases runs_advance hadvance with ⟨-, rfl, -⟩ | ⟨-, s₃, hclear, -⟩
    · rfl
    · obtain ⟨x, tr, rfl, rfl, -⟩ := hclear
      rfl

/-- What serving row `i` does to the round. -/
inductive RowServed (s : Round) (i : ℕ) (row : pollfd × ssl_node) (tr : List (Event Op Ans)) : Round → Act → Prop where
  | idle (hrevents : row.1.revents &&& POLLIN = 0) : RowServed s i row tr s .idle
  | refused (ret : ℤ) (hrevents : row.1.revents &&& POLLIN ≠ 0) (hfd : row.1.fd = s.server.m_server_list_sock)
      (hret : ret ≠ JUDO_SUCCESS) : RowServed s i row tr { s with a := s.a + 1 } (.accept ret)
  | accepted (new_node : ssl_node) (size w : ℤ) (data : List Byte) (hrevents : row.1.revents &&& POLLIN ≠ 0)
      (hfd : row.1.fd = s.server.m_server_list_sock)
      (haccept : ⟨.accept s.server.m_server_list_sock, new_node.fp⟩ ∈ tr)
      (hwrite : ⟨.write new_node.fp size data, w⟩ ∈ tr) (hw : 0 < w) :
      RowServed s i row tr
        { s.withTable (s.table.add ⟨new_node.fp, POLLIN, 0⟩ new_node) with a := s.a + 1 } (.accept JUDO_SUCCESS)
  | received (hrevents : row.1.revents &&& POLLIN ≠ 0) (hfd : row.1.fd ≠ s.server.m_server_list_sock) :
      RowServed s i row tr
        { s.withTable (s.cleared i) with sockets_to_handel := s.sockets_to_handel - 1, a := s.a + 1 } (.read row 0)
  | disconnected (hrevents : row.1.revents &&& POLLIN ≠ 0) (hfd : row.1.fd ≠ s.server.m_server_list_sock) :
      RowServed s i row tr
        { s.withTable ((s.cleared i).remove compare_pollfd row.1) with
          sockets_to_handel := s.sockets_to_handel - 1
          a := s.a + 1
          index := s.index - 1
          array_size := s.array_size - 1 } (.read row (-1))

/-- Serving the row accesses no other. -/
theorem At.only_serve (h : At s rows i) (fuel : ℕ) (p : pollfd) (n : ssl_node) :
    Prog.Only (fun o => ∀ x : Ans o, SafeAccess ⟨o, x⟩) (run.serve fuel s p n) := by
  have hclear : Prog.Only (fun o => ∀ x : Ans o, SafeAccess ⟨o, x⟩) s.clear := ⟨h.safe, fun _ => trivial⟩
  have hordinary : ∀ o : Op, ordinary o = true → ∀ x : Ans o, SafeAccess ⟨o, x⟩ := fun o ho x => safeAccess_of_ordinary ho
  -- the three branches of the loop body: accept, read, and nothing to do
  unfold run.serve
  split
  · split
    · have haccept := ordinary_judoAccept_ (fun n size => (internal_judoHandshake_ n size fuel).ordinary) s.server
      refine .step (fun _ => trivial) fun _ => (haccept.mono hordinary).bind fun out => ?_
      cases out with
      | none => trivial
      | some out => trivial
    · refine hclear.bind fun s' => .step (fun _ => trivial) fun buffer => ?_
      refine ((ordinary_judoRead_ ..).mono hordinary).bind fun out => ?_
      cases out with
      | none => trivial
      | some out =>
          refine (only_discard (fun _ _ _ => trivial) (fun _ _ => trivial) (fun _ => trivial) ..).bind fun goesOn => ?_
          cases goesOn with
          | true => trivial
          | false => trivial
  · trivial

/-- What it does, it does to row `i`. -/
theorem At.rowServed (h : At s rows i) (hi : i < rows.length) {fuel : ℕ} {tr : List (Event Op Ans)} {s' : Round} {act : Act}
    (hserve : ServeRun fuel s rows[i].1 rows[i].2 tr s' act) : RowServed s i rows[i] tr s' act := by
  cases hserve with
  | idle hrevents => exact .idle hrevents
  | accept hrevents hfd haccept =>
      rcases runs_judoAccept_table (fun _ _ => internal_judoHandshake_ ..) haccept with ⟨hret, rfl⟩ | ⟨rfl, n, rfl, hacc, size, data, w, hwrite, hw⟩
      · exact .refused _ hrevents hfd hret
      · exact .accepted n size w data hrevents hfd (List.mem_cons_of_mem _ hacc) (List.mem_cons_of_mem _ hwrite) hw
  | read hrevents hfd hclear hread =>
      obtain ⟨rfl, -⟩ := h.clear hclear
      rcases runs_reads hread with ⟨rfl, rfl, -⟩ | ⟨rfl, rfl, -⟩
      · rw [if_neg (by decide)]
        exact .received hrevents hfd
      · rw [if_pos rfl]
        exact .disconnected hrevents hfd

/-- So serving at a row is safe, and does this to it. -/
theorem runs_serve (h : At s rows i) (hi : i < rows.length) {fuel : ℕ} {tr : List (Event Op Ans)} {r : Option (Round × Act)}
    (hruns : Prog.Runs (run.serve fuel s rows[i].1 rows[i].2) tr r) :
    (∀ ev ∈ tr, SafeAccess ev) ∧ ∀ s' act, r = some (s', act) → RowServed s i rows[i] tr s' act := by
  constructor
  · intro ev hev
    exact (h.only_serve fuel _ _).of_runs hruns ev hev ev.ans
  · rintro s' act rfl
    exact h.rowServed hi (serveRun_of_runs hruns)

/-- An iteration at row `i`: it reads the row, serves it, and goes on. -/
theorem runs_iteration (h : At s rows i) (hi : i < rows.length) {fuel : ℕ} {tr : List (Event Op Ans)} {r : Option (Round × Act)}
    (hruns : Prog.Runs (run.iteration fuel s) tr r) :
    (r = none ∧ ∀ ev ∈ tr, SafeAccess ev)
      ∨ ∃ tr₀ tr₁ tr₂ s₁ act s', tr = tr₀ ++ tr₁ ++ tr₂ ∧ r = some (s', act) ∧ (∀ ev ∈ tr₀ ++ tr₁, SafeAccess ev)
        ∧ RowServed { s with array_size := s.table.m_size } i rows[i] tr₁ s₁ act
        ∧ Prog.Runs (run.advance s₁) tr₂ s' := by
  have hat : At { s with array_size := s.table.m_size } rows i := ⟨h.rep, h.arrays, h.index, h.lt⟩
  obtain ⟨tr₁, tr₂, p, rfl, hpoll, h₁⟩ := Prog.runs_bind.mp hruns
  obtain ⟨rfl, hsafe₁⟩ := hat.poll_array hi hpoll
  obtain ⟨tr₃, tr₄, n, rfl, hnode, h₂⟩ := Prog.runs_bind.mp h₁
  obtain ⟨rfl, hsafe₂⟩ := hat.node_array hi hnode
  obtain ⟨tr₅, tr₆, out, rfl, hserve, h₃⟩ := Prog.runs_bind.mp h₂
  obtain ⟨hsafe₃, hserved⟩ := runs_serve hat hi hserve
  have hsafe : ∀ ev ∈ tr₁ ++ tr₃ ++ tr₅, SafeAccess ev :=
    List.forall_mem_append.mpr ⟨List.forall_mem_append.mpr ⟨hsafe₁, hsafe₂⟩, hsafe₃⟩
  -- serve may not return; where it does, the advance is the last thing the iteration does
  split at h₃
  · obtain ⟨rfl, rfl⟩ := h₃
    refine .inl ⟨rfl, ?_⟩
    rwa [List.append_nil, ← List.append_assoc]
  · next s₁ act =>
      obtain ⟨tr₇, tr₈, s', rfl, hadvance, rfl, rfl⟩ := Prog.runs_bind.mp h₃
      refine .inr ⟨tr₁ ++ tr₃, tr₅, tr₇, s₁, act, s', ?_, rfl, hsafe, hserved s₁ act rfl, hadvance⟩
      simp only [List.append_assoc, List.append_nil]

/-- An access of the loop to its table. -/
def isAccess : Op → Bool
  | .access _ _ _ _ => true
  | _ => false

/-- Clearing a row makes such accesses only. -/
theorem access_clear {s s' : Round} {tr : List (Event Op Ans)} (h : Prog.Runs s.clear tr s') : ∀ ev ∈ tr, isAccess ev.op = true := by
  obtain ⟨x, tr, rfl, rfl, -⟩ := h
  exact List.forall_mem_singleton.mpr rfl

/-- What an iteration at a row does: accesses to the table, and the call for the row. -/
theorem serveRun_of_at {s s' : Round} {rows : List (pollfd × ssl_node)} {i : ℕ} (h : At s rows i) (hi : i < rows.length) {fuel : ℕ}
    {tr : List (Event Op Ans)} {act : Act} (hruns : Prog.Runs (run.iteration fuel s) tr (some (s', act))) :
    ∃ tr₀ tr₁ tr₂ s₁, tr = tr₀ ++ (tr₁ ++ tr₂) ∧ (∀ ev ∈ tr₀, isAccess ev.op = true) ∧ (∀ ev ∈ tr₂, isAccess ev.op = true)
      ∧ ServeRun fuel { s with array_size := s.table.getSize } rows[i].1 rows[i].2 tr₁ s₁ act
      ∧ Prog.Runs (run.advance s₁) tr₂ s' := by
  have hat : At { s with array_size := s.table.getSize } rows i := ⟨h.rep, h.arrays, h.index, h.lt⟩
  obtain ⟨tr₁, tr₂, p, rfl, hpoll, h₁⟩ := Prog.runs_bind.mp hruns
  obtain ⟨rfl, -⟩ := hat.poll_array hi hpoll
  obtain ⟨tr₃, tr₄, m, rfl, hnode, h₂⟩ := Prog.runs_bind.mp h₁
  obtain ⟨rfl, -⟩ := hat.node_array hi hnode
  obtain ⟨tr₅, tr₆, out, rfl, hserve, h₃⟩ := Prog.runs_bind.mp h₂
  -- an iteration that goes on has served its row
  split at h₃
  · exact absurd h₃.2 (Option.some_ne_none _).symm
  next s₁ act' =>
  obtain ⟨tr₇, tr₈, s₂, rfl, hadvance, rfl, hret⟩ := Prog.runs_bind.mp h₃
  obtain ⟨rfl, rfl⟩ := Prod.mk.inj (Option.some.inj hret)
  refine ⟨tr₁ ++ tr₃, tr₅, tr₇, s₁, ?_, List.forall_mem_append.mpr ⟨?_, ?_⟩, ?_, serveRun_of_runs hserve, hadvance⟩
  · rw [List.append_nil, List.append_assoc]
  · obtain ⟨x, tr, rfl, rfl, -⟩ := hpoll
    exact List.forall_mem_singleton.mpr rfl
  · obtain ⟨x, tr, rfl, rfl, -⟩ := hnode
    exact List.forall_mem_singleton.mpr rfl
  · rcases runs_advance hadvance with ⟨-, rfl, -⟩ | ⟨-, s₃, hclear, -⟩
    · exact fun _ hev => absurd hev List.not_mem_nil
    · exact access_clear hclear

/-- The requests leave a table. -/
theorem rep_load (requests : List judo_request_node) : ∀ {server : JudoServer} {rows : List (pollfd × ssl_node)},
    server.m_ssl_nodes.Rep rows → ∃ rows', (run.load server requests).m_ssl_nodes.Rep rows' := by
  induction requests with
  | nil => exact fun hrep => ⟨_, hrep⟩
  | cons current queue ih =>
      intro server rows hrep
      unfold run.load
      split
      · exact ih (DualDynamicArray.add_spec hrep ..).1
      · exact ih hrep

theorem load_m_server_list_sock (requests : List judo_request_node) : ∀ (server : JudoServer),
    (run.load server requests).m_server_list_sock = server.m_server_list_sock := by
  induction requests with
  | nil => exact fun _ => rfl
  | cons current queue ih =>
      intro server
      unfold run.load
      split
      · exact ih _
      · exact ih server

/-- A round of the outer loop accesses no row, and leaves a table. -/
theorem rep_round {server : JudoServer} {a : ℤ} {tr : List (Event Op Ans)} (hrep : server.m_ssl_nodes.Rep rows)
    (hruns : Prog.Runs (run.round server a) tr s) : (∃ rows', s.table.Rep rows') ∧ ∀ ev ∈ tr, SafeAccess ev := by
  obtain ⟨requests, tr, rfl, polled, tr, rfl, rfl, rfl⟩ := hruns
  obtain ⟨rows', hrows'⟩ := rep_load requests hrep
  refine ⟨⟨_, hrows'.mapFirst _⟩, fun ev hev => ?_⟩
  rcases List.mem_cons.mp hev with rfl | hev
  · trivial
  · rw [List.mem_singleton.mp hev]
    trivial

/-- The inner loop begins at the first row of the table as it is then. -/
theorem runs_round {server : JudoServer} {a : ℤ} {tr : List (Event Op Ans)}
    (hruns : Prog.Runs (run.round server a) tr s) :
    s.arrays = s.table.arrays ∧ s.index = 0 ∧ s.server.m_server_list_sock = server.m_server_list_sock := by
  obtain ⟨requests, tr, rfl, polled, tr, rfl, rfl, rfl⟩ := hruns
  exact ⟨rfl, rfl, load_m_server_list_sock requests server⟩

end JudoEngine
