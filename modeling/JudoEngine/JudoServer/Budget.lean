/-
How many events the event loop handles.

`run` counts the accepts and reads in `a` and is to return when it has handled nine. It
asks `a != 9`, and only between rounds, while an iteration of the inner loop adds one for
each row that it serves: a round that begins with eight events and serves two rows takes
the counter from 8 to 10, and then it is never 9 again.

How many rows a round serves is decided by `poll`, which marks them before the first is
served: a round that ends has served each row that is marked, and no other (`Serving`). So
a run keeps its budget as long as `poll` marks no more than nine rows in all.
-/
import JudoEngine.Lib.History
import JudoEngine.DualDynamicArray.Bag
import JudoEngine.JudoServer.Service

set_option autoImplicit false

open Words Histories

namespace JudoEngine

/-! ## Runs and their events

The budget is about what a run has done, not about a field: the events are counted in the
history of its steps. -/

/-- A step of `run`, whatever its operations. -/
def LoopMove (s : RunState) (out : Outcome) (s' : RunState) : Prop := ∃ tr, LoopStep s out tr s'

/-- `run` up to some point, with its steps. -/
abbrev LoopHistory (server : JudoServer) : List (RunState × Outcome) → RunState → Prop :=
  History LoopMove (.outer { server with m_active := true } 0)

/-- The events that a step handles: an accept or a read is one. -/
def Outcome.events : Outcome → ℕ
  | .served (.accept _) => 1
  | .served (.read _ _) => 1
  | _ => 0

/-- The events handled in a run. -/
abbrev handled (hist : List (RunState × Outcome)) : ℕ := total Outcome.events hist

/-- What is taken for granted of a step: `poll` finds distinct descriptors, counts the rows
that it has marked or fails, and does so only when there are rows; and an iteration does not
replace the arrays under the loop. -/
def SteadyStep : RunState → Outcome → List (Event Op Ans) → RunState → Prop
  | .outer _ _, _, _, .inner s =>
      (fds s.table.rows).Nodup ∧ (0 ≤ s.sockets_to_handel → s.sockets_to_handel = s.table.rows.countP ready)
        ∧ (s.sockets_to_handel ≠ 0 → 0 < s.table.rows.length)
  | .inner s, .served act, tr, _ => Steady s act tr
  | _, _, _, _ => True

/-- Such a step, whatever its operations. -/
def SteadyMove (s : RunState) (out : Outcome) (s' : RunState) : Prop := ∃ tr, LoopStep s out tr s' ∧ SteadyStep s out tr s'

/-- The rows that `poll` has marked in a step. -/
def Outcome.marks : Outcome → ℕ
  | .polled _ _ marked => marked
  | _ => 0

/-- The rows marked in a run. -/
abbrev marks (hist : List (RunState × Outcome)) : ℕ := total Outcome.marks hist

/-! ## The counter

Nothing but the two calls of the inner loop touches `a`, and each adds one to it. -/

/-- The counter. -/
def RunState.counter : RunState → Option ℤ
  | outer _ a => some a
  | inner s => some s.a
  | halted => none

variable {s s' : Round} {tr : List (Event Op Ans)}

/-- Neither clearing a row nor moving on counts. -/
theorem clear_a (hruns : Prog.Runs s.clear tr s') : s'.a = s.a := by
  obtain ⟨x, tr, rfl, rfl, rfl⟩ := hruns
  split
  · rfl
  · rfl

theorem advance_a (hruns : Prog.Runs (run.advance s) tr s') : s'.a = s.a := by
  rcases runs_advance hruns with ⟨-, -, rfl⟩ | ⟨-, s₁, hclear, rfl⟩
  · rfl
  · have hkept := clear_a hclear
    exact hkept

/-- Serving a row counts it. -/
theorem serve_a {fuel : ℕ} {p : pollfd} {n : ssl_node} {act : Act} (hserve : ServeRun fuel s p n tr s' act) :
    s'.a = s.a + (Outcome.served act).events := by
  cases hserve with
  | idle hrevents => exact (add_zero s.a).symm
  | accept hrevents hfd haccept => rfl
  | read hrevents hfd hclear hread =>
      have hkept := clear_a hclear
      split
      · exact congrArg (· + 1) hkept
      · exact congrArg (· + 1) hkept

/-- **One step** adds to the counter the events that it handles. -/
theorem LoopMove.counter {st st' : RunState} {out : Outcome} (hmove : LoopMove st out st') {a' : ℤ}
    (ha' : st'.counter = some a') : ∃ a, st.counter = some a ∧ a' = a + out.events := by
  obtain ⟨tr, hstep⟩ := hmove
  cases hstep with
  | @round server a tr s ha hruns =>
      obtain ⟨requests, tr, rfl, polled, tr, rfl, rfl, rfl⟩ := hruns
      obtain rfl := Option.some.inj ha'
      exact ⟨a, rfl, (add_zero a).symm⟩
  | @iteration s s' act tr fuel hgo hruns =>
      -- the test at the end of an iteration leaves the counter alone
      obtain rfl := Option.some.inj ha'
      obtain ⟨p, n, before, tr', after, s₁, -, -, -, hserve, hadvance⟩ := serveRun_of_iteration hruns
      have hserved := serve_a hserve
      exact ⟨s.a, rfl, (advance_a hadvance).trans hserved⟩
  | halt fuel hgo hruns => exact absurd ha' (Option.some_ne_none _).symm
  | again hdone =>
      obtain rfl := Option.some.inj ha'
      exact ⟨_, rfl, (add_zero _).symm⟩

variable {server : JudoServer} {hist pre : List (RunState × Outcome)} {last : RunState}

/-- **In a run** the counter is the number of events handled. -/
theorem LoopHistory.counter (hrun : LoopHistory server hist last) {a : ℤ} (ha : last.counter = some a) : a = handled hist :=
  hrun.counts (fun _ hzero => (Option.some.inj hzero).symm) (fun _ _ _ _ hmove ha' => hmove.counter ha') a ha

/-! ## The rows that are marked

A round serves the rows that poll has marked, each once. So at the end of a round the counter
has grown by their number, whatever the calls have answered; within a round it lags behind by
the rows that are still to come. -/

/-- Of the rows of a table, those that are marked are due a call. -/
theorem marked_eq {rows : List (pollfd × ssl_node)} (hrep : s.table.Rep rows) (m_server_list_sock : ℤ) :
    s.marked = (rows.filterMap (due m_server_list_sock)).length := by
  -- run counts the rows whose revents hold POLLIN, and these are the ones that have something due
  have hdue : ∀ row : pollfd × ssl_node, (due m_server_list_sock row).isSome = decide (row.1.revents &&& POLLIN ≠ 0) := by
    intro row
    unfold due
    split
    · next hzero => rw [hzero]; rfl
    · next hne =>
        rw [decide_eq_true hne]
        split
        · rfl
        · rfl
  have hsame : ∀ i ∈ List.range s.table.getSize,
      (s.table.m_first_array i).any (fun p => p.revents &&& POLLIN ≠ 0) = true
        ↔ ((((s.table.m_first_array i).bind fun p => (s.table.m_second_array i).map fun n => (p, n)).map
          fun row => (due m_server_list_sock row).isSome).getD false) = true := by
    intro i hi
    have hlt : i < rows.length := hrep.size ▸ List.mem_range.mp hi
    rw [hrep.first i hlt, hrep.second i hlt, Option.bind_some, Option.map_some, Option.map_some, Option.getD_some, Option.any_some,
      hdue]
  calc s.marked
      = s.table.rows.countP fun row => (due m_server_list_sock row).isSome := by
        rw [DualDynamicArray.rows, List.countP_filterMap]
        exact List.countP_congr hsame
    _ = (rows.filterMap (due m_server_list_sock)).length := by
        rw [hrep.rows_eq, List.length_filterMap_eq_countP]

/-- What holds after a history: a round has counted the marked rows up to the next one, and
will count the rest. -/
def Counting (hist : List (RunState × Outcome)) : RunState → Prop
  | .outer server a => (∃ rows, server.m_ssl_nodes.Rep rows) ∧ a = marks hist
  | .inner s =>
      ∃ m_server_list_sock rows₀ acts rows i, Serving m_server_list_sock rows₀ acts s rows i
        ∧ (s.sockets_to_handel ≠ 0 → i < rows.length)
        ∧ s.a + (rows₀.filterMap (due m_server_list_sock)).length = marks hist + (acts.filterMap Act.call).length
  | .halted => True

/-- An event is one more call. -/
theorem length_calls (acts : List Act) (act : Act) :
    ((acts ++ [act]).filterMap Act.call).length = (acts.filterMap Act.call).length + (Outcome.served act).events := by
  rw [List.filterMap_append, List.length_append]
  cases act with
  | idle => rfl
  | accept ret => rfl
  | read row ret => rfl

/-- **One step.** -/
theorem Counting.step {hist : List (RunState × Outcome)} {st st' : RunState} {out : Outcome} (h : Counting hist st)
    (hmove : SteadyMove st out st') : Counting (hist ++ [(st, out)]) st' := by
  obtain ⟨tr, hstep, hsteady⟩ := hmove
  have hmarks : marks (hist ++ [(st, out)]) = marks hist + out.marks := by
    rw [marks, total_append, total_cons, total_nil, Nat.add_zero]
  -- a round marks rows and serves none, an iteration serves one, and a round that is done has
  -- served them all
  cases hstep with
  | @round server a tr s ha hruns =>
      obtain ⟨⟨rows, hrep⟩, hcount⟩ := h
      obtain ⟨⟨rows', hrep'⟩, -⟩ := rep_round hrep hruns
      obtain ⟨hnodup, hpoll, hrows⟩ := hsteady
      rw [hrep'.rows_eq] at hnodup hpoll hrows
      refine ⟨server.m_server_list_sock, rows', [], rows', 0, serving_round hruns hrep' hnodup hpoll, hrows, ?_⟩
      have hcounted : (Outcome.polled s.table.getSize s.sockets_to_handel s.marked).marks
          = (rows'.filterMap (due server.m_server_list_sock)).length := marked_eq hrep' _
      obtain ⟨requests, tr, rfl, polled, tr, rfl, rfl, rfl⟩ := hruns
      rw [hmarks, hcounted]
      push_cast
      rw [hcount, List.filterMap_nil, List.length_nil]
      omega
  | @iteration s s' act tr fuel hgo hruns =>
      obtain ⟨m_server_list_sock, rows₀, acts, rows, i, hserving, hi, hcount⟩ := h
      obtain ⟨rows', j, hserving', hj⟩ := hserving.iteration (hi hgo) hgo hruns hsteady
      refine ⟨m_server_list_sock, rows₀, acts ++ [act], rows', j, hserving', hj, ?_⟩
      obtain ⟨a, ha, hraised⟩ := LoopMove.counter ⟨tr, .iteration fuel hgo hruns⟩ rfl
      obtain rfl := Option.some.inj ha
      have hcalls := length_calls acts act
      rw [hmarks]
      show _ = ((marks hist + 0 : ℕ) : ℤ) + _
      omega
  | halt fuel hgo hruns => exact trivial
  | @again s hdone =>
      obtain ⟨m_server_list_sock, rows₀, acts, rows, i, hserving, -, hcount⟩ := h
      have hcalls := (hserving.done hdone).length_eq
      refine ⟨⟨rows, hserving.rep⟩, ?_⟩
      rw [hmarks]
      show s.a = ((marks hist + 0 : ℕ) : ℤ)
      omega

/-- A server with a listening socket and `n` clients. -/
def serverOf (n : ℕ) : JudoServer :=
  { JudoServer.init_ default with
    m_ssl_nodes := (List.range n).foldl (fun d (i : ℕ) => d.add ⟨i + 5, POLLIN, 0⟩ { clientNode with fp := i + 5, mode := 6 })
      (DualDynamicArray.new.add ⟨3, POLLIN, 0⟩ default)
    m_server_list_sock := 3 }

/-- They are all ready; no mode byte comes from the next client, and each of the others
sends a message of one packet. -/
def busyVisitors : Visitors := ⟨100, List.replicate 10 [1, 0, 0, 0, 1, 0, 0, 0]⟩

/-- After `k` iterations of its first round. -/
def busy (n k : ℕ) : Round := (visited (serverOf n) busyVisitors k).1

end JudoEngine
