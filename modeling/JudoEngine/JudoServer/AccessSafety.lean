/-
Where the accesses of the event loop go.

The loop keeps the pointers and the row number that it has while the calls that it
makes add and remove rows. `Spared` says what has to happen for that to go well:
an added row finds room, a removed one is not the only one, and when the arrays
shrink the loop is about to stop. In a run that is spared in every step all accesses
go to rows of the table, in the arrays that it has then.
-/
import JudoEngine.JudoServer.Run

set_option autoImplicit false

open Words

namespace JudoEngine

/-! ## What has to happen

Two conditions are needed: `Spared` is what a step must not do, on the state before it and the
outcomes of poll, accept and read, and `OnRow` is the invariant that it buys. -/

/-- The step does not run into the way the loop keeps its pointers and its index:

* `poll` fails, or finds something, only when there are rows;
* an accepted client finds room in the arrays;
* a client that disconnects is not alone in the table; and when its removal shrinks
  the arrays, it is the last that was ready and not the last row. -/
def Spared : RunState → Outcome → Prop
  | .outer _ _, .polled array_size result _ => result ≠ 0 → 0 < array_size
  | .inner s, .served (.accept ret) => ret = JUDO_SUCCESS → s.table.m_size < s.table.m_cap
  | .inner s, .served (.read _ ret) =>
      ret = -1 → 1 < s.table.m_size ∧ (s.table.Shrinks → s.sockets_to_handel = 1 ∧ s.index ≠ s.table.m_size - 1)
  | _, _ => True

/-- While there are sockets to handle, the loop stands at a row of its table. -/
def OnRow : RunState → Prop
  | .outer server _ => ∃ rows, server.m_ssl_nodes.Rep rows
  | .inner s => ∃ rows, s.table.Rep rows ∧ (s.sockets_to_handel ≠ 0 → ∃ i, At s rows i)
  | .halted => True

/-! ## An iteration

An iteration clears the row it stands at, serves it, and moves on to the next row that is
ready. The accesses before the call of accept or read are on the row by the invariant. After
it the pointers are the old ones, which is where an added or removed row matters. -/

variable {s s₁ s' : Round} {rows : List (pollfd × ssl_node)} {i : ℕ}

/-- The end of an iteration that has left the loop at a row. -/
theorem advance_onRow {j : ℕ} {tr : List (Event Op Ans)} (hruns : Prog.Runs (run.advance s₁) tr s') (h : At s₁ rows j)
    (hnext : s₁.index ≠ s₁.array_size - 1 → j + 1 < rows.length) :
    (∀ ev ∈ tr, SafeAccess ev) ∧ OnRow (.inner s') := by
  have hindex := h.index
  rcases runs_advance hruns with ⟨hgo, rfl, rfl⟩ | ⟨-, s₂, hclear, rfl⟩
  · refine ⟨fun _ hnil => absurd hnil List.not_mem_nil, rows, h.rep, fun _ => ⟨j + 1, h.rep, h.arrays, ?_, hnext hgo⟩⟩
    show s₁.index + 1 = ((j + 1 : ℕ) : ℤ)
    omega
  · obtain ⟨rfl, hsafe⟩ := h.clear hclear
    exact ⟨hsafe, _, rep_cleared h.rep h.lt, fun hne => absurd rfl hne⟩

/-- A row with the descriptor of row `i` is found. -/
theorem find_of_cleared (hrep : s.table.Rep rows) (hi : i < rows.length) :
    ∃ k < (rows.set i (clearedRow rows[i])).length, (s.cleared i).find compare_pollfd rows[i].1 = (k : ℤ) := by
  rcases DualDynamicArray.find_spec compare_pollfd (rep_cleared hrep hi) rows[i].1 with ⟨-, hnone⟩ | ⟨k, hk, hfind, -⟩
  · refine absurd ?_ (hnone i (by rw [List.length_set]; exact hi))
    rw [List.getElem_set_self]
    exact sub_self _
  · exact ⟨k, hk, hfind⟩

/-- The removal of row `i`. -/
theorem rep_disconnected (h : At s rows i) (hi : i < rows.length) : ∃ rows',
    ((s.cleared i).remove compare_pollfd rows[i].1).Rep rows' ∧ rows'.length = rows.length - 1 := by
  obtain ⟨k, hk, hfind⟩ := find_of_cleared h.rep hi
  refine ⟨_, DualDynamicArray.remove_spec (rep_cleared h.rep hi) hk hfind, ?_⟩
  rw [DualDynamicArray.length_removeRow, List.length_set]

/-- **An iteration** that is spared accesses rows only, and leaves the loop at one. -/
theorem iteration_onRow (h : At s rows i) (hi : i < rows.length) {tr₁ tr₂ : List (Event Op Ans)} {act : Act}
    (hserved : RowServed { s with array_size := s.table.m_size } i rows[i] tr₁ s₁ act)
    (hruns : Prog.Runs (run.advance s₁) tr₂ s') (hspared : Spared (.inner s) (.served act)) :
    (∀ ev ∈ tr₂, SafeAccess ev) ∧ OnRow (.inner s') := by
  have hsize := h.rep.size
  have hindex := h.index
  have hlt := h.lt
  cases hserved with
  | idle hrevents =>
      refine advance_onRow hruns ⟨h.rep, h.arrays, h.index, h.lt⟩ fun hgo => ?_
      simp only at hgo
      omega
  | refused ret hrevents hfd hret =>
      refine advance_onRow hruns ⟨h.rep, h.arrays, h.index, h.lt⟩ fun hgo => ?_
      simp only at hgo
      omega
  | accepted n size w data hrevents hfd haccept hwrite hw =>
      -- there is room: the arrays stay
      have hroom : s.table.m_size < s.table.m_cap := hspared rfl
      obtain ⟨hrep, hsame, -⟩ := DualDynamicArray.add_spec h.rep ⟨n.fp, POLLIN, 0⟩ n
      refine advance_onRow hruns (j := i) ⟨hrep, ?_, h.index, ?_⟩ fun _ => ?_
      · exact h.arrays.trans (hsame (by omega)).1.symm
      · rw [List.length_append]
        omega
      · rw [List.length_append, List.length_singleton]
        omega
  | received hrevents hfd =>
      refine advance_onRow hruns (j := i) ⟨rep_cleared h.rep hlt, h.arrays, h.index, ?_⟩ fun hgo => ?_
      · rw [List.length_set]
        exact hlt
      · rw [List.length_set]
        simp only [Round.withTable] at hgo
        omega
  | disconnected hrevents hfd =>
      obtain ⟨hmany, hshrinks⟩ := hspared rfl
      obtain ⟨rows', hrep, hlen⟩ := rep_disconnected h hi
      have hsame : ¬ s.table.Shrinks →
          ((s.cleared i).remove compare_pollfd rows[i].1).arrays = s.table.arrays := fun hno =>
        (DualDynamicArray.remove_arrays (d := s.cleared i) hno rows[i].1).1
      rcases runs_advance hruns with ⟨hgo, rfl, rfl⟩ | ⟨hlast, s₂, hclear, rfl⟩
      · -- not the last row: another row now stands where it was
        refine ⟨fun _ hnil => absurd hnil List.not_mem_nil, rows', hrep, fun hne => ⟨i, hrep, ?_, ?_, ?_⟩⟩
        · refine h.arrays.trans (hsame fun hs => hne ?_).symm
          show s.sockets_to_handel - 1 = 0
          rw [(hshrinks hs).1]
          rfl
        · show s.index - 1 + 1 = i
          omega
        · simp only at hgo
          omega
      · -- the last row: the loop clears the row before it, and stops
        simp only at hlast
        have hat : At { s.withTable ((s.cleared i).remove compare_pollfd rows[i].1) with
            sockets_to_handel := s.sockets_to_handel - 1
            a := s.a + 1
            index := s.index - 1
            array_size := (s.table.m_size : ℤ) - 1 } rows' (i - 1) := by
          refine ⟨hrep, h.arrays.trans (hsame fun hs => (hshrinks hs).2 ?_).symm, ?_, ?_⟩
          · omega
          · show s.index - 1 = ((i - 1 : ℕ) : ℤ)
            omega
          · omega
        obtain ⟨rfl, hsafe⟩ := hat.clear hclear
        exact ⟨hsafe, _, rep_cleared hat.rep hat.lt, fun hne => absurd rfl hne⟩

/-! ## Runs

A round of the outer loop ends at a row, too, if it finds one, so the invariant goes through a
run step by step. -/

/-- One step. -/
theorem step_onRow {st st' : RunState} {out : Outcome} {tr : List (Event Op Ans)} (hinv : OnRow st) (hspared : Spared st out)
    (hstep : LoopStep st out tr st') : (∀ ev ∈ tr, SafeAccess ev) ∧ OnRow st' := by
  cases hstep with
  | @round server a tr s ha hruns =>
      obtain ⟨rows, hrep⟩ := hinv
      obtain ⟨⟨rows', hrep'⟩, hsafe⟩ := rep_round hrep hruns
      obtain ⟨harrays, hindex, -⟩ := runs_round hruns
      refine ⟨hsafe, rows', hrep', fun hne => ⟨0, hrep', harrays, hindex, ?_⟩⟩
      rw [← hrep'.size]
      exact hspared hne
  | iteration fuel hgo hruns =>
      obtain ⟨rows, -, hat⟩ := hinv
      obtain ⟨i, hi⟩ := hat hgo
      rcases runs_iteration hi hi.lt hruns with ⟨hnone, -⟩ | ⟨tr₀, tr₁, tr₂, s₁, act, s', rfl, hsome, hsafe, hserved, hadvance⟩
      · exact absurd hnone (Option.some_ne_none _)
      obtain ⟨rfl, rfl⟩ := Prod.mk.inj (Option.some.inj hsome)
      obtain ⟨hsafe', hinv'⟩ := iteration_onRow hi hi.lt hserved hadvance hspared
      exact ⟨List.forall_mem_append.mpr ⟨hsafe, hsafe'⟩, hinv'⟩
  | halt fuel hgo hruns =>
      obtain ⟨rows, -, hat⟩ := hinv
      obtain ⟨i, hi⟩ := hat hgo
      rcases runs_iteration hi hi.lt hruns with ⟨-, hsafe⟩ | ⟨tr₀, tr₁, tr₂, s₁, act, s', rfl, hsome, -⟩
      · exact ⟨hsafe, trivial⟩
      · exact absurd hsome (Option.some_ne_none _).symm
  | again hdone =>
      obtain ⟨rows, hrep, -⟩ := hinv
      exact ⟨fun _ hnil => absurd hnil List.not_mem_nil, rows, hrep⟩

/-- After a spared run the loop stands at a row, and every access so far was safe. -/
theorem run_onRow {server : JudoServer} (hrep : server.m_ssl_nodes.Rep rows) {tr : List (Event Op Ans)} {st : RunState}
    (hrun : LoopRun Spared server tr st) : (∀ ev ∈ tr, SafeAccess ev) ∧ OnRow st := by
  induction hrun with
  | start => exact ⟨fun _ hnil => absurd hnil List.not_mem_nil, rows, hrep⟩
  | step h hspared hstep ih =>
      obtain ⟨hsafe, hinv⟩ := ih
      obtain ⟨hsafe', hinv'⟩ := step_onRow hinv hspared hstep
      exact ⟨List.forall_mem_append.mpr ⟨hsafe, hsafe'⟩, hinv'⟩

/-- **Access safety.** In every run from every table, in which every step is spared,
every access of the loop goes to a row of the table, in the arrays that it has at
that moment. -/
theorem accesses_safe {server : JudoServer} (hrep : server.m_ssl_nodes.Rep rows) {tr : List (Event Op Ans)} {st : RunState}
    (hrun : LoopRun Spared server tr st) : ∀ ev ∈ tr, SafeAccess ev := (run_onRow hrep hrun).1

/-! ## One client

The smallest table with which it goes wrong: its only row is removed under the loop. -/

/-- A system in which every socket is ready and these are the bytes that come in. -/
structure Arrivals where
  reads : List (List Byte)

/-- All descriptors are ready, and a read takes the next bytes. -/
def Arrivals.answer (e : Arrivals) : (o : Op) → Ans o × Arrivals
  | .poll fds => (((fds.length : ℤ), fun _ => POLLIN), e)
  | .read _ _ => (e.reads.head?, ⟨e.reads.tail⟩)
  | _ => (default, e)

/-- A client without TLS. -/
def clientNode : ssl_node := ⟨1, 0, 0, 0, 0, 5, 0x0A⟩

/-- A server with one client and no listening socket. -/
def oneClient : JudoServer :=
  { JudoServer.init_ default with m_ssl_nodes := DualDynamicArray.new.add ⟨5, POLLIN, 0⟩ clientNode }

theorem rep_oneClient : oneClient.m_ssl_nodes.Rep [(⟨5, POLLIN, 0⟩, clientNode)] :=
  (DualDynamicArray.add_spec DualDynamicArray.rep_new _ _).1

/-- The first round of the outer loop. -/
def firstRound (e : Arrivals) : List (Event Op Ans) × Round × Arrivals :=
  Prog.exec Arrivals.answer (run.round { oneClient with m_active := true } 0) e

/-- The first iteration of the inner loop. -/
def firstIteration (e : Arrivals) : List (Event Op Ans) × Option (Round × Act) × Arrivals :=
  Prog.exec Arrivals.answer (run.iteration 1 (firstRound e).2.1) e

/-- It is a step of `run`. -/
theorem step_firstRound (e : Arrivals) :
    LoopStep (.outer { oneClient with m_active := true } 0) (.polled 1 1 (firstRound e).2.1.marked) (firstRound e).1
      (.inner (firstRound e).2.1) := by
  have hruns := Prog.runs_exec (h := Arrivals.answer) (run.round { oneClient with m_active := true } 0) e
  exact .round (by decide) hruns

/-- So is this, if it ends. -/
theorem step_firstIteration {e : Arrivals} {act : Act} (h : (firstIteration e).2.1.map Prod.snd = some act) :
    ∃ s, LoopStep (.inner (firstRound e).2.1) (.served act) (firstIteration e).1 (.inner s) := by
  obtain ⟨⟨s, act'⟩, hs, rfl⟩ := Option.map_eq_some_iff.mp h
  have hruns := Prog.runs_exec (h := Arrivals.answer) (run.iteration 1 (firstRound e).2.1) e
  exact ⟨s, .iteration 1 Int.one_ne_zero (hs ▸ hruns)⟩

/-- The only client disconnects: the loop clears the `revents` of row -1. -/
theorem one_client_disconnects :
    oneClient.m_ssl_nodes.Rep [(⟨5, POLLIN, 0⟩, clientNode)]
      ∧ ∃ st, LoopRun (fun _ _ => True) oneClient ([] ++ (firstRound ⟨[]⟩).1 ++ (firstIteration ⟨[]⟩).1) st
        ∧ ∃ ev ∈ [] ++ (firstRound ⟨[]⟩).1 ++ (firstIteration ⟨[]⟩).1, ¬ SafeAccess ev := by
  have hread : (firstIteration ⟨[]⟩).2.1.map Prod.snd = some (.read (⟨5, POLLIN, POLLIN⟩, clientNode) (-1)) := by
    decide +kernel
  obtain ⟨s, hs⟩ := step_firstIteration hread
  have hround : LoopRun (fun _ _ => True) oneClient ([] ++ (firstRound ⟨[]⟩).1) (.inner (firstRound ⟨[]⟩).2.1) :=
    .step .start trivial (step_firstRound _)
  exact ⟨rep_oneClient, _, hround.step trivial hs, by decide +kernel⟩

/-! ## Three rows

A round in which everything happens that keeps the accesses on the table: the accept adds
a row, the first client sends half of a message and disconnects, so that the new row moves
into its place, and the second client sends a whole one.
-/

/-- A system in which every socket is ready, the next client is given this descriptor, and
these are the bytes that come in. -/
structure Visitors where
  fd : ℕ
  reads : List (List Byte)

/-- All descriptors are ready; accept hands out the next one, and a read takes the next
bytes. -/
def Visitors.answer (e : Visitors) : (o : Op) → Ans o × Visitors
  | .poll fds => (((fds.length : ℤ), fun _ => POLLIN), e)
  | .new_ssl_node => ({ (default : ssl_node) with addr := e.fd }, e)
  | .accept _ => ((e.fd : ℤ), { e with fd := e.fd + 1 })
  | .write _ size _ => (size, e)
  | .read _ _ => (e.reads.head?, { e with reads := e.reads.tail })
  | _ => (default, e)

/-- The mode byte of the client that is accepted, the first of two packets, the end of that
connection, and a packet that is a whole message. -/
def visitors : Visitors := ⟨9, [[10], [1, 0, 0, 0, 2, 0, 0, 0], [], [1, 0, 0, 0, 1, 0, 0, 0]]⟩

/-- A client whose packets have 64 bytes. -/
def smallNode : ssl_node := { clientNode with mode := 6 }

/-- A listening socket, and two clients. -/
def threeRows : JudoServer :=
  { JudoServer.init_ default with
    m_ssl_nodes := ((DualDynamicArray.new.add ⟨3, POLLIN, 0⟩ default).add ⟨5, POLLIN, 0⟩ smallNode).add ⟨7, POLLIN, 0⟩
      { smallNode with fp := 7 }
    m_server_list_sock := 3 }

/-- The rows when `poll` has returned. -/
def visitedRows : List (pollfd × ssl_node) :=
  [(⟨3, POLLIN, POLLIN⟩, default), (⟨5, POLLIN, POLLIN⟩, smallNode), (⟨7, POLLIN, POLLIN⟩, { smallNode with fp := 7 })]

theorem rep_threeRows : threeRows.m_ssl_nodes.Rep (visitedRows.map clearedRow) :=
  (DualDynamicArray.add_spec (DualDynamicArray.add_spec (DualDynamicArray.add_spec DualDynamicArray.rep_new _ _).1 _ _).1 _ _).1

/-- The round of a server that has just started. -/
def visitedRound (server : JudoServer) (e : Visitors) : List (Event Op Ans) × Round × Visitors :=
  Prog.exec Visitors.answer (run.round { server with m_active := true } 0) e

/-- An iteration. -/
def Visitors.iteration (x : Round × Visitors) : List (Event Op Ans) × Option (Round × Act) × Visitors :=
  Prog.exec Visitors.answer (run.iteration 2 x.1) x.2

/-- The loop after `k` of them. -/
def visited (server : JudoServer) (e : Visitors) : ℕ → Round × Visitors
  | 0 => (visitedRound server e).2
  | k + 1 =>
      let r := Visitors.iteration (visited server e k)
      ((r.2.1.map Prod.fst).getD (visited server e k).1, r.2.2)

/-- What iteration `k` does. -/
def visit (server : JudoServer) (e : Visitors) (k : ℕ) : Option Act :=
  (Visitors.iteration (visited server e k)).2.1.map Prod.snd

/-- Its record. -/
def visitRecord (server : JudoServer) (e : Visitors) (k : ℕ) : List (Event Op Ans) :=
  (Visitors.iteration (visited server e k)).1

section Visiting

variable {server : JudoServer} {e : Visitors} {k : ℕ} {act : Act}

/-- It is a round of `run`. -/
theorem runs_visitedRound :
    Prog.Runs (run.round { server with m_active := true } 0) (visitedRound server e).1 (visited server e 0).1 :=
  Prog.runs_exec (h := Visitors.answer) _ e

/-- So is each iteration that ends. -/
theorem runs_visit (h : visit server e k = some act) :
    Prog.Runs (run.iteration 2 (visited server e k).1) (visitRecord server e k) (some ((visited server e (k + 1)).1, act)) := by
  obtain ⟨⟨s, act'⟩, hs, rfl⟩ := Option.map_eq_some_iff.mp h
  have hruns := Prog.runs_exec (h := Visitors.answer) (run.iteration 2 (visited server e k).1) (visited server e k).2
  have hnext : (visited server e (k + 1)).1 = s := by
    show ((Visitors.iteration (visited server e k)).2.1.map Prod.fst).getD _ = s
    rw [hs]
    rfl
  have hout : (Prog.exec Visitors.answer (run.iteration 2 (visited server e k).1) (visited server e k).2).2.1 = some (s, act') := hs
  rw [hout] at hruns
  rw [hnext]
  exact hruns

/-- By it a spared run grows. -/
theorem LoopRun.visit {tr : List (Event Op Ans)} (h : LoopRun Spared server tr (.inner (visited server e k).1))
    (hgo : (visited server e k).1.sockets_to_handel ≠ 0) (hact : JudoEngine.visit server e k = some act)
    (hspared : Spared (.inner (visited server e k).1) (.served act)) :
    LoopRun Spared server (tr ++ visitRecord server e k) (.inner (visited server e (k + 1)).1) :=
  .step h hspared (.iteration 2 hgo (runs_visit hact))

end Visiting

/-- The round is spared, and all its accesses are safe; the client that was accepted stands
where the first one was. -/
theorem three_rows_visited :
    ∃ tr, LoopRun Spared threeRows tr (.inner (visited threeRows visitors 4).1)
      ∧ (visited threeRows visitors 4).1.sockets_to_handel = 0
      ∧ ((visited threeRows visitors 4).1.table.m_first_array 1).map pollfd.fd = some 9 ∧ ∀ ev ∈ tr, SafeAccess ev := by
  have hround : LoopRun Spared threeRows ([] ++ (visitedRound threeRows visitors).1) (.inner (visited threeRows visitors 0).1) := by
    have hpolled : Spared (.outer { threeRows with m_active := true } 0)
        (.polled (visited threeRows visitors 0).1.table.getSize (visited threeRows visitors 0).1.sockets_to_handel
          (visited threeRows visitors 0).1.marked) := by
      intro _
      decide +kernel
    exact .step .start hpolled (.round (by decide) runs_visitedRound)
  -- the accept finds a spare slot, so no array moves; the disconnect leaves a row to visit and does
  -- not shrink the table
  have haccepted : (visited threeRows visitors 0).1.table.m_size < (visited threeRows visitors 0).1.table.m_cap := by
    decide +kernel
  have hleft : 1 < (visited threeRows visitors 1).1.table.m_size ∧ ¬ (visited threeRows visitors 1).1.table.Shrinks := by
    decide +kernel
  have hfirst : visit threeRows visitors 0 = some (.accept 0) := by decide +kernel
  have hsecond : visit threeRows visitors 1 = some (.read (⟨5, POLLIN, POLLIN⟩, smallNode) (-1)) := by decide +kernel
  have hthird : visit threeRows visitors 2 = some .idle := by decide +kernel
  have hfourth : visit threeRows visitors 3 = some (.read (⟨7, POLLIN, POLLIN⟩, { smallNode with fp := 7 }) 0) := by
    decide +kernel
  have h₁ := hround.visit (by decide +kernel) hfirst fun _ => haccepted
  have h₂ := h₁.visit (by decide +kernel) hsecond fun _ => ⟨hleft.1, fun hshrinks => absurd hshrinks hleft.2⟩
  have h₃ := h₂.visit (by decide +kernel) hthird trivial
  have h₄ := h₃.visit (by decide +kernel) hfourth fun hret => absurd hret (by decide)
  exact ⟨_, h₄, by decide +kernel, by decide +kernel, accesses_safe rep_threeRows h₄⟩

end JudoEngine
