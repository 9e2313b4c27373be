/-
The round of the event loop after a `poll` that fails.

`poll` then returns -1 and leaves every `revents` as it was. The inner loop runs while
`sockets_to_handel` is not 0, so it does run; the number is negative and only the test for
the last row of the table ends the loop. It looks at the `revents` that the rounds before
have left, and the test clears those of the last row.
-/
import JudoEngine.JudoServer.Service

set_option autoImplicit false

open Words

namespace JudoEngine

/-! ## The round

What such a round should do, against what the rows hold when it begins. -/

/-- A call of `poll` that fails. -/
structure PollFails (fds : List (Option pollfd)) (polled : ℤ × (ℕ → BitVec 16)) : Prop where
  result : polled.1 = -1
  untouched : ∀ i p, fds[i]? = some (some p) → polled.2 i = p.revents

/-- The round ends, accesses rows of the table only, makes no call for a row, and leaves
the rows as they are. It ends: there is no call in it that does not return, and only so
many iterations. -/
structure ServesNobody (s₀ : Round) (rows : List (pollfd × ssl_node)) : Prop where
  ends : ∃ k, ∀ steps s, Iterations (fun _ _ _ => True) s₀ steps s → steps.length ≤ k
  returns : ∀ steps s, Iterations (fun _ _ _ => True) s₀ steps s → s.sockets_to_handel ≠ 0 →
    ∀ fuel tr, ¬ Prog.Runs (run.iteration fuel s) tr none
  safe : ∀ steps s, Iterations (fun _ _ _ => True) s₀ steps s → s.sockets_to_handel ≠ 0 →
    ∀ fuel tr r, Prog.Runs (run.iteration fuel s) tr r → ∀ ev ∈ tr, SafeAccess ev
  idle : ∀ steps s, Iterations (fun _ _ _ => True) s₀ steps s → ∀ x ∈ steps, x.1 = .idle
  rows : ∀ steps s, Iterations (fun _ _ _ => True) s₀ steps s → s.table.Rep rows

/-- No row waits to be served, and the `revents` of the last one are 0 altogether. -/
def NothingLeft (rows : List (pollfd × ssl_node)) : Prop :=
  (∀ row ∈ rows, row.1.revents &&& POLLIN = 0) ∧ ∀ row ∈ rows.getLast?, row.1.revents = 0

variable {s s' : Round} {rows : List (pollfd × ssl_node)} {i : ℕ}

/-- A table has one list of rows. -/
theorem rep_unique {d : DualDynamicArray pollfd ssl_node} {rows' : List (pollfd × ssl_node)} (h : d.Rep rows)
    (h' : d.Rep rows') : rows = rows' := by
  have hlength : rows.length = rows'.length := h.size.symm.trans h'.size
  apply List.ext_getElem hlength
  intro k hk hk'
  have hfirst : rows[k].1 = rows'[k].1 := Option.some.inj ((h.first k hk).symm.trans (h'.first k hk'))
  have hsecond : rows[k].2 = rows'[k].2 := Option.some.inj ((h.second k hk).symm.trans (h'.second k hk'))
  exact Prod.ext hfirst hsecond

/-- After a `poll` that fails the rows are what they were. -/
theorem rep_of_pollFails {server : JudoServer} {polled : ℤ × (ℕ → BitVec 16)} (hrep : server.m_ssl_nodes.Rep rows)
    (hpoll : PollFails ((List.range server.m_ssl_nodes.getSize).map server.m_ssl_nodes.m_first_array) polled) :
    (server.m_ssl_nodes.mapFirst fun i p => { p with revents := polled.2 i }).Rep rows := by
  have hsame : (rows.mapIdx fun i row => ({ row.1 with revents := polled.2 i }, row.2)) = rows := by
    apply List.ext_getElem List.length_mapIdx
    intro k hk hk'
    rw [List.getElem_mapIdx]
    have hrow : polled.2 k = rows[k].1.revents := by
      apply hpoll.untouched
      rw [List.getElem?_map, List.getElem?_range (by rw [DualDynamicArray.getSize, hrep.size]; exact hk'), Option.map_some,
        hrep.first k hk']
    rw [hrow]
  have hmap := hrep.mapFirst fun i p => { p with revents := polled.2 i }
  rwa [hsame] at hmap

/-! ## An iteration

A row that does not wait is passed over: its call is not made, and the loop moves on to the
next row. -/

/-- A row that does not wait is passed over. -/
theorem iteration_idle (h : At s rows i) (hi : i < rows.length) (hidle : rows[i].1.revents &&& POLLIN = 0) {fuel : ℕ}
    {tr : List (Event Op Ans)} {r : Option (Round × Act)} (hruns : Prog.Runs (run.iteration fuel s) tr r) :
    (∀ ev ∈ tr, SafeAccess ev) ∧ ∃ s', r = some (s', .idle)
      ∧ if i + 1 = rows.length then s'.table.Rep (rows.set i (clearedRow rows[i])) ∧ s'.sockets_to_handel = 0
        else At s' rows (i + 1) ∧ s'.sockets_to_handel = s.sockets_to_handel := by
  have hat : At { s with array_size := s.table.m_size } rows i := ⟨h.rep, h.arrays, h.index, h.lt⟩
  have hsize : (s.table.getSize : ℤ) = rows.length := congrArg Int.ofNat h.rep.size
  have hindex := h.index
  obtain ⟨tr₁, tr₂, p, rfl, hpoll, h₁⟩ := Prog.runs_bind.mp hruns
  obtain ⟨rfl, hsafe₁⟩ := hat.poll_array hi hpoll
  obtain ⟨tr₃, tr₄, n, rfl, hnode, h₂⟩ := Prog.runs_bind.mp h₁
  obtain ⟨rfl, hsafe₂⟩ := hat.node_array hi hnode
  obtain ⟨tr₅, tr₆, out, rfl, hserve, h₃⟩ := Prog.runs_bind.mp h₂
  unfold run.serve at hserve
  rw [if_neg (not_not.mpr hidle)] at hserve
  obtain ⟨rfl, rfl⟩ := hserve
  obtain ⟨tr₇, tr₈, s', rfl, hadvance, rfl, rfl⟩ := Prog.runs_bind.mp h₃
  rw [List.nil_append, List.append_nil]
  rcases runs_advance hadvance with ⟨hgo, rfl, rfl⟩ | ⟨hlast, s₁, hclear, rfl⟩
  · refine ⟨?_, _, rfl, ?_⟩
    · rw [List.append_nil]
      exact List.forall_mem_append.mpr ⟨hsafe₁, hsafe₂⟩
    · have hnext : i + 1 ≠ rows.length := fun heq => hgo (by
        show s.index = (s.table.getSize : ℤ) - 1
        omega)
      rw [if_neg hnext]
      refine ⟨⟨h.rep, h.arrays, ?_, by omega⟩, rfl⟩
      show s.index + 1 = ((i + 1 : ℕ) : ℤ)
      omega
  · -- the last row: its `revents` are cleared, and the number is set to 0
    obtain ⟨rfl, hsafe₃⟩ := hat.clear hclear
    refine ⟨List.forall_mem_append.mpr ⟨hsafe₁, List.forall_mem_append.mpr ⟨hsafe₂, hsafe₃⟩⟩, _, rfl, ?_⟩
    have hend : s.index = (s.table.getSize : ℤ) - 1 := hlast
    rw [if_pos (by omega)]
    exact ⟨rep_cleared hat.rep h.lt, rfl⟩

/-! ## All iterations

By induction on the iterations, each of which is at the next row. The last row ends the loop. -/

/-- After these: all rows so far were passed over, and the last one ended the loop. -/
structure Passing (rows : List (pollfd × ssl_node)) (steps : List IterationRecord) (s : Round) : Prop where
  idle : ∀ x ∈ steps, x.1 = .idle
  rep : s.table.Rep rows
  length : steps.length ≤ rows.length
  next : s.sockets_to_handel ≠ 0 → At s rows steps.length

variable {steps : List IterationRecord} {s₀ : Round}

/-- **The iterations of such a round**, while nothing is left. -/
theorem passing_of_iterations (hleft : NothingLeft rows) (hfirst : At s₀ rows 0) (hiterations : Iterations (fun _ _ _ => True) s₀ steps s) :
    Passing rows steps s := by
  induction hiterations with
  | start =>
      exact ⟨fun _ hnil => absurd hnil List.not_mem_nil, hfirst.rep, Nat.zero_le _, fun _ => hfirst⟩
  | @step steps s s' act tr fuel h hgo hruns hP ih =>
      have hat := ih.next hgo
      have hlt := hat.lt
      obtain ⟨-, s'', hr, hnext⟩ := iteration_idle hat hlt (hleft.1 _ (List.getElem_mem hlt)) hruns
      obtain ⟨rfl, rfl⟩ := Prod.mk.inj (Option.some.inj hr)
      have hidle : ∀ x ∈ steps ++ [(Act.idle, tr)], x.1 = .idle := by
        intro x hx
        rcases List.mem_append.mp hx with hx | hx
        · exact ih.idle x hx
        · exact List.mem_singleton.mp hx ▸ rfl
      have hlength : (steps ++ [(Act.idle, tr)]).length = steps.length + 1 := List.length_append
      split at hnext
      · next hlast =>
          -- its `revents` were 0 already
          have hrevents : rows[steps.length].1.revents = 0 := by
            apply hleft.2
            rw [List.getLast?_eq_getElem?, ← hlast, Nat.add_sub_cancel, List.getElem?_eq_getElem hlt]
            exact rfl
          have hsame : clearedRow rows[steps.length] = rows[steps.length] := by
            unfold clearedRow
            rw [← hrevents]
          rw [hsame, List.set_getElem_self] at hnext
          exact ⟨hidle, hnext.1, by omega, fun hne => absurd hnext.2 hne⟩
      · next hmore =>
          refine ⟨hidle, hnext.1.rep, by omega, fun _ => ?_⟩
          rw [hlength]
          exact hnext.1

/-- While nothing is left, nobody is served. -/
theorem servesNobody_of_nothingLeft (hleft : NothingLeft rows) (hfirst : At s₀ rows 0) : ServesNobody s₀ rows where
  ends := ⟨rows.length, fun steps s h => (passing_of_iterations hleft hfirst h).length⟩
  returns := by
    intro steps s h hgo fuel tr hruns
    have hat := (passing_of_iterations hleft hfirst h).next hgo
    obtain ⟨-, s', hr, -⟩ := iteration_idle hat hat.lt (hleft.1 _ (List.getElem_mem hat.lt)) hruns
    exact absurd hr.symm (Option.some_ne_none _)
  safe := by
    intro steps s h hgo fuel tr r hruns
    have hat := (passing_of_iterations hleft hfirst h).next hgo
    exact (iteration_idle hat hat.lt (hleft.1 _ (List.getElem_mem hat.lt)) hruns).1
  idle := fun steps s h => (passing_of_iterations hleft hfirst h).idle
  rows := fun steps s h => (passing_of_iterations hleft hfirst h).rep

/-! ## What is left over

For the other direction a run is shown up to the first row that waits: the loop comes there,
and then either makes a call or never returns from one. -/

/-- The iteration that an idle system gives. -/
theorem exists_iteration (s : Round) : ∃ tr r, Prog.Runs (run.iteration 1 s) tr r :=
  ⟨_, _, Prog.runs_exec (h := Arrivals.answer) (run.iteration 1 s) ⟨[]⟩⟩

/-- A row that waits is served, or the call for it does not return. -/
theorem ServesNobody.passed (hnobody : ServesNobody s₀ rows) (h : Iterations (fun _ _ _ => True) s₀ steps s)
    (hgo : s.sockets_to_handel ≠ 0) (hat : At s rows i) (hi : i < rows.length) : rows[i].1.revents &&& POLLIN = 0 := by
  obtain ⟨tr, r, hruns⟩ := exists_iteration s
  rcases runs_iteration hat hi hruns with ⟨rfl, -⟩ | ⟨tr₀, tr₁, tr₂, s₁, act, s', rfl, rfl, -, hserved, -⟩
  · exact absurd hruns (hnobody.returns steps s h hgo 1 tr)
  · have hidle : act = .idle :=
      hnobody.idle _ _ (.step 1 h hgo hruns trivial) (act, _) (List.mem_append_right _ (List.mem_singleton_self _))
    subst hidle
    cases hserved with
    | idle hrevents => exact hrevents

/-- The loop comes to each row. -/
theorem ServesNobody.reaches (hnobody : ServesNobody s₀ rows) (hfirst : At s₀ rows 0) (hgo : s₀.sockets_to_handel ≠ 0) :
    ∀ i < rows.length, ∃ steps s, Iterations (fun _ _ _ => True) s₀ steps s ∧ At s rows i ∧ s.sockets_to_handel ≠ 0 := by
  intro i
  induction i with
  | zero => exact fun _ => ⟨[], s₀, .start, hfirst, hgo⟩
  | succ i ih =>
      intro hlt
      obtain ⟨steps, s, h, hat, hne⟩ := ih (by omega)
      have hrevents := hnobody.passed h hne hat hat.lt
      obtain ⟨tr, r, hruns⟩ := exists_iteration s
      obtain ⟨-, s', rfl, hnext⟩ := iteration_idle hat hat.lt hrevents hruns
      rw [if_neg (by omega)] at hnext
      exact ⟨_, s', .step 1 h hne hruns trivial, hnext.1, hnext.2 ▸ hne⟩

/-- An access to a table without rows is not to one of them. -/
theorem ServesNobody.rows_ne_nil (hnobody : ServesNobody s₀ rows) (hgo : s₀.sockets_to_handel ≠ 0) : rows ≠ [] := by
  rintro rfl
  have hrep := hnobody.rows [] s₀ .start
  obtain ⟨tr, r, hruns⟩ := exists_iteration s₀
  have hsafe := hnobody.safe [] s₀ .start hgo 1 tr r hruns
  obtain ⟨tr₁, tr₂, p, rfl, ⟨x, tr, rfl, rfl, -⟩, -⟩ := Prog.runs_bind.mp hruns
  have hfirst : 0 ≤ s₀.index ∧ s₀.index < s₀.table.m_size := (hsafe ⟨s₀.access, x⟩ List.mem_cons_self).2
  have hsize : s₀.table.m_size = 0 := hrep.size
  omega

/-- If nobody is served, nothing was left. -/
theorem ServesNobody.nothingLeft (hnobody : ServesNobody s₀ rows) (hfirst : At s₀ rows 0) (hgo : s₀.sockets_to_handel ≠ 0) :
    NothingLeft rows := by
  have hpassed : ∀ i (hi : i < rows.length), rows[i].1.revents &&& POLLIN = 0 := by
    intro i hi
    obtain ⟨steps, s, h, hat, hne⟩ := hnobody.reaches hfirst hgo i hi
    exact hnobody.passed h hne hat hi
  refine ⟨fun row hrow => ?_, fun row hrow => ?_⟩
  · obtain ⟨i, hi, rfl⟩ := List.getElem_of_mem hrow
    exact hpassed i hi
  · -- the rows after the last iteration are those with its `revents` cleared
    have hlt : rows.length - 1 < rows.length := Nat.sub_one_lt_of_lt hfirst.lt
    obtain ⟨steps, s, h, hat, hne⟩ := hnobody.reaches hfirst hgo _ hlt
    obtain ⟨tr, r, hruns⟩ := exists_iteration s
    obtain ⟨-, s', rfl, hnext⟩ := iteration_idle hat hlt (hpassed _ hlt) hruns
    rw [if_pos (Nat.sub_add_cancel (Nat.one_le_of_lt hlt))] at hnext
    have hsame := rep_unique (hnobody.rows _ _ (.step 1 h hne hruns trivial)) hnext.1
    have hlast : rows[rows.length - 1] = clearedRow rows[rows.length - 1] := by
      have hget := List.getElem_of_eq hsame hlt
      rwa [List.getElem_set_self] at hget
    rw [List.getLast?_eq_getElem?, List.getElem?_eq_getElem hlt, Option.mem_some_iff] at hrow
    rw [← hrow, hlast]
    rfl

/-- **A `poll` that fails.** The round serves nobody exactly when the table has rows, none
of them waits to be read, and the last one is not marked at all. -/
theorem servesNobody_iff {server : JudoServer} {a : ℤ} {requests : List judo_request_node} {fds : List (Option pollfd)}
    {polled : ℤ × (ℕ → BitVec 16)} (hrep : (run.load server requests).m_ssl_nodes.Rep rows)
    (hround : Prog.Runs (run.round server a) [⟨.dump, requests⟩, ⟨.poll fds, polled⟩] s) (hpoll : PollFails fds polled) :
    ServesNobody s rows ↔ rows ≠ [] ∧ NothingLeft rows := by
  obtain ⟨requests', tr, hdumped, polled', tr', hpolled, htr, rfl⟩ := hround
  obtain ⟨hdump, rfl⟩ := List.cons.inj hdumped
  cases hdump
  obtain ⟨hcall, rfl⟩ := List.cons.inj hpolled
  cases hcall
  have hrows := rep_of_pollFails hrep hpoll
  have hgo : polled.1 ≠ 0 := by
    rw [hpoll.result]
    decide
  constructor
  · intro hnobody
    have hrows₀ := hnobody.rows_ne_nil hgo
    exact ⟨hrows₀, hnobody.nothingLeft ⟨hrows, rfl, rfl, List.length_pos_of_ne_nil hrows₀⟩ hgo⟩
  · rintro ⟨hrows₀, hleft⟩
    exact servesNobody_of_nothingLeft hleft ⟨hrows, rfl, rfl, List.length_pos_of_ne_nil hrows₀⟩

/-- A listening socket and two clients, of which none is marked. -/
theorem servesNobody_quiet :
    ∃ s, Prog.Runs (run.round threeRows 0)
        [⟨.dump, []⟩, ⟨.poll [some ⟨3, POLLIN, 0⟩, some ⟨5, POLLIN, 0⟩, some ⟨7, POLLIN, 0⟩], (-1, fun _ => 0)⟩] s
      ∧ ServesNobody s (visitedRows.map clearedRow) := by
  have hrep : (run.load threeRows []).m_ssl_nodes.Rep (visitedRows.map clearedRow) := rep_threeRows
  have hround : Prog.Runs (run.round threeRows 0)
      [⟨.dump, []⟩, ⟨.poll [some ⟨3, POLLIN, 0⟩, some ⟨5, POLLIN, 0⟩, some ⟨7, POLLIN, 0⟩], (-1, fun _ => 0)⟩] _ :=
    ⟨[], _, rfl, (-1, fun _ => 0), _, rfl, rfl, rfl⟩
  have hpoll : PollFails [some ⟨3, POLLIN, 0⟩, some ⟨5, POLLIN, 0⟩, some ⟨7, POLLIN, 0⟩] (-1, fun _ => 0) := by
    refine ⟨rfl, fun i p hp => ?_⟩
    have hmem := List.mem_of_getElem? hp
    simp only [List.mem_cons, Option.some_inj, List.not_mem_nil, or_false] at hmem
    rcases hmem with rfl | rfl | rfl <;> rfl
  have hleft : NothingLeft (visitedRows.map clearedRow) := by
    unfold NothingLeft
    decide
  exact ⟨_, hround, (servesNobody_iff hrep hround hpoll).mpr ⟨List.cons_ne_nil _ _, hleft⟩⟩

/-! ## A row that is left over

The listening socket is accepted from in one round and fails to be polled in the next. -/

/-- A listening socket, and a client. -/
def listener : JudoServer :=
  { JudoServer.init_ default with
    m_ssl_nodes := (DualDynamicArray.new.add ⟨3, POLLIN, 0⟩ default).add ⟨5, POLLIN, 0⟩ clientNode
    m_server_list_sock := 3 }

/-- The listening socket is ready, the client is not. -/
def onlyListening (i : ℕ) : BitVec 16 := if i = 0 then POLLIN else 0

/-- A round whose `poll` returns this number and marks the listening socket. -/
def polledRound (server : JudoServer) (a result : ℤ) : Round where
  server := { server with m_ssl_nodes := server.m_ssl_nodes.mapFirst fun i p => { p with revents := onlyListening i } }
  a := a
  arrays := server.m_ssl_nodes.arrays
  array_size := server.m_ssl_nodes.getSize
  sockets_to_handel := result
  index := 0

/-- It is a round of `run`. -/
theorem runs_polledRound (server : JudoServer) (a result : ℤ) :
    Prog.Runs (run.round server a)
      [⟨.dump, []⟩,
        ⟨.poll ((List.range server.m_ssl_nodes.getSize).map server.m_ssl_nodes.m_first_array), (result, onlyListening)⟩]
      (polledRound server a result) :=
  ⟨[], _, rfl, (result, onlyListening), _, rfl, rfl, rfl⟩

/-- The round in which the listening socket is ready, and how it ends. -/
def acceptRound : Round := polledRound { listener with m_active := true } 0 1

/-- The state at its end. -/
def acceptEnd : Round := (quietStep (quietStep acceptRound).1).1

/-- The `revents` of a listening socket are not cleared when it is served: the round after
that one, whose `poll` fails, serves it again. And a table without rows has no first
one. -/
theorem failed_poll_serves :
    (∃ tr fds, LoopRun (fun _ _ => True) listener (tr ++ [⟨.dump, []⟩, ⟨.poll fds, (-1, onlyListening)⟩])
          (.inner (polledRound acceptEnd.server acceptEnd.a (-1)))
        ∧ PollFails fds (-1, onlyListening))
      ∧ acceptEnd.table.Rep [(⟨3, POLLIN, POLLIN⟩, default), (⟨5, POLLIN, 0⟩, clientNode)]
      ∧ ¬ ServesNobody (polledRound acceptEnd.server acceptEnd.a (-1))
          [(⟨3, POLLIN, POLLIN⟩, default), (⟨5, POLLIN, 0⟩, clientNode)]
      ∧ ¬ ServesNobody (polledRound (.init_ default) 0 (-1)) [] := by
  have hrep : acceptEnd.table.Rep [(⟨3, POLLIN, POLLIN⟩, default), (⟨5, POLLIN, 0⟩, clientNode)] :=
    ⟨by decide +kernel, by decide +kernel, by decide +kernel, by decide +kernel, by decide +kernel⟩
  have hgo : (polledRound acceptEnd.server acceptEnd.a (-1)).sockets_to_handel ≠ 0 := by decide
  refine ⟨?_, hrep, fun hnobody => ?_, fun hnobody => ?_⟩
  -- the run: a round in which the client is accepted, its two rows, and the round whose poll fails
  · have hround := LoopStep.round (by decide) (runs_polledRound { listener with m_active := true } 0 1)
    have haccept := LoopStep.iteration (s := acceptRound) 1 (by decide) (runs_quiet (by decide +kernel))
    have hlast := LoopStep.iteration (s := (quietStep acceptRound).1) 1 (by decide +kernel) (runs_quiet (by decide +kernel))
    have hagain := LoopStep.again (s := acceptEnd) (by decide +kernel)
    have hfailed := LoopStep.round (by decide +kernel) (runs_polledRound acceptEnd.server acceptEnd.a (-1))
    have hserved : LoopRun (fun _ _ => True) listener _ (.inner acceptEnd) :=
      .step (.step (.step .start trivial hround) trivial haccept) trivial hlast
    refine ⟨_, _, .step (.step hserved trivial hagain) trivial hfailed, rfl, fun i p hp => ?_⟩
    have hfds : (List.range acceptEnd.server.m_ssl_nodes.getSize).map acceptEnd.server.m_ssl_nodes.m_first_array
        = [some ⟨3, POLLIN, POLLIN⟩, some ⟨5, POLLIN, 0⟩] := by decide +kernel
    rw [hfds] at hp
    rcases i with _ | _ | i
    · obtain rfl := Option.some.inj (Option.some.inj hp)
      rfl
    · obtain rfl := Option.some.inj (Option.some.inj hp)
      rfl
    · exact absurd hp.symm (Option.some_ne_none _)
  · have hrows := hnobody.rows [] _ .start
    have hat : At (polledRound acceptEnd.server acceptEnd.a (-1))
        [(⟨3, POLLIN, POLLIN⟩, default), (⟨5, POLLIN, 0⟩, clientNode)] 0 := ⟨hrows, rfl, rfl, Nat.succ_pos _⟩
    exact absurd (hnobody.passed .start hgo hat (Nat.succ_pos _)) (by decide)
  · exact absurd rfl (hnobody.rows_ne_nil (by decide))

end JudoEngine
