/-
Several threads that send on one connection.

`judoSend_` holds the node's mutex from its first operation to its last. So the calls of
any number of threads put their packets on the connection message by message, in the
order in which they got the mutex, and a packet header needs no number of the message
that it is of.
-/
import JudoEngine.JudoServer.Wire
import JudoEngine.Lib.Threads

set_option autoImplicit false

open Words Threads

namespace JudoEngine

/-! ## The mutex of a node

The operations that lock and unlock one node are what the general theory of threads needs to
know of the code. -/

/-- `ssl_node::lock`. -/
def nodeLocks : Locks Op where
  takes
    | .lock node => some node
    | _ => none
  gives
    | .unlock node => some node
    | _ => none

/-- What puts a packet on a connection. -/
def onConnection : Op → Bool
  | .write _ _ _ | .SSL_write _ _ | .BIO_read _ _ => true
  | _ => false

/-- `judoSend_` is a critical section of its node's mutex. -/
theorem critical_judoSend_ (t_node : ssl_node) (t_buffer : Buffer) (t_size : ℤ) :
    Critical nodeLocks t_node.addr onConnection (judoSend_ t_node t_buffer t_size) := by
  -- no mutex, so not this one
  have hfree : (none : Option ℕ) ≠ some t_node.addr := (Option.some_ne_none _).symm
  have hloop : ∀ (buffer_size packets : ℤ) (n : ℕ) (i index : ℤ) (buffer : Buffer),
      Prog.Only (fun o => nodeLocks.takes o ≠ some t_node.addr ∧ nodeLocks.gives o ≠ some t_node.addr)
        (judoSend_.loop t_node t_buffer t_size buffer_size packets n i index buffer) := by
    intro buffer_size packets n
    induction n with
    | zero => exact fun _ _ _ => trivial
    | succ n ih =>
        intro i index buffer
        unfold judoSend_.loop
        dsimp only
        split
        · refine .step ⟨hfree, hfree⟩ fun _ => .step ⟨hfree, hfree⟩ fun _ => .step ⟨hfree, hfree⟩ fun _ => ih _ _ _
        · exact .step ⟨hfree, hfree⟩ fun _ => ih _ _ _
  unfold judoSend_
  refine Critical.take rfl rfl fun _ => Inside.other hfree hfree fun buffer => ?_
  refine Inside.bind (hloop _ _ _ _ _ _) fun _ => Inside.other hfree hfree fun _ => ?_
  exact Inside.give hfree rfl rfl fun _ => trivial

/-! ## Messages one after the other

The sections of one mutex do not overlap, so what is on the connection is cut into the
sections of the calls, and a section that is over holds a whole message. -/

/-- What one whole call puts on the connection: the packets of its own message. -/
structure WholeMessage (t_node : ssl_node) (t_buffer : Buffer) (n : ℕ) (sent : List (Event Op Ans)) : Prop where
  runs : ∃ tr ret, Prog.Runs (judoSend_ t_node t_buffer n) tr ret ∧ watch onConnection tr = sent
  packets : 64 ≤ t_node.bufferSize → n < 2 ^ 31 → ∃ ps, Packed t_node t_node.bufferSize ps sent
    ∧ ps.length = packetCount t_node.bufferSize n
    ∧ WirePackets t_node.certs t_node.bufferSize (padded t_buffer n) (packetCount t_node.bufferSize n) 0 ps

/-- The calls for packets are all on the connection. -/
theorem Packed.watch_eq {t_node : ssl_node} {packet_buf_size : ℤ} {ps : List (List Byte)} {tr : List (Event Op Ans)}
    (h : Packed t_node packet_buf_size ps tr) : watch onConnection tr = tr := by
  induction h with
  | nil => rfl
  | plain p w hcerts h ih => exact congrArg (List.cons _) ih
  | sealed p r w hcerts h ih => exact congrArg (fun l => _ :: _ :: _ :: l) ih

/-- A call that returns puts its whole message there. -/
theorem wholeMessage_of_runs {t_node : ssl_node} {t_buffer : Buffer} {n : ℕ} {tr : List (Event Op Ans)} {ret : ℤ}
    (hruns : Prog.Runs (judoSend_ t_node t_buffer n) tr ret) : WholeMessage t_node t_buffer n (watch onConnection tr) := by
  refine ⟨⟨tr, ret, hruns, rfl⟩, fun hB hn => ?_⟩
  obtain ⟨buffer, sent, ps, rfl, hpacked, hlen, hall⟩ :=
    sends_judoSend_ hB t_buffer n (inInt32_packetCount hB hn) hruns
  refine ⟨ps, ?_, hlen, hall⟩
  have hsent : watch onConnection (⟨.lock t_node.addr, ()⟩ :: ⟨.new_char t_node.bufferSize, buffer⟩
      :: (sent ++ [⟨.delete_char buffer.1, ()⟩, ⟨.unlock t_node.addr, ()⟩])) = sent := by
    show watch onConnection (sent ++ _) = sent
    rw [watch_append, hpacked.watch_eq]
    exact List.append_nil sent
  rw [hsent]
  exact hpacked

/-- **Messages do not mix.** Any number of calls of `judoSend_` on one node, in any
interleaving: what has been put on the connection is, call by call in some order, what
each of them has put there; that is its whole message, but for the last call of the
order while it has not returned. A call that has returned is in the order. -/
theorem messages_contiguous {t_node : ssl_node} {message : ℕ → Buffer × ℕ} {s : Pool Op Ans ℤ}
    (h : Reach nodeLocks (fun t => judoSend_ t_node (message t).1 (message t).2) s) :
    ∃ order : List ℕ, order.Nodup
      ∧ watch onConnection (s.log.map Prod.snd) = order.flatMap (fun t => watch onConnection (mine t s.log))
      ∧ (∀ t ret, s.left t = .ret ret → t ∈ order)
      ∧ ∀ t ∈ order, ∃ rest, WholeMessage t_node (message t).1 (message t).2 (watch onConnection (mine t s.log) ++ rest)
        ∧ (rest ≠ [] → order.getLast? = some t ∧ ∀ ret, s.left t ≠ .ret ret) := by
  obtain ⟨order, ho⟩ := h.contiguous (fun t => critical_judoSend_ t_node (message t).1 (message t).2)
  refine ⟨order, ho.nodup, ho.log, fun t ret hret => ?_, fun t ht => ?_⟩
  · by_contra ht
    obtain ⟨⟨o, k, hcall, -⟩, -⟩ := ho.before t ht
    rw [hret] at hcall
    cases hcall
  · -- what is left of the call goes on to some end
    obtain ⟨tr, ret, hruns⟩ := Prog.exists_runs (s.left t)
    have hwhole := wholeMessage_of_runs ((h.leads t).runs hruns)
    rw [watch_append] at hwhole
    refine ⟨_, hwhole, fun hne => ?_⟩
    by_cases hhold : s.holder t_node.addr = some t
    · obtain ⟨hlast, hinside⟩ := ho.holding t hhold
      refine ⟨hlast, fun ret hret => ?_⟩
      rw [hret] at hinside
      exact hinside
    · refine absurd ?_ hne
      have hquiet := (ho.done t ht hhold).of_runs hruns
      rw [watch, List.filter_eq_nil_iff]
      intro ev hev
      rw [(hquiet ev hev).2.2]
      exact Bool.false_ne_true

/-- A message of 30 bytes in packets of 64 is two packets. -/
theorem judoSend_two (t_buffer : Buffer) : ∃ first second : Buffer → List Byte, judoSend_ node64 t_buffer (30 : ℕ) =
    .call (.lock 0) fun _ => .call (.new_char 64) fun buffer =>
      .call (.write 5 64 (first buffer.2)) fun _ => .call (.write 5 64 (second buffer.2)) fun _ =>
        .call (.delete_char buffer.1) fun _ => .call (.unlock 0) fun _ => .ret 0 := by
  have hsize : node64.bufferSize = 64 := by decide
  have hpackets : (1 + Int.tdiv ((30 : ℕ) : ℤ) (64 - 40)).toNat = 2 := by decide
  -- the second packet goes on where the first one has left the message, in the same array
  let filled (p : Buffer) : Buffer × ℤ := judoSend_.fill t_buffer 30 24 0 0 ((p.putInt32 0 1).putInt32 4 2)
  refine ⟨fun p => (filled p).1.bytes 64, fun p => (judoSend_.fill t_buffer 30 24 0 (filled p).2
    (((filled p).1.putInt32 0 2).putInt32 4 2)).1.bytes 64, ?_⟩
  unfold judoSend_
  rw [hsize]
  simp only [Prog.op_bind, hpackets]
  rfl

/-- Call 1 has sent both packets of its message, and call 0 has sent the first one of its own. -/
theorem messages_contiguous_two : ∃ s : Pool Op Ans ℤ,
    Reach nodeLocks (fun t => judoSend_ node64 (fun _ => BitVec.ofNat 8 t) (30 : ℕ)) s
      ∧ s.left 1 = .ret 0 ∧ s.holder 0 = some 0
      ∧ (watch onConnection (mine 1 s.log)).length = 2 ∧ (watch onConnection (mine 0 s.log)).length = 1
      ∧ ∃ order : List ℕ, order.Nodup
        ∧ watch onConnection (s.log.map Prod.snd) = order.flatMap (fun t => watch onConnection (mine t s.log))
        ∧ (∀ t ret, s.left t = .ret ret → t ∈ order)
        ∧ ∀ t ∈ order, ∃ rest, WholeMessage node64 (fun _ => BitVec.ofNat 8 t) 30 (watch onConnection (mine t s.log) ++ rest)
          ∧ (rest ≠ [] → order.getLast? = some t ∧ ∀ ret, s.left t ≠ .ret ret) := by
  obtain ⟨first₁, second₁, hsend₁⟩ := judoSend_two fun _ => BitVec.ofNat 8 1
  obtain ⟨first₀, second₀, hsend₀⟩ := judoSend_two fun _ => BitVec.ofNat 8 0
  have h₁ : Reach nodeLocks (fun t => judoSend_ node64 (fun _ => BitVec.ofNat 8 t) (30 : ℕ)) _ := .start
  -- the whole of call 1
  have h₂ := h₁.step (.step 1 (.lock 0) _ () hsend₁ fun _ _ => rfl)
  have h₃ := h₂.step (.step 1 (.new_char 64) _ (7, fun _ => 3) rfl nofun)
  have h₄ := h₃.step (.step 1 (.write 5 64 _) _ (64 : ℤ) rfl nofun)
  have h₅ := h₄.step (.step 1 (.write 5 64 _) _ (64 : ℤ) rfl nofun)
  have h₆ := h₅.step (.step 1 (.delete_char 7) _ () rfl nofun)
  have h₇ := h₆.step (.step 1 (.unlock 0) _ () rfl nofun)
  -- and half of call 0
  have h₈ := h₇.step (.step 0 (.lock 0) _ () (by
    simp only [Function.update_of_ne (zero_ne_one' ℕ)]
    exact hsend₀) fun m hm => by cases hm; rfl)
  have h₉ := h₈.step (.step 0 (.new_char 64) _ (7, fun _ => 5) rfl nofun)
  have h₁₀ := h₉.step (.step 0 (.write 5 64 _) _ (64 : ℤ) rfl nofun)
  refine ⟨_, h₁₀, ?_, rfl, rfl, rfl, @messages_contiguous node64 (fun t => (fun _ => BitVec.ofNat 8 t, 30)) _ h₁₀⟩
  simp only [Function.update_of_ne (one_ne_zero' ℕ), Function.update_self]

end JudoEngine
