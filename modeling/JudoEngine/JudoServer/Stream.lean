/-
Messages over a stream of bytes.

TCP keeps bytes, not packets: what `judoSend_` writes arrives as one stream, and
the network decides how many of its bytes each `read` returns. `cut` gives the
blocks that the reads return for a list of sizes, and `receive` the messages that
successive calls of `judoRead_` make of them.

`judoRead_` takes whatever one `read` returns for a packet. So the messages come
out as they went in, for every message and whatever the memory holds, exactly
when every read returns a whole packet, a packet has room for its header and the
32 bytes of TLS, and no message is so long that its packets together do not fit in
an `int32_t` (`delivery_iff`).
-/
import JudoEngine.JudoServer.Wire

set_option autoImplicit false

open Words

namespace JudoEngine

/-! ## The stream

The blocks that the sender writes are joined to one list of bytes, and `cut` makes of
it the blocks that the receiver reads. Nothing but the sizes of the reads is the
network's choice.
-/

/-- The blocks that reads of these sizes return. -/
def cut : List ℕ → List Byte → List (List Byte)
  | [], _ => []
  | r :: sizes, s => s.take r :: cut sizes (s.drop r)

/-- The blocks that sending the messages, one after the other, can write. -/
def Sends (t_node : ssl_node) : List (Buffer × ℕ) → List (List Byte) → Prop
  | [], ls => ls = []
  | m :: ms, ls => ∃ tr ret ls', Prog.Runs (judoSend_ t_node m.1 m.2) tr ret ∧ ls = written tr ++ ls' ∧ Sends t_node ms ls'

/-- What successive calls of `judoRead_` return, up to the first that fails: for each
its `*t_outbuf_size` and the bytes that it has stored. -/
def receive (server : JudoServer) (t_node : ssl_node) (t_poll : pollfd) : ℕ → Peer → List (ℤ × List Byte)
  | 0, _ => []
  | calls + 1, e =>
      let x := Prog.exec Peer.answer (judoRead_ (e.reads.length + 1) server t_node t_poll 0) e
      match x.2.1 with
      | some (_, ret, _, size) =>
          if ret = 0 then (size, (stores x.1).map fun st => st.2.2) :: receive server t_node t_poll calls x.2.2
          else []
      | none => []

/-- What should come out for a message. -/
def received (packet_buf_size : ℤ) (m : Buffer × ℕ) : ℤ × List Byte :=
  (packetCount packet_buf_size m.2 * packet_buf_size, delivered packet_buf_size m.1 m.2)

/-- Messages of up to `n` bytes come out as they went in, whatever they are, for reads
of these sizes that take in the whole stream, and whatever the memory holds. -/
def Delivers (server : JudoServer) (s_node r_node : ssl_node) (t_poll : pollfd) (n : ℕ) (sizes : List ℕ) : Prop :=
  ∀ (ms : List (Buffer × ℕ)) (ls : List (List Byte)) (mem : ℕ → Buffer),
    (∀ m ∈ ms, m.2 ≤ n) → Sends s_node ms ls → ls.flatten.length = sizes.sum →
      receive server r_node t_poll (sizes.length + 1) ⟨cut sizes ls.flatten, [], mem, 0⟩
        = ms.map (received r_node.bufferSize)

/-- The bytes that are stored, in their order. -/
theorem map_placed (out : ℕ) (l : List Byte) : ∀ (index : ℤ), (placed out index l).map (fun st => st.2.2) = l := by
  induction l with
  | nil => exact fun _ => rfl
  | cons x l ih => exact fun index => congrArg (x :: ·) (ih (index + 1))

/-- Whole packets come out of a stream of them. -/
theorem cut_flatten {B : ℕ} (rest : List ℕ) (s : List Byte) (ls : List (List Byte)) (hls : ∀ l ∈ ls, l.length = B) :
    cut (List.replicate ls.length B ++ rest) (ls.flatten ++ s) = ls ++ cut rest s := by
  induction ls with
  | nil => rfl
  | cons l ls ih =>
      have hl := hls l List.mem_cons_self
      rw [List.length_cons, List.replicate_succ, List.cons_append, cut, List.flatten_cons, List.append_assoc,
        List.take_left' hl, List.drop_left' hl, ih fun l' hl' => hls l' (List.mem_cons_of_mem _ hl')]
      rfl

section Connection

variable (server : JudoServer) (t_poll : pollfd) {s_node r_node : ssl_node}

/-- A call that succeeds. -/
theorem receive_cons {e e' : Peer} {calls out : ℕ} {tr : List (Event Op Ans)} {size : ℤ} {l : List Byte}
    (hexec : Prog.exec Peer.answer (judoRead_ (e.reads.length + 1) server r_node t_poll 0) e
      = (tr, some (server, 0, out, size), e')) (hstores : stores tr = placed out 0 l) :
    receive server r_node t_poll (calls + 1) e = (size, l) :: receive server r_node t_poll calls e' := by
  rw [receive, hexec]
  simp only [if_true]
  rw [hstores, map_placed]

/-- What the first message to come out is, when one does. -/
theorem receive_head {e : Peer} {calls : ℕ} {size : ℤ} {l : List Byte} {tail : List (ℤ × List Byte)}
    (h : receive server r_node t_poll calls e = (size, l) :: tail) :
    ∃ q ps, e.packets r_node = q :: ps ∧ Complete (q :: ps) ∧ size = toInt32 (q.int32 4 * r_node.bufferSize)
      ∧ l = (q :: ps).flatMap (payload r_node.bufferSize) := by
  rcases calls with _ | calls
  · exact absurd h.symm (List.cons_ne_nil _ _)
  obtain ⟨hnone, hsome⟩ := exec_judoRead_ server r_node t_poll (e.reads.length + 1) 0 e (Nat.lt_succ_self _)
  rw [receive] at h
  rcases hps : e.packets r_node with _ | ⟨q, ps⟩
  · -- the call has failed
    obtain ⟨⟨server', hret⟩, -⟩ := hnone hps
    simp only [hret] at h
    exact absurd h.symm (List.cons_ne_nil _ _)
  · obtain ⟨hneg, hread⟩ := hsome q ps hps
    by_cases hsize : 0 ≤ toInt32 (q.int32 4 * r_node.bufferSize)
    · obtain ⟨-, hx⟩ := hread hsize
      by_cases hc : Complete (q :: ps)
      · simp only [(hx.complete hc).1, hx.stores, map_placed, if_true] at h
        obtain ⟨hhead, -⟩ := List.cons.inj h
        obtain ⟨rfl, rfl⟩ := Prod.mk.inj hhead
        exact ⟨q, ps, rfl, hc, rfl, rfl⟩
      · obtain ⟨server', hret⟩ := hx.cut hc
        simp only [hret] at h
        exact absurd h.symm (List.cons_ne_nil _ _)
    · simp only [(hneg (by omega)).1] at h
      exact absurd h.symm (List.cons_ne_nil _ _)

/-- A call that fails, or ends the program, is the last one. -/
theorem receive_nil {e : Peer} {calls : ℕ} (h : e.packets r_node = []) :
    receive server r_node t_poll calls e = [] := by
  rcases hr : receive server r_node t_poll calls e with _ | ⟨⟨size, l⟩, tail⟩
  · rfl
  · obtain ⟨q, ps, hps, -⟩ := receive_head server t_poll hr
    rw [h] at hps
    exact absurd hps.symm (List.cons_ne_nil _ _)

/-- Whole packets come out as the messages that they are, and what follows them is
left. The induction is on the messages; each call takes the packets of one. -/
theorem receive_messages (hs : s_node.certs = false) (hr : r_node.certs = false) (hB : 40 < r_node.bufferSize)
    (hsB : s_node.bufferSize = r_node.bufferSize) (calls : ℕ) (rest : List (List Byte)) (ms : List (Buffer × ℕ)) :
    ∀ (ls : List (List Byte)) (e : Peer),
      (∀ m ∈ ms, InInt32 (packetCount r_node.bufferSize m.2 * r_node.bufferSize)) → Sends s_node ms ls →
      e.reads = ls ++ rest →
      ∃ e', e'.reads = rest ∧ e'.mem = e.mem
        ∧ receive server r_node t_poll (ms.length + calls) e
          = ms.map (received r_node.bufferSize) ++ receive server r_node t_poll calls e' := by
  -- on the messages: each is read off the front of the stream and leaves the packets of the rest
  induction ms with
  | nil =>
      rintro ls e hfit rfl hreads
      refine ⟨e, hreads, rfl, ?_⟩
      rw [List.length_nil, Nat.zero_add, List.map_nil, List.nil_append]
  | cons m ms ih =>
      rintro ls e hfit ⟨tr, ret, ls', hruns, rfl, hsends⟩ hreads
      have hm := hfit m List.mem_cons_self
      have hcount : InInt32 (packetCount r_node.bufferSize m.2) := inInt32_of_mul (by omega) hm
      obtain ⟨-, hlen, hall⟩ := runs_judoSend_ hs (by omega) m.1 m.2 (by rw [hsB]; exact hcount) hruns
      rw [hsB] at hlen hall
      rw [List.append_assoc] at hreads
      obtain ⟨tr', e', hexec, hstores, hrest⟩ := exec_packets server t_poll 0 hr hB m.1 m.2 hm hlen hall hreads
        (Nat.lt_succ_self _)
      obtain ⟨e'', hreads'', hmem'', hrec⟩ := ih ls' e' (fun m' hm' => hfit m' (List.mem_cons_of_mem _ hm')) hsends hrest
      refine ⟨e'', hreads'', ?_, ?_⟩
      · rw [hmem'', ← Peer.exec_mem (judoRead_ (e.reads.length + 1) server r_node t_poll 0) e, hexec]
      · rw [List.length_cons, Nat.add_right_comm, receive_cons server t_poll hexec hstores, hrec]
        rfl

/-- What is sent comes in packets of one size: at least one for each message, and all
those of each message. -/
theorem length_of_sends (hs : s_node.certs = false) (hB : 64 ≤ s_node.bufferSize) (ms : List (Buffer × ℕ)) :
    ∀ {ls : List (List Byte)}, (∀ m ∈ ms, m.2 < 2 ^ 31) → Sends s_node ms ls →
      (∀ l ∈ ls, l.length = s_node.bufferSize.toNat) ∧ ms.length ≤ ls.length
        ∧ ∀ m ∈ ms, packetCount s_node.bufferSize m.2 ≤ ls.length := by
  -- on the messages, since no judoSend_ knows what another has written
  induction ms with
  | nil =>
      rintro ls hsize rfl
      exact ⟨fun l hl => absurd hl List.not_mem_nil, le_refl _, fun m hm => absurd hm List.not_mem_nil⟩
  | cons m ms ih =>
      rintro ls hsize ⟨tr, ret, ls', hruns, rfl, hsends⟩
      have hcount := inInt32_packetCount hB (hsize m List.mem_cons_self)
      obtain ⟨-, hlen, hall⟩ := runs_judoSend_ hs (by omega) m.1 m.2 hcount hruns
      obtain ⟨hrest, hle, hparts⟩ := ih (fun m' hm' => hsize m' (List.mem_cons_of_mem _ hm')) hsends
      refine ⟨fun l hl => ?_, ?_, fun m' hm' => ?_⟩
      · rcases List.mem_append.mp hl with hl | hl
        · exact length_of_isPackets hall l hl
        · exact hrest l hl
      · have hpos : 0 < packetCount s_node.bufferSize m.2 := Nat.add_pos_left Nat.one_pos _
        rw [List.length_cons, List.length_append, hlen]
        omega
      · rw [List.length_append, hlen]
        rcases List.mem_cons.mp hm' with rfl | hm'
        · exact Nat.le_add_right _ _
        · have hpart := hparts m' hm'
          omega

/-- Blocks of one size add up. -/
theorem length_flatten_of_length {B : ℕ} {ls : List (List Byte)} (hls : ∀ l ∈ ls, l.length = B) :
    ls.flatten.length = ls.length * B := by
  induction ls with
  | nil => rw [List.flatten_nil, List.length_nil, List.length_nil, Nat.zero_mul]
  | cons l ls ih =>
      rw [List.flatten_cons, List.length_append, hls l List.mem_cons_self,
        ih fun l' hl' => hls l' (List.mem_cons_of_mem _ hl'), List.length_cons, Nat.succ_mul, Nat.add_comm]

/-- A longer message has no fewer packets. -/
theorem packetCount_mono (packet_buf_size : ℤ) {n n' : ℕ} (h : n ≤ n') :
    packetCount packet_buf_size n ≤ packetCount packet_buf_size n' :=
  Nat.add_le_add_left (Nat.div_le_div_right h) 1

/-- The bytes of all packets of a message, in the receiver's arithmetic. -/
theorem cast_packets (n : ℕ) {packet_buf_size : ℤ} (hB : 0 ≤ packet_buf_size) :
    (packetCount packet_buf_size n : ℤ) * packet_buf_size
      = (packetCount packet_buf_size n * packet_buf_size.toNat : ℕ) := by
  rw [Nat.cast_mul, Int.toNat_of_nonneg hB]

/-- With reads of whole packets everything comes out, when no message is too long. -/
theorem delivers_of_whole (hs : s_node.certs = false) (hr : r_node.certs = false) (hB : 64 ≤ r_node.bufferSize)
    (hsB : s_node.bufferSize = r_node.bufferSize) {n : ℕ} (hn : n < 2 ^ 31) {sizes : List ℕ}
    (hshort : packetCount r_node.bufferSize n * r_node.bufferSize < 2 ^ 31 ∨ sizes.sum < 2 ^ 31)
    (hsizes : ∀ r ∈ sizes, r = r_node.bufferSize.toNat) : Delivers server s_node r_node t_poll n sizes := by
  intro ms ls mem hle hsends hlen
  obtain ⟨hls, hms, hparts⟩ := length_of_sends hs (by omega) ms (fun m hm => lt_of_le_of_lt (hle m hm) hn) hsends
  rw [hsB] at hls hparts
  have hsum : sizes.sum = ls.length * r_node.bufferSize.toNat := hlen.symm.trans (length_flatten_of_length hls)
  -- a message has at most as many packets as the longest, and as there are in all
  have hfit : ∀ m ∈ ms, InInt32 (packetCount r_node.bufferSize m.2 * r_node.bufferSize) := by
    intro m hm
    have hlong : packetCount r_node.bufferSize m.2 * r_node.bufferSize.toNat
        ≤ packetCount r_node.bufferSize n * r_node.bufferSize.toNat :=
      Nat.mul_le_mul_right _ (packetCount_mono _ (hle m hm))
    have hall : packetCount r_node.bufferSize m.2 * r_node.bufferSize.toNat ≤ sizes.sum := by
      rw [hsum]
      exact Nat.mul_le_mul_right _ (hparts m hm)
    rw [cast_packets n (by omega)] at hshort
    rw [cast_packets m.2 (by omega), inInt32_natCast]
    rcases hshort with hshort | hshort
    · exact lt_of_le_of_lt hlong (by exact_mod_cast hshort)
    · exact lt_of_le_of_lt hall hshort
  have hrep : sizes = List.replicate sizes.length r_node.bufferSize.toNat := List.eq_replicate_iff.mpr ⟨rfl, hsizes⟩
  have hcount : sizes.length = ls.length := by
    rw [hrep, List.sum_replicate_nat] at hsum
    exact Nat.eq_of_mul_eq_mul_right (by omega) hsum
  have hcut : cut sizes ls.flatten = ls := by
    have hall := cut_flatten [] [] ls hls
    rw [List.append_nil, List.append_nil, ← hcount, ← hrep] at hall
    rw [hall]
    exact List.append_nil ls
  obtain ⟨e', hreads, -, hrec⟩ := receive_messages server t_poll hs hr (by omega) hsB (sizes.length + 1 - ms.length) [] ms ls
    ⟨cut sizes ls.flatten, [], mem, 0⟩ hfit hsends (by rw [hcut, List.append_nil])
  have hcalls : ms.length + (sizes.length + 1 - ms.length) = sizes.length + 1 := by omega
  rw [hcalls] at hrec
  rw [hrec, receive_nil server t_poll (by rw [Peer.packets, hreads]; rfl), List.append_nil]

/-! ## A short read -/

/-- The packet of an empty message, from a sender whose new arrays are zero. -/
def emptyPacket : Buffer := fun i => if i = 0 ∨ i = 4 then 1 else 0

/-- Its header is 1 and 1. -/
theorem putInt32_emptyPacket : (Buffer.putInt32 (Buffer.putInt32 (fun _ => 0) 0 1) 4 1) = emptyPacket := by
  have hone : byteOf 1 0 = 1 ∧ byteOf 1 1 = 0 ∧ byteOf 1 2 = 0 ∧ byteOf 1 3 = 0 := by decide
  obtain ⟨h₀, h₁, h₂, h₃⟩ := hone
  funext i
  unfold Buffer.putInt32 Buffer.set emptyPacket
  rw [h₀, h₁, h₂, h₃]
  simp only [Function.update_apply]
  grind

/-- Sending nothing writes just that. -/
theorem written_empty (hs : s_node.certs = false) :
    written (Prog.exec Peer.answer (judoSend_ s_node (fun _ => 0) (0 : ℕ)) ⟨[], [], fun _ _ => 0, 0⟩).1
      = [emptyPacket.bytes s_node.bufferSize] := by
  have hcount : (1 : ℤ) + ((0 : ℕ) : ℤ).tdiv (s_node.bufferSize - 40) = 1 := by simp
  have hbytes : ∀ k : ℕ, (judoSend_.fill (fun _ => 0) (0 : ℕ) k 0 0 emptyPacket).1 = emptyPacket := by
    intro k
    obtain ⟨-, hbuf⟩ := fill_spec (fun _ => 0) 0 k 0 0 emptyPacket (le_refl _)
    funext i
    rw [hbuf]
    split
    · unfold padded emptyPacket
      rw [if_neg (by omega), if_neg (by omega)]
    · rfl
  unfold judoSend_
  simp only [hcount, Int.toNat_one, judoSend_.loop, hs]
  show [_] = _
  rw [← hbytes (s_node.bufferSize - 40).toNat, ← putInt32_emptyPacket]
  rfl

/-- A sender can send any number of these. -/
theorem sends_empty (hs : s_node.certs = false) (k : ℕ) :
    Sends s_node (List.replicate k (fun _ => 0, 0)) (List.replicate k (emptyPacket.bytes s_node.bufferSize)) := by
  induction k with
  | zero => rfl
  | succ k ih =>
      refine ⟨(Prog.exec Peer.answer (judoSend_ s_node (fun _ => 0) (0 : ℕ)) ⟨[], [], fun _ _ => 0, 0⟩).1, _, _,
        Prog.runs_exec .., ?_, ih⟩
      rw [written_empty hs]
      rfl

/-- What should come out of it. -/
theorem received_empty (packet_buf_size : ℤ) :
    received packet_buf_size (fun _ => 0, 0) = (packet_buf_size, List.replicate (packet_buf_size - 40).toNat 0) := by
  unfold received delivered packetCount Buffer.bytes
  simp

/-- What the first read of a call puts in the packet buffer. -/
theorem packets_cons (hr : r_node.certs = false) {e : Peer} {l : List Byte} {reads : List (List Byte)}
    (hreads : e.reads = l :: reads) (hne : l ≠ []) :
    ∃ ps, e.packets r_node = (e.mem e.fresh).fill l :: ps
      ∧ (((e.mem e.fresh).fill l).int32 0 = ((e.mem e.fresh).fill l).int32 4 → ps = []) := by
  rw [Peer.packets, hr, hreads, images, if_neg hne]
  simp only [image, Bool.false_eq_true, if_false]
  split
  · exact ⟨[], rfl, fun _ => rfl⟩
  · next hab => exact ⟨_, rfl, fun h => absurd h hab⟩

/-- A read that says that it is the last packet ends the call. -/
theorem receive_cons_of_last (hr : r_node.certs = false) {e : Peer} {l : List Byte} {reads : List (List Byte)}
    (hreads : e.reads = l :: reads) (hne : l ≠ [])
    (hlast : ((e.mem e.fresh).fill l).int32 0 = ((e.mem e.fresh).fill l).int32 4)
    (hsize : 0 ≤ toInt32 (((e.mem e.fresh).fill l).int32 4 * r_node.bufferSize)) (calls : ℕ) :
    ∃ e', e'.reads = reads ∧ e'.mem = e.mem ∧ receive server r_node t_poll (calls + 1) e
      = (toInt32 (((e.mem e.fresh).fill l).int32 4 * r_node.bufferSize),
          payload r_node.bufferSize ((e.mem e.fresh).fill l)) :: receive server r_node t_poll calls e' := by
  obtain ⟨ps, hps, hnil⟩ := packets_cons hr hreads hne
  rw [hnil hlast] at hps
  obtain ⟨-, hsome⟩ := exec_judoRead_ server r_node t_poll (e.reads.length + 1) 0 e (Nat.lt_succ_self _)
  obtain ⟨-, hx⟩ := (hsome _ _ hps).2 hsize
  obtain ⟨hret, hrest⟩ := hx.complete ⟨_, List.mem_singleton_self _, hlast⟩
  refine ⟨_, ?_, Peer.exec_mem .., receive_cons server t_poll (Prod.ext rfl (Prod.ext hret rfl)) ?_⟩
  · rw [hrest, hreads]
    rfl
  · rw [hx.stores, List.flatMap_cons, List.flatMap_nil, List.append_nil]

/-- A read that ends inside the payload: the rest of the payload is what the memory
held. -/
theorem receive_ne_of_short (hr : r_node.certs = false) {e : Peer} {l : List Byte} {reads : List (List Byte)}
    (hreads : e.reads = l :: reads) (hne : l ≠ []) (hmem : e.mem = fun _ _ => 3)
    (hshort : l.length + 32 < r_node.bufferSize) (hB : 40 < r_node.bufferSize) (calls : ℕ)
    (tail : List (ℤ × List Byte)) :
    receive server r_node t_poll calls e ≠ received r_node.bufferSize (fun _ => 0, 0) :: tail := by
  intro h
  rw [received_empty] at h
  obtain ⟨q, ps, hps, -, -, hl⟩ := receive_head server t_poll h
  obtain ⟨ps', hps', -⟩ := packets_cons hr hreads hne
  rw [hps'] at hps
  obtain ⟨rfl, -⟩ := List.cons.inj hps
  have hlt : (r_node.bufferSize - 40).toNat - 1 < (payload r_node.bufferSize ((e.mem e.fresh).fill l)).length := by
    rw [length_payload]
    omega
  -- the last byte of the first payload
  have hbyte := congrArg (fun l' => l'[(r_node.bufferSize - 40).toNat - 1]?) hl
  rw [List.flatMap_cons, List.getElem?_append_left hlt, List.getElem?_eq_getElem hlt, getElem_payload,
    List.getElem?_replicate_of_lt (by omega), Buffer.fill_of_ge _ (by omega), hmem] at hbyte
  have hdiff : (0 : Byte) = 3 := Option.some.inj hbyte
  exact absurd hdiff (by decide)

/-- A call that begins with a byte 0 does not return an empty message of one packet. -/
theorem receive_ne_of_shift (hr : r_node.certs = false) {e : Peer} {l : List Byte} {reads : List (List Byte)}
    (hreads : e.reads = (0 :: l) :: reads) {f : ℕ} (hf : 6 ≤ f) (hf' : f ≤ 15) (hB : r_node.bufferSize = 2 ^ f)
    (calls : ℕ) (tail : List (ℤ × List Byte)) :
    receive server r_node t_poll calls e ≠ received r_node.bufferSize (fun _ => 0, 0) :: tail := by
  intro h
  rw [received_empty] at h
  obtain ⟨q, ps, hps, ⟨q', hq', hab⟩, hsize, hl⟩ := receive_head server t_poll h
  obtain ⟨ps', hps', -⟩ := packets_cons hr hreads (List.cons_ne_nil _ _)
  rw [hps'] at hps
  obtain ⟨rfl, rfl⟩ := List.cons.inj hps
  have hpow : (2 : ℤ) ^ 6 ≤ 2 ^ f := pow_le_pow_right₀ (by norm_num) hf
  -- one payload, so one packet
  have hnil : ps' = [] := by
    have hlen := congrArg List.length hl
    rw [length_flatMap_payload, List.length_replicate, List.length_cons, Nat.succ_mul] at hlen
    have hpos : 0 < (r_node.bufferSize - 40).toNat := by omega
    rcases Nat.eq_zero_or_pos ps'.length with h0 | h0
    · exact List.length_eq_zero_iff.mp h0
    · have := Nat.mul_pos h0 hpos
      omega
  subst hnil
  obtain rfl := List.mem_singleton.mp hq'
  -- its first byte is 0, so `a`, and with it `b`, is a multiple of 256
  have hlow : ((e.mem e.fresh).fill (0 :: l)).int32 0 % 256 = 0 := by
    have hzero : (e.mem e.fresh).fill (0 :: l) ((0 : ℕ) : ℤ) = 0 :=
      Buffer.fill_of_lt _ (by rw [List.length_cons]; omega)
    unfold Buffer.int32
    rw [int32Of_emod]
    exact congrArg (fun x : Byte => (x.toNat : ℤ)) hzero
  rw [hab] at hlow
  -- but then the length of the array is another one
  rw [hB] at hsize
  have hdvd := dvd_sub_one_of_toInt32_mul (by omega) hsize.symm
  omega

end Connection

/-- The packet from its sixth byte on. -/
theorem drop_emptyPacket {packet_buf_size : ℤ} {r : ℕ} (hr : 5 ≤ r) :
    (emptyPacket.bytes packet_buf_size).drop r = List.replicate (packet_buf_size.toNat - r) 0 := by
  refine List.eq_replicate_iff.mpr ⟨by rw [List.length_drop, Buffer.length_bytes], fun x hx => ?_⟩
  obtain ⟨i, hi, rfl⟩ := List.getElem_of_mem hx
  rw [List.getElem_drop, Buffer.getElem_bytes]
  exact if_neg (by push_cast; omega)

/-- A buffer filled with its first bytes. -/
theorem fill_emptyPacket (m : Buffer) {packet_buf_size : ℤ} {r : ℕ} (hr : (r : ℤ) ≤ packet_buf_size) {i : ℤ}
    (h0 : 0 ≤ i) (hi : i < r) : m.fill ((emptyPacket.bytes packet_buf_size).take r) i = emptyPacket i := by
  have hlen : i.toNat < ((emptyPacket.bytes packet_buf_size).take r).length := by
    rw [List.length_take, Buffer.length_bytes]
    omega
  have hcast : ((i.toNat : ℕ) : ℤ) = i := Int.toNat_of_nonneg h0
  rw [← hcast, Buffer.fill_of_lt m hlen, List.getElem_take, Buffer.getElem_bytes]

/-- The first read that is not of a whole packet. -/
theorem exists_short {B : ℕ} {sizes : List ℕ} (h : ¬ ∀ r ∈ sizes, r = B) :
    ∃ k r rest, sizes = List.replicate k B ++ r :: rest ∧ r ≠ B := by
  induction sizes with
  | nil => exact absurd (fun r hr => absurd hr List.not_mem_nil) h
  | cons r sizes ih =>
      by_cases hr : r = B
      · obtain ⟨k, r', rest, rfl, hr'⟩ := ih fun hall => h fun r' hr' =>
          (List.mem_cons.mp hr').elim (fun heq => heq.trans hr) (hall r')
        exact ⟨k + 1, r', rest, by rw [hr, List.replicate_succ, List.cons_append], hr'⟩
      · exact ⟨0, r, sizes, rfl, hr⟩

section Cut

variable (server : JudoServer) (t_poll : pollfd) {s_node r_node : ssl_node}

/-- A stream of empty messages, `k` of them read whole: the others are what the calls
after these have to return. -/
theorem receive_rest (hs : s_node.certs = false) (hr : r_node.certs = false) (hB : 40 < r_node.bufferSize)
    (hsB : s_node.bufferSize = r_node.bufferSize) (hfit : InInt32 r_node.bufferSize) {n k j r : ℕ} {rest : List ℕ}
    (hdel : Delivers server s_node r_node t_poll n (List.replicate k r_node.bufferSize.toNat ++ r :: rest))
    (hsum : r + rest.sum = (j + 1) * r_node.bufferSize.toNat) (hlt : r < r_node.bufferSize.toNat) (mem : ℕ → Buffer) :
    ∃ e, e.mem = mem
      ∧ e.reads = (emptyPacket.bytes r_node.bufferSize).take r :: cut rest ((emptyPacket.bytes r_node.bufferSize).drop r
        ++ (List.replicate j (emptyPacket.bytes r_node.bufferSize)).flatten)
      ∧ receive server r_node t_poll (rest.length + 2) e
        = List.replicate (j + 1) (received r_node.bufferSize (fun _ => 0, 0)) := by
  have hfits : ∀ n, ∀ m ∈ List.replicate n ((fun _ => 0, 0) : Buffer × ℕ),
      InInt32 (packetCount r_node.bufferSize m.2 * r_node.bufferSize) := by
    intro n m hm
    obtain rfl := List.eq_of_mem_replicate hm
    simpa [packetCount] using hfit
  have hlen : (emptyPacket.bytes r_node.bufferSize).length = r_node.bufferSize.toNat := Buffer.length_bytes ..
  have hpacket : ∀ n, ∀ l ∈ List.replicate n (emptyPacket.bytes r_node.bufferSize), l.length = r_node.bufferSize.toNat := by
    intro n l hl
    rw [List.eq_of_mem_replicate hl, hlen]
  have hsends := sends_empty hs (k + (j + 1))
  rw [hsB] at hsends
  have hall := hdel _ _ mem (fun m hm => List.eq_of_mem_replicate hm ▸ Nat.zero_le n) hsends (by
    rw [length_flatten_of_length (hpacket _), List.length_replicate, List.sum_append, List.sum_replicate_nat,
      List.sum_cons, hsum, Nat.add_mul])
  -- the stream is cut into the whole packets and the rest
  rw [List.replicate_add, List.flatten_append] at hall
  have hcut := cut_flatten (r :: rest) (List.replicate (j + 1) (emptyPacket.bytes r_node.bufferSize)).flatten
    (List.replicate k (emptyPacket.bytes r_node.bufferSize)) (hpacket k)
  rw [List.length_replicate] at hcut
  rw [hcut] at hall
  have hsends' := sends_empty hs k
  rw [hsB] at hsends'
  obtain ⟨e, hreads, hmem, hrec⟩ := receive_messages server t_poll hs hr hB hsB (rest.length + 2)
    (cut (r :: rest) (List.replicate (j + 1) (emptyPacket.bytes r_node.bufferSize)).flatten)
    (List.replicate k (fun _ => 0, 0)) _ ⟨_, [], mem, 0⟩
    (hfits k) hsends' rfl
  have hcalls : (List.replicate k r_node.bufferSize.toNat ++ r :: rest).length + 1
      = (List.replicate k ((fun _ => 0, 0) : Buffer × ℕ)).length + (rest.length + 2) := by
    rw [List.length_append, List.length_replicate, List.length_replicate, List.length_cons]
    omega
  refine ⟨e, hmem, ?_, ?_⟩
  · rw [hreads, cut, List.replicate_succ, List.flatten_cons, List.take_append_of_le_length (by omega),
      List.drop_append_of_le_length (by omega)]
  · rw [hcalls, hrec, List.replicate_add, List.map_append] at hall
    rw [List.append_cancel_left hall, List.map_replicate]

/-- Zeros in a buffer of zeros. -/
theorem fill_zero (n : ℕ) : Buffer.fill (fun _ => 0) (List.replicate n 0) = fun _ => 0 := by
  funext i
  unfold Buffer.fill
  split
  · rw [List.getD_eq_getElem?_getD, List.getElem?_replicate]
    split <;> rfl
  · rfl

theorem int32_zero (i : ℤ) : Buffer.int32 (fun _ => 0) i = 0 := by
  show int32Of 0 0 0 0 = 0
  decide

/-- A read of the header and the payload of an empty message, but not of all that
follows: the message comes out. -/
theorem receive_short_packet (hr : r_node.certs = false) {e : Peer} {r : ℕ} {reads : List (List Byte)}
    (hreads : e.reads = (emptyPacket.bytes r_node.bufferSize).take r :: reads) (hlo : 8 ≤ r)
    (hhi : (r : ℤ) ≤ r_node.bufferSize) (hfit : InInt32 r_node.bufferSize) (calls : ℕ) :
    ∃ e', e'.reads = reads ∧ e'.mem = e.mem ∧ ∃ m, receive server r_node t_poll (calls + 1) e
      = m :: receive server r_node t_poll calls e' := by
  have hfill : ∀ i, 0 ≤ i → i < 8 →
      (e.mem e.fresh).fill ((emptyPacket.bytes r_node.bufferSize).take r) i = emptyPacket i :=
    fun i h0 hi => fill_emptyPacket _ hhi h0 (by omega)
  have ha : ((e.mem e.fresh).fill ((emptyPacket.bytes r_node.bufferSize).take r)).int32 0 = 1 :=
    (Buffer.int32_congr fun j hlo hhi => hfill j (by omega) (by omega)).trans (by decide)
  have hb : ((e.mem e.fresh).fill ((emptyPacket.bytes r_node.bufferSize).take r)).int32 4 = 1 :=
    (Buffer.int32_congr fun j hlo hhi => hfill j (by omega) (by omega)).trans (by decide)
  obtain ⟨e', hreads', hmem', hrec⟩ := receive_cons_of_last server t_poll hr hreads
    (by rw [← List.length_pos_iff, List.length_take, Buffer.length_bytes]; omega) (ha.trans hb.symm)
    (by rw [hb, one_mul, toInt32_of_mem hfit]; omega) calls
  exact ⟨e', hreads', hmem', _, hrec⟩

/-- **A short read is fatal.** Reads of these sizes, at least one of them not of a whole
packet, do not deliver every sequence of messages. -/
theorem not_delivers_of_short (hs : s_node.certs = false) (hr : r_node.certs = false) {f : ℕ} (hf : 6 ≤ f) (hf' : f ≤ 15)
    (hrB : r_node.bufferSize = 2 ^ f) (hsB : s_node.bufferSize = r_node.bufferSize) {n : ℕ} {sizes : List ℕ}
    (hsizes : ∀ r ∈ sizes, 1 ≤ r ∧ r ≤ r_node.bufferSize.toNat) (hdvd : r_node.bufferSize.toNat ∣ sizes.sum)
    (hshort : ¬ ∀ r ∈ sizes, r = r_node.bufferSize.toNat) : ¬ Delivers server s_node r_node t_poll n sizes := by
  intro hdel
  have hlow : (2 : ℤ) ^ 6 ≤ 2 ^ f := pow_le_pow_right₀ (by norm_num) hf
  have hhigh : (2 : ℤ) ^ f ≤ 2 ^ 15 := pow_le_pow_right₀ (by norm_num) hf'
  have hB : 40 < r_node.bufferSize := by omega
  have hfit : InInt32 r_node.bufferSize := by constructor <;> omega
  obtain ⟨k, r, rest, rfl, hrne⟩ := exists_short hshort
  obtain ⟨h1, hle⟩ := hsizes r (List.mem_append_right _ List.mem_cons_self)
  have hlt : r < r_node.bufferSize.toNat := by omega
  -- the messages after the whole packets
  obtain ⟨j, hsum⟩ : ∃ j, r + rest.sum = (j + 1) * r_node.bufferSize.toNat := by
    obtain ⟨n, hn⟩ := hdvd
    rw [List.sum_append, List.sum_replicate_nat, List.sum_cons, Nat.mul_comm] at hn
    have hdvd' : r_node.bufferSize.toNat ∣ r + rest.sum :=
      (Nat.dvd_add_right (Dvd.intro k rfl)).mp (Dvd.intro n hn.symm)
    obtain ⟨n', hn'⟩ := hdvd'
    have hpos : n' ≠ 0 := by
      rintro rfl
      omega
    exact ⟨n' - 1, by rw [Nat.sub_add_cancel (by omega), hn', Nat.mul_comm]⟩
  by_cases hcase : (r : ℤ) + 32 < r_node.bufferSize
  · -- the read ends inside the payload
    obtain ⟨e, hmem, hreads, hrec⟩ := receive_rest server t_poll hs hr hB hsB hfit hdel hsum hlt (fun _ _ => 3)
    have hlen : ((emptyPacket.bytes r_node.bufferSize).take r).length = r := by
      rw [List.length_take, Buffer.length_bytes]
      omega
    refine receive_ne_of_short server t_poll hr hreads ?_ hmem (by rw [hlen]; exact hcase) hB _ _
      (hrec.trans List.replicate_succ)
    rw [← List.length_pos_iff, hlen]
    exact h1
  · -- the read ends in what follows the payload: this packet comes out as it should
    obtain ⟨e, hmem, hreads, hrec⟩ := receive_rest server t_poll hs hr hB hsB hfit hdel hsum hlt (fun _ _ => 0)
    obtain ⟨e', hreads', hmem', m, hrec'⟩ := receive_short_packet server t_poll hr hreads (by omega) (by omega) hfit
      (rest.length + 1)
    rw [hrec', List.replicate_succ] at hrec
    obtain ⟨-, hrec⟩ := List.cons.inj hrec
    rw [hmem] at hmem'
    -- but the next call begins behind its payload
    obtain ⟨n, hn⟩ : ∃ n, r_node.bufferSize.toNat - r = n + 1 := ⟨r_node.bufferSize.toNat - r - 1, by omega⟩
    rcases rest with _ | ⟨r', rest⟩
    · rw [List.sum_nil, Nat.add_zero] at hsum
      have hmul : r_node.bufferSize.toNat ≤ (j + 1) * r_node.bufferSize.toNat := Nat.le_mul_of_pos_left _ (Nat.succ_pos j)
      omega
    obtain ⟨h1', -⟩ := hsizes r' (List.mem_append_right _ (List.mem_cons_of_mem _ List.mem_cons_self))
    rw [cut, drop_emptyPacket (by omega), hn] at hreads'
    rcases j with _ | j
    · -- which makes one message more
      rw [List.replicate_zero, List.flatten_nil, List.append_nil, List.take_replicate] at hreads'
      have hzero : (e'.mem e'.fresh).fill (List.replicate (min r' (n + 1)) 0) = fun _ => 0 := by
        rw [hmem']
        exact fill_zero _
      obtain ⟨e'', -, -, hrec''⟩ := receive_cons_of_last server t_poll hr hreads'
        (by rw [← List.length_pos_iff, List.length_replicate]; omega) (by rw [hzero, int32_zero, int32_zero])
        (by rw [hzero, int32_zero, zero_mul]; decide) (rest.length + 1)
      exact absurd (hrec''.symm.trans hrec) (List.cons_ne_nil _ _)
    · obtain ⟨r', rfl⟩ : ∃ m, r' = m + 1 := ⟨r' - 1, by omega⟩
      rw [List.replicate_succ, List.cons_append, List.take_succ_cons] at hreads'
      exact receive_ne_of_shift server t_poll hr hreads' hf hf' hrB _ _ (hrec.trans List.replicate_succ)

end Cut

/-! ## Messages that are lost

Whole reads do not save a message that `judoSend_` makes no packets of, which a size
below 40 lets happen, nor one whose packets together have 2^31 bytes: the receiver
then asks `new` for an array of negative length.
-/

section Lost

variable (server : JudoServer) (t_poll : pollfd) {s_node r_node : ssl_node}

/-- A connection whose packets are smaller than their header and what TLS adds: 40
bytes are sent in no packet at all. -/
theorem written_none (hB : s_node.bufferSize < 40) (hB' : 0 < s_node.bufferSize) :
    ∃ tr ret, Prog.Runs (judoSend_ s_node (fun _ => 0) (40 : ℕ)) tr ret ∧ written tr = [] := by
  have hcount : ((1 : ℤ) + ((40 : ℕ) : ℤ).tdiv (s_node.bufferSize - 40)).toNat = 0 := by
    have hneg : s_node.bufferSize - 40 = -(40 - s_node.bufferSize) := by omega
    have hdiv : 1 ≤ (40 : ℤ) / (40 - s_node.bufferSize) := (Int.le_ediv_iff_mul_le (by omega)).mpr (by omega)
    rw [hneg, Int.tdiv_neg, Int.tdiv_eq_ediv_of_nonneg (by norm_num)]
    push_cast
    omega
  refine ⟨_, _, Prog.runs_exec (h := Peer.answer) _ ⟨[], [], fun _ _ => 0, 0⟩, ?_⟩
  unfold judoSend_
  simp only [hcount, judoSend_.loop]
  rfl

/-- Such a message changes nothing in the stream, so it cannot come out. -/
theorem not_delivers_of_small (hs : s_node.certs = false) (hB : s_node.bufferSize < 40) (hB' : 0 < s_node.bufferSize)
    {n : ℕ} (hn : 40 ≤ n) {sizes : List ℕ} (hdvd : s_node.bufferSize.toNat ∣ sizes.sum) :
    ¬ Delivers server s_node r_node t_poll n sizes := by
  intro hdel
  obtain ⟨k, hk⟩ := hdvd
  obtain ⟨tr, ret, hruns, hnone⟩ := written_none hB hB'
  have hsends := sends_empty hs k
  have hlen : (List.replicate k (emptyPacket.bytes s_node.bufferSize)).flatten.length = sizes.sum := by
    rw [length_flatten_of_length fun l hl => by rw [List.eq_of_mem_replicate hl, Buffer.length_bytes],
      List.length_replicate, hk, Nat.mul_comm]
  have hempty : ∀ m ∈ List.replicate k ((fun _ => 0, 0) : Buffer × ℕ), m.2 ≤ n :=
    fun m hm => List.eq_of_mem_replicate hm ▸ Nat.zero_le n
  -- the same stream, with and without the message
  have hwithout := hdel _ _ (fun _ _ => 0) hempty hsends hlen
  have hwith := hdel ((fun _ => 0, 40) :: List.replicate k (fun _ => 0, 0)) _ (fun _ _ => 0)
    (fun m hm => (List.mem_cons.mp hm).elim (fun h => h ▸ hn) (hempty m))
    ⟨tr, ret, _, hruns, by rw [hnone]; rfl, hsends⟩ hlen
  have hcount := congrArg List.length (hwith.symm.trans hwithout)
  rw [List.length_map, List.length_map, List.length_cons] at hcount
  exact Nat.succ_ne_self _ hcount

/-- Below a message of at least so many packets there is one of exactly so many. -/
theorem exists_packetCount_eq {packet_buf_size : ℤ} (hB : 40 < packet_buf_size) {k n : ℕ} (hk : 1 ≤ k)
    (hle : k ≤ packetCount packet_buf_size n) : ∃ m, m ≤ n ∧ packetCount packet_buf_size m = k := by
  unfold packetCount at hle ⊢
  have hpos : 0 < (packet_buf_size - 40).toNat := by omega
  generalize (packet_buf_size - 40).toNat = c at hle hpos ⊢
  refine ⟨(k - 1) * c, (Nat.le_div_iff_mul_le hpos).mp (by omega), ?_⟩
  rw [Nat.mul_div_cancel _ hpos, Nat.add_sub_cancel' hk]

/-- A message of 2^31 bytes of packets: its size comes out negative, or not at all. -/
theorem not_delivers_of_long (hs : s_node.certs = false) (hB : 64 ≤ r_node.bufferSize)
    (hsB : s_node.bufferSize = r_node.bufferSize) {n : ℕ} (hn : n < 2 ^ 31) {sizes : List ℕ} {k j : ℕ}
    (hk : k * r_node.bufferSize = 2 ^ 31) (hlong : k ≤ packetCount r_node.bufferSize n)
    (hsum : sizes.sum = (k + j) * r_node.bufferSize.toNat) : ¬ Delivers server s_node r_node t_poll n sizes := by
  intro hdel
  have hone : 1 ≤ k := by
    rcases Nat.eq_zero_or_pos k with rfl | hpos
    · rw [Nat.cast_zero, zero_mul] at hk
      norm_num at hk
    · exact hpos
  -- a message of just that many packets, and empty ones behind it
  obtain ⟨m, hle, hcount⟩ := exists_packetCount_eq (by omega) hone hlong
  have hm : m < 2 ^ 31 := lt_of_le_of_lt hle hn
  obtain ⟨tr, ret, hruns⟩ : ∃ tr ret, Prog.Runs (judoSend_ s_node (fun _ => 0) m) tr ret :=
    ⟨_, _, Prog.runs_exec (h := Peer.answer) _ ⟨[], [], fun _ _ => 0, 0⟩⟩
  obtain ⟨-, hlen, hall⟩ := runs_judoSend_ hs (by omega) _ m (inInt32_packetCount (by omega) hm) hruns
  rw [hsB, hcount] at hlen
  have hsize : ∀ l ∈ List.replicate j (emptyPacket.bytes s_node.bufferSize), l.length = s_node.bufferSize.toNat := by
    intro l hl
    rw [List.eq_of_mem_replicate hl, Buffer.length_bytes]
  have hall' : ∀ m' ∈ (fun _ => 0, m) :: List.replicate j ((fun _ => 0, 0) : Buffer × ℕ), m'.2 ≤ n := by
    intro m' hm'
    rcases List.mem_cons.mp hm' with rfl | hm'
    · exact hle
    · exact List.eq_of_mem_replicate hm' ▸ Nat.zero_le n
  have hout := hdel _ _ (fun _ _ => 0) hall' ⟨tr, ret, _, hruns, rfl, sends_empty hs j⟩ (by
    rw [List.flatten_append, List.length_append, length_flatten_of_length (length_of_isPackets hall),
      length_flatten_of_length hsize, List.length_replicate, hlen, hsum, hsB, Nat.add_mul])
  -- what `judoRead_` returns as the size is an `int32_t`
  obtain ⟨q, ps, -, -, hsize, -⟩ := receive_head server t_poll hout
  have hfit := toInt32_mem (q.int32 4 * r_node.bufferSize)
  rw [← hsize, hcount, hk] at hfit
  exact absurd hfit.2 (lt_irrefl _)

end Lost

/-- **Delivery and segmentation.** For a way to cut the stream into reads of at most a
packet: all sequences of messages of up to `n` bytes with a stream of that length come
out as they went in, whatever the memory of either side holds, if and only if a packet
has at least 64 bytes, every read returns a whole packet, and the packets of no message
reach 2^31 bytes, because the longest stays below that or the stream does. -/
theorem delivery_iff (server : JudoServer) (t_poll : pollfd) {s_node r_node : ssl_node} (hs : s_node.certs = false)
    (hr : r_node.certs = false) (hsame : s_node.bufferSize = r_node.bufferSize) {n : ℕ} (hn : 40 ≤ n) (hn' : n < 2 ^ 31)
    {sizes : List ℕ} (hsizes : ∀ r ∈ sizes, 1 ≤ r ∧ (r : ℤ) ≤ r_node.bufferSize)
    (hdvd : r_node.bufferSize ∣ (sizes.sum : ℤ)) :
    Delivers server s_node r_node t_poll n sizes ↔
      64 ≤ r_node.bufferSize
        ∧ (packetCount r_node.bufferSize n * r_node.bufferSize < 2 ^ 31 ∨ sizes.sum < 2 ^ 31)
        ∧ ∀ r ∈ sizes, (r : ℤ) = r_node.bufferSize := by
  have hf' : r_node.mode.toNat % 16 ≤ 15 := by omega
  have hpow := r_node.bufferSize_eq
  generalize r_node.mode.toNat % 16 = f at hf' hpow
  have hpos : 0 < r_node.bufferSize := by
    rw [hpow]
    positivity
  have hcast : ((r_node.bufferSize.toNat : ℕ) : ℤ) = r_node.bufferSize := Int.toNat_of_nonneg hpos.le
  have hnat : ∀ r : ℕ, r = r_node.bufferSize.toNat ↔ (r : ℤ) = r_node.bufferSize := by omega
  have hdvd' : r_node.bufferSize.toNat ∣ sizes.sum := by
    rw [← hcast] at hdvd
    exact_mod_cast hdvd
  have hsizes' : ∀ r ∈ sizes, 1 ≤ r ∧ r ≤ r_node.bufferSize.toNat :=
    fun r hr => ⟨(hsizes r hr).1, by have := (hsizes r hr).2; omega⟩
  constructor
  · intro hdel
    by_cases hf : 6 ≤ f
    · have hlow : (2 : ℤ) ^ 6 ≤ 2 ^ f := pow_le_pow_right₀ (by norm_num) hf
      refine ⟨by rw [hpow]; exact hlow, ?_, ?_⟩
      · by_contra hlong
        rw [not_or, not_lt, not_lt] at hlong
        -- 2^31 bytes are a whole number of packets
        have hk : ((2 ^ (31 - f) : ℕ) : ℤ) * r_node.bufferSize = 2 ^ 31 := by
          rw [hpow, Nat.cast_pow, Nat.cast_ofNat, ← pow_add, Nat.sub_add_cancel (by omega)]
        generalize 2 ^ (31 - f) = k at hk
        have hle : k ≤ packetCount r_node.bufferSize n := by
          have hcmp := hk.symm ▸ hlong.1
          exact_mod_cast le_of_mul_le_mul_right hcmp hpos
        obtain ⟨i, hi⟩ := hdvd'
        have hki : k ≤ i := by
          have hcmp : ((k : ℤ) * r_node.bufferSize) ≤ i * r_node.bufferSize := by
            rw [hk, ← hcast, mul_comm]
            exact_mod_cast hi ▸ hlong.2
          exact_mod_cast le_of_mul_le_mul_right hcmp hpos
        refine not_delivers_of_long server t_poll (j := i - k) hs (by rw [hpow]; exact hlow) hsame hn' hk hle ?_ hdel
        rw [Nat.add_sub_cancel' hki, hi, Nat.mul_comm]
      · by_contra hshort
        refine not_delivers_of_short server t_poll hs hr hf hf' hpow hsame hsizes' hdvd' (fun hall => hshort ?_) hdel
        exact fun r hr => (hnat r).mp (hall r hr)
    · -- packets of up to 32 bytes
      have hhigh : (2 : ℤ) ^ f ≤ 2 ^ 5 := pow_le_pow_right₀ (by norm_num) (by omega)
      refine absurd hdel (not_delivers_of_small server t_poll hs (by omega) (by omega) hn ?_)
      rw [hsame]
      exact hdvd'
  · rintro ⟨hB, hlong, hwhole⟩
    exact delivers_of_whole server t_poll hs hr hB hsame hn' hlong fun r hr => (hnat r).mpr (hwhole r hr)

/-- Two reads of 64 bytes. -/
theorem delivery_two : Delivers (.init_ default) node64 node64 ⟨5, 1, 1⟩ (2 ^ 31 - 1) [64, 64] :=
  (delivery_iff (.init_ default) ⟨5, 1, 1⟩ (by decide) (by decide) rfl (by norm_num) (by norm_num) (by decide)
    (by decide)).mpr ⟨by decide, Or.inr (by norm_num), by decide⟩

/-- The packet of an empty message in two reads, of 20 and 44 bytes. The receiver
returns the first 12 bytes of the payload and 12 bytes of what its memory held. -/
theorem short_read_corrupts :
    receive (.init_ default) node64 ⟨5, 1, 1⟩ 3
        ⟨cut [20, 44] (written (Prog.exec Peer.answer (judoSend_ node64 (fun _ => 0) 0)
          ⟨[], [], fun _ _ => 0, 0⟩).1).flatten, [], fun _ _ => 3, 0⟩
      ≠ [received 64 (fun _ => 0, 0)] := by
  decide +kernel

end JudoEngine
