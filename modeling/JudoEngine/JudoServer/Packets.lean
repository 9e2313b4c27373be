/-
The packets that `judoSend_` writes, and what `judoRead_` makes of them.

A message of `n` bytes goes out in `1 + n / (B - 40)` packets of `B` bytes. Packet
number `m`, counted from 0, has `m + 1` and the number of packets in its header,
then `B - 40` bytes of the message, padded with zeros behind its end, and 32 bytes
that nobody has written. `IsPackets` says this of the list of packets from number
`m` on, so that the loops of sender and receiver, which both go through that list,
are two inductions over it.
-/
import JudoEngine.JudoServer.Reassembly
import Mathlib.Tactic.Ring

set_option autoImplicit false

open Words

namespace JudoEngine

/-! ## The packets of a message

Packets are described by what their bytes are, apart from the 32 at the end that are left as
they were. Two lists of packets of one message may differ there. -/

/-- The message, followed by zeros. -/
def padded (t_buffer : Buffer) (n : ℕ) : Buffer := fun i => if i < n then t_buffer i else 0

/-- The number of packets of a message of `n` bytes. -/
def packetCount (packet_buf_size : ℤ) (n : ℕ) : ℕ := 1 + n / (packet_buf_size - 40).toNat

/-- When a multiple is in range, so is the factor. -/
theorem inInt32_of_mul {k : ℕ} {packet_buf_size : ℤ} (hB : 1 ≤ packet_buf_size)
    (hfit : InInt32 (k * packet_buf_size)) : InInt32 k := by
  obtain ⟨hlo, hhi⟩ := hfit
  have hle : (k : ℤ) * 1 ≤ k * packet_buf_size := mul_le_mul_of_nonneg_left hB (Int.natCast_nonneg k)
  constructor <;> omega

/-- Packet number `m` of `packets`. -/
def IsPacket (packet_buf_size : ℤ) (message : Buffer) (packets m : ℕ) (l : List Byte) : Prop :=
  ∃ q : Buffer, l = q.bytes packet_buf_size ∧ q.int32 0 = (m + 1 : ℕ) ∧ q.int32 4 = packets
    ∧ payload packet_buf_size q = (List.range (packet_buf_size - 40).toNat).map fun (j : ℕ) =>
      message ((m * (packet_buf_size - 40).toNat + j : ℕ) : ℤ)

/-- The packets from number `m` on. -/
def IsPackets (packet_buf_size : ℤ) (message : Buffer) (packets : ℕ) : ℕ → List (List Byte) → Prop
  | _, [] => True
  | m, l :: ls => IsPacket packet_buf_size message packets m l ∧ IsPackets packet_buf_size message packets (m + 1) ls

/-- What has been written, one block for each `write`. -/
def written (tr : List (Event Op Ans)) : List (List Byte) :=
  tr.filterMap fun ev =>
    match ev.op with
    | .write _ _ data => some data
    | _ => none

@[simp] theorem written_append (tr tr' : List (Event Op Ans)) : written (tr ++ tr') = written tr ++ written tr' :=
  List.filterMap_append ..

/-- Packets are of one size. -/
theorem length_of_isPackets {packet_buf_size : ℤ} {message : Buffer} {packets : ℕ} {ls : List (List Byte)} :
    ∀ {m : ℕ}, IsPackets packet_buf_size message packets m ls → ∀ l ∈ ls, l.length = packet_buf_size.toNat := by
  induction ls with
  | nil => exact fun _ l hl => absurd hl List.not_mem_nil
  | cons l ls ih =>
      rintro m ⟨⟨q, rfl, -⟩, hall⟩ l' hl'
      rcases List.mem_cons.mp hl' with rfl | hl'
      · exact Buffer.length_bytes q _
      · exact ih hall l' hl'

/-! ## The sender

A round stores its payload byte by byte, and zeros from the end of the message on. The index
is at the next payload afterwards, or at the end of the message. -/

/-- The inner loop of `judoSend_` puts the next bytes of the message, and zeros after
its end, behind the header, and touches nothing else. -/
theorem fill_spec (t_buffer : Buffer) (n : ℕ) (k : ℕ) : ∀ (j index : ℤ) (buffer : Buffer), index ≤ n →
    (judoSend_.fill t_buffer n k j index buffer).2 = min (index + k) n
      ∧ ∀ i, (judoSend_.fill t_buffer n k j index buffer).1 i
        = if 8 + j ≤ i ∧ i < 8 + j + k then padded t_buffer n (index + (i - 8 - j)) else buffer i := by
  -- by the bytes that are left; the index stops at the end of the message
  induction k with
  | zero =>
      intro j index buffer hindex
      refine ⟨?_, fun i => ?_⟩
      · simp only [judoSend_.fill, Nat.cast_zero, add_zero]
        exact (min_eq_left hindex).symm
      · rw [if_neg (by omega)]
        rfl
  | succ k ih =>
      intro j index buffer hindex
      rw [judoSend_.fill]
      by_cases hend : index = n
      · rw [if_neg (not_not.mpr hend)]
        obtain ⟨hidx, hbuf⟩ := ih (j + 1) index (buffer.set (8 + j) 0x00) hindex
        refine ⟨by rw [hidx]; omega, fun i => ?_⟩
        rw [hbuf]
        by_cases hi : i = 8 + j
        · subst hi
          rw [if_neg (by omega), Buffer.set_self, if_pos (by omega), padded, if_neg (by omega)]
        · rw [Buffer.set_of_ne _ _ hi]
          by_cases hin : 8 + j ≤ i ∧ i < 8 + j + (k + 1 : ℕ)
          · rw [if_pos hin, if_pos (by omega), padded, if_neg (by omega), padded, if_neg (by omega)]
          · rw [if_neg hin, if_neg (by omega)]
      · rw [if_pos hend]
        obtain ⟨hidx, hbuf⟩ := ih (j + 1) (index + 1) (buffer.set (8 + j) (t_buffer index)) (by omega)
        refine ⟨by rw [hidx]; omega, fun i => ?_⟩
        rw [hbuf]
        by_cases hi : i = 8 + j
        · subst hi
          have hzero : index + (8 + j - 8 - j) = index := by omega
          rw [if_neg (by omega), Buffer.set_self, if_pos (by omega), hzero, padded, if_pos (by omega)]
        · rw [Buffer.set_of_ne _ _ hi]
          by_cases hin : 8 + j ≤ i ∧ i < 8 + j + (k + 1 : ℕ)
          · have hsame : index + 1 + (i - 8 - (j + 1)) = index + (i - 8 - j) := by omega
            rw [if_pos hin, if_pos (by omega), hsame]
          · rw [if_neg hin, if_neg (by omega)]

/-- The packet that a round of `judoSend_` makes. -/
theorem isPacket_fill (t_buffer : Buffer) (n : ℕ) (packet_buf_size : ℤ) {packets m : ℕ}
    (hm : m < packets) (hfit : InInt32 packets) {index : ℤ}
    (hindex : index = min ((m * (packet_buf_size - 40).toNat : ℕ) : ℤ) n) (buffer : Buffer) :
    IsPacket packet_buf_size (padded t_buffer n) packets m
      ((judoSend_.fill t_buffer n (packet_buf_size - 40).toNat 0 index
        ((buffer.putInt32 0 (m + 1 : ℕ)).putInt32 4 packets)).1.bytes packet_buf_size) := by
  obtain ⟨-, hbuf⟩ := fill_spec t_buffer n (packet_buf_size - 40).toNat 0 index
    ((buffer.putInt32 0 (m + 1 : ℕ)).putInt32 4 packets) (by omega)
  have hm' : InInt32 ((m + 1 : ℕ) : ℤ) := by
    obtain ⟨hlo, hhi⟩ := hfit
    constructor <;> omega
  refine ⟨_, rfl, ?_, ?_, ?_⟩
  · -- the header is in front of what is filled in
    refine (Buffer.int32_congr fun j hlo hhi => ?_).trans (Buffer.int32_putInt32 buffer 0 hm')
    rw [hbuf, if_neg (by omega), Buffer.putInt32_of_lt _ _ (by omega)]
  · refine (Buffer.int32_congr fun j hlo hhi => ?_).trans
      (Buffer.int32_putInt32 (buffer.putInt32 0 (m + 1 : ℕ)) 4 hfit)
    rw [hbuf, if_neg (by omega)]
  · refine List.map_congr_left fun j hj => ?_
    rw [List.mem_range] at hj
    rw [hbuf, if_pos (by omega)]
    unfold padded
    split <;> split
    · congr 1
      push_cast
      omega
    · push_cast at *
      omega
    · push_cast at *
      omega
    · rfl

/-- A round takes the next payload of the message, or what is left of it. -/
theorem fill_index (t_buffer : Buffer) {n m : ℕ} {packet_buf_size index : ℤ}
    (hindex : index = min ((m * (packet_buf_size - 40).toNat : ℕ) : ℤ) n) (buffer : Buffer) :
    (judoSend_.fill t_buffer n (packet_buf_size - 40).toNat 0 index buffer).2
      = min (((m + 1) * (packet_buf_size - 40).toNat : ℕ) : ℤ) n := by
  obtain ⟨hnext, -⟩ := fill_spec t_buffer n (packet_buf_size - 40).toNat 0 index buffer (by omega)
  rw [hnext, hindex, Nat.succ_mul]
  push_cast
  omega

/-- The number of packets, as `judoSend_` computes it. -/
theorem cast_packetCount {packet_buf_size : ℤ} (hB : 40 < packet_buf_size) (n : ℕ) :
    (1 : ℤ) + (n : ℤ).tdiv (packet_buf_size - 40) = packetCount packet_buf_size n := by
  have hc : packet_buf_size - 40 = ((packet_buf_size - 40).toNat : ℤ) := by omega
  unfold packetCount
  rw [Int.tdiv_eq_ediv_of_nonneg (Int.natCast_nonneg n)]
  push_cast
  rw [← hc]

/-- The rounds of `judoSend_` from packet `m` on, without certificates. -/
theorem runs_loop {t_node : ssl_node} (hcerts : t_node.certs = false) (t_buffer : Buffer) (n : ℕ)
    (packet_buf_size : ℤ) {packets : ℕ} (hfit : InInt32 packets) (k : ℕ) :
    ∀ (m : ℕ) (index : ℤ) (buffer : Buffer) (tr : List (Event Op Ans)), m + k = packets →
      index = min ((m * (packet_buf_size - 40).toNat : ℕ) : ℤ) n →
      Prog.Runs (judoSend_.loop t_node t_buffer n packet_buf_size packets k (m + 1 : ℕ) index buffer) tr () →
        (written tr).length = k
          ∧ IsPackets packet_buf_size (padded t_buffer n) packets m (written tr) := by
  induction k with
  | zero =>
      rintro m index buffer tr hmk hindex ⟨rfl, -⟩
      exact ⟨rfl, trivial⟩
  | succ k ih =>
      intro m index buffer tr hmk hindex hruns
      rw [judoSend_.loop, hcerts] at hruns
      obtain ⟨x, tr', rfl, hrest⟩ := hruns
      have hindex' := fill_index t_buffer hindex ((buffer.putInt32 0 (m + 1 : ℕ)).putInt32 4 packets)
      obtain ⟨hlen, hall⟩ := ih (m + 1) _ _ tr' (by omega) hindex' hrest
      refine ⟨?_, ?_, hall⟩
      · show (written tr').length + 1 = k + 1
        rw [hlen]
      · exact isPacket_fill t_buffer n packet_buf_size (by omega) hfit hindex buffer

/-- **`judoSend_`** without certificates writes the packets of the message. -/
theorem runs_judoSend_ {t_node : ssl_node} (hcerts : t_node.certs = false) (hB : 40 < t_node.bufferSize)
    (t_buffer : Buffer) (n : ℕ) (hfit : InInt32 (packetCount t_node.bufferSize n))
    {tr : List (Event Op Ans)} {ret : ℤ} (hruns : Prog.Runs (judoSend_ t_node t_buffer n) tr ret) :
    ret = 0 ∧ (written tr).length = packetCount t_node.bufferSize n
      ∧ IsPackets t_node.bufferSize (padded t_buffer n) (packetCount t_node.bufferSize n) 0 (written tr) := by
  have hcount := cast_packetCount hB n
  unfold judoSend_ at hruns
  simp only [hcount, Int.toNat_natCast] at hruns
  rw [Prog.op_bind, Prog.runs_call] at hruns
  obtain ⟨-, tr, rfl, hruns⟩ := hruns
  rw [Prog.op_bind, Prog.runs_call] at hruns
  obtain ⟨buffer, tr, rfl, hruns⟩ := hruns
  obtain ⟨trₗ, tr', _, rfl, hloop, hend⟩ := Prog.runs_bind.mp hruns
  obtain ⟨-, tr', rfl, -, tr', rfl, rfl, rfl⟩ := hend
  obtain ⟨hlen, hall⟩ := runs_loop hcerts t_buffer n t_node.bufferSize hfit (packetCount t_node.bufferSize n) 0 0 buffer.2 trₗ
    (Nat.zero_add _) (by rw [Nat.zero_mul]; omega) hloop
  have hwritten : written (⟨.lock t_node.addr, ()⟩ :: ⟨.new_char t_node.bufferSize, buffer⟩ ::
      (trₗ ++ [⟨.delete_char buffer.1, ()⟩, ⟨.unlock t_node.addr, ()⟩])) = written trₗ :=
    (written_append ..).trans (List.append_nil _)
  rw [hwritten]
  exact ⟨rfl, hlen, hall⟩

/-! ## The receiver

judoRead_ reads a header and a payload out of each packet and nothing else, so it makes the
same of all packets that agree on these. -/

/-- A packet buffer filled by one whole packet has its header and its payload. -/
theorem image_packet {packet_buf_size : ℤ} (hB : 40 ≤ packet_buf_size) (p q : Buffer) :
    (p.fill (q.bytes packet_buf_size)).int32 0 = q.int32 0
      ∧ (p.fill (q.bytes packet_buf_size)).int32 4 = q.int32 4
      ∧ payload packet_buf_size (p.fill (q.bytes packet_buf_size)) = payload packet_buf_size q := by
  refine ⟨Buffer.int32_congr fun j hlo hhi => ?_, Buffer.int32_congr fun j hlo hhi => ?_,
    List.map_congr_left fun j hj => ?_⟩
  · exact Buffer.fill_bytes p q hlo (by omega)
  · exact Buffer.fill_bytes p q (by omega) (by omega)
  · rw [List.mem_range] at hj
    exact Buffer.fill_bytes p q (by omega) (by omega)

/-- A call that is given the packets from number `m` on takes in these packets, up to
the last one and no further. -/
theorem images_packets {packet_buf_size : ℤ} (hB : 40 ≤ packet_buf_size) (message : Buffer) (packets : ℕ)
    (rest plain : List (List Byte)) (ls : List (List Byte)) : ∀ (m : ℕ) (p : Buffer),
      IsPackets packet_buf_size message packets m ls → m + ls.length = packets → ls ≠ [] →
      (images false packet_buf_size (ls ++ rest) plain p).length = ls.length
        ∧ (images false packet_buf_size (ls ++ rest) plain p).flatMap (payload packet_buf_size)
          = ((List.range (ls.length * (packet_buf_size - 40).toNat)).map fun (i : ℕ) =>
            message ((m * (packet_buf_size - 40).toNat + i : ℕ) : ℤ))
        ∧ Complete (images false packet_buf_size (ls ++ rest) plain p)
        ∧ ∃ q ps, images false packet_buf_size (ls ++ rest) plain p = q :: ps ∧ q.int32 4 = packets := by
  -- by the packets: each is taken in, and only the last one ends the call
  induction ls with
  | nil => exact fun m p _ _ hne => absurd rfl hne
  | cons l ls ih =>
      rintro m p ⟨⟨q, rfl, ha, hb, hpay⟩, hall⟩ hlen -
      rw [List.length_cons] at hlen
      obtain ⟨hia, hib, hipay⟩ := image_packet hB p q
      have hne : q.bytes packet_buf_size ≠ [] := by
        rw [← List.length_pos_iff, Buffer.length_bytes]
        omega
      rw [List.cons_append, images, if_neg hne]
      simp only [image, Bool.false_eq_true, if_false]
      rw [hia, hib, ha, hb]
      by_cases hlast : ls = []
      · -- the last packet: `a` and `b` agree
        subst hlast
        rw [List.length_nil] at hlen
        rw [if_pos (by omega)]
        refine ⟨rfl, ?_, ⟨_, List.mem_singleton_self _, ?_⟩, _, _, rfl, by rw [hib, hb]⟩
        · rw [List.flatMap_cons, List.flatMap_nil, List.append_nil, hipay, hpay, List.length_singleton, Nat.one_mul]
        · rw [hia, hib, ha, hb]
          omega
      · have hpos := List.length_pos_iff.mpr hlast
        obtain ⟨hlen', hpays, ⟨q', hq', hab⟩, -⟩ := ih (m + 1)
          ((p.fill (q.bytes packet_buf_size)).set (packet_buf_size - 32) 0) hall (by omega) hlast
        rw [if_neg (by omega)]
        refine ⟨?_, ?_, ⟨q', List.mem_cons_of_mem _ hq', hab⟩, _, _, rfl, by rw [hib, hb]⟩
        · rw [List.length_cons, hlen', List.length_cons]
        · have hrange : (ls.length + 1) * (packet_buf_size - 40).toNat
              = (packet_buf_size - 40).toNat + ls.length * (packet_buf_size - 40).toNat := by
            ring
          rw [List.flatMap_cons, hipay, hpay, hpays, List.length_cons, hrange, List.range_add, List.map_append,
            List.map_map]
          refine congrArg _ (List.map_congr_left fun i _ => ?_)
          refine congrArg message ?_
          push_cast
          ring

/-- What the receiver of a message has in its array: the message, and zeros up to the
end of the last payload. -/
def delivered (packet_buf_size : ℤ) (t_buffer : Buffer) (n : ℕ) : List Byte :=
  t_buffer.bytes n ++ List.replicate (packetCount packet_buf_size n * (packet_buf_size - 40).toNat - n) 0

/-- The payloads of all packets together have room for the message. -/
theorem le_packetCount {packet_buf_size : ℤ} (hB : 40 < packet_buf_size) (n : ℕ) :
    n ≤ packetCount packet_buf_size n * (packet_buf_size - 40).toNat := by
  have hc : 0 < (packet_buf_size - 40).toNat := by omega
  unfold packetCount
  rw [Nat.add_comm, Nat.mul_comm]
  exact (Nat.lt_mul_div_succ n hc).le

/-- The payloads of all packets are the message and the zeros after it. -/
theorem map_padded {packet_buf_size : ℤ} (hB : 40 < packet_buf_size) (t_buffer : Buffer) (n : ℕ) :
    ((List.range (packetCount packet_buf_size n * (packet_buf_size - 40).toNat)).map fun (i : ℕ) =>
      padded t_buffer n i) = delivered packet_buf_size t_buffer n := by
  have hle := le_packetCount hB n
  unfold delivered Buffer.bytes
  rw [Int.toNat_natCast]
  conv_lhs => rw [← Nat.add_sub_cancel' hle, List.range_add, List.map_append, List.map_map]
  congr 1
  · refine List.map_congr_left fun i hi => ?_
    rw [List.mem_range] at hi
    exact if_pos (by omega)
  · rw [List.eq_replicate_iff]
    refine ⟨by rw [List.length_map, List.length_range], fun x hx => ?_⟩
    obtain ⟨i, -, rfl⟩ := List.mem_map.mp hx
    exact if_neg (by push_cast; omega)

/-- Giving the packets of a message to `judoRead_`. -/
theorem exec_packets (server : JudoServer) {t_node : ssl_node} (t_poll : pollfd) (t_out_buf : ℕ)
    (hcerts : t_node.certs = false) (hB : 40 < t_node.bufferSize) (t_buffer : Buffer) (n : ℕ)
    (hfit : InInt32 (packetCount t_node.bufferSize n * t_node.bufferSize)) {ls rest : List (List Byte)}
    (hlen : ls.length = packetCount t_node.bufferSize n)
    (hall : IsPackets t_node.bufferSize (padded t_buffer n) (packetCount t_node.bufferSize n) 0 ls)
    {e : Peer} (hreads : e.reads = ls ++ rest) {fuel : ℕ} (hfuel : e.reads.length < fuel) :
    ∃ tr e', Prog.exec Peer.answer (judoRead_ fuel server t_node t_poll t_out_buf) e
        = (tr, some (server, 0, e.fresh + 1, packetCount t_node.bufferSize n * t_node.bufferSize), e')
      ∧ stores tr = placed (e.fresh + 1) 0 (delivered t_node.bufferSize t_buffer n) ∧ e'.reads = rest := by
  have hne : ls ≠ [] := by
    rw [← List.length_pos_iff, hlen]
    exact Nat.add_pos_left Nat.one_pos _
  -- the first packet announces the whole size, and the loop stops at the one whose index is that
  -- count
  obtain ⟨hcount, hpays, hcomplete, q, ps, hps, hb⟩ := images_packets hB.le (padded t_buffer n)
    (packetCount t_node.bufferSize n) rest e.plain ls 0 (e.mem e.fresh) hall (by omega) hne
  have hpackets : e.packets t_node = images false t_node.bufferSize (ls ++ rest) e.plain (e.mem e.fresh) := by
    rw [Peer.packets, hcerts, hreads]
  obtain ⟨-, hsome⟩ := exec_judoRead_ server t_node t_poll fuel t_out_buf e hfuel
  obtain ⟨-, hread⟩ := hsome q ps (hpackets.trans hps)
  rw [hb, toInt32_of_mem hfit, ← hps] at hread
  obtain ⟨-, hx⟩ := hread (mul_nonneg (Int.natCast_nonneg _) (by omega))
  obtain ⟨hret, hrest⟩ := hx.complete hcomplete
  refine ⟨_, _, Prod.ext rfl (Prod.ext hret rfl), ?_, ?_⟩
  · rw [hx.stores, hpays, hlen, ← map_padded hB]
    simp only [Nat.zero_mul, Nat.zero_add]
  · rw [hrest, hcount, hreads, List.drop_left]

/-! ## The round trip

The sender's packets, one for each read: what the induction of the receiver assumes is what
that of the sender has shown. -/

/-- **Round trip.** The packets that `judoSend_` writes, given to `judoRead_` one for
each read: it returns 0 after exactly the last of them, and has stored the
message and the zeros after it, each byte once and in order. -/
theorem round_trip {f : ℕ} (hf : 6 ≤ f) {s_node r_node : ssl_node} (hs : s_node.certs = false)
    (hr : r_node.certs = false) (hsB : s_node.bufferSize = 2 ^ f) (hrB : r_node.bufferSize = 2 ^ f)
    (t_buffer : Buffer) (n : ℕ) (hfit : InInt32 (packetCount (2 ^ f) n * 2 ^ f)) {tr : List (Event Op Ans)} {ret : ℤ}
    (hsend : Prog.Runs (judoSend_ s_node t_buffer n) tr ret) (server : JudoServer) (t_poll : pollfd)
    (t_out_buf : ℕ) {e : Peer} {rest : List (List Byte)} (hreads : e.reads = written tr ++ rest) {fuel : ℕ}
    (hfuel : e.reads.length < fuel) :
    (written tr).length = packetCount (2 ^ f) n
      ∧ ∃ tr' e', Prog.exec Peer.answer (judoRead_ fuel server r_node t_poll t_out_buf) e
          = (tr', some (server, 0, e.fresh + 1, (packetCount (2 ^ f) n * 2 ^ f : ℤ)), e')
        ∧ stores tr' = placed (e.fresh + 1) 0 (delivered (2 ^ f) t_buffer n) ∧ e'.reads = rest := by
  have hpow : (2 : ℤ) ^ 6 ≤ 2 ^ f := pow_le_pow_right₀ (by norm_num) hf
  have hB : (40 : ℤ) < 2 ^ f := by omega
  -- the header has room for the number of packets
  have hcount : InInt32 (packetCount (2 ^ f) n) := inInt32_of_mul (by omega) hfit
  obtain ⟨-, hlen, hall⟩ := runs_judoSend_ hs (by rw [hsB]; exact hB) t_buffer n (by rw [hsB]; exact hcount) hsend
  rw [hsB] at hlen hall
  rw [← hrB] at hlen hall hfit hB ⊢
  exact ⟨hlen, exec_packets server t_poll t_out_buf hr hB t_buffer n hfit hlen hall hreads hfuel⟩

/-- A message of 30 bytes in two packets of 64. -/
theorem round_trip_two :
    let sent := written (Prog.exec Peer.answer (judoSend_ node64 (fun i => BitVec.ofInt 8 i) 30)
      ⟨[], [], fun _ _ => 3, 0⟩).1
    sent.length = packetCount (2 ^ 6) 30
      ∧ ∃ tr' e', Prog.exec Peer.answer (judoRead_ 4 (.init_ default) node64 ⟨5, 1, 1⟩ 0)
          ⟨sent ++ [[]], [], fun _ _ => 7, 0⟩ = (tr', some (.init_ default, 0, 1, (packetCount (2 ^ 6) 30 * 2 ^ 6 : ℤ)), e')
        ∧ stores tr' = placed 1 0 (delivered (2 ^ 6) (fun i => BitVec.ofInt 8 i) 30) ∧ e'.reads = [[]] :=
  round_trip (le_refl 6) (by decide) (by decide) (by decide) (by decide) (fun i => BitVec.ofInt 8 i) 30 (by decide)
    (Prog.runs_exec ..) (.init_ default) ⟨5, 1, 1⟩ 0 (e := ⟨_, [], fun _ _ => 7, 0⟩) rfl (by decide +kernel)

end JudoEngine
