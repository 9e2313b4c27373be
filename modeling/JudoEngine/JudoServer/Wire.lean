/-
What `judoSend_` puts on a connection, with certificates and without.

The sizes come from the mode byte of the node, which the other end may have chosen:
`PacketArithmetic` says what the code needs of them and `packetArithmetic_iff` for
which bytes and message lengths it is so.

A packet goes out by one `write` or, under TLS, by an `SSL_write` of all but its last 32
bytes, a `BIO_read` and a `write` of what that gives. `Packed` is that sequence of calls
for a list of packets, so that what the packets are is said once for both.
-/
import JudoEngine.JudoServer.Connection
import JudoEngine.JudoServer.Packets

set_option autoImplicit false

open Words

namespace JudoEngine

/-! ## The sizes

The three functions compute their sizes by shifts with different masks, so for a mode byte
with other bits than the factor's they do not agree. -/

/-- The size of the buffer that `judoConnect_` allocates for the handshake and the first
message. -/
def ssl_node.connectSize (t_node : ssl_node) : ℤ := shiftOne (0x3F &&& t_node.mode)

/-- What the three functions that take sizes from a node's mode byte need for a message
of `t_size` bytes: shifts by less than 31, one packet size, a positive payload, a number
of packets and of bytes in them that are in range, and room for what is stored at fixed
offsets: the seven bytes of the first message, the header, and the byte that
`judoRead_` clears. -/
structure PacketArithmetic (t_node : ssl_node) (t_size : ℕ) : Prop where
  counts : (0x3F &&& t_node.mode).toNat < 31 ∧ (t_node.mode &&& 0xCF).toNat < 31
  same : t_node.connectSize = t_node.bufferSize
  payload : 0 < t_node.bufferSize - 40
  packets : 1 ≤ 1 + (t_size : ℤ).tdiv (t_node.bufferSize - 40)
  product : InInt32 ((1 + (t_size : ℤ).tdiv (t_node.bufferSize - 40)) * t_node.bufferSize)
  first : 7 ≤ t_node.connectSize
  header : 8 ≤ t_node.bufferSize
  terminator : 0 ≤ t_node.bufferSize - 32 ∧ t_node.bufferSize - 32 < t_node.bufferSize

/-- The mask keeps the certificate bits, which are multiples of 32. -/
theorem ssl_node.bufferSize_eq (t_node : ssl_node) : t_node.bufferSize = 2 ^ (t_node.mode.toNat % 16) := by
  have hall : ∀ mode : Byte, shiftOne (mode &&& 0xCF) = 2 ^ (mode.toNat % 16) := by decide +kernel
  exact hall t_node.mode

/-- The one size of a packet that has room for what follows a payload and for no payload. -/
theorem ssl_node.bufferSize_eq_32 (t_node : ssl_node) (hlo : 32 ≤ t_node.bufferSize) (hhi : t_node.bufferSize ≤ 40) :
    t_node.bufferSize = 32 := by
  rw [ssl_node.bufferSize_eq] at hlo hhi ⊢
  have hlt : t_node.mode.toNat % 16 < 6 := by
    by_contra hge
    have hpow : (2 : ℤ) ^ 6 ≤ 2 ^ (t_node.mode.toNat % 16) := pow_le_pow_right₀ (by norm_num) (not_lt.mp hge)
    omega
  have hgt : 4 < t_node.mode.toNat % 16 := by
    by_contra hle
    have hpow : (2 : ℤ) ^ (t_node.mode.toNat % 16) ≤ 2 ^ 4 := pow_le_pow_right₀ (by norm_num) (not_lt.mp hle)
    omega
  have heq : t_node.mode.toNat % 16 = 5 := by omega
  rw [heq]
  norm_num

/-- Shifts that are defined and agree leave the buffer factor only. -/
theorem counts_iff (mode : Byte) : ((0x3F &&& mode).toNat < 31 ∧ (mode &&& 0xCF).toNat < 31
    ∧ shiftOne (0x3F &&& mode) = shiftOne (mode &&& 0xCF)) ↔ mode.toNat < 16 := by
  have hall : ∀ mode : Byte, ((0x3F &&& mode).toNat < 31 ∧ (mode &&& 0xCF).toNat < 31
      ∧ shiftOne (0x3F &&& mode) = shiftOne (mode &&& 0xCF)) ↔ mode.toNat < 16 := by decide +kernel
  exact hall mode

/-- When all packets of a message together are less than 2^31 bytes. -/
theorem product_iff {f : ℕ} (hf : 6 ≤ f) (hf' : f ≤ 15) (t_size : ℕ) :
    InInt32 ((1 + (t_size : ℤ).tdiv (2 ^ f - 40)) * 2 ^ f) ↔ t_size < (2 ^ (31 - f) - 1) * (2 ^ f - 40) := by
  have hpow : 2 ^ 6 ≤ 2 ^ f := Nat.pow_le_pow_right (by norm_num) hf
  have hsplit : 2 ^ (31 - f) * 2 ^ f = 2 ^ 31 := by rw [← pow_add, Nat.sub_add_cancel (by omega)]
  have hpos : 0 < 2 ^ f := by positivity
  -- all in natural numbers, where the bound on the product is one on the number of packets
  have hcast : ((2 : ℤ) ^ f - 40) = ((2 ^ f - 40 : ℕ) : ℤ) := by
    rw [Nat.cast_sub (by omega)]
    norm_num
  have hproduct : (1 + (t_size : ℤ).tdiv (2 ^ f - 40)) * 2 ^ f = (((1 + t_size / (2 ^ f - 40)) * 2 ^ f : ℕ) : ℤ) := by
    rw [Int.tdiv_eq_ediv_of_nonneg (Int.natCast_nonneg t_size), hcast]
    push_cast
    rfl
  have hdiv : t_size < (2 ^ (31 - f) - 1) * (2 ^ f - 40) ↔ t_size / (2 ^ f - 40) < 2 ^ (31 - f) - 1 := by
    rw [Nat.div_lt_iff_lt_mul (by omega)]
  rw [hproduct, hdiv]
  constructor
  · rintro ⟨-, hlt⟩
    have hlt' : (1 + t_size / (2 ^ f - 40)) * 2 ^ f < 2 ^ (31 - f) * 2 ^ f := by
      rw [hsplit]
      exact_mod_cast hlt
    have hcount : 1 + t_size / (2 ^ f - 40) < 2 ^ (31 - f) := Nat.lt_of_mul_lt_mul_right hlt'
    exact Nat.lt_sub_of_add_lt (by rw [Nat.add_comm]; exact hcount)
  · intro hlt
    have hcount : 1 + t_size / (2 ^ f - 40) < 2 ^ (31 - f) := by
      generalize t_size / (2 ^ f - 40) = k at hlt
      omega
    have hlt' := Nat.mul_lt_mul_of_pos_right hcount hpos
    rw [hsplit] at hlt'
    refine ⟨?_, by exact_mod_cast hlt'⟩
    exact le_trans (by norm_num) (Int.natCast_nonneg _)

/-- What 64 bytes have room for. -/
theorem room {packet_buf_size : ℤ} (hB : 64 ≤ packet_buf_size) : 0 < packet_buf_size - 40 ∧ 7 ≤ packet_buf_size
    ∧ 8 ≤ packet_buf_size ∧ 0 ≤ packet_buf_size - 32 ∧ packet_buf_size - 32 < packet_buf_size := by
  omega

/-- **The sizes.** They are as the code needs them for a mode byte without certificate
bits and with a buffer factor from 6 to 15, as long as all packets together are less
than 2^31 bytes; and for no other byte. -/
theorem packetArithmetic_iff (t_node : ssl_node) (t_size : ℕ) : PacketArithmetic t_node t_size ↔
    6 ≤ t_node.mode.toNat ∧ t_node.mode.toNat ≤ 15
      ∧ t_size < (2 ^ (31 - t_node.mode.toNat) - 1) * (2 ^ t_node.mode.toNat - 40) := by
  constructor
  · intro h
    -- the shift counts allow factors below 16 only, and the payload none below 6
    have hmode : t_node.mode.toNat < 16 := (counts_iff t_node.mode).mp ⟨h.counts.1, h.counts.2, h.same⟩
    have hsize : t_node.bufferSize = 2 ^ t_node.mode.toNat := by
      rw [t_node.bufferSize_eq, Nat.mod_eq_of_lt hmode]
    have hpayload := h.payload
    have hproduct := h.product
    rw [hsize] at hpayload hproduct
    have hfactor : 6 ≤ t_node.mode.toNat := by
      by_contra hlow
      have hle : (2 : ℤ) ^ t_node.mode.toNat ≤ 2 ^ 5 := pow_le_pow_right₀ (by norm_num) (by omega)
      omega
    exact ⟨hfactor, by omega, (product_iff hfactor (by omega) t_size).mp hproduct⟩
  · rintro ⟨hlo, hhi, hlt⟩
    have hsize : t_node.bufferSize = 2 ^ t_node.mode.toNat := by
      rw [t_node.bufferSize_eq, Nat.mod_eq_of_lt (by omega)]
    obtain ⟨hleft, hright, hsame⟩ := (counts_iff t_node.mode).mpr (by omega)
    have hpow : (64 : ℤ) ≤ 2 ^ t_node.mode.toNat := by
      calc (64 : ℤ) = 2 ^ 6 := by norm_num
        _ ≤ 2 ^ t_node.mode.toNat := pow_le_pow_right₀ (by norm_num) hlo
    have hproduct := (product_iff hlo hhi t_size).mpr hlt
    rw [← hsize] at hpow hproduct
    obtain ⟨hpayload, hfirst, hheader, hterminator⟩ := room hpow
    have hcount : 0 ≤ (t_size : ℤ).tdiv (t_node.bufferSize - 40) :=
      Int.tdiv_nonneg (Int.natCast_nonneg t_size) hpayload.le
    exact {
      counts := ⟨hleft, hright⟩
      same := hsame
      payload := hpayload
      packets := le_add_of_nonneg_right hcount
      product := hproduct
      first := hfirst.trans (le_of_eq hsame.symm)
      header := hheader
      terminator := hterminator }

/-- A node of a server that requires its own certificate: the shift counts that
`judoSend_` and `judoRead_` use have the bit of the certificate in them. -/
theorem packetArithmetic_certs : ∃ server : JudoServer, server.m_buffer_factor = 10
    ∧ ∃ t_node : ssl_node, t_node.mode = server.connectionMode ∧ ¬ PacketArithmetic t_node 0 := by
  refine ⟨{ JudoServer.init_ default with m_mode := JUDO_MODE_SSL_ENABLED ||| JUDO_MODE_SERVER_CERTS_REQ }, rfl,
    { (default : ssl_node) with mode := 0x4A }, by decide, fun h => ?_⟩
  have hcount := h.counts.2
  exact absurd hcount (by decide)

/-! ## The calls for a list of packets

With TLS a packet is three operations, without it one. What the packets are does not depend on
this. -/

/-- The calls that put these packets on the connection: what each of them is made of, and
what is written for it. -/
inductive Packed (t_node : ssl_node) (packet_buf_size : ℤ) : List (List Byte) → List (Event Op Ans) → Prop where
  | nil : Packed t_node packet_buf_size [] []
  | plain {ps : List (List Byte)} {tr : List (Event Op Ans)} (p : List Byte) (w : ℤ) (hcerts : t_node.certs = false)
      (h : Packed t_node packet_buf_size ps tr) :
      Packed t_node packet_buf_size (p :: ps) (⟨.write t_node.fp packet_buf_size p, w⟩ :: tr)
  | sealed {ps : List (List Byte)} {tr : List (Event Op Ans)} (p : List Byte) (r : Option (List Byte)) (w : ℤ)
      (hcerts : t_node.certs = true) (h : Packed t_node packet_buf_size ps tr) :
      Packed t_node packet_buf_size (p :: ps) (⟨.SSL_write t_node.ssl p, ()⟩
        :: ⟨.BIO_read t_node.write_bio packet_buf_size, r⟩ :: ⟨.write t_node.fp (bytesRead r) (r.getD []), w⟩ :: tr)

/-- The size of what a packet is made of. -/
def packetSize (certs : Bool) (packet_buf_size : ℤ) : ℤ := if certs then packet_buf_size - 32 else packet_buf_size

/-- The two numbers in front of a packet. -/
def header (p : List Byte) : ℤ × ℤ :=
  (Buffer.int32 (fun i => p.getD i.toNat 0) 0, Buffer.int32 (fun i => p.getD i.toNat 0) 4)

/-- The bytes of the message in it. -/
def payloadField (packet_buf_size : ℤ) (p : List Byte) : List Byte := (p.drop 8).take (packet_buf_size - 40).toNat

/-- Packet number `m` of `packets`, as a list of bytes. -/
structure WirePacket (certs : Bool) (packet_buf_size : ℤ) (message : Buffer) (packets m : ℕ) (p : List Byte) : Prop where
  length : (p.length : ℤ) = packetSize certs packet_buf_size
  header : header p = (((m + 1 : ℕ) : ℤ), (packets : ℤ))
  payload : payloadField packet_buf_size p = (List.range (packet_buf_size - 40).toNat).map fun (j : ℕ) =>
    message ((m * (packet_buf_size - 40).toNat + j : ℕ) : ℤ)

/-- The packets from number `m` on. -/
def WirePackets (certs : Bool) (packet_buf_size : ℤ) (message : Buffer) (packets : ℕ) : ℕ → List (List Byte) → Prop
  | _, [] => True
  | m, p :: ps => WirePacket certs packet_buf_size message packets m p
      ∧ WirePackets certs packet_buf_size message packets (m + 1) ps

/-- What is read back from bytes is what the buffer has there. -/
theorem getD_bytes (q : Buffer) {n : ℤ} {i : ℤ} (h0 : 0 ≤ i) (hi : i < n) : (q.bytes n).getD i.toNat 0 = q i := by
  have hlen : i.toNat < (q.bytes n).length := by
    rw [Buffer.length_bytes]
    omega
  rw [List.getD_eq_getElem _ _ hlen, Buffer.getElem_bytes, Int.toNat_of_nonneg h0]

/-- The header, and the payload, of bytes out of a buffer. -/
theorem header_bytes (q : Buffer) {n : ℤ} (hn : 8 ≤ n) : header (q.bytes n) = (q.int32 0, q.int32 4) := by
  unfold header
  rw [Prod.mk.injEq]
  constructor
  · apply Buffer.int32_congr
    intro i hlo hhi
    exact getD_bytes q hlo (by omega)
  · apply Buffer.int32_congr
    intro i hlo hhi
    exact getD_bytes q (by omega) (by omega)

theorem payloadField_bytes (q : Buffer) {packet_buf_size n : ℤ} (hB : 40 ≤ packet_buf_size) (hn : packet_buf_size - 32 ≤ n) :
    payloadField packet_buf_size (q.bytes n) = payload packet_buf_size q := by
  apply List.ext_getElem
  · rw [payloadField, List.length_take, List.length_drop, Buffer.length_bytes, length_payload]
    omega
  · intro k hk hk'
    rw [getElem_payload]
    simp only [payloadField, List.getElem_take, List.getElem_drop, Buffer.getElem_bytes]
    push_cast
    rfl

/-- Bytes that a buffer has been filled with. -/
theorem bytes_fill (m : Buffer) (r : Option (List Byte)) : (m.fill (r.getD [])).bytes (bytesRead r) = r.getD [] := by
  cases r with
  | none => rfl
  | some l =>
      apply List.ext_getElem
      · rw [Buffer.length_bytes]
        exact Int.toNat_natCast l.length
      · intro k hk hk'
        rw [Buffer.getElem_bytes]
        exact Buffer.fill_of_lt m hk'

/-! ## What `judoSend_` sends

The rounds of the loop, as in the sender of packets, but for either kind of connection. -/

/-- A buffer that has a packet in its first `packet_buf_size` bytes has it in what goes
out, also where that leaves out the last 32. -/
theorem wirePacket_of_isPacket (certs : Bool) {packet_buf_size : ℤ} (hB : 64 ≤ packet_buf_size) {message q : Buffer}
    {packets m : ℕ} (h : IsPacket packet_buf_size message packets m (q.bytes packet_buf_size)) :
    WirePacket certs packet_buf_size message packets m (q.bytes (packetSize certs packet_buf_size)) := by
  obtain ⟨q', hq, hone, htwo, hpay⟩ := h
  have hsize : packet_buf_size - 32 ≤ packetSize certs packet_buf_size ∧ 8 ≤ packetSize certs packet_buf_size := by
    unfold packetSize
    split <;> omega
  have hheads : header (q.bytes (packetSize certs packet_buf_size)) = header (q'.bytes packet_buf_size) := by
    rw [← hq, header_bytes q hsize.2, header_bytes q (by omega)]
  have hpays : payloadField packet_buf_size (q.bytes (packetSize certs packet_buf_size))
      = payloadField packet_buf_size (q'.bytes packet_buf_size) := by
    rw [← hq, payloadField_bytes q (by omega) hsize.1, payloadField_bytes q (by omega) (by omega)]
  constructor
  · rw [Buffer.length_bytes, Int.toNat_of_nonneg (by omega)]
  · rw [hheads, header_bytes q' (by omega), hone, htwo]
  · rw [hpays, payloadField_bytes q' (by omega) (by omega), hpay]

/-- The rounds of `judoSend_` from packet `m` on. -/
theorem sends_loop {t_node : ssl_node} {packet_buf_size : ℤ} (hB : 64 ≤ packet_buf_size) (t_buffer : Buffer) (n : ℕ) {packets : ℕ} (hfit : InInt32 packets) (k : ℕ) :
    ∀ (m : ℕ) (index : ℤ) (buffer : Buffer) (tr : List (Event Op Ans)),
      m + k = packets → index = min ((m * (packet_buf_size - 40).toNat : ℕ) : ℤ) n →
      Prog.Runs (judoSend_.loop t_node t_buffer n packet_buf_size packets k (m + 1 : ℕ) index buffer) tr () →
        ∃ ps, Packed t_node packet_buf_size ps tr ∧ ps.length = k
          ∧ WirePackets t_node.certs packet_buf_size (padded t_buffer n) packets m ps := by
  induction k with
  | zero =>
      rintro m index buffer tr hmk hindex ⟨rfl, -⟩
      exact ⟨[], .nil, rfl, trivial⟩
  | succ k ih =>
      intro m index buffer tr hmk hindex hruns
      have hindex' := fill_index t_buffer hindex ((buffer.putInt32 0 (m + 1 : ℕ)).putInt32 4 packets)
      -- what the packet has on the wire does not depend on the way it is sent
      have hpacket := wirePacket_of_isPacket t_node.certs hB
        (isPacket_fill t_buffer n packet_buf_size (by omega) hfit hindex buffer)
      rw [judoSend_.loop] at hruns
      dsimp only at hruns
      generalize judoSend_.fill t_buffer n (packet_buf_size - 40).toNat 0 index
        ((buffer.putInt32 0 (m + 1 : ℕ)).putInt32 4 packets) = filled at hruns hindex' hpacket
      cases hcerts : t_node.certs with
      | false =>
          rw [hcerts] at hpacket ih
          rw [if_neg (by rw [hcerts]; exact Bool.false_ne_true)] at hruns
          obtain ⟨w, tr', rfl, hrest⟩ := Prog.runs_step.mp hruns
          obtain ⟨ps, hsends, hlen, hall⟩ := ih (m + 1) _ _ tr' (by omega) hindex' hrest
          exact ⟨_, .plain _ w hcerts hsends, by rw [List.length_cons, hlen], hpacket, hall⟩
      | true =>
          rw [hcerts] at hpacket ih
          rw [if_pos hcerts] at hruns
          obtain ⟨-, tr₁, rfl, hread⟩ := Prog.runs_step.mp hruns
          obtain ⟨r, tr₂, rfl, hwrite⟩ := Prog.runs_step.mp hread
          obtain ⟨w, tr₃, rfl, hrest⟩ := Prog.runs_step.mp hwrite
          obtain ⟨ps, hsends, hlen, hall⟩ := ih (m + 1) _ _ tr₃ (by omega) hindex' hrest
          rw [bytes_fill]
          exact ⟨_, .sealed _ r w hcerts hsends, by rw [List.length_cons, hlen], hpacket, hall⟩

/-- Each of them is a packet of its number. -/
theorem WirePackets.getElem {certs : Bool} {packet_buf_size : ℤ} {message : Buffer} {packets : ℕ} {ps : List (List Byte)} :
    ∀ {m : ℕ}, WirePackets certs packet_buf_size message packets m ps → ∀ i (hi : i < ps.length),
      WirePacket certs packet_buf_size message packets (m + i) ps[i] := by
  induction ps with
  | nil => exact fun _ i hi => absurd hi (Nat.not_lt_zero i)
  | cons p ps ih =>
      rintro m ⟨hp, hall⟩ i hi
      cases i with
      | zero => exact hp
      | succ i =>
          have hrest := ih hall i (Nat.lt_of_succ_lt_succ hi)
          rw [Nat.add_right_comm, Nat.add_assoc] at hrest
          exact hrest

/-- The payloads, one after the other. -/
theorem WirePackets.flatMap {certs : Bool} {packet_buf_size : ℤ} {message : Buffer} {packets : ℕ}
    {ps : List (List Byte)} : ∀ {m : ℕ}, WirePackets certs packet_buf_size message packets m ps →
      ps.flatMap (payloadField packet_buf_size) = (List.range (ps.length * (packet_buf_size - 40).toNat)).map fun (i : ℕ) =>
        message ((m * (packet_buf_size - 40).toNat + i : ℕ) : ℤ) := by
  induction ps with
  | nil =>
      intro m _
      rw [List.length_nil, Nat.zero_mul]
      rfl
  | cons p ps ih =>
      rintro m ⟨hp, hall⟩
      have hrange : (ps.length + 1) * (packet_buf_size - 40).toNat
          = (packet_buf_size - 40).toNat + ps.length * (packet_buf_size - 40).toNat := by
        ring
      rw [List.flatMap_cons, hp.payload, ih hall, List.length_cons, hrange, List.range_add, List.map_append, List.map_map]
      refine congrArg _ (List.map_congr_left fun i _ => ?_)
      refine congrArg message ?_
      push_cast
      ring

/-- **`judoSend_`**, with certificates and without, between the lock and the unlock: the
packets of the message. -/
theorem sends_judoSend_ {t_node : ssl_node} (hB : 64 ≤ t_node.bufferSize) (t_buffer : Buffer) (n : ℕ)
    (hfit : InInt32 (packetCount t_node.bufferSize n)) {tr : List (Event Op Ans)} {ret : ℤ}
    (hruns : Prog.Runs (judoSend_ t_node t_buffer n) tr ret) :
    ∃ (buffer : ℕ × Buffer) (sent : List (Event Op Ans)) (ps : List (List Byte)),
      tr = ⟨.lock t_node.addr, ()⟩ :: ⟨.new_char t_node.bufferSize, buffer⟩
        :: (sent ++ [⟨.delete_char buffer.1, ()⟩, ⟨.unlock t_node.addr, ()⟩])
      ∧ Packed t_node t_node.bufferSize ps sent ∧ ps.length = packetCount t_node.bufferSize n
      ∧ WirePackets t_node.certs t_node.bufferSize (padded t_buffer n) (packetCount t_node.bufferSize n) 0 ps := by
  have hcount := cast_packetCount (show 40 < t_node.bufferSize by omega) n
  unfold judoSend_ at hruns
  simp only [hcount, Int.toNat_natCast] at hruns
  obtain ⟨-, tr₁, rfl, hnew⟩ := Prog.runs_step.mp hruns
  obtain ⟨buffer, tr₂, rfl, hbody⟩ := Prog.runs_step.mp hnew
  obtain ⟨sent, tr₃, _, rfl, hloop, hend⟩ := Prog.runs_bind.mp hbody
  obtain ⟨-, tr₄, rfl, -, tr₅, rfl, rfl, -⟩ := hend
  obtain ⟨ps, hsends, hlen, hall⟩ := sends_loop hB t_buffer n hfit (packetCount t_node.bufferSize n) 0 0 buffer.2 sent
    (Nat.zero_add _) (by rw [Nat.zero_mul]; omega) hloop
  exact ⟨buffer, sent, ps, rfl, hsends, hlen, hall⟩

/-! ## What `judoSend_` reads

The indices at which it reads the message are computed along the loop, to see that all of them
are inside. -/

/-- The indices at which the inner loop of `judoSend_` reads the message. -/
def judoSend_.fillReads (t_size : ℤ) : ℕ → (index : ℤ) → List ℤ
  | 0, _ => []
  | n + 1, index =>
      if index ≠ t_size then index :: fillReads t_size n (index + 1)
      else fillReads t_size n index

/-- The indices at which `n` rounds of `judoSend_` read it. -/
def judoSend_.reads (t_size buffer_size : ℤ) : ℕ → (index : ℤ) → List ℤ
  | 0, _ => []
  | n + 1, index =>
      let now := fillReads t_size (buffer_size - 40).toNat index
      now ++ reads t_size buffer_size n (index + now.length)

/-- Nothing else of the message is looked at ... -/
theorem fill_congr {t_buffer t_buffer' : Buffer} {t_size : ℤ} (k : ℕ) : ∀ (j index : ℤ) (buffer : Buffer),
    (∀ i ∈ judoSend_.fillReads t_size k index, t_buffer' i = t_buffer i) →
      judoSend_.fill t_buffer' t_size k j index buffer = judoSend_.fill t_buffer t_size k j index buffer
        ∧ (judoSend_.fill t_buffer t_size k j index buffer).2 = index + (judoSend_.fillReads t_size k index).length := by
  -- on the bytes of the payload field: one that is in the message is read, the others are padding
  induction k with
  | zero => exact fun j index buffer _ => ⟨rfl, (add_zero index).symm⟩
  | succ k ih =>
      intro j index buffer hsame
      rw [judoSend_.fill, judoSend_.fill]
      rw [judoSend_.fillReads] at hsame ⊢
      split at hsame
      · next hend =>
          rw [if_pos hend, if_pos hend, if_pos hend, hsame index List.mem_cons_self]
          obtain ⟨heq, hindex⟩ := ih (j + 1) (index + 1) (buffer.set (8 + j) (t_buffer index))
            fun i hi => hsame i (List.mem_cons_of_mem _ hi)
          refine ⟨heq, ?_⟩
          rw [hindex, List.length_cons]
          push_cast
          ring
      · next hend =>
          rw [if_neg hend, if_neg hend, if_neg hend]
          exact ih (j + 1) index (buffer.set (8 + j) 0x00) hsame

/-- ... in any of the rounds ... -/
theorem loop_congr (t_node : ssl_node) {t_buffer t_buffer' : Buffer} {t_size buffer_size : ℤ} (packets : ℤ) (k : ℕ) :
    ∀ (i index : ℤ) (buffer : Buffer), (∀ i ∈ judoSend_.reads t_size buffer_size k index, t_buffer' i = t_buffer i) →
      judoSend_.loop t_node t_buffer' t_size buffer_size packets k i index buffer
        = judoSend_.loop t_node t_buffer t_size buffer_size packets k i index buffer := by
  induction k with
  | zero => exact fun _ _ _ _ => rfl
  | succ k ih =>
      intro i index buffer hsame
      rw [judoSend_.reads] at hsame
      obtain ⟨heq, hindex⟩ := fill_congr (buffer_size - 40).toNat 0 index ((buffer.putInt32 0 i).putInt32 4 packets)
        fun x hx => hsame x (List.mem_append_left _ hx)
      rw [judoSend_.loop, judoSend_.loop]
      dsimp only
      rw [heq]
      rw [← hindex] at hsame
      have hrest := fun buffer => ih (i + 1) _ buffer fun x hx => hsame x (List.mem_append_right _ hx)
      simp only [hrest]

/-- ... and all of it is part of the message. -/
theorem mem_fillReads {n : ℕ} (k : ℕ) : ∀ {index : ℤ}, index ≤ n →
    index + (judoSend_.fillReads n k index).length ≤ n
      ∧ ∀ i ∈ judoSend_.fillReads n k index, index ≤ i ∧ i < n := by
  induction k with
  | zero => exact fun hindex => ⟨by simpa [judoSend_.fillReads] using hindex, fun _ hi => absurd hi List.not_mem_nil⟩
  | succ k ih =>
      intro index hindex
      rw [judoSend_.fillReads]
      -- an index at n or behind it reads nothing
      split
      · next hend =>
          have hnext : index + 1 ≤ n := by omega
          obtain ⟨hlen, hmem⟩ := ih hnext
          constructor
          · rw [List.length_cons]
            push_cast
            omega
          · intro i hi
            rcases List.mem_cons.mp hi with rfl | hi
            · omega
            · have hbounds := hmem i hi
              omega
      · exact ih hindex

/-- So are all indices of all rounds. -/
theorem mem_reads {n : ℕ} {buffer_size : ℤ} (k : ℕ) : ∀ {index : ℤ}, index ≤ n →
    ∀ i ∈ judoSend_.reads n buffer_size k index, index ≤ i ∧ i < n := by
  induction k with
  | zero => exact fun _ _ hi => absurd hi List.not_mem_nil
  | succ k ih =>
      intro index hindex i hi
      rw [judoSend_.reads] at hi
      obtain ⟨hlen, hmem⟩ := mem_fillReads (buffer_size - 40).toNat hindex
      rcases List.mem_append.mp hi with hi | hi
      · exact hmem i hi
      · have hbounds := ih hlen i hi
        omega

/-! ## The wire format

Both together: what is sent is the message and its padding, and what is read is the message. -/

/-- The zeros behind a message: at least one, and at most a payload full of them. -/
theorem padding {c : ℕ} (hc : 0 < c) (n : ℕ) : n + 1 ≤ (1 + n / c) * c ∧ (1 + n / c) * c ≤ n + c := by
  have hdiv := Nat.div_add_mod n c
  have hmod := Nat.mod_lt n hc
  have hexpand : (1 + n / c) * c = c + c * (n / c) := by ring
  omega

/-- A message has no more packets than bytes, and one. -/
theorem inInt32_packetCount {packet_buf_size : ℤ} (hB : 64 ≤ packet_buf_size) {n : ℕ} (hn : n < 2 ^ 31) :
    InInt32 (packetCount packet_buf_size n) := by
  have hle : n / (packet_buf_size - 40).toNat ≤ n / 24 := Nat.div_le_div_left (by omega) (by norm_num)
  unfold packetCount InInt32
  generalize n / (packet_buf_size - 40).toNat = k at hle
  omega

/-- **The wire format.** Whatever the connection answers, `judoSend_` sends the message
in `1 + n / (B - 40)` packets of one size, numbered from 1 on, whose payloads are the
message and at least one zero behind it; and it reads nothing but the message. -/
theorem wire_format {f : ℕ} (hf : 6 ≤ f) {t_node : ssl_node} (hB : t_node.bufferSize = 2 ^ f) (t_buffer : Buffer) (n : ℕ)
    (hn : n < 2 ^ 31) {tr : List (Event Op Ans)} {ret : ℤ} (hruns : Prog.Runs (judoSend_ t_node t_buffer n) tr ret) :
    (∃ (buffer : ℕ × Buffer) (sent : List (Event Op Ans)) (ps : List (List Byte)) (zeros : ℕ),
        tr = ⟨.lock t_node.addr, ()⟩ :: ⟨.new_char (2 ^ f), buffer⟩
          :: (sent ++ [⟨.delete_char buffer.1, ()⟩, ⟨.unlock t_node.addr, ()⟩])
        ∧ Packed t_node (2 ^ f) ps sent ∧ ps.length = 1 + n / (2 ^ f - 40)
        ∧ (∀ i (hi : i < ps.length), (ps[i].length : ℤ) = packetSize t_node.certs (2 ^ f)
          ∧ header ps[i] = (((i + 1 : ℕ) : ℤ), (ps.length : ℤ)))
        ∧ ps.flatMap (payloadField (2 ^ f)) = t_buffer.bytes n ++ List.replicate zeros 0
        ∧ 1 ≤ zeros ∧ zeros ≤ 2 ^ f - 40)
      ∧ (∀ i ∈ judoSend_.reads n (2 ^ f) (1 + n / (2 ^ f - 40)) 0, 0 ≤ i ∧ i < n)
      ∧ ∀ t_buffer' : Buffer, (∀ i ∈ judoSend_.reads n (2 ^ f) (1 + n / (2 ^ f - 40)) 0, t_buffer' i = t_buffer i) →
        judoSend_ t_node t_buffer' n = judoSend_ t_node t_buffer n := by
  have hpow : 2 ^ 6 ≤ 2 ^ f := Nat.pow_le_pow_right (by norm_num) hf
  have h64 : (64 : ℤ) ≤ 2 ^ f := by exact_mod_cast hpow
  have hpayload : ((2 : ℤ) ^ f - 40).toNat = 2 ^ f - 40 := by
    have hcast : ((2 : ℤ) ^ f) = ((2 ^ f : ℕ) : ℤ) := by norm_num
    omega
  have hcount : packetCount (2 ^ f) n = 1 + n / (2 ^ f - 40) := by
    rw [packetCount, hpayload]
  refine ⟨?_, mem_reads _ (Int.natCast_nonneg n), fun t_buffer' hsame => ?_⟩
  · have hfit := inInt32_packetCount h64 hn
    obtain ⟨buffer, sent, ps, htr, hsends, hlen, hall⟩ := sends_judoSend_ (by rw [hB]; exact h64) t_buffer n
      (by rw [hB]; exact hfit) hruns
    rw [hB] at htr hsends hlen hall
    -- the last packet has room for at least one zero
    obtain ⟨hlo, hhi⟩ := padding (c := 2 ^ f - 40) (by omega) n
    refine ⟨buffer, sent, ps, packetCount (2 ^ f) n * ((2 : ℤ) ^ f - 40).toNat - n, htr, hsends, hlen.trans hcount,
      fun i hi => ?_, ?_, ?_, ?_⟩
    · have hpacket := hall.getElem i hi
      rw [Nat.zero_add] at hpacket
      refine ⟨hpacket.length, ?_⟩
      rw [hpacket.header, hlen]
    · have hroom : (40 : ℤ) < 2 ^ f := by omega
      have hmap := map_padded hroom t_buffer n
      rw [hall.flatMap, hlen]
      simp only [Nat.zero_mul, Nat.zero_add]
      exact hmap
    · rw [hcount, hpayload]
      omega
    · rw [hcount, hpayload]
      omega
  · -- two messages that agree where they are read are sent alike
    have hpackets : ((1 : ℤ) + (n : ℤ).tdiv (2 ^ f - 40)).toNat = 1 + n / (2 ^ f - 40) := by
      have hcast : ((2 : ℤ) ^ f - 40) = ((2 ^ f - 40 : ℕ) : ℤ) := by omega
      rw [Int.tdiv_eq_ediv_of_nonneg (Int.natCast_nonneg n), hcast]
      omega
    unfold judoSend_
    simp only [hB, hpackets]
    have hloop := fun buffer => loop_congr t_node (1 + (n : ℤ).tdiv (2 ^ f - 40)) _ 1 0 buffer hsame
    simp only [hloop]

/-- A message of 30 bytes in two packets of 64, under TLS. -/
theorem wire_format_two : ∃ (t_node : ssl_node) (tr events : List (Event Op Ans)) (ps : List (List Byte)) (zeros : ℕ),
    t_node.certs = true ∧ Prog.Runs (judoSend_ t_node (fun i => BitVec.ofInt 8 i) 30) tr 0
      ∧ (∀ ev ∈ events, ev ∈ tr) ∧ Packed t_node (2 ^ 6) ps events ∧ ps.length = 2
      ∧ ps.flatMap (payloadField (2 ^ 6)) = Buffer.bytes (fun i => BitVec.ofInt 8 i) 30 ++ List.replicate zeros 0
      ∧ 1 ≤ zeros := by
  have hruns := Prog.runs_exec (h := Peer.answer)
    (judoSend_ { node64 with mode := 0x46 } (fun i => BitVec.ofInt 8 i) (30 : ℕ)) ⟨[], [], fun _ _ => 3, 0⟩
  obtain ⟨⟨buffer, events, ps, zeros, htr, hsends, hlen, -, hpayload, hzeros, -⟩, -, -⟩ :=
    wire_format (le_refl 6) (by decide) (fun i => BitVec.ofInt 8 i) 30 (by norm_num) hruns
  refine ⟨_, _, events, ps, zeros, by decide, hruns, fun ev hev => ?_, hsends, hlen, hpayload, hzeros⟩
  rw [htr]
  exact List.mem_cons_of_mem _ (List.mem_cons_of_mem _ (List.mem_append_left _ hev))

end JudoEngine
