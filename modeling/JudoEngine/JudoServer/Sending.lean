/-
Whether the 0 that `judoSend_` returns means that the message went out.

`Line` is what OpenSSL and the socket do with the packets of one call: what every
`SSL_write` returns and puts into `write_bio`, how much every `BIO_read` brings of what is
there, and how much every `write` accepts, in full, in part, or not at all. `judoSend_`
looks at none of it, and `reports_iff` says for which lines its answer is right all the
same.
-/
import JudoEngine.JudoServer.Indeterminate
import JudoEngine.JudoServer.Wire

set_option autoImplicit false

open Words

namespace JudoEngine

/-! ## The line

A line may accept less than it is given, and `BIO_read` may bring less than there is; what it
leaves comes with the next packet. -/

/-- What happens to packet number `k`: what its `SSL_write` returns, what that adds to
`write_bio`, how many bytes `BIO_read` gives at most (`none`: it fails), and what `write`
returns. -/
structure Line where
  taken : ℕ → ℤ
  record : ℕ → List Byte
  moved : ℕ → Option ℕ
  accepted : ℕ → ℤ

namespace Line

variable (line : Line)

/-- What `BIO_read` brings of these bytes; there is nothing to be had from an empty BIO. -/
def bring (size : ℤ) (k : ℕ) (bio : List Byte) : Option (List Byte) :=
  if bio = [] then none else (line.moved k).map fun m => bio.take (min m size.toNat)

/-- The answers of the system: the state is the number of the packet, and what
`write_bio` holds. -/
def answer : ℕ × List Byte → (o : Op) → Ans o × ℕ × List Byte
  | s, .SSL_write _ _ => ((), (s.1, s.2 ++ line.record s.1))
  | s, .BIO_read _ size =>
      (line.bring size s.1 s.2, (s.1, s.2.drop ((line.bring size s.1 s.2).getD []).length))
  | s, .write _ _ _ => (line.accepted s.1, (s.1 + 1, s.2))
  | s, _ => (default, s)

/-- What `write_bio` holds before packet `k`, if it held `waiting` before the call. -/
def held (size : ℤ) (waiting : List Byte) : ℕ → List Byte
  | 0 => waiting
  | k + 1 => (held size waiting k ++ line.record k).drop
      ((line.bring size k (held size waiting k ++ line.record k)).getD []).length

/-- What `BIO_read` brings for packet `k`. -/
def chunk (size : ℤ) (waiting : List Byte) (k : ℕ) : Option (List Byte) :=
  line.bring size k (line.held size waiting k ++ line.record k)

/-- What is accepted of blocks that are written one after the other, from packet `k` on. -/
def through : ℕ → List (List Byte) → List Byte
  | _, [] => []
  | k, l :: ls => l.take (line.accepted k).toNat ++ through (k + 1) ls

/-- No more comes through than is written. -/
theorem length_through_le (ls : List (List Byte)) : ∀ (k : ℕ), (line.through k ls).length ≤ ls.flatten.length := by
  induction ls with
  | nil => exact fun k => le_refl 0
  | cons l ls ih =>
      intro k
      have hrest := ih (k + 1)
      rw [through, List.length_append, List.length_take, List.flatten_cons, List.length_append]
      omega

/-- As many bytes come through as are written only if every block does. -/
theorem length_through_iff (ls : List (List Byte)) : ∀ (k : ℕ), (line.through k ls).length = ls.flatten.length
    ↔ ∀ i (hi : i < ls.length), ls[i].length ≤ (line.accepted (k + i)).toNat := by
  -- on the packets: each is cut by its own write, so all bytes pass only if no write cuts
  induction ls with
  | nil => exact fun k => ⟨fun _ i hi => absurd hi (Nat.not_lt_zero i), fun _ => rfl⟩
  | cons l ls ih =>
      intro k
      have hle := line.length_through_le ls (k + 1)
      rw [through, List.length_append, List.length_take, List.flatten_cons, List.length_append]
      constructor
      · intro heq i hi
        cases i with
        | zero =>
            show l.length ≤ (line.accepted k).toNat
            omega
        | succ i =>
            have hrest : (line.through (k + 1) ls).length = ls.flatten.length := by omega
            have hi' := (ih (k + 1)).mp hrest i (Nat.lt_of_succ_lt_succ hi)
            rw [Nat.add_right_comm, Nat.add_assoc] at hi'
            exact hi'
      · intro hall
        have hfirst : l.length ≤ (line.accepted k).toNat := hall 0 (Nat.succ_pos _)
        have hrest := (ih (k + 1)).mpr fun i hi => by
          have hi' := hall (i + 1) (Nat.succ_lt_succ hi)
          rw [Nat.add_right_comm, Nat.add_assoc]
          exact hi'
        omega

/-- Then they are the same bytes. -/
theorem through_eq_flatten (ls : List (List Byte)) : ∀ (k : ℕ), (line.through k ls).length = ls.flatten.length →
    line.through k ls = ls.flatten := by
  induction ls with
  | nil => exact fun k _ => rfl
  | cons l ls ih =>
      intro k heq
      have hall := (line.length_through_iff (l :: ls) k).mp heq
      have hfirst : l.length ≤ (line.accepted k).toNat := hall 0 (Nat.succ_pos _)
      rw [through, List.length_append, List.take_of_length_le hfirst, List.flatten_cons, List.length_append] at heq
      rw [through, List.take_of_length_le hfirst, List.flatten_cons, ih (k + 1) (by omega)]

/-- Nothing gets lost in `write_bio`: what has been brought, and what it still holds, is
what it held, and all the records. -/
theorem conserved (size : ℤ) (waiting : List Byte) (k : ℕ) :
    (List.range k).flatMap (fun i => (line.chunk size waiting i).getD []) ++ line.held size waiting k
      = waiting ++ (List.range k).flatMap line.record := by
  induction k with
  | zero => simp [held]
  | succ k ih =>
      -- a round takes its chunk off the front of what is held and the new record, and loses nothing
      have hsplit : (line.chunk size waiting k).getD [] ++ line.held size waiting (k + 1)
          = line.held size waiting k ++ line.record k := by
        rw [held, chunk]
        unfold bring
        split
        · rfl
        · cases line.moved k with
          | none => rfl
          | some m =>
              rw [Option.map_some, Option.getD_some, List.length_take]
              generalize line.held size waiting k ++ line.record k = bio
              rcases Nat.le_total (min m size.toNat) bio.length with hle | hle
              · rw [Nat.min_eq_left hle, List.take_append_drop]
              · rw [Nat.min_eq_right hle, List.take_of_length_le hle, List.drop_length, List.append_nil]
      rw [List.range_succ, List.flatMap_append, List.flatMap_singleton, List.flatMap_append, List.flatMap_singleton,
        List.append_assoc, hsplit, ← List.append_assoc, ih, List.append_assoc]

end Line

/-! ## What a call does

A call of judoSend_ does the same whatever the line does; only the lengths that it passes to
`write` come from what `BIO_read` has brought. -/

/-- What `write` has accepted, all of it. -/
def acceptedBytes : List (Event Op Ans) → List Byte
  | [] => []
  | ⟨.write _ _ data, w⟩ :: tr => data.take (Int.toNat w) ++ acceptedBytes tr
  | _ :: tr => acceptedBytes tr

/-- The lengths that have been passed to `write`. -/
def lengths : List (Event Op Ans) → List ℤ
  | [] => []
  | ⟨.write _ size _, _⟩ :: tr => size :: lengths tr
  | _ :: tr => lengths tr

/-- Packets that have been put on the connection have been handed over. -/
theorem Packed.handed_eq {t_node : ssl_node} {packet_buf_size : ℤ} {ps : List (List Byte)} {tr : List (Event Op Ans)}
    (h : Packed t_node packet_buf_size ps tr) : handed t_node tr = ps := by
  induction h with
  | nil => exact handed_nil t_node
  | plain p w hcerts h ih =>
      have hnot : ¬ t_node.certs = true := Bool.eq_false_iff.mp hcerts
      unfold handed at ih ⊢
      rw [if_neg hnot] at ih ⊢
      exact congrArg (List.cons p) ih
  | sealed p r w hcerts h ih =>
      unfold handed at ih ⊢
      rw [if_pos hcerts] at ih ⊢
      exact congrArg (List.cons p) ih

/-- A packet under TLS, and those after it. -/
theorem exec_loop_sealed {t_node : ssl_node} (hcerts : t_node.certs = true) (line : Line) (waiting : List Byte) (t_buffer : Buffer)
    (t_size packet_buf_size packets : ℤ) (k : ℕ) : ∀ (j : ℕ) (i index : ℤ) (buffer : Buffer),
      let tr := (Prog.exec line.answer (judoSend_.loop t_node t_buffer t_size packet_buf_size packets k i index buffer)
        (j, line.held packet_buf_size waiting j)).1
      (handed t_node tr).length = k
        ∧ written tr = (List.range' j k).map (fun i => (line.chunk packet_buf_size waiting i).getD [])
        ∧ lengths tr = (List.range' j k).map (fun i => bytesRead (line.chunk packet_buf_size waiting i))
        ∧ acceptedBytes tr = line.through j (written tr) := by
  induction k with
  | zero => exact fun j i index buffer => ⟨congrArg List.length (handed_nil t_node), rfl, rfl, rfl⟩
  | succ k ih =>
      intro j i index buffer
      dsimp only
      rw [judoSend_.loop]
      dsimp only
      rw [if_pos hcerts]
      generalize judoSend_.fill t_buffer t_size (packet_buf_size - 40).toNat 0 index
        ((buffer.putInt32 0 i).putInt32 4 packets) = filled
      -- the packet goes through `write_bio`, and what comes out is written
      rw [Prog.op_bind, Prog.exec_call, Prog.op_bind, Prog.exec_call, Prog.op_bind, Prog.exec_call, bytes_fill]
      obtain ⟨hlen, hwritten, hlengths, haccepted⟩ := ih (j + 1) (i + 1) filled.2
        (filled.1.fill ((line.chunk packet_buf_size waiting j).getD []))
      refine ⟨?_, ?_, ?_, ?_⟩
      · unfold handed at hlen ⊢
        rw [if_pos hcerts] at hlen ⊢
        exact congrArg Nat.succ hlen
      · exact congrArg (List.cons ((line.chunk packet_buf_size waiting j).getD [])) hwritten
      · exact congrArg (List.cons (bytesRead (line.chunk packet_buf_size waiting j))) hlengths
      · exact congrArg (fun l => ((line.chunk packet_buf_size waiting j).getD []).take (line.accepted j).toNat ++ l) haccepted

/-- A packet without TLS, and those after it. -/
theorem exec_loop_plain {t_node : ssl_node} (hplain : t_node.certs = false) (line : Line) (bio : List Byte) (t_buffer : Buffer)
    (t_size packet_buf_size packets : ℤ) (k : ℕ) : ∀ (j : ℕ) (i index : ℤ) (buffer : Buffer),
      let tr := (Prog.exec line.answer (judoSend_.loop t_node t_buffer t_size packet_buf_size packets k i index buffer)
        (j, bio)).1
      (written tr).length = k ∧ (∀ l ∈ written tr, l.length = packet_buf_size.toNat)
        ∧ lengths tr = List.replicate k packet_buf_size ∧ acceptedBytes tr = line.through j (written tr) := by
  -- on the packets left, with the write counter j in step
  induction k with
  | zero => exact fun j i index buffer => ⟨rfl, fun l hl => absurd hl List.not_mem_nil, rfl, rfl⟩
  | succ k ih =>
      intro j i index buffer
      dsimp only
      rw [judoSend_.loop]
      dsimp only
      rw [if_neg (Bool.eq_false_iff.mp hplain)]
      generalize judoSend_.fill t_buffer t_size (packet_buf_size - 40).toNat 0 index
        ((buffer.putInt32 0 i).putInt32 4 packets) = filled
      rw [Prog.op_bind, Prog.exec_call]
      obtain ⟨hlen, hsize, hlengths, haccepted⟩ := ih (j + 1) (i + 1) filled.2 filled.1
      refine ⟨?_, ?_, ?_, ?_⟩
      · exact congrArg Nat.succ hlen
      · intro l hl
        rcases List.mem_cons.mp hl with rfl | hl
        · exact Buffer.length_bytes filled.1 packet_buf_size
        · exact hsize l hl
      · exact congrArg (List.cons packet_buf_size) hlengths
      · exact congrArg (fun l => (filled.1.bytes packet_buf_size).take (line.accepted j).toNat ++ l) haccepted

theorem acceptedBytes_append (tr tr' : List (Event Op Ans)) : acceptedBytes (tr ++ tr') = acceptedBytes tr ++ acceptedBytes tr' := by
  induction tr with
  | nil => rfl
  | cons ev tr ih =>
      obtain ⟨o, x⟩ := ev
      cases o <;> simp only [List.cons_append, acceptedBytes, ih, List.append_assoc]

theorem lengths_append (tr tr' : List (Event Op Ans)) : lengths (tr ++ tr') = lengths tr ++ lengths tr' := by
  induction tr with
  | nil => rfl
  | cons ev tr ih =>
      obtain ⟨o, x⟩ := ev
      cases o <;> simp only [List.cons_append, lengths, ih]

/-- A call is its rounds, as far as anything is sent, and returns 0. -/
theorem exec_judoSend_ (t_node : ssl_node) (t_buffer : Buffer) {n : ℕ} {packets : ℤ} {k : ℕ}
    (hpackets : 1 + (n : ℤ).tdiv (t_node.bufferSize - 40) = packets) (hk : packets.toNat = k) (line : Line) (waiting : List Byte) :
    let x := Prog.exec line.answer (judoSend_ t_node t_buffer n) (0, waiting)
    ∃ mem : Buffer, let tr := (Prog.exec line.answer (judoSend_.loop t_node t_buffer n t_node.bufferSize packets k 1 0 mem)
        (0, waiting)).1
      x.2.1 = 0 ∧ handed t_node x.1 = handed t_node tr ∧ acceptedBytes x.1 = acceptedBytes tr ∧ lengths x.1 = lengths tr := by
  intro x
  refine ⟨(line.answer (0, waiting) (.new_char t_node.bufferSize)).1.2, ?_⟩
  intro tr
  -- the lock and new[] come before the loop, the delete and the unlock after it
  have hx : x.1 = ⟨.lock t_node.addr, ()⟩ :: ⟨.new_char t_node.bufferSize, (line.answer (0, waiting)
      (.new_char t_node.bufferSize)).1⟩ :: (tr ++ [⟨.delete_char (line.answer (0, waiting) (.new_char t_node.bufferSize)).1.1, ()⟩,
        ⟨.unlock t_node.addr, ()⟩]) ∧ x.2.1 = 0 := by
    unfold x judoSend_
    dsimp only
    rw [Prog.op_bind, Prog.exec_call, Prog.op_bind, Prog.exec_call, Prog.exec_bind, hpackets, hk]
    exact ⟨rfl, rfl⟩
  refine ⟨hx.2, ?_, ?_, ?_⟩
  · rw [hx.1]
    unfold handed
    split
    · exact (List.filterMap_append ..).trans (List.append_nil _)
    · exact (written_append tr _).trans (List.append_nil _)
  · rw [hx.1]
    exact (acceptedBytes_append tr _).trans (List.append_nil _)
  · rw [hx.1]
    exact (lengths_append tr _).trans (List.append_nil _)

/-! ## What a call reports

The 0 is returned in any case, so the question is when the message goes out. The number of
bytes decides: as many accepted as there were is all of them. -/

/-- The message has gone out: it is in the packets, and `write` has accepted every byte
of every packet, in order. Under TLS `SSL_write` has taken each packet whole, and what has
been accepted are their records, after what was waiting to be written. -/
structure WentOut (t_node : ssl_node) (t_buffer : Buffer) (n : ℕ) (line : Line) (waiting : List Byte)
    (tr : List (Event Op Ans)) : Prop where
  message : ∃ zeros, (handed t_node tr).flatMap (payloadField t_node.bufferSize) = t_buffer.bytes n ++ List.replicate zeros 0
  sealed : t_node.certs = true →
    (∀ k < (handed t_node tr).length, 0 < line.taken k ∧ line.taken k = t_node.bufferSize - 32)
      ∧ acceptedBytes tr = waiting ++ (List.range (handed t_node tr).length).flatMap line.record
  plain : t_node.certs = false → acceptedBytes tr = (handed t_node tr).flatten

/-- A call returns 0 just when the message has gone out, and no negative length is
passed to `write`. -/
def Reports (t_node : ssl_node) (t_buffer : Buffer) (n : ℕ) (line : Line) (waiting : List Byte) : Prop :=
  let x := Prog.exec line.answer (judoSend_ t_node t_buffer n) (0, waiting)
  (x.2.1 = 0 ↔ WentOut t_node t_buffer n line waiting x.1) ∧ ∀ size ∈ lengths x.1, 0 ≤ size

/-- Packets without a payload have nothing of a message. -/
theorem flatMap_payloadField_of_small {packet_buf_size : ℤ} (hB : packet_buf_size ≤ 40) (ps : List (List Byte)) :
    ps.flatMap (payloadField packet_buf_size) = [] := by
  rw [List.flatMap_eq_nil_iff]
  intro p _
  unfold payloadField
  rw [Int.toNat_of_nonpos (by omega), List.take_zero]

/-- A packet size is a power of two. -/
theorem ssl_node.bufferSize_lt {t_node : ssl_node} (hB : ¬ 64 ≤ t_node.bufferSize) : t_node.bufferSize ≤ 32 := by
  rw [t_node.bufferSize_eq] at hB ⊢
  by_contra hgt
  have hfactor : 5 < t_node.mode.toNat % 16 := by
    by_contra hle
    exact hgt (pow_le_pow_right₀ (by norm_num) (not_lt.mp hle))
  have hpow : (2 : ℤ) ^ 6 ≤ 2 ^ (t_node.mode.toNat % 16) := pow_le_pow_right₀ (by norm_num) hfactor
  exact hB (le_trans (by norm_num) hpow)

/-- The message is in the packets exactly when there is room for it. -/
theorem message_iff (t_node : ssl_node) (t_buffer : Buffer) {n : ℕ} (hn : n < 2 ^ 31) (line : Line) (waiting : List Byte) :
    (∃ zeros, (handed t_node (Prog.exec line.answer (judoSend_ t_node t_buffer n) (0, waiting)).1).flatMap
        (payloadField t_node.bufferSize) = t_buffer.bytes n ++ List.replicate zeros 0)
      ↔ 64 ≤ t_node.bufferSize ∨ n = 0 := by
  -- with room for a payload the packets have the message in them, and without one only the empty
  -- message
  by_cases hB : 64 ≤ t_node.bufferSize
  · refine ⟨fun _ => Or.inl hB, fun _ => ?_⟩
    obtain ⟨buffer, sent, ps, htr, hpacked, hlen, hall⟩ := sends_judoSend_ hB t_buffer n (inInt32_packetCount hB hn)
      (Prog.runs_exec (h := line.answer) (judoSend_ t_node t_buffer n) (0, waiting))
    have hhanded : handed t_node (Prog.exec line.answer (judoSend_ t_node t_buffer n) (0, waiting)).1 = ps := by
      rw [htr, ← hpacked.handed_eq]
      unfold handed
      split
      · exact (List.filterMap_append ..).trans (List.append_nil _)
      · exact (written_append sent _).trans (List.append_nil _)
    rw [hhanded, hall.flatMap, hlen]
    refine ⟨packetCount t_node.bufferSize n * (t_node.bufferSize - 40).toNat - n, ?_⟩
    have hmap := map_padded (show 40 < t_node.bufferSize by omega) t_buffer n
    simp only [Nat.zero_mul, Nat.zero_add]
    exact hmap
  · have hnone := flatMap_payloadField_of_small (show t_node.bufferSize ≤ 40 by
      have hle := ssl_node.bufferSize_lt hB
      omega) (handed t_node (Prog.exec line.answer (judoSend_ t_node t_buffer n) (0, waiting)).1)
    rw [hnone]
    constructor
    · rintro ⟨zeros, hempty⟩
      have hlen := congrArg List.length hempty
      rw [List.length_append, Buffer.length_bytes, Int.toNat_natCast, List.length_nil] at hlen
      exact Or.inr (by omega)
    · intro hroom
      rw [hroom.resolve_left hB]
      exact ⟨0, rfl⟩

/-- The line takes everything. Under TLS: `SSL_write` takes every packet whole, every
`BIO_read` brings something, `write` accepts all of it, and nothing is left in `write_bio`;
without TLS `write` accepts every packet whole. -/
structure TakesAll (t_node : ssl_node) (n : ℕ) (line : Line) (waiting : List Byte) : Prop where
  sealed : t_node.certs = true → (∀ k < packetCount t_node.bufferSize n,
      (0 < line.taken k ∧ line.taken k = t_node.bufferSize - 32)
        ∧ ∃ c, line.chunk t_node.bufferSize waiting k = some c ∧ c.length ≤ (line.accepted k).toNat)
    ∧ line.held t_node.bufferSize waiting (packetCount t_node.bufferSize n) = []
  plain : t_node.certs = false → ∀ k < packetCount t_node.bufferSize n, t_node.bufferSize ≤ line.accepted k

/-- Where there is room for the message, the number of packets is `packetCount`. -/
theorem packets_of_room {t_node : ssl_node} {n : ℕ} (hroom : 64 ≤ t_node.bufferSize ∨ n = 0) :
    1 + (n : ℤ).tdiv (t_node.bufferSize - 40) = packetCount t_node.bufferSize n := by
  rcases hroom with hB | rfl
  · exact cast_packetCount (by omega) n
  · rw [Nat.cast_zero, Int.zero_tdiv, packetCount, Nat.zero_div]
    rfl

/-- The packets of a call, one chunk for each. -/
theorem getElem_chunks (line : Line) (packet_buf_size : ℤ) (waiting : List Byte) {k i : ℕ}
    (hi : i < ((List.range' 0 k).map fun j => (line.chunk packet_buf_size waiting j).getD []).length) :
    ((List.range' 0 k).map fun j => (line.chunk packet_buf_size waiting j).getD [])[i]
      = (line.chunk packet_buf_size waiting i).getD [] := by
  rw [List.getElem_map, List.getElem_range']
  congr 2
  omega

/-- Under TLS everything is accepted, and no length is negative, exactly when every chunk
is brought and accepted and nothing is left. -/
theorem sealed_iff (line : Line) (packet_buf_size : ℤ) (waiting : List Byte) (k : ℕ) :
    (line.through 0 ((List.range' 0 k).map fun i => (line.chunk packet_buf_size waiting i).getD [])
        = waiting ++ (List.range k).flatMap line.record
      ∧ ∀ size ∈ (List.range' 0 k).map (fun i => bytesRead (line.chunk packet_buf_size waiting i)), 0 ≤ size)
    ↔ (∀ i < k, ∃ c, line.chunk packet_buf_size waiting i = some c ∧ c.length ≤ (line.accepted i).toNat)
      ∧ line.held packet_buf_size waiting k = [] := by
  have hconserved := line.conserved packet_buf_size waiting k
  have hflat : ((List.range' 0 k).map fun i => (line.chunk packet_buf_size waiting i).getD []).flatten
      = (List.range k).flatMap fun i => (line.chunk packet_buf_size waiting i).getD [] := by
    rw [List.flatMap_def, List.range_eq_range']
  have hiff := line.length_through_iff ((List.range' 0 k).map fun i => (line.chunk packet_buf_size waiting i).getD []) 0
  have hle := line.length_through_le ((List.range' 0 k).map fun i => (line.chunk packet_buf_size waiting i).getD []) 0
  have heq := line.through_eq_flatten ((List.range' 0 k).map fun i => (line.chunk packet_buf_size waiting i).getD []) 0
  rw [hflat] at hiff hle heq
  -- nothing is lost in `write_bio`, so all comes through if every chunk does and none is left
  constructor
  · rintro ⟨hthrough, hlengths⟩
    rw [← hconserved] at hthrough
    rw [hthrough, List.length_append] at hiff hle
    have hheld : line.held packet_buf_size waiting k = [] := List.length_eq_zero_iff.mp (by omega)
    refine ⟨fun i hi => ?_, hheld⟩
    have hfits := hiff.mp (by rw [hheld, List.length_nil]; omega) i (by rw [List.length_map, List.length_range']; exact hi)
    rw [getElem_chunks, Nat.zero_add] at hfits
    have hnonneg := hlengths _ (List.mem_map.mpr ⟨i, by rw [List.mem_range'_1]; omega, rfl⟩)
    cases hchunk : line.chunk packet_buf_size waiting i with
    | none =>
        rw [hchunk] at hnonneg
        exact absurd hnonneg (by decide)
    | some c =>
        rw [hchunk] at hfits
        exact ⟨c, rfl, hfits⟩
  · rintro ⟨hall, hheld⟩
    constructor
    · rw [← hconserved, hheld, List.append_nil]
      apply heq
      apply hiff.mpr
      intro i hi
      rw [getElem_chunks, Nat.zero_add]
      obtain ⟨c, hc, hfits⟩ := hall i (by rw [List.length_map, List.length_range'] at hi; exact hi)
      rw [hc]
      exact hfits
    · intro size hsize
      obtain ⟨i, hi, rfl⟩ := List.mem_map.mp hsize
      rw [List.mem_range'_1] at hi
      obtain ⟨c, hc, -⟩ := hall i (by omega)
      rw [hc]
      exact Int.natCast_nonneg c.length

/-- Under TLS the 0 is right when every round takes its packet and the rest is drained. -/
theorem reports_sealed_iff {t_node : ssl_node} (hcerts : t_node.certs = true) (t_buffer : Buffer) {n : ℕ} (hn : n < 2 ^ 31)
    (hroom : 64 ≤ t_node.bufferSize ∨ n = 0) (line : Line) (waiting : List Byte) :
    Reports t_node t_buffer n line waiting ↔ TakesAll t_node n line waiting := by
  have hmessage := message_iff t_node t_buffer hn line waiting
  unfold Reports
  dsimp only
  obtain ⟨mem, hzero, hhanded, haccepted, hlengths⟩ := exec_judoSend_ t_node t_buffer (packets_of_room hroom)
    (Int.toNat_natCast _) line waiting
  generalize Prog.exec line.answer (judoSend_ t_node t_buffer n) (0, waiting) = x at *
  obtain ⟨hlen, hwritten, hsizes, hthrough⟩ := exec_loop_sealed hcerts line waiting t_buffer n t_node.bufferSize
    (packetCount t_node.bufferSize n) (packetCount t_node.bufferSize n) 0 1 0 mem
  have hiff := sealed_iff line t_node.bufferSize waiting (packetCount t_node.bufferSize n)
  rw [hwritten] at hthrough
  rw [Line.held] at hlen hsizes hthrough
  rw [← hhanded] at hlen
  rw [← haccepted] at hthrough
  rw [← hlengths] at hsizes
  rw [← hthrough, ← hsizes] at hiff
  -- under TLS the message must be in the packets, and what OpenSSL makes of each must come through
  constructor
  · rintro ⟨hret, hnonneg⟩
    have hout := (hret.mp hzero).sealed hcerts
    rw [hlen] at hout
    obtain ⟨hchunks, hheld⟩ := hiff.mp ⟨hout.2, hnonneg⟩
    exact ⟨fun _ => ⟨fun k hk => ⟨hout.1 k hk, hchunks k hk⟩, hheld⟩, fun h => absurd (hcerts.symm.trans h) (by decide)⟩
  · intro htakes
    obtain ⟨hall, hheld⟩ := htakes.sealed hcerts
    obtain ⟨hbytes, hnonneg⟩ := hiff.mpr ⟨fun k hk => (hall k hk).2, hheld⟩
    refine ⟨⟨fun _ => ⟨hmessage.mpr hroom, fun _ => ?_, fun h => absurd (hcerts.symm.trans h) (by decide)⟩,
      fun _ => hzero⟩, hnonneg⟩
    rw [hlen]
    exact ⟨fun k hk => (hall k hk).1, hbytes⟩

/-- Without TLS it is right when every `write` takes a whole packet. -/
theorem reports_plain_iff {t_node : ssl_node} (hcerts : t_node.certs = false) (t_buffer : Buffer) {n : ℕ} (hn : n < 2 ^ 31)
    (hroom : 64 ≤ t_node.bufferSize ∨ n = 0) (line : Line) (waiting : List Byte) :
    Reports t_node t_buffer n line waiting ↔ TakesAll t_node n line waiting := by
  have hmessage := message_iff t_node t_buffer hn line waiting
  unfold Reports
  dsimp only
  obtain ⟨mem, hzero, hhanded, haccepted, hlengths⟩ := exec_judoSend_ t_node t_buffer (packets_of_room hroom)
    (Int.toNat_natCast _) line waiting
  generalize Prog.exec line.answer (judoSend_ t_node t_buffer n) (0, waiting) = x at *
  obtain ⟨hlen, hsize, hsizes, hthrough⟩ := exec_loop_plain hcerts line waiting t_buffer n t_node.bufferSize
    (packetCount t_node.bufferSize n) (packetCount t_node.bufferSize n) 0 1 0 mem
  have hblocks : handed t_node x.1 = written (Prog.exec line.answer (judoSend_.loop t_node t_buffer n t_node.bufferSize
      (packetCount t_node.bufferSize n) (packetCount t_node.bufferSize n) 1 0 mem) (0, waiting)).1 := by
    rw [hhanded]
    unfold handed
    rw [if_neg (Bool.eq_false_iff.mp hcerts)]
  rw [← hblocks] at hlen hsize hthrough
  rw [← haccepted] at hthrough
  rw [← hlengths] at hsizes
  have hpos : 0 < t_node.bufferSize := by
    rw [t_node.bufferSize_eq]
    positivity
  have hiff := line.length_through_iff (handed t_node x.1) 0
  have heq := line.through_eq_flatten (handed t_node x.1) 0
  rw [← hthrough] at hiff heq
  -- every `write` is asked for the size of the packet
  have hnonneg : ∀ size ∈ lengths x.1, 0 ≤ size := by
    intro size hmem
    rw [hsizes] at hmem
    rw [List.eq_of_mem_replicate hmem]
    exact hpos.le
  constructor
  · rintro ⟨hret, -⟩
    have hbytes := (hret.mp hzero).plain hcerts
    refine ⟨fun h => absurd (hcerts.symm.trans h) (by decide), fun _ k hk => ?_⟩
    have hk' : k < (handed t_node x.1).length := by rw [hlen]; exact hk
    have hfits := hiff.mp (congrArg List.length hbytes) k hk'
    rw [hsize _ (List.getElem_mem hk'), Nat.zero_add] at hfits
    omega
  · intro htakes
    have hall := htakes.plain hcerts
    refine ⟨⟨fun _ => ⟨hmessage.mpr hroom, fun h => absurd (hcerts.symm.trans h) (by decide), fun _ => ?_⟩,
      fun _ => hzero⟩, hnonneg⟩
    apply heq
    apply hiff.mpr
    intro k hk
    rw [hsize _ (List.getElem_mem hk), Nat.zero_add]
    have hle := hall k (by rw [hlen] at hk; exact hk)
    omega

/-- **The 0 that `judoSend_` returns** is right exactly when the message has room in the
packets and the line takes everything: it is returned whatever happens. -/
theorem reports_iff (t_node : ssl_node) (t_buffer : Buffer) {n : ℕ} (hn : n < 2 ^ 31) (line : Line) (waiting : List Byte) :
    Reports t_node t_buffer n line waiting
      ↔ (64 ≤ t_node.bufferSize ∨ n = 0) ∧ TakesAll t_node n line waiting := by
  by_cases hroom : 64 ≤ t_node.bufferSize ∨ n = 0
  · rw [and_iff_right hroom]
    cases hcerts : t_node.certs with
    | true => exact reports_sealed_iff hcerts t_buffer hn hroom line waiting
    | false => exact reports_plain_iff hcerts t_buffer hn hroom line waiting
  · -- the packets never hold the message, and 0 is returned all the same
    constructor
    · rintro ⟨hret, -⟩
      obtain ⟨mem, hzero, -⟩ := exec_judoSend_ t_node t_buffer rfl rfl line waiting
      exact absurd ((message_iff t_node t_buffer hn line waiting).mp (hret.mp hzero).message) hroom
    · exact fun h => absurd h.1 hroom

/-- A line that accepts what it is given. -/
theorem reports_all : Reports node64 (fun _ => 0x4A) 1 ⟨fun _ => 32, fun _ => [], fun _ => some 64, fun _ => 64⟩ [] := by
  refine (reports_iff node64 (fun _ => 0x4A) (by norm_num) _ []).mpr ⟨Or.inl (by decide), ?_, ?_⟩
  · exact fun h => absurd h (by decide)
  · exact fun _ k _ => by
      show node64.bufferSize ≤ 64
      decide

/-- A connection that the peer has reset: `write` returns -1, and `judoSend_` 0. -/
theorem reports_nothing_sent : ¬ Reports node64 (fun _ => 0x4A) 1 ⟨fun _ => 32, fun _ => [], fun _ => some 64, fun _ => -1⟩ [] := by
  rintro ⟨hret, -⟩
  have hzero : (Prog.exec (Line.answer ⟨fun _ => 32, fun _ => [], fun _ => some 64, fun _ => -1⟩)
      (judoSend_ node64 (fun _ => 0x4A) (1 : ℕ)) (0, [])).2.1 = 0 := by decide +kernel
  have hbytes := (hret.mp hzero).plain (by decide)
  revert hbytes
  decide +kernel

end JudoEngine
