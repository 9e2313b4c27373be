/-
What memory that nobody has initialised decides.

`judoSend_` and `judoRead_` work in arrays that `new` hands out as they are, and
`judoRead_` counts in a local that it does not set. Both are looked at in two runs that
differ in nothing but what such memory holds at first: whether the bytes that are sent,
and the message that is received, come out the same. A call of `judoRead_` that stores
outside its arrays is no such call: what the program does after that is not determined
by anything.
-/
import JudoEngine.JudoServer.Wire

set_option autoImplicit false

open Words

namespace JudoEngine

/-! ## Sending

The two runs get the same answers but for what `new` hands out. A block goes out with what was
stored in it, so it is enough to look at which of its bytes have been stored. -/

/-- An environment that is as it was but for the contents of new arrays. -/
def holding (mem : Buffer) {ε : Type} (h : ε → (o : Op) → Ans o × ε) : ε → (o : Op) → Ans o × ε
  | e, .new_char size => (((h e (.new_char size)).1.1, mem), (h e (.new_char size)).2)
  | e, o => h e o

/-- What has been given to `SSL_write`, one block for each call. -/
def plaintexts (tr : List (Event Op Ans)) : List (List Byte) :=
  tr.filterMap fun ev =>
    match ev.op with
    | .SSL_write _ data => some data
    | _ => none

/-- The bytes that `judoSend_` hands over: to `SSL_write` where the node has certificate
bits, and else to `write`. -/
def handed (t_node : ssl_node) (tr : List (Event Op Ans)) : List (List Byte) :=
  if t_node.certs then plaintexts tr else written tr

/-- Two runs of `judoSend_` that differ in what the new packet buffer holds hand over
the same bytes. -/
def Discreet (t_node : ssl_node) (t_buffer : Buffer) (n : ℕ) : Prop :=
  ∀ (ε : Type) (h : ε → (o : Op) → Ans o × ε) (e : ε) (mem mem' : Buffer),
    handed t_node (Prog.exec (holding mem h) (judoSend_ t_node t_buffer n) e).1
      = handed t_node (Prog.exec (holding mem' h) (judoSend_ t_node t_buffer n) e).1

/-- The four bytes of an integer that has been stored do not depend on what was there. -/
theorem putInt32_congr (m m' : Buffer) (x : ℤ) {i j : ℤ} (hlo : i ≤ j) (hhi : j < i + 4) :
    m.putInt32 i x j = m'.putInt32 i x j := by
  unfold Buffer.putInt32
  by_cases h₃ : j = i + 3
  · rw [h₃, Buffer.set_self, Buffer.set_self]
  rw [Buffer.set_of_ne _ _ h₃, Buffer.set_of_ne _ _ h₃]
  by_cases h₂ : j = i + 2
  · rw [h₂, Buffer.set_self, Buffer.set_self]
  rw [Buffer.set_of_ne _ _ h₂, Buffer.set_of_ne _ _ h₂]
  by_cases h₁ : j = i + 1
  · rw [h₁, Buffer.set_self, Buffer.set_self]
  rw [Buffer.set_of_ne _ _ h₁, Buffer.set_of_ne _ _ h₁]
  have h₀ : j = i := by omega
  rw [h₀, Buffer.set_self, Buffer.set_self]

/-- Neither do the eight bytes of a header. -/
theorem header_congr (m m' : Buffer) (x y : ℤ) {j : ℤ} (hlo : 0 ≤ j) (hhi : j < 8) :
    (m.putInt32 0 x).putInt32 4 y j = (m'.putInt32 0 x).putInt32 4 y j := by
  by_cases hj : 4 ≤ j
  · exact putInt32_congr _ _ y hj (by omega)
  · rw [Buffer.putInt32_of_lt (m.putInt32 0 x) y (by omega), Buffer.putInt32_of_lt (m'.putInt32 0 x) y (by omega)]
    exact putInt32_congr m m' x hlo (by omega)

/-- A round of `judoSend_` writes its header and its payload anew, all of both. -/
theorem fill_bytes_congr (t_buffer : Buffer) (n k : ℕ) {index m : ℤ} (hindex : index ≤ n) (hm : m ≤ 8 + k)
    (i packets : ℤ) (buffer buffer' : Buffer) :
    (judoSend_.fill t_buffer n k 0 index ((buffer.putInt32 0 i).putInt32 4 packets)).1.bytes m
      = (judoSend_.fill t_buffer n k 0 index ((buffer'.putInt32 0 i).putInt32 4 packets)).1.bytes m := by
  obtain ⟨-, hbuf⟩ := fill_spec t_buffer n k 0 index ((buffer.putInt32 0 i).putInt32 4 packets) hindex
  obtain ⟨-, hbuf'⟩ := fill_spec t_buffer n k 0 index ((buffer'.putInt32 0 i).putInt32 4 packets) hindex
  unfold Buffer.bytes
  apply List.map_congr_left
  intro j hj
  rw [List.mem_range] at hj
  rw [hbuf, hbuf']
  split
  · rfl
  · exact header_congr buffer buffer' i packets (Int.natCast_nonneg j) (by omega)

/-- The index after a round does not depend on what the buffer held. -/
theorem fill_index_congr (t_buffer : Buffer) (n k : ℕ) {index : ℤ} (hindex : index ≤ n) (buffer buffer' : Buffer) :
    (judoSend_.fill t_buffer n k 0 index buffer).2 = (judoSend_.fill t_buffer n k 0 index buffer').2
      ∧ (judoSend_.fill t_buffer n k 0 index buffer).2 ≤ n := by
  obtain ⟨hidx, -⟩ := fill_spec t_buffer n k 0 index buffer hindex
  obtain ⟨hidx', -⟩ := fill_spec t_buffer n k 0 index buffer' hindex
  rw [hidx, hidx']
  exact ⟨rfl, min_le_right _ _⟩

/-- The rounds of `judoSend_` hand over the same bytes, whatever the buffer held before
and whatever is answered, if a packet is sealed or no longer than its header. -/
theorem handed_loop {t_node : ssl_node} (hcond : t_node.certs = true ∨ t_node.bufferSize ≤ 8) (t_buffer : Buffer)
    (n : ℕ) (packets : ℤ) (k : ℕ) : ∀ (i index : ℤ) (buffer buffer' : Buffer) (tr tr' : List (Event Op Ans)), index ≤ n →
      Prog.Runs (judoSend_.loop t_node t_buffer n t_node.bufferSize packets k i index buffer) tr () →
      Prog.Runs (judoSend_.loop t_node t_buffer n t_node.bufferSize packets k i index buffer') tr' () →
        handed t_node tr = handed t_node tr' := by
  -- by the packets: whatever the buffer held before a round, its block is the same
  induction k with
  | zero =>
      rintro i index buffer buffer' tr tr' - ⟨rfl, -⟩ ⟨rfl, -⟩
      rfl
  | succ k ih =>
      intro i index buffer buffer' tr tr' hindex hruns hruns'
      obtain ⟨hnext, hle⟩ := fill_index_congr t_buffer n (t_node.bufferSize - 40).toNat hindex
        ((buffer.putInt32 0 i).putInt32 4 packets) ((buffer'.putInt32 0 i).putInt32 4 packets)
      have hbytes := fun (m : ℤ) (hm : m ≤ 8 + (t_node.bufferSize - 40).toNat) =>
        fill_bytes_congr t_buffer n (t_node.bufferSize - 40).toNat hindex hm i packets buffer buffer'
      rw [judoSend_.loop, hnext] at hruns
      rw [hnext] at hle
      rw [judoSend_.loop] at hruns'
      dsimp only at hruns hruns'
      cases hcerts : t_node.certs with
      | true =>
          rw [if_pos hcerts] at hruns hruns'
          obtain ⟨-, tr₁, rfl, r, tr₂, rfl, w, tr₃, rfl, hrest⟩ := hruns
          obtain ⟨-, tr₁', rfl, r', tr₂', rfl, w', tr₃', rfl, hrest'⟩ := hruns'
          have hsame := ih (i + 1) _ _ _ tr₃ tr₃' hle hrest hrest'
          unfold handed at hsame ⊢
          rw [if_pos hcerts, if_pos hcerts] at hsame ⊢
          have hblock := hbytes (t_node.bufferSize - 32) (by omega)
          exact congrArg₂ List.cons hblock hsame
      | false =>
          have hplain : ¬ t_node.certs = true := by
            rw [hcerts]
            exact Bool.false_ne_true
          rw [if_neg hplain] at hruns hruns'
          obtain ⟨w, tr₁, rfl, hrest⟩ := hruns
          obtain ⟨w', tr₁', rfl, hrest'⟩ := hruns'
          have hsame := ih (i + 1) _ _ _ tr₁ tr₁' hle hrest hrest'
          unfold handed at hsame ⊢
          rw [if_neg hplain, if_neg hplain] at hsame ⊢
          have hsmall := hcond.resolve_left hplain
          have hblock := hbytes t_node.bufferSize (by omega)
          exact congrArg₂ List.cons hblock hsame

@[simp] theorem handed_nil (t_node : ssl_node) : handed t_node [] = [] := by
  unfold handed
  split <;> rfl

theorem handed_append (t_node : ssl_node) (tr tr' : List (Event Op Ans)) :
    handed t_node (tr ++ tr') = handed t_node tr ++ handed t_node tr' := by
  unfold handed
  split
  · exact List.filterMap_append ..
  · exact written_append tr tr'

/-- A call hands over what its rounds do; they begin with what the new array holds. -/
theorem handed_judoSend_ (t_node : ssl_node) (t_buffer : Buffer) {n : ℕ} {packets : ℤ} {k : ℕ}
    (hpackets : 1 + (n : ℤ).tdiv (t_node.bufferSize - 40) = packets) (hk : packets.toNat = k)
    {ε : Type} (g : ε → (o : Op) → Ans o × ε) (e : ε)
    (mem : Buffer) (hmem : (g (g e (.lock t_node.addr)).2 (.new_char t_node.bufferSize)).1.2 = mem) :
    ∃ tr, handed t_node (Prog.exec g (judoSend_ t_node t_buffer n) e).1 = handed t_node tr
      ∧ Prog.Runs (judoSend_.loop t_node t_buffer n t_node.bufferSize packets k 1 0 mem) tr () := by
  have hloop := Prog.runs_exec_unit (h := g) (judoSend_.loop t_node t_buffer n t_node.bufferSize packets k 1 0 mem)
    (g (g e (.lock t_node.addr)).2 (.new_char t_node.bufferSize)).2
  refine ⟨_, ?_, hloop⟩
  -- what is around the loop (lock, new, delete, unlock) hands nothing to write or SSL_write
  have hfirst : ∀ (a : Ans (.lock t_node.addr)) (b : Ans (.new_char t_node.bufferSize)) (tr : List (Event Op Ans)),
      handed t_node (⟨.lock t_node.addr, a⟩ :: ⟨.new_char t_node.bufferSize, b⟩ :: tr) = handed t_node tr := by
    intro a b tr
    unfold handed
    split <;> rfl
  have hlast : ∀ (c : ℕ) (a : Ans (.delete_char c)) (b : Ans (.unlock t_node.addr)),
      handed t_node [⟨.delete_char c, a⟩, ⟨.unlock t_node.addr, b⟩] = [] := by
    intro c a b
    unfold handed
    split <;> rfl
  unfold judoSend_
  dsimp only
  rw [Prog.op_bind, Prog.exec_call, Prog.op_bind, Prog.exec_call, Prog.exec_bind, hmem, hpackets, hk, hfirst,
    handed_append, Prog.op_bind, Prog.exec_call, Prog.op_bind, Prog.exec_call, Prog.pure_eq, Prog.exec_ret, hlast,
    List.append_nil]

/-- A packet that goes out as it is has the last byte of the buffer in it, where a round
has put nothing. -/
theorem written_head {t_node : ssl_node} (hplain : t_node.certs = false) (hB : 8 < t_node.bufferSize) (t_buffer : Buffer)
    (n k : ℕ) (packets : ℤ) {mem : Buffer} {tr : List (Event Op Ans)}
    (hruns : Prog.Runs (judoSend_.loop t_node t_buffer n t_node.bufferSize packets (k + 1) 1 0 mem) tr ()) :
    ∃ block blocks, handed t_node tr = block :: blocks
      ∧ block[(t_node.bufferSize - 1).toNat]? = some (mem (t_node.bufferSize - 1)) := by
  have hnot : ¬ t_node.certs = true := by
    rw [hplain]
    exact Bool.false_ne_true
  obtain ⟨-, hbuf⟩ := fill_spec t_buffer n (t_node.bufferSize - 40).toNat 0 0 ((mem.putInt32 0 1).putInt32 4 packets)
    (Int.natCast_nonneg n)
  rw [judoSend_.loop] at hruns
  dsimp only at hruns
  rw [if_neg hnot] at hruns
  obtain ⟨w, tr', rfl, -⟩ := hruns
  refine ⟨(judoSend_.fill t_buffer n (t_node.bufferSize - 40).toNat 0 0 ((mem.putInt32 0 1).putInt32 4 packets)).1.bytes
    t_node.bufferSize, written tr', ?_, ?_⟩
  · unfold handed
    rw [if_neg hnot]
    rfl
  -- the last byte of the packet is none that fill or the header stores to
  · have hlast : (((t_node.bufferSize - 1).toNat : ℕ) : ℤ) = t_node.bufferSize - 1 := Int.toNat_of_nonneg (by omega)
    have hlt : (t_node.bufferSize - 1).toNat < t_node.bufferSize.toNat := by omega
    rw [List.getElem?_eq_getElem (by rw [Buffer.length_bytes]; exact hlt), Buffer.getElem_bytes, hbuf, hlast,
      if_neg (by omega), Buffer.putInt32_of_lt _ _ (by omega), Buffer.putInt32_of_lt _ _ (by omega)]

/-- No packet is sent when the buffer has no room for a payload and the message is long
enough to make the quotient negative. -/
theorem packets_nonpos_iff (t_node : ssl_node) (n : ℕ) : 1 + (n : ℤ).tdiv (t_node.bufferSize - 40) ≤ 0
    ↔ t_node.bufferSize < 40 ∧ 40 ≤ t_node.bufferSize + n := by
  by_cases hB : t_node.bufferSize < 40
  · have hflip : t_node.bufferSize - 40 = -(40 - t_node.bufferSize) := by omega
    have hpos : 0 < 40 - t_node.bufferSize := by omega
    have hdiv : 1 ≤ (n : ℤ) / (40 - t_node.bufferSize) ↔ 1 * (40 - t_node.bufferSize) ≤ n := Int.le_ediv_iff_mul_le hpos
    rw [hflip, Int.tdiv_neg, Int.tdiv_eq_ediv_of_nonneg (Int.natCast_nonneg n)]
    omega
  · have hnonneg : 0 ≤ (n : ℤ).tdiv (t_node.bufferSize - 40) := Int.tdiv_nonneg (Int.natCast_nonneg n) (by omega)
    omega

/-- **What is sent is the message and nothing else** exactly when the packets are sealed,
when they are no longer than their header, or when there are none. Any other packet ends
with bytes of the buffer that nobody has written. -/
theorem discreet_iff (t_node : ssl_node) (t_buffer : Buffer) (n : ℕ) : Discreet t_node t_buffer n
    ↔ t_node.certs = true ∨ t_node.bufferSize ≤ 8 ∨ (t_node.bufferSize < 40 ∧ 40 ≤ t_node.bufferSize + n) := by
  have hnone := packets_nonpos_iff t_node n
  generalize hpackets : 1 + (n : ℤ).tdiv (t_node.bufferSize - 40) = packets at hnone
  obtain ⟨k, hk⟩ : ∃ k, packets.toNat = k := ⟨_, rfl⟩
  have hcalls := fun (mem : Buffer) {ε : Type} (h : ε → (o : Op) → Ans o × ε) (e : ε) =>
    handed_judoSend_ t_node t_buffer hpackets hk (holding mem h) e mem rfl
  constructor
  · intro hsame
    by_contra hcond
    push Not at hcond
    obtain ⟨hplain, hB, hlarge⟩ := hcond
    have hfalse : t_node.certs = false := Bool.eq_false_iff.mpr hplain
    have hpos : ¬ packets ≤ 0 := fun hle => absurd (hnone.mp hle).2 (not_le.mpr (hlarge (hnone.mp hle).1))
    obtain ⟨k, rfl⟩ : ∃ m, k = m + 1 := ⟨k - 1, by omega⟩
    -- a buffer of zeros, and one of ones
    obtain ⟨tr, htr, hruns⟩ := hcalls (fun _ => 0) (fun (_ : Unit) _ => (default, ())) ()
    obtain ⟨tr', htr', hruns'⟩ := hcalls (fun _ => 1) (fun (_ : Unit) _ => (default, ())) ()
    have heq := hsame Unit (fun _ _ => (default, ())) () (fun _ => 0) fun _ => 1
    rw [htr, htr'] at heq
    obtain ⟨block, blocks, hblock, hlast⟩ := written_head hfalse hB t_buffer n k packets hruns
    obtain ⟨block', blocks', hblock', hlast'⟩ := written_head hfalse hB t_buffer n k packets hruns'
    rw [hblock, hblock'] at heq
    rw [(List.cons.inj heq).1, hlast'] at hlast
    exact absurd (Option.some.inj hlast) (by decide)
  · intro hcond ε h e mem mem'
    obtain ⟨tr, htr, hruns⟩ := hcalls mem h e
    obtain ⟨tr', htr', hruns'⟩ := hcalls mem' h e
    rw [htr, htr']
    by_cases hle : packets ≤ 0
    · obtain rfl : k = 0 := by omega
      rw [hruns.1, hruns'.1]
    · refine handed_loop (hcond.imp_right fun h => h.resolve_right ?_) t_buffer n packets k 1 0 mem mem' tr tr'
        (Int.natCast_nonneg n) hruns hruns'
      exact fun h => hle (hnone.mpr h)

/-- A message of one byte: it goes out with 32 bytes of what the memory held before. -/
theorem not_discreet : ¬ Discreet node64 (fun _ => 0x4A) 1 := by
  intro hsame
  have heq := hsame Unit (fun _ _ => (default, ())) () (fun _ => 0) fun _ => 1
  revert heq
  decide +kernel

/-! ## Receiving

The message goes where the uninitialised index says, so two memories that disagree on it store
it in two places. A call is determined only when none of its stores can be seen, and none goes
astray. -/

/-- What the memory holds that `judoRead_` does not initialise: its `index`, the packet
buffer, and the array for the message. Its `a` and `b` are set before they are read. -/
structure Leftovers where
  index : ℤ
  packet : Buffer
  out : Buffer

/-- The system of a call in such memory. The reads return the blocks, one after the
other; the state counts them, and says whether the packet buffer has been allocated. -/
def Leftovers.answer (blocks : ℕ → Option (List Byte)) (m : Leftovers) : ℕ × Bool → (o : Op) → Ans o × ℕ × Bool
  | s, .read _ _ => (blocks s.1, (s.1 + 1, s.2))
  | s, .new_char _ => (if s.2 then (1, m.out) else (0, m.packet), (s.1, true))
  | s, .indeterminate => (m.index, s)
  | s, _ => (default, s)

/-- The contents of an array after stores to it. -/
def stored (out : ℕ) : List (ℕ × ℤ × Byte) → Buffer → Buffer
  | [], m => m
  | (buffer, index, x) :: l, m => stored out l (if buffer = out then m.set index x else m)

/-- What a call does in at most `fuel` rounds. -/
def calls (server : JudoServer) (t_node : ssl_node) (t_poll : pollfd) (blocks : ℕ → Option (List Byte)) (m : Leftovers)
    (fuel : ℕ) : List (Event Op Ans) :=
  (Prog.exec (m.answer blocks) (judoRead_ fuel server t_node t_poll 0) (0, false)).1

/-- What the caller of `judoRead_` gets to see of a call that returns within `fuel` rounds:
what it returns, `*t_outbuf_size`, and the bytes of the array below that. -/
def outcome (server : JudoServer) (t_node : ssl_node) (t_poll : pollfd) (blocks : ℕ → Option (List Byte)) (m : Leftovers)
    (fuel : ℕ) : Option (ℤ × ℤ × List Byte) :=
  let x := Prog.exec (m.answer blocks) (judoRead_ fuel server t_node t_poll 0) (0, false)
  x.2.1.map fun r => (r.2.1, r.2.2.2, (stored r.2.2.1 (stores x.1) m.out).bytes r.2.2.2)

/-- The blocks that have come in. -/
def taken (tr : List (Event Op Ans)) : List (List Byte) :=
  tr.filterMap fun ev =>
    match ev with
    | ⟨.read _ _, some r⟩ => if r = [] then none else some r
    | _ => none

/-- What a call does to its arrays is inside them: the bytes that are stored through
`*t_out_buf`, the header, which is read of every block, and the byte
`packet_buffer[packet_buf_size - 32]`, which is set as soon as there is an array for the
message. -/
structure Contained (packet_buf_size : ℤ) (tr : List (Event Op Ans)) : Prop where
  stores : Inside tr
  header : taken tr ≠ [] → 8 ≤ packet_buf_size
  terminator : 1 < (allocs tr).length → 32 ≤ packet_buf_size

/-- When a call returns in one memory, it returns the same in every other. -/
def SameOutcome (server : JudoServer) (t_node : ssl_node) (t_poll : pollfd) (blocks : ℕ → Option (List Byte)) : Prop :=
  ∀ (m m' : Leftovers) (fuel : ℕ) (r : ℤ × ℤ × List Byte), outcome server t_node t_poll blocks m fuel = some r →
    ∃ fuel', outcome server t_node t_poll blocks m' fuel' = some r

/-- What is received for these blocks does not depend on what the memory holds: nothing is
done outside the arrays, however far the call has got, and it returns the same in every
memory. -/
def Determined (server : JudoServer) (t_node : ssl_node) (t_poll : pollfd) (blocks : ℕ → Option (List Byte)) : Prop :=
  (∀ (m : Leftovers) (fuel : ℕ), Contained t_node.bufferSize (calls server t_node t_poll blocks m fuel))
    ∧ SameOutcome server t_node t_poll blocks

section Rounds

variable (packet_buf_size : ℤ) (blocks : ℕ → Option (List Byte)) (p : Buffer)

/-- The packet buffer after the read of round `k`, if it held `p` when it was new. -/
def packetAt : ℕ → Buffer
  | 0 => p.fill ((blocks 0).getD [])
  | k + 1 => ((packetAt k).set (packet_buf_size - 32) 0).fill ((blocks (k + 1)).getD [])

/-- Round `k` is the last one: its read brings nothing, or the two numbers of its header
are equal. -/
def Last (k : ℕ) : Prop := bytesRead (blocks k) ≤ 0
  ∨ (packetAt packet_buf_size blocks p k).int32 0 = (packetAt packet_buf_size blocks p k).int32 4

instance (k : ℕ) : Decidable (Last packet_buf_size blocks p k) := inferInstanceAs (Decidable (_ ∨ _))

/-- The rounds end with round `k`. -/
def EndsAt (k : ℕ) : Prop := Last packet_buf_size blocks p k ∧ ∀ j < k, ¬ Last packet_buf_size blocks p j

/-- The size that the header of the first packet announces. -/
def announced : ℤ := toInt32 ((packetAt packet_buf_size blocks p 0).int32 4 * packet_buf_size)

/-- The first last round from round `k` on, if there is one in the next `fuel`. -/
def endFrom : ℕ → ℕ → Option ℕ
  | 0, _ => none
  | fuel + 1, k => if Last packet_buf_size blocks p k then some k else endFrom fuel (k + 1)

end Rounds

/-- What a call returns whose rounds end with round `k`. -/
def codeAt (blocks : ℕ → Option (List Byte)) (k : ℕ) : ℤ := if bytesRead (blocks k) ≤ 0 then -1 else 0

/-- It is the first of these rounds that is the last one. -/
theorem endFrom_eq_some {packet_buf_size : ℤ} {blocks : ℕ → Option (List Byte)} {p : Buffer} {j : ℕ} (fuel : ℕ) :
    ∀ {k : ℕ}, endFrom packet_buf_size blocks p fuel k = some j ↔ k ≤ j ∧ j < k + fuel ∧ Last packet_buf_size blocks p j
      ∧ ∀ i, k ≤ i → i < j → ¬ Last packet_buf_size blocks p i := by
  -- by the rounds that are left: round `k` is the last one, or it is looked for behind it
  induction fuel with
  | zero =>
      intro k
      constructor
      · intro h
        exact absurd h (Option.some_ne_none j).symm
      · rintro ⟨hle, hlt, -⟩
        omega
  | succ fuel ih =>
      intro k
      rw [endFrom]
      split
      · next hlast =>
          constructor
          · intro h
            obtain rfl := Option.some.inj h
            exact ⟨le_refl _, by omega, hlast, fun i hlo hhi => by omega⟩
          · rintro ⟨hle, -, -, hbefore⟩
            by_contra hne
            exact hbefore k (le_refl k) (lt_of_le_of_ne hle fun h => hne (congrArg some h)) hlast
      · next hmore =>
          rw [ih]
          constructor
          · rintro ⟨hle, hlt, hlast, hbefore⟩
            refine ⟨by omega, by omega, hlast, fun i hlo hhi => ?_⟩
            rcases Nat.eq_or_lt_of_le hlo with rfl | hlo
            · exact hmore
            · exact hbefore i hlo hhi
          · rintro ⟨hle, hlt, hlast, hbefore⟩
            have hne : k ≠ j := fun h => hmore (h ▸ hlast)
            exact ⟨by omega, by omega, hlast, fun i hlo hhi => hbefore i (by omega) hhi⟩

/-- The first of all rounds that is the last one. -/
theorem endFrom_zero {packet_buf_size : ℤ} {blocks : ℕ → Option (List Byte)} {p : Buffer} {fuel j : ℕ} :
    endFrom packet_buf_size blocks p fuel 0 = some j ↔ EndsAt packet_buf_size blocks p j ∧ j < fuel := by
  rw [endFrom_eq_some]
  constructor
  · rintro ⟨-, hlt, hlast, hbefore⟩
    exact ⟨⟨hlast, fun i hi => hbefore i (Nat.zero_le i) hi⟩, by omega⟩
  · rintro ⟨⟨hlast, hbefore⟩, hlt⟩
    exact ⟨Nat.zero_le j, by omega, hlast, fun i _ hi => hbefore i hi⟩

/-- There is only one. -/
theorem EndsAt.unique {packet_buf_size : ℤ} {blocks : ℕ → Option (List Byte)} {p : Buffer} {j k : ℕ}
    (hj : EndsAt packet_buf_size blocks p j) (hk : EndsAt packet_buf_size blocks p k) : j = k := by
  rcases Nat.lt_trichotomy j k with hlt | heq | hgt
  · exact absurd hj.1 (hk.2 j hlt)
  · exact heq
  · exact absurd hk.1 (hj.2 k hgt)

/-- Stores from an index on leave what is before it. -/
theorem stored_of_lt (out : ℕ) {i : ℤ} (l : List (ℕ × ℤ × Byte)) : ∀ (m : Buffer), (∀ st ∈ l, i < st.2.1) →
    stored out l m i = m i := by
  induction l with
  | nil => exact fun _ _ => rfl
  | cons st l ih =>
      intro m hall
      obtain ⟨buffer, index, x⟩ := st
      have hlt : i < index := hall _ List.mem_cons_self
      rw [stored, ih _ fun st hst => hall st (List.mem_cons_of_mem _ hst)]
      split
      · exact Buffer.set_of_ne m x (by omega)
      · rfl

section Rounds

variable (server : JudoServer) (t_node : ssl_node) (t_poll : pollfd) (blocks : ℕ → Option (List Byte)) (m : Leftovers)

/-- A read that brings nothing. -/
theorem taken_cons_of_nonpos {r : Option (List Byte)} (h : bytesRead r ≤ 0) (fd size : ℤ) (tr : List (Event Op Ans)) :
    taken (⟨.read fd size, r⟩ :: tr) = taken tr := by
  rcases r with _ | _ | ⟨x, l⟩
  · rfl
  · rfl
  · exact absurd (bytesRead_pos (List.cons_ne_nil x l)) (not_lt.mpr h)

/-- A read that brings a block. -/
theorem taken_cons_of_pos {r : Option (List Byte)} (h : 0 < bytesRead r) (fd size : ℤ) (tr : List (Event Op Ans)) :
    taken (⟨.read fd size, r⟩ :: tr) ≠ [] := by
  rcases r with _ | _ | ⟨x, l⟩
  · exact absurd h (by decide)
  · exact absurd h (by decide)
  · exact List.cons_ne_nil _ _

/-- The copying loop stores from its index on, and the reads stay where they were. -/
theorem copy_leftovers (out : ℕ) (q : Buffer) (n : ℕ) : ∀ (i index : ℤ) (s : ℕ × Bool),
    ∃ tr, Prog.exec (m.answer blocks) (judoRead_.copy out q n i index) s = (tr, (), s)
      ∧ (∀ st ∈ stores tr, index ≤ st.2.1 ∧ 0 < n) ∧ (0 < n → ∃ x, (out, index, x) ∈ stores tr) ∧ allocs tr = [] := by
  induction n with
  | zero =>
      intro i index s
      exact ⟨[], rfl, fun st hst => absurd hst List.not_mem_nil, fun h => absurd h (lt_irrefl 0), rfl⟩
  | succ n ih =>
      intro i index s
      obtain ⟨tr, hexec, hstores, -, hallocs⟩ := ih (i + 1) (index + 1) s
      refine ⟨⟨.store out index (q (8 + i)), ()⟩ :: tr, ?_, ?_, fun _ => ⟨q (8 + i), List.mem_cons_self⟩, hallocs⟩
      · rw [judoRead_.copy, Prog.op_bind, Prog.exec_call]
        show (_ :: (Prog.exec (m.answer blocks) _ s).1, (Prog.exec (m.answer blocks) _ s).2) = _
        rw [hexec]
      · intro st hst
        rw [stores_cons] at hst
        rcases List.mem_cons.mp hst with rfl | hst
        · exact ⟨le_refl _, Nat.succ_pos n⟩
        · have hle := (hstores st hst).1
          exact ⟨by omega, Nat.succ_pos n⟩

variable (buffer : ℕ) (packet_buf_size : ℤ)

/-- A round whose read brings nothing. -/
theorem round_cut (fuel : ℕ) (p : Buffer) (out : ℕ) (index size : ℤ) {s : ℕ × Bool} (hcut : bytesRead (blocks s.1) ≤ 0) :
    ∃ tr server' s', Prog.exec (m.answer blocks) (judoRead_.loop server t_node t_poll buffer packet_buf_size (fuel + 1) p
        out index size) s = (tr, some (server', -1, out, size), s') ∧ stores tr = [] ∧ taken tr = [] ∧ allocs tr = [] := by
  rw [judoRead_.loop, Prog.op_bind, Prog.exec_call]
  have hle : bytesRead (m.answer blocks s (.read t_node.fp packet_buf_size)).1 ≤ 0 := hcut
  rw [if_pos hle]
  exact ⟨_, _, _, rfl, rfl, taken_cons_of_nonpos hcut _ _ [], rfl⟩

/-- A round that has a packet and an array for it. -/
theorem round_packet (hplain : t_node.certs = false) (fuel : ℕ) (p : Buffer) (out : ℕ) (index size : ℤ) {out' : ℕ} {size' : ℤ}
    {s s' : ℕ × Bool} {q : Buffer} (hq : p.fill ((blocks s.1).getD []) = q) (hpos : 0 < bytesRead (blocks s.1))
    {trᵣ : List (Event Op Ans)}
    (hreserve : Prog.exec (m.answer blocks) (judoRead_.reserve (q.int32 4) packet_buf_size out size) (s.1 + 1, s.2)
      = (trᵣ, some (out', size'), s')) (hnone : stores trᵣ = []) :
    let x := Prog.exec (m.answer blocks) (judoRead_.loop server t_node t_poll buffer packet_buf_size fuel
      (q.set (packet_buf_size - 32) 0) out' (index + (packet_buf_size - 40).toNat) size') s'
    ∃ tr, (∀ st ∈ stores tr, index ≤ st.2.1 ∧ 0 < (packet_buf_size - 40).toNat)
      ∧ (0 < (packet_buf_size - 40).toNat → ∃ y, (out', index, y) ∈ stores tr) ∧ allocs tr = allocs trᵣ
      ∧ (∀ tr', taken (tr ++ tr') ≠ [])
      ∧ (q.int32 0 = q.int32 4 → ∃ s'', Prog.exec (m.answer blocks) (judoRead_.loop server t_node t_poll buffer
          packet_buf_size (fuel + 1) p out index size) s = (tr, some (server, 0, out', size'), s''))
      ∧ (q.int32 0 ≠ q.int32 4 → Prog.exec (m.answer blocks) (judoRead_.loop server t_node t_poll buffer
          packet_buf_size (fuel + 1) p out index size) s = (tr ++ x.1, x.2)) := by
  intro x
  obtain ⟨trₖ, hcopy, hstores, hfirst, hallocs⟩ := copy_leftovers blocks m out' (q.set (packet_buf_size - 32) 0)
    (packet_buf_size - 40).toNat 0 index s'
  have hgt : ¬ bytesRead (m.answer blocks s (.read t_node.fp packet_buf_size)).1 ≤ 0 := not_le.mpr hpos
  have hfill : p.fill ((m.answer blocks s (.read t_node.fp packet_buf_size)).1.getD []) = q := hq
  have hstate : (m.answer blocks s (.read t_node.fp packet_buf_size)).2 = (s.1 + 1, s.2) := rfl
  have hunseal : ∀ n, judoRead_.unseal t_node packet_buf_size n q = pure q := by
    intro n
    unfold judoRead_.unseal
    rw [if_neg (by rw [hplain]; exact Bool.false_ne_true)]
  rw [judoRead_.loop, Prog.op_bind, Prog.exec_call, if_neg hgt, hfill, hstate, hunseal, Prog.pure_eq, Prog.ret_bind]
  dsimp only
  rw [Prog.exec_bind, hreserve]
  dsimp only
  rw [Prog.exec_bind, hcopy]
  -- the round is the last one when the two numbers of its header are equal
  by_cases hab : q.int32 0 = q.int32 4
  · rw [if_neg (not_not.mpr hab)]
    refine ⟨⟨.read t_node.fp packet_buf_size, (m.answer blocks s (.read t_node.fp packet_buf_size)).1⟩ ::
      (trᵣ ++ (trₖ ++ [⟨.delete_char buffer, ()⟩, ⟨.unlock t_node.addr, ()⟩])), ?_, ?_, ?_,
      fun tr' => taken_cons_of_pos hpos _ _ _, fun _ => ⟨_, rfl⟩, fun h => absurd hab h⟩
    · intro st hst
      rw [stores_cons, List.nil_append, stores_append, hnone, List.nil_append, stores_append] at hst
      rcases List.mem_append.mp hst with hst | hst
      · exact hstores st hst
      · exact absurd hst List.not_mem_nil
    · intro hroom
      obtain ⟨y, hy⟩ := hfirst hroom
      refine ⟨y, ?_⟩
      rw [stores_cons, List.nil_append, stores_append, hnone, List.nil_append, stores_append]
      exact List.mem_append_left _ hy
    · show allocs (trᵣ ++ (trₖ ++ _)) = _
      rw [allocs_append, allocs_append, hallocs]
      exact List.append_nil _
  · rw [if_pos hab]
    refine ⟨⟨.read t_node.fp packet_buf_size, (m.answer blocks s (.read t_node.fp packet_buf_size)).1⟩ :: (trᵣ ++ trₖ), ?_,
      ?_, ?_, fun tr' => taken_cons_of_pos hpos _ _ _, fun h => absurd h hab, fun _ => ?_⟩
    · intro st hst
      rw [stores_cons, List.nil_append, stores_append, hnone, List.nil_append] at hst
      exact hstores st hst
    · intro hroom
      rw [stores_cons, List.nil_append, stores_append, hnone, List.nil_append]
      exact hfirst hroom
    · show allocs (trᵣ ++ trₖ) = _
      rw [allocs_append, hallocs, List.append_nil]
    · simp only [List.cons_append, List.append_assoc]
      rfl

/-- A round that has a packet, for which `new` throws. -/
theorem round_throw (hplain : t_node.certs = false) (fuel : ℕ) (p : Buffer) (out : ℕ) (index : ℤ) {size : ℤ}
    (hsize : size = -1) {s : ℕ × Bool} {q : Buffer} (hq : p.fill ((blocks s.1).getD []) = q) (hpos : 0 < bytesRead (blocks s.1))
    (hneg : toInt32 (q.int32 4 * packet_buf_size) < 0) :
    ∃ tr s', Prog.exec (m.answer blocks) (judoRead_.loop server t_node t_poll buffer packet_buf_size (fuel + 1) p out index
      size) s = (tr, none, s') ∧ stores tr = [] ∧ taken tr ≠ [] ∧ allocs tr = [] := by
  have hgt : ¬ bytesRead (m.answer blocks s (.read t_node.fp packet_buf_size)).1 ≤ 0 := not_le.mpr hpos
  have hfill : p.fill ((m.answer blocks s (.read t_node.fp packet_buf_size)).1.getD []) = q := hq
  have hunseal : ∀ n, judoRead_.unseal t_node packet_buf_size n q = pure q := by
    intro n
    unfold judoRead_.unseal
    rw [if_neg (by rw [hplain]; exact Bool.false_ne_true)]
  have hreserve : ∀ s', Prog.exec (m.answer blocks) (judoRead_.reserve (q.int32 4) packet_buf_size out size) s'
      = ([], none, s') := by
    intro s'
    rw [judoRead_.reserve, if_pos hsize, if_pos hneg]
    rfl
  have hstate : (m.answer blocks s (.read t_node.fp packet_buf_size)).2 = (s.1 + 1, s.2) := rfl
  rw [judoRead_.loop, Prog.op_bind, Prog.exec_call, if_neg hgt, hfill, hstate, hunseal, Prog.pure_eq, Prog.ret_bind]
  dsimp only
  rw [Prog.exec_bind, hreserve]
  exact ⟨_, _, rfl, rfl, taken_cons_of_pos hpos _ _ [], rfl⟩

/-- The array that the first packet announces. -/
theorem reserve_leftovers {p : Buffer} (hsize : 0 ≤ announced packet_buf_size blocks p) (k : ℕ) :
    ∃ tr, Prog.exec (m.answer blocks) (judoRead_.reserve ((packetAt packet_buf_size blocks p 0).int32 4) packet_buf_size
        0 (-1)) (k, true) = (tr, some (1, announced packet_buf_size blocks p), (k, true))
      ∧ stores tr = [] ∧ (allocs tr).length = 1 := by
  unfold announced at hsize ⊢
  rw [judoRead_.reserve, if_pos rfl, if_neg (not_lt.mpr hsize)]
  exact ⟨_, rfl, rfl, rfl⟩

/-- The rounds of a call that has an array: they end where `endFrom` says, if there are
enough of them, and store from their index on. -/
theorem rounds_known (hplain : t_node.certs = false) (out : ℕ) {size : ℤ} (hsize : size ≠ -1) (p₀ : Buffer) (fuel : ℕ) :
    ∀ (k : ℕ) (b : Bool) (p : Buffer) (index : ℤ),
      p.fill ((blocks k).getD []) = packetAt packet_buf_size blocks p₀ k →
      let x := Prog.exec (m.answer blocks) (judoRead_.loop server t_node t_poll buffer packet_buf_size fuel p out index size)
        (k, b)
      x.2.1.map (fun r => r.2) = (endFrom packet_buf_size blocks p₀ fuel k).map (fun j => (codeAt blocks j, out, size))
        ∧ ∀ st ∈ stores x.1, index ≤ st.2.1 ∧ 0 < (packet_buf_size - 40).toNat := by
  induction fuel with
  | zero =>
      intro k b p index hp
      exact ⟨rfl, fun st hst => absurd hst List.not_mem_nil⟩
  | succ fuel ih =>
      intro k b p index hp
      dsimp only
      rw [endFrom]
      -- a round reads nothing, or a packet that is the last one, or one that is not
      by_cases hcut : bytesRead (blocks k) ≤ 0
      · obtain ⟨tr, server', s', hexec, hnone, -⟩ := round_cut server t_node t_poll blocks m buffer packet_buf_size
          fuel p out index size (s := (k, b)) hcut
        have hend : Last packet_buf_size blocks p₀ k := Or.inl hcut
        rw [hexec, if_pos hend, hnone]
        refine ⟨?_, fun st hst => absurd hst List.not_mem_nil⟩
        rw [Option.map_some, Option.map_some, codeAt, if_pos hcut]
      · have hreserve : Prog.exec (m.answer blocks)
            (judoRead_.reserve ((packetAt packet_buf_size blocks p₀ k).int32 4) packet_buf_size out size) (k + 1, b)
            = ([], some (out, size), (k + 1, b)) := by
          rw [judoRead_.reserve, if_neg hsize]
          exact rfl
        obtain ⟨tr, hstores, -, -, -, hlast, hmore⟩ := round_packet server t_node t_poll blocks m buffer packet_buf_size
          hplain fuel p out index size (s := (k, b)) hp (not_le.mp hcut) hreserve rfl
        by_cases hab : (packetAt packet_buf_size blocks p₀ k).int32 0 = (packetAt packet_buf_size blocks p₀ k).int32 4
        · obtain ⟨s'', hexec⟩ := hlast hab
          have hend : Last packet_buf_size blocks p₀ k := Or.inr hab
          rw [hexec, if_pos hend]
          refine ⟨?_, hstores⟩
          rw [Option.map_some, Option.map_some, codeAt, if_neg hcut]
        · have hnot : ¬ Last packet_buf_size blocks p₀ k := fun h => h.elim hcut hab
          obtain ⟨hret, hrest⟩ := ih (k + 1) b ((packetAt packet_buf_size blocks p₀ k).set (packet_buf_size - 32) 0)
            (index + (packet_buf_size - 40).toNat) rfl
          rw [hmore hab, if_neg hnot]
          refine ⟨hret, fun st hst => ?_⟩
          rw [stores_append] at hst
          rcases List.mem_append.mp hst with hst | hst
          · exact hstores st hst
          · obtain ⟨hle, hroom⟩ := hrest st hst
            exact ⟨by omega, hroom⟩

/-- Rounds of packets without a payload store nothing. -/
theorem stores_loop_flat (hplain : t_node.certs = false) (hB : t_node.bufferSize ≤ 40) (fuel : ℕ) :
    stores (Prog.exec (m.answer blocks) (judoRead_.loop server t_node t_poll 0 t_node.bufferSize fuel m.packet 0 m.index (-1))
      (0, true)).1 = [] := by
  have hempty : ∀ {tr : List (Event Op Ans)} {index : ℤ},
      (∀ st ∈ stores tr, index ≤ st.2.1 ∧ 0 < (t_node.bufferSize - 40).toNat) → stores tr = [] := by
    intro tr index hall
    refine List.eq_nil_iff_forall_not_mem.mpr fun st hst => ?_
    have hroom := (hall st hst).2
    omega
  cases fuel with
  | zero => rfl
  | succ fuel =>
      -- by the first round: the connection ends, new[] throws, or the packet is copied, and then
      -- the later rounds are those of a known size
      by_cases hcut : bytesRead (blocks 0) ≤ 0
      · obtain ⟨tr, server', s', hexec, hnone, -⟩ := round_cut server t_node t_poll blocks m 0 t_node.bufferSize fuel
          m.packet 0 m.index (-1) (s := (0, true)) hcut
        rw [hexec, hnone]
      have hpos := not_le.mp hcut
      by_cases hneg : announced t_node.bufferSize blocks m.packet < 0
      · obtain ⟨tr, s', hexec, hnone, -⟩ := round_throw server t_node t_poll blocks m 0 t_node.bufferSize hplain fuel
          m.packet 0 m.index rfl (s := (0, true)) rfl hpos hneg
        rw [hexec, hnone]
      · obtain ⟨trᵣ, hreserve, hnone, -⟩ := reserve_leftovers blocks m t_node.bufferSize (not_lt.mp hneg) 1
        obtain ⟨tr, hstores, -, -, -, hlast, hmore⟩ := round_packet server t_node t_poll blocks m 0 t_node.bufferSize hplain
          fuel m.packet 0 m.index (-1) (s := (0, true)) (q := packetAt t_node.bufferSize blocks m.packet 0) rfl hpos
          hreserve hnone
        have hne : announced t_node.bufferSize blocks m.packet ≠ -1 := by omega
        by_cases hab : (packetAt t_node.bufferSize blocks m.packet 0).int32 0
            = (packetAt t_node.bufferSize blocks m.packet 0).int32 4
        · obtain ⟨s'', hexec⟩ := hlast hab
          rw [hexec]
          exact hempty hstores
        · obtain ⟨-, hrest⟩ := rounds_known server t_node t_poll blocks m 0 t_node.bufferSize hplain 1 hne m.packet fuel 1 true
            ((packetAt t_node.bufferSize blocks m.packet 0).set (t_node.bufferSize - 32) 0)
            (m.index + (t_node.bufferSize - 40).toNat) rfl
          rw [hmore hab]
          dsimp only
          rw [stores_append, hempty hstores, List.nil_append]
          exact hempty hrest

/-- The call, from its rounds. -/
theorem outcome_eq (fuel : ℕ) : outcome server t_node t_poll blocks m fuel
    = (let x := Prog.exec (m.answer blocks) (judoRead_.loop server t_node t_poll 0 t_node.bufferSize fuel m.packet 0 m.index
        (-1)) (0, true)
      x.2.1.map fun r => (r.2.1, r.2.2.2, (stored r.2.2.1 (stores x.1) m.out).bytes r.2.2.2)) := rfl

/-- A call whose first read brings nothing. -/
theorem outcome_cut (hcut : bytesRead (blocks 0) ≤ 0) (fuel : ℕ) :
    outcome server t_node t_poll blocks m (fuel + 1) = some (-1, -1, []) := by
  obtain ⟨tr, server', s', hexec, -⟩ := round_cut server t_node t_poll blocks m 0 t_node.bufferSize fuel m.packet
    0 m.index (-1) (s := (0, true)) hcut
  rw [outcome_eq, hexec]
  rfl

/-- A call whose first packet announces a negative size. -/
theorem outcome_throw (hplain : t_node.certs = false) (hpos : 0 < bytesRead (blocks 0))
    (hneg : announced t_node.bufferSize blocks m.packet < 0) (fuel : ℕ) :
    outcome server t_node t_poll blocks m fuel = none := by
  cases fuel with
  | zero => rfl
  | succ fuel =>
      obtain ⟨tr, s', hthrow, -⟩ := round_throw server t_node t_poll blocks m 0 t_node.bufferSize hplain fuel m.packet 0
        m.index rfl (s := (0, true)) rfl hpos hneg
      rw [outcome_eq]
      dsimp only
      rw [hthrow, Option.map_none]

/-- A call whose first packet announces a size that there is an array for. -/
theorem outcome_spec (hplain : t_node.certs = false) (hpos : 0 < bytesRead (blocks 0))
    (hsize : 0 ≤ announced t_node.bufferSize blocks m.packet) (fuel : ℕ) :
    ∃ l : List (ℕ × ℤ × Byte), (∀ st ∈ l, m.index ≤ st.2.1)
      ∧ outcome server t_node t_poll blocks m fuel = (endFrom t_node.bufferSize blocks m.packet fuel 0).map fun j =>
        (codeAt blocks j, announced t_node.bufferSize blocks m.packet,
          (stored 1 l m.out).bytes (announced t_node.bufferSize blocks m.packet)) := by
  -- the first round makes the array, and all others find it there
  cases fuel with
  | zero => exact ⟨[], fun st hst => absurd hst List.not_mem_nil, rfl⟩
  | succ fuel =>
      obtain ⟨trᵣ, hreserve, hnone, -⟩ := reserve_leftovers blocks m t_node.bufferSize hsize 1
      obtain ⟨tr, hstores, -, -, -, hlast, hmore⟩ := round_packet server t_node t_poll blocks m 0 t_node.bufferSize hplain fuel
        m.packet 0 m.index (-1) (s := (0, true)) (q := packetAt t_node.bufferSize blocks m.packet 0) rfl hpos hreserve hnone
      rw [outcome_eq, endFrom]
      by_cases hab : (packetAt t_node.bufferSize blocks m.packet 0).int32 0 = (packetAt t_node.bufferSize blocks m.packet 0).int32 4
      · obtain ⟨s'', hexec⟩ := hlast hab
        have hend : Last t_node.bufferSize blocks m.packet 0 := Or.inr hab
        have hcode : codeAt blocks 0 = 0 := if_neg (not_le.mpr hpos)
        refine ⟨stores tr, fun st hst => (hstores st hst).1, ?_⟩
        rw [hexec, if_pos hend, Option.map_some, Option.map_some, hcode]
      · have hnot : ¬ Last t_node.bufferSize blocks m.packet 0 := fun h => h.elim (not_le.mpr hpos) hab
        have hne : announced t_node.bufferSize blocks m.packet ≠ -1 := by omega
        obtain ⟨hret, hrest⟩ := rounds_known server t_node t_poll blocks m 0 t_node.bufferSize hplain 1 hne m.packet fuel 1 true
          ((packetAt t_node.bufferSize blocks m.packet 0).set (t_node.bufferSize - 32) 0)
          (m.index + (t_node.bufferSize - 40).toNat) rfl
        rw [hmore hab, if_neg hnot]
        dsimp only
        generalize Prog.exec (m.answer blocks) (judoRead_.loop server t_node t_poll 0 t_node.bufferSize fuel
          ((packetAt t_node.bufferSize blocks m.packet 0).set (t_node.bufferSize - 32) 0) 1
          (m.index + (t_node.bufferSize - 40).toNat) (announced t_node.bufferSize blocks m.packet)) (1, true) = x at hret hrest
        refine ⟨stores (tr ++ x.1), fun st hst => ?_, ?_⟩
        · rw [stores_append] at hst
          rcases List.mem_append.mp hst with hst | hst
          · exact (hstores st hst).1
          · have hle := (hrest st hst).1
            omega
        · cases hx : x.2.1 with
          | none =>
              rw [hx, Option.map_none] at hret
              rw [Option.map_none, Option.map_eq_none_iff.mp hret.symm, Option.map_none]
          | some r =>
              rw [hx, Option.map_some] at hret
              obtain ⟨j, hj, hr⟩ := Option.map_eq_some_iff.mp hret.symm
              rw [hj, Option.map_some, Option.map_some, ← hr]

end Rounds

/-- A call that has returned has had a read that brought nothing, or ended with a round
of its own. -/
theorem ends_of_outcome {server : JudoServer} {t_node : ssl_node} {t_poll : pollfd} {blocks : ℕ → Option (List Byte)}
    {m : Leftovers} (hplain : t_node.certs = false) (hpos : 0 < bytesRead (blocks 0)) {fuel : ℕ} {r : ℤ × ℤ × List Byte}
    (hret : outcome server t_node t_poll blocks m fuel = some r) :
    0 ≤ announced t_node.bufferSize blocks m.packet ∧ ∃ j l, EndsAt t_node.bufferSize blocks m.packet j
      ∧ (∀ st ∈ l, m.index ≤ st.2.1) ∧ r = (codeAt blocks j, announced t_node.bufferSize blocks m.packet,
        (stored 1 l m.out).bytes (announced t_node.bufferSize blocks m.packet)) := by
  by_cases hneg : announced t_node.bufferSize blocks m.packet < 0
  · rw [outcome_throw server t_node t_poll blocks m hplain hpos hneg] at hret
    exact absurd hret (Option.some_ne_none r).symm
  · obtain ⟨l, hl, hout⟩ := outcome_spec server t_node t_poll blocks m hplain hpos (not_lt.mp hneg) fuel
    rw [hout] at hret
    obtain ⟨j, hj, rfl⟩ := Option.map_eq_some_iff.mp hret
    exact ⟨not_lt.mp hneg, j, l, (endFrom_zero.mp hj).1, hl, rfl⟩

/-- And a call returns, with enough rounds, if they end and `new` does not throw. -/
theorem outcome_of_ends (server : JudoServer) {t_node : ssl_node} (t_poll : pollfd) {blocks : ℕ → Option (List Byte)}
    {m : Leftovers} (hplain : t_node.certs = false) (hpos : 0 < bytesRead (blocks 0))
    (hsize : 0 ≤ announced t_node.bufferSize blocks m.packet) {j : ℕ} (hends : EndsAt t_node.bufferSize blocks m.packet j) :
    ∃ l : List (ℕ × ℤ × Byte), (∀ st ∈ l, m.index ≤ st.2.1)
      ∧ outcome server t_node t_poll blocks m (j + 1) = some (codeAt blocks j, announced t_node.bufferSize blocks m.packet,
        (stored 1 l m.out).bytes (announced t_node.bufferSize blocks m.packet)) := by
  obtain ⟨l, hl, hout⟩ := outcome_spec server t_node t_poll blocks m hplain hpos hsize (j + 1)
  rw [endFrom_zero.mpr ⟨hends, Nat.lt_succ_self j⟩, Option.map_some] at hout
  exact ⟨l, hl, hout⟩

/-- The first byte of an array that only has been stored to after its end. -/
theorem head_stored {out : ℕ} {l : List (ℕ × ℤ × Byte)} {size : ℤ} (hsize : 0 < size) (hl : ∀ st ∈ l, size ≤ st.2.1)
    (m : Buffer) : ((stored out l m).bytes size).head? = some (m 0) := by
  obtain ⟨k, rfl⟩ : ∃ k : ℕ, size = (k + 1 : ℕ) := ⟨(size - 1).toNat, by omega⟩
  have hzero : stored out l m 0 = m 0 := stored_of_lt out l m fun st hst => lt_of_lt_of_le hsize (hl st hst)
  unfold Buffer.bytes
  rw [Int.toNat_natCast, List.range_succ_eq_map, List.map_cons, List.head?_cons]
  exact congrArg some hzero

/-- Two rounds return the same when both or neither read nothing. -/
theorem codeAt_eq_iff {blocks : ℕ → Option (List Byte)} {j k : ℕ} :
    codeAt blocks j = codeAt blocks k ↔ (bytesRead (blocks j) ≤ 0 ↔ bytesRead (blocks k) ≤ 0) := by
  unfold codeAt
  by_cases hj : bytesRead (blocks j) ≤ 0 <;> by_cases hk : bytesRead (blocks k) ≤ 0 <;> simp [hj, hk]

section

variable {server : JudoServer} {t_node : ssl_node} {t_poll : pollfd} {blocks : ℕ → Option (List Byte)}

/-- The array is empty: with `index` at its end nothing is stored before it, and its first
byte is what it held. -/
theorem SameOutcome.announced_eq_zero (hsame : SameOutcome server t_node t_poll blocks) (hplain : t_node.certs = false)
    (hpos : 0 < bytesRead (blocks 0)) {p : Buffer} {k : ℕ} (hends : EndsAt t_node.bufferSize blocks p k)
    (hsize : 0 ≤ announced t_node.bufferSize blocks p) : announced t_node.bufferSize blocks p = 0 := by
  by_contra hne
  have hlong : 0 < announced t_node.bufferSize blocks p := lt_of_le_of_ne hsize (Ne.symm hne)
  obtain ⟨l, hl, hout⟩ := outcome_of_ends server t_poll
    (m := ⟨announced t_node.bufferSize blocks p, p, fun _ => 0⟩) hplain hpos hsize hends
  obtain ⟨fuel, hout'⟩ := hsame _ ⟨announced t_node.bufferSize blocks p, p, fun _ => 1⟩ _ _ hout
  obtain ⟨-, j, l', -, hl', hr⟩ := ends_of_outcome hplain hpos hout'
  have hbytes := congrArg (fun r : ℤ × ℤ × List Byte => r.2.2.head?) hr
  dsimp only at hbytes hl hl'
  rw [head_stored hlong hl, head_stored hlong hl'] at hbytes
  exact absurd (Option.some.inj hbytes) (by decide)

/-- When one call returns with an empty array, every other does, and with the same code. -/
theorem SameOutcome.ends (hsame : SameOutcome server t_node t_poll blocks) (hplain : t_node.certs = false)
    (hpos : 0 < bytesRead (blocks 0)) {p : Buffer} {k : ℕ} (hends : EndsAt t_node.bufferSize blocks p k)
    (hempty : announced t_node.bufferSize blocks p = 0) (p' : Buffer) : announced t_node.bufferSize blocks p' = 0
      ∧ ∃ j, EndsAt t_node.bufferSize blocks p' j ∧ (bytesRead (blocks k) ≤ 0 ↔ bytesRead (blocks j) ≤ 0) := by
  obtain ⟨l, -, hout⟩ := outcome_of_ends server t_poll (m := ⟨0, p, fun _ => 0⟩) hplain hpos (le_of_eq hempty.symm) hends
  obtain ⟨fuel, hout'⟩ := hsame _ ⟨0, p', fun _ => 0⟩ _ _ hout
  obtain ⟨-, j, l', hends', -, hr⟩ := ends_of_outcome hplain hpos hout'
  obtain ⟨hcode, hrest⟩ := Prod.mk.inj hr
  obtain ⟨hsame', -⟩ := Prod.mk.inj hrest
  exact ⟨hsame'.symm.trans hempty, j, hends', codeAt_eq_iff.mp hcode⟩

/-- The other way round: with empty arrays only, and one code, the memory is not seen. -/
theorem sameOutcome_of_empty (hplain : t_node.certs = false) (hpos : 0 < bytesRead (blocks 0))
    (hempty : ∀ p, announced t_node.bufferSize blocks p = 0)
    (hends : ∀ p p' j, EndsAt t_node.bufferSize blocks p j → ∃ k, EndsAt t_node.bufferSize blocks p' k
      ∧ (bytesRead (blocks k) ≤ 0 ↔ bytesRead (blocks j) ≤ 0)) : SameOutcome server t_node t_poll blocks := by
  intro m m' fuel r hret
  obtain ⟨hsize, j, l, hj, -, rfl⟩ := ends_of_outcome hplain hpos hret
  obtain ⟨k, hk, hcode⟩ := hends m.packet m'.packet j hj
  obtain ⟨l', -, hout⟩ := outcome_of_ends server t_poll (m := m') hplain hpos (le_of_eq (hempty m'.packet).symm) hk
  refine ⟨k + 1, hout.trans ?_⟩
  rw [codeAt_eq_iff.mpr hcode, hempty m.packet, hempty m'.packet]
  rfl

end

/-- Calls agree when the first read brings nothing, or none returns with an array, or
they return with an empty one and with the same code. The array of any other call shows
what the memory held. -/
theorem sameOutcome_iff (server : JudoServer) {t_node : ssl_node} (hplain : t_node.certs = false) (t_poll : pollfd)
    (blocks : ℕ → Option (List Byte)) : SameOutcome server t_node t_poll blocks
      ↔ bytesRead (blocks 0) ≤ 0
        ∨ (∀ p k, EndsAt t_node.bufferSize blocks p k → announced t_node.bufferSize blocks p < 0)
        ∨ ((∀ p, announced t_node.bufferSize blocks p = 0)
          ∧ ((∀ p, ∃ k, EndsAt t_node.bufferSize blocks p k ∧ bytesRead (blocks k) ≤ 0)
            ∨ ∀ p, ∃ k, EndsAt t_node.bufferSize blocks p k ∧ 0 < bytesRead (blocks k))) := by
  by_cases hcut : bytesRead (blocks 0) ≤ 0
  · refine iff_of_true ?_ (Or.inl hcut)
    intro m m' fuel r hret
    cases fuel with
    | zero => exact absurd hret (Option.some_ne_none r).symm
    | succ fuel =>
        rw [outcome_cut server t_node t_poll blocks m hcut] at hret
        exact ⟨1, (outcome_cut server t_node t_poll blocks m' hcut 0).trans hret⟩
  have hpos := not_le.mp hcut
  rw [or_iff_right hcut]
  -- either no call returns, or all do with an empty array; and then they must agree on the code
  constructor
  · intro hsame
    by_cases hnone : ∀ p k, EndsAt t_node.bufferSize blocks p k → announced t_node.bufferSize blocks p < 0
    · exact Or.inl hnone
    push Not at hnone
    obtain ⟨p, k, hends, hsize⟩ := hnone
    have hall := hsame.ends hplain hpos hends (hsame.announced_eq_zero hplain hpos hends hsize)
    refine Or.inr ⟨fun p' => (hall p').1, ?_⟩
    by_cases hk : bytesRead (blocks k) ≤ 0
    · refine Or.inl fun p' => ?_
      obtain ⟨-, j, hj, hcode⟩ := hall p'
      exact ⟨j, hj, hcode.mp hk⟩
    · refine Or.inr fun p' => ?_
      obtain ⟨-, j, hj, hcode⟩ := hall p'
      exact ⟨j, hj, not_le.mp fun h => hk (hcode.mpr h)⟩
  · rintro (hnone | ⟨hempty, hfail | hdone⟩)
    · -- no call returns, in whatever memory
      intro m m' fuel r hret
      obtain ⟨hsize, j, l, hends, -, -⟩ := ends_of_outcome hplain hpos hret
      exact absurd (hnone m.packet j hends) (not_lt.mpr hsize)
    · apply sameOutcome_of_empty hplain hpos hempty
      intro p p' j hj
      obtain ⟨j', hj', hcode⟩ := hfail p
      obtain ⟨k, hk, hcode'⟩ := hfail p'
      rw [hj.unique hj']
      exact ⟨k, hk, iff_of_true hcode' hcode⟩
    · apply sameOutcome_of_empty hplain hpos hempty
      intro p p' j hj
      obtain ⟨j', hj', hcode⟩ := hdone p
      obtain ⟨k, hk, hcode'⟩ := hdone p'
      rw [hj.unique hj']
      exact ⟨k, hk, iff_of_false (not_le.mpr hcode') (not_le.mpr hcode)⟩

section Containment

variable (server : JudoServer) (t_node : ssl_node) (t_poll : pollfd) (blocks : ℕ → Option (List Byte)) (m : Leftovers)

/-- The call does what its rounds do, after it has allocated the packet buffer. -/
theorem calls_eq (fuel : ℕ) : ∃ pre, stores pre = [] ∧ taken pre = [] ∧ (allocs pre).length = 1
    ∧ calls server t_node t_poll blocks m fuel = pre ++ (Prog.exec (m.answer blocks)
      (judoRead_.loop server t_node t_poll 0 t_node.bufferSize fuel m.packet 0 m.index (-1)) (0, true)).1 :=
  ⟨[⟨.lock t_node.addr, ()⟩, ⟨.indeterminate, m.index⟩, ⟨.new_char t_node.bufferSize, (0, m.packet)⟩], rfl, rfl, rfl, rfl⟩

theorem taken_append (tr tr' : List (Event Op Ans)) : taken (tr ++ tr') = taken tr ++ taken tr' :=
  List.filterMap_append ..

/-- Rounds without a store, without a block that is too short for its header, and without
an array that is too short for the terminator. -/
theorem contained_of_loop {fuel : ℕ} {tr : List (Event Op Ans)}
    (htr : (Prog.exec (m.answer blocks) (judoRead_.loop server t_node t_poll 0 t_node.bufferSize fuel m.packet 0 m.index
      (-1)) (0, true)).1 = tr) (hstores : stores tr = []) (hheader : taken tr ≠ [] → 8 ≤ t_node.bufferSize)
    (hterminator : allocs tr ≠ [] → 32 ≤ t_node.bufferSize) :
    Contained t_node.bufferSize (calls server t_node t_poll blocks m fuel) := by
  obtain ⟨pre, hpre, hnone, hone, hcalls⟩ := calls_eq server t_node t_poll blocks m fuel
  rw [hcalls, htr]
  refine ⟨fun out i x hmem => ?_, fun hne => hheader ?_, fun hlen => hterminator ?_⟩
  · rw [stores_append, hpre, hstores] at hmem
    exact absurd hmem List.not_mem_nil
  · rwa [taken_append, hnone, List.nil_append] at hne
  · rw [allocs_append, List.length_append, hone] at hlen
    exact List.ne_nil_of_length_pos (by omega)

/-- Nothing is done to the arrays when nothing comes in. -/
theorem contained_cut (hcut : bytesRead (blocks 0) ≤ 0) (fuel : ℕ) :
    Contained t_node.bufferSize (calls server t_node t_poll blocks m fuel) := by
  cases fuel with
  | zero => exact contained_of_loop server t_node t_poll blocks m rfl rfl (fun h => absurd rfl h) fun h => absurd rfl h
  | succ fuel =>
      obtain ⟨tr, server', s', hexec, hstores, hnone, hallocs⟩ := round_cut server t_node t_poll blocks m 0
        t_node.bufferSize fuel m.packet 0 m.index (-1) (s := (0, true)) hcut
      exact contained_of_loop server t_node t_poll blocks m (congrArg Prod.fst hexec) hstores (absurd hnone)
        (absurd hallocs)

/-- When `new` throws, only the header has been read. -/
theorem contained_throw (hplain : t_node.certs = false) (hB : 8 ≤ t_node.bufferSize) (hpos : 0 < bytesRead (blocks 0))
    (hneg : announced t_node.bufferSize blocks m.packet < 0) (fuel : ℕ) :
    Contained t_node.bufferSize (calls server t_node t_poll blocks m fuel) := by
  cases fuel with
  | zero => exact contained_of_loop server t_node t_poll blocks m rfl rfl (fun h => absurd rfl h) fun h => absurd rfl h
  | succ fuel =>
      obtain ⟨tr, s', hexec, hstores, -, hallocs⟩ := round_throw server t_node t_poll blocks m 0 t_node.bufferSize hplain
        fuel m.packet 0 m.index rfl (s := (0, true)) rfl hpos hneg
      exact contained_of_loop server t_node t_poll blocks m (congrArg Prod.fst hexec) hstores (fun _ => hB)
        (absurd hallocs)

/-- The first round of a call that takes a packet in: it reads a header, and when there is
an array, it allocates it and stores the first byte where `index` happens to be. -/
theorem first_round (hplain : t_node.certs = false) (hpos : 0 < bytesRead (blocks 0)) :
    taken (calls server t_node t_poll blocks m 1) ≠ []
      ∧ (0 ≤ announced t_node.bufferSize blocks m.packet → 1 < (allocs (calls server t_node t_poll blocks m 1)).length
        ∧ (40 < t_node.bufferSize → ∃ x, (1, m.index, x) ∈ stores (calls server t_node t_poll blocks m 1))) := by
  obtain ⟨pre, -, -, hone, hcalls⟩ := calls_eq server t_node t_poll blocks m 1
  rw [hcalls, taken_append, allocs_append, stores_append, List.length_append, hone]
  -- either new[] throws for a negative size, or a packet's worth is reserved and copied
  by_cases hneg : announced t_node.bufferSize blocks m.packet < 0
  · obtain ⟨tr, s', hexec, -, htaken, -⟩ := round_throw server t_node t_poll blocks m 0 t_node.bufferSize hplain 0
      m.packet 0 m.index rfl (s := (0, true)) rfl hpos hneg
    rw [hexec]
    exact ⟨List.append_ne_nil_of_right_ne_nil _ htaken, fun h => absurd hneg (not_lt.mpr h)⟩
  · obtain ⟨trᵣ, hreserve, hnone, hlen⟩ := reserve_leftovers blocks m t_node.bufferSize (not_lt.mp hneg) 1
    obtain ⟨tr, -, hfirst, hallocs, htaken, hlast, hmore⟩ := round_packet server t_node t_poll blocks m 0
      t_node.bufferSize hplain 0 m.packet 0 m.index (-1) (s := (0, true)) (q := packetAt t_node.bufferSize blocks m.packet 0)
      rfl hpos hreserve hnone
    obtain ⟨tr', hloop⟩ : ∃ tr', (Prog.exec (m.answer blocks) (judoRead_.loop server t_node t_poll 0 t_node.bufferSize 1
        m.packet 0 m.index (-1)) (0, true)).1 = tr ++ tr' := by
      by_cases hab : (packetAt t_node.bufferSize blocks m.packet 0).int32 0
          = (packetAt t_node.bufferSize blocks m.packet 0).int32 4
      · obtain ⟨s'', hexec⟩ := hlast hab
        exact ⟨[], (congrArg Prod.fst hexec).trans (List.append_nil tr).symm⟩
      · exact ⟨_, congrArg Prod.fst (hmore hab)⟩
    rw [hloop]
    refine ⟨List.append_ne_nil_of_right_ne_nil _ (htaken tr'), fun _ => ⟨?_, fun hB => ?_⟩⟩
    · rw [allocs_append, List.length_append, hallocs, hlen]
      omega
    · obtain ⟨x, hx⟩ := hfirst (by omega)
      rw [stores_append]
      exact ⟨x, List.mem_append_right _ (List.mem_append_left _ hx)⟩

/-- Packets of 32 bytes have no payload, so nothing is stored. -/
theorem contained_flat (hplain : t_node.certs = false) (hB : t_node.bufferSize = 32) (fuel : ℕ) :
    Contained t_node.bufferSize (calls server t_node t_poll blocks m fuel) := by
  have hnone := stores_loop_flat server t_node t_poll blocks m hplain (by omega) fuel
  exact contained_of_loop server t_node t_poll blocks m rfl hnone (fun _ => by omega) fun _ => by omega

end Containment

/-- **What is received is a function of the bytes that come in** exactly when nothing is
received at all: the first read brings nothing, or the first packet makes `new` throw. The
payload of any other packet goes where `index` happens to be, unless the packets have
32 bytes and with that no payload; then calls must agree on an array that nothing is
stored in. -/
theorem determined_iff (server : JudoServer) {t_node : ssl_node} (hplain : t_node.certs = false) (t_poll : pollfd)
    (blocks : ℕ → Option (List Byte)) : Determined server t_node t_poll blocks
      ↔ bytesRead (blocks 0) ≤ 0
        ∨ (8 ≤ t_node.bufferSize ∧ ∀ p, announced t_node.bufferSize blocks p < 0)
        ∨ (t_node.bufferSize = 32
          ∧ ((∀ p k, EndsAt t_node.bufferSize blocks p k → announced t_node.bufferSize blocks p < 0)
            ∨ ((∀ p, announced t_node.bufferSize blocks p = 0)
              ∧ ((∀ p, ∃ k, EndsAt t_node.bufferSize blocks p k ∧ bytesRead (blocks k) ≤ 0)
                ∨ ∀ p, ∃ k, EndsAt t_node.bufferSize blocks p k ∧ 0 < bytesRead (blocks k))))) := by
  have houtcome := sameOutcome_iff server hplain t_poll blocks
  by_cases hcut : bytesRead (blocks 0) ≤ 0
  · exact iff_of_true ⟨fun m fuel => contained_cut server t_node t_poll blocks m hcut fuel, houtcome.mpr (Or.inl hcut)⟩
      (Or.inl hcut)
  have hpos := not_le.mp hcut
  rw [or_iff_right hcut] at houtcome ⊢
  constructor
  · rintro ⟨hin, hsame⟩
    have hround := fun p => first_round server t_node t_poll blocks ⟨-1, p, fun _ => 0⟩ hplain hpos
    by_cases hthrow : ∀ p, announced t_node.bufferSize blocks p < 0
    · exact Or.inl ⟨(hin ⟨-1, fun _ => 0, fun _ => 0⟩ 1).header (hround _).1, hthrow⟩
    · push Not at hthrow
      obtain ⟨p, hsize⟩ := hthrow
      obtain ⟨-, harray⟩ := hround p
      obtain ⟨hlen, hstore⟩ := harray hsize
      have hsmall : ¬ 40 < t_node.bufferSize := by
        -- `index` may be -1
        intro hB
        obtain ⟨x, hx⟩ := hstore hB
        obtain ⟨size, -, hneg, -⟩ := (hin ⟨-1, p, fun _ => 0⟩ 1).stores _ _ _ hx
        have hfalse : (0 : ℤ) ≤ -1 := hneg
        exact absurd hfalse (by decide)
      exact Or.inr ⟨t_node.bufferSize_eq_32 ((hin _ 1).terminator hlen) (not_lt.mp hsmall), houtcome.mp hsame⟩
  · rintro (⟨hB, hthrow⟩ | ⟨hB, hflat⟩)
    · exact ⟨fun m fuel => contained_throw server t_node t_poll blocks m hplain hB hpos (hthrow m.packet) fuel,
        houtcome.mpr (Or.inl fun p _ _ => hthrow p)⟩
    · exact ⟨fun m fuel => contained_flat server t_node t_poll blocks m hplain hB fuel, houtcome.mpr hflat⟩

/-- A connection that is closed at once fails in every memory. -/
theorem determined_closed : Determined (.init_ default) node64 ⟨5, 1, 1⟩ fun _ => none :=
  (determined_iff (.init_ default) (by decide) ⟨5, 1, 1⟩ fun _ => none).mpr (Or.inl (by decide))

/-- One packet of 64 bytes that says that it is the first and the last one: `index` starts
from 0 in both memories, and byte 24 of the message is what the array held. -/
theorem not_determined : ¬ Determined (.init_ default) node64 ⟨5, 1, 1⟩
    fun _ => some ([1, 0, 0, 0, 1, 0, 0, 0] ++ List.replicate 56 0) := by
  intro hsame
  obtain ⟨fuel, hout⟩ := hsame.2 ⟨0, fun _ => 0, fun _ => 0⟩ ⟨0, fun _ => 0, fun _ => 1⟩ 1
    (0, 64, List.replicate 64 0) (by decide +kernel)
  cases fuel with
  | zero => exact absurd hout (Option.some_ne_none _).symm
  | succ fuel =>
      have hbyte : ∀ fuel, (outcome (.init_ default) node64 ⟨5, 1, 1⟩
          (fun _ => some ([1, 0, 0, 0, 1, 0, 0, 0] ++ List.replicate 56 0)) ⟨0, fun _ => 0, fun _ => 1⟩ (fuel + 1)).map
            (fun r => r.2.2[24]?) = some (some 1) := by
        intro fuel
        rfl
      have hone := hbyte fuel
      rw [hout] at hone
      exact absurd hone (by decide)

end JudoEngine
