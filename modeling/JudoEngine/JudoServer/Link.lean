/-
One direction of a connection, and what the calls at its two ends do to it.

A packet on the way has two sides: the bytes it is made of, and the bytes on the wire.
Without certificates they are the same. With them, what is made by `SSL_write` is
carried by whatever record OpenSSL gives out for it, and `SSL_read` returns what was
sealed: that is all that is assumed of TLS, and nothing about what a record looks like.

`Link.put` is what an operation of the sending end does to the link and `Link.take` what
one of the receiving end does, if the link can answer that way. Every packet is
delivered, in order, and by one read.
-/
import JudoEngine.JudoServer.Senders

set_option autoImplicit false

open Words Threads

namespace JudoEngine

/-! ## The link

One direction is a queue of packets. The two ends act on it by different operations, so their
effects are two functions. -/

/-- What a packet is made of, and what is on the wire. -/
abbrev Packet := List Byte × List Byte

/-- The plaintext that was sealed last and may not be on its way yet, the packets on
their way, and the plaintext of the one that was read last. -/
structure Link where
  sealing : List Byte
  flying : List Packet
  opening : List Byte

/-- A connection on which nothing has been sent. -/
def Link.empty : Link := ⟨[], [], []⟩

namespace Link

/-- An operation of the sending end. -/
def put (certs : Bool) (l : Link) : Event Op Ans → Link
  | ⟨.SSL_write _ p, _⟩ => { l with sealing := p }
  | ⟨.write _ _ d, _⟩ => { l with flying := l.flying ++ [(if certs then l.sealing else d, d)] }
  | _ => l

/-- An operation of the receiving end; `none` is an answer that it cannot get. A read
waits for a packet, and the uninitialised index starts from 0. -/
def take (l : Link) : Event Op Ans → Option Link
  | ⟨.read _ _, r⟩ =>
      match l.flying with
      | [] => none
      | p :: flying => if r = some p.2 then some { l with flying := flying, opening := p.1 } else none
  | ⟨.SSL_read _ _, c⟩ => if c = some l.opening then some l else none
  | ⟨.indeterminate, x⟩ => if x = 0 then some l else none
  | _ => some l

/-- Several operations of the sending end. -/
def puts (certs : Bool) : Link → List (Event Op Ans) → Link
  | l, [] => l
  | l, ev :: tr => puts certs (l.put certs ev) tr

/-- Several operations of the receiving end. -/
def takes : Link → List (Event Op Ans) → Option Link
  | l, [] => some l
  | l, ev :: tr => (l.take ev).bind fun l' => takes l' tr

/-- More packets behind those on their way. -/
def more (l : Link) (flying : List Packet) : Link := { l with flying := l.flying ++ flying }

variable {certs : Bool} {l l' : Link} {ev : Event Op Ans}

@[simp] theorem more_flying (flying : List Packet) : (l.more flying).flying = l.flying ++ flying := rfl

@[simp] theorem more_nil : l.more [] = l := by
  unfold more
  rw [List.append_nil]

@[simp] theorem puts_append (tr tr' : List (Event Op Ans)) : ∀ (l : Link), puts certs l (tr ++ tr') = puts certs (puts certs l tr) tr' := by
  induction tr with
  | nil => exact fun _ => rfl
  | cons ev tr ih => exact fun l => ih (l.put certs ev)

theorem takes_append (tr tr' : List (Event Op Ans)) : ∀ (l : Link), takes l (tr ++ tr') = (takes l tr).bind fun l' => takes l' tr' := by
  induction tr with
  | nil => exact fun _ => rfl
  | cons ev tr ih =>
      intro l
      rw [List.cons_append, takes, takes, Option.bind_assoc]
      exact congrArg _ (funext ih)

/-- What one operation can do: seal something, put a packet on the link, or nothing. -/
theorem put_cases (certs : Bool) (ev : Event Op Ans) : (∃ p, ∀ l : Link, l.put certs ev = { l with sealing := p })
    ∨ (∃ d, ∀ l : Link, l.put certs ev = l.more [(if certs then l.sealing else d, d)])
    ∨ ∀ l : Link, l.put certs ev = l := by
  obtain ⟨o, x⟩ := ev
  cases o with
  | SSL_write ssl p => exact .inl ⟨p, fun _ => rfl⟩
  | write fd n d => exact .inr (.inl ⟨d, fun _ => rfl⟩)
  | _ => exact .inr (.inr fun _ => rfl)

theorem takes_cons {tr : List (Event Op Ans)} (h : l.takes (ev :: tr) = some l') :
    ∃ l₁, l.take ev = some l₁ ∧ l₁.takes tr = some l' := Option.bind_eq_some_iff.mp h

theorem takes_split {tr tr' : List (Event Op Ans)} (h : l.takes (tr ++ tr') = some l') :
    ∃ l₁, l.takes tr = some l₁ ∧ l₁.takes tr' = some l' := by
  rw [takes_append] at h
  exact Option.bind_eq_some_iff.mp h

/-! ## What the receiving end can get

A read that can be answered has the first packet for its answer, and what the other end does
in the meantime does not change that. -/

/-- A read gets the first packet. -/
theorem take_read {fd n : ℤ} {r : Option (List Byte)} (h : l.take ⟨.read fd n, r⟩ = some l') :
    ∃ p flying, l.flying = p :: flying ∧ r = some p.2 ∧ l' = { l with flying := flying, opening := p.1 } := by
  unfold take at h
  cases hf : l.flying with
  | nil =>
      rw [hf] at h
      cases h
  | cons p flying =>
      rw [hf] at h
      dsimp only at h
      split at h
      · next hr => exact ⟨p, flying, rfl, hr, (Option.some.inj h).symm⟩
      · cases h

/-- `SSL_read` gets what was sealed. -/
theorem take_SSL_read {ssl : ℕ} {n : ℤ} {c : Option (List Byte)} (h : l.take ⟨.SSL_read ssl n, c⟩ = some l') :
    c = some l.opening ∧ l' = l := by
  unfold take at h
  dsimp only at h
  split at h
  · next hc => exact ⟨hc, (Option.some.inj h).symm⟩
  · cases h

/-- The index starts from 0. -/
theorem take_indeterminate {x : ℤ} (h : l.take ⟨.indeterminate, x⟩ = some l') : x = 0 ∧ l' = l := by
  unfold take at h
  dsimp only at h
  split at h
  · next hx => exact ⟨hx, (Option.some.inj h).symm⟩
  · cases h

/-- The receiving end does not look at what comes later. -/
theorem take_more (h : l.take ev = some l') (flying : List Packet) : (l.more flying).take ev = some (l'.more flying) := by
  obtain ⟨o, x⟩ := ev
  cases o with
  | read fd n =>
      obtain ⟨p, rest, hf, rfl, rfl⟩ := take_read h
      unfold take
      rw [more_flying, hf, List.cons_append]
      exact if_pos rfl
  | SSL_read ssl n =>
      obtain ⟨rfl, rfl⟩ := take_SSL_read h
      exact if_pos rfl
  | indeterminate =>
      obtain ⟨rfl, rfl⟩ := take_indeterminate h
      rfl
  | _ =>
      cases h
      rfl

/-- What can be taken now can be taken with more behind it. -/
theorem takes_more (flying : List Packet) (tr : List (Event Op Ans)) : ∀ {l l' : Link}, l.takes tr = some l' →
    (l.more flying).takes tr = some (l'.more flying) := by
  induction tr with
  | nil =>
      intro l l' h
      cases h
      rfl
  | cons ev tr ih =>
      intro l l' h
      obtain ⟨l₁, htake, hrest⟩ := takes_cons h
      rw [takes, take_more htake flying]
      exact ih hrest

/-- Neither does it look at what is being sealed. -/
theorem take_seal (h : l.take ev = some l') (p : List Byte) :
    Link.take { l with sealing := p } ev = some { l' with sealing := p } ∧ l'.sealing = l.sealing := by
  obtain ⟨o, x⟩ := ev
  cases o with
  | read fd n =>
      obtain ⟨q, rest, hf, rfl, rfl⟩ := take_read h
      unfold take
      dsimp only
      rw [hf]
      exact ⟨if_pos rfl, rfl⟩
  | SSL_read ssl n =>
      obtain ⟨rfl, rfl⟩ := take_SSL_read h
      exact ⟨if_pos rfl, rfl⟩
  | indeterminate =>
      obtain ⟨rfl, rfl⟩ := take_indeterminate h
      exact ⟨rfl, rfl⟩
  | _ =>
      cases h
      exact ⟨rfl, rfl⟩

/-- So the two ends do not get in each other's way. -/
theorem take_put (h : l.take ev = some l') (ev' : Event Op Ans) : (l.put certs ev').take ev = some (l'.put certs ev') := by
  rcases put_cases certs ev' with ⟨p, hput⟩ | ⟨d, hput⟩ | hput
  · rw [hput, hput]
    exact (take_seal h p).1
  · rw [hput, hput, (take_seal h l.sealing).2]
    exact take_more h _
  · rw [hput, hput]
    exact h

/-- The same after any operation of the sending end, and after any number of them. -/
theorem takes_put (ev' : Event Op Ans) (tr : List (Event Op Ans)) : ∀ {l l' : Link}, l.takes tr = some l' →
    (l.put certs ev').takes tr = some (l'.put certs ev') := by
  induction tr with
  | nil =>
      intro l l' h
      cases h
      rfl
  | cons ev tr ih =>
      intro l l' h
      obtain ⟨l₁, htake, hrest⟩ := takes_cons h
      rw [takes, take_put htake ev']
      exact ih hrest

theorem takes_puts {tr : List (Event Op Ans)} (tr' : List (Event Op Ans)) : ∀ {l l' : Link}, l.takes tr = some l' →
    (l.puts certs tr').takes tr = some (l'.puts certs tr') := by
  induction tr' with
  | nil => exact fun h => h
  | cons ev' tr' ih => exact fun h => ih (takes_put ev' tr h)

/-! ## Operations that do not touch it

Locks, memory and the log have nothing to do with the link, so a record may be cut down to
what has. -/

/-- The operations of the sending end. -/
def isPut : Op → Bool
  | .write _ _ _ | .SSL_write _ _ => true
  | _ => false

/-- The operations of the receiving end. -/
def isTake : Op → Bool
  | .read _ _ | .SSL_read _ _ | .indeterminate => true
  | _ => false

/-- The operations of either. -/
def onLink (o : Op) : Bool := isPut o || isTake o

/-- An operation of neither end leaves the link as it is. -/
theorem put_of_not (h : isPut ev.op = false) : l.put certs ev = l := by
  obtain ⟨o, x⟩ := ev
  cases o with
  | write | SSL_write => cases h
  | _ => rfl

theorem take_of_not (h : isTake ev.op = false) : l.take ev = some l := by
  obtain ⟨o, x⟩ := ev
  cases o with
  | read | SSL_read | indeterminate => cases h
  | _ => rfl

theorem puts_of_not {tr : List (Event Op Ans)} (h : ∀ ev ∈ tr, isPut ev.op = false) : puts certs l tr = l := by
  induction tr with
  | nil => rfl
  | cons ev tr ih =>
      rw [puts, put_of_not (h ev List.mem_cons_self)]
      exact ih fun ev' hev' => h ev' (List.mem_cons_of_mem _ hev')

theorem takes_of_not {tr : List (Event Op Ans)} (h : ∀ ev ∈ tr, isTake ev.op = false) : takes l tr = some l := by
  induction tr with
  | nil => rfl
  | cons ev tr ih =>
      rw [takes, take_of_not (h ev List.mem_cons_self)]
      exact ih fun ev' hev' => h ev' (List.mem_cons_of_mem _ hev')

/-- So only what is watched counts. -/
theorem puts_watch (tr : List (Event Op Ans)) : ∀ (l : Link), puts certs l (watch onLink tr) = puts certs l tr := by
  induction tr with
  | nil => exact fun _ => rfl
  | cons ev tr ih =>
      intro l
      rw [watch, List.filter_cons]
      split
      · exact ih (l.put certs ev)
      · next hev =>
          have hnot : isPut ev.op = false := by
            cases hput : isPut ev.op with
            | false => rfl
            | true => exact absurd (by rw [onLink, hput]; rfl) hev
          rw [puts, put_of_not hnot]
          exact ih l

theorem takes_watch (tr : List (Event Op Ans)) : ∀ (l : Link), takes l (watch onLink tr) = takes l tr := by
  induction tr with
  | nil => exact fun _ => rfl
  | cons ev tr ih =>
      intro l
      rw [watch, List.filter_cons]
      split
      · exact congrArg (l.take ev).bind (funext ih)
      · next hev =>
          have hnot : isTake ev.op = false := by
            cases htake : isTake ev.op with
            | false => rfl
            | true => exact absurd (by rw [onLink, htake, Bool.or_true]) hev
          rw [takes, take_of_not hnot]
          exact ih l

end Link

/-! ## A message on the link

judoSend_ writes its packets one by one, sealed or not, and each becomes one packet on the
link. -/

/-- What OpenSSL gives out is a record. -/
def GivesRecord : Event Op Ans → Prop
  | ⟨.BIO_read _ _, r⟩ => ∃ d, r = some d ∧ d ≠ []
  | _ => True

/-- The packets of a message on their way. -/
structure Carried (certs : Bool) (packet_buf_size : ℤ) (m : Buffer × ℕ) (ps : List Packet) : Prop where
  length : ps.length = packetCount packet_buf_size m.2
  wire : ∀ p ∈ ps, p.2 ≠ []
  plain : certs = false → ∀ p ∈ ps, p.1 = p.2
  packets : WirePackets certs packet_buf_size (padded m.1 m.2) (packetCount packet_buf_size m.2) 0 (ps.map Prod.fst)

/-- What a list of packets puts on the link. -/
theorem Packed.puts {t_node : ssl_node} {packet_buf_size : ℤ} {ps : List (List Byte)} {tr : List (Event Op Ans)}
    (h : Packed t_node packet_buf_size ps tr) (hps : ∀ p ∈ ps, p ≠ []) (hrecords : ∀ ev ∈ tr, GivesRecord ev) :
    ∃ c : List Packet, c.map Prod.fst = ps ∧ (∀ p ∈ c, p.2 ≠ []) ∧ (t_node.certs = false → ∀ p ∈ c, p.1 = p.2)
      ∧ ∀ l : Link, (l.puts t_node.certs tr).flying = l.flying ++ c := by
  -- by the packets: one that goes out as it is, or one that is sealed and taken out of `write_bio`
  induction h with
  | nil => exact ⟨[], rfl, fun _ hp => absurd hp List.not_mem_nil, fun _ _ hp => absurd hp List.not_mem_nil,
      fun l => (List.append_nil _).symm⟩
  | plain p w hcerts h ih =>
      obtain ⟨c, rfl, hwire, hplain, hputs⟩ := ih (fun q hq => hps q (List.mem_cons_of_mem _ hq))
        (fun ev hev => hrecords ev (List.mem_cons_of_mem _ hev))
      refine ⟨(p, p) :: c, rfl, ?_, fun hc => ?_, fun l => ?_⟩
      · intro q hq
        rcases List.mem_cons.mp hq with rfl | hq
        · exact hps p List.mem_cons_self
        · exact hwire q hq
      · intro q hq
        rcases List.mem_cons.mp hq with rfl | hq
        · rfl
        · exact hplain hc q hq
      · rw [Link.puts, hputs]
        show (l.flying ++ [(if t_node.certs then l.sealing else p, p)]) ++ c = l.flying ++ (p, p) :: c
        rw [if_neg (by rw [hcerts]; exact Bool.false_ne_true), List.append_assoc]
        rfl
  | sealed p r w hcerts h ih =>
      obtain ⟨c, rfl, hwire, hplain, hputs⟩ := ih (fun q hq => hps q (List.mem_cons_of_mem _ hq))
        (fun ev hev => hrecords ev (List.mem_cons_of_mem _ (List.mem_cons_of_mem _ (List.mem_cons_of_mem _ hev))))
      obtain ⟨d, rfl, hd⟩ : ∃ d, r = some d ∧ d ≠ [] := hrecords _ (List.mem_cons_of_mem _ List.mem_cons_self)
      refine ⟨(p, d) :: c, rfl, ?_, fun hc => ?_, fun l => ?_⟩
      · intro q hq
        rcases List.mem_cons.mp hq with rfl | hq
        · exact hd
        · exact hwire q hq
      · rw [hcerts] at hc
        cases hc
      · rw [Link.puts, Link.puts, Link.puts, hputs]
        show (l.flying ++ [(if t_node.certs then p else d, d)]) ++ c = l.flying ++ (p, d) :: c
        rw [if_pos hcerts, List.append_assoc]
        rfl

/-- **Sending**: a call of `judoSend_` puts the packets of its message on the link. -/
theorem puts_judoSend_ {t_node : ssl_node} (hB : 64 ≤ t_node.bufferSize) (t_buffer : Buffer) (n : ℕ)
    (hfit : InInt32 (packetCount t_node.bufferSize n)) {tr : List (Event Op Ans)} {ret : ℤ}
    (hruns : Prog.Runs (judoSend_ t_node t_buffer n) tr ret) (hrecords : ∀ ev ∈ tr, GivesRecord ev) :
    ∃ c, Carried t_node.certs t_node.bufferSize (t_buffer, n) c
      ∧ ∀ l : Link, (l.puts t_node.certs tr).flying = l.flying ++ c := by
  obtain ⟨buffer, sent, ps, rfl, hpacked, hlen, hall⟩ := sends_judoSend_ hB t_buffer n hfit hruns
  -- every packet has bytes, so each write puts one record on the line
  have hps : ∀ p ∈ ps, p ≠ [] := by
    intro p hp
    obtain ⟨i, hi, rfl⟩ := List.mem_iff_getElem.mp hp
    have hsize := (hall.getElem i hi).length
    have hpos : 0 < packetSize t_node.certs t_node.bufferSize := by
      unfold packetSize
      split <;> omega
    rw [← List.length_pos_iff]
    omega
  have hsent : ∀ ev ∈ sent, GivesRecord ev := fun ev hev =>
    hrecords ev (List.mem_cons_of_mem _ (List.mem_cons_of_mem _ (List.mem_append_left _ hev)))
  obtain ⟨c, rfl, hwire, hplain, hputs⟩ := hpacked.puts hps hsent
  rw [List.length_map] at hlen
  refine ⟨c, ⟨hlen, hwire, hplain, hall⟩, fun l => ?_⟩
  rw [Link.puts, Link.puts, Link.puts_append]
  exact hputs l

/-! ## A message off the link

judoRead_ takes one packet a round, and stops with the last one of the message, whose number
it finds in the header. -/

/-- A packet buffer that a packet has been put into. -/
theorem fill_wirePacket {certs : Bool} {packet_buf_size : ℤ} (hB : 64 ≤ packet_buf_size) {message : Buffer} {packets m : ℕ}
    {p : List Byte} (h : WirePacket certs packet_buf_size message packets m p) (q : Buffer) :
    (q.fill p).int32 0 = (m + 1 : ℕ) ∧ (q.fill p).int32 4 = packets
      ∧ payload packet_buf_size (q.fill p) = (List.range (packet_buf_size - 40).toNat).map fun (j : ℕ) =>
        message ((m * (packet_buf_size - 40).toNat + j : ℕ) : ℤ) := by
  have hlen : packet_buf_size - 32 ≤ p.length := by
    rw [h.length, packetSize]
    split <;> omega
  -- the bytes that came replace all that was in the buffer but its last 32 bytes
  have hfill : ∀ i : ℤ, 0 ≤ i → i < packet_buf_size - 32 → q.fill p i = p.getD i.toNat 0 := by
    intro i h0 hi
    have hi' : i.toNat < p.length := by omega
    have hcast : ((i.toNat : ℕ) : ℤ) = i := Int.toNat_of_nonneg h0
    rw [← hcast, Buffer.fill_of_lt q hi', Int.toNat_natCast, List.getD_eq_getElem _ _ hi']
  obtain ⟨hone, htwo⟩ := Prod.mk.inj h.header
  refine ⟨?_, ?_, ?_⟩
  · rw [← hone]
    exact Buffer.int32_congr fun j hlo hhi => hfill j hlo (by omega)
  · rw [← htwo]
    exact Buffer.int32_congr fun j hlo hhi => hfill j (by omega) (by omega)
  · rw [← h.payload]
    apply List.ext_getElem
    · rw [length_payload, payloadField, List.length_take, List.length_drop]
      omega
    · intro k hk hk'
      rw [length_payload] at hk
      rw [getElem_payload, hfill _ (by omega) (by omega)]
      have hk'' : (8 + (k : ℤ)).toNat = 8 + k := by omega
      rw [hk'', List.getD_eq_getElem _ _ (by omega)]
      simp only [payloadField, List.getElem_take, List.getElem_drop]

/-- Copying is answered in one way only. -/
theorem runs_copy (t_out_buf : ℕ) (packet_buffer : Buffer) (e : Peer) (n : ℕ) : ∀ {i index : ℤ} {tr : List (Event Op Ans)},
    Prog.Runs (judoRead_.copy t_out_buf packet_buffer n i index) tr () →
      tr = (Prog.exec Peer.answer (judoRead_.copy t_out_buf packet_buffer n i index) e).1 := by
  induction n with
  | zero =>
      rintro i index tr ⟨rfl, -⟩
      rfl
  | succ n ih =>
      intro i index tr hruns
      obtain ⟨-, tr, rfl, hrest⟩ := Prog.runs_step.mp hruns
      rw [ih hrest]
      rfl

/-- What it stores, and that it does nothing to the link. -/
theorem runs_copy_payload {t_out_buf : ℕ} {packet_buf_size : ℤ} {p : Buffer} {index : ℤ} {tr : List (Event Op Ans)}
    (hruns : Prog.Runs (judoRead_.copy t_out_buf (p.set (packet_buf_size - 32) 0) (packet_buf_size - 40).toNat 0 index) tr ()) :
    stores tr = placed t_out_buf index (payload packet_buf_size p) ∧ ∀ l : Link, l.takes tr = some l := by
  obtain ⟨tr', hexec, hstores, -⟩ := exec_copy_payload t_out_buf packet_buf_size p index ⟨[], [], fun _ _ => 0, 0⟩
  have htr := runs_copy t_out_buf _ ⟨[], [], fun _ _ => 0, 0⟩ _ hruns
  rw [hexec] at htr
  subst htr
  have honly : ∀ (n : ℕ) (i index : ℤ), Prog.Only (fun o => Link.isTake o = false)
      (judoRead_.copy t_out_buf (p.set (packet_buf_size - 32) 0) n i index) := by
    intro n
    induction n with
    | zero => exact fun _ _ => trivial
    | succ n ih => exact fun i index => .step rfl fun _ => ih _ _
  exact ⟨hstores, fun l => Link.takes_of_not ((honly _ _ _).of_runs hruns)⟩

/-- A packet comes out of OpenSSL as it was sealed. -/
theorem runs_unseal {t_node : ssl_node} {packet_buf_size bytes_read : ℤ} {q q' : Buffer} {p : Packet} {l l' : Link}
    (hplain : t_node.certs = false → p.1 = p.2) (hopening : l.opening = p.1) {tr : List (Event Op Ans)}
    (hruns : Prog.Runs (judoRead_.unseal t_node packet_buf_size bytes_read (q.fill p.2)) tr q')
    (htakes : l.takes tr = some l') : l' = l ∧ stores tr = [] ∧ ∃ q₀ : Buffer, q' = q₀.fill p.1 := by
  unfold judoRead_.unseal at hruns
  split at hruns
  · obtain ⟨_, tr, rfl, hread⟩ := Prog.runs_step.mp hruns
    obtain ⟨c, tr, rfl, rfl, rfl⟩ := Prog.runs_step.mp hread
    obtain ⟨_, htake, htakes⟩ := Link.takes_cons htakes
    cases htake
    obtain ⟨_, htake, htakes⟩ := Link.takes_cons htakes
    cases htakes
    obtain ⟨rfl, rfl⟩ := Link.take_SSL_read htake
    rw [hopening]
    exact ⟨rfl, rfl, _, rfl⟩
  · next hcerts =>
      obtain ⟨rfl, rfl⟩ := hruns
      cases htakes
      exact ⟨rfl, rfl, q, by rw [hplain (Bool.eq_false_iff.mpr hcerts)]⟩

/-- The array is allocated when the first packet has come. -/
theorem runs_reserve {packets : ℕ} {packet_buf_size : ℤ} (hB : 0 ≤ packet_buf_size) (hfit : InInt32 (packets * packet_buf_size))
    {t_out_buf : ℕ} {t_outbuf_size : ℤ} (hsize : t_outbuf_size = -1 ∨ t_outbuf_size = packets * packet_buf_size)
    {tr : List (Event Op Ans)} {ret : Option (ℕ × ℤ)}
    (hruns : Prog.Runs (judoRead_.reserve packets packet_buf_size t_out_buf t_outbuf_size) tr ret) :
    ∃ out, ret = some (out, packets * packet_buf_size) ∧ (t_outbuf_size ≠ -1 → out = t_out_buf) ∧ stores tr = []
      ∧ ∀ l : Link, l.takes tr = some l := by
  have hnonneg : 0 ≤ packets * packet_buf_size := mul_nonneg (Int.natCast_nonneg _) hB
  unfold judoRead_.reserve at hruns
  rw [toInt32_of_mem hfit, if_neg (not_lt.mpr hnonneg)] at hruns
  split at hruns
  · next heq =>
      obtain ⟨out, tr, rfl, rfl, rfl⟩ := Prog.runs_step.mp hruns
      exact ⟨out.1, rfl, fun hne => absurd heq hne, rfl, fun _ => rfl⟩
  · next hne =>
      obtain ⟨rfl, rfl⟩ := hruns
      rw [hsize.resolve_left hne]
      exact ⟨t_out_buf, rfl, fun _ => rfl, rfl, fun _ => rfl⟩

section Read

variable {server : JudoServer} {t_node : ssl_node} {t_poll : pollfd} {buffer : ℕ} {packet_buf_size : ℤ} {message : Buffer}
  {packets : ℕ}

/-- One round: the first packet is taken, its payload is stored, and the call goes on
unless it was the last one. -/
theorem reads_packet (hB : 64 ≤ packet_buf_size) (hfit : InInt32 (packets * packet_buf_size)) {fuel m : ℕ} {q : Packet}
    {flying : List Packet} {p : Buffer} {out : ℕ} {index size : ℤ} (hsize : size = -1 ∨ size = packets * packet_buf_size)
    (hpacket : WirePacket t_node.certs packet_buf_size message packets m q.1) (hwire : q.2 ≠ [])
    (hplain : t_node.certs = false → q.1 = q.2) {l l' : Link} (hflying : l.flying = q :: flying)
    {tr : List (Event Op Ans)} {ret : Option (JudoServer × ℤ × ℕ × ℤ)}
    (hruns : Prog.Runs (judoRead_.loop server t_node t_poll buffer packet_buf_size (fuel + 1) p out index size) tr ret)
    (htakes : l.takes tr = some l') :
    ∃ out' tr₁ tr₂ l₁, tr = tr₁ ++ tr₂ ∧ l₁.flying = flying ∧ l₁.takes tr₂ = some l' ∧ (size ≠ -1 → out' = out)
      ∧ stores tr₁ = placed out' index ((List.range (packet_buf_size - 40).toNat).map fun (j : ℕ) =>
          message ((m * (packet_buf_size - 40).toNat + j : ℕ) : ℤ))
      ∧ (((m + 1 : ℕ) : ℤ) = packets → ret = some (server, 0, out', packets * packet_buf_size) ∧ l' = l₁ ∧ stores tr₂ = [])
      ∧ (((m + 1 : ℕ) : ℤ) ≠ packets → ∃ p', Prog.Runs (judoRead_.loop server t_node t_poll buffer packet_buf_size fuel p'
          out' (index + (packet_buf_size - 40).toNat) (packets * packet_buf_size)) tr₂ ret) := by
  rw [judoRead_.loop] at hruns
  obtain ⟨r, tr, rfl, hround⟩ := Prog.runs_step.mp hruns
  obtain ⟨l₁, htake, htakes⟩ := Link.takes_cons htakes
  obtain ⟨q', flying', hfirst, rfl, rfl⟩ := Link.take_read htake
  obtain ⟨rfl, rfl⟩ := List.cons.inj (hflying.symm.trans hfirst)
  rw [if_neg (not_le.mpr (bytesRead_pos hwire)), Option.getD_some] at hround
  -- what comes out of OpenSSL is the packet
  obtain ⟨tr₁, tr₂, q', rfl, hunseal, hcounts⟩ := Prog.runs_bind.mp hround
  obtain ⟨l₂, htakes₁, htakes₂⟩ := Link.takes_split htakes
  obtain ⟨rfl, hstores₁, q₀, rfl⟩ := runs_unseal hplain rfl hunseal htakes₁
  obtain ⟨hone, htwo, hpay⟩ := fill_wirePacket hB hpacket q₀
  rw [hone, htwo] at hcounts
  obtain ⟨tr₃, tr₄, reserved, rfl, hreserve, harray⟩ := Prog.runs_bind.mp hcounts
  obtain ⟨out', rfl, hout, hstores₃, htakes₃⟩ := runs_reserve (by omega) hfit hsize hreserve
  rw [Link.takes_append, htakes₃, Option.bind_some] at htakes₂
  obtain ⟨tr₅, tr₆, _, rfl, hcopy, hend⟩ := Prog.runs_bind.mp harray
  obtain ⟨hstores₅, htakes₅⟩ := runs_copy_payload hcopy
  rw [Link.takes_append, htakes₅, Option.bind_some] at htakes₂
  refine ⟨out', ⟨.read t_node.fp packet_buf_size, some q.2⟩ :: (tr₁ ++ (tr₃ ++ tr₅)), tr₆, _, by simp, rfl, htakes₂,
    hout, ?_, ?_, ?_⟩
  · rw [stores_cons, stores_append, stores_append, hstores₁, hstores₃, hstores₅, hpay]
    rfl
  · intro hlast
    rw [if_neg (not_not.mpr hlast)] at hend
    obtain ⟨_, tr₇, rfl, _, tr₈, rfl, rfl, rfl⟩ := hend
    exact ⟨rfl, (Option.some.inj htakes₂).symm, rfl⟩
  · intro hmore
    rw [if_pos hmore] at hend
    exact ⟨_, hend⟩

/-- The rounds of a call from packet `m` of the message on. -/
theorem reads_packets (hB : 64 ≤ packet_buf_size) (hfit : InInt32 (packets * packet_buf_size)) (fuel : ℕ) :
    ∀ {m : ℕ} {ps rest : List Packet} {p : Buffer} {out : ℕ} {index size : ℤ}, ps ≠ [] → ps.length ≤ fuel →
      m + ps.length = packets → WirePackets t_node.certs packet_buf_size message packets m (ps.map Prod.fst) →
      (∀ q ∈ ps, q.2 ≠ []) → (t_node.certs = false → ∀ q ∈ ps, q.1 = q.2) →
      (size = -1 ∨ size = packets * packet_buf_size) → ∀ {l l' : Link} {tr : List (Event Op Ans)}
      {ret : Option (JudoServer × ℤ × ℕ × ℤ)}, l.flying = ps ++ rest →
      Prog.Runs (judoRead_.loop server t_node t_poll buffer packet_buf_size fuel p out index size) tr ret →
      l.takes tr = some l' → ∃ out', ret = some (server, 0, out', packets * packet_buf_size) ∧ l'.flying = rest
        ∧ (size ≠ -1 → out' = out)
        ∧ stores tr = placed out' index ((List.range (ps.length * (packet_buf_size - 40).toNat)).map fun (i : ℕ) =>
          message ((m * (packet_buf_size - 40).toNat + i : ℕ) : ℤ)) := by
  induction fuel with
  | zero =>
      intro m ps rest p out index size hne hfuel
      exact absurd (List.length_eq_zero_iff.mp (Nat.le_zero.mp hfuel)) hne
  | succ fuel ih =>
      intro m ps rest p out index size hne hfuel hcount hall hwire hplain hsize l l' tr ret hflying hruns htakes
      cases ps with
      | nil => exact absurd rfl hne
      | cons q ps =>
          obtain ⟨out', tr₁, tr₂, l₁, rfl, hflying₁, htakes₂, hout, hstores, hlast, hmore⟩ := reads_packet hB hfit hsize hall.1
            (hwire q List.mem_cons_self) (fun hc => hplain hc q List.mem_cons_self) hflying hruns htakes
          rw [List.length_cons] at hcount hfuel ⊢
          rw [stores_append, hstores]
          cases ps with
          | nil =>
              obtain ⟨rfl, rfl, hnil⟩ := hlast (by rw [← hcount]; rfl)
              refine ⟨out', rfl, hflying₁, hout, ?_⟩
              rw [hnil, List.append_nil, List.length_nil, Nat.zero_add, Nat.one_mul]
          | cons q' ps =>
              rw [List.length_cons] at hcount hfuel
              obtain ⟨p', hruns'⟩ := hmore (by omega)
              have hknown : (packets * packet_buf_size : ℤ) ≠ -1 := by
                have : 0 ≤ packets * packet_buf_size := mul_nonneg (Int.natCast_nonneg _) (by omega)
                omega
              obtain ⟨out'', rfl, hrest, hsame, hstores'⟩ := ih (List.cons_ne_nil q' ps) (by rw [List.length_cons]; omega)
                (by rw [List.length_cons]; omega) hall.2 (fun r hr => hwire r (List.mem_cons_of_mem _ hr))
                (fun hc r hr => hplain hc r (List.mem_cons_of_mem _ hr)) (.inr rfl) hflying₁ hruns' htakes₂
              obtain rfl := hsame hknown
              refine ⟨out'', rfl, hrest, hout, ?_⟩
              -- the payloads, one after the other
              have hrange : ((q' :: ps).length + 1) * (packet_buf_size - 40).toNat
                  = (packet_buf_size - 40).toNat + (q' :: ps).length * (packet_buf_size - 40).toNat := by
                ring
              rw [hstores', hrange, List.range_add, List.map_append, placed_append, List.map_map, List.length_map,
                List.length_range]
              refine congrArg _ (congrArg _ (List.map_congr_left fun i _ => congrArg message ?_))
              push_cast
              ring

end Read

/-- **Receiving**: a call of `judoRead_` takes the packets of the first message off the
link and nothing else, and stores the message. -/
theorem runs_judoRead_ {server : JudoServer} {t_node : ssl_node} {t_poll : pollfd} (hB : 64 ≤ t_node.bufferSize)
    {t_buffer : Buffer} {n fuel t_out_buf : ℕ} (hfit : InInt32 (packetCount t_node.bufferSize n * t_node.bufferSize))
    (hfuel : packetCount t_node.bufferSize n ≤ fuel) {ps rest : List Packet}
    (hps : Carried t_node.certs t_node.bufferSize (t_buffer, n) ps) {l l' : Link} (hflying : l.flying = ps ++ rest)
    {tr : List (Event Op Ans)} {ret : Option (JudoServer × ℤ × ℕ × ℤ)}
    (hruns : Prog.Runs (judoRead_ fuel server t_node t_poll t_out_buf) tr ret) (htakes : l.takes tr = some l') :
    ∃ out, ret = some (server, 0, out, packetCount t_node.bufferSize n * t_node.bufferSize) ∧ l'.flying = rest
      ∧ stores tr = placed out 0 (delivered t_node.bufferSize t_buffer n) := by
  have hlen : ps.length = packetCount t_node.bufferSize n := hps.length
  have hne : ps ≠ [] := by
    rw [← List.length_pos_iff, hlen]
    exact Nat.add_pos_left Nat.one_pos _
  obtain ⟨_, tr₁, rfl, hindex⟩ := Prog.runs_step.mp hruns
  obtain ⟨index, tr₂, rfl, hnew⟩ := Prog.runs_step.mp hindex
  obtain ⟨packet_buffer, tr₃, rfl, hloop⟩ := Prog.runs_step.mp hnew
  obtain ⟨l₁, htake, htakes⟩ := Link.takes_cons htakes
  cases htake
  -- the link lets index be 0 when it is read before it is set, so the stores begin at 0
  obtain ⟨l₂, htake, htakes⟩ := Link.takes_cons htakes
  obtain ⟨rfl, rfl⟩ := Link.take_indeterminate htake
  obtain ⟨l₃, htake, htakes⟩ := Link.takes_cons htakes
  cases htake
  obtain ⟨out, hret, hrest, -, hstores⟩ := reads_packets hB hfit fuel hne (hlen.trans_le hfuel) (by omega) hps.packets hps.wire
    hps.plain (.inl rfl) hflying hloop htakes
  refine ⟨out, hret, hrest, ?_⟩
  rw [stores_cons, stores_cons, stores_cons, hstores, hlen]
  simp only [Nat.zero_mul, Nat.zero_add]
  rw [map_padded (by omega)]
  rfl

/-- With nothing on its way, a call waits. -/
theorem not_takes_judoRead_ {server : JudoServer} {t_node : ssl_node} {t_poll : pollfd} {fuel t_out_buf : ℕ} (hfuel : 0 < fuel)
    {l : Link} (hflying : l.flying = []) {tr : List (Event Op Ans)} {ret : Option (JudoServer × ℤ × ℕ × ℤ)}
    (hruns : Prog.Runs (judoRead_ fuel server t_node t_poll t_out_buf) tr ret) : l.takes tr = none := by
  obtain ⟨fuel, rfl⟩ := Nat.exists_eq_add_of_lt hfuel
  obtain ⟨_, tr₁, rfl, hindex⟩ := Prog.runs_step.mp hruns
  obtain ⟨index, tr₂, rfl, hnew⟩ := Prog.runs_step.mp hindex
  obtain ⟨packet_buffer, tr₃, rfl, hloop⟩ := Prog.runs_step.mp hnew
  rw [judoRead_.loop] at hloop
  obtain ⟨r, tr₄, rfl, -⟩ := Prog.runs_step.mp hloop
  -- the first read is answered from the line, which is empty
  cases htakes : l.takes _ with
  | none => rfl
  | some l' =>
      obtain ⟨l₁, htake₁, htakes₁⟩ := Link.takes_cons htakes
      cases htake₁
      obtain ⟨l₂, htake₂, htakes₂⟩ := Link.takes_cons htakes₁
      obtain ⟨rfl, rfl⟩ := Link.take_indeterminate htake₂
      obtain ⟨l₃, htake₃, htakes₃⟩ := Link.takes_cons htakes₂
      cases htake₃
      obtain ⟨l₄, htake₄, -⟩ := Link.takes_cons htakes₃
      obtain ⟨p, flying, hfirst, -⟩ := Link.take_read htake₄
      rw [hflying] at hfirst
      cases hfirst

end JudoEngine
