/-
What `judoConnect_` reads after the handshake, and whether a packet is among it.

Under TLS the server's bytes are records, in order: those of the handshake, session
tickets, and packets. `Inbound` is the receiving side of an `SSL` object. It has records
to go through, and some of their bytes have been given to `read_bio`; `SSL_read` goes
through the records that are whole until it finds one with data for the application. The
records that `SSL_do_handshake` goes through carry none, and `SSL_read` passes over them
in the same way, so it is left out. A packet has 32 bytes less than the buffers that both
ends read into, so it comes in one piece.

`judoConnect_` calls `read` and `SSL_read` once, to get the tickets out of the way, and
throws away what it gets.
-/
import JudoEngine.JudoServer.Exits
import JudoEngine.JudoServer.Handshake
import JudoEngine.JudoServer.Negotiation

set_option autoImplicit false

open Words

namespace JudoEngine

/-! ## Records

The receiving side is a list of records and a number of bytes. SSL_read goes through whole
records only, and returns the first that carries something. -/

/-- A record: what it carries for the application, if it carries anything, and how many
bytes it has on the wire. -/
structure TlsRecord where
  plain : Option (List Byte)
  length : ℕ

/-- The packets among the records. -/
def packetsOf (rs : List TlsRecord) : List (List Byte) := rs.filterMap TlsRecord.plain

/-- Their bytes on the wire. -/
def lengthOf (rs : List TlsRecord) : ℕ := (rs.map TlsRecord.length).sum

/-- Where the first packet ends. -/
def firstPacketEnd : List TlsRecord → Option ℕ
  | [] => none
  | r :: rs => if r.plain.isSome then some r.length else (firstPacketEnd rs).map (r.length + ·)

@[simp] theorem packetsOf_append (rs rs' : List TlsRecord) : packetsOf (rs ++ rs') = packetsOf rs ++ packetsOf rs' :=
  List.filterMap_append ..

@[simp] theorem lengthOf_append (rs rs' : List TlsRecord) : lengthOf (rs ++ rs') = lengthOf rs + lengthOf rs' := by
  rw [lengthOf, List.map_append, List.sum_append]
  rfl

/-- The receiving side of a connection: the records that have not been gone through, and
how many bytes of them are there. -/
structure Inbound where
  records : List TlsRecord
  arrived : ℕ

/-- `SSL_read`. -/
def nextPacket : List TlsRecord → ℕ → Option (List Byte) × Inbound
  | [], arrived => (none, ⟨[], arrived⟩)
  | r :: rs, arrived =>
      if r.length ≤ arrived then
        match r.plain with
        | some p => (some p, ⟨rs, arrived - r.length⟩)
        | none => nextPacket rs (arrived - r.length)
      else (none, ⟨r :: rs, arrived⟩)

/-- A packet is returned once it is there in full. -/
theorem nextPacket_packet (p : List Byte) (length : ℕ) (rs : List TlsRecord) (arrived : ℕ) :
    nextPacket (⟨some p, length⟩ :: rs) arrived
      = if length ≤ arrived then (some p, ⟨rs, arrived - length⟩) else (none, ⟨⟨some p, length⟩ :: rs, arrived⟩) := rfl

/-- A record without one is passed over. -/
theorem nextPacket_ticket (length : ℕ) (rs : List TlsRecord) (arrived : ℕ) :
    nextPacket (⟨none, length⟩ :: rs) arrived
      = if length ≤ arrived then nextPacket rs (arrived - length) else (none, ⟨⟨none, length⟩ :: rs, arrived⟩) := rfl

/-- It gets nothing just when the first packet has not come in full. -/
theorem nextPacket_eq_none (rs : List TlsRecord) : ∀ (arrived : ℕ),
    (nextPacket rs arrived).1 = none ↔ ∀ e ∈ firstPacketEnd rs, arrived < e := by
  -- on the records: a ticket is passed over once its bytes are there, and a packet ends the search
  induction rs with
  | nil => exact fun _ => ⟨fun _ e he => absurd he (Option.not_mem_none e), fun _ => rfl⟩
  | cons r rs ih =>
      intro arrived
      obtain ⟨plain, length⟩ := r
      cases plain with
      | some p =>
          have hend : (∀ e ∈ firstPacketEnd (⟨some p, length⟩ :: rs), arrived < e) ↔ arrived < length := by
            simp [firstPacketEnd]
          rw [hend, nextPacket_packet]
          split
          · next hle => exact iff_of_false (Option.some_ne_none p) (not_lt.mpr hle)
          · next hlt => exact iff_of_true rfl (not_le.mp hlt)
      | none =>
          have hend : (∀ e ∈ firstPacketEnd (⟨none, length⟩ :: rs), arrived < e)
              ↔ ∀ e ∈ firstPacketEnd rs, arrived < length + e := by
            simp [firstPacketEnd]
          rw [hend, nextPacket_ticket]
          split
          · rw [ih]
            refine forall₂_congr fun e _ => ?_
            omega
          · exact iff_of_true rfl fun e _ => by omega

/-- The records that it goes through are gone, and what they carry it returns. -/
theorem nextPacket_spec (rs : List TlsRecord) : ∀ (arrived : ℕ), ∃ done,
    rs = done ++ (nextPacket rs arrived).2.records ∧ packetsOf done = (nextPacket rs arrived).1.toList
      ∧ arrived = lengthOf done + (nextPacket rs arrived).2.arrived := by
  -- on the records, as nextPacket passes over them
  induction rs with
  | nil => exact fun arrived => ⟨[], rfl, rfl, (Nat.zero_add arrived).symm⟩
  | cons r rs ih =>
      intro arrived
      obtain ⟨plain, length⟩ := r
      cases plain with
      | some p =>
          rw [nextPacket_packet]
          split
          · refine ⟨[⟨some p, length⟩], rfl, rfl, ?_⟩
            show arrived = (length + 0) + (arrived - length)
            omega
          · exact ⟨[], rfl, rfl, (Nat.zero_add arrived).symm⟩
      | none =>
          rw [nextPacket_ticket]
          split
          · obtain ⟨done, hrecords, hpackets, harrived⟩ := ih (arrived - length)
            refine ⟨⟨none, length⟩ :: done, congrArg (List.cons _) hrecords, hpackets, ?_⟩
            show arrived = (length + lengthOf done) + _
            omega
          · exact ⟨[], rfl, rfl, (Nat.zero_add arrived).symm⟩

/-- When there is a packet among records that are all there, it returns the first one. -/
theorem nextPacket_front (rest front : List TlsRecord) : ∀ {arrived : ℕ}, lengthOf front ≤ arrived →
    packetsOf front ≠ [] → ∃ p front' arrived', packetsOf front = p :: packetsOf front'
      ∧ nextPacket (front ++ rest) arrived = (some p, ⟨front' ++ rest, arrived'⟩) ∧ lengthOf front' ≤ arrived' := by
  induction front with
  | nil => exact fun _ hne => absurd rfl hne
  | cons r front ih =>
      intro arrived hle hne
      obtain ⟨plain, length⟩ := r
      have hsum : length + lengthOf front ≤ arrived := hle
      rw [List.cons_append]
      cases plain with
      | some p =>
          rw [nextPacket_packet, if_pos (by omega)]
          exact ⟨p, front, arrived - length, rfl, rfl, by omega⟩
      | none =>
          rw [nextPacket_ticket, if_pos (by omega)]
          exact ih (by omega) hne

/-! ## A record of operations, as the connection sees it

Of a whole call only its reads, what it gives to `read_bio` and its SSL_reads move the
server's bytes. -/

/-- What moves the server's bytes. -/
def receiving : Op → Bool
  | .read _ _ | .SSL_read _ _ | .BIO_write _ _ _ => true
  | _ => false

/-- This part of a record. -/
def stream (tr : List (Event Op Ans)) : List (Event Op Ans) := tr.filter fun ev => receiving ev.op

/-- The packets that the `SSL_read`s return. -/
def packetsRead : List (Event Op Ans) → List (List Byte)
  | [] => []
  | ⟨.SSL_read _ _, c⟩ :: tr => (c : Option (List Byte)).toList ++ packetsRead tr
  | _ :: tr => packetsRead tr

/-- How many there are. -/
def sslReads : List (Event Op Ans) → ℕ
  | [] => 0
  | ⟨.SSL_read _ _, _⟩ :: tr => sslReads tr + 1
  | _ :: tr => sslReads tr

/-- How many bytes `read_bio` is given. -/
def bytesFed : List (Event Op Ans) → ℕ
  | [] => 0
  | ⟨.BIO_write _ _ data, _⟩ :: tr => data.length + bytesFed tr
  | _ :: tr => bytesFed tr

/-- The connection afterwards. -/
def Inbound.after : Inbound → List (Event Op Ans) → Inbound
  | s, [] => s
  | s, ⟨.BIO_write _ _ data, _⟩ :: tr => after ⟨s.records, s.arrived + data.length⟩ tr
  | s, ⟨.SSL_read _ _, _⟩ :: tr => after (nextPacket s.records s.arrived).2 tr
  | s, _ :: tr => after s tr

/-- Every `SSL_read` is answered as the connection has it. -/
def Inbound.Explains : Inbound → List (Event Op Ans) → Prop
  | _, [] => True
  | s, ⟨.BIO_write _ _ data, _⟩ :: tr => Explains ⟨s.records, s.arrived + data.length⟩ tr
  | s, ⟨.SSL_read _ _, c⟩ :: tr =>
      c = (nextPacket s.records s.arrived).1 ∧ Explains (nextPacket s.records s.arrived).2 tr
  | s, _ :: tr => Explains s tr

/-- All of this can be computed part by part. -/
theorem stream_append (tr tr' : List (Event Op Ans)) : stream (tr ++ tr') = stream tr ++ stream tr' :=
  List.filter_append ..

/-- A program with none of these operations has no stream. -/
theorem stream_of_only {α : Type} {P : Op → Prop} {p : Sys α} {a : α} {tr : List (Event Op Ans)} (hp : Prog.Only P p)
    (hP : ∀ o, P o → receiving o = false) (hruns : Prog.Runs p tr a) : stream tr = [] := by
  apply List.filter_eq_nil_iff.mpr
  intro ev hev
  rw [hP ev.op (hp.of_runs hruns ev hev)]
  exact Bool.false_ne_true

theorem packetsRead_append (tr tr' : List (Event Op Ans)) : packetsRead (tr ++ tr') = packetsRead tr ++ packetsRead tr' := by
  induction tr with
  | nil => rfl
  | cons ev tr ih =>
      obtain ⟨o, x⟩ := ev
      cases o <;> simp only [List.cons_append, packetsRead, ih, List.append_assoc]

theorem sslReads_append (tr tr' : List (Event Op Ans)) : sslReads (tr ++ tr') = sslReads tr + sslReads tr' := by
  induction tr with
  | nil => exact (Nat.zero_add _).symm
  | cons ev tr ih =>
      obtain ⟨o, x⟩ := ev
      cases o <;> simp only [List.cons_append, sslReads, ih]
      exact Nat.add_right_comm ..

theorem explains_append (tr tr' : List (Event Op Ans)) : ∀ (s : Inbound),
    s.Explains (tr ++ tr') ↔ s.Explains tr ∧ (s.after tr).Explains tr' := by
  induction tr with
  | nil => exact fun _ => (and_iff_right trivial).symm
  | cons ev tr ih =>
      intro s
      obtain ⟨o, x⟩ := ev
      cases o <;> simp only [List.cons_append, Inbound.Explains, Inbound.after, ih, and_assoc]

/-- What a connection does not get is on its way: the records that a record of operations
has gone through are the first ones, and the packets among them have been returned. -/
theorem after_spec (tr : List (Event Op Ans)) : ∀ {s : Inbound}, s.Explains tr → ∃ done,
    s.records = done ++ (s.after tr).records ∧ packetsOf done = packetsRead tr
      ∧ s.arrived + bytesFed tr = lengthOf done + (s.after tr).arrived := by
  -- only BIO_write adds bytes and only SSL_read takes records
  induction tr with
  | nil => exact fun {s} _ => ⟨[], rfl, rfl, (Nat.zero_add s.arrived).symm⟩
  | cons ev tr ih =>
      intro s hexplains
      obtain ⟨o, x⟩ := ev
      cases o
      case SSL_read ssl size =>
        obtain ⟨rfl, hrest⟩ := hexplains
        obtain ⟨first, hfirst, hpacket, harrived⟩ := nextPacket_spec s.records s.arrived
        obtain ⟨done, hrecords, hpackets, hfed⟩ := ih hrest
        refine ⟨first ++ done, ?_, ?_, ?_⟩
        · rw [List.append_assoc]
          exact hfirst.trans (congrArg (first ++ ·) hrecords)
        · rw [packetsOf_append, hpacket, hpackets]
          rfl
        · show s.arrived + bytesFed tr = _ + (Inbound.after _ tr).arrived
          rw [lengthOf_append]
          omega
      case BIO_write bio size data =>
        obtain ⟨done, hrecords, hpackets, hfed⟩ := ih (s := ⟨s.records, s.arrived + data.length⟩) hexplains
        refine ⟨done, hrecords, hpackets, ?_⟩
        show s.arrived + (data.length + bytesFed tr) = _
        rw [← Nat.add_assoc]
        exact hfed
      all_goals exact ih hexplains

/-- Packets that have come in full are returned, in order, once there are as many
`SSL_read`s. -/
theorem packetsRead_front {rest : List TlsRecord} (tr : List (Event Op Ans)) : ∀ {front : List TlsRecord} {s : Inbound},
    s.records = front ++ rest → lengthOf front ≤ s.arrived → s.Explains tr → (packetsOf front).length ≤ sslReads tr →
      packetsOf front <+: packetsRead tr := by
  -- every byte of front is there, so each SSL_read returns the next packet of front while there is
  -- one
  induction tr with
  | nil =>
      intro front s _ _ _ hreads
      rw [List.length_eq_zero_iff.mp (Nat.le_zero.mp hreads)]
      exact List.nil_prefix
  | cons ev tr ih =>
      intro front s hrecords hlength hexplains hreads
      obtain ⟨o, x⟩ := ev
      cases o
      case SSL_read ssl size =>
        by_cases hne : packetsOf front = []
        · rw [hne]
          exact List.nil_prefix
        obtain ⟨p, front', arrived', hpackets, hnext, hlength'⟩ := nextPacket_front rest front hlength hne
        obtain ⟨rfl, hrest⟩ := hexplains
        rw [hrecords, hnext] at hrest
        rw [hpackets] at hreads
        have hprefix := ih (s := ⟨front' ++ rest, arrived'⟩) rfl hlength' hrest (Nat.le_of_succ_le_succ hreads)
        show _ <+: (nextPacket s.records s.arrived).1.toList ++ packetsRead tr
        rw [hrecords, hnext, hpackets]
        exact List.cons_prefix_cons.mpr ⟨rfl, hprefix⟩
      case BIO_write bio size data =>
        exact ih (s := ⟨s.records, s.arrived + data.length⟩) hrecords (Nat.le_add_right_of_le hlength) hexplains hreads
      all_goals exact ih hrecords hlength hexplains hreads

/-- Where nothing is asked of OpenSSL, bytes only pile up. -/
theorem after_of_noReads (tr : List (Event Op Ans)) : ∀ (s : Inbound), sslReads tr = 0 →
    packetsRead tr = [] ∧ s.Explains tr ∧ s.after tr = ⟨s.records, s.arrived + bytesFed tr⟩ := by
  induction tr with
  | nil => exact fun s _ => ⟨rfl, trivial, rfl⟩
  | cons ev tr ih =>
      intro s hreads
      obtain ⟨o, x⟩ := ev
      cases o
      case SSL_read ssl size => exact absurd hreads (Nat.succ_ne_zero _)
      case BIO_write bio size data =>
        obtain ⟨hpackets, hexplains, hafter⟩ := ih ⟨s.records, s.arrived + data.length⟩ hreads
        refine ⟨hpackets, hexplains, hafter.trans ?_⟩
        rw [bytesFed, Nat.add_assoc]
      all_goals exact ih s hreads

/-! ## `judoConnect_`

On the way to success with certificates there are a handshake, which asks OpenSSL for no
packet, and then one SSL_read after one read. Everything else is not in the stream. -/

/-- All that matters is in the stream. -/
theorem packetsRead_stream (tr : List (Event Op Ans)) : packetsRead (stream tr) = packetsRead tr := by
  induction tr with
  | nil => rfl
  | cons ev tr ih =>
      obtain ⟨o, x⟩ := ev
      cases o <;> simp only [stream, List.filter_cons, receiving, if_true, Bool.false_eq_true, if_false, packetsRead] <;>
        simp only [← ih] <;> rfl

theorem bytesFed_stream (tr : List (Event Op Ans)) : bytesFed (stream tr) = bytesFed tr := by
  induction tr with
  | nil => rfl
  | cons ev tr ih =>
      obtain ⟨o, x⟩ := ev
      cases o <;> simp only [stream, List.filter_cons, receiving, if_true, Bool.false_eq_true, if_false, bytesFed] <;>
        simp only [← ih] <;> rfl

theorem readResults_stream (tr : List (Event Op Ans)) : readResults (stream tr) = readResults tr := by
  induction tr with
  | nil => rfl
  | cons ev tr ih =>
      obtain ⟨o, x⟩ := ev
      cases o <;> simp only [stream, List.filter_cons, receiving, if_true, Bool.false_eq_true, if_false, readResults] <;>
        simp only [← ih] <;> rfl

theorem explains_stream (tr : List (Event Op Ans)) : ∀ (s : Inbound), s.Explains (stream tr) ↔ s.Explains tr := by
  induction tr with
  | nil => exact fun _ => Iff.rfl
  | cons ev tr ih =>
      intro s
      obtain ⟨o, x⟩ := ev
      cases o <;> simp only [stream, List.filter_cons, receiving, if_true, Bool.false_eq_true, if_false, Inbound.Explains] <;>
        simp only [← ih] <;> rfl

/-- Neither what the call begins with nor what it ends with is in the stream. -/
theorem stream_judoSend_ {t_node : ssl_node} {t_buffer : Buffer} {t_size ret : ℤ} {tr : List (Event Op Ans)}
    (h : Prog.Runs (judoSend_ t_node t_buffer t_size) tr ret) : stream tr = [] := by
  refine stream_of_only (sending_judoSend_ ..) (fun o ho => ?_) h
  cases o <;> first | rfl | exact absurd ho Bool.false_ne_true

theorem stream_hello {client client' : JudoServer} {n : ssl_node} {buffer : ℕ × Buffer} {ret : ℤ} {tr : List (Event Op Ans)}
    (h : Prog.Runs (judoConnect_.hello client n buffer) tr (some (client', ret))) : stream tr = [] := by
  unfold judoConnect_.hello at h
  obtain ⟨tr₁, tr₂, r, rfl, hsend, hrest⟩ := Prog.runs_bind.mp h
  obtain ⟨-, tr, rfl, rfl, -⟩ := hrest
  rw [stream_append, stream_judoSend_ hsend]
  rfl

theorem stream_connectFill {n : ssl_node} {t_cert t_key : Option String} {filled : ssl_node × ℤ} {tr : List (Event Op Ans)}
    (h : Prog.Runs (judoConnect_.fill n t_cert t_key) tr filled) : stream tr = [] := by
  unfold judoConnect_.fill at h
  split at h
  · refine stream_of_only (filling_judoFillClientSSLFields_ ..) (fun o ho => ?_) h
    cases o <;> first | rfl | exact absurd ho Bool.false_ne_true
  · obtain ⟨rfl, -⟩ := h
    rfl

/-- How many bytes reads have brought. -/
def bytesIn (rs : List (Option (List Byte))) : ℕ := (rs.map fun r => (r.getD []).length).sum

theorem bytesIn_append (rs rs' : List (Option (List Byte))) : bytesIn (rs ++ rs') = bytesIn rs + bytesIn rs' := by
  rw [bytesIn, List.map_append, List.sum_append]
  rfl

/-- What `judoHandshake_` reads it gives to `read_bio`, and it does not ask for data. -/
theorem handshake_feeds {n : ssl_node} {size : ℤ} {fuel : ℕ} {ret : ℤ} : ∀ {tr : List (Event Op Ans)},
    Prog.Runs (judoHandshake_ n size fuel) tr (some ret) →
      sslReads (stream tr) = 0 ∧ bytesFed tr = bytesIn (readResults tr) := by
  -- by the rounds: what is read is what `read_bio` is given, and a read that brings nothing is the
  -- last one
  induction fuel with
  | zero => exact fun h => absurd h.2 (Option.some_ne_none _).symm
  | succ fuel ih =>
      intro tr h
      obtain ⟨finished, tr, rfl, h₁⟩ := Prog.runs_step.mp h
      split at h₁
      · obtain ⟨-, tr, rfl, rfl, -⟩ := h₁
        exact ⟨rfl, rfl⟩
      obtain ⟨-, tr, rfl, h₂⟩ := Prog.runs_step.mp h₁
      obtain ⟨w, tr, rfl, h₃⟩ := Prog.runs_step.mp h₂
      split at h₃
      · obtain ⟨-, tr, rfl, h₄⟩ := Prog.runs_step.mp h₃
        have hrest := ih h₄
        exact hrest
      obtain ⟨r, tr, rfl, h₄⟩ := Prog.runs_step.mp h₃
      split at h₄
      · obtain ⟨-, tr, rfl, h₅⟩ := Prog.runs_step.mp h₄
        obtain ⟨hreads, hfed⟩ := ih h₅
        exact ⟨hreads, congrArg ((r.getD []).length + ·) hfed⟩
      · next hnothing =>
          have hlength : (r.getD []).length = 0 := by
            cases r with
            | none => rfl
            | some l => exact Nat.le_zero.mp (Int.ofNat_le.mp (not_lt.mp hnothing))
          split at h₄
          · obtain ⟨rfl, -⟩ := h₄
            exact ⟨rfl, (congrArg (· + 0) hlength).symm⟩
          · obtain ⟨hreads, hfed⟩ := ih h₄
            refine ⟨hreads, hfed.trans ?_⟩
            show _ = (r.getD []).length + bytesIn (readResults tr)
            rw [hlength, Nat.zero_add]

section Connecting

variable {fuel : ℕ} {client client' : JudoServer} {tr : List (Event Op Ans)}

/-- What a connection has received when the last of it was the `SSL_read` of `judoConnect_`:
there was a handshake, a `read` and a `BIO_write`, and no other `SSL_read`. -/
structure Greeted (fuel : ℕ) (client client' : JudoServer) (n : ssl_node) (tr : List (Event Op Ans)) : Prop where
  added : client' = { client with m_ssl_nodes := client.m_ssl_nodes.add ⟨n.fp, POLLIN, 0⟩ n }
  stream : ∃ (trₕ : List (Event Op Ans)) (size : ℤ) (r c : Option (List Byte)),
    Prog.Runs (judoHandshake_ n size fuel) trₕ (some JUDO_SUCCESS)
      ∧ stream tr = stream trₕ ++ [⟨.read n.fp size, r⟩, ⟨.BIO_write n.read_bio (bytesRead r) (r.getD []), ()⟩,
        ⟨.SSL_read n.ssl size, c⟩]

/-- The rest of a call that succeeds is this. -/
theorem join_greeted {n : ssl_node} {buffer : ℕ} (hcerts : n.certs = true)
    (h : judoConnect_.JoinWay (fun n size => judoHandshake_ n size fuel) client n buffer tr client' JUDO_SUCCESS) :
    Greeted fuel client client' n tr := by
  cases h with
  | @shaken size buf r c trₕ tr client' ret hsize hcerts' hhand hhello =>
      refine ⟨(runs_hello hhello).1, trₕ, size, r, c, hhand, ?_⟩
      show stream (trₕ ++ _) = _
      rw [stream_append]
      show _ ++ (_ :: _ :: _ :: stream tr) = _
      rw [stream_hello hhello]
  | plain hsize hcerts' hhello => exact absurd hcerts hcerts'

/-- A connection with certificate bits, seen from its stream. -/
theorem runs_greeted {t_cert t_key : Option String} {t_mode : Byte}
    (hcerts : t_mode &&& (JUDO_CON_SERVER_CERTS ||| JUDO_CON_CLIENT_CERTS) ≠ 0)
    (h : Prog.Runs (judoConnect_ (fun n size => judoHandshake_ n size fuel) client t_cert t_key t_mode) tr
      (some (client', JUDO_SUCCESS))) :
    ∃ (n : ssl_node) (b : Option (List Byte)) (trₙ : List (Event Op Ans)), n.certs = true
      ∧ Greeted fuel client client' n trₙ ∧ stream tr = ⟨.read n.fp 1, b⟩ :: stream trₙ := by
  generalize hret : JUDO_SUCCESS = ret at h
  cases judoConnect_.call h with
  | missing hmissing => exact absurd hret (by decide)
  | unfilled hcheck hfill hret' => exact absurd hret.symm hret'
  | unconnected hcheck hfill hfilled hw => exact absurd hret (by decide)
  | @connected node filled fp w trᵢ tr client' ret hcheck hfill hfilled hw hway =>
      -- all that comes before the mode byte is quiet
      have hquiet : stream (⟨.new_ssl_node, node⟩ :: (trᵢ ++ ⟨.log "Attempting to connect to /%a" 1, ()⟩ :: ⟨.socket, fp⟩
          :: ⟨.setsockopt fp, ()⟩ :: ⟨.connect fp, w⟩ :: tr)) = stream tr := by
        show stream (trᵢ ++ _) = _
        rw [stream_append, stream_connectFill hfill, List.nil_append]
        rfl
      rw [hquiet]
      cases hway with
      | unanswered hr => exact absurd hret (by decide)
      | refused hbits hout => exact absurd hret.symm hout
      | @answered buffer b l w tr client' ret hbits hjoin =>
          subst hret
          have hn := (certs_of_mode (n := { filled.1 with fp := fp, mode := b }) hbits).mpr hcerts
          exact ⟨_, some (b :: l), tr, hn, join_greeted hn hjoin, rfl⟩

end Connecting

/-! ## Losing nothing

What is read and thrown away is lost just when it is a packet. What has not been read stays,
and later calls get it in order. -/

/-- A later `judoRead_` on the node that returns 0. -/
def ReadOn (n : ssl_node) (tr : List (Event Op Ans)) : Prop :=
  ∃ (fuel : ℕ) (server server' : JudoServer) (t_poll : pollfd) (t_out_buf t_out_buf' : ℕ) (size : ℤ),
    Prog.Runs (judoRead_ fuel server n t_poll t_out_buf) tr (some (server', 0, t_out_buf', size))

/-- Connecting has lost none of the packets. It has read none of them; and whatever the
later calls of `judoRead_` are, and however the bytes come in, the packets of records that
are there in full have been returned to these calls, in order, once as many calls have
been made. -/
structure LosesNothing (n : ssl_node) (records : List TlsRecord) (tr : List (Event Op Ans)) : Prop where
  unread : packetsRead tr = []
  obtained : ∀ (calls calls' : List (List (Event Op Ans))), (∀ c ∈ calls ++ calls', ReadOn n c) →
    (⟨records, 0⟩ : Inbound).Explains (tr ++ calls.flatten ++ calls'.flatten) →
      ∀ front rest, records = front ++ rest → lengthOf front ≤ bytesFed (tr ++ calls.flatten) →
        (packetsOf front).length ≤ calls'.length → packetsOf front <+: packetsRead (calls.flatten ++ calls'.flatten)

/-- A call of `judoRead_` that returns 0 asks OpenSSL for a packet. -/
theorem ReadOn.sslReads_pos {n : ssl_node} {tr : List (Event Op Ans)} (hcerts : n.certs = true) (h : ReadOn n tr) :
    1 ≤ sslReads tr := by
  obtain ⟨fuel, server, server', t_poll, t_out_buf, t_out_buf', size, hruns⟩ := h
  obtain ⟨-, tr, rfl, h₁⟩ := Prog.runs_step.mp hruns
  obtain ⟨index, tr, rfl, h₂⟩ := Prog.runs_step.mp h₁
  obtain ⟨buffer, tr, rfl, h₃⟩ := Prog.runs_step.mp h₂
  cases fuel with
  | zero => exact absurd h₃.2 (Option.some_ne_none _).symm
  | succ fuel =>
      unfold judoRead_.loop at h₃
      obtain ⟨r, tr, rfl, h₄⟩ := Prog.runs_step.mp h₃
      split at h₄
      · obtain ⟨-, tr, rfl, -, tr, rfl, -, tr, rfl, -, tr, rfl, -, tr, rfl, -, tr, rfl, rfl, hret⟩ := h₄
        exact absurd (Prod.mk.inj (Prod.mk.inj (Option.some.inj hret)).2).1 (by decide)
      obtain ⟨tr₁, tr₂, p, rfl, hunseal, -⟩ := Prog.runs_bind.mp h₄
      unfold judoRead_.unseal at hunseal
      rw [if_pos hcerts] at hunseal
      obtain ⟨-, tr, rfl, c, tr, rfl, rfl, -⟩ := hunseal
      show 1 ≤ sslReads tr₂ + 1
      omega

/-- So there are as many requests as calls, or more. -/
theorem length_le_sslReads {n : ssl_node} (hcerts : n.certs = true) (calls : List (List (Event Op Ans))) :
    (∀ c ∈ calls, ReadOn n c) → calls.length ≤ sslReads calls.flatten := by
  induction calls with
  | nil => exact fun _ => le_refl 0
  | cons c calls ih =>
      intro hcalls
      have hfirst := (hcalls c List.mem_cons_self).sslReads_pos hcerts
      have hrest := ih fun c' hc' => hcalls c' (List.mem_cons_of_mem c hc')
      rw [List.flatten_cons, sslReads_append, List.length_cons]
      omega

/-- What a record of operations has not read, later calls get. -/
theorem losesNothing_of_unread {n : ssl_node} (hcerts : n.certs = true) {records : List TlsRecord}
    {tr : List (Event Op Ans)} (hunread : packetsRead tr = []) : LosesNothing n records tr := by
  refine ⟨hunread, ?_⟩
  intro calls calls' hcalls hexplains front rest hrecords hlength hcount
  obtain ⟨hbefore, hafter⟩ := (explains_append _ _ _).mp hexplains
  obtain ⟨done, hdone, hpackets, harrived⟩ := after_spec _ hbefore
  rw [packetsRead_append, hunread, List.nil_append] at hpackets
  rw [packetsRead_append, ← hpackets]
  -- the records that are there are among those that have been gone through, or go beyond them
  have hfront : front <+: records := ⟨rest, hrecords.symm⟩
  rcases List.prefix_or_prefix_of_prefix hfront ⟨_, hdone.symm⟩ with hprefix | hprefix
  · obtain ⟨more, rfl⟩ := hprefix
    rw [packetsOf_append, List.append_assoc]
    exact List.prefix_append _ _
  · obtain ⟨front', rfl⟩ := hprefix
    have hleft : ((⟨records, 0⟩ : Inbound).after (tr ++ calls.flatten)).records = front' ++ rest := by
      have hsplit := hrecords.symm.trans hdone
      rw [List.append_assoc] at hsplit
      exact (List.append_cancel_left hsplit).symm
    have hreads := length_le_sslReads hcerts calls' fun c hc => hcalls c (List.mem_append_right calls hc)
    rw [packetsOf_append, List.length_append] at hcount
    rw [lengthOf_append] at hlength
    rw [packetsOf_append]
    apply (List.prefix_append_right_inj (packetsOf done)).mpr
    apply packetsRead_front _ hleft _ hafter
    · omega
    · dsimp only at harrived
      omega

/-- **Connecting loses no application data** exactly when the first packet of the server
has not come in full with what the call reads after the mode byte: the handshake, and what
is thrown away. -/
theorem losesNothing_iff {fuel : ℕ} {client client' : JudoServer} {t_cert t_key : Option String} {t_mode : Byte}
    {tr : List (Event Op Ans)} (hcerts : t_mode &&& (JUDO_CON_SERVER_CERTS ||| JUDO_CON_CLIENT_CERTS) ≠ 0)
    (h : Prog.Runs (judoConnect_ (fun n size => judoHandshake_ n size fuel) client t_cert t_key t_mode) tr
      (some (client', JUDO_SUCCESS)))
    (records : List TlsRecord) (hexplains : (⟨records, 0⟩ : Inbound).Explains tr) :
    ∃ n : ssl_node, client' = { client with m_ssl_nodes := client.m_ssl_nodes.add ⟨n.fp, POLLIN, 0⟩ n } ∧ n.certs = true
      ∧ (LosesNothing n records tr ↔ ∀ e ∈ firstPacketEnd records, bytesIn (readResults tr).tail < e) := by
  obtain ⟨n, b, trₙ, hn, ⟨hadded, trₕ, size, r, c, hhand, htrₙ⟩, htr⟩ := runs_greeted hcerts h
  refine ⟨n, hadded, hn, ?_⟩
  obtain ⟨hnoReads, hfed⟩ := handshake_feeds hhand
  obtain ⟨hnone, -, hafter⟩ := after_of_noReads (stream trₕ) ⟨records, 0⟩ hnoReads
  rw [htrₙ] at htr
  -- the bytes that are there when the packet is asked for are all that has been read
  have hin : bytesIn (readResults tr).tail = bytesFed (stream trₕ) + (r.getD []).length := by
    rw [← readResults_stream, htr, bytesFed_stream, hfed, ← readResults_stream trₕ]
    show bytesIn (readResults (stream trₕ ++ _)) = _
    rw [Engine.readResults_append, bytesIn_append]
    rfl
  have hread : packetsRead tr = c.toList := by
    rw [← packetsRead_stream, htr]
    show packetsRead (stream trₕ ++ _) = _
    rw [packetsRead_append, hnone]
    exact List.append_nil _
  have hc : c = (nextPacket records (bytesIn (readResults tr).tail)).1 := by
    rw [← explains_stream, htr] at hexplains
    have hlast := ((explains_append (stream trₕ) _ ⟨records, 0⟩).mp hexplains).2
    rw [hafter] at hlast
    rw [hin]
    simpa [Inbound.Explains] using hlast
  rw [← nextPacket_eq_none, ← hc]
  constructor
  · intro hkept
    have hunread := hkept.unread
    rw [hread] at hunread
    exact Option.toList_eq_nil_iff.mp hunread
  · intro hnothing
    apply losesNothing_of_unread hn
    rw [hread, hnothing]
    rfl

/-- A server for one handshake, and the reads of a client that connects to it. -/
structure TlsPeer where
  calls : ℕ
  reads : List (Option (List Byte))
  inbound : Inbound

/-- The client's first flight, the server's, and the client's last one. -/
def TlsPeer.answer : TlsPeer → (o : Op) → Ans o × TlsPeer
  | s, .SSL_is_init_finished _ => (3 ≤ s.calls, s)
  | s, .SSL_do_handshake _ => ((), ⟨s.calls + 1, s.reads, s.inbound⟩)
  | s, .BIO_read _ _ => (if s.calls = 2 then none else some [0x16], s)
  | s, .read _ _ => (s.reads.headD none, ⟨s.calls, s.reads.tail, s.inbound⟩)
  | s, .BIO_write _ _ data => ((), ⟨s.calls, s.reads, s.inbound.records, s.inbound.arrived + data.length⟩)
  | s, .SSL_read _ _ =>
      ((nextPacket s.inbound.records s.inbound.arrived).1, ⟨s.calls, s.reads, (nextPacket s.inbound.records s.inbound.arrived).2⟩)
  | s, _ => (default, s)

/-- Its answers are those of a connection. -/
theorem TlsPeer.explains_exec {α : Type} (p : Sys α) : ∀ (s : TlsPeer), s.inbound.Explains (Prog.exec TlsPeer.answer p s).1 := by
  induction p with
  | ret a => exact fun _ => trivial
  | call o k ih =>
      intro s
      have hrest := ih (TlsPeer.answer s o).1 (TlsPeer.answer s o).2
      cases o
      case SSL_read ssl size => exact ⟨rfl, hrest⟩
      all_goals exact hrest

/-- The server's flight, a ticket and a packet of 32 bytes. -/
def ticketAndPacket : List TlsRecord := [⟨none, 3⟩, ⟨none, 8⟩, ⟨some (List.replicate 32 0x38), 54⟩]

/-- The server sends these, and the client gets these bytes with the read after the handshake. -/
def TlsPeer.sending (bytes : List Byte) : TlsPeer :=
  ⟨0, [some [0x46], some (List.replicate 3 0x16), some bytes], ticketAndPacket, 0⟩

/-- The client. -/
def connectReading (bytes : List Byte) : List (Event Op Ans) × Option (JudoServer × ℤ) × TlsPeer :=
  Prog.exec TlsPeer.answer
    (judoConnect_ (fun n size => judoHandshake_ n size 4) (.init_ default) none none JUDO_CON_SERVER_CERTS) (.sending bytes)

/-- The ticket comes alone. -/
theorem losesNothing_ticket : ∃ n : ssl_node, LosesNothing n ticketAndPacket (connectReading (List.replicate 8 0x17)).1 := by
  have hruns := Prog.runs_exec (h := TlsPeer.answer)
    (judoConnect_ (fun n size => judoHandshake_ n size 4) (.init_ default) none none JUDO_CON_SERVER_CERTS)
    (.sending (List.replicate 8 0x17))
  obtain ⟨n, -, -, hiff⟩ := losesNothing_iff (by decide) hruns ticketAndPacket
    (TlsPeer.explains_exec _ (.sending (List.replicate 8 0x17)))
  refine ⟨n, hiff.mpr ?_⟩
  decide +kernel

/-- The ticket and the packet come with one read, and the packet is lost. -/
theorem packet_lost : ¬ ∀ (fuel : ℕ) (client client' : JudoServer) (t_cert t_key : Option String) (t_mode : Byte)
    (tr : List (Event Op Ans)) (records : List TlsRecord),
    t_mode &&& (JUDO_CON_SERVER_CERTS ||| JUDO_CON_CLIENT_CERTS) ≠ 0 →
      Prog.Runs (judoConnect_ (fun n size => judoHandshake_ n size fuel) client t_cert t_key t_mode) tr
        (some (client', JUDO_SUCCESS)) →
      (⟨records, 0⟩ : Inbound).Explains tr →
        ∃ n : ssl_node, client' = { client with m_ssl_nodes := client.m_ssl_nodes.add ⟨n.fp, POLLIN, 0⟩ n }
          ∧ LosesNothing n records tr := by
  intro hall
  have hruns := Prog.runs_exec (h := TlsPeer.answer)
    (judoConnect_ (fun n size => judoHandshake_ n size 4) (.init_ default) none none JUDO_CON_SERVER_CERTS)
    (.sending (List.replicate 62 0x17))
  obtain ⟨n, -, hloses⟩ := hall 4 _ _ none none JUDO_CON_SERVER_CERTS _ ticketAndPacket (by decide) hruns
    (TlsPeer.explains_exec _ (.sending (List.replicate 62 0x17)))
  have hread : packetsRead (connectReading (List.replicate 62 0x17)).1 = [List.replicate 32 0x38] := by decide +kernel
  exact absurd (hread.symm.trans hloses.unread) (List.cons_ne_nil _ _)

end JudoEngine
