/-
What a server and a client agree on when a connection is made.

The server sends its mode byte, the client compares the certificate bits with the
ones it was asked for, and sends the byte back or 0xFF; then come the handshake,
when there are certificate bits, and the rows. Each party is its own program, and
a run of it a record of its operations; `wire` keeps what the other party can see.
The two records belong together when each reads what the other writes (`Fed`) and
the handshakes come out alike (`Handshakes`).
-/
import JudoEngine.JudoServer.Exits

set_option autoImplicit false

open Words

namespace JudoEngine

/-! ## Records of one party

Each predicate is a recursion over the record, and each comes with the lemma that it only
depends on `wire`. So where a party's record has been brought down to a few loud events, the
predicates can be read off by evaluation. -/

/-- The operations that the other party can see. -/
def loud : Op → Bool
  | .read _ _ | .write _ _ _ | .handshake _ => true
  | _ => false

/-- The part of a record that the other party can see. -/
def wire (tr : List (Event Op Ans)) : List (Event Op Ans) := tr.filter fun ev => loud ev.op

/-- What is written. -/
def sent : List (Event Op Ans) → List Byte
  | [] => []
  | ⟨.write _ _ data, _⟩ :: tr => data ++ sent tr
  | _ :: tr => sent tr

/-- The outcomes of the handshakes. -/
def handshakes : List (Event Op Ans) → List ℤ
  | [] => []
  | ⟨.handshake _, ret⟩ :: tr => ret :: handshakes tr
  | _ :: tr => handshakes tr

/-- Every `write` writes everything. -/
def WritesAll : List (Event Op Ans) → Prop
  | [] => True
  | ⟨.write _ _ data, ret⟩ :: tr => (ret : ℤ) = data.length ∧ WritesAll tr
  | _ :: tr => WritesAll tr

/-- Every `read` returns the next bytes of what comes in, and fails only when nothing
more does. -/
def Fed : List Byte → List (Event Op Ans) → Prop
  | _, [] => True
  | incoming, ⟨.read _ _, r⟩ :: tr =>
      match (r : Option (List Byte)) with
      | some (b :: l) => b :: l <+: incoming ∧ Fed (incoming.drop (l.length + 1)) tr
      | _ => incoming = [] ∧ Fed [] tr
  | incoming, _ :: tr => Fed incoming tr

/-- The certificate and key files can be used, and the connection is made. -/
def Ready : List (Event Op Ans) → Prop
  | [] => True
  | ⟨.SSL_CTX_use_certificate_file _ _, ret⟩ :: tr => 0 < (ret : ℤ) ∧ Ready tr
  | ⟨.SSL_CTX_use_PrivateKey_file _ _, ret⟩ :: tr => 0 < (ret : ℤ) ∧ Ready tr
  | ⟨.connect _, ret⟩ :: tr => 0 ≤ (ret : ℤ) ∧ Ready tr
  | _ :: tr => Ready tr

/-- What shows of two records. -/
theorem wire_append (tr tr' : List (Event Op Ans)) : wire (tr ++ tr') = wire tr ++ wire tr' :=
  List.filter_append ..

/-- Sending and reading only show on the wire. -/
theorem sent_wire (tr : List (Event Op Ans)) : sent (wire tr) = sent tr := by
  induction tr with
  | nil => rfl
  | cons ev tr ih =>
      obtain ⟨o, x⟩ := ev
      cases o <;> simp only [wire, List.filter_cons, loud, if_true, Bool.false_eq_true, if_false, sent] <;>
        simp only [← ih] <;> rfl

/-- So do the outcomes of the handshakes, ... -/
theorem handshakes_wire (tr : List (Event Op Ans)) : handshakes (wire tr) = handshakes tr := by
  induction tr with
  | nil => rfl
  | cons ev tr ih =>
      obtain ⟨o, x⟩ := ev
      cases o <;> simp only [wire, List.filter_cons, loud, if_true, Bool.false_eq_true, if_false, handshakes] <;>
        simp only [← ih] <;> rfl

/-- ... whether everything is written, ... -/
theorem writesAll_wire (tr : List (Event Op Ans)) : WritesAll (wire tr) ↔ WritesAll tr := by
  induction tr with
  | nil => rfl
  | cons ev tr ih =>
      obtain ⟨o, x⟩ := ev
      cases o <;> simp only [wire, List.filter_cons, loud, if_true, Bool.false_eq_true, if_false, WritesAll] <;>
        simp only [← ih] <;> rfl

/-- ... and whether the reads are fed. -/
theorem fed_wire (tr : List (Event Op Ans)) : ∀ (incoming : List Byte), Fed incoming (wire tr) ↔ Fed incoming tr := by
  induction tr with
  | nil => exact fun _ => Iff.rfl
  | cons ev tr ih =>
      intro incoming
      obtain ⟨o, x⟩ := ev
      cases o <;> simp only [wire, List.filter_cons, loud, if_true, Bool.false_eq_true, if_false, Fed] <;>
        simp only [← ih] <;> rfl

/-- The files and the connection may be in either part. -/
theorem ready_append (tr tr' : List (Event Op Ans)) : Ready (tr ++ tr') ↔ Ready tr ∧ Ready tr' := by
  induction tr with
  | nil => simp [Ready]
  | cons ev tr ih =>
      obtain ⟨o, x⟩ := ev
      cases o <;> simp only [List.cons_append, Ready, ih, and_assoc]

/-! ## The TLS fields

Before its first byte a party only talks to OpenSSL about its files. That part is silent, and
it fails exactly when a file cannot be used, which is one of the things that `Ready` rules
out. -/

/-- A file fails when it cannot be used, and says nothing to the other side. -/
theorem useFile_spec {use : String → Sys ℤ} {failure : ℤ} {file : Option String}
    (huse : ∀ name tr ret, Prog.Runs (use name) tr ret → wire tr = [] ∧ (ret ≤ 0 → ¬ Ready tr))
    {tr : List (Event Op Ans)} {ret : ℤ} (h : Prog.Runs (useFile use failure file) tr ret) :
    wire tr = [] ∧ (ret ≠ JUDO_SUCCESS → ¬ Ready tr) := by
  rcases file with _ | name
  · obtain ⟨rfl, rfl⟩ := h
    exact ⟨rfl, fun hne => absurd rfl hne⟩
  · obtain ⟨tr₁, tr₂, r, rfl, hruns, hrest⟩ := Prog.runs_bind.mp h
    obtain ⟨hwire, hready⟩ := huse name tr₁ r hruns
    by_cases hr : r ≤ 0
    · rw [if_pos hr] at hrest
      obtain ⟨-, tr₃, rfl, rfl, rfl⟩ := hrest
      refine ⟨by rw [wire_append, hwire]; rfl, fun _ hall => ?_⟩
      exact hready hr ((ready_append _ _).mp hall).1
    · rw [if_neg hr] at hrest
      obtain ⟨rfl, rfl⟩ := hrest
      exact ⟨by rw [wire_append, hwire]; rfl, fun hne => absurd rfl hne⟩

/-- Filling in the TLS fields is silent, and fails only when a file cannot be used. -/
theorem fillGeneral_spec {t_ssl_node : ssl_node} {t_cert t_key : Option String} {server_method : Bool}
    {tr : List (Event Op Ans)} {filled : ssl_node × ℤ}
    (h : Prog.Runs (judoFillGeneralSSLFields_ t_ssl_node t_cert t_key server_method) tr filled) :
    wire tr = [] ∧ (filled.2 ≠ JUDO_SUCCESS → ¬ Ready tr) := by
  unfold judoFillGeneralSSLFields_ at h
  rw [Prog.op_bind, Prog.runs_call] at h
  obtain ⟨ctx, tr, rfl, h⟩ := h
  obtain ⟨tr₁, tr₂, r₁, rfl, hcert, h⟩ := Prog.runs_bind.mp h
  obtain ⟨hwire₁, hready₁⟩ := useFile_spec (fun name tr ret huse => by
    obtain ⟨x, tr', rfl, rfl, rfl⟩ := huse
    exact ⟨rfl, fun hle hall => absurd hall.1 (not_lt.mpr hle)⟩) hcert
  -- a file that is refused ends it with nothing on the wire
  by_cases hr₁ : r₁ ≠ JUDO_SUCCESS
  · rw [if_pos hr₁] at h
    obtain ⟨rfl, rfl⟩ := h
    exact ⟨by rw [List.append_nil]; exact hwire₁, fun _ hall => hready₁ hr₁ ((ready_append _ _).mp hall).1⟩
  rw [if_neg hr₁] at h
  obtain ⟨tr₃, tr₄, r₂, rfl, hkey, h⟩ := Prog.runs_bind.mp h
  obtain ⟨hwire₂, hready₂⟩ := useFile_spec (fun name tr ret huse => by
    obtain ⟨x, tr', rfl, rfl, rfl⟩ := huse
    exact ⟨rfl, fun hle hall => absurd hall.1 (not_lt.mpr hle)⟩) hkey
  by_cases hr₂ : r₂ ≠ JUDO_SUCCESS
  · rw [if_pos hr₂] at h
    obtain ⟨rfl, rfl⟩ := h
    refine ⟨?_, fun _ hall => hready₂ hr₂ ((ready_append _ _).mp ((ready_append _ _).mp hall).2).1⟩
    show wire (tr₁ ++ (tr₃ ++ [])) = []
    rw [wire_append, wire_append, hwire₁, hwire₂]
    rfl
  rw [if_neg hr₂] at h
  obtain ⟨ssl, tr₅, rfl, read_bio, tr₆, rfl, write_bio, tr₇, rfl, -, tr₈, rfl, rfl, rfl⟩ := h
  refine ⟨?_, fun hne => absurd rfl hne⟩
  show wire (tr₁ ++ (tr₃ ++ _)) = []
  rw [wire_append, wire_append, hwire₁, hwire₂]
  rfl

/-- The server's half. -/
theorem fillServer_spec {server : JudoServer} {t_node : ssl_node} {tr : List (Event Op Ans)} {filled : ssl_node × ℤ}
    (h : Prog.Runs (judoFillServerSSLFields_ server t_node) tr filled) :
    wire tr = [] ∧ (filled.2 ≠ JUDO_SUCCESS → ¬ Ready tr) := by
  obtain ⟨tr₁, tr₂, filled', rfl, hfill, h⟩ := Prog.runs_bind.mp h
  obtain ⟨hwire, hready⟩ := fillGeneral_spec hfill
  by_cases hr : filled'.2 ≠ JUDO_SUCCESS
  · rw [if_pos hr] at h
    obtain ⟨rfl, rfl⟩ := h
    rw [List.append_nil]
    exact ⟨hwire, hready⟩
  · rw [if_neg hr] at h
    obtain ⟨-, tr₃, rfl, rfl, rfl⟩ := h
    exact ⟨by rw [wire_append, hwire]; rfl, fun hne => absurd rfl hne⟩

/-- The client's half. -/
theorem fillClient_spec {t_node : ssl_node} {t_cert t_key : Option String} {tr : List (Event Op Ans)}
    {filled : ssl_node × ℤ} (h : Prog.Runs (judoFillClientSSLFields_ t_node t_cert t_key) tr filled) :
    wire tr = [] ∧ (filled.2 ≠ JUDO_SUCCESS → ¬ Ready tr) := by
  obtain ⟨tr₁, tr₂, filled', rfl, hfill, h⟩ := Prog.runs_bind.mp h
  obtain ⟨hwire, hready⟩ := fillGeneral_spec hfill
  obtain ⟨-, tr₃, rfl, rfl, rfl⟩ := h
  refine ⟨by rw [wire_append, hwire]; rfl, fun hne hall => hready hne ((ready_append _ _).mp hall).1⟩

/-! ## The server

What the other side sees of `judoAccept_`, in five cases; what it does to the table stands
beside it. The proof follows the ways of the function (`Ways`), and only the comparison of the
answer needs an argument. -/

/-- There is no handshake in the record. -/
def Plain (tr : List (Event Op Ans)) : Prop := ∀ ev ∈ tr, ordinary ev.op = true

/-- A part of it has none either. -/
theorem plain_wire {tr : List (Event Op Ans)} (h : Plain tr) : Plain (wire tr) :=
  fun ev hev => h ev (List.mem_of_mem_filter hev)

/-- So nothing has been shaken. -/
theorem handshakes_of_plain {tr : List (Event Op Ans)} (h : Plain tr) : handshakes tr = [] := by
  induction tr with
  | nil => rfl
  | cons ev tr ih =>
      have hev := h ev List.mem_cons_self
      have hrest := ih fun ev' hev' => h ev' (List.mem_cons_of_mem _ hev')
      obtain ⟨o, x⟩ := ev
      cases o <;> first | exact hrest | exact absurd hev Bool.false_ne_true

/-- Adding the row and greeting. -/
theorem greet_spec {server server' : JudoServer} {new_node : ssl_node} {buffer : ℕ} {tr : List (Event Op Ans)} {ret : ℤ}
    (h : Prog.Runs (judoAccept_.greet server new_node buffer) tr (some (server', ret))) :
    Plain tr
      ∧ server' = { server with m_ssl_nodes := server.m_ssl_nodes.add ⟨new_node.fp, POLLIN, 0⟩ new_node } :=
  ⟨Prog.Only.of_runs (internal_greet ..).ordinary h, (runs_greet h).1⟩

/-- The client has sent this byte back, as far as the server's comparison sees. -/
def Agrees (r : Option (List Byte)) (mode : Byte) : Prop :=
  ∃ b l, r = some (b :: l) ∧ b.toInt = mode.toNat

/-- What a run of `judoAccept_` looks like from the other side, and what it does. -/
inductive AcceptRun (server : JudoServer) (tr : List (Event Op Ans)) (server' : JudoServer) : Prop where
  | unready (hwire : wire tr = []) (hready : ¬ Ready tr) (hserver : server' = server)
  | unsent (fp w : ℤ) (hwire : wire tr = [⟨.write fp 1 [server.connectionMode], w⟩]) (hw : w ≤ 0)
      (hserver : server' = server)
  | refused (fp w : ℤ) (r : Option (List Byte))
      (hwire : wire tr = [⟨.write fp 1 [server.connectionMode], w⟩, ⟨.read fp 1, r⟩])
      (hr : ¬ Agrees r server.connectionMode) (hserver : server' = server)
  | failed (fp w : ℤ) (r : Option (List Byte)) (n : ssl_node) (ret : ℤ)
      (hwire : wire tr = [⟨.write fp 1 [server.connectionMode], w⟩, ⟨.read fp 1, r⟩, ⟨.handshake n.addr, ret⟩])
      (hr : Agrees r server.connectionMode) (hmode : n.mode = server.connectionMode) (hcerts : n.certs = true)
      (hret : ret ≠ 0) (hserver : server' = server)
  | added (fp w : ℤ) (r : Option (List Byte)) (shake rest : List (Event Op Ans)) (n : ssl_node)
      (hwire : wire tr = ⟨.write fp 1 [server.connectionMode], w⟩ :: ⟨.read fp 1, r⟩ :: (shake ++ rest))
      (hr : Agrees r server.connectionMode)
      (hshake : shake = if n.certs then [⟨.handshake n.addr, (0 : ℤ)⟩] else []) (hrest : Plain rest)
      (hmode : n.mode = server.connectionMode)
      (hserver : server' = { server with m_ssl_nodes := server.m_ssl_nodes.add ⟨n.fp, POLLIN, 0⟩ n })

/-- The server's test of the answer. -/
theorem agrees_iff (m : Buffer) (r : Option (List Byte)) (mode : Byte) :
    (bytesRead r > 0 ∧ (m.fill (r.getD []) 0).toInt = mode.toNat) ↔ Agrees r mode := by
  constructor
  · rintro ⟨hpos, heq⟩
    rcases r with _ | _ | ⟨b, l⟩
    · exact absurd hpos (by decide)
    · exact absurd hpos (by decide)
    · rw [Option.getD_some, Buffer.fill_cons_zero] at heq
      exact ⟨b, l, rfl, heq⟩
  · rintro ⟨b, l, rfl, heq⟩
    refine ⟨?_, ?_⟩
    · show (0 : ℤ) < ((b :: l).length : ℤ)
      rw [List.length_cons]
      omega
    · rw [Option.getD_some, Buffer.fill_cons_zero]
      exact heq

/-- Silent operations in front do not matter. -/
theorem AcceptRun.quiet {server server' : JudoServer} {pre tr : List (Event Op Ans)} (hpre : wire pre = [])
    (h : AcceptRun server tr server') : AcceptRun server (pre ++ tr) server' := by
  have hwire : wire (pre ++ tr) = wire tr := by rw [wire_append, hpre, List.nil_append]
  cases h with
  | unready h hready hserver => exact .unready (hwire.trans h) (fun hall => hready ((ready_append _ _).mp hall).2) hserver
  | unsent fp w h hw hserver => exact .unsent fp w (hwire.trans h) hw hserver
  | refused fp w r h hr hserver => exact .refused fp w r (hwire.trans h) hr hserver
  | failed fp w r n ret h hr hmode hcerts hret hserver =>
      exact .failed fp w r n ret (hwire.trans h) hr hmode hcerts hret hserver
  | added fp w r shake rest n h hr hshake hrest hmode hserver =>
      exact .added fp w r shake rest n (hwire.trans h) hr hshake hrest hmode hserver

/-- Up to the answer the client sees the mode byte, and is read from. -/
theorem wire_asked {server : JudoServer} {new_node : ssl_node} (hmode : new_node.mode = server.connectionMode)
    (buffer : ℕ × Buffer) (fp w : ℤ) (r : Option (List Byte)) : wire (judoAccept_.asked server new_node buffer fp w r)
      = [⟨.write fp 1 [server.connectionMode], w⟩, ⟨.read fp 1, r⟩] := by
  unfold judoAccept_.asked
  rw [Buffer.bytes_one, Buffer.set_self, hmode]
  rfl

/-- The test in the source's words and in those of the case. -/
theorem answered_iff {server : JudoServer} {new_node : ssl_node} (hmode : new_node.mode = server.connectionMode)
    (buffer : ℕ × Buffer) (r : Option (List Byte)) :
    judoAccept_.Answered new_node buffer r ↔ Agrees r server.connectionMode := by
  unfold judoAccept_.Answered
  rw [hmode]
  exact agrees_iff ..

/-- `judoAccept_` once it has a node with its mode. -/
theorem acceptWay_spec {server server' : JudoServer} {new_node : ssl_node} (hmode : new_node.mode = server.connectionMode)
    {tr : List (Event Op Ans)} {ret : ℤ} (h : judoAccept_.Way tlsHandshake server new_node tr server' ret) :
    AcceptRun server tr server' := by
  -- by the ways out of judoAccept_, in the order of the source
  cases h with
  | @unwritten buffer fp w hw =>
      refine .unsent fp w ?_ hw rfl
      rw [Buffer.bytes_one, Buffer.set_self, hmode]
      rfl
  | @refused buffer fp w r hw hr =>
      refine .refused fp w r ?_ (mt (answered_iff hmode buffer r).mpr hr) rfl
      rw [wire_append, wire_asked hmode]
      rfl
  | @unshaken buffer fp w r out fd trₕ hw hr hcerts hhand hout =>
      obtain ⟨out', trₕ, rfl, rfl, heq⟩ := hhand
      obtain rfl := Option.some.inj heq
      refine .failed fp w r { new_node with fp := fp } out' ?_ ((answered_iff hmode buffer r).mp hr) hmode hcerts hout rfl
      rw [wire_append, wire_asked hmode]
      rfl
  | @shaken buffer fp w r trₕ tr server' ret hw hr hcerts hhand hgreet =>
      obtain ⟨out', trₕ, rfl, rfl, heq⟩ := hhand
      obtain rfl := Option.some.inj heq
      obtain ⟨hplain, hserver⟩ := greet_spec hgreet
      refine .added fp w r [⟨.handshake new_node.addr, (0 : ℤ)⟩] (wire tr) { new_node with fp := fp } ?_
        ((answered_iff hmode buffer r).mp hr) (if_pos hcerts).symm (plain_wire hplain) hmode hserver
      rw [wire_append, wire_asked hmode]
      rfl
  | @plain buffer fp w r tr server' ret hw hr hcerts hgreet =>
      obtain ⟨hplain, hserver⟩ := greet_spec hgreet
      refine .added fp w r [] (wire tr) { new_node with fp := fp } ?_ ((answered_iff hmode buffer r).mp hr)
        (if_neg hcerts).symm (plain_wire hplain) hmode hserver
      rw [wire_append, wire_asked hmode]
      rfl

/-- **`judoAccept_`**, as the client sees it. -/
theorem runs_judoAccept_ {server server' : JudoServer} {tr : List (Event Op Ans)} {ret : ℤ}
    (h : Prog.Runs (judoAccept_ tlsHandshake server) tr (some (server', ret))) : AcceptRun server tr server' := by
  have hfilled : ∀ {node : ssl_node} {filled : ssl_node × ℤ} {trᵢ : List (Event Op Ans)},
      Prog.Runs (judoAccept_.fill server node) trᵢ filled → wire trᵢ = [] ∧ (filled.2 ≠ JUDO_SUCCESS → ¬ Ready trᵢ) := by
    intro node filled trᵢ hfill
    unfold judoAccept_.fill at hfill
    split at hfill
    · exact fillServer_spec hfill
    · obtain ⟨rfl, rfl⟩ := hfill
      exact ⟨rfl, fun hne => absurd rfl hne⟩
  cases judoAccept_.call h with
  | @unfilled node filled trᵢ hfill hret =>
      obtain ⟨hwire, hready⟩ := hfilled hfill
      refine .unready ?_ (fun hall => hready hret ((ready_append _ _).mp hall).1) rfl
      show wire (trᵢ ++ _) = []
      rw [wire_append, hwire]
      rfl
  | @filled node filled trᵢ tr server' ret hfill hok hway =>
      have hquiet : wire trᵢ = [] := (hfilled hfill).1
      exact AcceptRun.quiet (show wire (⟨.new_ssl_node, node⟩ :: trᵢ) = [] from hquiet) (acceptWay_spec rfl hway)

/-! ## The client

The same for `judoConnect_`. Here the comparison is of bits, and a byte that is refused is
answered with 0xFF. -/

/-- What a run of `judoConnect_` looks like from the other side, and what it does. -/
inductive ConnectRun (client : JudoServer) (t_mode : Byte) (tr : List (Event Op Ans)) (client' : JudoServer) : Prop where
  | unready (hwire : wire tr = []) (hready : ¬ Ready tr) (hclient : client' = client)
  | unanswered (fp : ℤ) (r : Option (List Byte)) (hwire : wire tr = [⟨.read fp 1, r⟩]) (hr : bytesRead r ≤ 0)
      (hclient : client' = client)
  | refused (fp w : ℤ) (b : Byte) (l : List Byte)
      (hwire : wire tr = [⟨.read fp 1, some (b :: l)⟩, ⟨.write fp 1 [0xFF], w⟩]) (hbits : ¬ SameCerts b t_mode)
      (hclient : client' = client)
  | failed (fp w : ℤ) (b : Byte) (l : List Byte) (n : ssl_node) (ret : ℤ)
      (hwire : wire tr = [⟨.read fp 1, some (b :: l)⟩, ⟨.write fp 1 [b], w⟩, ⟨.handshake n.addr, ret⟩])
      (hbits : SameCerts b t_mode) (hmode : n.mode = b) (hcerts : n.certs = true) (hret : ret ≠ 0)
      (hclient : client' = client)
  | added (fp w : ℤ) (b : Byte) (l : List Byte) (shake rest : List (Event Op Ans)) (n : ssl_node)
      (hwire : wire tr = ⟨.read fp 1, some (b :: l)⟩ :: ⟨.write fp 1 [b], w⟩ :: (shake ++ rest))
      (hbits : SameCerts b t_mode) (hshake : shake = if n.certs then [⟨.handshake n.addr, (0 : ℤ)⟩] else [])
      (hrest : Plain rest) (hmode : n.mode = b)
      (hclient : client' = { client with m_ssl_nodes := client.m_ssl_nodes.add ⟨n.fp, POLLIN, 0⟩ n })

/-- As for `judoAccept_`. -/
theorem ConnectRun.quiet {client client' : JudoServer} {t_mode : Byte} {pre tr : List (Event Op Ans)}
    (hpre : wire pre = []) (h : ConnectRun client t_mode tr client') : ConnectRun client t_mode (pre ++ tr) client' := by
  have hwire : wire (pre ++ tr) = wire tr := by rw [wire_append, hpre, List.nil_append]
  cases h with
  | unready h hready hclient => exact .unready (hwire.trans h) (fun hall => hready ((ready_append _ _).mp hall).2) hclient
  | unanswered fp r h hr hclient => exact .unanswered fp r (hwire.trans h) hr hclient
  | refused fp w b l h hbits hclient => exact .refused fp w b l (hwire.trans h) hbits hclient
  | failed fp w b l n ret h hbits hmode hcerts hret hclient =>
      exact .failed fp w b l n ret (hwire.trans h) hbits hmode hcerts hret hclient
  | added fp w b l shake rest n h hbits hshake hrest hmode hclient =>
      exact .added fp w b l shake rest n (hwire.trans h) hbits hshake hrest hmode hclient

/-- Adding the row and the first message. -/
theorem hello_spec {client client' : JudoServer} {new_node : ssl_node} {buffer : ℕ × Buffer} {tr : List (Event Op Ans)}
    {ret : ℤ} (h : Prog.Runs (judoConnect_.hello client new_node buffer) tr (some (client', ret))) :
    Plain tr
      ∧ client' = { client with m_ssl_nodes := client.m_ssl_nodes.add ⟨new_node.fp, POLLIN, 0⟩ new_node } := by
  obtain ⟨tr₁, tr₂, r, rfl, hsend, -, tr₃, rfl, rfl, hret⟩ := Prog.runs_bind.mp h
  have hplain := Prog.Only.of_runs (internal_judoSend_ ..).ordinary hsend
  refine ⟨?_, (congrArg Prod.fst (Option.some.inj hret)).symm⟩
  intro ev hev
  rcases List.mem_append.mp hev with hev | hev
  · exact hplain ev hev
  · obtain rfl := List.mem_singleton.mp hev
    rfl

/-- `judoConnect_` once it has answered. -/
theorem joinWay_spec {client client' : JudoServer} {new_node : ssl_node} {buffer : ℕ} {tr : List (Event Op Ans)} {ret : ℤ}
    (h : judoConnect_.JoinWay tlsHandshake client new_node buffer tr client' ret) :
    (∃ out, wire tr = [⟨.handshake new_node.addr, out⟩] ∧ new_node.certs = true ∧ (out : ℤ) ≠ 0 ∧ client' = client)
      ∨ ∃ shake rest, wire tr = shake ++ rest
        ∧ shake = (if new_node.certs then [⟨.handshake new_node.addr, (0 : ℤ)⟩] else []) ∧ Plain rest
        ∧ client' = { client with m_ssl_nodes := client.m_ssl_nodes.add ⟨new_node.fp, POLLIN, 0⟩ new_node } := by
  cases h with
  | @unshaken size out fd buf trₕ hsize hcerts hhand hout =>
      obtain ⟨out', trₕ, rfl, rfl, heq⟩ := hhand
      obtain rfl := Option.some.inj heq
      exact .inl ⟨out', rfl, hcerts, hout, rfl⟩
  | @shaken size buf r c trₕ tr client' ret hsize hcerts hhand hhello =>
      obtain ⟨out', trₕ, rfl, rfl, heq⟩ := hhand
      obtain rfl := Option.some.inj heq
      obtain ⟨hplain, hclient⟩ := hello_spec hhello
      refine .inr ⟨[⟨.handshake new_node.addr, (0 : ℤ)⟩], ⟨.read new_node.fp size, r⟩ :: wire tr, rfl, (if_pos hcerts).symm, ?_, hclient⟩
      intro ev hev
      rcases List.mem_cons.mp hev with rfl | hev
      · rfl
      · exact plain_wire hplain ev hev
  | @plain size buf tr client' ret hsize hcerts hhello =>
      obtain ⟨hplain, hclient⟩ := hello_spec hhello
      exact .inr ⟨[], wire tr, rfl, (if_neg hcerts).symm, plain_wire hplain, hclient⟩

/-- `judoConnect_` once the socket is connected. -/
theorem connectWay_spec {client client' : JudoServer} {new_node : ssl_node} {t_mode : Byte} {tr : List (Event Op Ans)}
    {ret : ℤ} (h : judoConnect_.Way tlsHandshake client new_node t_mode tr client' ret) :
    ConnectRun client t_mode tr client' := by
  cases h with
  | @unanswered buffer r fd hr => exact .unanswered new_node.fp r rfl hr rfl
  | @refused buffer b l w output hbits hout => exact .refused new_node.fp w b l rfl hbits rfl
  | @answered buffer b l w tr client' ret hbits hjoin =>
      have hwire' : wire (⟨.new_char 1, buffer⟩ :: ⟨.read new_node.fp 1, some (b :: l)⟩ :: ⟨.write new_node.fp 1 [b], w⟩
          :: ⟨.log "Connection to /%a was Successful" 1, ()⟩ :: tr)
          = ⟨.read new_node.fp 1, some (b :: l)⟩ :: ⟨.write new_node.fp 1 [b], w⟩ :: wire tr := rfl
      rcases joinWay_spec hjoin with ⟨out, hwire, hcerts, hout, hsame⟩ | ⟨shake, rest, hwire, hshake, hrest, hadd⟩
      · refine .failed new_node.fp w b l { new_node with mode := b } out ?_ hbits rfl hcerts hout hsame
        rw [hwire', hwire]
      · refine .added new_node.fp w b l shake rest _ ?_ hbits hshake hrest rfl hadd
        rw [hwire', hwire]

/-- **`judoConnect_`**, with arguments that pass its check, as the server sees it. -/
theorem runs_judoConnect_ {client client' : JudoServer} {t_cert t_key : Option String} {t_mode : Byte}
    (hcheck : ¬ CertFilesMissing t_cert t_key t_mode) {tr : List (Event Op Ans)} {ret : ℤ}
    (h : Prog.Runs (judoConnect_ tlsHandshake client t_cert t_key t_mode) tr (some (client', ret))) :
    ConnectRun client t_mode tr client' := by
  have hfilled : ∀ {node : ssl_node} {filled : ssl_node × ℤ} {trᵢ : List (Event Op Ans)},
      Prog.Runs (judoConnect_.fill { node with mode := t_mode } t_cert t_key) trᵢ filled →
      wire trᵢ = [] ∧ (filled.2 ≠ JUDO_SUCCESS → ¬ Ready trᵢ) := by
    intro node filled trᵢ hfill
    unfold judoConnect_.fill at hfill
    split at hfill
    · exact fillClient_spec hfill
    · obtain ⟨rfl, rfl⟩ := hfill
      exact ⟨rfl, fun hne => absurd rfl hne⟩
  -- a failing exit before connect has put nothing on the wire
  cases judoConnect_.call h with
  | missing hmissing => exact absurd hmissing hcheck
  | @unfilled node filled trᵢ hcheck hfill hret =>
      obtain ⟨hwire, hready⟩ := hfilled hfill
      exact .unready hwire (hready hret) rfl
  | @unconnected node filled fp w trᵢ hcheck hfill hok hw =>
      refine .unready ?_ (fun hall => ?_) rfl
      · show wire (trᵢ ++ _) = []
        rw [wire_append, (hfilled hfill).1]
        rfl
      · have hconnected := ((ready_append trᵢ _).mp hall).2
        exact absurd hconnected.1 (not_le.mpr hw)
  | @connected node filled fp w trᵢ tr client' ret hcheck hfill hok hw hway =>
      have hquiet : wire (⟨.new_ssl_node, node⟩ :: (trᵢ ++ [⟨.log "Attempting to connect to /%a" 1, ()⟩, ⟨.socket, fp⟩,
          ⟨.setsockopt fp, ()⟩, ⟨.connect fp, w⟩])) = [] := by
        show wire (trᵢ ++ _) = []
        rw [wire_append, (hfilled hfill).1]
        rfl
      have hrun := (connectWay_spec hway).quiet hquiet
      rw [List.cons_append, List.append_assoc] at hrun
      exact hrun

/-! ## Both together

Each record is fed by what the other one has sent. For either party the possible cases are
brought to one shape first (`facts`): what it has sent, how its handshake came out, what must
have come in. Then the sixteen combinations are gone through, and most of them contradict each
other. -/

/-- What a run of `judoAccept_` has to do with what comes in. -/
theorem AcceptRun.facts {server server' : JudoServer} {tr : List (Event Op Ans)} (h : AcceptRun server tr server')
    (hwrites : WritesAll tr) {incoming : List Byte} (hfed : Fed incoming tr) :
    (server' = server ∧ sent tr = [] ∧ handshakes tr = [] ∧ ¬ Ready tr)
      ∨ (server' = server ∧ sent tr = [server.connectionMode] ∧ handshakes tr = []
        ∧ ∀ b l, incoming = b :: l → b.toInt ≠ server.connectionMode.toNat)
      ∨ (server' = server ∧ ∃ (n : ssl_node) (out : ℤ) (b : Byte) (l : List Byte), n.mode = server.connectionMode
        ∧ n.certs = true ∧ sent tr = [server.connectionMode] ∧ handshakes tr = [out] ∧ out ≠ 0
        ∧ incoming = b :: l ∧ b.toInt = server.connectionMode.toNat)
      ∨ ∃ n l' b l, n.mode = server.connectionMode ∧ sent tr = server.connectionMode :: l'
        ∧ handshakes tr = (if n.certs then [0] else []) ∧ incoming = b :: l ∧ b.toInt = server.connectionMode.toNat
        ∧ server' = { server with m_ssl_nodes := server.m_ssl_nodes.add ⟨n.fp, POLLIN, 0⟩ n } := by
  rw [← sent_wire, ← handshakes_wire]
  rw [← writesAll_wire] at hwrites
  rw [← fed_wire] at hfed
  cases h with
  | unready hwire hready hserver => exact .inl ⟨hserver, by rw [hwire]; rfl, by rw [hwire]; rfl, hready⟩
  | unsent fp w hwire hw hserver =>
      rw [hwire] at hwrites
      -- the channel takes every byte
      have hone : w = 1 := hwrites.1
      omega
  | refused fp w r hwire hr hserver =>
      rw [hwire] at hfed ⊢
      refine .inr (.inl ⟨hserver, rfl, rfl, fun b l hin heq => hr ?_⟩)
      rcases r with _ | _ | ⟨b', l'⟩
      · obtain ⟨hnil, -⟩ := hfed
        exact absurd (hin.symm.trans hnil) (List.cons_ne_nil _ _)
      · obtain ⟨hnil, -⟩ := hfed
        exact absurd (hin.symm.trans hnil) (List.cons_ne_nil _ _)
      · obtain ⟨hnext, -⟩ := hfed
        rw [hin, List.cons_prefix_cons] at hnext
        exact ⟨b', l', rfl, hnext.1 ▸ heq⟩
  | failed fp w r n ret hwire hr hmode hcerts hret hserver =>
      rw [hwire] at hfed ⊢
      obtain ⟨b, l, rfl, heq⟩ := hr
      obtain ⟨⟨l', hl'⟩, -⟩ := hfed
      exact .inr (.inr (.inl ⟨hserver, n, ret, b, l ++ l', hmode, hcerts, rfl, rfl, hret, hl'.symm, heq⟩))
  | added fp w r shake rest n hwire hr hshake hrest hmode hserver =>
      rw [hwire] at hfed ⊢
      obtain ⟨b, l, rfl, heq⟩ := hr
      obtain ⟨⟨l', hl'⟩, -⟩ := hfed
      refine .inr (.inr (.inr ⟨n, sent (shake ++ rest), b, l ++ l', hmode, rfl, ?_, hl'.symm, heq, hserver⟩))
      show handshakes (shake ++ rest) = _
      rw [hshake]
      split
      · exact congrArg ((0 : ℤ) :: ·) (handshakes_of_plain hrest)
      · exact handshakes_of_plain hrest

/-- What a run of `judoConnect_` has to do with what comes in. -/
theorem ConnectRun.facts {client client' : JudoServer} {t_mode : Byte} {tr : List (Event Op Ans)}
    (h : ConnectRun client t_mode tr client') {incoming : List Byte} (hfed : Fed incoming tr) :
    (client' = client ∧ sent tr = [] ∧ handshakes tr = [] ∧ (¬ Ready tr ∨ incoming = []))
      ∨ (client' = client ∧ ∃ b l, sent tr = [0xFF] ∧ handshakes tr = [] ∧ incoming = b :: l ∧ ¬ SameCerts b t_mode)
      ∨ (client' = client ∧ ∃ (n : ssl_node) (out : ℤ) (b : Byte) (l : List Byte), n.mode = b ∧ n.certs = true
        ∧ sent tr = [b] ∧ handshakes tr = [out] ∧ out ≠ 0 ∧ incoming = b :: l ∧ SameCerts b t_mode)
      ∨ ∃ n l' b l, n.mode = b ∧ sent tr = b :: l' ∧ handshakes tr = (if n.certs then [0] else [])
        ∧ incoming = b :: l ∧ SameCerts b t_mode
        ∧ client' = { client with m_ssl_nodes := client.m_ssl_nodes.add ⟨n.fp, POLLIN, 0⟩ n } := by
  rw [← sent_wire, ← handshakes_wire]
  rw [← fed_wire] at hfed
  cases h with
  | unready hwire hready hclient => exact .inl ⟨hclient, by rw [hwire]; rfl, by rw [hwire]; rfl, .inl hready⟩
  | unanswered fp r hwire hr hclient =>
      rw [hwire] at hfed ⊢
      refine .inl ⟨hclient, rfl, rfl, .inr ?_⟩
      rcases r with _ | _ | ⟨b, l⟩
      · exact hfed.1
      · exact hfed.1
      -- a byte that has come counts
      · have hlen : ((b :: l).length : ℤ) ≤ 0 := hr
        rw [List.length_cons] at hlen
        omega
  | refused fp w b l hwire hbits hclient =>
      rw [hwire] at hfed ⊢
      obtain ⟨⟨l', hl'⟩, -⟩ := hfed
      exact .inr (.inl ⟨hclient, b, l ++ l', rfl, rfl, hl'.symm, hbits⟩)
  | failed fp w b l n ret hwire hbits hmode hcerts hret hclient =>
      rw [hwire] at hfed ⊢
      obtain ⟨⟨l', hl'⟩, -⟩ := hfed
      exact .inr (.inr (.inl ⟨hclient, n, ret, b, l ++ l', hmode, hcerts, rfl, rfl, hret, hl'.symm, hbits⟩))
  | added fp w b l shake rest n hwire hbits hshake hrest hmode hclient =>
      rw [hwire] at hfed ⊢
      obtain ⟨⟨l', hl'⟩, -⟩ := hfed
      refine .inr (.inr (.inr ⟨n, sent (shake ++ rest), b, l ++ l', hmode, rfl, ?_, hl'.symm, hbits, hclient⟩))
      show handshakes (shake ++ rest) = _
      rw [hshake]
      split
      · exact congrArg ((0 : ℤ) :: ·) (handshakes_of_plain hrest)
      · exact handshakes_of_plain hrest

/-- What the configuration calls can make of a server; its table may hold anything. -/
inductive Configured : JudoServer → Prop where
  | init (node : ssl_node) : Configured (.init_ node)
  | addr {server : JudoServer} (h : Configured server) (t_addr : sockaddr_in) :
      Configured { server with m_list_sock_addr := t_addr }
  | judoMakeServerSock_ {server server' : JudoServer} {tr : List (Event Op Ans)} {ret : ℤ} (h : Configured server)
      (hruns : Prog.Runs (judoMakeServerSock_ server) tr (server', ret)) : Configured server'
  | judoSetUpServerSockSSL {server server' : JudoServer} {t_cert t_private_key : Option String}
      {tr : List (Event Op Ans)} {ret : ℤ} (h : Configured server)
      (hruns : Prog.Runs (judoSetUpServerSockSSL server t_cert t_private_key) tr (server', ret)) : Configured server'
  | judoServerRequireCerts {server server' : JudoServer} {tr : List (Event Op Ans)} {ret : ℤ} (h : Configured server)
      (hruns : Prog.Runs (judoServerRequireCerts server) tr (server', ret)) : Configured server'
  | judoClientRequireCerts {server server' : JudoServer} {tr : List (Event Op Ans)} {ret : ℤ} (h : Configured server)
      (hruns : Prog.Runs (judoClientRequireCerts server) tr (server', ret)) : Configured server'
  | active {server : JudoServer} (h : Configured server) : Configured { server with m_active := true }
  | table {server : JudoServer} (h : Configured server) (m_ssl_nodes : DualDynamicArray pollfd ssl_node) :
      Configured { server with m_ssl_nodes := m_ssl_nodes }

/-- The two requirements do not touch the buffer factor. -/
theorem requireCerts_m_buffer_factor {server server' : JudoServer} {flag : BitVec 16} {done failed : String}
    {tr : List (Event Op Ans)} {ret : ℤ} (h : Prog.Runs (requireCerts server flag done failed) tr (server', ret)) :
    server'.m_buffer_factor = server.m_buffer_factor := by
  unfold requireCerts at h
  split at h
  · obtain ⟨-, tr, rfl, rfl, hret⟩ := h
    obtain ⟨rfl, -⟩ := Prod.mk.inj hret
    rfl
  · obtain ⟨-, tr, rfl, rfl, hret⟩ := h
    obtain ⟨rfl, -⟩ := Prod.mk.inj hret
    rfl

/-- No configuration call touches the buffer factor. -/
theorem Configured.m_buffer_factor {server : JudoServer} (h : Configured server) : server.m_buffer_factor = 10 := by
  -- no call assigns m_buffer_factor
  induction h with
  | init => rfl
  | addr _ _ ih => exact ih
  | active _ ih => exact ih
  | table _ _ ih => exact ih
  | judoMakeServerSock_ _ hruns ih =>
      unfold JudoEngine.judoMakeServerSock_ at hruns
      split at hruns
      · obtain ⟨-, tr, rfl, rfl, hret⟩ := hruns
        obtain ⟨rfl, -⟩ := Prod.mk.inj hret
        exact ih
      · obtain ⟨fd, tr, rfl, -, tr, rfl, -, tr, rfl, -, tr, rfl, -, tr, rfl, rfl, hret⟩ := hruns
        obtain ⟨rfl, -⟩ := Prod.mk.inj hret
        exact ih
  | judoSetUpServerSockSSL _ hruns ih =>
      obtain ⟨tr₁, tr₂, filled, rfl, -, hrest⟩ := Prog.runs_bind.mp hruns
      dsimp only at hrest
      split at hrest
      · obtain ⟨-, tr, rfl, rfl, hret⟩ := hrest
        obtain ⟨rfl, -⟩ := Prod.mk.inj hret
        exact ih
      · obtain ⟨-, tr, rfl, rfl, hret⟩ := hrest
        obtain ⟨rfl, -⟩ := Prod.mk.inj hret
        exact ih
  | judoServerRequireCerts _ hruns ih => exact (requireCerts_m_buffer_factor hruns).trans ih
  | judoClientRequireCerts _ hruns ih => exact (requireCerts_m_buffer_factor hruns).trans ih

/-- The client requests the certificate bits that the server requires. -/
def Matches (server : JudoServer) (t_mode : Byte) : Prop :=
  (t_mode &&& JUDO_CON_SERVER_CERTS ≠ 0 ↔ server.m_mode &&& JUDO_MODE_SERVER_CERTS_REQ ≠ 0)
    ∧ (t_mode &&& JUDO_CON_CLIENT_CERTS ≠ 0 ↔ server.m_mode &&& JUDO_MODE_CLIENT_CERTS_REQ ≠ 0)

instance (server : JudoServer) (t_mode : Byte) : Decidable (Matches server t_mode) :=
  inferInstanceAs (Decidable (_ ∧ _))

/-- The four mode bytes of a configured server. -/
theorem connectionMode_eq {server : JudoServer} (h : Configured server) :
    server.connectionMode
      = (if server.m_mode &&& JUDO_MODE_SERVER_CERTS_REQ ≠ 0 then
          if server.m_mode &&& JUDO_MODE_CLIENT_CERTS_REQ ≠ 0 then 0xCA else 0x4A
        else if server.m_mode &&& JUDO_MODE_CLIENT_CERTS_REQ ≠ 0 then 0x8A else 0x0A) := by
  unfold JudoServer.connectionMode
  rw [h.m_buffer_factor]
  dsimp only
  split <;> split <;> decide

/-- One bit, ... -/
theorem and_server_certs (t_mode : Byte) : t_mode &&& JUDO_CON_SERVER_CERTS = 0 ∨ t_mode &&& JUDO_CON_SERVER_CERTS = 0x40 := by
  revert t_mode
  decide

/-- ... and the other. -/
theorem and_client_certs (t_mode : Byte) : t_mode &&& JUDO_CON_CLIENT_CERTS = 0 ∨ t_mode &&& JUDO_CON_CLIENT_CERTS = 0x80 := by
  revert t_mode
  decide

/-- The client's two tests compare the bits requested with the bits required. -/
theorem sameCerts_iff {server : JudoServer} (h : Configured server) (t_mode : Byte) :
    SameCerts server.connectionMode t_mode ↔ Matches server t_mode := by
  unfold SameCerts Matches
  rw [connectionMode_eq h]
  rcases and_server_certs t_mode with hs | hs <;> rcases and_client_certs t_mode with hc | hc <;> rw [hs, hc] <;>
    split <;> split <;> simp_all <;> decide

/-- The server's test works unless client certificates are required: then its mode byte
is negative as a `char`. -/
theorem toInt_connectionMode {server : JudoServer} (h : Configured server) :
    server.connectionMode.toInt = server.connectionMode.toNat ↔ server.m_mode &&& JUDO_MODE_CLIENT_CERTS_REQ = 0 := by
  rw [connectionMode_eq h]
  split <;> split <;> simp_all

/-- The channel delivers every byte, in both directions. -/
structure Channel (trS trC : List (Event Op Ans)) : Prop where
  writesS : WritesAll trS
  writesC : WritesAll trC
  fedS : Fed (sent trC) trS
  fedC : Fed (sent trS) trC

/-- The handshake succeeds on both sides or on neither: it does where the two can agree
on one (`works`) and both begin it. -/
structure Handshakes (works : Prop) (trS trC : List (Event Op Ans)) : Prop where
  server : ∀ out ∈ handshakes trS, out = 0 ↔ works ∧ handshakes trC ≠ []
  client : ∀ out ∈ handshakes trC, out = 0 ↔ works ∧ handshakes trS ≠ []

/-- When both have begun it. -/
theorem Handshakes.both {works : Prop} {trS trC : List (Event Op Ans)} (h : Handshakes works trS trC) {outS outC : ℤ}
    (hS : handshakes trS = [outS]) (hC : handshakes trC = [outC]) : (outS = 0 ↔ works) ∧ (outC = 0 ↔ works) := by
  have hserver := h.server outS (by rw [hS]; exact List.mem_singleton_self _)
  have hclient := h.client outC (by rw [hC]; exact List.mem_singleton_self _)
  rw [hS] at hclient
  rw [hC] at hserver
  exact ⟨hserver.trans (and_iff_left (List.cons_ne_nil _ _)), hclient.trans (and_iff_left (List.cons_ne_nil _ _))⟩

/-- Both parties have added one row, with the same mode byte. -/
def BothAdd (rowsS rowsC : List (pollfd × ssl_node)) (server' client' : JudoServer) : Prop :=
  ∃ p n p' n', server'.m_ssl_nodes.Rep (rowsS ++ [(p, n)]) ∧ client'.m_ssl_nodes.Rep (rowsC ++ [(p', n')])
    ∧ n.mode = n'.mode

/-- Neither party has added a row. -/
def NeitherAdds (rowsS rowsC : List (pollfd × ssl_node)) (server' client' : JudoServer) : Prop :=
  server'.m_ssl_nodes.Rep rowsS ∧ client'.m_ssl_nodes.Rep rowsC

/-- Nothing stands in the way of the connection: the files can be used, the connection
is made, and the handshake, when certificates are requested, succeeds. -/
def Willing (t_mode : Byte) (works : Prop) (trS trC : List (Event Op Ans)) : Prop :=
  Ready trS ∧ Ready trC ∧ (t_mode &&& (JUDO_CON_SERVER_CERTS ||| JUDO_CON_CLIENT_CERTS) ≠ 0 → works)

/-- What the negotiation is for. -/
structure Negotiated (server : JudoServer) (t_mode : Byte) (works : Prop) (trS trC : List (Event Op Ans))
    (rowsS rowsC : List (pollfd × ssl_node)) (server' client' : JudoServer) : Prop where
  agree : BothAdd rowsS rowsC server' client' ∨ NeitherAdds rowsS rowsC server' client'
  add : Matches server t_mode → Willing t_mode works trS trC → BothAdd rowsS rowsC server' client'

/-- A table has one list of rows. -/
theorem not_bothAdd {rowsS rowsC : List (pollfd × ssl_node)} {server' client' : JudoServer}
    (hS : server'.m_ssl_nodes.Rep rowsS) : ¬ BothAdd rowsS rowsC server' client' := by
  rintro ⟨p, n, p', n', hrep, -⟩
  have hlen := hrep.size
  rw [hS.size, List.length_append, List.length_singleton] at hlen
  omega

/-- A node with the agreed bits has certificates exactly when the request has. -/
theorem certs_of_mode {n : ssl_node} {t_mode : Byte} (h : SameCerts n.mode t_mode) :
    n.certs = true ↔ t_mode &&& (JUDO_CON_SERVER_CERTS ||| JUDO_CON_CLIENT_CERTS) ≠ 0 := by
  have hor : ∀ m : Byte, m &&& (JUDO_CON_SERVER_CERTS ||| JUDO_CON_CLIENT_CERTS)
      = (m &&& JUDO_CON_SERVER_CERTS) ||| (m &&& JUDO_CON_CLIENT_CERTS) := fun m => BitVec.and_or_distrib_left
  unfold ssl_node.certs
  rw [decide_eq_true_iff, hor, hor, h.1, h.2]

/-- Neither adds a row, and none had to. -/
theorem negotiated_of_neither {server server' client' : JudoServer} {t_mode : Byte} {works : Prop}
    {trS trC : List (Event Op Ans)} {rowsS rowsC : List (pollfd × ssl_node)}
    (hneither : NeitherAdds rowsS rowsC server' client')
    (hblock : Matches server t_mode → ¬ Willing t_mode works trS trC) :
    Negotiated server t_mode works trS trC rowsS rowsC server' client'
      ↔ ¬ (server.m_mode &&& JUDO_MODE_CLIENT_CERTS_REQ ≠ 0 ∧ Matches server t_mode ∧ Willing t_mode works trS trC) :=
  iff_of_true ⟨.inr hneither, fun hm hw => absurd hw (hblock hm)⟩ fun ⟨_, hm, hw⟩ => hblock hm hw

/-- That depends on the mode alone. -/
theorem certs_eq {n n' : ssl_node} (h : n.mode = n'.mode) : n.certs = n'.certs := by
  unfold ssl_node.certs
  rw [h]

/-- The bit of the client is one of the two. -/
theorem clientCerts_ne_zero {t_mode : Byte} (h : t_mode &&& JUDO_CON_CLIENT_CERTS ≠ 0) :
    t_mode &&& (JUDO_CON_SERVER_CERTS ||| JUDO_CON_CLIENT_CERTS) ≠ 0 := by
  revert t_mode
  decide

/-- 0xFF is -1 as a `char`, and no mode byte. -/
theorem refusal_ne (mode : Byte) : (0xFF : Byte).toInt ≠ mode.toNat := by
  have hneg : (0xFF : Byte).toInt = -1 := by decide
  rw [hneg]
  omega

/-- **Negotiation.** A configured server and a client whose arguments pass its own check,
on a channel that delivers every byte: they agree on whether there is a connection
and on its mode, and have one when the bits requested are those required and nothing
else stands in the way, except exactly when the server requires client certificates
and they should have one. -/
theorem negotiated_iff {server client : JudoServer} (hconf : Configured server) {rowsS rowsC : List (pollfd × ssl_node)}
    (hS : server.m_ssl_nodes.Rep rowsS) (hC : client.m_ssl_nodes.Rep rowsC) {t_cert t_key : Option String} {t_mode : Byte}
    (hcheck : ¬ CertFilesMissing t_cert t_key t_mode) {trS trC : List (Event Op Ans)} {server' client' : JudoServer}
    {retS retC : ℤ} (hruns : Prog.Runs (judoAccept_ tlsHandshake server) trS (some (server', retS)))
    (hrunc : Prog.Runs (judoConnect_ tlsHandshake client t_cert t_key t_mode) trC (some (client', retC)))
    (hchan : Channel trS trC) {works : Prop} (hshake : Handshakes works trS trC) :
    Negotiated server t_mode works trS trC rowsS rowsC server' client'
      ↔ ¬ (server.m_mode &&& JUDO_MODE_CLIENT_CERTS_REQ ≠ 0 ∧ Matches server t_mode ∧ Willing t_mode works trS trC) := by
  have hsame := sameCerts_iff hconf t_mode
  have hsign := toInt_connectionMode hconf
  have hclient := (runs_judoConnect_ hcheck hrunc).facts hchan.fedC
  rcases (runs_judoAccept_ hruns).facts hchan.writesS hchan.fedS with
    ⟨rfl, hsentS, -, hready⟩ | ⟨rfl, hsentS, hhsS, hnot⟩
    | ⟨rfl, nS, outS, bS, lS, hmodeS, hcertsS, hsentS, hhsS, houtS, hincS, heqS⟩
    | ⟨nS, restS, bS, lS, hmodeS, hsentS, hhsS, hincS, heqS, rfl⟩
  · -- the server has not got as far as its first byte
    rw [hsentS] at hclient
    rcases hclient with ⟨rfl, -⟩ | ⟨rfl, -⟩ | ⟨rfl, -⟩ | ⟨_, _, _, _, -, -, -, hincC, -⟩
    · exact negotiated_of_neither ⟨hS, hC⟩ fun _ hw => hready hw.1
    · exact negotiated_of_neither ⟨hS, hC⟩ fun _ hw => hready hw.1
    · exact negotiated_of_neither ⟨hS, hC⟩ fun _ hw => hready hw.1
    · exact absurd hincC.symm (List.cons_ne_nil _ _)
  · -- the server does not take the answer
    rw [hsentS] at hclient
    rcases hclient with ⟨rfl, -, -, hready | hnil⟩ | ⟨rfl, bC, lC, -, -, hincC, hbits⟩
      | ⟨rfl, nC, outC, bC, lC, -, -, hsentC, -, -, hincC, hbits⟩
      | ⟨nC, restC, bC, lC, hmodeC, hsentC, hhsC, hincC, hbits, rfl⟩
    · exact negotiated_of_neither ⟨hS, hC⟩ fun _ hw => hready hw.2.1
    · exact absurd hnil (List.cons_ne_nil _ _)
    · obtain ⟨rfl, -⟩ := List.cons.inj hincC
      exact negotiated_of_neither ⟨hS, hC⟩ fun hm _ => hbits (hsame.mpr hm)
    · -- although it is the right one: its mode byte is negative as a `char`
      obtain ⟨rfl, -⟩ := List.cons.inj hincC
      have hreq : server'.m_mode &&& JUDO_MODE_CLIENT_CERTS_REQ ≠ 0 := mt hsign.mpr (hnot _ _ hsentC)
      by_cases hw : Willing t_mode works trS trC
      · refine iff_of_false (fun hneg => not_bothAdd hS (hneg.add (hsame.mp hbits) hw)) ?_
        exact not_not.mpr ⟨hreq, hsame.mp hbits, hw⟩
      · exact negotiated_of_neither ⟨hS, hC⟩ fun _ hw' => hw hw'
    · -- the client cannot have shaken hands alone
      obtain ⟨rfl, -⟩ := List.cons.inj hincC
      have hreq : server'.m_mode &&& JUDO_MODE_CLIENT_CERTS_REQ ≠ 0 := mt hsign.mpr (hnot _ _ hsentC)
      have hcerts : nC.certs = true := (certs_of_mode (hmodeC ▸ hbits)).mpr (clientCerts_ne_zero ((hsame.mp hbits).2.mpr hreq))
      rw [if_pos hcerts] at hhsC
      obtain ⟨-, hne⟩ := (hshake.client 0 (by rw [hhsC]; exact List.mem_singleton_self _)).mp rfl
      exact absurd hhsS hne
  · -- the handshake has failed
    rw [hsentS] at hclient
    rcases hclient with ⟨-, hsentC, -⟩ | ⟨-, bC, lC, hsentC, -⟩
      | ⟨rfl, nC, outC, bC, lC, hmodeC, hcertsC, -, hhsC, -, hincC, hbits⟩
      | ⟨nC, restC, bC, lC, hmodeC, hsentC, hhsC, hincC, hbits, -⟩
    · exact absurd (hsentC.symm.trans hincS).symm (List.cons_ne_nil _ _)
    · obtain ⟨rfl, -⟩ := List.cons.inj (hsentC.symm.trans hincS)
      exact absurd heqS (refusal_ne _)
    · obtain ⟨rfl, -⟩ := List.cons.inj hincC
      refine negotiated_of_neither ⟨hS, hC⟩ fun _ hw => houtS ?_
      have hworks := hw.2.2 ((certs_of_mode (hmodeC ▸ hbits)).mp hcertsC)
      exact (hshake.both hhsS hhsC).1.mpr hworks
    · -- on this side only
      obtain ⟨rfl, -⟩ := List.cons.inj hincC
      have hcertsC : nC.certs = true := (certs_eq (hmodeC.trans hmodeS.symm)).trans hcertsS
      rw [if_pos hcertsC] at hhsC
      obtain ⟨hserver, hclient⟩ := hshake.both hhsS hhsC
      exact absurd (hserver.mpr (hclient.mp rfl)) houtS
  · -- the server has added its row
    rw [hsentS] at hclient
    rcases hclient with ⟨-, hsentC, -⟩ | ⟨-, bC, lC, hsentC, -⟩
      | ⟨rfl, nC, outC, bC, lC, hmodeC, hcertsC, -, hhsC, houtC, hincC, hbits⟩
      | ⟨nC, restC, bC, lC, hmodeC, hsentC, -, hincC, hbits, rfl⟩
    · exact absurd (hsentC.symm.trans hincS).symm (List.cons_ne_nil _ _)
    · obtain ⟨rfl, -⟩ := List.cons.inj (hsentC.symm.trans hincS)
      exact absurd heqS (refusal_ne _)
    · -- on this side only
      obtain ⟨rfl, -⟩ := List.cons.inj hincC
      have hcertsS : nS.certs = true := (certs_eq (hmodeS.trans hmodeC.symm)).trans hcertsC
      rw [if_pos hcertsS] at hhsS
      obtain ⟨hserver, hclient⟩ := hshake.both hhsS hhsC
      exact absurd (hclient.mpr (hserver.mp rfl)) houtC
    · obtain ⟨rfl, -⟩ := List.cons.inj hincC
      obtain ⟨rfl, -⟩ := List.cons.inj (hsentC.symm.trans hincS)
      -- both have added their rows, and the server's byte is not negative
      have hadd : BothAdd rowsS rowsC { server with m_ssl_nodes := server.m_ssl_nodes.add ⟨nS.fp, POLLIN, 0⟩ nS }
          { client with m_ssl_nodes := client.m_ssl_nodes.add ⟨nC.fp, POLLIN, 0⟩ nC } :=
        ⟨_, nS, _, nC, (DualDynamicArray.add_spec hS _ nS).1, (DualDynamicArray.add_spec hC _ nC).1,
          hmodeS.trans hmodeC.symm⟩
      exact iff_of_true ⟨.inl hadd, fun _ _ => hadd⟩ fun ⟨hreq, _⟩ => hreq (hsign.mp heqS)

/-! ## One server, one client

The runs with fixed answers: one where the two agree, and the one that fails, where the server
reads its own mode byte as a negative number. -/

/-- A party's surroundings: what comes in, and how its handshakes end. -/
structure Party where
  reads : List (List Byte)
  shake : ℤ

/-- The surroundings answer in order, and write everything. -/
def Party.answer (e : Party) : (o : Op) → Ans o × Party
  | .read _ _ => (e.reads.head?, { e with reads := e.reads.tail })
  | .write _ _ data => ((data.length : ℤ), e)
  | .handshake _ => (e.shake, e)
  | .SSL_CTX_use_certificate_file _ _ | .SSL_CTX_use_PrivateKey_file _ _ => ((1 : ℤ), e)
  | _ => (default, e)

/-- A server with TLS. -/
def tlsServer (m_mode : BitVec 16) : JudoServer :=
  { JudoServer.init_ default with
    m_server_cert_file := some "cert.pem"
    m_server_private_key_file := some "key.pem"
    m_mode := m_mode }

/-- It accepts a client that answers with this byte. -/
def acceptOnce (m_mode : BitVec 16) (b : Byte) (shake : ℤ) : List (Event Op Ans) × Option (JudoServer × ℤ) × Party :=
  Prog.exec Party.answer (judoAccept_ tlsHandshake (tlsServer m_mode)) ⟨[[b]], shake⟩

/-- A client connects to a server that greets it with this byte. -/
def connectOnce (t_mode b : Byte) (shake : ℤ) : List (Event Op Ans) × Option (JudoServer × ℤ) × Party :=
  Prog.exec Party.answer (judoConnect_ tlsHandshake (.init_ default) (some "cert.pem") (some "key.pem") t_mode)
    ⟨[[b]], shake⟩

/-- Server certificates are required and asked for: both add a row. -/
theorem negotiated_server_certs :
    ∃ server' client',
      Prog.Runs (judoAccept_ tlsHandshake (tlsServer 0x0006)) (acceptOnce 0x0006 0x4A 0).1 (some (server', 0))
        ∧ Prog.Runs (judoConnect_ tlsHandshake (.init_ default) (some "cert.pem") (some "key.pem") 0x40)
            (connectOnce 0x40 0x4A 0).1 (some (client', 0))
        ∧ BothAdd [] [] server' client' := by
  have hconf : Configured (tlsServer 0x0006) :=
    .judoServerRequireCerts
      (.judoSetUpServerSockSSL (.init default)
        (Prog.runs_exec (h := Party.answer) (judoSetUpServerSockSSL _ (some "cert.pem") (some "key.pem")) ⟨[], 0⟩))
      (Prog.runs_exec (h := Party.answer) _ ⟨[], 0⟩)
  have hS : handshakes (acceptOnce 0x0006 0x4A 0).1 = [0] := by decide +kernel
  have hC : handshakes (connectOnce 0x40 0x4A 0).1 = [0] := by decide +kernel
  have hchan : Channel (acceptOnce 0x0006 0x4A 0).1 (connectOnce 0x40 0x4A 0).1 :=
    { writesS := And.intro rfl (And.intro rfl (And.intro rfl (And.intro rfl (And.intro rfl trivial))))
      writesC := And.intro rfl (And.intro rfl trivial)
      fedS := And.intro (by decide +kernel) trivial
      fedC := And.intro (by decide +kernel) (And.intro (by decide +kernel) trivial) }
  have hshake : Handshakes True (acceptOnce 0x0006 0x4A 0).1 (connectOnce 0x40 0x4A 0).1 := by
    constructor
    · rw [hS, hC]
      simp
    · rw [hS, hC]
      simp
  have hruns : Prog.Runs (judoAccept_ tlsHandshake (tlsServer 0x0006)) (acceptOnce 0x0006 0x4A 0).1 (some (_, 0)) :=
    Prog.runs_exec (h := Party.answer) _ ⟨[[0x4A]], 0⟩
  have hrunc : Prog.Runs (judoConnect_ tlsHandshake (.init_ default) (some "cert.pem") (some "key.pem") 0x40)
      (connectOnce 0x40 0x4A 0).1 (some (_, 0)) :=
    Prog.runs_exec (h := Party.answer) _ ⟨[[0x4A]], 0⟩
  have hneg := negotiated_iff hconf DualDynamicArray.rep_new DualDynamicArray.rep_new (by decide) hruns hrunc hchan hshake
  refine ⟨_, _, hruns, hrunc, (hneg.mpr fun h => h.1 (by decide)).add (by decide) ⟨?_, ?_, fun _ => trivial⟩⟩
  · exact And.intro Int.one_pos (And.intro Int.one_pos trivial)
  · exact And.intro Int.one_pos (And.intro Int.one_pos (And.intro le_rfl trivial))

/-- A server that requires client certificates refuses a client that has them: the byte
that comes back is its own 0x8A, but it reads it as -118. -/
theorem client_certs_refused :
    ∃ server' client',
      Configured (tlsServer 0x000A) ∧ ¬ CertFilesMissing (some "cert.pem") (some "key.pem") 0x80
        ∧ Prog.Runs (judoAccept_ tlsHandshake (tlsServer 0x000A)) (acceptOnce 0x000A 0x8A 0).1
            (some (server', JUDO_FAILURE))
        ∧ Prog.Runs (judoConnect_ tlsHandshake (.init_ default) (some "cert.pem") (some "key.pem") 0x80)
            (connectOnce 0x80 0x8A (-1)).1 (some (client', JUDO_SSL_HANDSHAKE_FAILURE))
        ∧ Channel (acceptOnce 0x000A 0x8A 0).1 (connectOnce 0x80 0x8A (-1)).1
        ∧ Handshakes True (acceptOnce 0x000A 0x8A 0).1 (connectOnce 0x80 0x8A (-1)).1
        ∧ ¬ Negotiated (tlsServer 0x000A) 0x80 True (acceptOnce 0x000A 0x8A 0).1 (connectOnce 0x80 0x8A (-1)).1 [] []
            server' client' := by
  have hS : handshakes (acceptOnce 0x000A 0x8A 0).1 = [] := by decide +kernel
  have hC : handshakes (connectOnce 0x80 0x8A (-1)).1 = [-1] := by decide +kernel
  refine ⟨tlsServer 0x000A, .init_ default, ?_, by decide, ?_, ?_, ?_, ?_, fun hneg => ?_⟩
  -- the server is one that its calls can make
  · exact .judoClientRequireCerts
      (.judoSetUpServerSockSSL (.init default)
        (Prog.runs_exec (h := Party.answer) (judoSetUpServerSockSSL _ (some "cert.pem") (some "key.pem")) ⟨[], 0⟩))
      (Prog.runs_exec (h := Party.answer) _ ⟨[], 0⟩)
  · exact Prog.runs_exec (h := Party.answer) _ ⟨[[0x8A]], 0⟩
  · exact Prog.runs_exec (h := Party.answer) _ ⟨[[0x8A]], -1⟩
  · exact
      { writesS := And.intro rfl trivial
        writesC := And.intro rfl trivial
        fedS := And.intro (by decide +kernel) trivial
        fedC := And.intro (by decide +kernel) trivial }
  · constructor
    · rw [hS]
      exact fun out hout => absurd hout List.not_mem_nil
    · rw [hS, hC]
      simp
  · refine not_bothAdd DualDynamicArray.rep_new (hneg.add (by decide) ⟨?_, ?_, fun _ => trivial⟩)
    · exact And.intro Int.one_pos (And.intro Int.one_pos trivial)
    · exact And.intro Int.one_pos (And.intro Int.one_pos (And.intro le_rfl trivial))

end JudoEngine
