/-
What a connection with certificate bits lets out.

`judoSend_` and `judoHandshake_` only write what `BIO_read` has just given them, and
`judoAccept_` and `judoConnect_` write one byte of their own, the mode byte, before. So
with certificate bits nothing that a message is made of, and nothing that a buffer
happened to hold, is ever written to the socket; this is about every record, also one of
a call that has not returned, and whatever OpenSSL and the socket answer.
-/
import JudoEngine.JudoServer.NodeLife
import JudoEngine.JudoServer.Wire
import JudoEngine.Lib.Obeys
import Mathlib.Data.List.Induction

set_option autoImplicit false

open Words

namespace JudoEngine

/-! ## The protocol

What may be written is what the last operation has taken out of the BIO that OpenSSL writes
to. The protocol keeps just enough of the past to say so. -/

/-- The writes to a socket. -/
def writes : Op → Bool
  | .write _ _ _ => true
  | _ => false

/-- The write BIO that OpenSSL has been given, what was last taken out of a BIO if that was
the last operation, and whether the mode byte can still be sent. -/
structure Sealing where
  wbio : Option ℕ
  given : Option (ℕ × List Byte)
  greeting : Bool

/-- Only the mode byte, as the first write, and what has just come out of the write BIO may
be written. -/
def sealing : Protocol Op Ans Sealing where
  allows s
    | .write _ _ d => (s.greeting = true ∧ d.length = 1) ∨ ∃ bio, s.wbio = some bio ∧ s.given = some (bio, d)
    | _ => True
  answers _ := True
  after s
    | ⟨.BIO_read bio _, r⟩ => { s with given := some (bio, r.getD []) }
    | ⟨.SSL_set_bio _ _ wbio, _⟩ => { s with wbio := some wbio, given := none }
    | ⟨.write _ _ _, _⟩ => { s with given := none, greeting := false }
    | _ => { s with given := none }

/-- A program that does not write in plain. -/
abbrev Seals {α : Type} (F : Sealing → α → Prop) (p : Sys α) (s : Sealing) : Prop := Prog.Obeys sealing F p s

/-- What a record says of the state after it. -/
theorem afters_sealing {s : Sealing} (tr : List (Event Op Ans)) :
    (∀ bio, (sealing.afters s tr).wbio = some bio →
      s.wbio = some bio ∨ ∃ ssl rbio, (⟨.SSL_set_bio ssl rbio bio, ()⟩ : Event Op Ans) ∈ tr)
    ∧ (∀ bio d, (sealing.afters s tr).given = some (bio, d) → s.given = some (bio, d) ∧ tr = [] ∨
        ∃ tr' size r, tr = tr' ++ [⟨.BIO_read bio size, r⟩] ∧ d = r.getD [])
    ∧ ((sealing.afters s tr).greeting = true → s.greeting = true ∧ ∀ ev ∈ tr, writes ev.op = false) := by
  -- from the last operation back: each state is that of one operation of the record
  induction tr using List.reverseRecOn with
  | nil => exact ⟨fun _ h => .inl h, fun _ _ h => .inl ⟨h, rfl⟩, fun h => ⟨h, fun _ hev => absurd hev List.not_mem_nil⟩⟩
  | append_singleton tr ev ih =>
      rw [Protocol.afters_append]
      obtain ⟨hwbio, -, hgreeting⟩ := ih
      have hold : ∀ bio, (sealing.afters s tr).wbio = some bio → s.wbio = some bio ∨
          ∃ ssl rbio, (⟨.SSL_set_bio ssl rbio bio, ()⟩ : Event Op Ans) ∈ tr ++ [ev] := by
        intro bio h
        refine (hwbio bio h).imp_right ?_
        rintro ⟨ssl, rbio, hmem⟩
        exact ⟨ssl, rbio, List.mem_append_left _ hmem⟩
      have hquiet : writes ev.op = false → (sealing.afters s tr).greeting = true →
          s.greeting = true ∧ ∀ ev' ∈ tr ++ [ev], writes ev'.op = false := by
        intro hev h
        refine ⟨(hgreeting h).1, fun ev' hev' => ?_⟩
        rcases List.mem_append.mp hev' with hev' | hev'
        · exact (hgreeting h).2 ev' hev'
        · exact List.mem_singleton.mp hev' ▸ hev
      obtain ⟨o, x⟩ := ev
      cases o with
      | BIO_read bio size =>
          refine ⟨hold, fun bio' d h => ?_, hquiet rfl⟩
          obtain ⟨rfl, rfl⟩ := Prod.mk.inj (Option.some.inj h)
          exact .inr ⟨tr, size, x, rfl, rfl⟩
      | SSL_set_bio ssl rbio wbio =>
          refine ⟨fun bio h => .inr ⟨ssl, rbio, ?_⟩, fun _ _ h => absurd h.symm (Option.some_ne_none _), hquiet rfl⟩
          rw [← Option.some.inj h]
          exact List.mem_append_right _ List.mem_cons_self
      | write fd n d => exact ⟨hold, fun _ _ h => absurd h.symm (Option.some_ne_none _), fun h => absurd h Bool.false_ne_true⟩
      | _ => exact ⟨hold, fun _ _ h => absurd h.symm (Option.some_ne_none _), hquiet rfl⟩

/-- What every write of the record is of. -/
def SealedOut (wbio : Option ℕ) (greeting : Bool) (tr : List (Event Op Ans)) : Prop :=
  ∀ (before after : List (Event Op Ans)) (fd n : ℤ) (d : List Byte) (w : ℤ), tr = before ++ ⟨.write fd n d, w⟩ :: after →
    (greeting = true ∧ d.length = 1 ∧ ∀ ev ∈ before, writes ev.op = false)
    ∨ ∃ before' bio size r, before = before' ++ [⟨.BIO_read bio size, r⟩] ∧ d = r.getD []
        ∧ (wbio = some bio ∨ ∃ ssl rbio, (⟨.SSL_set_bio ssl rbio bio, ()⟩ : Event Op Ans) ∈ before)

/-- So a program that obeys lets out nothing else, however far it has got. -/
theorem sealedOut_of_seals {α : Type} {F : Sealing → α → Prop} {p q : Sys α} {wbio : Option ℕ} {greeting : Bool}
    {tr : List (Event Op Ans)} (hp : Seals F p ⟨wbio, none, greeting⟩) (hleads : Prog.Leads p tr q) :
    SealedOut wbio greeting tr := by
  intro before after fd n d w htr
  have hfollows := (hp.leads hleads fun _ _ => trivial).1
  rw [htr] at hfollows
  obtain ⟨hwbio, hgiven, hgreeting⟩ := afters_sealing (s := ⟨wbio, none, greeting⟩) before
  rcases hfollows.split with ⟨hfirst, hd⟩ | ⟨bio, hbio, hd⟩
  · exact .inl ⟨(hgreeting hfirst).1, hd, (hgreeting hfirst).2⟩
  · rcases hgiven bio d hd with ⟨hnone, -⟩ | ⟨before', size, r, hlast, hr⟩
    · exact absurd hnone.symm (Option.some_ne_none _)
    · exact .inr ⟨before', bio, size, r, hlast, hr, hwbio bio hbio⟩

/-! ## The functions

A function obeys when every write in it comes right behind its BIO_read. For functions that do
not write, this is a matter of which operations they have. -/

/-- Neither writes nor gives OpenSSL another BIO. -/
def quiet : Op → Bool
  | .write _ _ _ | .SSL_set_bio _ _ _ => false
  | _ => true

/-- A program of such operations obeys. -/
theorem seals_quiet {α : Type} {p : Sys α} {wbio : Option ℕ} {greeting : Bool} {s : Sealing}
    (hp : Prog.Only (fun o => quiet o = true) p) (hs : s.wbio = wbio ∧ s.greeting = greeting) :
    Seals (fun s' _ => s'.wbio = wbio ∧ s'.greeting = greeting) p s := by
  refine Prog.Obeys.of_only (I := fun (s' : Sealing) => s'.wbio = wbio ∧ s'.greeting = greeting) (fun s o ho hs => ?_) hp hs
  cases o with
  | write fd n d => exact absurd ho Bool.false_ne_true
  | SSL_set_bio ssl rbio wbio => exact absurd ho Bool.false_ne_true
  | _ => exact ⟨trivial, fun x _ => hs⟩

theorem quiet_useFile {use : String → Sys ℤ} (huse : ∀ file, Prog.Only (fun o => quiet o = true) (use file)) (failure : ℤ)
    (file : Option String) : Prog.Only (fun o => quiet o = true) (useFile use failure file) := by
  cases file with
  | none => trivial
  | some file =>
      unfold useFile
      refine .bind (huse file) fun ret => ?_
      split
      · exact .step rfl fun _ => trivial
      · trivial

theorem seals_dstr_ssl_node (node : ssl_node) (s : Sealing) : Seals (fun _ _ => True) (dstr_ssl_node node) s :=
  .step trivial fun _ _ => .step trivial fun _ _ => .step trivial fun _ _ => trivial

/-- A node that could be filled is one whose write BIO OpenSSL has. -/
def Filled (s : Sealing) (filled : ssl_node × ℤ) : Prop :=
  s.greeting = true ∧ (filled.2 = JUDO_SUCCESS → s.wbio = some filled.1.write_bio)

/-- The functions that fill in a node end with one that can be written to, or fail. -/
theorem seals_judoFillGeneralSSLFields_ (t_ssl_node : ssl_node) (t_cert t_key : Option String) (server_method : Bool)
    {s : Sealing} (hs : s.greeting = true) :
    Seals Filled (judoFillGeneralSSLFields_ t_ssl_node t_cert t_key server_method) s := by
  unfold judoFillGeneralSSLFields_
  refine .step trivial fun ctx _ => ?_
  have hcert : ∀ file, Prog.Only (fun o => quiet o = true) (sys (.SSL_CTX_use_certificate_file ctx file)) :=
    fun _ => ⟨rfl, fun _ => trivial⟩
  have hkey : ∀ file, Prog.Only (fun o => quiet o = true) (sys (.SSL_CTX_use_PrivateKey_file ctx file)) :=
    fun _ => ⟨rfl, fun _ => trivial⟩
  refine Prog.Obeys.bind (seals_quiet (quiet_useFile hcert _ t_cert) ⟨rfl, hs⟩) fun s₁ ret h₁ => ?_
  split
  · next hret => exact ⟨h₁.2, fun h => absurd h hret⟩
  · refine Prog.Obeys.bind (seals_quiet (quiet_useFile hkey _ t_key) ⟨rfl, h₁.2⟩) fun s₂ ret h₂ => ?_
    split
    · next hret => exact ⟨h₂.2, fun h => absurd h hret⟩
    · refine .step trivial fun _ _ => .step trivial fun _ _ => .step trivial fun _ _ => .step trivial fun _ _ => ?_
      exact ⟨h₂.2, fun _ => rfl⟩

theorem seals_judoFillServerSSLFields_ (server : JudoServer) (t_node : ssl_node) {s : Sealing} (hs : s.greeting = true) :
    Seals Filled (judoFillServerSSLFields_ server t_node) s := by
  unfold judoFillServerSSLFields_
  refine Prog.Obeys.bind (seals_judoFillGeneralSSLFields_ _ _ _ _ hs) fun s filled h => ?_
  split
  · exact h
  · next hfilled => exact .step trivial fun _ _ => ⟨h.1, fun _ => h.2 (not_not.mp hfilled)⟩

theorem seals_judoFillClientSSLFields_ (t_node : ssl_node) (t_cert t_key : Option String) {s : Sealing}
    (hs : s.greeting = true) : Seals Filled (judoFillClientSSLFields_ t_node t_cert t_key) s := by
  unfold judoFillClientSSLFields_
  exact Prog.Obeys.bind (seals_judoFillGeneralSSLFields_ _ _ _ _ hs) fun s filled h => .step trivial fun _ _ => h

/-- `judoSend_` with certificate bits. -/
theorem seals_judoSend_ {t_node : ssl_node} (hcerts : t_node.certs = true) (t_buffer : Buffer) (t_size : ℤ) {s : Sealing}
    (hs : s.wbio = some t_node.write_bio) : Seals (fun _ _ => True) (judoSend_ t_node t_buffer t_size) s := by
  have hloop : ∀ (buffer_size packets : ℤ) (n : ℕ) (i index : ℤ) (buffer : Buffer) (s : Sealing),
      s.wbio = some t_node.write_bio →
        Seals (fun _ _ => True) (judoSend_.loop t_node t_buffer t_size buffer_size packets n i index buffer) s := by
    intro buffer_size packets n
    induction n with
    | zero => exact fun _ _ _ _ _ => trivial
    | succ n ih =>
        intro i index buffer s hs
        unfold judoSend_.loop
        dsimp only
        rw [if_pos hcerts]
        refine .step trivial fun _ _ => .step trivial fun r _ => .step (.inr ⟨_, hs, ?_⟩) fun _ _ => ih _ _ _ _ hs
        rw [bytes_fill]
        rfl
  unfold judoSend_
  refine .step trivial fun _ _ => .step trivial fun buffer _ => ?_
  refine Prog.Obeys.bind (hloop _ _ _ _ _ _ _ hs) fun _ _ _ => ?_
  exact .step trivial fun _ _ => .step trivial fun _ _ => trivial

/-- The handshake. -/
theorem seals_judoHandshake_ (t_node : ssl_node) (size : ℤ) (fuel : ℕ) : ∀ {s : Sealing}, s.wbio = some t_node.write_bio →
    Seals (fun s' _ => s'.wbio = some t_node.write_bio) (judoHandshake_ t_node size fuel) s := by
  induction fuel with
  | zero => exact fun hs => hs
  | succ fuel ih =>
      intro s hs
      unfold judoHandshake_
      refine .step trivial fun finished _ => ?_
      split
      · exact .step trivial fun _ _ => hs
      · refine .step trivial fun _ _ => .step trivial fun w _ => ?_
        split
        · exact .step (.inr ⟨_, hs, rfl⟩) fun _ _ => ih hs
        · refine .step trivial fun r _ => ?_
          split
          · exact .step trivial fun _ _ => ih hs
          · split
            · exact hs
            · exact ih hs

/-- `judoAccept_` of a server that requires a certificate. -/
theorem seals_judoAccept_ {server : JudoServer} (h : Configured server) (fuel : ℕ)
    (hrequires : ∃ flag ∈ certFlags, server.m_mode &&& flag ≠ 0) :
    Seals (fun _ _ => True) (judoAccept_ (judoHandshake_ · · fuel) server) ⟨none, none, true⟩ := by
  have hgreet : ∀ (n : ssl_node), n.certs = true → ∀ (buffer : ℕ) {s : Sealing}, s.wbio = some n.write_bio →
      Seals (fun _ _ => True) (judoAccept_.greet server n buffer) s := by
    intro n hn buffer s hs
    unfold judoAccept_.greet
    refine .step trivial fun _ _ => .step trivial fun buffer _ => .step trivial fun _ _ => ?_
    exact Prog.Obeys.bind (seals_judoSend_ hn _ _ hs) fun _ _ _ => .step trivial fun _ _ => trivial
  have hmode : ∀ n : ssl_node, n.mode = server.connectionMode → n.certs = true := by
    intro n hn
    obtain ⟨flag, hflag, hne⟩ := hrequires
    rw [ssl_node.certs, decide_eq_true_iff, hn, BitVec.and_or_distrib_left]
    intro hzero
    obtain ⟨hserver, hclient⟩ := BitVec.or_eq_zero_iff.mp hzero
    rcases mem_certFlags.mp hflag with rfl | rfl
    · exact (matches_connectionMode h).1.mpr hne hserver
    · exact (matches_connectionMode h).2.mpr hne hclient
  have hssl : server.m_mode &&& JUDO_MODE_SSL_ENABLED ≠ 0 := by
    obtain ⟨flag, hflag, hne⟩ := hrequires
    exact h.together flag hflag hne
  unfold judoAccept_
  refine .step trivial fun node _ => ?_
  unfold judoAccept_.fill
  rw [if_pos hssl]
  refine Prog.Obeys.bind (seals_judoFillServerSSLFields_ _ _ rfl) fun s filled hfilled => ?_
  split
  · exact .step trivial fun _ _ => trivial
  next hret =>
  have hs := hfilled.2 (not_not.mp hret)
  unfold judoAccept_.negotiate
  refine .step trivial fun buffer _ => .step trivial fun fp _ => .step trivial fun _ _ => ?_
  -- the mode byte
  refine .step (.inl ⟨hfilled.1, Buffer.length_bytes _ _⟩) fun w _ => ?_
  split
  · exact .step trivial fun _ _ => Prog.Obeys.bind (seals_dstr_ssl_node ..) fun _ _ _ => trivial
  · refine .step trivial fun resp _ => .step trivial fun _ _ => ?_
    split
    · rw [if_pos (hmode _ rfl)]
      refine Prog.Obeys.bind (seals_judoHandshake_ _ _ _ hs) fun s ret hs => ?_
      cases ret with
      | none => trivial
      | some ret =>
          unfold judoAccept_.shaken
          dsimp only
          split
          · refine Prog.Obeys.step trivial fun _ _ => Prog.Obeys.bind (seals_dstr_ssl_node ..) fun _ _ _ => ?_
            exact Prog.Obeys.step trivial fun _ _ => .step trivial fun _ _ => trivial
          · refine hgreet _ ?_ _ hs
            exact hmode _ rfl
    · exact .step trivial fun _ _ => Prog.Obeys.bind (seals_dstr_ssl_node ..) fun _ _ _ => trivial

/-- `judoConnect_` that is asked for a certificate. -/
theorem seals_judoConnect_ (client : JudoServer) (fuel : ℕ) (t_cert t_key : Option String) {t_mode : Byte}
    (hcerts : t_mode &&& (JUDO_CON_SERVER_CERTS ||| JUDO_CON_CLIENT_CERTS) ≠ 0) :
    Seals (fun _ _ => True) (judoConnect_ (judoHandshake_ · · fuel) client t_cert t_key t_mode) ⟨none, none, true⟩ := by
  have hrefuse : ∀ (n : ssl_node) (buffer : ℕ) (output : ℤ) (s : Sealing), s.greeting = true →
      Seals (fun _ _ => True) (judoConnect_.refuse client n buffer output) s := by
    intro n buffer output s hs
    unfold judoConnect_.refuse
    refine .step (.inl ⟨hs, rfl⟩) fun _ _ => .step trivial fun _ _ => .step trivial fun _ _ => ?_
    exact Prog.Obeys.bind (seals_dstr_ssl_node ..) fun _ _ _ => trivial
  have hhello : ∀ (n : ssl_node), n.certs = true → ∀ (buffer : ℕ × Buffer) {s : Sealing}, s.wbio = some n.write_bio →
      Seals (fun _ _ => True) (judoConnect_.hello client n buffer) s := by
    intro n hn buffer s hs
    unfold judoConnect_.hello
    exact Prog.Obeys.bind (seals_judoSend_ hn _ _ hs) fun _ _ _ => .step trivial fun _ _ => trivial
  have hjoin : ∀ (n : ssl_node), n.certs = true → ∀ (buffer : ℕ) {s : Sealing}, s.wbio = some n.write_bio →
      Seals (fun _ _ => True) (judoConnect_.join (judoHandshake_ · · fuel) client n buffer) s := by
    intro n hn buffer s hs
    unfold judoConnect_.join
    generalize shiftOne (0x3F &&& n.mode) = size
    dsimp only
    refine Prog.Obeys.step trivial fun _ _ => ?_
    split
    · trivial
    · refine Prog.Obeys.step trivial fun buffer _ => ?_
      refine Prog.Obeys.bind (seals_judoHandshake_ _ _ _ hs) fun s ret hs => ?_
      cases ret with
      | none => trivial
      | some ret =>
          unfold judoConnect_.shaken
          dsimp only
          split
          · refine Prog.Obeys.step trivial fun _ _ => Prog.Obeys.bind (seals_dstr_ssl_node ..) fun _ _ _ => ?_
            exact Prog.Obeys.step trivial fun _ _ => .step trivial fun _ _ => trivial
          · refine Prog.Obeys.step trivial fun _ _ => Prog.Obeys.step trivial fun _ _ => Prog.Obeys.step trivial fun _ _ => ?_
            exact hhello _ hn _ hs
  unfold judoConnect_
  split
  · trivial
  refine .step trivial fun node _ => ?_
  unfold judoConnect_.fill
  rw [if_pos (by rwa [BitVec.or_comm])]
  refine Prog.Obeys.bind (seals_judoFillClientSSLFields_ _ _ _ rfl) fun s filled hfilled => ?_
  split
  · trivial
  next hret =>
  have hs := hfilled.2 (not_not.mp hret)
  refine .step trivial fun _ _ => ?_
  refine Prog.Obeys.bind (H := fun s _ => s.greeting = true ∧ s.wbio = some filled.1.write_bio) ?_ fun s connected hs => ?_
  · unfold judoSocketConnect_
    refine .step trivial fun fp _ => .step trivial fun _ _ => .step trivial fun ret _ => ?_
    split
    · exact .step trivial fun _ _ => ⟨hfilled.1, hs⟩
    · exact ⟨hfilled.1, hs⟩
  dsimp only
  split
  · exact Prog.Obeys.bind (seals_dstr_ssl_node ..) fun _ _ _ => trivial
  unfold judoConnect_.negotiate
  refine .step trivial fun buffer _ => .step trivial fun r _ => ?_
  split
  · dsimp only
    split
    · exact hrefuse _ _ _ _ hs.1
    · next hserver =>
        split
        · exact hrefuse _ _ _ _ hs.1
        · next hclient =>
            -- the answer is the mode byte, and then the bits are those that were asked for
            refine .step (.inl ⟨hs.1, rfl⟩) fun _ _ => .step trivial fun _ _ => ?_
            refine hjoin _ ?_ _ hs.2
            exact (certs_of_mode ⟨not_not.mp hserver, not_not.mp hclient⟩).mpr hcerts
  · refine .step trivial fun _ _ => Prog.Obeys.bind (seals_dstr_ssl_node ..) fun _ _ _ => ?_
    exact Prog.Obeys.step trivial fun _ _ => .step trivial fun _ _ => trivial

/-! ## Whole lives

Nothing about the life is used but that the server is configured, by which a server that
requires certificates has TLS. -/

variable {t_addr : Option sockaddr_in} {log : List Called} {server : JudoServer}

/-- **Sealed.** Whatever has happened to a server before, and however much of the call has
been done: a server that requires certificates, and one that connects with certificate
bits, only sends its mode byte in plain, and `judoSend_` on such a connection nothing at
all. -/
theorem sealed_of_life (h : Life (fun _ _ => True) t_addr log server) :
    ((∃ flag ∈ certFlags, server.m_mode &&& flag ≠ 0) → ∀ fuel tr q,
        Prog.Leads (judoAccept_ (judoHandshake_ · · fuel) server) tr q → SealedOut none true tr)
      ∧ (∀ (t_cert t_key : Option String) (t_mode : Byte), t_mode &&& (JUDO_CON_SERVER_CERTS ||| JUDO_CON_CLIENT_CERTS) ≠ 0 →
        ∀ fuel tr q, Prog.Leads (judoConnect_ (judoHandshake_ · · fuel) server t_cert t_key t_mode) tr q → SealedOut none true tr)
      ∧ ∀ t_node : ssl_node, t_node.certs = true → ∀ t_buffer t_size tr q, Prog.Leads (judoSend_ t_node t_buffer t_size) tr q →
        SealedOut (some t_node.write_bio) false tr := by
  refine ⟨fun hrequires fuel tr q hleads => ?_, fun t_cert t_key t_mode hbits fuel tr q hleads => ?_,
    fun t_node hcerts t_buffer t_size tr q hleads => ?_⟩
  · exact sealedOut_of_seals (seals_judoAccept_ h.configured fuel hrequires) hleads
  · exact sealedOut_of_seals (seals_judoConnect_ server fuel t_cert t_key hbits) hleads
  · exact sealedOut_of_seals (seals_judoSend_ hcerts t_buffer t_size rfl) hleads

/-- A peer that agrees to the server's certificates, and a handshake that has just begun. -/
def helloAnswer : Unit → (o : Op) → Ans o × Unit
  | _, .SSL_is_init_finished _ => (false, ())
  | _, .BIO_read _ _ => (some [0x16, 0x03, 0x03], ())
  | s, o => peerAnswer 0x4A s o

/-- A server that requires its certificates, in the middle of an accept: behind the mode byte
comes what OpenSSL has made. -/
theorem sealed_of_life_certs :
    ∃ log server, Life (fun _ _ => True) none log server ∧ (∃ flag ∈ certFlags, server.m_mode &&& flag ≠ 0)
      ∧ ∃ tr q, Prog.Leads (judoAccept_ (judoHandshake_ · · 1) server) tr q ∧ sent tr = [0x4A, 0x16, 0x03, 0x03]
        ∧ SealedOut none true tr := by
  have hnew : Life (fun _ _ => True) none [] (.init_ default) := .new (Prog.runs_exec (h := peerAnswer 0) JudoServer.init ())
  have hsetup : Makes (.init_ default) (.judoSetUpServerSockSSL none none) _ { JudoServer.init_ default with m_mode := 0x0002 } 0 :=
    .judoSetUpServerSockSSL (Prog.runs_exec (h := peerAnswer 0) _ ())
  have hrequire : Makes { JudoServer.init_ default with m_mode := 0x0002 } .judoServerRequireCerts _
      { JudoServer.init_ default with m_mode := 0x0006 } 0 := .judoServerRequireCerts (Prog.runs_exec (h := peerAnswer 0) _ ())
  have hlife := (hnew.call trivial hsetup).call trivial hrequire
  have hflag : ∃ flag ∈ certFlags, (0x0006 : BitVec 16) &&& flag ≠ 0 := ⟨JUDO_MODE_SERVER_CERTS_REQ, List.mem_cons_self, by decide⟩
  have haccept := Prog.runs_exec (h := helloAnswer) (judoAccept_ (judoHandshake_ · · 1) { JudoServer.init_ default with m_mode := 0x0006 }) ()
  exact ⟨_, _, hlife, hflag, _, _, haccept.leads, by decide +kernel, (sealed_of_life hlife).1 hflag 1 _ _ haccept.leads⟩

end JudoEngine
