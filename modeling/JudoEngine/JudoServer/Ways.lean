/-
The ways through `judoAccept_` and `judoConnect_`.

Each has about ten ways out, and several modules ask different things of all of them:
which descriptors are open by then, what the other end has seen, what has been freed. So
the two functions are followed once, here, and each way is written down with its whole
record of operations. The handshake is any program; what it did is a part of the record.
-/
import JudoEngine.JudoServer.Connection

set_option autoImplicit false

open Words

namespace JudoEngine

/-! ## Accepting

Four records behind the mode byte, and one when it could not be written. They are lists, not
descriptions: what is done to a descriptor, a node or a buffer on a way out can be read off
them, in the order of the source. -/

section Accept

variable (shake : ssl_node → ℤ → Sys (Option ℤ)) (server : JudoServer) (new_node : ssl_node)

/-- What `judoAccept_` has done with the node when it tests the answer. -/
def judoAccept_.asked (buffer : ℕ × Buffer) (fp w : ℤ) (r : Option (List Byte)) : List (Event Op Ans) :=
  [⟨.new_char server.m_buffer_size, buffer⟩, ⟨.accept server.m_server_list_sock, fp⟩, ⟨.setsockopt fp, ()⟩,
    ⟨.write fp 1 ((buffer.2.set 0 new_node.mode).bytes 1), w⟩, ⟨.read fp 1, r⟩, ⟨.log "Client: /%a has connected" 1, ()⟩]

/-- The test. -/
def judoAccept_.Answered (buffer : ℕ × Buffer) (r : Option (List Byte)) : Prop :=
  bytesRead r > 0 ∧ ((buffer.2.set 0 new_node.mode).fill (r.getD []) 0).toInt = new_node.mode.toNat

/-- The ways from the node on that has its mode and its TLS fields. -/
inductive judoAccept_.Way : List (Event Op Ans) → JudoServer → ℤ → Prop where
  | unwritten {buffer : ℕ × Buffer} {fp w : ℤ} (hw : w ≤ 0) :
      Way [⟨.new_char server.m_buffer_size, buffer⟩, ⟨.accept server.m_server_list_sock, fp⟩, ⟨.setsockopt fp, ()⟩,
        ⟨.write fp 1 ((buffer.2.set 0 new_node.mode).bytes 1), w⟩, ⟨.close fp, ()⟩, ⟨.SSL_free new_node.ssl, ()⟩,
        ⟨.SSL_CTX_free new_node.ssl_ctx, ()⟩, ⟨.delete_ssl_node new_node.addr, ()⟩] server JUDO_FAILURE
  | refused {buffer : ℕ × Buffer} {fp w : ℤ} {r : Option (List Byte)} (hw : 0 < w)
      (hr : ¬ judoAccept_.Answered new_node buffer r) :
      Way (judoAccept_.asked server new_node buffer fp w r ++ [⟨.close fp, ()⟩, ⟨.SSL_free new_node.ssl, ()⟩,
        ⟨.SSL_CTX_free new_node.ssl_ctx, ()⟩, ⟨.delete_ssl_node new_node.addr, ()⟩]) server JUDO_FAILURE
  | unshaken {buffer : ℕ × Buffer} {fp w : ℤ} {r : Option (List Byte)} {out fd : ℤ} {trₕ : List (Event Op Ans)} (hw : 0 < w)
      (hr : judoAccept_.Answered new_node buffer r) (hcerts : new_node.certs = true)
      (hhand : Prog.Runs (shake { new_node with fp := fp } server.m_buffer_size) trₕ (some out)) (hout : out ≠ JUDO_SUCCESS) :
      Way (judoAccept_.asked server new_node buffer fp w r ++ (trₕ ++ [⟨.delete_char buffer.1, ()⟩,
        ⟨.SSL_free new_node.ssl, ()⟩, ⟨.SSL_CTX_free new_node.ssl_ctx, ()⟩, ⟨.delete_ssl_node new_node.addr, ()⟩,
        ⟨.freed, fd⟩, ⟨.close fd, ()⟩])) server JUDO_SSL_HANDSHAKE_FAILURE
  | shaken {buffer : ℕ × Buffer} {fp w : ℤ} {r : Option (List Byte)} {trₕ tr : List (Event Op Ans)} {server' : JudoServer}
      {ret : ℤ} (hw : 0 < w) (hr : judoAccept_.Answered new_node buffer r) (hcerts : new_node.certs = true)
      (hhand : Prog.Runs (shake { new_node with fp := fp } server.m_buffer_size) trₕ (some JUDO_SUCCESS))
      (hgreet : Prog.Runs (judoAccept_.greet server { new_node with fp := fp } buffer.1) tr (some (server', ret))) :
      Way (judoAccept_.asked server new_node buffer fp w r ++ (trₕ ++ tr)) server' ret
  | plain {buffer : ℕ × Buffer} {fp w : ℤ} {r : Option (List Byte)} {tr : List (Event Op Ans)} {server' : JudoServer}
      {ret : ℤ} (hw : 0 < w) (hr : judoAccept_.Answered new_node buffer r) (hcerts : ¬ new_node.certs = true)
      (hgreet : Prog.Runs (judoAccept_.greet server { new_node with fp := fp } buffer.1) tr (some (server', ret))) :
      Way (judoAccept_.asked server new_node buffer fp w r ++ tr) server' ret

/-- The two parts of `judoAccept_`. -/
inductive judoAccept_.Call : List (Event Op Ans) → JudoServer → ℤ → Prop where
  | unfilled {node : ssl_node} {filled : ssl_node × ℤ} {trᵢ : List (Event Op Ans)}
      (hfill : Prog.Runs (judoAccept_.fill server node) trᵢ filled) (hret : filled.2 ≠ JUDO_SUCCESS) :
      Call (⟨.new_ssl_node, node⟩ :: (trᵢ ++ [⟨.delete_ssl_node node.addr, ()⟩])) server filled.2
  | filled {node : ssl_node} {filled : ssl_node × ℤ} {trᵢ tr : List (Event Op Ans)} {server' : JudoServer} {ret : ℤ}
      (hfill : Prog.Runs (judoAccept_.fill server node) trᵢ filled) (hfilled : filled.2 = JUDO_SUCCESS)
      (hway : judoAccept_.Way shake server { filled.1 with mode := server.connectionMode } tr server' ret) :
      Call (⟨.new_ssl_node, node⟩ :: (trᵢ ++ tr)) server' ret

end Accept

/-! ## Connecting

The same from the connected socket on, in two parts, because the agreed mode decides what
follows. The files and the socket come before that (`Call`). -/

section Connect

variable (shake : ssl_node → ℤ → Sys (Option ℤ)) (client : JudoServer)

/-- The ways from the answer to the server on. -/
inductive judoConnect_.JoinWay (new_node : ssl_node) (buffer : ℕ) : List (Event Op Ans) → JudoServer → ℤ → Prop where
  | unshaken {size out fd : ℤ} {buf : ℕ × Buffer} {trₕ : List (Event Op Ans)} (hsize : shiftOne (0x3F &&& new_node.mode) = size)
      (hcerts : new_node.certs = true) (hhand : Prog.Runs (shake new_node size) trₕ (some out)) (hout : out ≠ JUDO_SUCCESS) :
      JoinWay new_node buffer (⟨.delete_char buffer, ()⟩ :: ⟨.new_char size, buf⟩ :: (trₕ ++ [⟨.delete_char buf.1, ()⟩,
        ⟨.SSL_free new_node.ssl, ()⟩, ⟨.SSL_CTX_free new_node.ssl_ctx, ()⟩, ⟨.delete_ssl_node new_node.addr, ()⟩,
        ⟨.freed, fd⟩, ⟨.close fd, ()⟩])) client JUDO_SSL_HANDSHAKE_FAILURE
  | shaken {size : ℤ} {buf : ℕ × Buffer} {r c : Option (List Byte)} {trₕ tr : List (Event Op Ans)} {client' : JudoServer}
      {ret : ℤ} (hsize : shiftOne (0x3F &&& new_node.mode) = size) (hcerts : new_node.certs = true)
      (hhand : Prog.Runs (shake new_node size) trₕ (some JUDO_SUCCESS))
      (hhello : Prog.Runs (judoConnect_.hello client new_node (buf.1, (buf.2.fill (r.getD [])).fill (c.getD []))) tr
        (some (client', ret))) :
      JoinWay new_node buffer (⟨.delete_char buffer, ()⟩ :: ⟨.new_char size, buf⟩ :: (trₕ ++ ⟨.read new_node.fp size, r⟩
        :: ⟨.BIO_write new_node.read_bio (bytesRead r) (r.getD []), ()⟩ :: ⟨.SSL_read new_node.ssl size, c⟩ :: tr)) client' ret
  | plain {size : ℤ} {buf : ℕ × Buffer} {tr : List (Event Op Ans)} {client' : JudoServer} {ret : ℤ}
      (hsize : shiftOne (0x3F &&& new_node.mode) = size) (hcerts : ¬ new_node.certs = true)
      (hhello : Prog.Runs (judoConnect_.hello client new_node buf) tr (some (client', ret))) :
      JoinWay new_node buffer (⟨.delete_char buffer, ()⟩ :: ⟨.new_char size, buf⟩ :: tr) client' ret

/-- The two mode bytes have the same certificate bits, as `judoConnect_` tests it. -/
def SameCerts (mode t_mode : Byte) : Prop :=
  mode &&& JUDO_CON_SERVER_CERTS = t_mode &&& JUDO_CON_SERVER_CERTS
    ∧ mode &&& JUDO_CON_CLIENT_CERTS = t_mode &&& JUDO_CON_CLIENT_CERTS

/-- The ways from the connected socket on. -/
inductive judoConnect_.Way (new_node : ssl_node) (t_mode : Byte) : List (Event Op Ans) → JudoServer → ℤ → Prop where
  | unanswered {buffer : ℕ × Buffer} {r : Option (List Byte)} {fd : ℤ} (hr : bytesRead r ≤ 0) :
      Way new_node t_mode [⟨.new_char 1, buffer⟩, ⟨.read new_node.fp 1, r⟩, ⟨.delete_char buffer.1, ()⟩,
        ⟨.SSL_free new_node.ssl, ()⟩, ⟨.SSL_CTX_free new_node.ssl_ctx, ()⟩, ⟨.delete_ssl_node new_node.addr, ()⟩,
        ⟨.freed, fd⟩, ⟨.close fd, ()⟩] client JUDO_REMOTE_HOST_DISCONNECT
  | refused {buffer : ℕ × Buffer} {b : Byte} {l : List Byte} {w output : ℤ} (hbits : ¬ SameCerts b t_mode)
      (hout : output ≠ JUDO_SUCCESS) :
      Way new_node t_mode [⟨.new_char 1, buffer⟩, ⟨.read new_node.fp 1, some (b :: l)⟩, ⟨.write new_node.fp 1 [0xFF], w⟩,
        ⟨.close new_node.fp, ()⟩, ⟨.delete_char buffer.1, ()⟩, ⟨.SSL_free new_node.ssl, ()⟩,
        ⟨.SSL_CTX_free new_node.ssl_ctx, ()⟩, ⟨.delete_ssl_node new_node.addr, ()⟩] client output
  | answered {buffer : ℕ × Buffer} {b : Byte} {l : List Byte} {w : ℤ} {tr : List (Event Op Ans)} {client' : JudoServer}
      {ret : ℤ} (hbits : SameCerts b t_mode)
      (hjoin : judoConnect_.JoinWay shake client { new_node with mode := b } buffer.1 tr client' ret) :
      Way new_node t_mode (⟨.new_char 1, buffer⟩ :: ⟨.read new_node.fp 1, some (b :: l)⟩ :: ⟨.write new_node.fp 1 [b], w⟩
        :: ⟨.log "Connection to /%a was Successful" 1, ()⟩ :: tr) client' ret

/-- The parts of `judoConnect_`. -/
inductive judoConnect_.Call (t_cert t_key : Option String) (t_mode : Byte) : List (Event Op Ans) → JudoServer → ℤ → Prop where
  | missing (hmissing : CertFilesMissing t_cert t_key t_mode) :
      Call t_cert t_key t_mode [] client JUDO_INPUT_CERT_FILES_MISSING
  | unfilled {node : ssl_node} {filled : ssl_node × ℤ} {trᵢ : List (Event Op Ans)}
      (hcheck : ¬ CertFilesMissing t_cert t_key t_mode)
      (hfill : Prog.Runs (judoConnect_.fill { node with mode := t_mode } t_cert t_key) trᵢ filled)
      (hret : filled.2 ≠ JUDO_SUCCESS) :
      Call t_cert t_key t_mode (⟨.new_ssl_node, node⟩ :: trᵢ) client filled.2
  | unconnected {node : ssl_node} {filled : ssl_node × ℤ} {fp w : ℤ} {trᵢ : List (Event Op Ans)}
      (hcheck : ¬ CertFilesMissing t_cert t_key t_mode)
      (hfill : Prog.Runs (judoConnect_.fill { node with mode := t_mode } t_cert t_key) trᵢ filled)
      (hfilled : filled.2 = JUDO_SUCCESS) (hw : w < 0) :
      Call t_cert t_key t_mode (⟨.new_ssl_node, node⟩ :: (trᵢ ++ [⟨.log "Attempting to connect to /%a" 1, ()⟩, ⟨.socket, fp⟩,
        ⟨.setsockopt fp, ()⟩, ⟨.connect fp, w⟩, ⟨.close fp, ()⟩, ⟨.SSL_free filled.1.ssl, ()⟩,
        ⟨.SSL_CTX_free filled.1.ssl_ctx, ()⟩, ⟨.delete_ssl_node filled.1.addr, ()⟩])) client JUDO_CONNECTION_FAILURE
  | connected {node : ssl_node} {filled : ssl_node × ℤ} {fp w : ℤ} {trᵢ tr : List (Event Op Ans)} {client' : JudoServer}
      {ret : ℤ} (hcheck : ¬ CertFilesMissing t_cert t_key t_mode)
      (hfill : Prog.Runs (judoConnect_.fill { node with mode := t_mode } t_cert t_key) trᵢ filled)
      (hfilled : filled.2 = JUDO_SUCCESS) (hw : 0 ≤ w)
      (hway : judoConnect_.Way shake client { filled.1 with fp := fp } t_mode tr client' ret) :
      Call t_cert t_key t_mode (⟨.new_ssl_node, node⟩ :: (trᵢ ++ ⟨.log "Attempting to connect to /%a" 1, ()⟩ :: ⟨.socket, fp⟩
        :: ⟨.setsockopt fp, ()⟩ :: ⟨.connect fp, w⟩ :: tr)) client' ret

end Connect

/-! ## Every call goes one of the ways

The two functions are taken apart once, operation by operation; nothing that comes after this
module unfolds them to see how they end. -/

section

variable {shake : ssl_node → ℤ → Sys (Option ℤ)} {tr : List (Event Op Ans)} {ret : ℤ}

/-- From the node with its mode and its TLS fields on. -/
theorem judoAccept_.way {server server' : JudoServer} {new_node : ssl_node}
    (h : Prog.Runs (judoAccept_.negotiate shake server new_node) tr (some (server', ret))) :
    judoAccept_.Way shake server new_node tr server' ret := by
  unfold judoAccept_.negotiate at h
  obtain ⟨buffer, tr, rfl, h₁⟩ := Prog.runs_step.mp h
  obtain ⟨fp, tr, rfl, h₂⟩ := Prog.runs_step.mp h₁
  obtain ⟨-, tr, rfl, h₃⟩ := Prog.runs_step.mp h₂
  obtain ⟨w, tr, rfl, h₄⟩ := Prog.runs_step.mp h₃
  split at h₄
  · next hw =>
      obtain ⟨-, tr, rfl, -, tr, rfl, -, tr, rfl, -, tr, rfl, rfl, hret⟩ := h₄
      obtain ⟨rfl, rfl⟩ := Prod.mk.inj (Option.some.inj hret)
      exact .unwritten hw
  next hw =>
  -- the mode byte is written, and its answer is read
  obtain ⟨r, tr, rfl, h₅⟩ := Prog.runs_step.mp h₄
  obtain ⟨-, tr, rfl, h₆⟩ := Prog.runs_step.mp h₅
  split at h₆
  · next hr =>
      split at h₆
      · next hcerts =>
          obtain ⟨trₕ, trₑ, out, rfl, hhand, h₇⟩ := Prog.runs_bind.mp h₆
          unfold judoAccept_.shaken at h₇
          split at h₇
          · exact absurd h₇.2 (Option.some_ne_none _).symm
          next out =>
          split at h₇
          · next hout =>
              obtain ⟨-, tr, rfl, -, tr, rfl, -, tr, rfl, -, tr, rfl, fd, tr, rfl, -, tr, rfl, rfl, hret⟩ := h₇
              obtain ⟨rfl, rfl⟩ := Prod.mk.inj (Option.some.inj hret)
              exact .unshaken (not_le.mp hw) hr hcerts hhand hout
          · next hout =>
              obtain rfl : out = JUDO_SUCCESS := not_not.mp hout
              exact .shaken (not_le.mp hw) hr hcerts hhand h₇
      -- no certificates, no handshake
      · next hcerts => exact .plain (not_le.mp hw) hr hcerts h₆
  · next hr =>
      obtain ⟨-, tr, rfl, -, tr, rfl, -, tr, rfl, -, tr, rfl, rfl, hret⟩ := h₆
      obtain ⟨rfl, rfl⟩ := Prod.mk.inj (Option.some.inj hret)
      exact .refused (not_le.mp hw) hr

set_option linter.constructorNameAsVariable false in
/-- From the answer to the server on. That `new` may throw is the way that has no record. -/
theorem judoConnect_.joinWay {client client' : JudoServer} {new_node : ssl_node} {buffer : ℕ}
    (h : Prog.Runs (judoConnect_.join shake client new_node buffer) tr (some (client', ret))) :
    judoConnect_.JoinWay shake client new_node buffer tr client' ret := by
  unfold judoConnect_.join at h
  dsimp only at h
  obtain ⟨-, tr, rfl, h₁⟩ := Prog.runs_step.mp h
  generalize hsize : shiftOne (0x3F &&& new_node.mode) = size at h₁
  -- new[] throws for a negative size; then certs decides whether there is a handshake
  split at h₁
  · exact absurd h₁.2 (Option.some_ne_none _).symm
  obtain ⟨buf, tr, rfl, h₂⟩ := Prog.runs_step.mp h₁
  split at h₂
  · next hcerts =>
      obtain ⟨trₕ, trₑ, out, rfl, hhand, h₃⟩ := Prog.runs_bind.mp h₂
      unfold judoConnect_.shaken at h₃
      split at h₃
      · exact absurd h₃.2 (Option.some_ne_none _).symm
      next out =>
      split at h₃
      · next hout =>
          obtain ⟨-, tr, rfl, -, tr, rfl, -, tr, rfl, -, tr, rfl, fd, tr, rfl, -, tr, rfl, rfl, hret⟩ := h₃
          obtain ⟨rfl, rfl⟩ := Prod.mk.inj (Option.some.inj hret)
          exact .unshaken hsize hcerts hhand hout
      · next hout =>
          obtain rfl : out = JUDO_SUCCESS := not_not.mp hout
          obtain ⟨r, tr, rfl, h₄⟩ := Prog.runs_step.mp h₃
          obtain ⟨-, tr, rfl, h₅⟩ := Prog.runs_step.mp h₄
          obtain ⟨c, tr, rfl, h₆⟩ := Prog.runs_step.mp h₅
          exact .shaken hsize hcerts hhand h₆
  · next hcerts => exact .plain hsize hcerts h₂

/-- From the connected socket on. -/
theorem judoConnect_.way {client client' : JudoServer} {new_node : ssl_node} {t_mode : Byte}
    (h : Prog.Runs (judoConnect_.negotiate shake client new_node t_mode) tr (some (client', ret))) :
    judoConnect_.Way shake client new_node t_mode tr client' ret := by
  unfold judoConnect_.negotiate at h
  obtain ⟨buffer, tr, rfl, h₁⟩ := Prog.runs_step.mp h
  obtain ⟨r, tr, rfl, h₂⟩ := Prog.runs_step.mp h₁
  split at h₂
  · next hread =>
      -- there is a first byte
      obtain ⟨b, l, rfl⟩ : ∃ b l, r = some (b :: l) := by
        rcases r with _ | _ | ⟨b, l⟩
        · exact absurd hread (by decide)
        · exact absurd hread (by decide)
        · exact ⟨b, l, rfl⟩
      dsimp only at h₂
      rw [Option.getD_some, Buffer.fill_cons_zero] at h₂
      -- refusing is the same for either bit
      have hrefuse : ∀ output, output ≠ JUDO_SUCCESS → ¬ SameCerts b t_mode →
          Prog.Runs (judoConnect_.refuse client new_node buffer.1 output) tr (some (client', ret)) →
          judoConnect_.Way shake client new_node t_mode
            (⟨.new_char 1, buffer⟩ :: ⟨.read new_node.fp 1, some (b :: l)⟩ :: tr) client' ret := by
        rintro output hout hbits ⟨w, tr, rfl, -, tr, rfl, -, tr, rfl, -, tr, rfl, -, tr, rfl, -, tr, rfl, rfl, hret⟩
        obtain ⟨rfl, rfl⟩ := Prod.mk.inj (Option.some.inj hret)
        exact .refused hbits hout
      split at h₂
      · next hserver => exact hrefuse _ (by split <;> decide) (fun hsame => hserver hsame.1) h₂
      next hserver =>
      split at h₂
      · next hclient => exact hrefuse _ (by split <;> decide) (fun hsame => hclient hsame.2) h₂
      next hclient =>
      obtain ⟨w, tr, rfl, h₃⟩ := Prog.runs_step.mp h₂
      obtain ⟨-, tr, rfl, h₄⟩ := Prog.runs_step.mp h₃
      exact .answered ⟨not_not.mp hserver, not_not.mp hclient⟩ (judoConnect_.joinWay h₄)
  · next hread =>
      obtain ⟨-, tr, rfl, -, tr, rfl, -, tr, rfl, -, tr, rfl, fd, tr, rfl, -, tr, rfl, rfl, hret⟩ := h₂
      obtain ⟨rfl, rfl⟩ := Prod.mk.inj (Option.some.inj hret)
      exact .unanswered (not_lt.mp hread)

/-- `judoSocketConnect_` opens a socket; it stays open when it is connected. -/
theorem runs_judoSocketConnect_ {connected : ℤ × ℤ} (h : Prog.Runs judoSocketConnect_ tr connected) :
    ∃ fp w : ℤ, (w < 0 ∧ tr = [⟨.socket, fp⟩, ⟨.setsockopt fp, ()⟩, ⟨.connect fp, w⟩, ⟨.close fp, ()⟩]
        ∧ connected = (JUDO_CONNECTION_FAILURE, -1))
      ∨ 0 ≤ w ∧ tr = [⟨.socket, fp⟩, ⟨.setsockopt fp, ()⟩, ⟨.connect fp, w⟩] ∧ connected = (JUDO_SUCCESS, fp) := by
  obtain ⟨fp, tr, rfl, h₁⟩ := Prog.runs_step.mp h
  obtain ⟨-, tr, rfl, h₂⟩ := Prog.runs_step.mp h₁
  obtain ⟨w, tr, rfl, h₃⟩ := Prog.runs_step.mp h₂
  refine ⟨fp, w, ?_⟩
  split at h₃
  · next hw =>
      obtain ⟨-, tr, rfl, rfl, rfl⟩ := h₃
      exact .inl ⟨hw, rfl, rfl⟩
  · next hw =>
      obtain ⟨rfl, rfl⟩ := h₃
      exact .inr ⟨not_lt.mp hw, rfl, rfl⟩

/-- **`judoAccept_`** goes one of these ways. -/
theorem judoAccept_.call {server server' : JudoServer} (h : Prog.Runs (judoAccept_ shake server) tr (some (server', ret))) :
    judoAccept_.Call shake server tr server' ret := by
  obtain ⟨node, tr, rfl, h₁⟩ := Prog.runs_step.mp h
  obtain ⟨tr₁, tr₂, filled, rfl, hfill, h₂⟩ := Prog.runs_bind.mp h₁
  split at h₂
  · next hfilled =>
      obtain ⟨-, tr, rfl, rfl, hret⟩ := h₂
      obtain ⟨rfl, rfl⟩ := Prod.mk.inj (Option.some.inj hret)
      exact .unfilled hfill hfilled
  · next hfilled => exact .filled hfill (not_not.mp hfilled) (judoAccept_.way h₂)

/-- **`judoConnect_`** goes one of these ways. -/
theorem judoConnect_.call {client client' : JudoServer} {t_cert t_key : Option String} {t_mode : Byte}
    (h : Prog.Runs (judoConnect_ shake client t_cert t_key t_mode) tr (some (client', ret))) :
    judoConnect_.Call shake client t_cert t_key t_mode tr client' ret := by
  unfold judoConnect_ at h
  split at h
  · next hmissing =>
      obtain ⟨rfl, hret⟩ := h
      obtain ⟨rfl, rfl⟩ := Prod.mk.inj (Option.some.inj hret)
      exact .missing hmissing
  next hcheck =>
  obtain ⟨node, tr, rfl, h₁⟩ := Prog.runs_step.mp h
  obtain ⟨tr₁, tr₂, filled, rfl, hfill, h₂⟩ := Prog.runs_bind.mp h₁
  split at h₂
  · next hfilled =>
      obtain ⟨rfl, hret⟩ := h₂
      obtain ⟨rfl, rfl⟩ := Prod.mk.inj (Option.some.inj hret)
      rw [List.append_nil]
      exact .unfilled hcheck hfill hfilled
  next hfilled =>
  obtain ⟨-, tr₃, rfl, h₃⟩ := Prog.runs_step.mp h₂
  obtain ⟨tr₄, tr₅, connected, rfl, hsocket, h₄⟩ := Prog.runs_bind.mp h₃
  obtain ⟨fp, w, ⟨hw, rfl, rfl⟩ | ⟨hw, rfl, rfl⟩⟩ := runs_judoSocketConnect_ hsocket
  -- not connected
  · rw [if_pos (by decide)] at h₄
    obtain ⟨-, tr, rfl, -, tr, rfl, -, tr, rfl, rfl, hret⟩ := h₄
    obtain ⟨rfl, rfl⟩ := Prod.mk.inj (Option.some.inj hret)
    exact .unconnected hcheck hfill (not_not.mp hfilled) hw
  · rw [if_neg (not_not.mpr rfl)] at h₄
    exact .connected hcheck hfill (not_not.mp hfilled) hw (judoConnect_.way h₄)

end

end JudoEngine
