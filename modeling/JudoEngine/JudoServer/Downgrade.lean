/-
No connection is made with less security than was asked for.

The mode byte of a row's node decides whether its packets go through TLS. Its
certificate bits are the ones that the server requires, or the ones that the client
was asked for, whatever the other end sends; and where there are any, OpenSSL has said
that the handshake is finished before the row is there.
-/
import JudoEngine.JudoServer.Life

set_option autoImplicit false

open Words

namespace JudoEngine

/-! ## The handshake

judoHandshake_ leaves with success at one place only, after SSL_is_init_finished has said so
about the node's ssl. -/

/-- `judoHandshake_` only succeeds when OpenSSL has said that it is finished. -/
theorem finished_of_runs {t_node : ssl_node} {t_buffer_size : ℤ} {fuel : ℕ} : ∀ {tr : List (Event Op Ans)},
    Prog.Runs (judoHandshake_ t_node t_buffer_size fuel) tr (some JUDO_SUCCESS) → ⟨.SSL_is_init_finished t_node.ssl, true⟩ ∈ tr := by
  -- by the rounds of the loop: each either sees the handshake finished, or fails, or leaves the
  -- rest to the next
  induction fuel with
  | zero => exact fun hruns => absurd hruns.2 (Option.some_ne_none _).symm
  | succ fuel ih =>
      intro tr hruns
      unfold judoHandshake_ at hruns
      obtain ⟨finished, tr, rfl, h₁⟩ := Prog.runs_step.mp hruns
      split at h₁
      · next hfinished =>
          rw [hfinished]
          exact List.mem_cons_self
      · -- not yet: the rest of the record is that of another round, or of a failure
        apply List.mem_cons_of_mem
        obtain ⟨-, tr, rfl, h₂⟩ := Prog.runs_step.mp h₁
        obtain ⟨w, tr, rfl, h₃⟩ := Prog.runs_step.mp h₂
        apply List.mem_cons_of_mem
        apply List.mem_cons_of_mem
        split at h₃
        · obtain ⟨-, tr, rfl, h₄⟩ := Prog.runs_step.mp h₃
          exact List.mem_cons_of_mem _ (ih h₄)
        · obtain ⟨r, tr, rfl, h₄⟩ := Prog.runs_step.mp h₃
          apply List.mem_cons_of_mem
          split at h₄
          · obtain ⟨-, tr, rfl, h₅⟩ := Prog.runs_step.mp h₄
            exact List.mem_cons_of_mem _ (ih h₅)
          · split at h₄
            · -- the other way to return is a failure
              exact absurd (Option.some.inj h₄.2) (by decide)
            · exact ih h₄

/-- If the node has certificate bits, its handshake was finished by then. -/
def Secured (n : ssl_node) (pre : List (Event Op Ans)) : Prop :=
  n.certs = true → ⟨.SSL_is_init_finished n.ssl, true⟩ ∈ pre

/-- A node whose handshake was met in a trace has its finished handshake in that trace. -/
theorem Met.secured {fuel : ℕ} {n : ssl_node} {pre : List (Event Op Ans)} (h : Met (judoHandshake_ · · fuel) n pre) :
    Secured n pre := by
  intro hcerts
  obtain ⟨size, tr, before, after, hruns, rfl⟩ := h.shaken hcerts
  exact List.mem_append_left _ (List.mem_append_right _ (finished_of_runs hruns))

/-! ## Rows

What a row of the table holds was put there by judoAccept_ or judoConnect_, with the mode the
two ends agreed on and after the handshake that this mode asks for. -/

/-- The mode byte that `judoAccept_` gives a node has the certificate bits that the server
requires. -/
theorem matches_connectionMode {server : JudoServer} (h : Configured server) : Matches server server.connectionMode :=
  (sameCerts_iff h _).mp ⟨rfl, rfl⟩

variable {t_addr : Option sockaddr_in} {log : List Called} {server server' : JudoServer} {fuel : ℕ}
  {tr : List (Event Op Ans)} {ret : ℤ}

/-- A call has added the row of a node with such certificate bits, whose handshake was
finished by then if it has any; `fromRow` is what the call does from the row on. -/
def SecureRow (server : JudoServer) (fromRow : ssl_node → List (Event Op Ans) → Prop) (bits : Byte → Prop)
    (tr : List (Event Op Ans)) (server' : JudoServer) : Prop :=
  ∃ n pre post, tr = pre ++ post ∧ fromRow n post
    ∧ server' = { server with m_ssl_nodes := server.m_ssl_nodes.add ⟨n.fp, POLLIN, 0⟩ n } ∧ bits n.mode ∧ Secured n pre

/-- **No downgrade.** Whatever has happened to a server before, and in the middle of
`run` too: `judoAccept_` and `judoConnect_` leave it as it is, or add a row with the
certificate bits asked for, and with any of them only after the handshake. -/
theorem no_downgrade (h : Life (fun _ _ => True) t_addr log server) :
    (Prog.Runs (judoAccept_ (judoHandshake_ · · fuel) server) tr (some (server', ret)) → server' = server
        ∨ SecureRow server (fun n post => ∃ buffer, Prog.Runs (judoAccept_.greet server n buffer) post (some (server', ret)))
            (Matches server) tr server')
      ∧ ∀ t_cert t_key t_mode,
        Prog.Runs (judoConnect_ (judoHandshake_ · · fuel) server t_cert t_key t_mode) tr (some (server', ret)) → server' = server
          ∨ SecureRow server (fun n post => ∃ buffer, Prog.Runs (judoConnect_.hello server n buffer) post (some (server', ret)))
              (SameCerts · t_mode) tr server' := by
  constructor
  · intro hruns
    -- only one exit of either call adds a row, and it comes after the exchange of mode bytes and a
    -- handshake where the mode asks for one
    cases runs_accepts (fun _ _ => internal_judoHandshake_ ..) hruns with
    | unfilled hfds hret hserver => exact .inl hserver
    | closed fp hfds hret hserver => exact .inl hserver
    | late fp fd hfds hfreed hret hserver => exact .inl hserver
    | added n buffer pre post htr hpost hfds hmode hwrite hmet =>
        refine .inr ⟨n, pre, post, htr, ⟨buffer, hpost⟩, (runs_greet hpost).1, ?_, hmet.secured⟩
        rw [hmode]
        exact matches_connectionMode h.configured
  · intro t_cert t_key t_mode hruns
    cases runs_connects (fun _ _ => internal_judoHandshake_ ..) hruns with
    | unfilled hfds hret hclient => exact .inl hclient
    | closed fp hfds hret hclient => exact .inl hclient
    | late fp fd hfds hfreed hret hclient => exact .inl hclient
    | added n buffer pre post htr hpost hfds hmode hconnect hmet =>
        exact .inr ⟨n, pre, post, htr, ⟨buffer, hpost⟩, (runs_hello hpost).1, hmode, hmet.secured⟩

/-! ## A server that requires certificates

A life in which both calls add such a row: TLS is set up, the server's own certificates are
required, and the peer's handshake is finished at once. -/

/-- A peer that answers with this byte, and whose handshake is finished at once. -/
def peerAnswer (b : Byte) : Unit → (o : Op) → Ans o × Unit
  | _, .read _ _ => (some [b], ())
  | _, .write _ _ data => ((data.length : ℤ), ())
  | _, .SSL_is_init_finished _ => (true, ())
  | _, _ => (default, ())

/-- A server that has set up TLS and requires its own certificates accepts a client, and
connects to another server. -/
theorem no_downgrade_certs :
    ∃ log server, Life (fun _ _ => True) none log server
      ∧ log.map (·.call) = [.judoSetUpServerSockSSL none none, .judoServerRequireCerts]
      ∧ (∃ tr server' ret, Prog.Runs (judoAccept_ (judoHandshake_ · · 1) server) tr (some (server', ret)) ∧ server' ≠ server
        ∧ (server' = server
          ∨ SecureRow server (fun n post => ∃ buffer, Prog.Runs (judoAccept_.greet server n buffer) post (some (server', ret)))
              (Matches server) tr server'))
      ∧ ∃ tr server' ret, Prog.Runs (judoConnect_ (judoHandshake_ · · 1) server none none 0x40) tr (some (server', ret))
        ∧ server' ≠ server
        ∧ (server' = server
          ∨ SecureRow server (fun n post => ∃ buffer, Prog.Runs (judoConnect_.hello server n buffer) post (some (server', ret)))
              (SameCerts · 0x40) tr server') := by
  have hnew : Life (fun _ _ => True) none [] (.init_ default) := .new (Prog.runs_exec (h := peerAnswer 0) JudoServer.init ())
  have hsetup : Makes (.init_ default) (.judoSetUpServerSockSSL none none) _ { JudoServer.init_ default with m_mode := 0x0002 } 0 :=
    .judoSetUpServerSockSSL (Prog.runs_exec (h := peerAnswer 0) _ ())
  have hrequire : Makes { JudoServer.init_ default with m_mode := 0x0002 } .judoServerRequireCerts _
      { JudoServer.init_ default with m_mode := 0x0006 } 0 := .judoServerRequireCerts (Prog.runs_exec (h := peerAnswer 0) _ ())
  have hlife := (hnew.call trivial hsetup).call trivial hrequire
  have haccept : Prog.Runs (judoAccept_ (judoHandshake_ · · 1) { JudoServer.init_ default with m_mode := 0x0006 }) _ (some (_, 0)) :=
    Prog.runs_exec (h := peerAnswer 0x4A) _ ()
  have hconnect : Prog.Runs (judoConnect_ (judoHandshake_ · · 1) { JudoServer.init_ default with m_mode := 0x0006 } none none 0x40) _
      (some (_, 0)) := Prog.runs_exec (h := peerAnswer 0x4A) _ ()
  refine ⟨_, _, hlife, rfl, ⟨_, _, _, haccept, ?_, (no_downgrade hlife).1 haccept⟩,
    _, _, _, hconnect, ?_, (no_downgrade hlife).2 _ _ _ hconnect⟩
  · exact fun hsame => absurd (congrArg (fun server => server.m_ssl_nodes.m_size) hsame) (by decide +kernel)
  · exact fun hsame => absurd (congrArg (fun server => server.m_ssl_nodes.m_size) hsame) (by decide +kernel)

end JudoEngine
