/-
How `judoAccept_`, `judoConnect_` and `judoRead_` end.

The first two have about ten ways out each, and what the rest of the development needs
of them is the same everywhere: which descriptors have been opened and closed by then,
and, where a row is added, what had happened before. So each way out is followed once,
here, with any handshake that leaves the descriptors alone.
-/
import JudoEngine.JudoServer.Ways

set_option autoImplicit false

open Words

namespace JudoEngine

/-! ## Kinds of operations

What a function cannot do is read off its text: `Prog.Only` walks a program once and says that
all its operations are of a kind, whatever their answers. The kinds are nested, so that one
walk serves many uses: what a `judoSend_`, a handshake or the filling of a node's TLS fields
does is `internal`, and all that the three large functions do is `ordinary`. -/

/-- Everything but a handshake in one piece, and what `run` does itself. -/
def ordinary : Op → Bool
  | .handshake _ | .poll _ | .dump | .access _ _ _ _ | .print_client _ _ | .undefined => false
  | _ => true

/-- A program that uses no others. -/
abbrev Ordinary {α : Type} (p : Sys α) : Prop := Prog.Only (fun o => ordinary o = true) p

/-- What opens or closes a descriptor. -/
def touchesFds : Op → Bool
  | .socket | .accept _ | .close _ => true
  | _ => false

/-- The descriptors opened and closed. -/
def fdEvents (tr : List (Event Op Ans)) : List (Event Op Ans) := tr.filter fun ev => touchesFds ev.op

@[simp] theorem fdEvents_append (tr tr' : List (Event Op Ans)) : fdEvents (tr ++ tr') = fdEvents tr ++ fdEvents tr' :=
  List.filter_append ..

/-- One event more. -/
theorem fdEvents_cons (ev : Event Op Ans) (tr : List (Event Op Ans)) :
    fdEvents (ev :: tr) = if touchesFds ev.op = true then ev :: fdEvents tr else fdEvents tr := List.filter_cons

/-- What is done on a connection, and to its TLS fields: the descriptors stay, and so do the nodes. -/
def internal : Op → Bool
  | .handshake _ | .poll _ | .dump | .access _ _ _ _ | .print_client _ _ | .undefined | .freed | .socket | .accept _ | .close _
  | .new_ssl_node | .delete_ssl_node _ => false
  | _ => true

/-- A program that uses no other operation. -/
abbrev Internal {α : Type} (p : Sys α) : Prop := Prog.Only (fun o => internal o = true) p

/-- What stays on the connection is ordinary. -/
theorem Internal.ordinary {α : Type} {p : Sys α} (hp : Internal p) : Ordinary p := by
  refine Prog.Only.mono (fun o ho => ?_) hp
  cases o <;> first | rfl | exact absurd ho Bool.false_ne_true

/-- And it opens and closes nothing. -/
theorem fdEvents_of_internal {α : Type} {p : Sys α} (hp : Internal p) {tr : List (Event Op Ans)} {a : α}
    (hruns : Prog.Runs p tr a) : fdEvents tr = [] := by
  rw [fdEvents, List.filter_eq_nil_iff]
  intro ev hev
  have hinternal := hp.of_runs hruns ev hev
  obtain ⟨o, x⟩ := ev
  cases o <;> first | exact Bool.false_ne_true | exact absurd hinternal Bool.false_ne_true

/-- Nothing is read from a node that has been deleted. `judoAccept_` does that when a handshake
has failed, and `judoConnect_` then too and when no mode byte has come. -/
def NoneFreed (tr : List (Event Op Ans)) : Prop := ∀ ev ∈ tr, ev.op ≠ .freed

/-- On a given record this can be computed. -/
theorem noneFreed_of_test {tr : List (Event Op Ans)}
    (h : (tr.all fun ev => match ev.op with | .freed => false | _ => true) = true) : NoneFreed tr := by
  intro ev hev hfreed
  have htest := List.all_eq_true.mp h ev hev
  rw [hfreed] at htest
  cases htest

/-- What `judoSend_` uses. -/
def sending : Op → Bool
  | .lock _ | .unlock _ | .new_char _ | .delete_char _ | .SSL_write _ _ | .BIO_read _ _ | .write _ _ _ => true
  | _ => false

/-- What the TLS fields of a node are filled with. -/
def filling : Op → Bool
  | .SSL_CTX_new _ | .SSL_CTX_use_certificate_file _ _ | .SSL_CTX_use_PrivateKey_file _ _ | .SSL_new _ | .BIO_new
  | .SSL_set_bio _ _ _ | .SSL_set_connect_state _ | .SSL_set_accept_state _ | .log _ _ => true
  | _ => false

/-- What `judoHandshake_` uses. -/
def shaking : Op → Bool
  | .SSL_is_init_finished _ | .SSL_do_handshake _ | .BIO_read _ _ | .BIO_write _ _ _ | .read _ _ | .write _ _ _ | .log _ _ => true
  | _ => false

/-- Sending is internal, ... -/
theorem internal_of_sending (o : Op) (ho : sending o = true) : internal o = true := by
  cases o <;> first | rfl | exact absurd ho Bool.false_ne_true

/-- ... filling is, ... -/
theorem internal_of_filling (o : Op) (ho : filling o = true) : internal o = true := by
  cases o <;> first | rfl | exact absurd ho Bool.false_ne_true

/-- ... and so is a handshake. -/
theorem internal_of_shaking (o : Op) (ho : shaking o = true) : internal o = true := by
  cases o <;> first | rfl | exact absurd ho Bool.false_ne_true

/-- By induction on the packets that are left; with certificates a packet takes three
operations, without them one. -/
theorem sending_judoSend_ (t_node : ssl_node) (t_buffer : Buffer) (t_size : ℤ) :
    Prog.Only (fun o => sending o = true) (judoSend_ t_node t_buffer t_size) := by
  have hloop : ∀ (buffer_size packets : ℤ) (n : ℕ) (i index : ℤ) (buffer : Buffer),
      Prog.Only (fun o => sending o = true) (judoSend_.loop t_node t_buffer t_size buffer_size packets n i index buffer) := by
    intro buffer_size packets n
    induction n with
    | zero => exact fun _ _ _ => trivial
    | succ n ih =>
        intro i index buffer
        unfold judoSend_.loop
        dsimp only
        split
        · exact .step rfl fun _ => .step rfl fun _ => .step rfl fun _ => ih _ _ _
        · exact .step rfl fun _ => ih _ _ _
  unfold judoSend_
  refine .step rfl fun _ => .step rfl fun buffer => ?_
  exact Prog.Only.bind (hloop ..) fun _ => .step rfl fun _ => .step rfl fun _ => trivial

/-- So the descriptors are not touched by it. -/
theorem internal_judoSend_ (t_node : ssl_node) (t_buffer : Buffer) (t_size : ℤ) :
    Internal (judoSend_ t_node t_buffer t_size) :=
  Prog.Only.mono internal_of_sending (sending_judoSend_ ..)

/-- By induction on the rounds. A round that neither writes nor reads anything ends in the
next one, or fails. -/
theorem shaking_judoHandshake_ (t_node : ssl_node) (t_buffer_size : ℤ) (fuel : ℕ) :
    Prog.Only (fun o => shaking o = true) (judoHandshake_ t_node t_buffer_size fuel) := by
  induction fuel with
  | zero => trivial
  | succ fuel ih =>
      unfold judoHandshake_
      refine .step rfl fun finished => ?_
      split
      · exact .step rfl fun _ => trivial
      · refine .step rfl fun _ => .step rfl fun w => ?_
        split
        · exact .step rfl fun _ => ih
        · refine .step rfl fun r => ?_
          split
          · exact .step rfl fun _ => ih
          · split
            · trivial
            · exact ih

/-- In particular, a handshake that fails closes nothing: that is left to its callers. -/
theorem internal_judoHandshake_ (t_node : ssl_node) (t_buffer_size : ℤ) (fuel : ℕ) :
    Internal (judoHandshake_ t_node t_buffer_size fuel) :=
  Prog.Only.mono internal_of_shaking (shaking_judoHandshake_ ..)

/-- A file is used, or there is none; the failure is logged. -/
theorem filling_useFile {use : String → Sys ℤ} (huse : ∀ file, Prog.Only (fun o => filling o = true) (use file)) (failure : ℤ)
    (file : Option String) : Prog.Only (fun o => filling o = true) (useFile use failure file) := by
  cases file with
  | none => trivial
  | some name =>
      refine Prog.Only.bind (huse name) fun ret => ?_
      split
      · exact .step rfl fun _ => trivial
      · trivial

/-- Two files, and then the fields. The early exits have done less of the same. -/
theorem filling_judoFillGeneralSSLFields_ (t_ssl_node : ssl_node) (t_cert t_key : Option String) (server_method : Bool) :
    Prog.Only (fun o => filling o = true) (judoFillGeneralSSLFields_ t_ssl_node t_cert t_key server_method) := by
  unfold judoFillGeneralSSLFields_
  refine .step rfl fun ctx => Prog.Only.bind ?_ fun ret => ?_
  · refine filling_useFile (fun _ => ?_) _ _
    exact ⟨rfl, fun _ => trivial⟩
  split
  · trivial
  refine Prog.Only.bind ?_ fun ret => ?_
  · refine filling_useFile (fun _ => ?_) _ _
    exact ⟨rfl, fun _ => trivial⟩
  split
  · trivial
  · exact .step rfl fun _ => .step rfl fun _ => .step rfl fun _ => .step rfl fun _ => trivial

/-- The server's half. -/
theorem filling_judoFillServerSSLFields_ (server : JudoServer) (t_node : ssl_node) :
    Prog.Only (fun o => filling o = true) (judoFillServerSSLFields_ server t_node) := by
  unfold judoFillServerSSLFields_
  refine Prog.Only.bind (filling_judoFillGeneralSSLFields_ ..) fun filled => ?_
  split
  · trivial
  · exact .step rfl fun _ => trivial

/-- The client's half. -/
theorem filling_judoFillClientSSLFields_ (t_node : ssl_node) (t_cert t_key : Option String) :
    Prog.Only (fun o => filling o = true) (judoFillClientSSLFields_ t_node t_cert t_key) := by
  unfold judoFillClientSSLFields_
  exact Prog.Only.bind (filling_judoFillGeneralSSLFields_ ..) fun filled => .step rfl fun _ => trivial

/-- As `filling_judoFillServerSSLFields_`, in the kind that the callers need. -/
theorem internal_judoFillServerSSLFields_ (server : JudoServer) (t_node : ssl_node) :
    Internal (judoFillServerSSLFields_ server t_node) :=
  Prog.Only.mono internal_of_filling (filling_judoFillServerSSLFields_ ..)

/-- As `filling_judoFillClientSSLFields_`, in the kind that the callers need. -/
theorem internal_judoFillClientSSLFields_ (t_node : ssl_node) (t_cert t_key : Option String) :
    Internal (judoFillClientSSLFields_ t_node t_cert t_key) :=
  Prog.Only.mono internal_of_filling (filling_judoFillClientSSLFields_ ..)

/-- The row is added to the object; the system sees the buffers and the packets only. -/
theorem internal_greet (server : JudoServer) (new_node : ssl_node) (buffer : ℕ) :
    Internal (judoAccept_.greet server new_node buffer) := by
  unfold judoAccept_.greet
  refine .step rfl fun _ => .step rfl fun _ => .step rfl fun _ => ?_
  exact Prog.Only.bind (internal_judoSend_ ..) fun _ => .step rfl fun _ => trivial

/-- The same for the client's first message. -/
theorem internal_hello (client : JudoServer) (new_node : ssl_node) (buffer : ℕ × Buffer) :
    Internal (judoConnect_.hello client new_node buffer) := by
  unfold judoConnect_.hello
  exact Prog.Only.bind (internal_judoSend_ ..) fun _ => .step rfl fun _ => trivial

/-- A store for each byte of the payload. -/
theorem internal_copy (t_out_buf : ℕ) (packet_buffer : Buffer) (n : ℕ) : ∀ (i index : ℤ),
    Internal (judoRead_.copy t_out_buf packet_buffer n i index) := by
  induction n with
  | zero => exact fun _ _ => trivial
  | succ n ih => exact fun _ _ => .step rfl fun _ => ih _ _

/-- Two operations with certificates, none without. -/
theorem internal_unseal (t_node : ssl_node) (packet_buf_size bytes_read : ℤ) (packet_buffer : Buffer) :
    Internal (judoRead_.unseal t_node packet_buf_size bytes_read packet_buffer) := by
  unfold judoRead_.unseal
  split
  · exact .step rfl fun _ => .step rfl fun _ => trivial
  · trivial

/-- The array is made, or `new` throws, or there is one already. -/
theorem internal_reserve (b packet_buf_size : ℤ) (t_out_buf : ℕ) (t_outbuf_size : ℤ) :
    Internal (judoRead_.reserve b packet_buf_size t_out_buf t_outbuf_size) := by
  unfold judoRead_.reserve
  generalize toInt32 _ = size
  split
  · split
    · trivial
    · exact .step rfl fun _ => trivial
  · trivial

/-- The three operations of `dstr_ssl_node`, before anything else that is ordinary. -/
theorem ordinary_dstr_ssl_node {α : Type} (node : ssl_node) {f : Unit → Sys α} (hf : ∀ x, Ordinary (f x)) :
    Ordinary (dstr_ssl_node node >>= f) :=
  Prog.Only.bind (.step rfl fun _ => .step rfl fun _ => .step rfl fun _ => trivial) hf

/-- Exit by exit, in the order of the source. -/
theorem ordinary_judoAccept_ {judoHandshake_ : ssl_node → ℤ → Sys (Option ℤ)}
    (hshake : ∀ t_node t_buffer_size, Ordinary (judoHandshake_ t_node t_buffer_size)) (server : JudoServer) :
    Ordinary (judoAccept_ judoHandshake_ server) := by
  unfold judoAccept_
  refine .step rfl fun new_node => Prog.Only.bind ?_ fun filled => ?_
  · unfold judoAccept_.fill
    split
    · exact (internal_judoFillServerSSLFields_ ..).ordinary
    · trivial
  split
  · exact .step rfl fun _ => trivial
  unfold judoAccept_.negotiate
  refine .step rfl fun buffer => .step rfl fun fp => .step rfl fun _ => .step rfl fun ret_val => ?_
  split
  -- the mode byte is not written
  · exact .step rfl fun _ => ordinary_dstr_ssl_node _ fun _ => trivial
  refine .step rfl fun resp => .step rfl fun _ => ?_
  split
  · split
    · refine Prog.Only.bind (hshake _ _) fun ret => ?_
      unfold judoAccept_.shaken
      split
      · trivial
      split
      · exact .step rfl fun _ => ordinary_dstr_ssl_node _ fun _ => .step rfl fun _ => .step rfl fun _ => trivial
      · exact (internal_greet ..).ordinary
    · exact (internal_greet ..).ordinary
  · exact .step rfl fun _ => ordinary_dstr_ssl_node _ fun _ => trivial

/-- The parts of the function first, from the last one on, then its body. -/
theorem ordinary_judoConnect_ {judoHandshake_ : ssl_node → ℤ → Sys (Option ℤ)}
    (hshake : ∀ t_node t_buffer_size, Ordinary (judoHandshake_ t_node t_buffer_size)) (client : JudoServer)
    (t_cert t_key : Option String) (t_mode : Byte) : Ordinary (judoConnect_ judoHandshake_ client t_cert t_key t_mode) := by
  have hhello : ∀ (new_node : ssl_node) (buffer : ℕ × Buffer), Ordinary (judoConnect_.hello client new_node buffer) := by
    intro new_node buffer
    exact Prog.Only.bind (internal_judoSend_ ..).ordinary fun _ => .step rfl fun _ => trivial
  have hjoin : ∀ (new_node : ssl_node) (buffer : ℕ), Ordinary (judoConnect_.join judoHandshake_ client new_node buffer) := by
    intro new_node buffer
    -- the body: the check of the files, TLS, the socket, the mode byte
    unfold judoConnect_.join
    generalize shiftOne (0x3F &&& new_node.mode) = size
    refine .step rfl fun _ => ?_
    split
    · trivial
    refine .step rfl fun buffer => ?_
    split
    · refine Prog.Only.bind (hshake _ _) fun ret => ?_
      unfold judoConnect_.shaken
      split
      · trivial
      split
      · exact .step rfl fun _ => ordinary_dstr_ssl_node _ fun _ => .step rfl fun _ => .step rfl fun _ => trivial
      · exact .step rfl fun _ => .step rfl fun _ => .step rfl fun _ => hhello ..
    · exact hhello ..
  have hrefuse : ∀ (new_node : ssl_node) (buffer : ℕ) (output : ℤ), Ordinary (judoConnect_.refuse client new_node buffer output) := by
    intro new_node buffer output
    exact .step rfl fun _ => .step rfl fun _ => .step rfl fun _ => ordinary_dstr_ssl_node _ fun _ => trivial
  unfold judoConnect_
  split
  · trivial
  refine .step rfl fun new_node => Prog.Only.bind ?_ fun filled => ?_
  · unfold judoConnect_.fill
    split
    · exact (internal_judoFillClientSSLFields_ ..).ordinary
    · trivial
  split
  · trivial
  refine .step rfl fun _ => Prog.Only.bind ?_ fun connected => ?_
  · unfold judoSocketConnect_
    refine .step rfl fun _ => .step rfl fun _ => .step rfl fun _ => ?_
    split
    · exact .step rfl fun _ => trivial
    · trivial
  split
  · exact ordinary_dstr_ssl_node _ fun _ => trivial
  unfold judoConnect_.negotiate
  refine .step rfl fun buffer => .step rfl fun r => ?_
  split
  · dsimp only
    split
    · exact hrefuse ..
    split
    · exact hrefuse ..
    · exact .step rfl fun _ => .step rfl fun _ => hjoin ..
  · exact .step rfl fun _ => ordinary_dstr_ssl_node _ fun _ => .step rfl fun _ => .step rfl fun _ => trivial

/-- By induction on the rounds; the disconnect is the first exit of each. -/
theorem ordinary_judoRead_ (fuel : ℕ) (server : JudoServer) (t_node : ssl_node) (t_poll : pollfd) (t_out_buf : ℕ) :
    Ordinary (judoRead_ fuel server t_node t_poll t_out_buf) := by
  -- on the rounds: what a round unseals, reserves and copies is internal, and a closing end is the
  -- only other way out
  have hloop : ∀ (buffer : ℕ) (packet_buf_size : ℤ) (fuel : ℕ) (p : Buffer) (out : ℕ) (index size : ℤ),
      Ordinary (judoRead_.loop server t_node t_poll buffer packet_buf_size fuel p out index size) := by
    intro buffer packet_buf_size fuel
    induction fuel with
    | zero => exact fun _ _ _ _ => trivial
    | succ fuel ih =>
        intro p out index size
        unfold judoRead_.loop
        refine .step rfl fun r => ?_
        split
        · refine Prog.Only.bind ?_ fun _ => .step rfl fun _ => trivial
          exact .step rfl fun _ => .step rfl fun _ => ordinary_dstr_ssl_node _ fun _ => trivial
        refine Prog.Only.bind (internal_unseal ..).ordinary fun p' => ?_
        dsimp only
        generalize p'.int32 0 = a
        generalize p'.int32 4 = b
        refine Prog.Only.bind (internal_reserve ..).ordinary fun reserved => ?_
        split
        · trivial
        refine Prog.Only.bind (internal_copy ..).ordinary fun _ => ?_
        split
        · exact ih _ _ _ _
        · exact .step rfl fun _ => .step rfl fun _ => trivial
  unfold judoRead_
  exact .step rfl fun _ => .step rfl fun _ => .step rfl fun _ => hloop ..

/-! ## `judoAccept_`

`Ways` has every way out with its whole record. What is needed most of the time is coarser:
which descriptors have come and gone, and when a row is added, that somebody is at the other
end and has had the handshake. `Accepts` is that, in four cases. -/

/-- What has happened before a row is added: the other end has been written to, and a
connection with certificates has had its handshake. -/
structure Met (shake : ssl_node → ℤ → Sys (Option ℤ)) (n : ssl_node) (pre : List (Event Op Ans)) : Prop where
  shaken : n.certs = true → ∃ size tr before after, Prog.Runs (shake n size) tr (some JUDO_SUCCESS) ∧ pre = before ++ tr ++ after

/-- What is returned where the descriptor is only closed when the node has been deleted. -/
def LateCode (ret : ℤ) : Prop := ret = JUDO_SSL_HANDSHAKE_FAILURE ∨ ret = JUDO_REMOTE_HOST_DISCONNECT

instance (ret : ℤ) : Decidable (LateCode ret) := inferInstanceAs (Decidable (_ ∨ _))

/-- Neither of them is a success. -/
theorem LateCode.ne_success {ret : ℤ} (h : LateCode ret) : ret ≠ JUDO_SUCCESS := by
  rcases h with rfl | rfl <;> decide

/-- How `judoAccept_` ends. It is `late` that it closes what it reads from the node that it has
deleted. -/
inductive Accepts (shake : ssl_node → ℤ → Sys (Option ℤ)) (server : JudoServer) (tr : List (Event Op Ans))
    (server' : JudoServer) (ret : ℤ) : Prop where
  | unfilled (hfds : fdEvents tr = []) (hret : ret ≠ JUDO_SUCCESS) (hserver : server' = server)
  | closed (fp : ℤ) (hfds : fdEvents tr = [⟨.accept server.m_server_list_sock, fp⟩, ⟨.close fp, ()⟩])
      (hret : ret ≠ JUDO_SUCCESS) (hserver : server' = server)
  | late (fp fd : ℤ) (hfds : fdEvents tr = [⟨.accept server.m_server_list_sock, fp⟩, ⟨.close fd, ()⟩])
      (hfreed : ⟨.freed, fd⟩ ∈ tr) (hret : LateCode ret) (hserver : server' = server)
  | added (n : ssl_node) (buffer : ℕ) (pre post : List (Event Op Ans)) (htr : tr = pre ++ post)
      (hpost : Prog.Runs (judoAccept_.greet server n buffer) post (some (server', ret)))
      (hfds : fdEvents pre = [⟨.accept server.m_server_list_sock, n.fp⟩]) (hmode : n.mode = server.connectionMode)
      (hwrite : ∃ size data, ∃ w : ℤ, ⟨.write n.fp size data, w⟩ ∈ pre ∧ 0 < w) (hmet : Met shake n pre)

section Accept

variable {shake : ssl_node → ℤ → Sys (Option ℤ)} {server server' : JudoServer} {tr : List (Event Op Ans)} {ret : ℤ}

/-- What the greeting leaves: the row is there, whatever has become of the packets. -/
theorem runs_greet {new_node : ssl_node} {buffer : ℕ}
    (h : Prog.Runs (judoAccept_.greet server new_node buffer) tr (some (server', ret))) :
    server' = { server with m_ssl_nodes := server.m_ssl_nodes.add ⟨new_node.fp, POLLIN, 0⟩ new_node }
      ∧ ret = JUDO_SUCCESS := by
  unfold judoAccept_.greet at h
  obtain ⟨-, tr, rfl, h₁⟩ := Prog.runs_step.mp h
  obtain ⟨buf, tr, rfl, h₂⟩ := Prog.runs_step.mp h₁
  obtain ⟨-, tr, rfl, h₃⟩ := Prog.runs_step.mp h₂
  obtain ⟨tr₁, tr₂, r, rfl, -, h₄⟩ := Prog.runs_bind.mp h₃
  obtain ⟨-, tr, rfl, rfl, hret⟩ := h₄
  obtain ⟨rfl, rfl⟩ := Prod.mk.inj (Option.some.inj hret)
  exact ⟨rfl, rfl⟩

/-- What has been done before does not matter to a way out, if it opens and closes nothing. -/
theorem Accepts.after {pre : List (Event Op Ans)} (hpre : fdEvents pre = []) (h : Accepts shake server tr server' ret) :
    Accepts shake server (pre ++ tr) server' ret := by
  have hfds : fdEvents (pre ++ tr) = fdEvents tr := by rw [fdEvents_append, hpre, List.nil_append]
  cases h with
  | unfilled h hret hserver => exact .unfilled (hfds.trans h) hret hserver
  | closed fp h hret hserver => exact .closed fp (hfds.trans h) hret hserver
  | late fp fd h hfreed hret hserver => exact .late fp fd (hfds.trans h) (List.mem_append_right _ hfreed) hret hserver
  | added n buffer before post htr hpost h hmode hwrite hmet =>
      obtain ⟨size, data, w, hmem, hw⟩ := hwrite
      refine .added n buffer (pre ++ before) post ?_ hpost ?_ hmode ⟨size, data, w, List.mem_append_right _ hmem, hw⟩ ⟨?_⟩
      · rw [htr, List.append_assoc]
      · rw [fdEvents_append, hpre, List.nil_append, h]
      · intro hcerts
        obtain ⟨size', trₕ, first, last, hruns, rfl⟩ := hmet.shaken hcerts
        exact ⟨size', trₕ, pre ++ first, last, hruns, by simp only [List.append_assoc]⟩

/-- From the exact way out to its kind. -/
theorem way_accepts (hshake : ∀ n size, Internal (shake n size)) {new_node : ssl_node}
    (hmode : new_node.mode = server.connectionMode) (h : judoAccept_.Way shake server new_node tr server' ret) :
    Accepts shake server tr server' ret := by
  cases h with
  | @unwritten buffer fp w hw => exact .closed fp rfl (by decide) rfl
  | @refused buffer fp w r hw hr => exact .closed fp rfl (by decide) rfl
  | @unshaken buffer fp w r out fd trₕ hw hr hcerts hhand hout =>
      -- whatever the handshake does, it neither opens nor closes a descriptor
      refine .late fp fd ?_ ?_ (.inl rfl) rfl
      · rw [fdEvents_append, fdEvents_append, fdEvents_of_internal (hshake _ _) hhand]
        rfl
      · refine List.mem_append_right _ (List.mem_append_right _ ?_)
        exact .tail _ (.tail _ (.tail _ (.tail _ (.head _))))
  | @shaken buffer fp w r trₕ tr server' ret hw hr hcerts hhand hgreet =>
      refine .added { new_node with fp := fp } buffer.1 (judoAccept_.asked server new_node buffer fp w r ++ trₕ) tr ?_ hgreet ?_
        hmode ?_ ⟨fun _ => ?_⟩
      · rw [List.append_assoc]
      · rw [fdEvents_append, fdEvents_of_internal (hshake _ _) hhand]
        rfl
      -- the mode byte is the write that got through
      · exact ⟨1, _, w, .tail _ (.tail _ (.tail _ (.head _))), hw⟩
      · exact ⟨server.m_buffer_size, trₕ, judoAccept_.asked server new_node buffer fp w r, [], hhand, (List.append_nil _).symm⟩
  | @plain buffer fp w r tr server' ret hw hr hcerts hgreet =>
      refine .added { new_node with fp := fp } buffer.1 (judoAccept_.asked server new_node buffer fp w r) tr rfl hgreet rfl
        hmode ?_ ⟨fun hc => absurd hc hcerts⟩
      exact ⟨1, _, w, .tail _ (.tail _ (.tail _ (.head _))), hw⟩

/-- Filling the TLS fields opens and closes no descriptor. -/
theorem fdEvents_acceptFill {node : ssl_node} {filled : ssl_node × ℤ} (h : Prog.Runs (judoAccept_.fill server node) tr filled) :
    fdEvents tr = [] := by
  have hinternal : Internal (judoAccept_.fill server node) := by
    unfold judoAccept_.fill
    split
    · exact internal_judoFillServerSSLFields_ ..
    · trivial
  exact fdEvents_of_internal hinternal h

/-- **`judoAccept_`** ends in one of these ways. -/
theorem runs_accepts (hshake : ∀ n size, Internal (shake n size))
    (h : Prog.Runs (judoAccept_ shake server) tr (some (server', ret))) : Accepts shake server tr server' ret := by
  cases judoAccept_.call h with
  | @unfilled node filled trᵢ hfill hret =>
      refine .unfilled ?_ hret rfl
      show fdEvents (trᵢ ++ _) = _
      rw [fdEvents_append, fdEvents_acceptFill hfill]
      rfl
  | @filled node filled trᵢ tr server' ret hfill hfilled hway =>
      have hquiet : fdEvents trᵢ = [] := fdEvents_acceptFill hfill
      exact Accepts.after (show fdEvents (⟨.new_ssl_node, node⟩ :: trᵢ) = [] from hquiet) (way_accepts hshake rfl hway)

/-- So it either adds the row of a socket that it has accepted and written to, or leaves
the object as it is. -/
theorem runs_judoAccept_table (hshake : ∀ n size, Internal (shake n size))
    (h : Prog.Runs (judoAccept_ shake server) tr (some (server', ret))) :
    (ret ≠ JUDO_SUCCESS ∧ server' = server)
      ∨ ret = JUDO_SUCCESS ∧ ∃ new_node : ssl_node,
        server' = { server with m_ssl_nodes := server.m_ssl_nodes.add ⟨new_node.fp, POLLIN, 0⟩ new_node }
          ∧ ⟨.accept server.m_server_list_sock, new_node.fp⟩ ∈ tr
          ∧ ∃ size data, ∃ w : ℤ, ⟨.write new_node.fp size data, w⟩ ∈ tr ∧ 0 < w := by
  cases runs_accepts hshake h with
  | unfilled hfds hret hserver => exact .inl ⟨hret, hserver⟩
  | closed fp hfds hret hserver => exact .inl ⟨hret, hserver⟩
  | late fp fd hfds hfreed hret hserver => exact .inl ⟨hret.ne_success, hserver⟩
  | added n buffer pre post htr hpost hfds hmode hwrite hmet =>
      obtain ⟨hserver, hret⟩ := runs_greet hpost
      obtain ⟨size, data, w, hmem, hw⟩ := hwrite
      -- the only descriptor that has come is the one of the new row
      have haccept : ⟨.accept server.m_server_list_sock, n.fp⟩ ∈ pre := by
        apply List.mem_of_mem_filter (p := fun ev => touchesFds ev.op)
        rw [show pre.filter (fun ev => touchesFds ev.op) = _ from hfds]
        exact List.mem_singleton_self _
      rw [htr]
      exact .inr ⟨hret, n, hserver, List.mem_append_left _ haccept, size, data, w, List.mem_append_left _ hmem, hw⟩

end Accept

/-! ## `judoConnect_`

The same four cases. In three steps here: what happens with a connected socket and an agreed
mode (`Joins`), before that the mode byte, and before that the files and the socket. -/

/-- How `judoConnect_` ends. -/
inductive Connects (shake : ssl_node → ℤ → Sys (Option ℤ)) (client : JudoServer) (t_mode : Byte) (tr : List (Event Op Ans))
    (client' : JudoServer) (ret : ℤ) : Prop where
  | unfilled (hfds : fdEvents tr = []) (hret : ret ≠ JUDO_SUCCESS) (hclient : client' = client)
  | closed (fp : ℤ) (hfds : fdEvents tr = [⟨.socket, fp⟩, ⟨.close fp, ()⟩]) (hret : ret ≠ JUDO_SUCCESS)
      (hclient : client' = client)
  | late (fp fd : ℤ) (hfds : fdEvents tr = [⟨.socket, fp⟩, ⟨.close fd, ()⟩]) (hfreed : ⟨.freed, fd⟩ ∈ tr)
      (hret : LateCode ret) (hclient : client' = client)
  | added (n : ssl_node) (buffer : ℕ × Buffer) (pre post : List (Event Op Ans)) (htr : tr = pre ++ post)
      (hpost : Prog.Runs (judoConnect_.hello client n buffer) post (some (client', ret)))
      (hfds : fdEvents pre = [⟨.socket, n.fp⟩])
      (hmode : n.mode &&& JUDO_CON_SERVER_CERTS = t_mode &&& JUDO_CON_SERVER_CERTS
        ∧ n.mode &&& JUDO_CON_CLIENT_CERTS = t_mode &&& JUDO_CON_CLIENT_CERTS)
      (hconnect : ∃ w : ℤ, ⟨.connect n.fp, w⟩ ∈ pre ∧ 0 ≤ w) (hmet : Met shake n pre)

section Connect

variable {shake : ssl_node → ℤ → Sys (Option ℤ)} {client client' : JudoServer} {t_mode : Byte} {tr : List (Event Op Ans)}
  {ret : ℤ}

/-- The same for the client. -/
theorem runs_hello {n : ssl_node} {buffer : ℕ × Buffer}
    (h : Prog.Runs (judoConnect_.hello client n buffer) tr (some (client', ret))) :
    client' = { client with m_ssl_nodes := client.m_ssl_nodes.add ⟨n.fp, POLLIN, 0⟩ n } ∧ ret = JUDO_SUCCESS := by
  unfold judoConnect_.hello at h
  obtain ⟨tr₁, tr₂, r, rfl, -, hrest⟩ := Prog.runs_bind.mp h
  obtain ⟨-, tr, rfl, rfl, hret⟩ := hrest
  obtain ⟨rfl, rfl⟩ := Prod.mk.inj (Option.some.inj hret)
  exact ⟨rfl, rfl⟩

/-- The ways out of `judoConnect_` once the socket is connected. -/
inductive Joins (shake : ssl_node → ℤ → Sys (Option ℤ)) (client : JudoServer) (n : ssl_node) (tr : List (Event Op Ans))
    (client' : JudoServer) (ret : ℤ) : Prop where
  | closed (hfds : fdEvents tr = [⟨.close n.fp, ()⟩]) (hret : ret ≠ JUDO_SUCCESS) (hclient : client' = client)
  | late (fd : ℤ) (hfds : fdEvents tr = [⟨.close fd, ()⟩]) (hfreed : ⟨.freed, fd⟩ ∈ tr) (hret : LateCode ret)
      (hclient : client' = client)
  | added (buffer : ℕ × Buffer) (pre post : List (Event Op Ans)) (htr : tr = pre ++ post)
      (hpost : Prog.Runs (judoConnect_.hello client n buffer) post (some (client', ret))) (hfds : fdEvents pre = [])
      (hmet : Met shake n pre)

/-- After the mode byte: the handshake fails, or the row is added, with or without a
handshake. -/
theorem join_joins (hshake : ∀ n size, Internal (shake n size)) {n : ssl_node} {buffer : ℕ}
    (h : judoConnect_.JoinWay shake client n buffer tr client' ret) : Joins shake client n tr client' ret := by
  cases h with
  | @unshaken size out fd buf trₕ hsize hcerts hhand hout =>
      refine .late fd ?_ ?_ (.inl rfl) rfl
      · show fdEvents (trₕ ++ _) = _
        rw [fdEvents_append, fdEvents_of_internal (hshake _ _) hhand]
        rfl
      · refine .tail _ (.tail _ (List.mem_append_right _ ?_))
        exact .tail _ (.tail _ (.tail _ (.tail _ (.head _))))
  | @shaken size buf r c trₕ tr client' ret hsize hcerts hhand hhello =>
      refine .added _ (⟨.delete_char buffer, ()⟩ :: ⟨.new_char size, buf⟩ :: (trₕ ++ [⟨.read n.fp size, r⟩,
        ⟨.BIO_write n.read_bio (bytesRead r) (r.getD []), ()⟩, ⟨.SSL_read n.ssl size, c⟩])) tr ?_ hhello ?_ ⟨fun _ => ?_⟩
      · simp only [List.cons_append, List.append_assoc, List.nil_append]
      · show fdEvents (trₕ ++ _) = _
        rw [fdEvents_append, fdEvents_of_internal (hshake _ _) hhand]
        rfl
      · exact ⟨size, trₕ, _ :: _ :: [], _, hhand, rfl⟩
  | @plain size buf tr client' ret hsize hcerts hhello =>
      exact .added buf [⟨.delete_char buffer, ()⟩, ⟨.new_char size, buf⟩] tr rfl hhello rfl ⟨fun hc => absurd hc hcerts⟩

/-- As for `Accepts`. -/
theorem Joins.after {n : ssl_node} {pre : List (Event Op Ans)} (hpre : fdEvents pre = [])
    (h : Joins shake client n tr client' ret) : Joins shake client n (pre ++ tr) client' ret := by
  have hfds : fdEvents (pre ++ tr) = fdEvents tr := by rw [fdEvents_append, hpre, List.nil_append]
  cases h with
  | closed h hret hclient => exact .closed (hfds.trans h) hret hclient
  | late fd h hfreed hret hclient => exact .late fd (hfds.trans h) (List.mem_append_right _ hfreed) hret hclient
  | added buffer before post htr hpost h hmet =>
      refine .added buffer (pre ++ before) post ?_ hpost ?_ ⟨fun hcerts => ?_⟩
      · rw [htr, List.append_assoc]
      · rw [fdEvents_append, hpre, h]
        rfl
      · obtain ⟨size, trₕ, first, last, hruns, rfl⟩ := hmet.shaken hcerts
        exact ⟨size, trₕ, pre ++ first, last, hruns, by simp only [List.append_assoc]⟩

/-- What `judoConnect_` does once the socket is connected. -/
theorem way_joins (hshake : ∀ n size, Internal (shake n size)) {n : ssl_node}
    (h : judoConnect_.Way shake client n t_mode tr client' ret) :
    ∃ mode : Byte, (ret = JUDO_SUCCESS → SameCerts mode t_mode) ∧ Joins shake client { n with mode := mode } tr client' ret := by
  cases h with
  | @unanswered buffer r fd hr =>
      refine ⟨n.mode, fun hret => absurd hret (by decide), .late fd rfl ?_ (.inr rfl) rfl⟩
      exact .tail _ (.tail _ (.tail _ (.tail _ (.tail _ (.tail _ (.head _))))))
  | refused hbits hout => exact ⟨n.mode, fun hret => absurd hret hout, .closed rfl hout rfl⟩
  | @answered buffer b l w tr client' ret hbits hjoin =>
      have hquiet : fdEvents [⟨.new_char 1, buffer⟩, ⟨.read n.fp 1, some (b :: l)⟩, ⟨.write n.fp 1 [b], w⟩,
          ⟨.log "Connection to /%a was Successful" 1, ()⟩] = [] := rfl
      exact ⟨b, fun _ => hbits, (join_joins hshake hjoin).after hquiet⟩

/-- Filling the TLS fields opens and closes no descriptor. -/
theorem fdEvents_connectFill {n : ssl_node} {t_cert t_key : Option String} {filled : ssl_node × ℤ}
    (h : Prog.Runs (judoConnect_.fill n t_cert t_key) tr filled) : fdEvents tr = [] := by
  have hinternal : Internal (judoConnect_.fill n t_cert t_key) := by
    unfold judoConnect_.fill
    split
    · exact internal_judoFillClientSSLFields_ ..
    · trivial
  exact fdEvents_of_internal hinternal h

/-- **`judoConnect_`** ends in one of these ways. -/
theorem runs_connects (hshake : ∀ n size, Internal (shake n size)) {t_cert t_key : Option String}
    (h : Prog.Runs (judoConnect_ shake client t_cert t_key t_mode) tr (some (client', ret))) :
    Connects shake client t_mode tr client' ret := by
  -- up to the socket nothing happens to a descriptor
  have hbefore : ∀ {node : ssl_node} {filled : ssl_node × ℤ} {trᵢ : List (Event Op Ans)},
      Prog.Runs (judoConnect_.fill { node with mode := t_mode } t_cert t_key) trᵢ filled →
      ∀ tr, fdEvents (⟨.new_ssl_node, node⟩ :: (trᵢ ++ tr)) = fdEvents tr := by
    intro node filled trᵢ hfill tr
    show fdEvents (trᵢ ++ tr) = _
    rw [fdEvents_append, fdEvents_connectFill hfill, List.nil_append]
  cases judoConnect_.call h with
  | missing hmissing => exact .unfilled rfl (by decide) rfl
  | @unfilled node filled trᵢ hcheck hfill hret =>
      have hquiet : fdEvents trᵢ = [] := fdEvents_connectFill hfill
      exact .unfilled hquiet hret rfl
  | @unconnected node filled fp w trᵢ hcheck hfill hfilled hw => exact .closed fp (hbefore hfill _) (by decide) rfl
  | @connected node filled fp w trᵢ tr client' ret hcheck hfill hfilled hw hway =>
      obtain ⟨mode, hmode, hjoins⟩ := way_joins hshake hway
      cases hjoins with
      | closed hfds hret hclient =>
          refine .closed fp ((hbefore hfill _).trans ?_) hret hclient
          show _ :: fdEvents tr = _
          rw [hfds]
      | late fd hfds hfreed hret hclient =>
          refine .late fp fd ((hbefore hfill _).trans ?_) ?_ hret hclient
          · show _ :: fdEvents tr = _
            rw [hfds]
          · exact .tail _ (List.mem_append_right _ (.tail _ (.tail _ (.tail _ (.tail _ hfreed)))))
      | added buffer pre post htr hpost hfds hmet =>
          have hret := (runs_hello hpost).2
          refine .added _ buffer (⟨.new_ssl_node, node⟩ :: (trᵢ ++ ⟨.log "Attempting to connect to /%a" 1, ()⟩ :: ⟨.socket, fp⟩
            :: ⟨.setsockopt fp, ()⟩ :: ⟨.connect fp, w⟩ :: pre)) post ?_ hpost ((hbefore hfill _).trans ?_) (hmode hret) ?_
            ⟨fun hcerts => ?_⟩
          · rw [htr]
            simp only [List.cons_append, List.append_assoc]
          · show _ :: fdEvents pre = _
            rw [hfds]
          · exact ⟨w, .tail _ (List.mem_append_right _ (.tail _ (.tail _ (.tail _ (.head _))))), hw⟩
          · obtain ⟨size, trₕ, first, last, hruns, rfl⟩ := hmet.shaken hcerts
            refine ⟨size, trₕ, ⟨.new_ssl_node, node⟩ :: (trᵢ ++ ⟨.log "Attempting to connect to /%a" 1, ()⟩ :: ⟨.socket, fp⟩
              :: ⟨.setsockopt fp, ()⟩ :: ⟨.connect fp, w⟩ :: first), last, hruns, ?_⟩
            simp only [List.cons_append, List.append_assoc]

end Connect

/-! ## `judoRead_`

It has two ways out only, and no way to open anything. The rounds that go on are internal, so
one induction on them is enough. -/

/-- **`judoRead_`** closes the node's descriptor and takes the row out, or does neither. -/
theorem runs_reads {fuel : ℕ} {server server' : JudoServer} {t_node : ssl_node} {t_poll : pollfd}
    {t_out_buf t_out_buf' : ℕ} {tr : List (Event Op Ans)} {ret size : ℤ}
    (h : Prog.Runs (judoRead_ fuel server t_node t_poll t_out_buf) tr (some (server', ret, t_out_buf', size))) :
    (ret = 0 ∧ server' = server ∧ fdEvents tr = [])
      ∨ ret = -1 ∧ server' = { server with m_ssl_nodes := server.m_ssl_nodes.remove compare_pollfd t_poll }
        ∧ fdEvents tr = [⟨.close t_node.fp, ()⟩] := by
  have hloop : ∀ (buffer : ℕ) (packet_buf_size : ℤ) (fuel : ℕ) (p : Buffer) (out : ℕ) (index size₀ : ℤ)
      (tr : List (Event Op Ans)),
      Prog.Runs (judoRead_.loop server t_node t_poll buffer packet_buf_size fuel p out index size₀) tr
          (some (server', ret, t_out_buf', size)) →
        (ret = 0 ∧ server' = server ∧ fdEvents tr = [])
          ∨ ret = -1 ∧ server' = { server with m_ssl_nodes := server.m_ssl_nodes.remove compare_pollfd t_poll }
            ∧ fdEvents tr = [⟨.close t_node.fp, ()⟩] := by
    intro buffer packet_buf_size fuel
    induction fuel with
    | zero => exact fun _ _ _ _ _ hruns => absurd hruns.2 (Option.some_ne_none _).symm
    | succ fuel ih =>
        intro p out index size₀ tr hruns
        unfold judoRead_.loop at hruns
        obtain ⟨r, tr, rfl, h₁⟩ := Prog.runs_step.mp hruns
        split at h₁
        -- nothing has come: the log, the close, the three operations of `dstr_ssl_node`, the mutex
        · obtain ⟨-, tr, rfl, -, tr, rfl, -, tr, rfl, -, tr, rfl, -, tr, rfl, -, tr, rfl, rfl, hret⟩ := h₁
          obtain ⟨rfl, hpair⟩ := Prod.mk.inj (Option.some.inj hret)
          obtain ⟨rfl, -⟩ := Prod.mk.inj hpair
          exact .inr ⟨rfl, rfl, rfl⟩
        obtain ⟨tr₁, tr₂, p', rfl, hunseal, h₂⟩ := Prog.runs_bind.mp h₁
        dsimp only at h₂
        generalize p'.int32 0 = a at h₂
        generalize p'.int32 4 = b at h₂
        obtain ⟨tr₃, tr₄, reserved, rfl, hreserve, h₃⟩ := Prog.runs_bind.mp h₂
        split at h₃
        · exact absurd h₃.2 (Option.some_ne_none _).symm
        obtain ⟨tr₅, tr₆, u, rfl, hcopy, h₄⟩ := Prog.runs_bind.mp h₃
        -- a round that goes on leaves the descriptors alone
        have hround : fdEvents (⟨.read t_node.fp packet_buf_size, r⟩ :: (tr₁ ++ (tr₃ ++ (tr₅ ++ tr₆)))) = fdEvents tr₆ := by
          show fdEvents (tr₁ ++ (tr₃ ++ (tr₅ ++ tr₆))) = _
          rw [fdEvents_append, fdEvents_append, fdEvents_append, fdEvents_of_internal (internal_unseal ..) hunseal,
            fdEvents_of_internal (internal_reserve ..) hreserve, fdEvents_of_internal (internal_copy ..) hcopy]
          rfl
        rw [hround]
        split at h₄
        · exact ih _ _ _ _ _ h₄
        · obtain ⟨-, tr, rfl, -, tr, rfl, rfl, hret⟩ := h₄
          obtain ⟨rfl, hpair⟩ := Prod.mk.inj (Option.some.inj hret)
          obtain ⟨rfl, -⟩ := Prod.mk.inj hpair
          exact .inl ⟨rfl, rfl, rfl⟩
  obtain ⟨-, tr, rfl, h₁⟩ := Prog.runs_step.mp h
  obtain ⟨index, tr, rfl, h₂⟩ := Prog.runs_step.mp h₁
  obtain ⟨buffer, tr, rfl, h₃⟩ := Prog.runs_step.mp h₂
  have hread := hloop _ _ _ _ _ _ _ _ h₃
  exact hread

end JudoEngine
