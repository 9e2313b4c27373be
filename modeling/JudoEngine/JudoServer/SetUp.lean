/-
Whether a set-up that does not succeed leaves the server as it was.

`judoMakeServerSock_` does not look at what `socket`, `bind` and `listen` return, and adds
its row whatever they do. `judoSetUpServerSockSSL` looks at what becomes of the two files,
and only then: the names are stored and the context is made before they are tried. What
the other calls of OpenSSL return it does not look at either.
-/
import JudoEngine.JudoServer.Life

set_option autoImplicit false

open Words

namespace JudoEngine

/-! ## What the calls return

`Worked` is what a caller would have to ask for, call by call; the source asks for it in two
places only. A record is searched for a refused file with `FileRefused`, which the lemmas
below take apart. -/

/-- The call of the system, or of OpenSSL, has done what it is there for. -/
def Worked : Event Op Ans → Prop
  | ⟨.socket, fd⟩ => 0 ≤ (fd : ℤ)
  | ⟨.bind _, ret⟩ => (ret : ℤ) = 0
  | ⟨.listen _, ret⟩ => (ret : ℤ) = 0
  | ⟨.SSL_CTX_new _, ctx⟩ => (ctx : ℕ) ≠ 0
  | ⟨.SSL_CTX_use_certificate_file _ _, ret⟩ => 0 < (ret : ℤ)
  | ⟨.SSL_CTX_use_PrivateKey_file _ _, ret⟩ => 0 < (ret : ℤ)
  | ⟨.SSL_new _, ssl⟩ => (ssl : ℕ) ≠ 0
  | ⟨.BIO_new, bio⟩ => (bio : ℕ) ≠ 0
  | _ => True

/-- A file has been refused. -/
def Refuses : Event Op Ans → Prop
  | ⟨.SSL_CTX_use_certificate_file _ _, ret⟩ => (ret : ℤ) ≤ 0
  | ⟨.SSL_CTX_use_PrivateKey_file _ _, ret⟩ => (ret : ℤ) ≤ 0
  | _ => False

/-- What makes an object of OpenSSL that a node holds. -/
def makesTls : Op → Bool
  | .SSL_CTX_new _ | .SSL_new _ => true
  | _ => false

/-- The objects made. -/
def tlsEvents (tr : List (Event Op Ans)) : List (Event Op Ans) := tr.filter fun ev => makesTls ev.op

/-- In this record a file has been refused. -/
def FileRefused (tr : List (Event Op Ans)) : Prop := ∃ ev ∈ tr, Refuses ev

/-- A refusal is not what the call is there for. -/
theorem Refuses.not_worked {ev : Event Op Ans} (h : Refuses ev) : ¬ Worked ev := by
  obtain ⟨o, x⟩ := ev
  cases o <;> first | exact not_lt.mpr h | exact h.elim

/-- The objects of two records. -/
theorem tlsEvents_append (tr tr' : List (Event Op Ans)) : tlsEvents (tr ++ tr') = tlsEvents tr ++ tlsEvents tr' :=
  List.filter_append ..

/-- What has been made is in the record, ... -/
theorem mem_of_mem_tlsEvents {ev : Event Op Ans} {tr : List (Event Op Ans)} (h : ev ∈ tlsEvents tr) : ev ∈ tr :=
  List.mem_of_mem_filter h

/-- ... and what is in the record has been made. -/
theorem mem_tlsEvents {ev : Event Op Ans} {tr : List (Event Op Ans)} (h : ev ∈ tr) (hev : makesTls ev.op = true) :
    ev ∈ tlsEvents tr := List.mem_filter.mpr ⟨h, hev⟩

@[simp] theorem fileRefused_nil : ¬ FileRefused [] := by
  rintro ⟨ev, hev, -⟩
  exact absurd hev List.not_mem_nil

@[simp] theorem fileRefused_cons (ev : Event Op Ans) (tr : List (Event Op Ans)) :
    FileRefused (ev :: tr) ↔ Refuses ev ∨ FileRefused tr := by
  simp [FileRefused]

@[simp] theorem fileRefused_append (tr tr' : List (Event Op Ans)) :
    FileRefused (tr ++ tr') ↔ FileRefused tr ∨ FileRefused tr' := by
  simp [FileRefused, or_and_right, exists_or]

/-! ## The TLS fields of a node

What filling a node comes to, with the objects that have been made for it. The order of the
source shows in the first case: the context is in the node before a file is looked at. -/

/-- How filling the fields of a node ends: a file is refused when there is only a context,
or all fields are set. -/
inductive Fills (server_method : Bool) (node : ssl_node) (tr : List (Event Op Ans)) : ssl_node × ℤ → Prop where
  | refused (ctx : ℕ) (ret : ℤ) (hret : ret ≠ JUDO_SUCCESS) (hfile : FileRefused tr)
      (hmade : tlsEvents tr = [⟨.SSL_CTX_new server_method, ctx⟩]) :
      Fills server_method node tr ({ node with ssl_ctx := ctx }, ret)
  | filled (ctx ssl read_bio write_bio : ℕ) (hfile : ¬ FileRefused tr)
      (hmade : tlsEvents tr = [⟨.SSL_CTX_new server_method, ctx⟩, ⟨.SSL_new ctx, ssl⟩]) :
      Fills server_method node tr
        ({ node with ssl_ctx := ctx, ssl := ssl, read_bio := read_bio, write_bio := write_bio }, JUDO_SUCCESS)

section Fill

variable {tr : List (Event Op Ans)}

/-- A file is tried, and a refusal is what makes for the failure code. -/
theorem runs_useFile {use : String → Sys ℤ} {failure : ℤ} {file : Option String} (hfailure : failure ≠ JUDO_SUCCESS)
    (huse : ∀ name tr ret, Prog.Runs (use name) tr ret → tlsEvents tr = [] ∧ (FileRefused tr ↔ ret ≤ 0)) {ret : ℤ}
    (h : Prog.Runs (useFile use failure file) tr ret) : tlsEvents tr = [] ∧ (FileRefused tr ↔ ret ≠ JUDO_SUCCESS) := by
  cases file with
  | none =>
      obtain ⟨rfl, rfl⟩ := h
      exact ⟨rfl, iff_of_false fileRefused_nil (not_not.mpr rfl)⟩
  | some name =>
      obtain ⟨tr₁, tr₂, r, rfl, hruns, hrest⟩ := Prog.runs_bind.mp h
      obtain ⟨hmade, hfile⟩ := huse name tr₁ r hruns
      rw [tlsEvents_append, hmade, fileRefused_append, hfile]
      split at hrest
      · next hr =>
          obtain ⟨-, tr₃, rfl, rfl, rfl⟩ := hrest
          exact ⟨rfl, iff_of_true (.inl hr) hfailure⟩
      · next hr =>
          obtain ⟨rfl, rfl⟩ := hrest
          exact ⟨rfl, iff_of_false (not_or.mpr ⟨hr, fileRefused_nil⟩) (not_not.mpr rfl)⟩

/-- The certificate, the key, and then the fields; each refusal ends it. -/
theorem runs_judoFillGeneralSSLFields_ {t_ssl_node : ssl_node} {t_cert t_key : Option String} {server_method : Bool}
    {filled : ssl_node × ℤ} (h : Prog.Runs (judoFillGeneralSSLFields_ t_ssl_node t_cert t_key server_method) tr filled) :
    Fills server_method t_ssl_node tr filled := by
  unfold judoFillGeneralSSLFields_ at h
  obtain ⟨ctx, tr, rfl, h₁⟩ := Prog.runs_step.mp h
  obtain ⟨tr₁, tr₂, r₁, rfl, hcert, h₂⟩ := Prog.runs_bind.mp h₁
  obtain ⟨hmade₁, hfile₁⟩ := runs_useFile (by decide) (fun name tr ret huse => by
    obtain ⟨x, tr', rfl, rfl, rfl⟩ := huse
    exact ⟨rfl, by simp [Refuses]⟩) hcert
  have hfile : ∀ tr, FileRefused (⟨.SSL_CTX_new server_method, ctx⟩ :: tr) ↔ FileRefused tr := by
    intro tr
    rw [fileRefused_cons]
    exact or_iff_right id
  have hmade : ∀ tr, tlsEvents (⟨.SSL_CTX_new server_method, ctx⟩ :: tr) = ⟨.SSL_CTX_new server_method, ctx⟩ :: tlsEvents tr :=
    fun tr => rfl
  -- a file that is refused ends it there; with both accepted the BIOs are made and cannot fail
  split at h₂
  · next hr₁ =>
      obtain ⟨rfl, rfl⟩ := h₂
      refine .refused ctx r₁ hr₁ ?_ ?_
      · rw [hfile, List.append_nil]
        exact hfile₁.mpr hr₁
      · rw [hmade, List.append_nil, hmade₁]
  next hr₁ =>
  obtain ⟨tr₃, tr₄, r₂, rfl, hkey, h₃⟩ := Prog.runs_bind.mp h₂
  obtain ⟨hmade₂, hfile₂⟩ := runs_useFile (by decide) (fun name tr ret huse => by
    obtain ⟨x, tr', rfl, rfl, rfl⟩ := huse
    exact ⟨rfl, by simp [Refuses]⟩) hkey
  split at h₃
  · next hr₂ =>
      obtain ⟨rfl, rfl⟩ := h₃
      refine .refused ctx r₂ hr₂ ?_ ?_
      · rw [hfile, List.append_nil, fileRefused_append]
        exact .inr (hfile₂.mpr hr₂)
      · rw [hmade, List.append_nil, tlsEvents_append, hmade₁, hmade₂]
        rfl
  · next hr₂ =>
      obtain ⟨ssl, tr₅, rfl, read_bio, tr₆, rfl, write_bio, tr₇, rfl, -, tr₈, rfl, rfl, rfl⟩ := h₃
      refine .filled ctx ssl read_bio write_bio ?_ ?_
      · rw [hfile, fileRefused_append, fileRefused_append, hfile₁, hfile₂]
        rintro (hne | hne | hrest)
        · exact hr₁ hne
        · exact hr₂ hne
        · simp [Refuses] at hrest
      · rw [hmade, tlsEvents_append, tlsEvents_append, hmade₁, hmade₂]
        rfl

/-- What neither makes an object nor tries a file does not matter. -/
theorem Fills.snoc {server_method : Bool} {node : ssl_node} {filled : ssl_node × ℤ} (h : Fills server_method node tr filled)
    {o : Op} {x : Ans o} (hfile : ¬ Refuses ⟨o, x⟩) (hmade : tlsEvents [⟨o, x⟩] = []) :
    Fills server_method node (tr ++ [⟨o, x⟩]) filled := by
  have hrefused : FileRefused (tr ++ [⟨o, x⟩]) ↔ FileRefused tr := by
    rw [fileRefused_append, fileRefused_cons]
    exact or_iff_left (not_or.mpr ⟨hfile, fileRefused_nil⟩)
  have hsame : tlsEvents (tr ++ [⟨o, x⟩]) = tlsEvents tr := by rw [tlsEvents_append, hmade, List.append_nil]
  cases h with
  | refused ctx ret hret hfile hmade => exact .refused ctx ret hret (hrefused.mpr hfile) (hsame.trans hmade)
  | filled ctx ssl read_bio write_bio hfile hmade =>
      exact .filled ctx ssl read_bio write_bio (mt hrefused.mp hfile) (hsame.trans hmade)

/-- The server's half sets a state only behind the test. -/
theorem runs_judoFillServerSSLFields_ {server : JudoServer} {t_node : ssl_node} {filled : ssl_node × ℤ}
    (h : Prog.Runs (judoFillServerSSLFields_ server t_node) tr filled) : Fills true t_node tr filled := by
  obtain ⟨tr₁, tr₂, filled', rfl, hfill, hrest⟩ := Prog.runs_bind.mp h
  have hfills := runs_judoFillGeneralSSLFields_ hfill
  split at hrest
  · obtain ⟨rfl, rfl⟩ := hrest
    rwa [List.append_nil]
  · next hret =>
      obtain ⟨-, tr₃, rfl, rfl, rfl⟩ := hrest
      have hpair : (filled'.1, JUDO_SUCCESS) = filled' := Prod.ext rfl (not_not.mp hret).symm
      rw [hpair]
      exact hfills.snoc id rfl

/-- The client's half does so before. -/
theorem runs_judoFillClientSSLFields_ {t_node : ssl_node} {t_cert t_key : Option String} {filled : ssl_node × ℤ}
    (h : Prog.Runs (judoFillClientSSLFields_ t_node t_cert t_key) tr filled) : Fills false t_node tr filled := by
  obtain ⟨tr₁, tr₂, filled', rfl, hfill, -, tr₃, rfl, rfl, rfl⟩ := Prog.runs_bind.mp h
  have hfills := runs_judoFillGeneralSSLFields_ hfill
  exact hfills.snoc id rfl

end Fill

/-! ## All or nothing

A failure that leaves the server as it was can be tried again. For each of the two calls the
outcomes are split by what the source tests, and in each part one side is trivial. -/

/-- A call that does not succeed returns an error, and leaves the server as it was: so no
later call can tell that it has been made. -/
def AllOrNothing (succeeds : Prop) (server server' : JudoServer) (ret : ℤ) : Prop :=
  ¬ succeeds → ret ≠ JUDO_SUCCESS ∧ server' = server

/-- There is an address, and `socket`, `bind` and `listen` have worked. -/
def SockMade (server : JudoServer) (tr : List (Event Op Ans)) : Prop := server.m_list_sock_addr ≠ ⟨0, 0⟩ ∧ ∀ ev ∈ tr, Worked ev

/-- The calls of OpenSSL have worked. -/
def SSLSetUp (tr : List (Event Op Ans)) : Prop := ∀ ev ∈ tr, Worked ev

section SetUps

variable {server server' : JudoServer} {tr : List (Event Op Ans)} {ret : ℤ}

/-- A call that returns `JUDO_SUCCESS` must have been one. -/
theorem allOrNothing_success {succeeds : Prop} : AllOrNothing succeeds server server' JUDO_SUCCESS ↔ succeeds := by
  constructor
  · intro h
    by_contra hnot
    exact (h hnot).1 rfl
  · exact fun h hnot => absurd h hnot

/-- With an address the call returns `JUDO_SUCCESS` whatever the system says, so all must
have worked. -/
theorem makeServerSock_iff (h : Prog.Runs (judoMakeServerSock_ server) tr (server', ret)) :
    AllOrNothing (SockMade server tr) server server' ret ↔ server.m_list_sock_addr = ⟨0, 0⟩ ∨ ∀ ev ∈ tr, Worked ev := by
  rcases runs_judoMakeServerSock_ h with ⟨haddr, rfl, rfl, -⟩ | ⟨haddr, rfl, -⟩
  · exact iff_of_true (fun _ => ⟨by decide, rfl⟩) (.inl haddr)
  · rw [allOrNothing_success, SockMade, and_iff_right haddr, or_iff_right haddr]

/-- A refused file is a failure that leaves something behind, unless the same was there
before. -/
theorem setUpServerSockSSL_iff {t_cert t_private_key : Option String}
    (h : Prog.Runs (judoSetUpServerSockSSL server t_cert t_private_key) tr (server', ret)) :
    AllOrNothing (SSLSetUp tr) server server' ret ↔ SSLSetUp tr
      ∨ FileRefused tr ∧ server.m_server_cert_file = t_cert ∧ server.m_server_private_key_file = t_private_key
        ∧ ⟨.SSL_CTX_new true, server.m_server_list_sock_node.ssl_ctx⟩ ∈ tr := by
  obtain ⟨tr₁, tr₂, filled, rfl, hfill, hrest⟩ := Prog.runs_bind.mp h
  cases runs_judoFillServerSSLFields_ hfill with
  | refused ctx ret' hret hfile hmade =>
      -- the names are stored, and the context is in the listening node
      rw [if_pos hret] at hrest
      obtain ⟨-, tr, rfl, rfl, hpair⟩ := hrest
      obtain ⟨rfl, rfl⟩ := Prod.mk.inj hpair
      obtain ⟨ev, hev, hrefuses⟩ := hfile
      have hnot : ¬ SSLSetUp (tr₁ ++ [⟨.log "FAILED to set up Server SSL" 0, ()⟩]) :=
        fun hall => hrefuses.not_worked (hall ev (List.mem_append_left _ hev))
      have hrefused : FileRefused (tr₁ ++ [⟨.log "FAILED to set up Server SSL" 0, ()⟩]) :=
        ⟨ev, List.mem_append_left _ hev, hrefuses⟩
      -- and it is the only one that has been made
      have hcontext : ∀ c : ℕ, ⟨.SSL_CTX_new true, c⟩ ∈ tr₁ ++ [(⟨.log "FAILED to set up Server SSL" 0, ()⟩ : Event Op Ans)]
          ↔ c = ctx := by
        intro c
        have hmem : ⟨.SSL_CTX_new true, c⟩ ∈ tlsEvents tr₁ ↔ c = ctx := by
          rw [hmade]
          simp
        rw [← hmem, List.mem_append, List.mem_singleton, or_iff_left nofun]
        exact ⟨fun h => mem_tlsEvents h rfl, mem_of_mem_tlsEvents⟩
      rw [or_iff_right hnot, and_iff_right hrefused, hcontext]
      constructor
      -- left as it was: the names and the context were these
      · intro hnothing
        obtain ⟨-, hsame⟩ := hnothing hnot
        have hnode := congrArg (fun s => s.m_server_list_sock_node.ssl_ctx) hsame
        exact ⟨(congrArg JudoServer.m_server_cert_file hsame).symm, (congrArg JudoServer.m_server_private_key_file hsame).symm,
          hnode.symm⟩
      · rintro ⟨rfl, rfl, rfl⟩ _
        exact ⟨hret, rfl⟩
  | filled ctx ssl read_bio write_bio hfile hmade =>
      rw [if_neg (not_not.mpr rfl)] at hrest
      obtain ⟨-, tr, rfl, rfl, hpair⟩ := hrest
      obtain ⟨rfl, rfl⟩ := Prod.mk.inj hpair
      have hnot : ¬ FileRefused (tr₁ ++ [⟨.log "Server SSL set up successful" 0, ()⟩]) := by
        rw [fileRefused_append, fileRefused_cons]
        exact not_or.mpr ⟨hfile, not_or.mpr ⟨id, fileRefused_nil⟩⟩
      rw [allOrNothing_success]
      exact (or_iff_left fun hright => hnot hright.1).symm

/-- The damage: a certificate file that has been refused is what the next connections are
accepted with. -/
theorem accept_after_refused {file : String} {t_private_key : Option String}
    (h : Prog.Runs (judoSetUpServerSockSSL server (some file) t_private_key) tr (server', ret))
    (hret : ret ≠ JUDO_SUCCESS) (htls : server.m_mode &&& JUDO_MODE_SSL_ENABLED ≠ 0)
    {shake : ssl_node → ℤ → Sys (Option ℤ)} {tr' : List (Event Op Ans)} {out : Option (JudoServer × ℤ)}
    (haccept : Prog.Runs (judoAccept_ shake server') tr' out) :
    ∃ ctx ret', ⟨.SSL_CTX_use_certificate_file ctx file, ret'⟩ ∈ tr' := by
  obtain ⟨-, node, rfl⟩ := runs_judoSetUpServerSockSSL h
  rw [if_neg hret] at haccept
  obtain ⟨new_node, tr', rfl, h₁⟩ := Prog.runs_step.mp haccept
  obtain ⟨tr₁, tr₂, filled, rfl, hfill, -⟩ := Prog.runs_bind.mp h₁
  unfold judoAccept_.fill at hfill
  rw [if_pos htls] at hfill
  obtain ⟨tr₃, tr₄, filled', rfl, hgeneral, -⟩ := Prog.runs_bind.mp hfill
  obtain ⟨ctx, tr₃, rfl, h₂⟩ := Prog.runs_step.mp hgeneral
  obtain ⟨tr₅, tr₆, ret₁, rfl, hcert, -⟩ := Prog.runs_bind.mp h₂
  obtain ⟨ret', tr₇, rfl, -⟩ := Prog.runs_step.mp hcert
  exact ⟨ctx, ret', by simp⟩

end SetUps

/-- **Server set-up is all or nothing** just in these cases. For `judoMakeServerSock_`: the
address is empty, or every call works. For `judoSetUpServerSockSSL`: every call works; or a
file is refused, and the server already has these file names and its listening node this
context. -/
theorem allOrNothing_iff (server : JudoServer) :
    (∀ (tr : List (Event Op Ans)) (server' : JudoServer) (ret : ℤ), Prog.Runs (judoMakeServerSock_ server) tr (server', ret) →
      (AllOrNothing (SockMade server tr) server server' ret
        ↔ server.m_list_sock_addr = ⟨0, 0⟩ ∨ ∀ ev ∈ tr, Worked ev))
    ∧ ∀ (t_cert t_private_key : Option String) (tr : List (Event Op Ans)) (server' : JudoServer) (ret : ℤ),
        Prog.Runs (judoSetUpServerSockSSL server t_cert t_private_key) tr (server', ret) →
          (AllOrNothing (SSLSetUp tr) server server' ret ↔ (∀ ev ∈ tr, Worked ev)
            ∨ FileRefused tr ∧ server.m_server_cert_file = t_cert ∧ server.m_server_private_key_file = t_private_key
              ∧ ⟨.SSL_CTX_new true, server.m_server_list_sock_node.ssl_ctx⟩ ∈ tr) :=
  ⟨fun _ _ _ => makeServerSock_iff, fun _ _ _ _ _ => setUpServerSockSSL_iff⟩

/-- What the calls return, each kind the same each time. -/
structure Outcomes where
  socket : ℤ
  bind : ℤ
  listen : ℤ
  object : ℕ
  file : ℤ

/-- A system that answers so. -/
def Outcomes.answer (outcomes : Outcomes) : Unit → (o : Op) → Ans o × Unit
  | _, .socket => (outcomes.socket, ())
  | _, .bind _ => (outcomes.bind, ())
  | _, .listen _ => (outcomes.listen, ())
  | _, .SSL_CTX_new _ | _, .SSL_new _ | _, .BIO_new => (outcomes.object, ())
  | _, .SSL_CTX_use_certificate_file _ _ | _, .SSL_CTX_use_PrivateKey_file _ _ => (outcomes.file, ())
  | _, _ => (default, ())

/-- A server without an address, which has TLS. -/
def unaddressed : JudoServer := { JudoServer.init_ default with m_mode := JUDO_MODE_SSL_ENABLED }

/-- It has nowhere to listen at, and can have its files changed. -/
theorem allOrNothing_unaddressed :
    (∃ (tr : List (Event Op Ans)) (server' : JudoServer) (ret : ℤ), Prog.Runs (judoMakeServerSock_ unaddressed) tr (server', ret)
      ∧ ¬ SockMade unaddressed tr ∧ AllOrNothing (SockMade unaddressed tr) unaddressed server' ret)
    ∧ ∃ (tr : List (Event Op Ans)) (server' : JudoServer) (ret : ℤ),
        Prog.Runs (judoSetUpServerSockSSL unaddressed (some "cert.pem") (some "key.pem")) tr (server', ret)
          ∧ AllOrNothing (SSLSetUp tr) unaddressed server' ret := by
  have hmake := Prog.runs_exec (h := Outcomes.answer ⟨3, 0, 0, 1, 1⟩) (judoMakeServerSock_ unaddressed) ()
  have hsetUp := Prog.runs_exec (h := Outcomes.answer ⟨3, 0, 0, 1, 1⟩)
    (judoSetUpServerSockSSL unaddressed (some "cert.pem") (some "key.pem")) ()
  refine ⟨⟨_, _, _, hmake, fun hmade => hmade.1 rfl, ?_⟩, ⟨_, _, _, hsetUp, ?_⟩⟩
  · exact ((allOrNothing_iff unaddressed).1 _ _ _ hmake).mpr (.inl rfl)
  · refine ((allOrNothing_iff unaddressed).2 _ _ _ _ _ hsetUp).mpr (.inl ?_)
    simp [judoSetUpServerSockSSL, judoFillServerSSLFields_, judoFillGeneralSSLFields_, useFile, Outcomes.answer, Worked]

/-- The address is in use, and the files are refused. -/
theorem half_set_up : (¬ ∀ (server : JudoServer) (tr : List (Event Op Ans)) (server' : JudoServer) (ret : ℤ),
      Prog.Runs (judoMakeServerSock_ server) tr (server', ret) → AllOrNothing (SockMade server tr) server server' ret)
    ∧ ¬ ∀ (server : JudoServer) (t_cert t_private_key : Option String) (tr : List (Event Op Ans)) (server' : JudoServer) (ret : ℤ),
        Prog.Runs (judoSetUpServerSockSSL server t_cert t_private_key) tr (server', ret) →
          AllOrNothing (SSLSetUp tr) server server' ret := by
  constructor
  -- `bind` fails, and the call succeeds
  · intro hall
    have hruns := Prog.runs_exec (h := Outcomes.answer ⟨3, -1, -1, 1, 1⟩)
      (judoMakeServerSock_ { unaddressed with m_list_sock_addr := ⟨0x7F000001, 0x901F⟩ }) ()
    have hbind : ¬ Worked ⟨.bind 3, (-1 : ℤ)⟩ := show ¬ (-1 : ℤ) = 0 by decide
    have hnot := hall _ _ _ _ hruns fun hmade => hbind (hmade.2 _ (.tail _ (.tail _ (.head _))))
    exact hnot.1 rfl
  · intro hall
    have hruns := Prog.runs_exec (h := Outcomes.answer ⟨3, 0, 0, 1, 0⟩)
      (judoSetUpServerSockSSL unaddressed (some "cert.pem") (some "key.pem")) ()
    have hfile : ¬ Worked ⟨.SSL_CTX_use_certificate_file 1 "cert.pem", (0 : ℤ)⟩ := show ¬ (0 : ℤ) < 0 by decide
    have hnot := hall _ _ _ _ _ _ hruns fun hworked => hfile (hworked _ (.tail _ (.head _)))
    exact absurd (congrArg JudoServer.m_server_cert_file hnot.2) (Option.some_ne_none _)

end JudoEngine
