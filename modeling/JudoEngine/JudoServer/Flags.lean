/-
What the flags in `m_mode` say about the calls made.

Five calls have a part in them. Four do what their flag says, in whatever order they
come and whichever of them fail; the fifth, `judoMakeServerSock_`, adds its flag to a
local variable that is called `mode`, so `JUDO_MODE_SERVER_SOCK` is never set.
-/
import JudoEngine.JudoServer.Life

set_option autoImplicit false

open Words

namespace JudoEngine

/-- The flag of a server that listens. -/
def JUDO_MODE_SERVER_SOCK : BitVec 16 := 0x0001

/-! ## What the flags should say

No call lowers a flag, so the flags are read against the whole list of calls so far: TLS is
enabled when a set-up call has succeeded, a requirement is raised by its own call only, and
the flag of the listening socket should be up when the row of one was added. -/

/-- The calls that configure a server, and `run`. -/
def Configuring (call : ServerCall) (_ : JudoServer) : Prop :=
  match call with
  | .judoMakeServerSock_ | .judoSetUpServerSockSSL _ _ | .judoServerRequireCerts | .judoClientRequireCerts | .run => True
  | _ => False

/-- The call has added the row of a listening socket. -/
def Called.Listens (c : Called) : Prop :=
  c.call = .judoMakeServerSock_
    ∧ ∃ fd, c.after.m_ssl_nodes = c.before.m_ssl_nodes.add ⟨fd, POLLIN, 0⟩ c.before.m_server_list_sock_node

/-- The call has set up TLS. -/
def Called.SetsUp (c : Called) : Prop :=
  (∃ t_cert t_private_key, c.call = .judoSetUpServerSockSSL t_cert t_private_key) ∧ c.ret = JUDO_SUCCESS

/-- The call is the one that requires these certificates, and it has returned 0. -/
def Called.Requires (c : Called) (flag : BitVec 16) : Prop :=
  (c.call = .judoServerRequireCerts ∧ flag = JUDO_MODE_SERVER_CERTS_REQ
      ∨ c.call = .judoClientRequireCerts ∧ flag = JUDO_MODE_CLIENT_CERTS_REQ) ∧ c.ret = 0

/-- The flags of the two requirements. -/
def certFlags : List (BitVec 16) := [JUDO_MODE_SERVER_CERTS_REQ, JUDO_MODE_CLIENT_CERTS_REQ]

/-- The flags of TLS say what has been done. -/
structure TlsFlagsTrue (log : List Called) (server : JudoServer) : Prop where
  enabled : server.m_mode &&& JUDO_MODE_SSL_ENABLED ≠ 0 ↔ ∃ c ∈ log, c.SetsUp
  together : ∀ flag ∈ certFlags, server.m_mode &&& flag ≠ 0 → server.m_mode &&& JUDO_MODE_SSL_ENABLED ≠ 0
  returned : ∀ c ∈ log, ∀ flag ∈ certFlags, c.before.m_mode &&& flag = 0 → c.after.m_mode &&& flag ≠ 0 → c.Requires flag
  active : ∀ c ∈ log, c.before.m_active = true → ∀ flag ∈ certFlags, c.after.m_mode &&& flag = c.before.m_mode &&& flag

/-- And so does that of the listening socket. -/
structure FlagsTrue (log : List Called) (server : JudoServer) : Prop extends TlsFlagsTrue log server where
  listens : server.m_mode &&& JUDO_MODE_SERVER_SOCK ≠ 0 ↔ ∃ c ∈ log, c.Listens

/-! ## What a call does to them

judoSetUpServerSockSSL and the two calls that require certificates or flags into m_mode, while
judoMakeServerSock_ raises its flag in a local mode that is dropped. The flags in question
share no bit, so raising one leaves the others as they were. -/

/-- A flag that shares no bit with another leaves it as it was. -/
theorem or_flag_of_disjoint {mode flag other : BitVec 16} (h : flag &&& other = 0) : (mode ||| flag) &&& other = mode &&& other := by
  rw [BitVec.and_or_distrib_right, h]
  exact BitVec.or_zero

/-- A flag that is raised stays raised. -/
theorem or_flag_ne_zero {mode flag other : BitVec 16} (h : mode &&& other ≠ 0 ∨ flag &&& other ≠ 0) :
    (mode ||| flag) &&& other ≠ 0 := by
  rw [BitVec.and_or_distrib_right]
  intro hzero
  obtain ⟨hmode, hflag⟩ := BitVec.or_eq_zero_iff.mp hzero
  exact h.elim (fun hne => hne hmode) fun hne => hne hflag

theorem mem_certFlags {flag : BitVec 16} :
    flag ∈ certFlags ↔ flag = JUDO_MODE_SERVER_CERTS_REQ ∨ flag = JUDO_MODE_CLIENT_CERTS_REQ := by
  simp only [certFlags, List.mem_cons, List.not_mem_nil, or_false]

/-- The flags have a bit each. -/
theorem certFlags_disjoint {flag : BitVec 16} (h : flag ∈ certFlags) :
    flag &&& JUDO_MODE_SERVER_SOCK = 0 ∧ JUDO_MODE_SSL_ENABLED &&& flag = 0 ∧ flag &&& JUDO_MODE_SSL_ENABLED = 0
      ∧ ∀ other ∈ certFlags, other ≠ flag → flag &&& other = 0 := by
  rcases mem_certFlags.mp h with rfl | rfl
  · refine ⟨by decide, by decide, by decide, fun other hother hne => ?_⟩
    rcases mem_certFlags.mp hother with rfl | rfl
    · exact absurd rfl hne
    · decide
  · refine ⟨by decide, by decide, by decide, fun other hother hne => ?_⟩
    rcases mem_certFlags.mp hother with rfl | rfl
    · decide
    · exact absurd rfl hne

/-- What a call does to `m_mode`. -/
inductive FlagStep (c : Called) : Prop where
  | kept (hmode : c.after.m_mode = c.before.m_mode) (hcall : ¬ c.SetsUp)
  | enabled (hmode : c.after.m_mode = c.before.m_mode ||| JUDO_MODE_SSL_ENABLED) (hcall : c.SetsUp)
  | required (flag : BitVec 16) (hflag : flag ∈ certFlags) (hmode : c.after.m_mode = c.before.m_mode ||| flag)
      (hcall : c.Requires flag) (hssl : c.before.m_mode &&& JUDO_MODE_SSL_ENABLED ≠ 0) (hactive : c.before.m_active = false)

/-- Adding a row changes a table. -/
theorem add_ne (d : DualDynamicArray pollfd ssl_node) (t : pollfd) (n : ssl_node) : d ≠ d.add t n := by
  intro h
  have hsize := congrArg DualDynamicArray.m_size h
  simp only [DualDynamicArray.add, DualDynamicArray.grow] at hsize
  split at hsize
  · simp only [DualDynamicArray.realloc] at hsize
    omega
  · omega

/-- Every call of a life is one of these steps, and leaves the address as it was. It adds
the row of a listening socket exactly when it is judoMakeServerSock_ and there is an
address. -/
theorem flagStep_of_makes {server server' : JudoServer} {call : ServerCall} {tr : List (Event Op Ans)} {ret : ℤ}
    (hcond : Configuring call server) (hmakes : Makes server call tr server' ret) :
    FlagStep ⟨call, server, tr, server', ret⟩ ∧ server'.m_list_sock_addr = server.m_list_sock_addr
      ∧ (Called.Listens ⟨call, server, tr, server', ret⟩ ↔ call = .judoMakeServerSock_ ∧ server.m_list_sock_addr ≠ ⟨0, 0⟩) := by
  cases hmakes with
  | judoAccept_ => exact hcond.elim
  | judoConnect_ => exact hcond.elim
  | judoRead_ => exact hcond.elim
  | judoDisconnect_ => exact hcond.elim
  | judoMakeServerSock_ h =>
      -- the mode is as it was, with the row or without: the source sets the flag in a local variable
      have hcall : ¬ Called.SetsUp ⟨.judoMakeServerSock_, server, tr, server', ret⟩ :=
        fun ⟨⟨_, _, hne⟩, _⟩ => ServerCall.noConfusion hne
      rcases runs_judoMakeServerSock_ h with ⟨haddr, rfl, -, -⟩ | ⟨haddr, -, fd, -, rfl⟩
      · refine ⟨.kept rfl hcall, rfl, fun hlistens => ?_, fun hne => absurd haddr hne.2⟩
        obtain ⟨-, fd, hadd⟩ := hlistens
        exact (add_ne _ _ _ hadd).elim
      · exact ⟨.kept rfl hcall, rfl, fun _ => ⟨rfl, haddr⟩, fun _ => ⟨rfl, fd, rfl⟩⟩
  | @judoSetUpServerSockSSL t_cert t_private_key _ _ _ h =>
      obtain ⟨-, node, rfl⟩ := runs_judoSetUpServerSockSSL h
      refine ⟨?_, rfl, fun hlistens => ServerCall.noConfusion hlistens.1, fun hne => ServerCall.noConfusion hne.1⟩
      by_cases hret : ret = JUDO_SUCCESS
      · exact .enabled (if_pos hret) ⟨⟨_, _, rfl⟩, hret⟩
      · exact .kept (if_neg hret) fun hcall => hret hcall.2
  | judoServerRequireCerts h =>
      refine ⟨?_, ?_, fun hlistens => ServerCall.noConfusion hlistens.1, fun hne => ServerCall.noConfusion hne.1⟩
      · rcases (runs_requireCerts h).2 with ⟨hssl, hactive, rfl, rfl⟩ | ⟨-, rfl⟩
        · exact .required _ (by decide) rfl ⟨.inl ⟨rfl, rfl⟩, rfl⟩ hssl hactive
        · exact .kept rfl fun ⟨⟨_, _, hne⟩, _⟩ => ServerCall.noConfusion hne
      · rcases (runs_requireCerts h).2 with ⟨-, -, -, rfl⟩ | ⟨-, rfl⟩ <;> rfl
  | judoClientRequireCerts h =>
      refine ⟨?_, ?_, fun hlistens => ServerCall.noConfusion hlistens.1, fun hne => ServerCall.noConfusion hne.1⟩
      · rcases (runs_requireCerts h).2 with ⟨hssl, hactive, rfl, rfl⟩ | ⟨-, rfl⟩
        · exact .required _ (by decide) rfl ⟨.inr ⟨rfl, rfl⟩, rfl⟩ hssl hactive
        · exact .kept rfl fun ⟨⟨_, _, hne⟩, _⟩ => ServerCall.noConfusion hne
      · rcases (runs_requireCerts h).2 with ⟨-, -, -, rfl⟩ | ⟨-, rfl⟩ <;> rfl
  | run _ h hserver =>
      -- `run` only changes the table
      obtain ⟨d, rfl⟩ := h.sameButTable hserver
      refine ⟨.kept rfl fun ⟨⟨_, _, hne⟩, _⟩ => ServerCall.noConfusion hne, rfl, fun hlistens => ?_, fun hne => ?_⟩
      · exact ServerCall.noConfusion hlistens.1
      · exact ServerCall.noConfusion hne.1

/-! ## Whole lives

The flags of TLS say what has been done, and that of the listening socket is never up. A step
extends the list by its own call, so each clause is the old one with one more disjunct. -/

/-- What holds of the flags after any calls. -/
structure FlagsInv (log : List Called) (server : JudoServer) : Prop where
  tls : TlsFlagsTrue log server
  sock : server.m_mode &&& JUDO_MODE_SERVER_SOCK = 0

theorem exists_mem_snoc {log : List Called} {c : Called} {p : Called → Prop} :
    (∃ c' ∈ log ++ [c], p c') ↔ (∃ c' ∈ log, p c') ∨ p c := by
  simp only [List.mem_append, List.mem_singleton, or_and_right, exists_or, exists_eq_left]

theorem forall_mem_snoc {log : List Called} {c : Called} {p : Called → Prop} (h : ∀ c' ∈ log, p c') (hc : p c) :
    ∀ c' ∈ log ++ [c], p c' := List.forall_mem_append.mpr ⟨h, List.forall_mem_singleton.mpr hc⟩

/-- Both hold with no flag raised and no call made. -/
theorem flagsInv_init {server : JudoServer} (h : server.m_mode = 0) : FlagsInv [] server := by
  have hzero : ∀ flag, server.m_mode &&& flag = 0 := by
    intro flag
    rw [h]
    exact BitVec.zero_and
  refine ⟨⟨?_, ?_, fun _ hmem => absurd hmem List.not_mem_nil, fun _ hmem => absurd hmem List.not_mem_nil⟩, hzero _⟩
  · exact ⟨fun hset => absurd (hzero _) hset, fun ⟨_, hmem, _⟩ => absurd hmem List.not_mem_nil⟩
  · exact fun flag _ hset => absurd (hzero flag) hset

/-- A step keeps them: what it does to a flag is what its call adds to the list. -/
theorem FlagsInv.step {log : List Called} {c : Called} (h : FlagsInv log c.before) (hstep : FlagStep c) :
    FlagsInv (log ++ [c]) c.after := by
  obtain ⟨⟨hssl, htogether, hreturned, hactive⟩, hsock⟩ := h
  cases hstep with
  | kept hmode hcall =>
      refine ⟨⟨?_, ?_, forall_mem_snoc hreturned ?_, forall_mem_snoc hactive ?_⟩, hmode ▸ hsock⟩
      · rw [exists_mem_snoc, hmode, hssl, or_iff_left hcall]
      · rwa [hmode]
      · intro flag _ hzero hset
        rw [hmode] at hset
        exact absurd hzero hset
      · intro _ flag _
        rw [hmode]
  | enabled hmode hcall =>
      have hset : c.after.m_mode &&& JUDO_MODE_SSL_ENABLED ≠ 0 := by
        rw [hmode]
        exact or_flag_ne_zero (.inr (by decide))
      have hcerts : ∀ flag ∈ certFlags, c.after.m_mode &&& flag = c.before.m_mode &&& flag := by
        intro flag hflag
        rw [hmode, or_flag_of_disjoint (certFlags_disjoint hflag).2.1]
      refine ⟨⟨?_, fun _ _ _ => hset, forall_mem_snoc hreturned ?_, forall_mem_snoc hactive fun _ => hcerts⟩, ?_⟩
      · exact ⟨fun _ => exists_mem_snoc.mpr (.inr hcall), fun _ => hset⟩
      · intro flag hflag hzero hset
        rw [hcerts flag hflag] at hset
        exact absurd hzero hset
      · rw [hmode, or_flag_of_disjoint (by decide), hsock]
  | required flag hflag hmode hcall hon hinactive =>
      obtain ⟨hnosock, -, hnossl, hdisjoint⟩ := certFlags_disjoint hflag
      have hnotup : ¬ c.SetsUp := by
        rintro ⟨⟨t_cert, t_private_key, heq⟩, -⟩
        rcases hcall.1 with ⟨hserver, -⟩ | ⟨hclient, -⟩
        · exact ServerCall.noConfusion (heq.symm.trans hserver)
        · exact ServerCall.noConfusion (heq.symm.trans hclient)
      have hset : c.after.m_mode &&& JUDO_MODE_SSL_ENABLED ≠ 0 := by
        rw [hmode]
        exact or_flag_ne_zero (.inl hon)
      refine ⟨⟨?_, fun _ _ _ => hset, forall_mem_snoc hreturned ?_, forall_mem_snoc hactive ?_⟩, ?_⟩
      · rw [exists_mem_snoc, hmode, or_flag_of_disjoint hnossl, hssl, or_iff_left hnotup]
      · intro other hother hzero hset
        -- the only flag that the call has set is its own
        have hsame : other = flag := by
          by_contra hne
          rw [hmode, or_flag_of_disjoint (hdisjoint other hother hne)] at hset
          exact hset hzero
        rwa [hsame]
      · intro hrun
        exact absurd (hinactive.symm.trans hrun) Bool.false_ne_true
      · rw [hmode, or_flag_of_disjoint hnosock, hsock]

variable {t_addr : Option sockaddr_in} {log : List Called} {server : JudoServer}

/-- So they hold after every life. -/
theorem flagsInv_of_life (h : Life Configuring t_addr log server) : FlagsInv log server := by
  induction h with
  | new hruns =>
      obtain ⟨node, tr, rfl, -, tr, rfl, rfl, rfl⟩ := hruns
      exact flagsInv_init rfl
  | @newAt t_addr tr tr' server server' ret hruns hmakes =>
      obtain ⟨node, tr, rfl, -, tr, rfl, rfl, rfl⟩ := hruns
      have hstep := (flagStep_of_makes (show Configuring .judoMakeServerSock_ _ from trivial) hmakes).1
      exact FlagsInv.step (c := ⟨_, _, _, _, _⟩) (flagsInv_init rfl) hstep
  | call h hcond hmakes ih => exact FlagsInv.step (c := ⟨_, _, _, _, _⟩) ih (flagStep_of_makes hcond hmakes).1

/-- A listening socket has been added exactly when the constructor had an address to do it. -/
theorem listens_of_life (h : Life Configuring t_addr log server) :
    server.m_list_sock_addr = t_addr.getD ⟨0, 0⟩ ∧ ((∃ c ∈ log, c.Listens) ↔ t_addr.getD ⟨0, 0⟩ ≠ ⟨0, 0⟩) := by
  induction h with
  | new hruns =>
      obtain ⟨node, tr, rfl, -, tr, rfl, rfl, rfl⟩ := hruns
      exact ⟨rfl, fun ⟨_, hmem, _⟩ => absurd hmem List.not_mem_nil, fun hne => absurd rfl hne⟩
  | newAt hruns hmakes =>
      obtain ⟨-, haddr, hlistens⟩ := flagStep_of_makes (show Configuring .judoMakeServerSock_ _ from trivial) hmakes
      refine ⟨haddr, ?_⟩
      rw [List.exists_mem_cons_iff, hlistens]
      simp
  | call h hcond hmakes ih =>
      obtain ⟨hbefore, hlisten⟩ := ih
      obtain ⟨-, haddr, hlistens⟩ := flagStep_of_makes hcond hmakes
      refine ⟨haddr.trans hbefore, ?_⟩
      rw [exists_mem_snoc, hlisten, hlistens, hbefore, or_iff_left_of_imp fun hadd => hadd.2]

/-- **The flags tell the truth** exactly when there is no address for a listening socket,
since the one that tells of it is never set. -/
theorem flagsTrue_iff (h : Life Configuring t_addr log server) :
    FlagsTrue log server ↔ t_addr = none ∨ t_addr = some ⟨0, 0⟩ := by
  obtain ⟨htls, hsock⟩ := flagsInv_of_life h
  have hlistens := (listens_of_life h).2
  have haddr : (t_addr = none ∨ t_addr = some ⟨0, 0⟩) ↔ t_addr.getD ⟨0, 0⟩ = ⟨0, 0⟩ := by
    cases t_addr with
    | none => exact ⟨fun _ => rfl, fun _ => .inl rfl⟩
    | some addr => exact ⟨fun h => h.elim nofun Option.some.inj, fun h => .inr (congrArg some h)⟩
  rw [haddr]
  constructor
  · intro htrue
    by_contra hne
    exact htrue.listens.mpr (hlistens.mpr hne) hsock
  · intro hempty
    exact ⟨htls, fun hset => absurd hsock hset, fun hex => absurd hempty (hlistens.mp hex)⟩

/-- A server without an address, which sets up TLS and then requires server certificates. -/
theorem flagsTrue_iff_certs : ∃ log server, Life Configuring none log server
    ∧ log.map (·.call) = [.judoSetUpServerSockSSL none none, .judoServerRequireCerts] ∧ server.m_mode = 0x0006
    ∧ (FlagsTrue log server ↔ (none : Option sockaddr_in) = none ∨ (none : Option sockaddr_in) = some ⟨0, 0⟩) := by
  have hnew : Life Configuring none [] (.init_ default) :=
    .new ⟨(default : ssl_node), [⟨.log "Server Init Complete" 0, ()⟩], rfl, (), [], rfl, rfl, rfl⟩
  have hsetup : Makes (.init_ default) (.judoSetUpServerSockSSL none none)
      [⟨.SSL_CTX_new true, (1 : ℕ)⟩, ⟨.SSL_new 1, (2 : ℕ)⟩, ⟨.BIO_new, (3 : ℕ)⟩, ⟨.BIO_new, (4 : ℕ)⟩, ⟨.SSL_set_bio 2 3 4, ()⟩,
        ⟨.SSL_set_accept_state 2, ()⟩, ⟨.log "Server SSL set up successful" 0, ()⟩]
      { JudoServer.init_ ⟨default, 2, 1, 3, 4, default, default⟩ with m_mode := 0x0002 } JUDO_SUCCESS :=
    .judoSetUpServerSockSSL ⟨_, _, rfl, _, _, rfl, _, _, rfl, _, _, rfl, _, _, rfl, _, _, rfl, _, _, rfl, rfl, rfl⟩
  have hrequire : Makes { JudoServer.init_ ⟨default, 2, 1, 3, 4, default, default⟩ with m_mode := 0x0002 }
      .judoServerRequireCerts [⟨.log "Server Certification requirement set." 0, ()⟩]
      { JudoServer.init_ ⟨default, 2, 1, 3, 4, default, default⟩ with m_mode := 0x0006 } 0 :=
    .judoServerRequireCerts ⟨_, _, rfl, rfl, rfl⟩
  have hcalls : ∀ server, Configuring (.judoSetUpServerSockSSL none none) server ∧ Configuring .judoServerRequireCerts server :=
    fun _ => ⟨trivial, trivial⟩
  have hlife := (hnew.call (hcalls _).1 hsetup).call (hcalls _).2 hrequire
  exact ⟨_, _, hlife, rfl, rfl, flagsTrue_iff hlife⟩

/-- The listening socket is there, and its flag is not set. -/
theorem flags_listening : ¬ ∀ (t_addr : Option sockaddr_in) (log : List Called) (server : JudoServer),
    Life Configuring t_addr log server → FlagsTrue log server := by
  intro h
  have hinit : Prog.Runs JudoServer.init [⟨.new_ssl_node, (default : ssl_node)⟩, ⟨.log "Server Init Complete" 0, ()⟩]
      (.init_ default) := ⟨_, _, rfl, _, _, rfl, rfl, rfl⟩
  have hmakes : Makes { JudoServer.init_ default with m_list_sock_addr := ⟨0x7F000001, 0x901F⟩ } .judoMakeServerSock_
      [⟨.socket, (3 : ℤ)⟩, ⟨.setsockopt 3, ()⟩, ⟨.bind 3, (0 : ℤ)⟩, ⟨.listen 3, (0 : ℤ)⟩,
        ⟨.log "Server socket successfully opened at /%a" 1, ()⟩]
      { JudoServer.init_ default with
        m_list_sock_addr := ⟨0x7F000001, 0x901F⟩
        m_server_list_sock := 3
        m_ssl_nodes := DualDynamicArray.new.add ⟨3, POLLIN, 0⟩ default } JUDO_SUCCESS := by
    refine .judoMakeServerSock_ ?_
    unfold judoMakeServerSock_
    rw [if_neg (by decide)]
    exact ⟨_, _, rfl, _, _, rfl, _, _, rfl, _, _, rfl, _, _, rfl, rfl, rfl⟩
  have htrue := h _ _ _ (.newAt hinit hmakes)
  exact htrue.listens.mpr ⟨⟨_, _, _, _, _⟩, .head _, rfl, 3, rfl⟩ rfl

end JudoEngine
