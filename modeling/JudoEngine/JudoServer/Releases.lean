/-
What an open that fails leaves behind.

A call obtains descriptors, a node, objects of OpenSSL and arrays, and has to give back
each of them once. `obtained` and `released` read both off the record of its operations.
A null pointer and a negative descriptor are nothing that could be given back, and what
frees or closes them does nothing. The BIOs belong to their `SSL` object from `SSL_set_bio`
on, and go with it.

The descriptor of a connection is in its node, and `close` takes it from there: so it has
to come before the node is deleted.
-/
import JudoEngine.JudoServer.SetUp
import JudoEngine.JudoServer.Tickets

set_option autoImplicit false

open Words

namespace JudoEngine

/-! ## What is obtained and released

A call may end in many ways, and what it has left behind is computed from its record alone:
both lists are read off the operations, and have to be the same up to their order. -/

/-- What there is to be given back. -/
inductive Resource where
  | descriptor (fd : ℤ)
  | node (a : ℕ)
  | context (p : ℕ)
  | ssl (p : ℕ)
  | buffer (b : ℕ)
  deriving DecidableEq

/-- The descriptor `fd`, if it is one. -/
def descriptorOf (fd : ℤ) : List Resource := if 0 ≤ fd then [.descriptor fd] else []

/-- The context at `p`, if there is one. -/
def contextOf (p : ℕ) : List Resource := if p = 0 then [] else [.context p]

/-- The `SSL` object at `p`, if there is one. -/
def sslOf (p : ℕ) : List Resource := if p = 0 then [] else [.ssl p]

@[simp] theorem mem_descriptorOf {x : Resource} {fd : ℤ} : x ∈ descriptorOf fd ↔ 0 ≤ fd ∧ x = .descriptor fd := by
  unfold descriptorOf
  split <;> simp [*]

@[simp] theorem mem_contextOf {x : Resource} {p : ℕ} : x ∈ contextOf p ↔ p ≠ 0 ∧ x = .context p := by
  unfold contextOf
  split <;> simp [*]

@[simp] theorem mem_sslOf {x : Resource} {p : ℕ} : x ∈ sslOf p ↔ p ≠ 0 ∧ x = .ssl p := by
  unfold sslOf
  split <;> simp [*]

theorem contextOf_eq_nil {p : ℕ} : contextOf p = [] ↔ p = 0 := by
  unfold contextOf
  split <;> simp [*]

theorem sslOf_eq_nil {p : ℕ} : sslOf p = [] ↔ p = 0 := by
  unfold sslOf
  split <;> simp [*]

/-- What the call obtains with this operation. -/
def obtains : Event Op Ans → List Resource
  | ⟨.socket, fd⟩ => descriptorOf fd
  | ⟨.accept _, fd⟩ => descriptorOf fd
  | ⟨.new_ssl_node, n⟩ => [.node (n : ssl_node).addr]
  | ⟨.SSL_CTX_new _, p⟩ => contextOf p
  | ⟨.SSL_new _, p⟩ => sslOf p
  | ⟨.new_char _, b⟩ => [.buffer (b : ℕ × Buffer).1]
  | _ => []

/-- What it releases. -/
def releases : Op → List Resource
  | .close fd => descriptorOf fd
  | .delete_ssl_node a => [.node a]
  | .SSL_CTX_free p => contextOf p
  | .SSL_free p => sslOf p
  | .delete_char b => [.buffer b]
  | _ => []

/-- All that a record of operations obtains. -/
def obtained (tr : List (Event Op Ans)) : List Resource := tr.flatMap obtains

/-- All that it releases. -/
def released (tr : List (Event Op Ans)) : List Resource := tr.flatMap fun ev => releases ev.op

/-- Both are computed operation by operation. -/
@[simp] theorem obtained_nil : obtained [] = [] := rfl

@[simp] theorem released_nil : released [] = [] := rfl

@[simp] theorem obtained_cons (ev : Event Op Ans) (tr : List (Event Op Ans)) : obtained (ev :: tr) = obtains ev ++ obtained tr :=
  List.flatMap_cons

@[simp] theorem released_cons (ev : Event Op Ans) (tr : List (Event Op Ans)) :
    released (ev :: tr) = releases ev.op ++ released tr := List.flatMap_cons

@[simp] theorem obtained_append (tr tr' : List (Event Op Ans)) : obtained (tr ++ tr') = obtained tr ++ obtained tr' :=
  List.flatMap_append

@[simp] theorem released_append (tr tr' : List (Event Op Ans)) : released (tr ++ tr') = released tr ++ released tr' :=
  List.flatMap_append

/-- What deletes a node. -/
def deletesNode : Op → Bool
  | .delete_ssl_node _ => true
  | _ => false

/-- What closes a descriptor. -/
def closes : Op → Bool
  | .close _ => true
  | _ => false

/-- No descriptor is taken from a node that has been deleted. -/
def ClosedInTime (tr : List (Event Op Ans)) : Prop :=
  tr.Pairwise fun ev ev' => deletesNode ev.op = true → closes ev'.op = false

/-- The call has left nothing behind: the table is as it was, what it has obtained has been
released, all of it and nothing else, each once. -/
structure LeavesNothing (server server' : JudoServer) (tr : List (Event Op Ans)) : Prop where
  table : server'.m_ssl_nodes = server.m_ssl_nodes
  released : (released tr).Perm (obtained tr)
  closed : ClosedInTime tr

/-! ### Parts of a record -/

/-- The node is the last to go. -/
theorem closedInTime_snoc {tr : List (Event Op Ans)} (h : ∀ ev ∈ tr, deletesNode ev.op = false) (ev : Event Op Ans) :
    ClosedInTime (tr ++ [ev]) := by
  apply List.pairwise_append.mpr
  refine ⟨List.pairwise_of_forall_mem_list fun a ha b hb hdel => ?_, List.pairwise_singleton _ _, fun a ha b hb hdel => ?_⟩
  · rw [h a ha] at hdel
    exact absurd hdel Bool.false_ne_true
  · rw [h a ha] at hdel
    exact absurd hdel Bool.false_ne_true

/-- A descriptor that is closed after its node has gone. -/
theorem not_closedInTime (tr : List (Event Op Ans)) (a : ℕ) (fd : ℤ) :
    ¬ ClosedInTime (tr ++ [⟨.delete_ssl_node a, ()⟩, ⟨.freed, fd⟩, ⟨.close fd, ()⟩]) := by
  intro h
  obtain ⟨-, hlast, -⟩ := List.pairwise_append.mp h
  exact Bool.false_ne_true ((List.rel_of_pairwise_cons hlast (.tail _ (.head _)) rfl).symm)

/-- What has been obtained and not released has been left behind. -/
theorem not_leavesNothing {server server' : JudoServer} {tr : List (Event Op Ans)} {x : Resource} (hobtained : x ∈ obtained tr)
    (hreleased : x ∉ released tr) : ¬ LeavesNothing server server' tr :=
  fun h => hreleased (h.released.mem_iff.mpr hobtained)

/-- Filling the TLS fields releases nothing. -/
theorem ledger_of_filling (tr : List (Event Op Ans)) : (∀ ev ∈ tr, filling ev.op = true) →
    obtained tr = obtained (tlsEvents tr) ∧ released tr = [] ∧ ∀ ev ∈ tr, deletesNode ev.op = false := by
  induction tr with
  | nil => exact fun _ => ⟨rfl, rfl, fun ev hev => absurd hev List.not_mem_nil⟩
  | cons ev tr ih =>
      intro hall
      obtain ⟨hobtained, hreleased, hkept⟩ := ih fun ev' hev' => hall ev' (List.mem_cons_of_mem _ hev')
      have hev := hall ev List.mem_cons_self
      refine ⟨?_, ?_, List.forall_mem_cons.mpr ⟨?_, hkept⟩⟩
      all_goals obtain ⟨o, x⟩ := ev
      · cases o <;> first | exact absurd hev Bool.false_ne_true | exact hobtained | exact congrArg (_ ++ ·) hobtained
      · cases o <;> first | exact absurd hev Bool.false_ne_true | exact hreleased
      · cases o <;> first | exact absurd hev Bool.false_ne_true | rfl

/-- In a handshake no file is refused. -/
theorem fileRefused_of_shaking {tr : List (Event Op Ans)} (hall : ∀ ev ∈ tr, shaking ev.op = true) : ¬ FileRefused tr := by
  rintro ⟨ev, hev, hrefuses⟩
  have hshaking := hall ev hev
  obtain ⟨o, x⟩ := ev
  cases o <;> first | exact hrefuses | exact absurd hshaking Bool.false_ne_true

/-! ## `judoAccept_`

A refused file deletes the node and leaves its context. Behind that a call that fails leaves
the mode buffer or, after the handshake, closes the descriptor when its node is deleted. -/

section Accept

variable {fuel : ℕ} {server server' : JudoServer} {tr : List (Event Op Ans)} {ret : ℤ}

/-- From the node on that has its TLS fields, a call that fails leaves its array behind, or
closes the descriptor too late. -/
theorem acceptWay_leaves {new_node : ssl_node} (pre : List (Event Op Ans)) (hpre : released pre = [])
    (h : judoAccept_.Way (judoHandshake_ · · fuel) server new_node tr server' ret) (hret : ret ≠ JUDO_SUCCESS) :
    ¬ LeavesNothing server server' (pre ++ tr) ∧ ¬ FileRefused tr := by
  -- by the ways through the call: two that fail keep the buffer, one closes the descriptor too late
  cases h with
  | @unwritten buffer fp w hw =>
      constructor
      · apply not_leavesNothing (x := .buffer buffer.1)
        · simp [obtains]
        · simp [hpre, releases]
      · simp [Refuses]
  | @refused buffer fp w r hw hr =>
      unfold judoAccept_.asked
      constructor
      · apply not_leavesNothing (x := .buffer buffer.1)
        · simp [obtains]
        · simp [hpre, releases]
      · simp [Refuses]
  | @unshaken buffer fp w r out fd trₕ hw hr hcerts hhand hout =>
      have hshaking := (shaking_judoHandshake_ ..).of_runs hhand
      constructor
      · -- the node has been deleted when its descriptor is closed
        intro hleaves
        refine not_closedInTime (pre ++ (judoAccept_.asked server new_node buffer fp w r ++ (trₕ ++ [⟨.delete_char buffer.1, ()⟩,
          ⟨.SSL_free new_node.ssl, ()⟩, ⟨.SSL_CTX_free new_node.ssl_ctx, ()⟩]))) new_node.addr fd ?_
        have hclosed := hleaves.closed
        simp only [List.append_assoc, List.cons_append, List.nil_append] at hclosed ⊢
        exact hclosed
      · unfold judoAccept_.asked
        simp [Refuses, fileRefused_of_shaking hshaking]
  | shaken hw hr hcerts hhand hgreet => exact absurd (runs_greet hgreet).2 hret
  | plain hw hr hcerts hgreet => exact absurd (runs_greet hgreet).2 hret

/-- When the TLS fields are filled, or need not be, no file has been refused. -/
theorem quiet_of_acceptFill {node : ssl_node} {filled : ssl_node × ℤ}
    (hfill : Prog.Runs (judoAccept_.fill server node) tr filled) (hfilled : filled.2 = JUDO_SUCCESS) :
    released tr = [] ∧ ¬ FileRefused tr := by
  unfold judoAccept_.fill at hfill
  split at hfill
  · obtain ⟨-, hreleased, -⟩ := ledger_of_filling tr ((filling_judoFillServerSSLFields_ ..).of_runs hfill)
    cases runs_judoFillServerSSLFields_ hfill with
    | refused ctx ret' hret' hfile hmade => exact absurd hfilled hret'
    | filled ctx ssl read_bio write_bio hfile hmade => exact ⟨hreleased, hfile⟩
  · obtain ⟨rfl, rfl⟩ := hfill
    exact ⟨rfl, by simp⟩

/-- When they are not, a file has been refused, and the context that was made for it is
all that has been obtained. -/
theorem refused_of_acceptFill {node : ssl_node} {filled : ssl_node × ℤ}
    (hfill : Prog.Runs (judoAccept_.fill server node) tr filled) (hret : filled.2 ≠ JUDO_SUCCESS) :
    FileRefused tr ∧ released tr = [] ∧ (∀ ev ∈ tr, deletesNode ev.op = false)
      ∧ ∃ ctx, obtained tr = contextOf ctx ∧ (⟨.SSL_CTX_new true, (0 : ℕ)⟩ ∈ tr ↔ ctx = 0) := by
  unfold judoAccept_.fill at hfill
  split at hfill
  · obtain ⟨hobtained, hreleased, hkept⟩ := ledger_of_filling tr ((filling_judoFillServerSSLFields_ ..).of_runs hfill)
    cases runs_judoFillServerSSLFields_ hfill with
    | refused ctx ret' hret' hfile hmade =>
        refine ⟨hfile, hreleased, hkept, ctx, ?_, ?_⟩
        · rw [hobtained, hmade]
          exact List.append_nil _
        · have hmem : ⟨.SSL_CTX_new true, (0 : ℕ)⟩ ∈ tlsEvents tr ↔ ctx = 0 := by
            rw [hmade]
            simp [eq_comm]
          rw [← hmem]
          exact ⟨fun h => mem_tlsEvents h rfl, mem_of_mem_tlsEvents⟩
    | filled ctx ssl read_bio write_bio hfile hmade => exact absurd rfl hret
  · obtain ⟨rfl, rfl⟩ := hfill
    exact absurd rfl hret

/-- A `judoAccept_` that fails leaves something behind, unless OpenSSL has refused a file
for want of a context. -/
theorem accept_leavesNothing_iff (h : Prog.Runs (judoAccept_ (judoHandshake_ · · fuel) server) tr (some (server', ret)))
    (hret : ret ≠ JUDO_SUCCESS) :
    LeavesNothing server server' tr ↔ FileRefused tr ∧ ⟨.SSL_CTX_new true, (0 : ℕ)⟩ ∈ tr := by
  cases judoAccept_.call h with
  | @unfilled node filled trᵢ hfill hfailed =>
      obtain ⟨hfile, hreleased, hkept, ctx, hobtained, hcontext⟩ := refused_of_acceptFill hfill hfailed
      have hcond : FileRefused (⟨.new_ssl_node, node⟩ :: (trᵢ ++ [⟨.delete_ssl_node node.addr, ()⟩]))
          ∧ ⟨.SSL_CTX_new true, (0 : ℕ)⟩ ∈ (⟨.new_ssl_node, node⟩ :: (trᵢ ++ [⟨.delete_ssl_node node.addr, ()⟩]) : List (Event Op Ans))
          ↔ ctx = 0 := by
        rw [← hcontext]
        simp [hfile]
      rw [hcond]
      constructor
      · intro hleaves
        -- the context has not been released
        have hlength := hleaves.released.length_eq
        have hempty : (contextOf ctx).length = 0 := by
          simp [hobtained, hreleased, obtains, releases] at hlength
          simpa using hlength
        exact contextOf_eq_nil.mp (List.length_eq_zero_iff.mp hempty)
      · rintro rfl
        refine ⟨rfl, ?_, closedInTime_snoc (List.forall_mem_cons.mpr ⟨rfl, hkept⟩) _⟩
        simp [hobtained, hreleased, obtains, releases, contextOf]
  | @filled node filled trᵢ tr server' ret hfill hfilled hway =>
      obtain ⟨hreleased, hfile⟩ := quiet_of_acceptFill hfill hfilled
      have hpre : released (⟨.new_ssl_node, node⟩ :: trᵢ) = [] := by
        rw [released_cons, hreleased]
        rfl
      obtain ⟨hleaves, hrefused⟩ := acceptWay_leaves _ hpre hway hret
      refine iff_of_false hleaves fun hcond => ?_
      have hnot : ¬ FileRefused (⟨.new_ssl_node, node⟩ :: (trᵢ ++ tr)) := by simp [Refuses, hfile, hrefused]
      exact hnot hcond.1

end Accept

/-! ## `judoConnect_`

A refused file leaves the node. Two exits close the descriptor when its node is deleted, and
on all others a node without certificates is destroyed with TLS fields that nobody has set. -/

/-- `connect` has failed. -/
def Unconnected : Event Op Ans → Prop
  | ⟨.connect _, ret⟩ => (ret : ℤ) < 0
  | _ => False

/-- In this record `connect` has failed. -/
def ConnectFailed (tr : List (Event Op Ans)) : Prop := ∃ ev ∈ tr, Unconnected ev

/-- The mode byte has come, and its certificate bits are not these. -/
def ModeRefused (t_mode : Byte) (tr : List (Event Op Ans)) : Prop :=
  ∃ (b : Byte) (l : List Byte) (rest : List (Option (List Byte))), readResults tr = some (b :: l) :: rest ∧ ¬ SameCerts b t_mode

@[simp] theorem connectFailed_nil : ¬ ConnectFailed [] := by
  rintro ⟨ev, hev, -⟩
  exact absurd hev List.not_mem_nil

@[simp] theorem connectFailed_cons (ev : Event Op Ans) (tr : List (Event Op Ans)) :
    ConnectFailed (ev :: tr) ↔ Unconnected ev ∨ ConnectFailed tr := by
  simp [ConnectFailed]

@[simp] theorem connectFailed_append (tr tr' : List (Event Op Ans)) :
    ConnectFailed (tr ++ tr') ↔ ConnectFailed tr ∨ ConnectFailed tr' := by
  simp [ConnectFailed, or_and_right, exists_or]

/-- A handshake does not connect. -/
theorem connectFailed_of_shaking {tr : List (Event Op Ans)} (hall : ∀ ev ∈ tr, shaking ev.op = true) : ¬ ConnectFailed tr := by
  rintro ⟨ev, hev, hfailed⟩
  have hshaking := hall ev hev
  obtain ⟨o, x⟩ := ev
  cases o <;> first | exact hfailed | exact absurd hshaking Bool.false_ne_true

theorem connectFailed_of_filling {tr : List (Event Op Ans)} (hall : ∀ ev ∈ tr, filling ev.op = true) : ¬ ConnectFailed tr := by
  rintro ⟨ev, hev, hfailed⟩
  have hfilling := hall ev hev
  obtain ⟨o, x⟩ := ev
  cases o <;> first | exact hfailed | exact absurd hfilling Bool.false_ne_true

/-- Filling reads nothing from the socket, so the reads of the call are those that follow. -/
theorem modeRefused_after {t_mode : Byte} (pre : List (Event Op Ans)) {tr : List (Event Op Ans)} (hpre : readResults pre = []) :
    ModeRefused t_mode (pre ++ tr) ↔ ModeRefused t_mode tr := by
  unfold ModeRefused
  rw [Engine.readResults_append, hpre, List.nil_append]

section Connect

variable {fuel : ℕ} {client client' : JudoServer} {t_mode : Byte} {tr : List (Event Op Ans)} {ret : ℤ}

/-- How a call that fails ends once the socket is connected: the descriptor is closed too
late, or the mode byte is refused. -/
inductive NegotiateFails (n : ssl_node) (t_mode : Byte) (tr : List (Event Op Ans)) : Prop where
  | late (before : List (Event Op Ans)) (fd : ℤ)
      (htr : tr = before ++ [⟨.delete_ssl_node n.addr, ()⟩, ⟨.freed, fd⟩, ⟨.close fd, ()⟩])
      (hmode : ¬ ModeRefused t_mode tr)
  | refused (buffer : ℕ × Buffer) (r : Option (List Byte)) (w : ℤ) (hmode : ModeRefused t_mode tr)
      (htr : tr = [⟨.new_char 1, buffer⟩, ⟨.read n.fp 1, r⟩, ⟨.write n.fp 1 [0xFF], w⟩, ⟨.close n.fp, ()⟩,
        ⟨.delete_char buffer.1, ()⟩, ⟨.SSL_free n.ssl, ()⟩, ⟨.SSL_CTX_free n.ssl_ctx, ()⟩, ⟨.delete_ssl_node n.addr, ()⟩])

/-- A call that has answered the server fails in the handshake. -/
theorem join_late {n : ssl_node} {buffer : ℕ}
    (h : judoConnect_.JoinWay (judoHandshake_ · · fuel) client n buffer tr client' ret) (hret : ret ≠ JUDO_SUCCESS) :
    client' = client ∧ ¬ ConnectFailed tr
      ∧ ∃ before, ∃ fd : ℤ, tr = before ++ [⟨.delete_ssl_node n.addr, ()⟩, ⟨.freed, fd⟩, ⟨.close fd, ()⟩] := by
  cases h with
  | @unshaken size out fd buf trₕ hsize hcerts hhand hout =>
      have hshaking := (shaking_judoHandshake_ ..).of_runs hhand
      refine ⟨rfl, ?_, ⟨.delete_char buffer, ()⟩ :: ⟨.new_char size, buf⟩ :: (trₕ ++ [⟨.delete_char buf.1, ()⟩,
        ⟨.SSL_free n.ssl, ()⟩, ⟨.SSL_CTX_free n.ssl_ctx, ()⟩]), fd, ?_⟩
      · simp [Unconnected, connectFailed_of_shaking hshaking]
      · simp only [List.append_assoc, List.cons_append, List.nil_append]
  | shaken hsize hcerts hhand hhello => exact absurd (runs_hello hhello).2 hret
  | plain hsize hcerts hhello => exact absurd (runs_hello hhello).2 hret

/-- What the first read has returned decides about the mode. -/
theorem modeRefused_read {buffer : ℕ × Buffer} {fp : ℤ} {r : Option (List Byte)} :
    ModeRefused t_mode (⟨.new_char 1, buffer⟩ :: ⟨.read fp 1, r⟩ :: tr) ↔ ∃ b l, r = some (b :: l) ∧ ¬ SameCerts b t_mode := by
  unfold ModeRefused
  simp [readResults]

/-- Each way through the rest of the call that fails is one of these. -/
theorem way_fails {n : ssl_node} (h : judoConnect_.Way (judoHandshake_ · · fuel) client n t_mode tr client' ret)
    (hret : ret ≠ JUDO_SUCCESS) : client' = client ∧ ¬ ConnectFailed tr ∧ NegotiateFails n t_mode tr := by
  cases h with
  | @unanswered buffer r fd hr =>
      refine ⟨rfl, by simp [Unconnected], .late [⟨.new_char 1, buffer⟩, ⟨.read n.fp 1, r⟩, ⟨.delete_char buffer.1, ()⟩,
        ⟨.SSL_free n.ssl, ()⟩, ⟨.SSL_CTX_free n.ssl_ctx, ()⟩] fd rfl ?_⟩
      rw [modeRefused_read]
      rintro ⟨b, l, rfl, -⟩
      exact absurd (bytesRead_pos (List.cons_ne_nil b l)) (not_lt.mpr hr)
  | @refused buffer b l w output hbits hout =>
      exact ⟨rfl, by simp [Unconnected], .refused buffer _ w (modeRefused_read.mpr ⟨b, l, rfl, hbits⟩) rfl⟩
  | @answered buffer b l w tr client' ret hbits hjoin =>
      obtain ⟨hclient', hconnect, before, fd, rfl⟩ := join_late hjoin hret
      refine ⟨hclient', ?_, .late (⟨.new_char 1, buffer⟩ :: ⟨.read n.fp 1, some (b :: l)⟩ :: ⟨.write n.fp 1 [b], w⟩
        :: ⟨.log "Connection to /%a was Successful" 1, ()⟩ :: before) fd rfl ?_⟩
      · simpa [Unconnected] using hconnect
      · rw [modeRefused_read]
        rintro ⟨b', l', hr, hbits'⟩
        obtain ⟨rfl, -⟩ := List.cons.inj (Option.some.inj hr)
        exact hbits' hbits

/-- A call that ends with the destruction of its node, and closes and deletes before what
it has obtained since the TLS fields were filled, has to destroy what they were filled
with. -/
theorem destroyed_iff (client : JudoServer) {node m : ssl_node} {filled : List (Event Op Ans)} (middle : List (Event Op Ans))
    (haddr : m.addr = node.addr)
    (hfilled : released filled = [] ∧ ∀ ev ∈ filled, deletesNode ev.op = false)
    (hmiddle : (released middle).Perm (obtained middle) ∧ ∀ ev ∈ middle, deletesNode ev.op = false) :
    LeavesNothing client client (⟨.new_ssl_node, node⟩ :: (filled ++ (middle ++ [⟨.SSL_free m.ssl, ()⟩,
        ⟨.SSL_CTX_free m.ssl_ctx, ()⟩, ⟨.delete_ssl_node m.addr, ()⟩])))
      ↔ (obtained filled).Perm (sslOf m.ssl ++ contextOf m.ssl_ctx) := by
  obtain ⟨hreleased, hkept⟩ := hfilled
  obtain ⟨hperm, hkept'⟩ := hmiddle
  have hlist : (⟨.new_ssl_node, node⟩ :: (filled ++ (middle ++ [⟨.SSL_free m.ssl, ()⟩, ⟨.SSL_CTX_free m.ssl_ctx, ()⟩,
        ⟨.delete_ssl_node m.addr, ()⟩])) : List (Event Op Ans))
      = (⟨.new_ssl_node, node⟩ :: (filled ++ (middle ++ [⟨.SSL_free m.ssl, ()⟩, ⟨.SSL_CTX_free m.ssl_ctx, ()⟩])))
        ++ [⟨.delete_ssl_node m.addr, ()⟩] := by
    simp only [List.cons_append, List.append_assoc, List.nil_append]
  have hclosed : ClosedInTime (⟨.new_ssl_node, node⟩ :: (filled ++ (middle ++ [⟨.SSL_free m.ssl, ()⟩,
      ⟨.SSL_CTX_free m.ssl_ctx, ()⟩, ⟨.delete_ssl_node m.addr, ()⟩]))) := by
    rw [hlist]
    apply closedInTime_snoc
    intro ev hev
    simp only [List.mem_cons, List.mem_append, List.not_mem_nil, or_false] at hev
    rcases hev with rfl | hev | hev | rfl | rfl
    · rfl
    · exact hkept ev hev
    · exact hkept' ev hev
    · rfl
    · rfl
  have hcount := List.perm_iff_count.mp hperm
  -- both sides, one resource at a time
  constructor
  · intro hleaves
    have hall := List.perm_iff_count.mp hleaves.released
    apply List.perm_iff_count.mpr
    intro x
    have hx := hall x
    have hx' := hcount x
    simp only [released_cons, released_append, obtained_cons, obtained_append, hreleased, releases, obtains, released_nil,
      obtained_nil, List.count_append, List.count_nil, haddr] at hx
    rw [List.count_append]
    omega
  · intro hback
    refine ⟨rfl, List.perm_iff_count.mpr fun x => ?_, hclosed⟩
    have hx := List.perm_iff_count.mp hback x
    have hx' := hcount x
    rw [List.count_append] at hx
    simp only [released_cons, released_append, obtained_cons, obtained_append, hreleased, releases, obtains, released_nil,
      obtained_nil, List.count_append, List.count_nil, haddr]
    omega

/-- The new node is to have TLS fields, or the memory that it is in holds null pointers
where they would be. -/
def Destructible (t_mode : Byte) (tr : List (Event Op Ans)) : Prop :=
  t_mode &&& (JUDO_CON_CLIENT_CERTS ||| JUDO_CON_SERVER_CERTS) ≠ 0
    ∨ ∃ (node : ssl_node) (tr' : List (Event Op Ans)), tr = ⟨.new_ssl_node, node⟩ :: tr' ∧ node.ssl = 0 ∧ node.ssl_ctx = 0

/-- What has happened when the TLS fields are filled, or need not be. -/
structure Prepared (node : ssl_node) (t_mode : Byte) (trᵢ : List (Event Op Ans)) (m : ssl_node) : Prop where
  addr : m.addr = node.addr
  released : released trᵢ = []
  kept : ∀ ev ∈ trᵢ, deletesNode ev.op = false
  reads : readResults trᵢ = []
  quiet : ¬ ConnectFailed trᵢ
  destructible : ∀ tr, (obtained trᵢ).Perm (sslOf m.ssl ++ contextOf m.ssl_ctx) ↔ Destructible t_mode (⟨.new_ssl_node, node⟩ :: tr)

/-- The filling that lets the call go on has prepared the node. -/
theorem prepared_of_connectFill {node : ssl_node} {t_cert t_key : Option String} {filled : ssl_node × ℤ}
    (hfill : Prog.Runs (judoConnect_.fill { node with mode := t_mode } t_cert t_key) tr filled)
    (hfilled : filled.2 = JUDO_SUCCESS) : Prepared node t_mode tr filled.1 := by
  have hreads : readResults tr = [] := by
    rw [← readResults_stream, stream_connectFill hfill]
    rfl
  unfold judoConnect_.fill at hfill
  split at hfill
  · next hcerts =>
      have hfilling := (filling_judoFillClientSSLFields_ ..).of_runs hfill
      obtain ⟨hobtained, hreleased, hkept⟩ := ledger_of_filling tr hfilling
      cases runs_judoFillClientSSLFields_ hfill with
      | refused ctx ret' hret' hfile hmade => exact absurd hfilled hret'
      | filled ctx ssl read_bio write_bio hfile hmade =>
          refine ⟨rfl, hreleased, hkept, hreads, connectFailed_of_filling hfilling, fun _ => iff_of_true ?_ (.inl hcerts)⟩
          rw [hobtained, hmade]
          show (contextOf ctx ++ (sslOf ssl ++ [])).Perm _
          rw [List.append_nil]
          exact List.perm_append_comm
  · next hcerts =>
      obtain ⟨rfl, rfl⟩ := hfill
      refine ⟨rfl, rfl, fun ev hev => absurd hev List.not_mem_nil, rfl, connectFailed_nil, fun tr => ?_⟩
      -- the node is destroyed as it came out of `new`
      rw [obtained_nil, List.nil_perm, List.append_eq_nil_iff, sslOf_eq_nil, contextOf_eq_nil]
      constructor
      · exact fun hnull => .inr ⟨node, _, rfl, hnull⟩
      · rintro (hcerts' | ⟨node', tr', heq, hnull⟩)
        · exact absurd hcerts' hcerts
        · obtain ⟨hev, -⟩ := List.cons.inj heq
          obtain rfl : node = node' := eq_of_heq (Event.mk.inj hev).2
          exact hnull

/-- A call that fails once it has got so far has made the socket before, and what decides
is in the rest of the record. -/
theorem Prepared.after {node m : ssl_node} {trᵢ : List (Event Op Ans)} (h : Prepared node t_mode trᵢ m) (tr : List (Event Op Ans)) :
    (ConnectFailed (⟨.new_ssl_node, node⟩ :: (trᵢ ++ tr)) ↔ ConnectFailed tr)
      ∧ (ModeRefused t_mode (⟨.new_ssl_node, node⟩ :: (trᵢ ++ tr)) ↔ ModeRefused t_mode tr) := by
  have hquiet := h.quiet
  constructor
  · simp [Unconnected, hquiet]
  · exact modeRefused_after (⟨.new_ssl_node, node⟩ :: trᵢ) h.reads

/-- The exit on which `connect` fails. -/
theorem unconnected_leavesNothing_iff {node m : ssl_node} {trᵢ : List (Event Op Ans)} {fp w : ℤ}
    (h : Prepared node t_mode trᵢ m) (hw : w < 0) (htr : tr = ⟨.new_ssl_node, node⟩ :: (trᵢ
      ++ [⟨.log "Attempting to connect to /%a" 1, ()⟩, ⟨.socket, fp⟩, ⟨.setsockopt fp, ()⟩, ⟨.connect fp, w⟩, ⟨.close fp, ()⟩,
        ⟨.SSL_free m.ssl, ()⟩, ⟨.SSL_CTX_free m.ssl_ctx, ()⟩, ⟨.delete_ssl_node m.addr, ()⟩])) :
    LeavesNothing client client tr ↔ Destructible t_mode tr ∧ (ConnectFailed tr ∨ ModeRefused t_mode tr) := by
  subst htr
  have hmiddle := destroyed_iff client [⟨.log "Attempting to connect to /%a" 1, ()⟩, ⟨.socket, fp⟩, ⟨.setsockopt fp, ()⟩,
    ⟨.connect fp, w⟩, ⟨.close fp, ()⟩] h.addr ⟨h.released, h.kept⟩ ⟨by simp [obtains, releases], by simp [deletesNode]⟩
  refine (hmiddle.trans (h.destructible _)).trans (and_iff_left (.inl ?_)).symm
  rw [(h.after _).1]
  simp [Unconnected, hw]

/-- The exits behind that. -/
theorem connected_leavesNothing_iff {node m : ssl_node} {trᵢ tr₁ : List (Event Op Ans)} {fp w : ℤ}
    (h : Prepared node t_mode trᵢ m) (hw : 0 ≤ w)
    (hway : judoConnect_.Way (judoHandshake_ · · fuel) client { m with fp := fp } t_mode tr₁ client' ret)
    (hret : ret ≠ JUDO_SUCCESS) (htr : tr = ⟨.new_ssl_node, node⟩ :: (trᵢ ++ ⟨.log "Attempting to connect to /%a" 1, ()⟩
      :: ⟨.socket, fp⟩ :: ⟨.setsockopt fp, ()⟩ :: ⟨.connect fp, w⟩ :: tr₁)) :
    LeavesNothing client client' tr ↔ Destructible t_mode tr ∧ (ConnectFailed tr ∨ ModeRefused t_mode tr) := by
  subst htr
  obtain ⟨rfl, hquiet, hfails⟩ := way_fails hway hret
  cases hfails with
  | late before fd htr₁ hmode =>
      -- the socket has been connected, and no mode has been refused
      refine iff_of_false (fun hleaves => ?_) ?_
      · refine not_closedInTime (⟨.new_ssl_node, node⟩ :: (trᵢ ++ ⟨.log "Attempting to connect to /%a" 1, ()⟩
          :: ⟨.socket, fp⟩ :: ⟨.setsockopt fp, ()⟩ :: ⟨.connect fp, w⟩ :: before)) m.addr fd ?_
        have hclosed := hleaves.closed
        rw [htr₁] at hclosed
        simp only [List.append_assoc, List.cons_append] at hclosed ⊢
        exact hclosed
      · rw [(h.after _).1, (h.after _).2]
        rintro ⟨-, hconnect | hmode'⟩
        · simp [Unconnected, hquiet, not_lt.mpr hw] at hconnect
        · exact hmode hmode'
  | refused buffer r w' hmode htr₁ =>
      have hmiddle := destroyed_iff client' [⟨.log "Attempting to connect to /%a" 1, ()⟩,
        ⟨.socket, fp⟩, ⟨.setsockopt fp, ()⟩, ⟨.connect fp, w⟩, ⟨.new_char 1, buffer⟩, ⟨.read fp 1, r⟩,
        ⟨.write fp 1 [0xFF], w'⟩, ⟨.close fp, ()⟩, ⟨.delete_char buffer.1, ()⟩] h.addr ⟨h.released, h.kept⟩
        ⟨by simp [obtains, releases], by simp [deletesNode]⟩
      rw [htr₁] at hmode ⊢
      refine (hmiddle.trans (h.destructible _)).trans (and_iff_left (.inr ?_)).symm
      rw [(h.after _).2]
      exact hmode

/-- A `judoConnect_` that fails leaves nothing behind when it is not begun, or when it ends
because `connect` fails or a mode is refused and its node can be destroyed. -/
theorem connect_leavesNothing_iff {t_cert t_key : Option String}
    (h : Prog.Runs (judoConnect_ (judoHandshake_ · · fuel) client t_cert t_key t_mode) tr (some (client', ret)))
    (hret : ret ≠ JUDO_SUCCESS) : LeavesNothing client client' tr ↔ CertFilesMissing t_cert t_key t_mode
      ∨ Destructible t_mode tr ∧ (ConnectFailed tr ∨ ModeRefused t_mode tr) := by
  -- by the exits of the call: the files are missing or refused, `connect` fails, or one of the rest
  cases judoConnect_.call h with
  | missing hmissing => exact iff_of_true ⟨rfl, .refl _, List.Pairwise.nil⟩ (.inl hmissing)
  | @unfilled node filled trᵢ hcheck hfill hret' =>
      rw [or_iff_right hcheck]
      have hreads : readResults trᵢ = [] := by
        rw [← readResults_stream, stream_connectFill hfill]
        rfl
      unfold judoConnect_.fill at hfill
      split at hfill
      · -- the node is left behind
        have hfilling := (filling_judoFillClientSSLFields_ ..).of_runs hfill
        have hreleased := (ledger_of_filling trᵢ hfilling).2.1
        have hquiet := connectFailed_of_filling hfilling
        refine iff_of_false (not_leavesNothing (x := .node node.addr) ?_ ?_) fun hright => not_or.mpr ⟨?_, ?_⟩ hright.2
        · simp [obtains]
        · simp [hreleased, releases]
        · simp [Unconnected, hquiet]
        · unfold ModeRefused
          simp [readResults, hreads]
      · obtain ⟨rfl, rfl⟩ := hfill
        exact absurd rfl hret'
  | unconnected hcheck hfill hfilled hw =>
      rw [or_iff_right hcheck]
      exact unconnected_leavesNothing_iff (prepared_of_connectFill hfill hfilled) hw rfl
  | connected hcheck hfill hfilled hw hway =>
      rw [or_iff_right hcheck]
      exact connected_leavesNothing_iff (prepared_of_connectFill hfill hfilled) hw hway hret rfl

end Connect

/-- **A failed open leaves nothing behind** just in these cases. `judoAccept_`: a file is
refused, and OpenSSL has not even made a context. `judoConnect_`: the files are missing; or
`connect` fails or the mode byte is refused, and the node has its TLS fields, or null
pointers in their place. -/
theorem leavesNothing_iff (fuel : ℕ) (server server' : JudoServer) (tr : List (Event Op Ans)) (ret : ℤ)
    (hret : ret ≠ JUDO_SUCCESS) :
    (Prog.Runs (judoAccept_ (judoHandshake_ · · fuel) server) tr (some (server', ret)) →
      (LeavesNothing server server' tr ↔ FileRefused tr ∧ ⟨.SSL_CTX_new true, (0 : ℕ)⟩ ∈ tr))
    ∧ ∀ (t_cert t_key : Option String) (t_mode : Byte),
        Prog.Runs (judoConnect_ (judoHandshake_ · · fuel) server t_cert t_key t_mode) tr (some (server', ret)) →
          (LeavesNothing server server' tr ↔ CertFilesMissing t_cert t_key t_mode
            ∨ Destructible t_mode tr ∧ (ConnectFailed tr ∨ ModeRefused t_mode tr)) :=
  ⟨fun h => accept_leavesNothing_iff h hret, fun _ _ _ h => connect_leavesNothing_iff h hret⟩

/-- Nobody answers: `connect` and `write` fail, and so do the files with this answer. -/
def unanswering (file : ℤ) : Unit → (o : Op) → Ans o × Unit
  | _, .socket => (3, ())
  | _, .connect _ => (-1, ())
  | _, .SSL_CTX_new _ | _, .SSL_new _ => (1, ())
  | _, .SSL_CTX_use_certificate_file _ _ => (file, ())
  | _, _ => (default, ())

/-- A client with certificate bits whom nobody answers has given everything back. -/
theorem leavesNothing_unanswered : ∃ (client' : JudoServer) (tr : List (Event Op Ans)) (ret : ℤ),
    Prog.Runs (judoConnect_ (judoHandshake_ · · 0) (.init_ default) none none JUDO_CON_SERVER_CERTS) tr (some (client', ret))
      ∧ ret ≠ JUDO_SUCCESS ∧ LeavesNothing (.init_ default) client' tr := by
  have hruns := Prog.runs_exec (h := unanswering 1)
    (judoConnect_ (judoHandshake_ · · 0) (.init_ default) none none JUDO_CON_SERVER_CERTS) ()
  refine ⟨.init_ default, _, JUDO_CONNECTION_FAILURE, hruns, by decide, ?_⟩
  have hiff := (leavesNothing_iff 0 (.init_ default) (.init_ default) _ JUDO_CONNECTION_FAILURE (by decide)).2 none none
    JUDO_CON_SERVER_CERTS hruns
  have hfailed : Unconnected ⟨.connect 3, (-1 : ℤ)⟩ := show (-1 : ℤ) < 0 by decide
  refine hiff.mpr (.inr ⟨.inl (by decide), .inl ⟨⟨.connect 3, (-1 : ℤ)⟩, ?_, hfailed⟩⟩)
  simp [judoConnect_, CertFilesMissing, judoConnect_.fill, judoFillClientSSLFields_, judoFillGeneralSSLFields_, useFile,
    judoSocketConnect_, unanswering, JUDO_CON_SERVER_CERTS, JUDO_CON_CLIENT_CERTS]

/-- The mode byte cannot be written, and the array stays; the certificate file is refused,
and the node and its context stay. -/
theorem left_behind : (¬ ∀ (fuel : ℕ) (server server' : JudoServer) (tr : List (Event Op Ans)) (ret : ℤ),
      ret ≠ JUDO_SUCCESS → Prog.Runs (judoAccept_ (judoHandshake_ · · fuel) server) tr (some (server', ret)) →
        LeavesNothing server server' tr)
    ∧ ¬ ∀ (fuel : ℕ) (client client' : JudoServer) (t_cert t_key : Option String) (t_mode : Byte) (tr : List (Event Op Ans))
        (ret : ℤ), ret ≠ JUDO_SUCCESS →
          Prog.Runs (judoConnect_ (judoHandshake_ · · fuel) client t_cert t_key t_mode) tr (some (client', ret)) →
            LeavesNothing client client' tr := by
  constructor
  · intro hall
    have hruns := Prog.runs_exec (h := unanswering 1) (judoAccept_ (judoHandshake_ · · 0) (.init_ default)) ()
    have hleaves := hall 0 (.init_ default) (.init_ default) _ JUDO_FAILURE (by decide) hruns
    exact absurd hleaves.released (by decide +kernel)
  · intro hall
    have hruns := Prog.runs_exec (h := unanswering 0)
      (judoConnect_ (judoHandshake_ · · 0) (.init_ default) (some "cert.pem") (some "key.pem") JUDO_CON_CLIENT_CERTS) ()
    have hleaves := hall 0 (.init_ default) (.init_ default) _ _ _ _ JUDO_READ_CERT_FILE_FAILURE (by decide) hruns
    exact absurd hleaves.released (by decide +kernel)

end JudoEngine
