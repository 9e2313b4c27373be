/-
The `char` arrays of the event loop.

`run` deletes the array that `judoRead_` hands out. When the connection is closed before it
has sent anything, `judoRead_` has not made one, and the pointer is what the local variable
happened to hold; that is the only time that something is deleted that is not an array. In
all other rounds each array is deleted once, but for two that nobody deletes: the packet
buffer of a `judoRead_` that finds the connection closed, and the buffer of a `judoAccept_`
whose mode byte is not written or not answered.
-/
import JudoEngine.JudoServer.Budget
import JudoEngine.Lib.Obeys

set_option autoImplicit false

open Words Histories

namespace JudoEngine

/-! ## The heap

A protocol on the operations that make and delete `char` arrays. Reading an uninitialised
pointer stores a stray value, which goes when bytes come in, since judoRead_ then sets the
pointer. -/

/-- The arrays there are, and what an uninitialised pointer holds as long as nothing has been
received; `wild` remembers that such a pointer has been deleted. -/
structure CharHeap where
  live : List ℕ
  stray : Option ℕ
  wild : Bool

/-- Only an array, or such a pointer, may be deleted. -/
def charHeap : Protocol Op Ans CharHeap where
  allows s
    | .delete_char b => b ∈ s.live ∨ s.stray = some b
    | _ => True
  answers _ := True
  after s
    | ⟨.new_char _, b⟩ => { s with live := (b : ℕ × Buffer).1 :: s.live }
    | ⟨.delete_char b, _⟩ => ⟨s.live.erase b, none, s.wild || decide (s.stray = some b)⟩
    | ⟨.indeterminate, x⟩ => { s with stray := s.stray.or (some (x : ℤ).toNat) }
    | ⟨.read _ _, r⟩ => { s with stray := if bytesRead r > 0 then none else s.stray }
    | _ => s

/-- The program only deletes what it may, and ends like this. -/
abbrev Frees {α : Type} (F : CharHeap → α → Prop) (p : Sys α) (s : CharHeap) : Prop := Prog.Obeys charHeap F p s

/-- What has nothing to do with the heap. -/
def apart : Op → Bool
  | .new_char _ | .delete_char _ | .indeterminate | .read _ _ => false
  | _ => true

/-- A program with none of these operations leaves the heap alone. -/
theorem frees_apart {α : Type} {p : Sys α} (hp : Prog.Only (fun o => apart o = true) p) (s : CharHeap) :
    Frees (fun s' _ => s' = s) p s := by
  refine Prog.Obeys.of_only (I := fun s' : CharHeap => s' = s) (fun s' o ho hs => ?_) hp rfl
  cases o with
  | new_char size => exact absurd ho Bool.false_ne_true
  | delete_char b => exact absurd ho Bool.false_ne_true
  | indeterminate => exact absurd ho Bool.false_ne_true
  | read fd size => exact absurd ho Bool.false_ne_true
  | _ => exact ⟨trivial, fun _ _ => hs⟩

/-! ## The functions

One lemma for each function of the library says with which arrays it ends. The calling
function's lemma uses it and does not look inside. -/

/-- A new array is the one to be deleted. -/
theorem after_delete (b : ℕ) (l : List ℕ) (w : Bool) : charHeap.after ⟨b :: l, none, w⟩ ⟨.delete_char b, ()⟩ = ⟨l, none, w⟩ := by
  show (⟨(b :: l).erase b, none, w || decide (none = some b)⟩ : CharHeap) = _
  rw [List.erase_cons_head, decide_eq_false (Option.some_ne_none b).symm, Bool.or_false]

variable {l : List ℕ} {w : Bool}

/-- An array is made, and deleted in the end. -/
theorem frees_delete {α : Type} {F : CharHeap → α → Prop} {b : ℕ} {f : Unit → Sys α} (hf : Frees F (f ()) ⟨l, none, w⟩) :
    Frees F (sys (.delete_char b) >>= f) ⟨b :: l, none, w⟩ := by
  refine .step (.inl List.mem_cons_self) fun x _ => ?_
  rw [after_delete]
  exact hf

/-- And so is the one before it, whether it is another one or not. -/
theorem erase_second (a b : ℕ) (l : List ℕ) : (a :: b :: l).erase b = a :: l := by
  by_cases hab : a = b
  · rw [hab, List.erase_cons_head]
  · rw [List.erase_cons_tail (by simpa using hab), List.erase_cons_head]

/-- Reading does nothing when no pointer is stray. -/
theorem frees_read {α : Type} {F : CharHeap → α → Prop} {fd size : ℤ} {f : Option (List Byte) → Sys α}
    (hf : ∀ r, Frees F (f r) ⟨l, none, w⟩) : Frees F (sys (.read fd size) >>= f) ⟨l, none, w⟩ := by
  refine .step trivial fun r _ => ?_
  have hsame : charHeap.after ⟨l, none, w⟩ ⟨.read fd size, r⟩ = ⟨l, none, w⟩ := by
    show (⟨l, if bytesRead r > 0 then none else none, w⟩ : CharHeap) = _
    rw [ite_self]
  rw [hsame]
  exact hf r

/-- Deleting a node touches no array. -/
theorem frees_dstr_ssl_node (n : ssl_node) (s : CharHeap) : Frees (fun s' _ => s' = s) (dstr_ssl_node n) s :=
  .step trivial fun _ _ => .step trivial fun _ _ => .step trivial fun _ _ => rfl

/-- `judoSend_` deletes the packet that it makes. -/
theorem frees_judoSend_ (t_node : ssl_node) (t_buffer : Buffer) (t_size : ℤ) :
    Frees (fun s' _ => s' = ⟨l, none, w⟩) (judoSend_ t_node t_buffer t_size) ⟨l, none, w⟩ := by
  have hloop : ∀ (buffer_size packets : ℤ) (n : ℕ) (i index : ℤ) (buffer : Buffer),
      Prog.Only (fun o => apart o = true) (judoSend_.loop t_node t_buffer t_size buffer_size packets n i index buffer) := by
    intro buffer_size packets n
    induction n with
    | zero => exact fun _ _ _ => trivial
    | succ n ih =>
        intro i index buffer
        unfold judoSend_.loop
        dsimp only
        split
        · exact .step rfl fun _ => .step rfl fun _ => .step rfl fun _ => ih _ _ _
        · exact .step rfl fun _ => ih _ _ _
  unfold judoSend_
  refine .step trivial fun _ _ => .step trivial fun buffer _ => ?_
  refine Prog.Obeys.bind (frees_apart (hloop ..) _) fun s' _ hs' => ?_
  rw [hs']
  exact frees_delete (.step trivial fun _ _ => rfl)

/-- The handshake works in the buffer that it is given. -/
theorem frees_judoHandshake_ (t_node : ssl_node) (size : ℤ) (fuel : ℕ) :
    Frees (fun s' _ => s' = ⟨l, none, w⟩) (judoHandshake_ t_node size fuel) ⟨l, none, w⟩ := by
  induction fuel with
  | zero => exact rfl
  | succ fuel ih =>
      unfold judoHandshake_
      refine .step trivial fun finished _ => ?_
      split
      · exact .step trivial fun _ _ => rfl
      · refine .step trivial fun _ _ => .step trivial fun w _ => ?_
        split
        · exact .step trivial fun _ _ => ih
        · refine frees_read fun r => ?_
          split
          · exact .step trivial fun _ _ => ih
          · split
            · exact rfl
            · exact ih

/-- A node whose files cannot be used fails with a code of its own. -/
theorem frees_judoAccept_fill (server : JudoServer) (n : ssl_node) (s : CharHeap) :
    Frees (fun s' filled => s' = s ∧ filled.2 ≠ JUDO_FAILURE) (judoAccept_.fill server n) s := by
  have hsuccess : JUDO_SUCCESS ≠ JUDO_FAILURE := by decide
  have hfile : ∀ {use : String → Sys ℤ} {failure : ℤ}, (∀ file, Prog.Only (fun o => apart o = true) (use file)) →
      failure ≠ JUDO_FAILURE → ∀ (file : Option String) (s : CharHeap),
        Frees (fun s' ret => s' = s ∧ ret ≠ JUDO_FAILURE) (useFile use failure file) s := by
    intro use failure huse hfailure file s
    cases file with
    | none => exact ⟨rfl, hsuccess⟩
    | some file =>
        unfold useFile
        refine Prog.Obeys.bind (frees_apart (huse file) s) fun s' ret hs' => ?_
        split
        · exact .step trivial fun _ _ => ⟨hs', hfailure⟩
        · exact ⟨hs', hsuccess⟩
  -- with TLS two files may be used, each of which ends the filling with a code of its own when it
  -- cannot be
  unfold judoAccept_.fill
  split
  · unfold judoFillServerSSLFields_
    refine Prog.Obeys.bind (H := fun s' filled => s' = s ∧ filled.2 ≠ JUDO_FAILURE) ?_ fun s' filled hs' => ?_
    · unfold judoFillGeneralSSLFields_
      refine .step trivial fun ctx _ => ?_
      have hcert : ∀ file, Prog.Only (fun o => apart o = true) (sys (.SSL_CTX_use_certificate_file ctx file)) :=
        fun _ => ⟨rfl, fun _ => trivial⟩
      have hkey : ∀ file, Prog.Only (fun o => apart o = true) (sys (.SSL_CTX_use_PrivateKey_file ctx file)) :=
        fun _ => ⟨rfl, fun _ => trivial⟩
      refine Prog.Obeys.bind (hfile hcert (by decide) _ s) fun s₁ ret h₁ => ?_
      rw [h₁.1]
      split
      · exact ⟨rfl, h₁.2⟩
      · refine Prog.Obeys.bind (hfile hkey (by decide) _ s) fun s₂ ret h₂ => ?_
        rw [h₂.1]
        split
        · exact ⟨rfl, h₂.2⟩
        · refine .step trivial fun _ _ => .step trivial fun _ _ => .step trivial fun _ _ => .step trivial fun _ _ => ?_
          exact ⟨rfl, hsuccess⟩
    · split
      · exact hs'
      · exact .step trivial fun _ _ => ⟨hs'.1, hsuccess⟩
  · exact ⟨rfl, hsuccess⟩

/-- What a call of `judoAccept_` leaves behind. -/
def lostByAccept (ret : ℤ) : ℕ := if ret = JUDO_FAILURE then 1 else 0

/-- `judoAccept_` loses its buffer when it fails with `JUDO_FAILURE`, and else nothing. -/
theorem frees_judoAccept_ (server : JudoServer) (fuel : ℕ) :
    Frees (fun s' out => ∀ server' ret, out = some (server', ret) →
        s'.stray = none ∧ s'.wild = w ∧ s'.live.length = l.length + lostByAccept ret)
      (judoAccept_ (judoHandshake_ · · fuel) server) ⟨l, none, w⟩ := by
  have hend : ∀ {l' : List ℕ} {server₀ : JudoServer} {ret₀ : ℤ}, l'.length = l.length + lostByAccept ret₀ →
      ∀ server' ret, some (server₀, ret₀) = some (server', ret) →
        (⟨l', none, w⟩ : CharHeap).stray = none ∧ (⟨l', none, w⟩ : CharHeap).wild = w
          ∧ (⟨l', none, w⟩ : CharHeap).live.length = l.length + lostByAccept ret := by
    intro l' server₀ ret₀ hlen server' ret hout
    obtain ⟨-, rfl⟩ := Prod.mk.inj (Option.some.inj hout)
    exact ⟨rfl, rfl, hlen⟩
  have hgreet : ∀ (n : ssl_node) (buffer : ℕ),
      Frees (fun s' out => ∀ server' ret, out = some (server', ret) →
          s'.stray = none ∧ s'.wild = w ∧ s'.live.length = l.length + lostByAccept ret)
        (judoAccept_.greet server n buffer) ⟨buffer :: l, none, w⟩ := by
    intro n buffer
    -- the exits in the order of the source: no node, no mode byte sent, none read, the handshake,
    -- the greeting
    unfold judoAccept_.greet
    refine frees_delete (.step trivial fun buffer _ => .step trivial fun _ _ => ?_)
    refine Prog.Obeys.bind (frees_judoSend_ ..) fun s' _ hs' => ?_
    rw [hs']
    exact frees_delete (hend rfl)
  unfold judoAccept_
  refine .step trivial fun node _ => Prog.Obeys.bind (frees_judoAccept_fill ..) fun s' filled hs' => ?_
  rw [hs'.1]
  split
  · refine .step trivial fun _ _ => hend ?_
    rw [lostByAccept, if_neg hs'.2, Nat.add_zero]
  unfold judoAccept_.negotiate
  refine .step trivial fun buffer _ => .step trivial fun fp _ => .step trivial fun _ _ => .step trivial fun ret _ => ?_
  split
  · exact .step trivial fun _ _ => Prog.Obeys.bind (frees_dstr_ssl_node ..) fun s' _ hs' => hs' ▸ hend rfl
  · refine frees_read fun resp => .step trivial fun _ _ => ?_
    split
    · split
      · refine Prog.Obeys.bind (frees_judoHandshake_ ..) fun s' ret hs' => ?_
        rw [hs']
        cases ret with
        | none => exact fun _ _ hout => absurd hout.symm (Option.some_ne_none _)
        | some ret =>
            unfold judoAccept_.shaken
            dsimp only
            split
            · refine frees_delete (Prog.Obeys.bind (frees_dstr_ssl_node ..) fun s' _ hs' => ?_)
              rw [hs']
              exact Prog.Obeys.step trivial fun _ _ => .step trivial fun _ _ => hend rfl
            · exact hgreet _ _
      · exact hgreet _ _
    · exact .step trivial fun _ _ => Prog.Obeys.bind (frees_dstr_ssl_node ..) fun s' _ hs' => hs' ▸ hend rfl

/-- What there is between two rounds of `judoRead_`: the array of the message is made when its
size is known, and up to then its pointer holds what it was given. -/
def Receiving (l : List ℕ) (w : Bool) (buffer x : ℕ) (t_out_buf : ℕ) (t_outbuf_size : ℤ) (s : CharHeap) : Prop :=
  (t_outbuf_size ≠ -1 ∧ s = ⟨t_out_buf :: buffer :: l, none, w⟩)
    ∨ (t_outbuf_size = -1 ∧ t_out_buf = x ∧ s = ⟨buffer :: l, some x, w⟩)

/-- What a call of `judoRead_` leaves behind: the array of the message, and its packet buffer
too when the connection is closed. -/
def Received (l : List ℕ) (w : Bool) (x : ℕ) (ret : ℤ) (out_buf : ℕ) (s : CharHeap) : Prop :=
  (ret = 0 ∧ s = ⟨out_buf :: l, none, w⟩)
    ∨ ∃ buffer size, ret = -1 ∧ Receiving l w buffer x out_buf size s

/-- It returns this. -/
theorem received_of_eq {server : JudoServer} {ret size : ℤ} {out_buf x : ℕ} {s : CharHeap} (h : Received l w x ret out_buf s) :
    ∀ server' ret' out_buf' size', some (server, ret, out_buf, size) = some (server', ret', out_buf', size') →
      Received l w x ret' out_buf' s := by
  intro server' ret' out_buf' size' hout
  cases hout
  exact h

/-- The array is made in the first round, and is the one of the first round in all others. -/
theorem frees_reserve {buffer t_out_buf : ℕ} {l' : List ℕ} {b packet_buf_size t_outbuf_size : ℤ}
    (h : (t_outbuf_size ≠ -1 ∧ l' = t_out_buf :: buffer :: l) ∨ (t_outbuf_size = -1 ∧ l' = buffer :: l)) :
    Frees (fun s' out => ∀ out_buf size, out = some (out_buf, size) → size ≠ -1 ∧ s' = ⟨out_buf :: buffer :: l, none, w⟩)
      (judoRead_.reserve b packet_buf_size t_out_buf t_outbuf_size) ⟨l', none, w⟩ := by
  unfold judoRead_.reserve
  rcases h with ⟨hsize, rfl⟩ | ⟨hsize, rfl⟩
  · rw [if_neg hsize]
    intro out_buf size hout
    obtain ⟨rfl, rfl⟩ := Prod.mk.inj (Option.some.inj hout)
    exact ⟨hsize, rfl⟩
  · rw [if_pos hsize]
    generalize toInt32 (b * packet_buf_size) = size₀
    split
    · exact fun _ _ hout => absurd hout.symm (Option.some_ne_none _)
    · next hnonneg =>
        refine .step trivial fun out _ out_buf size hout => ?_
        obtain ⟨rfl, rfl⟩ := Prod.mk.inj (Option.some.inj hout)
        exact ⟨by omega, rfl⟩

/-- The rounds of `judoRead_`. -/
theorem frees_judoRead_loop (server : JudoServer) (t_node : ssl_node) (t_poll : pollfd) (buffer : ℕ) (packet_buf_size : ℤ)
    (x fuel : ℕ) : ∀ (packet_buffer : Buffer) (t_out_buf : ℕ) (index t_outbuf_size : ℤ) {s : CharHeap},
      Receiving l w buffer x t_out_buf t_outbuf_size s →
      Frees (fun s' out => ∀ server' ret out_buf size, out = some (server', ret, out_buf, size) → Received l w x ret out_buf s')
        (judoRead_.loop server t_node t_poll buffer packet_buf_size fuel packet_buffer t_out_buf index t_outbuf_size) s := by
  -- by the rounds: each closes the connection, or takes one packet and either needs another or is
  -- done
  induction fuel with
  | zero => exact fun _ _ _ _ _ _ _ _ _ _ hout => absurd hout.symm (Option.some_ne_none _)
  | succ fuel ih =>
      intro packet_buffer t_out_buf index t_outbuf_size s hs
      unfold judoRead_.loop
      refine .step trivial fun r _ => ?_
      split
      · next hclosed =>
          have hsame : charHeap.after s ⟨.read t_node.fp packet_buf_size, r⟩ = s := by
            show ({ s with stray := if bytesRead r > 0 then none else s.stray } : CharHeap) = s
            rw [if_neg (by omega)]
          rw [hsame]
          unfold judoDisconnect_
          refine .step trivial fun _ _ => .step trivial fun _ _ => ?_
          refine Prog.Obeys.bind (frees_dstr_ssl_node ..) fun s' _ hs' => .step trivial fun _ _ => ?_
          rw [hs']
          exact received_of_eq (.inr ⟨buffer, t_outbuf_size, rfl, hs⟩)
      · next hopen =>
          have hafter : ∃ l', charHeap.after s ⟨.read t_node.fp packet_buf_size, r⟩ = ⟨l', none, w⟩
              ∧ ((t_outbuf_size ≠ -1 ∧ l' = t_out_buf :: buffer :: l) ∨ (t_outbuf_size = -1 ∧ l' = buffer :: l)) := by
            have heq : charHeap.after s ⟨.read t_node.fp packet_buf_size, r⟩ = ⟨s.live, none, s.wild⟩ := by
              show ({ s with stray := if bytesRead r > 0 then none else s.stray } : CharHeap) = _
              rw [if_pos (by omega)]
            rw [heq]
            rcases hs with ⟨hsize, rfl⟩ | ⟨hsize, -, rfl⟩
            · exact ⟨_, rfl, .inl ⟨hsize, rfl⟩⟩
            · exact ⟨_, rfl, .inr ⟨hsize, rfl⟩⟩
          obtain ⟨l', hl', hmade⟩ := hafter
          rw [hl']
          have hunseal : ∀ (bytes_read : ℤ) (packet_buffer : Buffer),
              Prog.Only (fun o => apart o = true) (judoRead_.unseal t_node packet_buf_size bytes_read packet_buffer) := by
            intro bytes_read packet_buffer
            unfold judoRead_.unseal
            split
            · exact .step rfl fun _ => .step rfl fun _ => trivial
            · trivial
          have hcopy : ∀ (out_buf : ℕ) (packet_buffer : Buffer) (n : ℕ) (i index : ℤ),
              Prog.Only (fun o => apart o = true) (judoRead_.copy out_buf packet_buffer n i index) := by
            intro out_buf packet_buffer n
            induction n with
            | zero => exact fun _ _ => trivial
            | succ n ih => exact fun _ _ => .step rfl fun _ => ih _ _
          refine Prog.Obeys.bind (frees_apart (hunseal ..) _) fun s₁ packet_buffer hs₁ => ?_
          rw [hs₁]
          dsimp only
          generalize packet_buffer.int32 0 = a, packet_buffer.int32 4 = b, (packet_buf_size - 40).toNat = n
          refine Prog.Obeys.bind (frees_reserve hmade) fun s₂ out hs₂ => ?_
          cases out with
          | none => exact fun _ _ _ _ hout => absurd hout.symm (Option.some_ne_none _)
          | some out =>
              obtain ⟨hsize, rfl⟩ := hs₂ out.1 out.2 rfl
              dsimp only
              refine Prog.Obeys.bind (frees_apart (hcopy ..) _) fun s₃ _ hs₃ => ?_
              rw [hs₃]
              split
              · exact ih _ _ _ _ (.inl ⟨hsize, rfl⟩)
              · -- the packet buffer is deleted, and the array is left
                refine Prog.Obeys.step (.inl (List.mem_cons_of_mem _ List.mem_cons_self)) fun _ _ =>
                  Prog.Obeys.step trivial fun _ _ => received_of_eq (.inl ⟨rfl, ?_⟩)
                show (⟨(out.1 :: buffer :: l).erase buffer, none, w || decide (none = some buffer)⟩ : CharHeap) = _
                rw [erase_second, decide_eq_false (Option.some_ne_none buffer).symm, Bool.or_false]

/-- `judoRead_` makes its packet buffer and runs these rounds. -/
theorem frees_judoRead_ (fuel : ℕ) (server : JudoServer) (t_node : ssl_node) (t_poll : pollfd) (x : ℕ) :
    Frees (fun s' out => ∀ server' ret out_buf size, out = some (server', ret, out_buf, size) → Received l w x ret out_buf s')
      (judoRead_ fuel server t_node t_poll x) ⟨l, some x, w⟩ := by
  unfold judoRead_
  refine .step trivial fun _ _ => .step trivial fun index _ => ?_
  generalize t_node.bufferSize = packet_buf_size
  exact Prog.Obeys.step trivial fun packet_buffer _ => frees_judoRead_loop _ _ _ _ _ _ _ _ _ _ _ (.inr ⟨rfl, rfl, rfl⟩)

/-! ## The event loop

What judoRead_ leaves is deleted by the same iteration that called it, except for the packet
buffer of a connection that was closed. -/

/-- What an iteration leaves behind. -/
def lost : Act → ℕ
  | .accept ret => lostByAccept ret
  | .read _ ret => if ret = -1 then 1 else 0
  | .idle => 0

/-- No stray pointer is left, and the arrays lost are counted, unless one has been deleted. -/
def Kept (n : ℕ) (s : CharHeap) : Prop := s.stray = none ∧ (s.wild = false → s.live.length = n)

/-- Deleting a stray pointer is remembered. -/
theorem wild_of_stray {s : CharHeap} {b : ℕ} (h : s.stray = some b) (u : Unit) :
    (charHeap.after s ⟨.delete_char b, u⟩).wild = true := by
  show (s.wild || decide (s.stray = some b)) = true
  rw [decide_eq_true h, Bool.or_true]

/-- The array, or the uninitialised pointer, is deleted, whatever comes of it. -/
theorem frees_discard {s : CharHeap} {buffer : ℕ} (hbuffer : buffer ∈ s.live ∨ s.stray = some buffer) (node : ssl_node)
    (ret buffer_size : ℤ) :
    Frees (fun s' _ => s' = charHeap.after s ⟨.delete_char buffer, ()⟩) (run.discard node ret buffer buffer_size) s := by
  refine .step trivial fun _ _ => .step hbuffer fun _ _ => ?_
  split
  · exact .step trivial fun _ _ => rfl
  · exact rfl

/-- Serving a row loses what its call loses. -/
theorem frees_serve (fuel : ℕ) (r : Round) (p : pollfd) (node : ssl_node) {n : ℕ} {s : CharHeap} (hs : Kept n s) :
    Frees (fun s' out => ∀ r' act, out = some (r', act) → Kept (n + lost act) s') (run.serve fuel r p node) s := by
  obtain ⟨l, stray, w⟩ := s
  obtain ⟨rfl, hn⟩ := hs
  unfold run.serve
  split
  · split
    · refine .step trivial fun _ _ => Prog.Obeys.bind (frees_judoAccept_ (l := l) (w := w) ..) fun s' out hs' => ?_
      cases out with
      | none => exact fun _ _ hout => absurd hout.symm (Option.some_ne_none _)
      | some out =>
          obtain ⟨hstray, hwild, hlen⟩ := hs' out.1 out.2 rfl
          intro r' act hout
          obtain ⟨-, rfl⟩ := Prod.mk.inj (Option.some.inj hout)
          refine ⟨hstray, fun hw => ?_⟩
          rw [hlen, hn (hwild ▸ hw)]
          rfl
    · have hclear : Prog.Only (fun o => apart o = true) r.clear := .step rfl fun _ => trivial
      refine Prog.Obeys.bind (frees_apart hclear _) fun s₁ r₁ hs₁ => ?_
      rw [hs₁]
      refine .step trivial fun x _ => Prog.Obeys.bind (frees_judoRead_ ..) fun s₂ out hs₂ => ?_
      cases out with
      | none => exact fun _ _ hout => absurd hout.symm (Option.some_ne_none _)
      | some out =>
          obtain ⟨server', ret, out_buf, size⟩ := out
          dsimp only
          -- an array, or a pointer that has never been set
          have hdeleted : (out_buf ∈ s₂.live ∨ s₂.stray = some out_buf)
              ∧ Kept (n + lost (.read (p, node) ret)) (charHeap.after s₂ ⟨.delete_char out_buf, ()⟩) := by
            rcases hs₂ _ _ _ _ rfl with ⟨rfl, rfl⟩ | ⟨buffer, size', rfl, ⟨-, rfl⟩ | ⟨-, rfl, rfl⟩⟩
            · rw [after_delete]
              exact ⟨.inl List.mem_cons_self, rfl, hn⟩
            · rw [after_delete]
              exact ⟨.inl List.mem_cons_self, rfl, fun hw => congrArg (· + 1) (hn hw)⟩
            · refine ⟨.inr rfl, rfl, fun hw => ?_⟩
              rw [wild_of_stray rfl ()] at hw
              exact absurd hw.symm Bool.false_ne_true
          obtain ⟨hallowed, hkept⟩ := hdeleted
          refine Prog.Obeys.bind (frees_discard hallowed ..) fun s₃ goesOn hs₃ => ?_
          rw [hs₃]
          cases goesOn with
          | false => exact fun _ _ hout => absurd hout.symm (Option.some_ne_none _)
          | true =>
              intro r' act hout
              obtain ⟨-, rfl⟩ := Prod.mk.inj (Option.some.inj hout)
              exact hkept
  · intro r' act hout
    obtain ⟨-, rfl⟩ := Prod.mk.inj (Option.some.inj hout)
    exact ⟨rfl, hn⟩

/-- An iteration loses nothing else. -/
theorem frees_iteration (fuel : ℕ) (r : Round) {n : ℕ} {s : CharHeap} (hs : Kept n s) :
    Frees (fun s' out => ∀ r' act, out = some (r', act) → Kept (n + lost act) s') (run.iteration fuel r) s := by
  have haccess : ∀ {α : Type} (o : Op) (f : Ans o → α), apart o = true →
      Prog.Only (fun o => apart o = true) (sys o >>= fun x => pure (f x)) := fun o f ho => .step ho fun _ => trivial
  unfold run.iteration
  refine Prog.Obeys.bind (frees_apart (haccess _ _ rfl) _) fun s₁ p hs₁ => ?_
  rw [hs₁]
  refine Prog.Obeys.bind (frees_apart (haccess _ _ rfl) _) fun s₂ node hs₂ => ?_
  rw [hs₂]
  refine Prog.Obeys.bind (frees_serve _ _ _ _ hs) fun s₃ out hs₃ => ?_
  cases out with
  | none => exact fun _ _ hout => absurd hout.symm (Option.some_ne_none _)
  | some out =>
      -- no access allocates or deletes, so the two reads of the row and the advance keep what is
      -- held; serve is the one step that frees
      have hadvance : Prog.Only (fun o => apart o = true) (run.advance out.1) := by
        unfold run.advance
        split
        · exact .step rfl fun _ => trivial
        · trivial
      refine Prog.Obeys.bind (frees_apart hadvance _) fun s₄ r₄ hs₄ => ?_
      rw [hs₄]
      intro r' act hout
      obtain ⟨-, rfl⟩ := Prod.mk.inj (Option.some.inj hout)
      exact hs₃ _ _ rfl

/-! ## Whole runs

The arrays left are added up over the steps of a run, with the operations of each step in its
record. -/

/-- `run` up to some point, with its steps and their records. -/
abbrev LoopRecorded (server : JudoServer) : List (RunState × (Outcome × List (Event Op Ans))) → RunState → Prop :=
  History (fun s l s' => LoopStep s l.1 l.2 s') (.outer { server with m_active := true } 0)

/-- All operations of the run. -/
def recordOf (hist : List (RunState × (Outcome × List (Event Op Ans)))) : List (Event Op Ans) := hist.flatMap fun x => x.2.2

theorem recordOf_snoc (hist : List (RunState × (Outcome × List (Event Op Ans)))) (x : RunState × (Outcome × List (Event Op Ans))) :
    recordOf (hist ++ [x]) = recordOf hist ++ x.2.2 := by
  unfold recordOf
  rw [List.flatMap_append, List.flatMap_singleton]

/-- What a step leaves behind. -/
def Outcome.lost : Outcome → ℕ
  | .served act => JudoEngine.lost act
  | _ => 0

/-- The arrays after these operations of `run`. -/
def heapAfter (tr : List (Event Op Ans)) : CharHeap := charHeap.afters ⟨[], none, false⟩ tr

/-- A step deletes only what it may, and adds what it loses. -/
theorem LoopStep.frees {s s' : RunState} {out : Outcome} {tr : List (Event Op Ans)} {n : ℕ} {heap : CharHeap}
    (h : LoopStep s out tr s') (hheap : Kept n heap) :
    charHeap.Follows heap tr ∧ (s' ≠ .halted → Kept (n + out.lost) (charHeap.afters heap tr)) := by
  cases h with
  | round ha hruns =>
      have hround : ∀ server a, Prog.Only (fun o => apart o = true) (run.round server a) :=
        fun _ _ => .step rfl fun _ => .step rfl fun _ => trivial
      obtain ⟨hfollows, hafter⟩ := (frees_apart (hround _ _) heap).runs hruns fun _ _ => trivial
      refine ⟨hfollows, fun _ => ?_⟩
      rw [show charHeap.afters heap tr = heap from hafter]
      exact hheap
  | iteration fuel hgo hruns =>
      obtain ⟨hfollows, hafter⟩ := (frees_iteration fuel _ hheap).runs hruns fun _ _ => trivial
      exact ⟨hfollows, fun _ => hafter _ _ rfl⟩
  | halt fuel hgo hruns =>
      exact ⟨((frees_iteration fuel _ hheap).runs hruns fun _ _ => trivial).1, fun hne => absurd rfl hne⟩
  | again hdone => exact ⟨trivial, fun _ => hheap⟩

variable {server : JudoServer} {hist : List (RunState × (Outcome × List (Event Op Ans)))} {last : RunState}

/-- So does a run. -/
theorem frees_run (h : LoopRecorded server hist last) :
    charHeap.Follows ⟨[], none, false⟩ (recordOf hist)
      ∧ (last ≠ .halted → Kept (total (fun l => l.1.lost) hist) (heapAfter (recordOf hist))) := by
  induction h with
  | start => exact ⟨trivial, fun _ => ⟨rfl, fun _ => rfl⟩⟩
  | @step hist s s' l h hstep ih =>
      have hs : s ≠ .halted := by
        rintro rfl
        cases hstep
      obtain ⟨hfollows, hkept⟩ := ih
      obtain ⟨hfollows', hkept'⟩ := LoopStep.frees hstep (hkept hs)
      rw [recordOf_snoc, total_append, heapAfter, Protocol.afters_append]
      exact ⟨hfollows.append hfollows', fun hne => hkept' hne⟩

/-- **The arrays of the event loop.** In every run all that is deleted is an array that has been
made and not been deleted since, or the uninitialised pointer of a read that has received
nothing; and when the latter never happens, there is one array left for each accept that has
failed with `JUDO_FAILURE` and each connection that was closed. -/
theorem run_arrays (h : LoopRecorded server hist last) :
    (∀ before b u after, recordOf hist = before ++ ⟨.delete_char b, u⟩ :: after →
        b ∈ (heapAfter before).live ∨ (heapAfter before).stray = some b)
      ∧ (last ≠ .halted → (heapAfter (recordOf hist)).wild = false →
        (heapAfter (recordOf hist)).live.length = total (fun l => l.1.lost) hist) := by
  obtain ⟨hfollows, hkept⟩ := frees_run h
  refine ⟨fun before b u after hsplit => ?_, fun hne hwild => (hkept hne).2 hwild⟩
  rw [hsplit] at hfollows
  exact hfollows.split

/-- A listening socket and a client that are ready, with no bytes coming in. -/
def unansweredRound : Round := (Prog.exec Arrivals.answer (run.round { serverOf 1 with m_active := true } 0) ⟨[]⟩).2.1

/-- A client that does not answer is accepted: the buffer is lost. -/
theorem run_arrays_unanswered :
    ∃ hist last, LoopRecorded (serverOf 1) hist last
      ∧ (∀ before b u after, recordOf hist = before ++ ⟨.delete_char b, u⟩ :: after →
        b ∈ (heapAfter before).live ∨ (heapAfter before).stray = some b)
      ∧ (heapAfter (recordOf hist)).live.length = 1 := by
  have hround := Prog.runs_exec (h := Arrivals.answer) (run.round { serverOf 1 with m_active := true } 0) ⟨[]⟩
  have hiteration : Prog.Runs (run.iteration 1 unansweredRound) _ _ := runs_quiet (by decide +kernel)
  have hrun : LoopRecorded (serverOf 1)
      ([(.outer { serverOf 1 with m_active := true } 0, (.polled unansweredRound.table.getSize unansweredRound.sockets_to_handel unansweredRound.marked, _))]
        ++ [(.inner unansweredRound, (.served (quietStep unansweredRound).2, (quietIteration unansweredRound).1))])
      (.inner (quietStep unansweredRound).1) :=
    .step (.step .start (.round (by decide) hround)) (.iteration 1 (by decide +kernel) hiteration)
  obtain ⟨hfrees, hlost⟩ := run_arrays hrun
  exact ⟨_, _, hrun, hfrees, (hlost RunState.noConfusion (by decide +kernel)).trans (by decide +kernel)⟩

end JudoEngine
