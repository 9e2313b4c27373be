/-
What `judoRead_` makes of the bytes that a peer sends.

The peer (`Peer`) decides what every `read` returns, what OpenSSL makes of it, and
what the new arrays hold; `index` is read as starting from 0. `images` are then
the contents of the packet buffer, one for each packet that a call takes in, and
`exec_judoRead_` says everything about a call in terms of them: what it returns,
what it allocates, and what it stores where.
-/
import JudoEngine.JudoServer.Model

set_option autoImplicit false

open Words

namespace JudoEngine

/-! ## The other end

A peer may send anything. Everything that a call of judoRead_ does depends on it and on the
contents of new arrays. -/

/-- What the reads and `SSL_read`s return, one after the other (a failure when the
list has run out), what the arrays hold when they are new, and the next address. -/
structure Peer where
  reads : List (List Byte)
  plain : List (List Byte)
  mem : ℕ → Buffer
  fresh : ℕ

/-- The answers of the system. -/
def Peer.answer (e : Peer) : (o : Op) → Ans o × Peer
  | .read _ _ => (e.reads.head?, { e with reads := e.reads.tail })
  | .SSL_read _ _ => (e.plain.head?, { e with plain := e.plain.tail })
  | .new_char _ => ((e.fresh, e.mem e.fresh), { e with fresh := e.fresh + 1 })
  | .indeterminate => ((0 : ℤ), e)
  | _ => (default, e)

/-- It sends its next chunk. -/
theorem Peer.answer_read {e : Peer} {r : List Byte} {reads : List (List Byte)} (hreads : e.reads = r :: reads) (fd size : ℤ) :
    e.answer (.read fd size) = (some r, { e with reads := reads }) := by
  rw [Peer.answer, hreads]
  rfl

/-- What the arrays hold when they are new never changes. -/
theorem Peer.answer_mem (e : Peer) (o : Op) : (e.answer o).2.mem = e.mem := by
  cases o <;> rfl

/-- So they do not after a whole program. -/
theorem Peer.exec_mem {α : Type} (p : Sys α) : ∀ (e : Peer), (Prog.exec Peer.answer p e).2.2.mem = e.mem := by
  induction p with
  | ret a => exact fun _ => rfl
  | call o k ih =>
      intro e
      rw [Prog.exec_call]
      show (Prog.exec Peer.answer (k _) _).2.2.mem = e.mem
      rw [ih, Peer.answer_mem]

/-- The bytes that have been stored through `*t_out_buf`: the array, the index,
and the byte. -/
def stores (tr : List (Event Op Ans)) : List (ℕ × ℤ × Byte) :=
  tr.filterMap fun ev =>
    match ev.op with
    | .store buffer index x => some (buffer, index, x)
    | _ => none

/-- The arrays that have been allocated, with their sizes. -/
def allocs : List (Event Op Ans) → List (ℕ × ℤ)
  | [] => []
  | ⟨.new_char size, x⟩ :: tr => (x.1, size) :: allocs tr
  | _ :: tr => allocs tr

/-- The bytes, stored one after the other from `index` on. -/
def placed (buffer : ℕ) : ℤ → List Byte → List (ℕ × ℤ × Byte)
  | _, [] => []
  | index, x :: l => (buffer, index, x) :: placed buffer (index + 1) l

theorem placed_append (buffer : ℕ) (l l' : List Byte) : ∀ (index : ℤ),
    placed buffer index (l ++ l') = placed buffer index l ++ placed buffer (index + l.length) l' := by
  induction l with
  | nil =>
      intro index
      simp [placed]
  | cons x l ih =>
      intro index
      rw [List.cons_append, placed, placed, ih, List.cons_append, List.length_cons]
      have hcast : index + 1 + (l.length : ℤ) = index + ((l.length + 1 : ℕ) : ℤ) := by
        push_cast
        omega
      rw [hcast]

/-- Which indices that touches. -/
theorem mem_placed {buffer b : ℕ} {l : List Byte} {i : ℤ} {x : Byte} : ∀ {index : ℤ},
    (b, i, x) ∈ placed buffer index l → b = buffer ∧ index ≤ i ∧ i < index + l.length := by
  induction l with
  | nil =>
      intro index h
      exact absurd h (List.not_mem_nil)
  | cons y l ih =>
      intro index h
      rw [placed, List.mem_cons] at h
      rw [List.length_cons]
      rcases h with h | h
      · cases h
        refine ⟨rfl, le_refl _, ?_⟩
        push_cast
        omega
      · obtain ⟨hb, hlo, hhi⟩ := ih h
        refine ⟨hb, by omega, ?_⟩
        push_cast
        omega

/-- The last byte is stored at the last index. -/
theorem placed_concat_mem (buffer : ℕ) (l : List Byte) (x : Byte) (index : ℤ) :
    (buffer, index + l.length, x) ∈ placed buffer index (l ++ [x]) := by
  rw [placed_append]
  exact List.mem_append_right _ List.mem_cons_self

/-! ## The packet buffer

It keeps what a short read does not overwrite, so a packet may have bytes of the one before
it. `images` goes through the reads with the buffer as it then is. -/

/-- `packet_buffer[8 .. packet_buf_size - 32)`. -/
def payload (packet_buf_size : ℤ) (packet_buffer : Buffer) : List Byte :=
  (List.range (packet_buf_size - 40).toNat).map fun (i : ℕ) => packet_buffer (8 + i)

@[simp] theorem length_payload (packet_buf_size : ℤ) (packet_buffer : Buffer) :
    (payload packet_buf_size packet_buffer).length = (packet_buf_size - 40).toNat := by
  rw [payload, List.length_map, List.length_range]

theorem getElem_payload {packet_buf_size : ℤ} {packet_buffer : Buffer} {k : ℕ}
    (hk : k < (payload packet_buf_size packet_buffer).length) :
    (payload packet_buf_size packet_buffer)[k] = packet_buffer (8 + k) := by
  simp [payload]

/-- The terminating NUL is stored after the payload. -/
theorem payload_set (packet_buf_size : ℤ) (packet_buffer : Buffer) (x : Byte) :
    payload packet_buf_size (packet_buffer.set (packet_buf_size - 32) x)
      = payload packet_buf_size packet_buffer := by
  unfold payload
  refine List.map_congr_left fun i hi => ?_
  rw [List.mem_range] at hi
  exact Buffer.set_of_ne _ _ (by omega)

/-- The packet buffer after a `read` and, under TLS, an `SSL_read`. -/
def image (certs : Bool) (packet_buffer : Buffer) (r : List Byte) (plain : Option (List Byte)) : Buffer :=
  if certs then (packet_buffer.fill r).fill (plain.getD []) else packet_buffer.fill r

/-- The packet buffers of the packets that one call takes in: up to the first that
says that it is the last one, or up to a read that returns nothing. -/
def images (certs : Bool) (packet_buf_size : ℤ) :
    (reads plain : List (List Byte)) → (packet_buffer : Buffer) → List Buffer
  | [], _, _ => []
  | r :: reads, plain, packet_buffer =>
      if r = [] then []
      else
        let p := image certs packet_buffer r plain.head?
        if p.int32 0 = p.int32 4 then [p]
        else p :: images certs packet_buf_size reads (if certs then plain.tail else plain)
          (p.set (packet_buf_size - 32) 0)

/-- A packet that says that it is the last one has come. -/
def Complete (ps : List Buffer) : Prop := ∃ p ∈ ps, p.int32 0 = p.int32 4

/-! ## One call

The rounds of judoRead_ go through the images. The first one makes the array and all others
find it made, so there is a lemma for either. -/

@[simp] theorem stores_nil : stores [] = [] := rfl

@[simp] theorem stores_append (tr tr' : List (Event Op Ans)) :
    stores (tr ++ tr') = stores tr ++ stores tr' := List.filterMap_append ..

@[simp] theorem stores_cons (o : Op) (x : Ans o) (tr : List (Event Op Ans)) :
    stores (⟨o, x⟩ :: tr) = (match o with
      | .store buffer index x => [(buffer, index, x)]
      | _ => []) ++ stores tr := by
  cases o <;> rfl

@[simp] theorem allocs_append (tr tr' : List (Event Op Ans)) :
    allocs (tr ++ tr') = allocs tr ++ allocs tr' := by
  induction tr with
  | nil => rfl
  | cons ev tr ih =>
      obtain ⟨o, x⟩ := ev
      cases o <;> simp only [List.cons_append, allocs, ih]

/-- The copying loop stores its bytes and does nothing else. -/
theorem exec_copy (t_out_buf : ℕ) (packet_buffer : Buffer) (n : ℕ) : ∀ (i index : ℤ) (e : Peer),
    ∃ tr, Prog.exec Peer.answer (judoRead_.copy t_out_buf packet_buffer n i index) e = (tr, (), e)
      ∧ stores tr = placed t_out_buf index ((List.range n).map fun (k : ℕ) => packet_buffer (8 + (i + k)))
      ∧ allocs tr = [] := by
  -- on the bytes left in the packet
  induction n with
  | zero => exact fun _ _ _ => ⟨[], rfl, rfl, rfl⟩
  | succ n ih =>
      intro i index e
      obtain ⟨tr, hexec, hstores, hallocs⟩ := ih (i + 1) (index + 1) e
      refine ⟨⟨.store t_out_buf index (packet_buffer (8 + i)), ()⟩ :: tr, ?_, ?_, hallocs⟩
      · rw [judoRead_.copy, Prog.op_bind, Prog.exec_call]
        show (_ :: (Prog.exec Peer.answer _ e).1, (Prog.exec Peer.answer _ e).2) = _
        rw [hexec]
      · have hmap : (List.range n).map ((fun (k : ℕ) => packet_buffer (8 + (i + k))) ∘ Nat.succ)
            = (List.range n).map fun (k : ℕ) => packet_buffer (8 + (i + 1 + k)) := by
          refine List.map_congr_left fun k _ => ?_
          simp only [Function.comp, Nat.cast_succ]
          congr 2
          omega
        rw [stores_cons, hstores, List.range_succ_eq_map, List.map_cons, List.map_map, hmap, placed,
          Nat.cast_zero, add_zero]
        rfl

/-- ... and what it stores are the bytes of the packet. -/
theorem exec_copy_payload (t_out_buf : ℕ) (packet_buf_size : ℤ) (p : Buffer) (index : ℤ) (e : Peer) :
    ∃ tr, Prog.exec Peer.answer (judoRead_.copy t_out_buf (p.set (packet_buf_size - 32) 0)
        (packet_buf_size - 40).toNat 0 index) e = (tr, (), e)
      ∧ stores tr = placed t_out_buf index (payload packet_buf_size p) ∧ allocs tr = [] := by
  obtain ⟨tr, hexec, hstores, hallocs⟩ := exec_copy t_out_buf (p.set (packet_buf_size - 32) 0)
    (packet_buf_size - 40).toNat 0 index e
  refine ⟨tr, hexec, ?_, hallocs⟩
  rw [hstores, ← payload_set packet_buf_size p 0]
  simp only [zero_add]
  rfl

/-- A round puts the next image in the packet buffer. -/
theorem exec_unseal (t_node : ssl_node) (packet_buf_size bytes_read : ℤ) (p : Buffer) (r : List Byte) (e : Peer) :
    ∃ tr, Prog.exec Peer.answer (judoRead_.unseal t_node packet_buf_size bytes_read (p.fill r)) e
        = (tr, image t_node.certs p r e.plain.head?,
            { e with plain := if t_node.certs then e.plain.tail else e.plain })
      ∧ stores tr = [] ∧ allocs tr = [] := by
  unfold judoRead_.unseal image
  by_cases hcerts : t_node.certs = true
  · simp only [hcerts, if_true]
    exact ⟨_, rfl, rfl, rfl⟩
  · simp only [hcerts]
    exact ⟨_, rfl, rfl, rfl⟩

section Call

variable (server : JudoServer) (t_node : ssl_node) (t_poll : pollfd) (buffer : ℕ) (packet_buf_size : ℤ)

/-- A round in which the read fails, or returns nothing. -/
theorem exec_loop_cut (fuel : ℕ) (p : Buffer) (out : ℕ) (index size : ℤ) {e : Peer}
    (h : e.reads.head?.getD [] = []) :
    ∃ server' tr e', Prog.exec Peer.answer (judoRead_.loop server t_node t_poll buffer packet_buf_size (fuel + 1) p
        out index size) e = (tr, some (server', -1, out, size), e') ∧ stores tr = [] ∧ allocs tr = [] := by
  rw [judoRead_.loop, Prog.op_bind, Prog.exec_call]
  have hle : bytesRead (Peer.answer e (.read t_node.fp packet_buf_size)).1 ≤ 0 := by
    show bytesRead e.reads.head? ≤ 0
    cases hhead : e.reads.head? with
    | none => decide
    | some r =>
        rw [hhead, Option.getD_some] at h
        rw [h]
        decide
  rw [if_pos hle]
  exact ⟨_, _, _, rfl, rfl, rfl⟩

/-- A round in which a packet comes and there is an array for it: its payload is
stored, and the call goes on or ends. -/
theorem exec_loop_packet (fuel : ℕ) (p : Buffer) (out : ℕ) (index size : ℤ) {out' : ℕ} {size' : ℤ} {e e' : Peer}
    {r : List Byte} {reads : List (List Byte)} (hreads : e.reads = r :: reads) (hr : r ≠ [])
    (al : List (ℕ × ℤ))
    (hreserve : ∃ tr, Prog.exec Peer.answer
      (judoRead_.reserve ((image t_node.certs p r e.plain.head?).int32 4) packet_buf_size out size)
        { e with reads := reads, plain := if t_node.certs then e.plain.tail else e.plain }
          = (tr, some (out', size'), e') ∧ stores tr = [] ∧ allocs tr = al) :
    let q := image t_node.certs p r e.plain.head?
    let x := Prog.exec Peer.answer (judoRead_.loop server t_node t_poll buffer packet_buf_size fuel
      (q.set (packet_buf_size - 32) 0) out' (index + (packet_buf_size - 40).toNat) size') e'
    ∃ tr, stores tr = placed out' index (payload packet_buf_size q) ∧ allocs tr = al
      ∧ (q.int32 0 = q.int32 4 →
        Prog.exec Peer.answer (judoRead_.loop server t_node t_poll buffer packet_buf_size (fuel + 1) p
          out index size) e = (tr, some (server, 0, out', size'), e'))
      ∧ (q.int32 0 ≠ q.int32 4 →
        Prog.exec Peer.answer (judoRead_.loop server t_node t_poll buffer packet_buf_size (fuel + 1) p
          out index size) e = (tr ++ x.1, x.2)) := by
  intro q x
  obtain ⟨trᵣ, hreserve, hstores, hallocs⟩ := hreserve
  obtain ⟨hread, hrest⟩ := Prod.ext_iff.mp (Peer.answer_read hreads t_node.fp packet_buf_size)
  have hpos : ¬ bytesRead (some r) ≤ 0 := not_le.mpr (bytesRead_pos hr)
  obtain ⟨trᵤ, hunseal, hstores', hallocs'⟩ :=
    exec_unseal t_node packet_buf_size (bytesRead (some r)) p r { e with reads := reads }
  obtain ⟨trₖ, hcopy, hstores'', hallocs''⟩ := exec_copy_payload out' packet_buf_size q index e'
  rw [judoRead_.loop, Prog.op_bind, Prog.exec_call, hread, hrest, if_neg hpos, Prog.exec_bind, Option.getD_some,
    hunseal, Prog.exec_bind, hreserve]
  simp only
  rw [Prog.exec_bind, hcopy]
  -- the call ends with this round when the two numbers of the header are equal
  by_cases hab : q.int32 0 = q.int32 4
  · rw [if_neg (not_not.mpr hab)]
    refine ⟨_, ?_, ?_, fun _ => rfl, fun h => absurd hab h⟩
    · simp only [stores_cons, stores_append, hstores', hstores, hstores'', List.nil_append]
      simp
    · simp only [allocs, allocs_append, hallocs', hallocs, hallocs'', List.nil_append]
      simp [allocs]
  · rw [if_pos hab]
    refine ⟨⟨.read t_node.fp packet_buf_size, some r⟩ :: (trᵤ ++ (trᵣ ++ trₖ)), ?_, ?_, fun h => absurd h hab,
      fun _ => ?_⟩
    · simp only [stores_cons, stores_append, hstores', hstores, hstores'', List.nil_append]
    · simp only [allocs, allocs_append, hallocs', hallocs, hallocs'', List.nil_append, List.append_nil]
    · simp only [List.cons_append, List.append_assoc]
      rfl

/-- A round in which a packet comes and `new` throws. -/
theorem exec_loop_throw (fuel : ℕ) (p : Buffer) (out : ℕ) (index : ℤ) {e : Peer} {r : List Byte}
    {reads : List (List Byte)} (hreads : e.reads = r :: reads) (hr : r ≠ [])
    (hneg : toInt32 ((image t_node.certs p r e.plain.head?).int32 4 * packet_buf_size) < 0) :
    ∃ tr e', Prog.exec Peer.answer (judoRead_.loop server t_node t_poll buffer packet_buf_size (fuel + 1) p
      out index (-1)) e = (tr, none, e') ∧ stores tr = [] := by
  obtain ⟨hread, hrest⟩ := Prod.ext_iff.mp (Peer.answer_read hreads t_node.fp packet_buf_size)
  have hpos : ¬ bytesRead (some r) ≤ 0 := not_le.mpr (bytesRead_pos hr)
  obtain ⟨trᵤ, hunseal, hstores, -⟩ :=
    exec_unseal t_node packet_buf_size (bytesRead (some r)) p r { e with reads := reads }
  rw [judoRead_.loop, Prog.op_bind, Prog.exec_call, hread, hrest, if_neg hpos, Prog.exec_bind, Option.getD_some,
    hunseal, Prog.exec_bind, judoRead_.reserve, if_pos rfl, if_pos hneg]
  refine ⟨_, _, rfl, ?_⟩
  simp only [stores_cons, stores_append, hstores, List.nil_append]
  rfl

/-- What a call has done that has taken in these packets, with this array. -/
structure Reassembles (x : List (Event Op Ans) × Option (JudoServer × ℤ × ℕ × ℤ) × Peer) (e : Peer)
    (ps : List Buffer) (out : ℕ) (index size : ℤ) : Prop where
  stores : stores x.1 = placed out index (ps.flatMap (payload packet_buf_size))
  complete : Complete ps → x.2.1 = some (server, 0, out, size) ∧ x.2.2.reads = e.reads.drop ps.length
  cut : ¬ Complete ps → ∃ server', x.2.1 = some (server', -1, out, size)

/-- Nothing was taken in. -/
theorem reassembles_nil {server' : JudoServer} {tr : List (Event Op Ans)} {e e' : Peer} {out : ℕ} {index size : ℤ}
    (htr : JudoEngine.stores tr = []) :
    Reassembles server packet_buf_size (tr, some (server', -1, out, size), e') e [] out index size := by
  refine ⟨htr, fun hc => ?_, fun _ => ⟨server', rfl⟩⟩
  obtain ⟨q, hq, -⟩ := hc
  exact absurd hq List.not_mem_nil

/-- The last packet was taken in. -/
theorem reassembles_last {tr : List (Event Op Ans)} {e e' : Peer} {out : ℕ} {index size : ℤ} {q : Buffer}
    (hlast : q.int32 0 = q.int32 4) (htr : JudoEngine.stores tr = placed out index (payload packet_buf_size q))
    (hreads : e'.reads = e.reads.tail) :
    Reassembles server packet_buf_size (tr, some (server, 0, out, size), e') e [q] out index size := by
  refine ⟨?_, fun _ => ⟨rfl, ?_⟩, fun hc => absurd ⟨q, List.mem_singleton_self q, hlast⟩ hc⟩
  · rw [htr, List.flatMap_cons, List.flatMap_nil, List.append_nil]
  · rw [hreads, List.length_singleton, List.drop_one]

/-- A packet was taken in, and after it the others. -/
theorem reassembles_more {tr : List (Event Op Ans)}
    {x : List (Event Op Ans) × Option (JudoServer × ℤ × ℕ × ℤ) × Peer} {e e' : Peer} {out : ℕ} {index size : ℤ}
    {q : Buffer} {ps : List Buffer} (hmore : q.int32 0 ≠ q.int32 4)
    (htr : JudoEngine.stores tr = placed out index (payload packet_buf_size q))
    (hreads : e'.reads = e.reads.tail)
    (hx : Reassembles server packet_buf_size x e' ps out (index + (packet_buf_size - 40).toNat) size) :
    Reassembles server packet_buf_size (tr ++ x.1, x.2) e (q :: ps) out index size := by
  have hiff : Complete (q :: ps) ↔ Complete ps := by
    unfold Complete
    rw [List.exists_mem_cons_iff]
    exact or_iff_right hmore
  refine ⟨?_, fun hc => ?_, fun hc => hx.cut fun h => hc (hiff.mpr h)⟩
  · rw [stores_append, htr, hx.stores, List.flatMap_cons, placed_append, length_payload]
  · obtain ⟨hret, hrest⟩ := hx.complete (hiff.mp hc)
    refine ⟨hret, ?_⟩
    show x.2.2.reads = _
    rw [hrest, hreads, List.length_cons, ← List.drop_one, List.drop_drop, Nat.add_comm]

/-- Without a first chunk no packet is taken in. -/
theorem images_nil (certs : Bool) {reads : List (List Byte)} (h : reads.head?.getD [] = []) (plain : List (List Byte)) (p : Buffer) :
    images certs packet_buf_size reads plain p = [] := by
  cases reads with
  | nil => rfl
  | cons r reads => exact if_pos h

/-- A chunk comes. -/
theorem exists_first {e : Peer} (h : e.reads.head?.getD [] ≠ []) : ∃ r reads, e.reads = r :: reads ∧ r ≠ [] := by
  cases hreads : e.reads with
  | nil => exact absurd (by rw [hreads]; rfl) h
  | cons r reads =>
      rw [hreads] at h
      exact ⟨r, reads, rfl, h⟩

/-- The rounds of a call once the array has been allocated. The induction is on the
rounds; each takes in the first image and leaves the others to the rest. -/
theorem exec_loop_known {size : ℤ} (hsize : size ≠ -1) (fuel : ℕ) :
    ∀ (p : Buffer) (out : ℕ) (index : ℤ) (e : Peer), e.reads.length < fuel →
      Reassembles server packet_buf_size (Prog.exec Peer.answer (judoRead_.loop server t_node t_poll buffer
          packet_buf_size fuel p out index size) e) e (images t_node.certs packet_buf_size e.reads e.plain p)
          out index size
        ∧ allocs (Prog.exec Peer.answer (judoRead_.loop server t_node t_poll buffer packet_buf_size fuel p
          out index size) e).1 = [] := by
  -- by the rounds: nothing comes, or a packet that is the last one, or one that is followed by
  -- others
  induction fuel with
  | zero => exact fun p out index e hfuel => absurd hfuel (Nat.not_lt_zero _)
  | succ fuel ih =>
      intro p out index e hfuel
      by_cases hcut : e.reads.head?.getD [] = []
      · obtain ⟨server', tr, e', hexec, hstores, hallocs⟩ := exec_loop_cut server t_node t_poll buffer packet_buf_size
          fuel p out index size hcut
        rw [hexec, images_nil packet_buf_size _ hcut]
        exact ⟨reassembles_nil server packet_buf_size hstores, hallocs⟩
      · obtain ⟨r, reads, hreads, hr⟩ := exists_first hcut
        obtain ⟨tr, hstores, hallocs, hlast, hmore⟩ := exec_loop_packet server t_node t_poll buffer packet_buf_size
          fuel p out index size hreads hr [] ⟨[], by rw [judoRead_.reserve, if_neg hsize]; rfl, rfl, rfl⟩
        rw [hreads, images, if_neg hr]
        dsimp only
        split
        · next hab =>
            rw [hlast hab]
            exact ⟨reassembles_last server packet_buf_size hab hstores (by rw [hreads]; rfl), hallocs⟩
        · next hab =>
            have hlt : reads.length < fuel := by
              rw [hreads, List.length_cons] at hfuel
              omega
            rw [hmore hab]
            obtain ⟨hrest, hrestallocs⟩ := ih _ out _ { e with
              reads := reads, plain := if t_node.certs then e.plain.tail else e.plain } hlt
            refine ⟨reassembles_more server packet_buf_size hab hstores (by rw [hreads]; rfl) hrest, ?_⟩
            rw [allocs_append, hallocs, hrestallocs, List.append_nil]

/-- With a first chunk there is a first packet. -/
theorem images_cons (certs : Bool) {r : List Byte} (hr : r ≠ []) (reads plain : List (List Byte)) (p : Buffer) :
    ∃ ps, images certs packet_buf_size (r :: reads) plain p = image certs p r plain.head? :: ps := by
  rw [images, if_neg hr]
  dsimp only
  split
  · exact ⟨[], rfl⟩
  · exact ⟨_, rfl⟩

/-- The rounds of a call from the first packet on, which gives the length of the array. -/
theorem exec_loop_first (fuel : ℕ) (p : Buffer) (out : ℕ) {e : Peer} {r : List Byte} {reads : List (List Byte)}
    (hreads : e.reads = r :: reads) (hr : r ≠ []) (hfuel : reads.length < fuel) {q : Buffer} {ps : List Buffer}
    (hcons : images t_node.certs packet_buf_size (r :: reads) e.plain p = q :: ps)
    (hnonneg : 0 ≤ toInt32 (q.int32 4 * packet_buf_size)) :
    let x := Prog.exec Peer.answer (judoRead_.loop server t_node t_poll buffer packet_buf_size (fuel + 1) p out 0 (-1)) e
    allocs x.1 = [(e.fresh, toInt32 (q.int32 4 * packet_buf_size))]
      ∧ Reassembles server packet_buf_size x e (q :: ps) e.fresh 0 (toInt32 (q.int32 4 * packet_buf_size)) := by
  dsimp only
  have hq : image t_node.certs p r e.plain.head? = q := by
    obtain ⟨rest, hrest⟩ := images_cons packet_buf_size t_node.certs hr reads e.plain p
    exact (List.cons.inj (hrest.symm.trans hcons)).1
  obtain ⟨tr, hstores, hallocs, hlast, hmore⟩ := exec_loop_packet server t_node t_poll buffer packet_buf_size fuel p out 0 (-1)
    hreads hr [(e.fresh, toInt32 (q.int32 4 * packet_buf_size))]
    ⟨[⟨.new_char (toInt32 (q.int32 4 * packet_buf_size)), (e.fresh, e.mem e.fresh)⟩], by
      rw [hq, judoRead_.reserve, if_pos rfl, if_neg (not_lt.mpr hnonneg)]
      rfl, rfl, rfl⟩
  rw [hq] at hstores hlast hmore
  rw [images, if_neg hr] at hcons
  dsimp only at hcons
  rw [hq] at hcons
  -- after the first packet the size is known, so the rounds that follow reserve nothing
  split at hcons
  · next hab =>
      obtain ⟨-, rfl⟩ := List.cons.inj hcons
      rw [hlast hab]
      exact ⟨hallocs, reassembles_last server packet_buf_size hab hstores (by rw [hreads]; rfl)⟩
  · next hab =>
      obtain ⟨-, rfl⟩ := List.cons.inj hcons
      have hne : toInt32 (q.int32 4 * packet_buf_size) ≠ -1 := by omega
      obtain ⟨hrest, hrestallocs⟩ := exec_loop_known server t_node t_poll buffer packet_buf_size hne fuel
        (q.set (packet_buf_size - 32) 0) e.fresh (0 + (packet_buf_size - 40).toNat)
        { e with reads := reads, plain := if t_node.certs then e.plain.tail else e.plain, fresh := e.fresh + 1 } hfuel
      rw [hmore hab]
      refine ⟨?_, reassembles_more server packet_buf_size hab hstores (by rw [hreads]; rfl) hrest⟩
      rw [allocs_append, hallocs]
      exact congrArg (fun l => (e.fresh, toInt32 (q.int32 4 * packet_buf_size)) :: l) hrestallocs

/-- The packets that a whole call takes in. -/
def Peer.packets (e : Peer) : List Buffer :=
  images t_node.certs t_node.bufferSize e.reads e.plain (e.mem e.fresh)

/-- **`judoRead_`**, for a peer that sends what it likes and enough rounds for that:
without a packet the call fails, and else the first packet gives the length of
the array. A negative one ends the program. -/
theorem exec_judoRead_ (fuel : ℕ) (t_out_buf : ℕ) (e : Peer) (hfuel : e.reads.length < fuel) :
    let x := Prog.exec Peer.answer (judoRead_ fuel server t_node t_poll t_out_buf) e
    (e.packets t_node = [] → (∃ server', x.2.1 = some (server', -1, t_out_buf, -1)) ∧ stores x.1 = [])
      ∧ ∀ p ps, e.packets t_node = p :: ps →
        (toInt32 (p.int32 4 * t_node.bufferSize) < 0 → x.2.1 = none ∧ stores x.1 = [])
          ∧ (0 ≤ toInt32 (p.int32 4 * t_node.bufferSize) →
            allocs x.1 = [(e.fresh, t_node.bufferSize), (e.fresh + 1, toInt32 (p.int32 4 * t_node.bufferSize))]
              ∧ Reassembles server t_node.bufferSize x e (p :: ps) (e.fresh + 1) 0
                (toInt32 (p.int32 4 * t_node.bufferSize))) := by
  intro x
  obtain ⟨fuel, rfl⟩ : ∃ n, fuel = n + 1 := ⟨fuel - 1, by omega⟩
  -- the packet buffer is allocated, and the rounds begin
  have hx : x = (⟨.lock t_node.addr, ()⟩ :: ⟨.indeterminate, (0 : ℤ)⟩
      :: ⟨.new_char t_node.bufferSize, (e.fresh, e.mem e.fresh)⟩
      :: (Prog.exec Peer.answer (judoRead_.loop server t_node t_poll e.fresh t_node.bufferSize (fuel + 1)
        (e.mem e.fresh) t_out_buf 0 (-1)) { e with fresh := e.fresh + 1 }).1,
      (Prog.exec Peer.answer (judoRead_.loop server t_node t_poll e.fresh t_node.bufferSize (fuel + 1)
        (e.mem e.fresh) t_out_buf 0 (-1)) { e with fresh := e.fresh + 1 }).2) := rfl
  unfold Peer.packets
  by_cases hcut : e.reads.head?.getD [] = []
  · obtain ⟨server', tr, e', hexec, hstores, -⟩ := exec_loop_cut server t_node t_poll e.fresh t_node.bufferSize
      fuel (e.mem e.fresh) t_out_buf 0 (-1) (e := { e with fresh := e.fresh + 1 }) hcut
    rw [hx, hexec, images_nil _ _ hcut]
    exact ⟨fun _ => ⟨⟨server', rfl⟩, hstores⟩, fun p ps hps => absurd hps (List.cons_ne_nil p ps).symm⟩
  · obtain ⟨r, reads, hreads, hr⟩ := exists_first hcut
    obtain ⟨ps, hps⟩ := images_cons t_node.bufferSize t_node.certs hr reads e.plain (e.mem e.fresh)
    rw [hreads]
    refine ⟨fun hnil => absurd (hps.symm.trans hnil) (List.cons_ne_nil _ _), fun q ps' hcons => ⟨fun hneg => ?_, fun hnonneg => ?_⟩⟩
    · have hq := (List.cons.inj (hps.symm.trans hcons)).1
      rw [← hq] at hneg
      obtain ⟨tr, e', hexec, hstores⟩ := exec_loop_throw server t_node t_poll e.fresh t_node.bufferSize
        fuel (e.mem e.fresh) t_out_buf 0 (e := { e with fresh := e.fresh + 1 }) hreads hr hneg
      rw [hx, hexec]
      exact ⟨rfl, hstores⟩
    · have hlt : reads.length < fuel := by
        rw [hreads, List.length_cons] at hfuel
        omega
      obtain ⟨hallocs, hre⟩ := exec_loop_first server t_node t_poll e.fresh t_node.bufferSize fuel (e.mem e.fresh) t_out_buf
        (e := { e with fresh := e.fresh + 1 }) hreads hr hlt hcons hnonneg
      rw [hx]
      refine ⟨?_, hre.stores, hre.complete, hre.cut⟩
      show _ :: allocs _ = _
      rw [hallocs]

end Call

/-! ## Safety of the reassembly

The stores are the payloads in their order, from index 0 on, so whether they are inside the
array is a matter of how many there are. -/

/-- Every byte was stored inside an array that the call had allocated. -/
def Inside (tr : List (Event Op Ans)) : Prop :=
  ∀ out i x, (out, i, x) ∈ stores tr → ∃ size, (out, size) ∈ allocs tr ∧ 0 ≤ i ∧ i < size

/-- The product of the first packet's `b` and the buffer size is positive and was
computed without overflow. -/
def ProductFits (packet_buf_size : ℤ) (ps : List Buffer) : Prop :=
  ∀ p ∈ ps.head?, InInt32 (p.int32 4 * packet_buf_size) ∧ 0 < p.int32 4 * packet_buf_size

/-- The packets fit into what the first one announces. -/
def Announced (packet_buf_size : ℤ) (ps : List Buffer) : Prop :=
  ∀ p ∈ ps.head?, 0 < p.int32 4 ∧ p.int32 4 * packet_buf_size < 2 ^ 31
    ∧ ps.length * (packet_buf_size - 40) ≤ p.int32 4 * packet_buf_size

theorem length_flatMap_payload (packet_buf_size : ℤ) (ps : List Buffer) :
    (ps.flatMap (payload packet_buf_size)).length = ps.length * (packet_buf_size - 40).toNat := by
  induction ps with
  | nil => rw [List.flatMap_nil, List.length_nil, List.length_nil, Nat.zero_mul]
  | cons p ps ih =>
      rw [List.flatMap_cons, List.length_append, length_payload, ih, List.length_cons, Nat.succ_mul, Nat.add_comm]

/-- The stores of a call stay inside its array exactly when the packets fit into it. -/
theorem inside_iff {server : JudoServer} {packet_buf_size : ℤ} (hB : 64 ≤ packet_buf_size)
    {x : List (Event Op Ans) × Option (JudoServer × ℤ × ℕ × ℤ) × Peer} {e : Peer} {p : Buffer} {ps : List Buffer}
    {out : ℕ} {size : ℤ} (hx : Reassembles server packet_buf_size x e (p :: ps) (out + 1) 0 size)
    (hallocs : allocs x.1 = [(out, packet_buf_size), (out + 1, size)]) :
    Inside x.1 ↔ (p :: ps).length * (packet_buf_size - 40) ≤ size := by
  have hlen := length_flatMap_payload packet_buf_size (p :: ps)
  have hcast : (((p :: ps).flatMap (payload packet_buf_size)).length : ℤ)
      = (p :: ps).length * (packet_buf_size - 40) := by
    rw [hlen]
    push_cast
    rw [Int.toNat_of_nonneg (by omega)]
  unfold Inside
  rw [hx.stores, hallocs]
  constructor
  · intro hin
    -- the last byte of all
    have hne : (p :: ps).flatMap (payload packet_buf_size) ≠ [] := by
      intro hnil
      rw [hnil, List.length_nil, List.length_cons] at hcast
      have hpos : 0 < ((ps.length + 1 : ℕ) : ℤ) * (packet_buf_size - 40) :=
        mul_pos (by omega) (by omega)
      push_cast at hcast hpos
      omega
    have hmem := placed_concat_mem (out + 1) ((p :: ps).flatMap (payload packet_buf_size)).dropLast
      (((p :: ps).flatMap (payload packet_buf_size)).getLast hne) 0
    rw [List.dropLast_append_getLast] at hmem
    obtain ⟨size', hsize', -, hlt⟩ := hin _ _ _ hmem
    have hsize : size' = size := by
      rw [List.mem_cons, List.mem_singleton, Prod.mk.injEq, Prod.mk.injEq] at hsize'
      omega
    have hpos := List.length_pos_iff.mpr hne
    rw [List.length_dropLast, hsize] at hlt
    omega
  · intro hfit b i y hmem
    obtain ⟨rfl, hlo, hhi⟩ := mem_placed hmem
    exact ⟨size, List.mem_cons_of_mem _ (List.mem_singleton_self _), hlo, by omega⟩

/-- **Safety of the reassembly.** Whatever the peer sends: the length of the array is
computed without overflow and positive, and every byte is stored inside the
array, if and only if the packets that the call takes in fit into what the first
of them announces. -/
theorem reassembly_safe_iff (server : JudoServer) (t_node : ssl_node) (t_poll : pollfd) (t_out_buf : ℕ)
    (hB : 64 ≤ t_node.bufferSize) (e : Peer) (fuel : ℕ) (hfuel : e.reads.length < fuel) :
    (Inside (Prog.exec Peer.answer (judoRead_ fuel server t_node t_poll t_out_buf) e).1
        ∧ ProductFits t_node.bufferSize (e.packets t_node))
      ↔ Announced t_node.bufferSize (e.packets t_node) := by
  obtain ⟨hnone, hsome⟩ := exec_judoRead_ server t_node t_poll fuel t_out_buf e hfuel
  unfold ProductFits Announced
  rcases hps : e.packets t_node with _ | ⟨p, ps⟩
  · obtain ⟨-, hstores⟩ := hnone hps
    refine ⟨fun _ q hq => absurd hq (Option.not_mem_none q), fun _ => ⟨fun out i x hmem => ?_, fun q hq =>
      absurd hq (Option.not_mem_none q)⟩⟩
    rw [hstores] at hmem
    exact absurd hmem List.not_mem_nil
  · obtain ⟨-, hread⟩ := hsome p ps hps
    rw [List.head?_cons]
    -- with a packet: the product decides the array's length, and the payloads fit or do not
    constructor
    · rintro ⟨hin, hfits⟩ q hq
      obtain ⟨⟨hlo, hhi⟩, hpos⟩ := hfits q hq
      obtain rfl : p = q := Option.mem_some_iff.mp hq
      have hval : toInt32 (p.int32 4 * t_node.bufferSize) = p.int32 4 * t_node.bufferSize :=
        toInt32_of_mem ⟨hlo, hhi⟩
      rw [hval] at hread
      obtain ⟨hallocs, hx⟩ := hread (le_of_lt hpos)
      exact ⟨(mul_pos_iff_of_pos_right (by omega)).mp hpos, hhi, (inside_iff hB hx hallocs).mp hin⟩
    · intro hann
      obtain ⟨hb, hhi, hfit⟩ := hann p rfl
      have hpos : 0 < p.int32 4 * t_node.bufferSize := mul_pos hb (by omega)
      have hmem : InInt32 (p.int32 4 * t_node.bufferSize) := ⟨by omega, hhi⟩
      rw [toInt32_of_mem hmem] at hread
      obtain ⟨hallocs, hx⟩ := hread (le_of_lt hpos)
      refine ⟨(inside_iff hB hx hallocs).mpr hfit, fun q hq => ?_⟩
      obtain rfl : p = q := Option.mem_some_iff.mp hq
      exact ⟨hmem, hpos⟩

/-- A connection without certificates, with packets of 64 bytes. -/
def node64 : ssl_node := ⟨0, 0, 0, 0, 0, 5, 6⟩

/-- A packet that announces as much as it brings. -/
theorem reassembly_safe_one :
    Inside (Prog.exec Peer.answer (judoRead_ 2 (.init_ default) node64 ⟨5, 1, 1⟩ 0)
        ⟨[[1, 0, 0, 0, 1, 0, 0, 0] ++ List.replicate 56 0], [], fun _ _ => 3, 0⟩).1
      ∧ ProductFits node64.bufferSize (Peer.packets node64
        ⟨[[1, 0, 0, 0, 1, 0, 0, 0] ++ List.replicate 56 0], [], fun _ _ => 3, 0⟩) := by
  refine (reassembly_safe_iff (.init_ default) node64 ⟨5, 1, 1⟩ 0 (by decide) _ 2 (by decide)).mpr ?_
  unfold Announced Peer.packets
  rw [images, if_neg (by decide)]
  dsimp only
  rw [if_pos (by decide)]
  intro p hp
  obtain rfl := Option.mem_some_iff.mp hp
  decide

/-- A peer that announces nothing at all: 64 bytes of zero. The array is empty, and
the payload of the packet is stored after its end. -/
theorem reassembly_overruns :
    ¬ (Inside (Prog.exec Peer.answer (judoRead_ 2 (.init_ default) node64 ⟨5, 1, 1⟩ 0)
        ⟨[List.replicate 64 0], [], fun _ _ => 3, 0⟩).1
      ∧ ProductFits node64.bufferSize (Peer.packets node64 ⟨[List.replicate 64 0], [], fun _ _ => 3, 0⟩)) := by
  rintro ⟨hin, -⟩
  obtain ⟨size, hsize, hlo, hlt⟩ := hin 1 0 0 (by decide +kernel)
  have hallocs : allocs (Prog.exec Peer.answer (judoRead_ 2 (.init_ default) node64 ⟨5, 1, 1⟩ 0)
      ⟨[List.replicate 64 0], [], fun _ _ => 3, 0⟩).1 = [(0, 64), (1, 0)] := by
    decide +kernel
  rw [hallocs] at hsize
  simp at hsize
  omega

end JudoEngine
