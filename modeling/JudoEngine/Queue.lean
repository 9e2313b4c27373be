/-
`Queue.cpp`: a singly linked queue of `T*`.

The nodes live in a heap that several queues and hand-over segments share, so
every operation takes the heap and gives it back. `none` as the result of an
operation is undefined behaviour: a null or a dangling pointer was followed.
`new` may return any address that is not in use; which one is an argument.

`Queue.Rep` ties the pointers to the list of stored elements, and each
operation has one `_spec` lemma that says what it does to that list.
-/
import JudoEngine.Lib.Linked
import JudoEngine.Lib.Words

set_option autoImplicit false

open Linked Words

namespace JudoEngine

/-- A node address; `nullptr` is `none`. -/
abbrev Ptr := Option ℕ

/-- `struct qnode`. -/
structure qnode (T : Type) where
  data : T
  next : Ptr
  deriving DecidableEq

/-- The heap the nodes live in. -/
abbrev Heap (T : Type) := Store (qnode T)

/-- The fields of `class Queue` that its operations use. -/
structure Queue where
  m_size : ℕ
  m_head : Ptr
  m_tail : Ptr
  deriving DecidableEq

namespace Queue

variable {T : Type}

/-! ## The operations

As in the source, on a heap that is passed along. A null or dangling pointer that is followed
gives nothing. -/

/-- `Queue::Queue`. -/
def new : Queue := ⟨0, none, none⟩

/-- `Queue::getSize`. -/
def getSize (q : Queue) : ℕ := q.m_size

/-- `Queue::enqueue`; `new_node` is the address that `new` returns. -/
def enqueue (new_node : ℕ) (t_data : T) (h : Heap T) (q : Queue) : Option (Heap T × Queue) :=
  match h.cell new_node with
  | some _ => none
  | none =>
      let h₁ := h.set new_node ⟨t_data, none⟩
      if q.m_size = 0 then
        some (h₁, ⟨1, some new_node, some new_node⟩)
      else do
        let tail ← q.m_tail
        let node ← h₁.cell tail
        -- `m_tail->next = new_node; m_tail = m_tail->next;`
        let h₂ := h₁.set tail { node with next := some new_node }
        let node' ← h₂.cell tail
        some (h₂, ⟨q.m_size + 1, q.m_head, node'.next⟩)

/-- `Queue::load`, with the pointers that its two `void**` arguments hold. -/
def load (t_new_nodes t_new_nodes_tail : Ptr) (t_num_terms : ℤ) (h : Heap T) (q : Queue) :
    Option (ℤ × Heap T × Queue) :=
  if t_num_terms ≤ 0 then
    some (-1, h, q)
  else if q.m_size = 0 then
    some (0, h, ⟨q.m_size + t_num_terms.toNat, t_new_nodes, t_new_nodes_tail⟩)
  else do
    let tail ← q.m_tail
    let node ← h.cell tail
    some (0, h.set tail { node with next := t_new_nodes },
      ⟨q.m_size + t_num_terms.toNat, q.m_head, t_new_nodes_tail⟩)

/-- `Queue::dequeue`. -/
def dequeue (h : Heap T) (q : Queue) : Option (T × Heap T × Queue) := do
  let head ← q.m_head
  let node ← h.cell head
  if q.m_size = 1 then
    some (node.data, h.free head, ⟨0, none, none⟩)
  else
    some (node.data, h.free head, ⟨q.m_size - 1, node.next, q.m_tail⟩)

/-- `Queue::dump`: what it stores through `t_head_ptr` and `t_tail_ptr`, the
size it returns (narrowed from `size_t` to `int32_t`), and the queue left. -/
def dump (q : Queue) : Ptr × Ptr × ℤ × Queue :=
  (q.m_head, q.m_tail, toInt32 q.m_size, ⟨0, none, none⟩)

/-! ## What the pointers represent

The shape of the nodes is kept apart from what they store, since segments in hand-over have
the one without being queues. -/

/-- The queue's head leads through the nodes `as` to a null pointer, and the
tail is the last of them. Nothing is said about the data. -/
structure Shape (h : Heap T) (q : Queue) (as : List ℕ) : Prop where
  path : Path qnode.next h q.m_head as none
  size : q.m_size = as.length
  tail : q.m_tail = as.getLast?

/-- The data of the nodes `as`, in order. -/
def data (h : Heap T) (as : List ℕ) : List T := (cells h as).map qnode.data

/-- The queue stores the list `l`. -/
def Rep (h : Heap T) (q : Queue) (l : List T) : Prop :=
  ∃ as, Shape h q as ∧ data h as = l

/-- The nodes of the queue, computed. -/
def nodes (h : Heap T) (q : Queue) : List ℕ := addresses qnode.next h q.m_size q.m_head

/-- The empty queue stores nothing, in any heap. -/
theorem shape_new (h : Heap T) : Shape h new [] := ⟨rfl, rfl, rfl⟩

/-- They are those that the queue has. -/
theorem Shape.nodes_eq {h : Heap T} {q : Queue} {as : List ℕ} (hs : Shape h q as) :
    nodes h q = as := by
  rw [nodes, hs.size]
  exact hs.path.addresses_eq

/-- The invariant only depends on the queue's own nodes. -/
theorem Shape.congr {h h' : Heap T} {q : Queue} {as : List ℕ} (hs : Shape h q as)
    (hcell : ∀ a ∈ as, h'.cell a = h.cell a) : Shape h' q as :=
  ⟨hs.path.congr hcell, hs.size, hs.tail⟩

theorem data_congr {h h' : Heap T} {as : List ℕ} (hcell : ∀ a ∈ as, h'.cell a = h.cell a) :
    data h' as = data h as := by
  rw [data, data, cells_congr hcell]

/-- There is one element for each node. -/
theorem Shape.length_data {h : Heap T} {q : Queue} {as : List ℕ} (hs : Shape h q as) :
    (data h as).length = q.m_size := by
  rw [data, List.length_map, hs.path.length_cells, hs.size]

theorem Rep.size {h : Heap T} {q : Queue} {l : List T} (hr : Rep h q l) :
    q.m_size = l.length := by
  obtain ⟨as, hs, rfl⟩ := hr
  exact hs.length_data.symm

/-! ## What the operations do to the nodes

Each lemma says which nodes there are afterwards, what they store, and that all other cells
are as they were, which keeps several owners of one heap apart. -/

/-- Overwriting a node's link leaves the data of every segment alone. -/
theorem data_set_next {h : Heap T} {a : ℕ} {node : qnode T} {p : Ptr} (as : List ℕ)
    (ha : h.cell a = some node) : data (h.set a { node with next := p }) as = data h as := by
  induction as with
  | nil => rfl
  | cons b as ih =>
      have hcons : ∀ h' : Heap T, data h' (b :: as) = data h' [b] ++ data h' as := by
        intro h'
        rw [data, data, data, ← List.map_append, ← cells_append, List.singleton_append]
      rw [hcons, hcons h, ih]
      congr 1
      by_cases hba : b = a
      · subst hba
        rw [data, data, cells_cons [] ha, cells_cons [] (h.set_cell_self b _)]
        rfl
      · exact data_congr (fun c hc => by
          rw [List.mem_singleton.mp hc]
          exact h.set_cell_of_ne _ hba)

/-- Linking a segment behind the last node: what `enqueue` and `load` both do
to a non-empty queue. The segment must not meet the queue, or its own links
would be overwritten. -/
theorem Shape.link {h : Heap T} {q : Queue} {as bs : List ℕ} {t : ℕ} {node : qnode T} {p : Ptr}
    (hs : Shape h q (as ++ [t])) (ht : h.cell t = some node)
    (hpath : Path qnode.next h p bs none) (hbt : t ∉ bs) :
    Path qnode.next (h.set t { node with next := p }) q.m_head (as ++ [t] ++ bs) none := by
  have hleft := hs.path.link (x := { node with next := p }) hs.path.nodup
  refine hleft.append (hpath.congr fun b hb => h.set_cell_of_ne _ ?_)
  rintro rfl
  exact hbt hb

/-- The last node of a non-empty queue is the one `m_tail` points at. -/
theorem Shape.exists_last {h : Heap T} {q : Queue} {as : List ℕ} (hs : Shape h q as)
    (hne : q.m_size ≠ 0) : ∃ as' t node,
      as = as' ++ [t] ∧ q.m_tail = some t ∧ h.cell t = some node := by
  have has : as ≠ [] := fun has => hne (by rw [hs.size, has]; rfl)
  obtain ⟨as', t, rfl⟩ := (List.eq_nil_or_concat as).resolve_left has
  rw [List.concat_eq_append] at hs ⊢
  obtain ⟨node, hnode⟩ := hs.path.mapped t (by simp)
  exact ⟨as', t, node, rfl, by rw [hs.tail, List.getLast?_concat], hnode⟩

/-- **`Queue::enqueue`** appends one node and never fails on an unused
address. Only the new node and the old last node are written. -/
theorem enqueue_spec {h : Heap T} {q : Queue} {as : List ℕ} {a : ℕ} (d : T)
    (hs : Shape h q as) (ha : h.cell a = none) :
    ∃ h' q', enqueue a d h q = some (h', q') ∧ Shape h' q' (as ++ [a])
      ∧ data h' (as ++ [a]) = data h as ++ [d]
      ∧ ∀ b, b ∉ as ++ [a] → h'.cell b = h.cell b := by
  have hfresh : a ∉ as := by
    intro hmem
    obtain ⟨x, hx⟩ := hs.path.mapped a hmem
    rw [ha] at hx
    exact absurd hx (by simp)
  have hsame : ∀ b ∈ as, (h.set a ⟨d, none⟩).cell b = h.cell b := by
    intro b hb
    exact h.set_cell_of_ne _ (fun hba => hfresh (hba ▸ hb))
  have hdata : data (h.set a ⟨d, none⟩) (as ++ [a]) = data h as ++ [d] := by
    rw [data, cells_append, List.map_append, cells_cons [] (h.set_cell_self a _),
      ← data_congr hsame]
    rfl
  -- the new node becomes the head, or is linked behind the last one
  by_cases h0 : q.m_size = 0
  · have hnil : as = [] := List.length_eq_zero_iff.mp (hs.size.symm.trans h0)
    subst hnil
    refine ⟨h.set a ⟨d, none⟩, ⟨1, some a, some a⟩, by simp only [enqueue, ha, if_pos h0],
      ⟨?_, rfl, rfl⟩, hdata, ?_⟩
    · exact ⟨rfl, _, h.set_cell_self a _, rfl⟩
    · intro b hb
      exact h.set_cell_of_ne _ (by simpa using hb)
  · obtain ⟨as', t, node, rfl, htail, hnode⟩ := hs.exists_last h0
    have hta : t ≠ a := fun hta => hfresh (by simp [hta])
    have hnode₁ : (h.set a ⟨d, none⟩).cell t = some node := by rw [h.set_cell_of_ne _ hta, hnode]
    have hnew : Path qnode.next (h.set a ⟨d, none⟩) (some a) [a] none :=
      ⟨rfl, _, h.set_cell_self a _, rfl⟩
    have hpath := (hs.congr hsame).link hnode₁ hnew (by simpa using hta)
    refine ⟨(h.set a ⟨d, none⟩).set t { node with next := some a },
      ⟨q.m_size + 1, q.m_head, some a⟩, ?_, ⟨hpath, ?_, ?_⟩, ?_, ?_⟩
    · simp only [enqueue, ha, if_neg h0, htail, hnode₁, Store.set_cell_self, Option.bind_eq_bind,
        Option.bind_some]
    · simp only [List.length_append, List.length_singleton, hs.size]
    · rw [List.getLast?_concat]
    · rw [data_set_next _ hnode₁, hdata]
    · intro b hb
      simp only [List.mem_append, List.mem_singleton, not_or] at hb
      rw [Store.set_cell_of_ne _ _ hb.1.2, h.set_cell_of_ne _ hb.2]

/-- **`Queue::load`** appends a whole segment that does not meet the queue.
Only the old last node is written. -/
theorem load_spec {h : Heap T} {q : Queue} {as bs : List ℕ} {p : Ptr} {n : ℤ}
    (hs : Shape h q as) (hpath : Path qnode.next h p bs none) (hlen : (bs.length : ℤ) = n)
    (hpos : 0 < n) (hdisj : ∀ b ∈ bs, b ∉ as) :
    ∃ h' q', load p bs.getLast? n h q = some (0, h', q') ∧ Shape h' q' (as ++ bs)
      ∧ data h' (as ++ bs) = data h as ++ data h bs
      ∧ ∀ b, b ∉ as → h'.cell b = h.cell b := by
  have hnonpos : ¬ n ≤ 0 := by omega
  have hcount : n.toNat = bs.length := by omega
  have hbs : bs ≠ [] := by
    rintro rfl
    simp at hlen
    omega
  -- the segment becomes the queue, or is linked behind the last node
  by_cases h0 : q.m_size = 0
  · have hnil : as = [] := List.length_eq_zero_iff.mp (hs.size.symm.trans h0)
    subst hnil
    refine ⟨h, ⟨q.m_size + n.toNat, p, bs.getLast?⟩,
      by simp only [load, if_neg hnonpos, if_pos h0], ⟨hpath, ?_, rfl⟩, rfl, fun _ _ => rfl⟩
    simp only [h0, hcount, List.nil_append, Nat.zero_add]
  · obtain ⟨as', t, node, rfl, htail, hnode⟩ := hs.exists_last h0
    have hpath' := hs.link hnode hpath (fun htb => hdisj t htb (by simp))
    refine ⟨h.set t { node with next := p }, ⟨q.m_size + n.toNat, q.m_head, bs.getLast?⟩,
      ?_, ⟨hpath', ?_, ?_⟩, ?_, ?_⟩
    · simp only [load, if_neg hnonpos, if_neg h0, htail, hnode, Option.bind_eq_bind,
        Option.bind_some]
    · simp only [hs.size, hcount, List.length_append]
    · rw [List.getLast?_append_of_ne_nil _ hbs]
    · rw [data_set_next _ hnode, data, cells_append, List.map_append]
      rfl
    · intro b hb
      exact h.set_cell_of_ne _ (fun hbt => hb (by simp [hbt]))

/-- **`Queue::dequeue`** on a non-empty queue removes the first node, gives its
memory back and returns its data. -/
theorem dequeue_spec {h : Heap T} {q : Queue} {a : ℕ} {as : List ℕ}
    (hs : Shape h q (a :: as)) :
    ∃ d h' q', dequeue h q = some (d, h', q') ∧ Shape h' q' as
      ∧ data h (a :: as) = d :: data h' as
      ∧ ∀ b, b ≠ a → h'.cell b = h.cell b := by
  obtain ⟨hhead, node, hnode, hrest⟩ := hs.path
  have hfresh : a ∉ as := (List.nodup_cons.mp hs.path.nodup).1
  have hsame : ∀ b ∈ as, (h.free a).cell b = h.cell b := by
    intro b hb
    exact h.free_cell_of_ne (fun hba => hfresh (hba ▸ hb))
  have hdata : data h (a :: as) = node.data :: data (h.free a) as := by
    rw [data, cells_cons as hnode, data_congr hsame]
    rfl
  have hframe : ∀ b, b ≠ a → (h.free a).cell b = h.cell b := fun b hb => h.free_cell_of_ne hb
  -- the last node leaves null pointers, any other one its link
  by_cases h1 : q.m_size = 1
  · have hnil : as = [] := by
      have hlen := hs.size.symm.trans h1
      simpa using hlen
    subst hnil
    exact ⟨node.data, h.free a, ⟨0, none, none⟩,
      by simp only [dequeue, hhead, hnode, if_pos h1, Option.bind_eq_bind, Option.bind_some],
      shape_new _, hdata, hframe⟩
  · have hlen : q.m_size = as.length + 1 := hs.size
    have hne : as ≠ [] := by
      rintro rfl
      exact h1 hlen
    refine ⟨node.data, h.free a, ⟨q.m_size - 1, node.next, q.m_tail⟩,
      by simp only [dequeue, hhead, hnode, if_neg h1, Option.bind_eq_bind, Option.bind_some],
      ⟨hrest.congr hsame, ?_, ?_⟩, hdata, hframe⟩
    · simp only [hlen, Nat.add_sub_cancel]
    · rw [hs.tail, List.getLast?_cons_of_ne_nil hne]

end Queue

end JudoEngine
