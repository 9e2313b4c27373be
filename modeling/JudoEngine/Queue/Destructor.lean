/-
`~Queue`, with what it reads, what it applies the destructor function to, and what it
deletes.

The loop has two pointers: it deletes `current`, and what it applies the function to is the
data of `next`. From the second round on both point at one node. In the first round nothing
has been stored in `next` yet, so whether the first element is destroyed depends on what the
memory of this variable holds, which is an argument here.
-/
import JudoEngine.Queue

set_option autoImplicit false

open Linked

namespace JudoEngine

namespace Queue

variable {T : Type}

/-! ## The loop

What is read, applied and deleted is recorded, so that it can be compared with the nodes. -/

/-- What the destructor does: it reads a node, calls `m_destr`, or deletes a node. -/
inductive Disposal (T : Type) where
  | read (node : ℕ)
  | m_destr (t_data : T)
  | delete (node : ℕ)

/-- `m_destr(next->data)`, if there is a function. -/
def destroy.apply (m_destr : Ptr) (h : Heap T) (next : Ptr) : Option (List (Disposal T)) :=
  if m_destr ≠ none then do
    let b ← next
    let node ← h.cell b
    some [.read b, .m_destr node.data]
  else some []

/-- `while (current != nullptr)`, for `fuel` rounds at most. -/
def destroy.loop (m_destr : Ptr) : (fuel : ℕ) → Heap T → (current next : Ptr) → Option (List (Disposal T) × Heap T)
  | 0, _, _, _ => none
  | _ + 1, h, none, _ => some ([], h)
  | fuel + 1, h, some current, next => do
      let applied ← destroy.apply m_destr h next
      let node ← h.cell current
      let (log, h') ← destroy.loop m_destr fuel (h.free current) node.next node.next
      some (applied ++ .read current :: .delete current :: log, h')

/-- `Queue::~Queue`; `next` is what the variable of this name holds before anything is
stored in it. -/
def destroy (m_destr next : Ptr) (fuel : ℕ) (h : Heap T) (q : Queue) : Option (List (Disposal T) × Heap T) :=
  destroy.loop m_destr fuel h q.m_head next

/-! ## What it is for

Each element is disposed of once, in order, and each node deleted once, and nothing is looked
at after it has been deleted. -/

/-- The data that the function is applied to. -/
def Disposal.applied : Disposal T → Option T
  | .m_destr t_data => some t_data
  | _ => none

/-- The node that is deleted. -/
def Disposal.deleted : Disposal T → Option ℕ
  | .delete a => some a
  | _ => none

/-- The function is applied to the data of the nodes, in order and to nothing else; each node
is deleted once, and nothing else is; and every node that is read is one of them, and has
not been deleted. -/
structure Disposes (h : Heap T) (as : List ℕ) (log : List (Disposal T)) (h' : Heap T) : Prop where
  applied : log.filterMap Disposal.applied = data h as
  deleted : (log.filterMap Disposal.deleted).Perm as
  live : ∀ before a after, log = before ++ .read a :: after → a ∈ as ∧ .delete a ∉ before
  heap : ∀ b, h'.cell b = if b ∈ as then none else h.cell b

/-- Nothing is to be done for no nodes. -/
theorem Disposes.nil (h : Heap T) : Disposes h [] [] h :=
  ⟨rfl, .nil, fun before _ _ hlog => by simp at hlog, fun _ => rfl⟩

/-- **A round.** The data is read at one of the nodes, and is that of the first one. -/
theorem Disposes.cons {h h' : Heap T} {a b : ℕ} {as : List ℕ} {node : qnode T} {log : List (Disposal T)}
    (hnode : h.cell a = some node) (ha : a ∉ as) (hb : b ∈ a :: as) (hrest : Disposes (h.free a) as log h') :
    Disposes h (a :: as) (.read b :: .m_destr node.data :: .read a :: .delete a :: log) h' := by
  have hsame : ∀ c ∈ as, (h.free a).cell c = h.cell c := by
    intro c hc
    exact h.free_cell_of_ne fun hca => ha (hca ▸ hc)
  refine ⟨?_, ?_, ?_, ?_⟩
  · have hdata : data h (a :: as) = node.data :: data (h.free a) as := by
      rw [data, cells_cons as hnode, data_congr hsame]
      rfl
    rw [hdata, ← hrest.applied]
    rfl
  · exact hrest.deleted.cons a
  · intro before c after hlog
    -- one of the two reads of this round, or one of a later round
    rcases before with _ | ⟨e₀, _ | ⟨e₁, _ | ⟨e₂, _ | ⟨e₃, before⟩⟩⟩⟩
    · cases hlog
      exact ⟨hb, List.not_mem_nil⟩
    · simp at hlog
    · simp only [List.cons_append, List.nil_append, List.cons.injEq, Disposal.read.injEq] at hlog
      obtain ⟨rfl, rfl, rfl, -⟩ := hlog
      exact ⟨List.mem_cons_self, by simp⟩
    · simp at hlog
    · simp only [List.cons_append, List.cons.injEq] at hlog
      obtain ⟨rfl, rfl, rfl, rfl, hlog⟩ := hlog
      obtain ⟨hc, hbefore⟩ := hrest.live before c after hlog
      have hca : c ≠ a := by
        rintro rfl
        exact ha hc
      exact ⟨List.mem_cons_of_mem a hc, by simpa [hca] using hbefore⟩
  · intro c
    rw [hrest.heap c]
    by_cases hca : c = a
    · subst hca
      rw [if_neg ha, if_pos List.mem_cons_self]
      exact Function.update_self ..
    · simp only [List.mem_cons, hca, false_or, h.free_cell_of_ne hca]

/-! ## What it does

From the second round on the loop does what it is for. The first one depends on what `next`
holds. -/

section

variable {h : Heap T} {a b : ℕ} {as : List ℕ} {node : qnode T} {m_destr : Ptr}

/-- Deleting the first node leaves the others linked. -/
theorem path_of_free (hpath : Path qnode.next h (some a) (a :: as) none) (hnode : h.cell a = some node) :
    Path qnode.next (h.free a) node.next as none := by
  have ha : a ∉ as := (List.nodup_cons.mp hpath.nodup).1
  obtain ⟨-, node', hnode', hrest⟩ := hpath
  rw [hnode] at hnode'
  cases hnode'
  refine hrest.congr fun b hb => h.free_cell_of_ne ?_
  rintro rfl
  exact ha hb

/-- A round, and those after it. -/
theorem destroy_loop_cons (hdestr : m_destr ≠ none) {fuel : ℕ} (hnode : h.cell a = some node) (ha : a ∉ as)
    (hb : b ∈ a :: as) (hdata : (h.cell b).map qnode.data = some node.data)
    (hrest : ∃ log h', destroy.loop m_destr fuel (h.free a) node.next node.next = some (log, h')
      ∧ Disposes (h.free a) as log h') :
    ∃ log h', destroy.loop m_destr (fuel + 1) h (some a) (some b) = some (log, h') ∧ Disposes h (a :: as) log h' := by
  obtain ⟨log, h', hloop, hdisposes⟩ := hrest
  obtain ⟨other, hother, hsame⟩ := Option.map_eq_some_iff.mp hdata
  refine ⟨_, h', ?_, .cons hnode ha hb hdisposes⟩
  simp only [destroy.loop, destroy.apply, if_pos hdestr, hother, hsame, hnode, hloop, Option.bind_eq_bind,
    Option.bind_some, List.cons_append, List.nil_append]

end

/-- With both pointers at one node, the loop goes through all nodes from there on. -/
theorem destroy_loop_spec {m_destr : Ptr} (hdestr : m_destr ≠ none) {as : List ℕ} : ∀ {h : Heap T} {p : Ptr},
    Path qnode.next h p as none →
      ∃ log h', destroy.loop m_destr (as.length + 1) h p p = some (log, h') ∧ Disposes h as log h' := by
  induction as with
  | nil =>
      intro h p hpath
      rw [path_nil.mp hpath]
      exact ⟨[], h, rfl, .nil h⟩
  | cons a as ih =>
      intro h p hpath
      have ha : a ∉ as := (List.nodup_cons.mp hpath.nodup).1
      obtain ⟨rfl, node, hnode, -⟩ := id hpath
      exact destroy_loop_cons hdestr hnode ha List.mem_cons_self (congrArg (Option.map qnode.data) hnode)
        (ih (path_of_free hpath hnode))

/-- The first round reads the data where `next` points. -/
theorem next_of_disposes {m_destr next : Ptr} (hdestr : m_destr ≠ none) {h h' : Heap T} {q : Queue} {a : ℕ} {as : List ℕ}
    {fuel : ℕ} {log : List (Disposal T)} (hs : Shape h q (a :: as)) (hrun : destroy m_destr next fuel h q = some (log, h'))
    (hdisposes : Disposes h (a :: as) log h') :
    ∃ b ∈ a :: as, next = some b ∧ (h.cell b).map qnode.data = (data h (a :: as)).head? := by
  have hhead : q.m_head = some a := hs.path.1
  cases fuel with
  | zero => exact absurd hrun (by simp [destroy, destroy.loop])
  | succ fuel =>
      rw [destroy, hhead, destroy.loop, destroy.apply, if_pos hdestr] at hrun
      simp only [Option.bind_eq_bind, Option.bind_eq_some_iff] at hrun
      obtain ⟨applied, ⟨b, hnext, node, hnode, happlied⟩, first, -, rest, -, hlog⟩ := hrun
      cases happlied
      cases hlog
      -- the first read of all is that of the uninitialised pointer
      obtain ⟨hb, -⟩ := hdisposes.live [] b _ rfl
      refine ⟨b, hb, hnext, ?_⟩
      rw [← hdisposes.applied, hnode]
      rfl

/-- **The destructor function.** The destructor applies it to each element in order, and
deletes each node, exactly when there is no element, or else the variable `next` happens to
point at a node of the queue with the first one's data. -/
theorem destroy_disposes_iff {h : Heap T} {q : Queue} {as : List ℕ} (hs : Shape h q as) {m_destr : Ptr}
    (hdestr : m_destr ≠ none) (next : Ptr) :
    (∃ fuel log h', destroy m_destr next fuel h q = some (log, h') ∧ Disposes h as log h')
      ↔ as = [] ∨ ∃ b ∈ as, next = some b ∧ (h.cell b).map qnode.data = (data h as).head? := by
  -- next is used before it is set from the first node on, so an empty queue is a case of its own
  cases as with
  | nil =>
      have hhead : q.m_head = none := hs.path
      refine ⟨fun _ => .inl rfl, fun _ => ⟨1, [], h, ?_, .nil h⟩⟩
      rw [destroy, hhead]
      rfl
  | cons a as =>
      constructor
      · rintro ⟨fuel, log, h', hrun, hdisposes⟩
        exact .inr (next_of_disposes hdestr hs hrun hdisposes)
      · rintro (hnil | ⟨b, hb, rfl, hdata⟩)
        · exact absurd hnil (List.cons_ne_nil a as)
        · have ha : a ∉ as := (List.nodup_cons.mp hs.path.nodup).1
          obtain ⟨hhead, node, hnode, -⟩ := id hs.path
          rw [data, cells_cons as hnode] at hdata
          refine ⟨as.length + 2, ?_⟩
          rw [destroy, hhead]
          exact destroy_loop_cons hdestr hnode ha hb hdata (destroy_loop_spec hdestr (path_of_free (hhead ▸ hs.path) hnode))

/-- Two elements, and `next` points at the first. -/
theorem destroy_disposes_two :
    ∃ fuel log h', destroy (some 0) (some 3) fuel ((Store.empty.set 3 ⟨true, some 5⟩).set 5 ⟨false, none⟩)
        ⟨2, some 3, some 5⟩ = some (log, h')
      ∧ Disposes ((Store.empty.set 3 ⟨true, some 5⟩).set 5 ⟨false, none⟩) [3, 5] log h' := by
  have hs : Shape ((Store.empty.set 3 ⟨true, some 5⟩).set 5 ⟨false, none⟩) ⟨2, some 3, some 5⟩ [3, 5] :=
    ⟨⟨rfl, _, rfl, rfl, _, rfl, rfl⟩, rfl, rfl⟩
  exact (destroy_disposes_iff hs (Option.some_ne_none 0) (some 3)).mpr (.inr ⟨3, List.mem_cons_self, rfl, rfl⟩)

/-- One element, and `next` is null. -/
theorem not_destroy_disposes : ¬ ∀ (h : Heap Unit) (q : Queue) (as : List ℕ) (m_destr next : Ptr), Shape h q as →
    m_destr ≠ none → ∃ fuel log h', destroy m_destr next fuel h q = some (log, h') ∧ Disposes h as log h' := by
  intro hall
  have hs : Shape (Store.empty.set 0 ⟨(), none⟩) ⟨1, some 0, some 0⟩ [0] := ⟨⟨rfl, _, rfl, rfl⟩, rfl, rfl⟩
  obtain ⟨fuel, log, h', hrun, hdisposes⟩ := hall _ _ _ (some 0) none hs (Option.some_ne_none 0)
  obtain ⟨b, -, hnext, -⟩ := next_of_disposes (Option.some_ne_none 0) hs hrun hdisposes
  cases hnext

end Queue

end JudoEngine
