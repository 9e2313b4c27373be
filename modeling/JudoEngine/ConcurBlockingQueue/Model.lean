/-
`ConcurBlockingQueue.cpp`: a `Queue` behind three mutexes and a condition
variable.

Each member function is the script of its own lock sequence, branch by branch
and in the order of the source; the destructors of its `unique_lock`s are the
`ret` of the script, which gives back whatever the call still owns. The queue
itself is the linked queue of `Queue.lean`, pointers and heap included, and
`Monitor` runs any number of calls against it in any interleaving.

`load` has only its LOW branch: the HIGH branch casts a `void**` to
`struct qnode<T>` and does not compile when it is instantiated.
-/
import JudoEngine.Lib.Monitor
import JudoEngine.Queue

set_option autoImplicit false

open Monitor Linked Words

namespace JudoEngine

/-- `enum priority`. -/
inductive priority where
  | LOW
  | HIGH
  deriving DecidableEq

/-- `enum block`. -/
inductive block where
  | NONBLOCK
  | BLOCK
  deriving DecidableEq

namespace ConcurBlockingQueue

/-- The three mutexes. -/
inductive Mutex where
  | m_data
  | m_next_to_access
  | m_low_prio_access
  deriving DecidableEq

instance : Fintype Mutex where
  elems := {.m_data, .m_next_to_access, .m_low_prio_access}
  complete m := by cases m <;> decide

/-- What a call does to `m_queue`. -/
inductive QueueCall (T : Type) where
  | enqueue (t_data : T)
  | dequeue
  | dump
  | load (t_new_nodes t_new_nodes_tail : Ptr) (t_num_terms : ℤ)

/-- How a call tests `m_queue`: `m_queue->getSize() == 0`, or the same after
`int32_t size = m_queue->getSize();`. -/
inductive SizeTest where
  | getSize
  | narrowed

/-- What a call returns: a code or a count, a data pointer (`none` is
`nullptr`), and what it stores through `t_head` and `t_tail`. `elems` is not in
the source: what a caller finds who follows the two pointers that a `dump` has
stored, or what a `load` takes in. -/
structure Ret (T : Type) where
  code : ℤ := 0
  ptr : Option T := none
  head : Ptr := none
  tail : Ptr := none
  elems : List T := []

/-- The calls. -/
inductive Call (T : Type) where
  | enqueue (t_in : T) (t_prio : priority)
  | dequeue (t_prio : priority) (t_block : block)
  | dump (t_prio : priority) (t_block : block)
  | load (t_head t_tail : Ptr) (t_num_in : ℤ)

/-- The script of a call on the queue. -/
abbrev Code (T : Type) := Script Mutex SizeTest (QueueCall T) (Ret T)

variable {T : Type}

/-! ## The member functions

The scripts are written in the order of the source, branch by branch. What a function returns
after its `unique_lock`s are destroyed is its `ret`. -/

/-- `ConcurBlockingQueue::enqueue`. -/
def enqueue (t_in : T) : priority → Code T
  | .HIGH =>
      .lock .m_next_to_access <|
      .lock .m_data <|
      .unlock .m_next_to_access <|
      .act (.enqueue t_in) <|
      .notify <|
      .unlock .m_data <|
      .ret (some { code := 0 })
  | .LOW =>
      .lock .m_low_prio_access <|
      .lock .m_next_to_access <|
      .lock .m_data <|
      .unlock .m_next_to_access <|
      .act (.enqueue t_in) <|
      .unlock .m_data <|
      .unlock .m_low_prio_access <|
      .ret (some { code := 0 })

/-- `ConcurBlockingQueue::dequeue`. -/
def dequeue (t_prio : priority) (t_block : block) : Code T :=
  match t_prio with
  | .HIGH =>
      let take := .act .dequeue <| .unlock .m_data <| .ret none
      .lock .m_next_to_access <|
      .lock .m_data <|
      .unlock .m_next_to_access <|
      .branch .getSize
        (match t_block with
          | .NONBLOCK => .unlock .m_data <| .ret (some { ptr := none })
          | .BLOCK => .waitWhile .getSize .m_data take)
        take
  | .LOW =>
      let take := .act .dequeue <| .unlock .m_data <| .unlock .m_low_prio_access <| .ret none
      .lock .m_low_prio_access <|
      .lock .m_next_to_access <|
      .lock .m_data <|
      .unlock .m_next_to_access <|
      .branch .getSize
        (match t_block with
          -- `m_low_lock` is given back by its destructor here
          | .NONBLOCK => .unlock .m_data <| .ret (some { ptr := none })
          | .BLOCK => .waitWhile .getSize .m_data take)
        take

/-- `ConcurBlockingQueue::dump`. -/
def dump (t_prio : priority) (t_block : block) : Code T :=
  match t_prio with
  | .HIGH =>
      let take := .act .dump <| .unlock .m_data <| .ret none
      .lock .m_next_to_access <|
      .lock .m_data <|
      .unlock .m_next_to_access <|
      -- `int32_t size = m_queue->getSize(); if (size == 0)`
      .branch .narrowed
        (match t_block with
          | .NONBLOCK => .unlock .m_data <| .ret (some { code := 0 })
          | .BLOCK => .waitWhile .getSize .m_data take)
        take
  | .LOW =>
      let take := .act .dump <| .unlock .m_data <| .unlock .m_low_prio_access <| .ret none
      .lock .m_low_prio_access <|
      .lock .m_next_to_access <|
      .lock .m_data <|
      .unlock .m_next_to_access <|
      .branch .getSize
        (match t_block with
          | .NONBLOCK =>
              .unlock .m_data <| .unlock .m_low_prio_access <| .ret (some { code := 0 })
          | .BLOCK => .waitWhile .getSize .m_data take)
        take

/-- `ConcurBlockingQueue::load`, LOW branch. -/
def load (t_head t_tail : Ptr) (t_num_in : ℤ) : Code T :=
  if t_num_in ≤ 0 then
    .ret (some { code := -1 })
  else
    .lock .m_low_prio_access <|
    .lock .m_next_to_access <|
    .lock .m_data <|
    .unlock .m_next_to_access <|
    .act (.load t_head t_tail t_num_in) <|
    .notify <|
    .unlock .m_data <|
    .unlock .m_low_prio_access <|
    .ret none

/-- The script of each call. -/
def code : Call T → Code T
  | .enqueue t_in t_prio => enqueue t_in t_prio
  | .dequeue t_prio t_block => dequeue t_prio t_block
  | .dump t_prio t_block => dump t_prio t_block
  | .load t_head t_tail t_num_in => load t_head t_tail t_num_in

/-! ## The shared state

The object, and with it the heap on which its nodes are. The clients have the rest of the heap
to themselves. -/

/-- The heap, the queue in it, and which segment each call of `load` has been
handed and has not linked in yet (who owns those nodes; the code has no such
variable). -/
structure Shared (T : Type) where
  heap : Heap T
  m_queue : Queue
  loading : ℕ → Option (Ptr × Ptr × ℤ)

/-- A constructed queue, in any heap. -/
def Shared.new (h : Heap T) : Shared T := ⟨h, .new, fun _ => none⟩

/-- The outcome of a test of the queue. -/
def test : SizeTest → Shared T → Bool
  | .getSize, σ => σ.m_queue.getSize = 0
  | .narrowed, σ => toInt32 σ.m_queue.getSize = 0

/-- The nodes of a segment of `n` nodes from `p`. -/
def segment (h : Heap T) (p : Ptr) (n : ℤ) : List ℕ := addresses qnode.next h n.toNat p

/-- The data of the nodes from `p` to the null pointer, `n` at most, if the last of
them is `tail`; `last` is the node before `p`. `none`: there are more, `tail` is another
one, or a dangling pointer is followed. -/
def handed (h : Heap T) (tail : Ptr) : ℕ → (last p : Ptr) → Option (List T)
  | _, last, none => if last = tail then some [] else none
  | 0, _, some _ => none
  | n + 1, _, some a => do
      let node ← h.cell a
      let l ← handed h tail n (some a) node.next
      some (node.data :: l)

/-- The nodes that the `load` call `t` has been handed. -/
def Shared.loadNodes (σ : Shared T) (t : ℕ) : List ℕ :=
  match σ.loading t with
  | none => []
  | some (p, _, n) => segment σ.heap p n

/-- The effect of an action of the call `t`; `a` is the address `new` returns. -/
def perform : QueueCall T → (t a : ℕ) → Shared T → Option (Shared T × Ret T)
  | .enqueue t_data, _, a, σ => do
      let (h, q) ← σ.m_queue.enqueue a t_data σ.heap
      some ({ σ with heap := h, m_queue := q }, { code := 0 })
  | .dequeue, _, _, σ => do
      let (d, h, q) ← σ.m_queue.dequeue σ.heap
      some ({ σ with heap := h, m_queue := q }, { ptr := some d })
  | .dump, _, _, σ =>
      let (head, tail, size, q) := σ.m_queue.dump
      some ({ σ with m_queue := q },
        { code := size, head := head, tail := tail,
          elems := (handed σ.heap tail σ.m_queue.getSize none head).getD [] })
  | .load p r n, t, _, σ => do
      let (code, h, q) ← σ.m_queue.load p r n σ.heap
      some (⟨h, q, Function.update σ.loading t none⟩,
        { code := code, elems := Queue.data σ.heap (segment σ.heap p n) })

/-- A well-formed chain of exactly `n` nodes from `p` to `r`, an `int32_t`
many, which neither the queue nor another `load` call has. -/
structure Handover (σ : Shared T) (p r : Ptr) (n : ℤ) : Prop where
  count : 0 < n ∧ InInt32 n
  path : Path qnode.next σ.heap p (segment σ.heap p n) none
  length : ((segment σ.heap p n).length : ℤ) = n
  tail : r = (segment σ.heap p n).getLast?
  queue : ∀ b ∈ segment σ.heap p n, b ∉ σ.m_queue.nodes σ.heap
  loads : ∀ u, ∀ b ∈ segment σ.heap p n, b ∉ σ.loadNodes u

/-- The start of the call `t`: a `load` of something is handed its segment. -/
def enter : Call T → ℕ → Shared T → Shared T → Prop
  | .load p r n, t, σ, σ' =>
      if n ≤ 0 then σ' = σ
      else Handover σ p r n ∧ σ' = { σ with loading := Function.update σ.loading t (some (p, r, n)) }
  | _, _, σ, σ' => σ' = σ

/-- The clients may do anything to memory that neither the queue nor a `load`
call has. -/
structure Client (σ σ' : Shared T) : Prop where
  m_queue : σ'.m_queue = σ.m_queue
  loading : σ'.loading = σ.loading
  queue : ∀ a ∈ σ.m_queue.nodes σ.heap, σ'.heap.cell a = σ.heap.cell a
  loads : ∀ u, ∀ a ∈ σ.loadNodes u, σ'.heap.cell a = σ.heap.cell a

/-- `ConcurBlockingQueue`, ready to run. -/
def sem : Sem Mutex SizeTest (QueueCall T) (Ret T) (Call T) (Shared T) :=
  ⟨code, test, perform, enter, Client⟩

/-- A call as the monitor sees it. -/
abbrev CallThread (T : Type) := Thread Mutex SizeTest (QueueCall T) (Ret T) (Call T)

/-- A configuration of the queue and the calls in progress on it. -/
abbrev Config (T : Type) := State Mutex SizeTest (QueueCall T) (Ret T) (Call T) (Shared T)

/-- The configurations of all runs whose steps meet `ok`, from a constructed
queue. -/
abbrev Run (ok : Config T → Label (Call T) → Prop) (h : Heap T) : Config T → Prop :=
  Reach sem ok (.new h)

/-! ## Which call is which

What the results below need to know of a call, read off its arguments. -/

/-- The priority a call runs with. -/
def Call.prio : Call T → priority
  | .enqueue _ t_prio | .dequeue t_prio _ | .dump t_prio _ => t_prio
  | .load _ _ _ => .LOW

/-- The call takes elements out, and how it does on an empty queue. -/
def Call.consumes : Call T → Option block
  | .dequeue _ t_block | .dump _ t_block => some t_block
  | .enqueue _ _ | .load _ _ _ => none

/-- What the call does to `m_queue`. -/
def Call.action : Call T → QueueCall T
  | .enqueue t_in _ => .enqueue t_in
  | .dequeue _ _ => .dequeue
  | .dump _ _ => .dump
  | .load p r n => .load p r n

end ConcurBlockingQueue

end JudoEngine
