/-
How `run` takes the requests: from `m_input_queue` by `dump`, into a queue of its own by
`load`, and from there one by one.

The nodes go from one queue to the other by way of two `qnode**`, `head` and `tail`, that
`run` declares and never sets. `dump` stores through them and `load` reads through them.
Here they are two numbers that nothing is known about, and `pointers` is the memory that
they may happen to point into: a store or a read at an address that is no `qnode*` is
undefined, and so is one that would hit a field of a queue or the link of a node.

`Run.lean` has the requests as a list that one operation returns; `drain_refines` is why.
-/
import JudoEngine.ConcurBlockingQueue.Fifo
import JudoEngine.JudoServer.AccessSafety
import JudoEngine.Queue.HandOver

set_option autoImplicit false

open Linked Words

namespace JudoEngine

/-! ## Through the two pointers

The memory is a partial map from addresses to pointers: a store or a read at an address that
has no cell is undefined. With both variables at one cell the second store wins. -/

namespace Queue

variable {T : Type}

/-- `Queue::dump`, with its two stores. -/
def dumpTo (t_head_ptr t_tail_ptr : ℕ) (pointers : Store Ptr) (q : Queue) : Option (ℤ × Store Ptr × Queue) := do
  let (head, tail, size_out, q') := q.dump
  let _ ← pointers.cell t_head_ptr
  let pointers := pointers.set t_head_ptr head
  let _ ← pointers.cell t_tail_ptr
  some (size_out, pointers.set t_tail_ptr tail, q')

/-- `Queue::load`, with its two reads. -/
def loadFrom (t_new_nodes t_new_nodes_tail : ℕ) (t_num_terms : ℤ) (pointers : Store Ptr) (h : Heap T) (q : Queue) :
    Option (ℤ × Heap T × Queue) :=
  if t_num_terms ≤ 0 then some (-1, h, q)
  else do
    let head ← pointers.cell t_new_nodes
    let tail ← pointers.cell t_new_nodes_tail
    q.load head tail t_num_terms h

end Queue

/-- `ConcurBlockingQueue::dump` with `HIGH` and `NONBLOCK`, when no other call is in
progress. -/
def ConcurBlockingQueue.dumpHigh (t_head t_tail : ℕ) (pointers : Store Ptr) (m_queue : Queue) :
    Option (ℤ × Store Ptr × Queue) :=
  if toInt32 m_queue.getSize = 0 then some (0, pointers, m_queue) else m_queue.dumpTo t_head t_tail pointers

/-! ## The requests

The lines of `run` before the call of poll, on the two queues and the table. -/

/-- What these lines of `run` work on. `taken` is a history variable: the requests that
have been taken so far. -/
structure Draining where
  server : JudoServer
  heap : Heap judo_request_node
  m_input_queue : Queue
  queue : Queue
  pointers : Store Ptr
  taken : List judo_request_node

/-- The body of `while (queue->getSize() != 0)`. -/
def run.take (s : Draining) : Option Draining := do
  let (current, heap, queue) ← s.queue.dequeue s.heap
  let server :=
    match current.req with
    | .ADD_CONNECT => { s.server with m_ssl_nodes := s.server.m_ssl_nodes.add current.poll current.ssl_info }
    -- disconnect user
    | _ => s.server
  some { s with server := server, heap := heap, queue := queue, taken := s.taken ++ [current] }

/-- A request less is in the queue. -/
theorem m_size_of_take {s s' : Draining} (hne : s.queue.getSize ≠ 0) (h : run.take s = some s') :
    s'.queue.m_size + 1 = s.queue.m_size ∧ (s'.queue.m_size = 0 → s'.queue = .new)
      ∧ s'.taken.length = s.taken.length + 1 := by
  obtain ⟨⟨current, heap, queue⟩, hdequeue, h⟩ := Option.bind_eq_some_iff.mp h
  obtain ⟨head, hhead, hdequeue⟩ := Option.bind_eq_some_iff.mp hdequeue
  obtain ⟨node, hnode, hdequeue⟩ := Option.bind_eq_some_iff.mp hdequeue
  have hpos : s.queue.m_size ≠ 0 := hne
  cases h
  have hlength : (s.taken ++ [current]).length = s.taken.length + 1 := by simp
  split at hdequeue
  · next h1 =>
      cases hdequeue
      exact ⟨h1.symm, fun _ => rfl, hlength⟩
  · next h1 =>
      cases hdequeue
      simp only
      exact ⟨by omega, fun h0 => by omega, hlength⟩

/-- `while (queue->getSize() != 0)`. -/
def run.takes (s : Draining) : Option Draining :=
  if _hsize : s.queue.getSize = 0 then some s
  else
    match _htake : run.take s with
    | none => none
    | some s' => run.takes s'
termination_by s.queue.m_size
decreasing_by
  have hless := (m_size_of_take _hsize _htake).1
  omega

/-- `while (a != 9)` up to the call of `poll`; `head` and `tail` are what the two
variables happen to hold. -/
def run.drain (head tail : ℕ) (s : Draining) : Option Draining := do
  let (size, pointers, m_input_queue) ← ConcurBlockingQueue.dumpHigh head tail s.pointers s.m_input_queue
  let s := { s with pointers := pointers, m_input_queue := m_input_queue }
  if 0 < size then do
    let (_, heap, queue) ← s.queue.loadFrom head tail size s.pointers s.heap
    run.takes { s with heap := heap, queue := queue }
  else some s

/-! ## What is to be

The purpose of these lines, said without the queues in between: the requests go into the
table, in their order, and none is left anywhere. -/

/-- The rows that the requests are for. -/
def connecting (requests : List judo_request_node) : List (pollfd × ssl_node) :=
  (requests.filter (·.req = .ADD_CONNECT)).map fun current => (current.poll, current.ssl_info)

/-- Every request is taken, once and in order; both queues are empty, and the table has
the new rows behind the old ones. -/
structure Drains (s : Draining) (requests : List judo_request_node) (rows : List (pollfd × ssl_node)) (s' : Draining) :
    Prop where
  taken : s'.taken = s.taken ++ requests
  m_input_queue : s'.m_input_queue.Rep s'.heap []
  queue : s'.queue.Rep s'.heap []
  rows : s'.server.m_ssl_nodes.Rep (rows ++ connecting requests)
  nothing : requests = [] → s' = s

/-- The round takes the requests so, and nothing in it is undefined. -/
def Drained (head tail : ℕ) (s : Draining) (requests : List judo_request_node) (rows : List (pollfd × ssl_node)) : Prop :=
  ∃ s', run.drain head tail s = some s' ∧ Drains s requests rows s'

/-- The state of `run` at the top of a round. Between rounds only its own queue is
sure to be the same. -/
inductive AtTop : Draining → Prop where
  | first {s : Draining} (hqueue : s.queue = .new) : AtTop s
  | next {s s' s'' : Draining} {head tail : ℕ} (htop : AtTop s) (hdrain : run.drain head tail s = some s')
      (hqueue : s''.queue = s'.queue) : AtTop s''

/-- The two variables happen to point to a `qnode*` each, or to one that can hold both. -/
def Writable (head tail : ℕ) (s : Draining) : Prop :=
  (s.pointers.cell head).isSome ∧ (s.pointers.cell tail).isSome ∧ (head ≠ tail ∨ s.m_input_queue.getSize = 1)

variable {s s' : Draining} {head tail : ℕ} {requests : List judo_request_node} {rows : List (pollfd × ssl_node)}

/-! ## The loop

An induction on the queue's own counter, which falls by one with each request. -/

/-- The loop runs until the queue is empty. -/
theorem takes_cases (h : run.takes s = some s') :
    (s.queue.m_size = 0 ∧ s' = s)
      ∨ ∃ s₁, s.queue.m_size ≠ 0 ∧ run.take s = some s₁ ∧ run.takes s₁ = some s' := by
  rw [run.takes] at h
  split at h
  · next hsize => exact .inl ⟨hsize, (Option.some.inj h).symm⟩
  · next hsize =>
      split at h
      · exact absurd h.symm (Option.some_ne_none _)
      · next s₁ htake => exact .inr ⟨s₁, hsize, htake, h⟩

/-- As many requests are taken as the queue says it has, and then it is as it was made. -/
theorem taken_of_takes (hqueue : s.queue.m_size = 0 → s.queue = .new) (h : run.takes s = some s') :
    s'.queue = .new ∧ s'.taken.length = s.taken.length + s.queue.m_size := by
  generalize hn : s.queue.m_size = n
  induction n generalizing s with
  | zero =>
      rcases takes_cases h with ⟨-, rfl⟩ | ⟨s₁, hne, -⟩
      · exact ⟨hqueue hn, rfl⟩
      · exact absurd hn hne
  | succ n ih =>
      rcases takes_cases h with ⟨h0, -⟩ | ⟨s₁, hne, htake, h₁⟩
      · omega
      · obtain ⟨hsize, hnew, hlength⟩ := m_size_of_take hne htake
        obtain ⟨hlast, htaken⟩ := ih hnew h₁ (by omega)
        exact ⟨hlast, by omega⟩

/-- **One iteration** takes the first request, and does what it asks for. -/
theorem take_spec {a : ℕ} {as : List ℕ} (hs : s.queue.Shape s.heap (a :: as)) :
    ∃ current s', run.take s = some s' ∧ s'.queue.Shape s'.heap as
      ∧ Queue.data s.heap (a :: as) = current :: Queue.data s'.heap as
      ∧ s'.taken = s.taken ++ [current] ∧ s'.server = run.load s.server [current]
      ∧ s'.m_input_queue = s.m_input_queue := by
  obtain ⟨current, heap, queue, hdequeue, hshape, hdata, -⟩ := Queue.dequeue_spec hs
  refine ⟨current, { s with server := run.load s.server [current], heap := heap, queue := queue, taken := s.taken ++ [current] },
    ?_, hshape, hdata, rfl, rfl, rfl⟩
  simp only [run.take, hdequeue, Option.bind_eq_bind, Option.bind_some]
  cases hreq : current.req <;> simp [run.load, hreq]

/-- Loading requests is loading the first one and then the others. -/
theorem load_cons (server : JudoServer) (current : judo_request_node) (requests : List judo_request_node) :
    run.load server (current :: requests) = run.load (run.load server [current]) requests := by
  cases hreq : current.req <;> simp [run.load, hreq]

/-- **The loop** takes all requests in their order. -/
theorem takes_spec {as : List ℕ} (hs : s.queue.Shape s.heap as) :
    ∃ s', run.takes s = some s' ∧ s'.queue.Shape s'.heap [] ∧ s'.taken = s.taken ++ Queue.data s.heap as
      ∧ s'.server = run.load s.server (Queue.data s.heap as) ∧ s'.m_input_queue = s.m_input_queue := by
  -- on the requests that are left in the local queue
  induction as generalizing s with
  | nil =>
      refine ⟨s, ?_, hs, (List.append_nil _).symm, rfl, rfl⟩
      have hnone : s.queue.getSize = 0 := hs.size
      rw [run.takes, dif_pos hnone]
  | cons a as ih =>
      obtain ⟨current, s₁, htake, hshape, hdata, htaken, hserver, hinput⟩ := take_spec hs
      obtain ⟨s', htakes, hnew, htaken', hserver', hinput'⟩ := ih hshape
      have hne : s.queue.getSize ≠ 0 := by
        rw [Queue.getSize, hs.size]
        simp
      refine ⟨s', ?_, hnew, ?_, ?_, hinput'.trans hinput⟩
      · rw [run.takes, dif_neg hne]
        split
        · next hnone => exact absurd (htake.symm.trans hnone) (Option.some_ne_none _)
        · next s₂ hsome =>
            obtain rfl := Option.some.inj (htake.symm.trans hsome)
            exact htakes
      · rw [htaken', htaken, hdata, List.append_assoc]
        rfl
      · rw [hserver', hserver, hdata, ← load_cons]

/-! ## The table

A request whose connection is to be watched adds a row behind the others, and any other
request leaves the table as it is. -/

/-- What `load` does to the table. -/
theorem rep_load_connecting (requests : List judo_request_node) : ∀ {server : JudoServer} {rows : List (pollfd × ssl_node)},
    server.m_ssl_nodes.Rep rows → (run.load server requests).m_ssl_nodes.Rep (rows ++ connecting requests) := by
  induction requests with
  | nil =>
      intro server rows hrep
      simpa [connecting, run.load] using hrep
  | cons current queue ih =>
      intro server rows hrep
      rw [load_cons]
      by_cases hreq : current.req = .ADD_CONNECT
      · have hadd : (run.load server [current]).m_ssl_nodes.Rep (rows ++ [(current.poll, current.ssl_info)]) := by
          simpa [run.load, hreq] using (DualDynamicArray.add_spec hrep current.poll current.ssl_info).1
        simpa [connecting, hreq] using ih hadd
      · have hsame : run.load server [current] = server := by
          cases h : current.req <;> simp_all [run.load]
        rw [hsame]
        simpa [connecting, hreq] using ih hrep

/-! ## A round

With the code of dump and load written out a round is one expression, in which it shows where
it is undefined: when the two cells are missing, or when the head was overwritten by the tail. -/

/-- After `dump`. -/
def dumped (head tail : ℕ) (s : Draining) : Draining :=
  { s with
    m_input_queue := .new
    pointers := (s.pointers.set head s.m_input_queue.m_head).set tail s.m_input_queue.m_tail }

/-- After `load`; where both variables point to one `qnode*`, it holds the tail. -/
def loaded (head tail : ℕ) (size : ℤ) (s : Draining) : Draining :=
  { dumped head tail s with
    queue := ⟨size.toNat, if head = tail then s.m_input_queue.m_tail else s.m_input_queue.m_head, s.m_input_queue.m_tail⟩ }

/-- `dump` stores through both pointers. -/
theorem dumpTo_eq (q : Queue) (pointers : Store Ptr) : q.dumpTo head tail pointers =
    if (pointers.cell head).isSome ∧ (pointers.cell tail).isSome then
      some (toInt32 q.m_size, (pointers.set head q.m_head).set tail q.m_tail, .new)
    else none := by
  -- the cell of tail is looked at after head was written, and they may be one cell
  have hsame : ((pointers.set head q.m_head).cell tail).isSome ↔ head = tail ∨ (pointers.cell tail).isSome := by
    by_cases heq : tail = head
    · subst heq
      simp
    · rw [Store.set_cell_of_ne _ _ heq]
      simp [Ne.symm heq]
  unfold Queue.dumpTo Queue.dump
  cases hhead : pointers.cell head with
  | none => simp
  | some x =>
      by_cases htail : (pointers.cell tail).isSome
      · obtain ⟨y, hy⟩ := Option.isSome_iff_exists.mp (hsame.mpr (.inr htail))
        simp [htail, hy, Queue.new]
      · have hne : ¬ head = tail := by
          rintro rfl
          rw [hhead] at htail
          exact htail rfl
        have hnone : (pointers.set head q.m_head).cell tail = none := by
          rw [← Option.not_isSome_iff_eq_none, hsame]
          simp [hne, htail]
        simp [htail, hnone]

/-- `load` reads the tail where the two are one. -/
theorem loadFrom_eq {n : ℤ} (hn : 0 < n) {q : Queue} (pointers : Store Ptr) (h : Heap judo_request_node) :
    Queue.loadFrom head tail n ((pointers.set head q.m_head).set tail q.m_tail) h .new
      = some (0, h, ⟨n.toNat, if head = tail then q.m_tail else q.m_head, q.m_tail⟩) := by
  have hhead : ((pointers.set head q.m_head).set tail q.m_tail).cell head
      = some (if head = tail then q.m_tail else q.m_head) := by
    by_cases heq : head = tail
    · subst heq
      simp
    · rw [Store.set_cell_of_ne _ _ heq, Store.set_cell_self, if_neg heq]
  unfold Queue.loadFrom Queue.load Queue.new
  simp [not_le.mpr hn, hhead]

/-- A round is what the dump makes of it. -/
theorem drain_of_dump {size : ℤ} {pointers : Store Ptr} {m_input_queue : Queue}
    (hdump : ConcurBlockingQueue.dumpHigh head tail s.pointers s.m_input_queue = some (size, pointers, m_input_queue)) :
    run.drain head tail s =
      if 0 < size then
        (s.queue.loadFrom head tail size pointers s.heap).bind fun out =>
          run.takes { s with pointers := pointers, m_input_queue := m_input_queue, heap := out.2.1, queue := out.2.2 }
      else some { s with pointers := pointers, m_input_queue := m_input_queue } := by
  unfold run.drain
  rw [hdump]
  rfl

/-- From a queue whose size is cut to 0 nothing is dumped. -/
theorem dumpHigh_of_eq {q : Queue} {pointers : Store Ptr} (h0 : toInt32 q.m_size = 0) :
    ConcurBlockingQueue.dumpHigh head tail pointers q = some (0, pointers, q) := by
  unfold ConcurBlockingQueue.dumpHigh Queue.getSize
  rw [if_pos h0]

theorem dumpHigh_of_ne {q : Queue} {pointers : Store Ptr} (h0 : toInt32 q.m_size ≠ 0) :
    ConcurBlockingQueue.dumpHigh head tail pointers q = q.dumpTo head tail pointers := by
  unfold ConcurBlockingQueue.dumpHigh Queue.getSize
  rw [if_neg h0]

/-- **A round**, from an empty queue of its own. -/
theorem drain_eq (hqueue : s.queue = .new) : run.drain head tail s =
    if toInt32 s.m_input_queue.m_size = 0 then some s
    else if (s.pointers.cell head).isSome ∧ (s.pointers.cell tail).isSome then
      if 0 < toInt32 s.m_input_queue.m_size then run.takes (loaded head tail (toInt32 s.m_input_queue.m_size) s) else some (dumped head tail s)
    else none := by
  -- dump returns 0 for an empty queue and writes nothing; otherwise it stores through both pointers
  by_cases h0 : toInt32 s.m_input_queue.m_size = 0
  · rw [if_pos h0, drain_of_dump (dumpHigh_of_eq h0)]
    rfl
  · rw [if_neg h0]
    have hdump : ConcurBlockingQueue.dumpHigh head tail s.pointers s.m_input_queue = _ := dumpHigh_of_ne h0
    rw [dumpTo_eq] at hdump
    split
    · next hcells =>
        rw [if_pos hcells] at hdump
        rw [drain_of_dump hdump]
        split
        · next hpos =>
            rw [hqueue, loadFrom_eq hpos, Option.bind_some]
            unfold loaded dumped
            rfl
        · rfl
    · next hcells =>
        rw [if_neg hcells] at hdump
        unfold run.drain
        rw [hdump]
        rfl

namespace ConcurBlockingQueue

variable {T : Type} {σ : Shared T}

/-- The script does the same: it returns 0 there, with the queue as it was. -/
theorem alone_dump_of_eq (t d : ℕ) (h0 : toInt32 σ.m_queue.m_size = 0) :
    (code (.dump .HIGH .NONBLOCK)).alone sem t d σ none = some (σ, some { code := 0 }) := by
  have htest : test .narrowed σ = true := by
    unfold test Queue.getSize
    rwa [decide_eq_true_eq]
  simp [code, dump, Monitor.Script.alone, sem, htest]

/-- Otherwise it hands out the head and the tail of the queue, and leaves a new one. -/
theorem alone_dump_of_ne (t d : ℕ) (h0 : toInt32 σ.m_queue.m_size ≠ 0) :
    ∃ elems, (code (.dump .HIGH .NONBLOCK)).alone sem t d σ none
      = some ({ σ with m_queue := .new }, some ⟨toInt32 σ.m_queue.m_size, none, σ.m_queue.m_head, σ.m_queue.m_tail, elems⟩) := by
  have htest : test .narrowed σ = false := by
    unfold test Queue.getSize
    rwa [decide_eq_false_iff_not]
  refine ⟨(handed σ.heap σ.m_queue.m_tail σ.m_queue.getSize none σ.m_queue.m_head).getD [], ?_⟩
  simp [code, dump, Monitor.Script.alone, sem, htest, perform, Queue.dump, Queue.new]

/-- What `dump` does when no other call is in progress: it returns the code, stores the two
pointers, and leaves the queue. -/
theorem dumpHigh_alone {h : Heap T} {s : Config T} (hs : Run Monitor.anyStep h s) (hq : Quiescent s) :
    ∃ s' v, Run Monitor.anyStep h s' ∧ s'.threads s.born = .done (.dump .HIGH .NONBLOCK) (some v)
      ∧ s'.shared.heap = s.shared.heap
      ∧ ∀ pointers : Store Ptr, (pointers.cell head).isSome → (pointers.cell tail).isSome →
          dumpHigh head tail pointers s.shared.m_queue
            = some (v.code, if v.code = 0 then pointers else (pointers.set head v.head).set tail v.tail, s'.shared.m_queue) := by
  have hload : ∀ p r n, (.dump .HIGH .NONBLOCK : Call T) ≠ .load p r n := fun _ _ _ hc => by cases hc
  by_cases h0 : toInt32 s.shared.m_queue.m_size = 0
  · obtain ⟨s', hs', hdone, hshared⟩ := hq.alone hs hload (alone_dump_of_eq s.born 0 h0)
    refine ⟨s', _, hs', hdone, by rw [hshared], fun pointers _ _ => ?_⟩
    rw [dumpHigh_of_eq h0, hshared, if_pos rfl]
  · obtain ⟨elems, halone⟩ := alone_dump_of_ne s.born 0 h0
    obtain ⟨s', hs', hdone, hshared⟩ := hq.alone hs hload halone
    refine ⟨s', _, hs', hdone, by rw [hshared], fun pointers hhead htail => ?_⟩
    rw [dumpHigh_of_ne h0, dumpTo_eq, if_pos ⟨hhead, htail⟩, hshared, if_neg h0]

end ConcurBlockingQueue

/-- Between the rounds the queue is as it was made. -/
theorem AtTop.queue_new (h : AtTop s) : s.queue = .new := by
  induction h with
  | first hqueue => exact hqueue
  | @next s s' s'' head tail htop hdrain hqueue ih =>
      rw [hqueue]
      rw [drain_eq ih] at hdrain
      split at hdrain
      · rw [← Option.some.inj hdrain]
        exact ih
      · split at hdrain
        · split at hdrain
          · next hpos =>
              -- what is loaded is not empty
              generalize toInt32 s.m_input_queue.m_size = size at hpos hdrain
              have hsome : (loaded head tail size s).queue.m_size ≠ 0 := (Int.pos_iff_toNat_pos.mp hpos).ne'
              exact (taken_of_takes (fun hzero => absurd hzero hsome) hdrain).1
          · rw [← Option.some.inj hdrain]
            exact ih
        · exact absurd hdrain.symm (Option.some_ne_none _)

/-! ## When the requests are taken

The direction from the condition to the result goes through the round's expression. For the
other one, each way in which the round is undefined or loses a node is a failure of the
condition. -/

/-- Where the two pointers can be stored through, the round takes the requests, and
leaves the server that `load` does. -/
theorem drain_refines (hqueue : s.queue = .new) (hrequests : s.m_input_queue.Rep s.heap requests)
    (hne : requests ≠ []) (hlt : requests.length < 2 ^ 31) (hwritable : Writable head tail s) :
    ∃ s', run.drain head tail s = some s' ∧ s'.server = run.load s.server requests
      ∧ s'.taken = s.taken ++ requests ∧ s'.m_input_queue = .new ∧ s'.queue.Rep s'.heap [] := by
  have hsize := hrequests.size
  obtain ⟨as, hshape, rfl⟩ := hrequests
  obtain ⟨hhead, htail, hone⟩ := hwritable
  have hpos : 0 < (Queue.data s.heap as).length := List.length_pos_of_ne_nil hne
  have hfits : toInt32 s.m_input_queue.m_size = s.m_input_queue.m_size :=
    ConcurBlockingQueue.toInt32_of_lt (by omega)
  have hloaded : (loaded head tail as.length s).queue.Shape (loaded head tail as.length s).heap as := by
    refine ⟨?_, rfl, hshape.tail⟩
    show Path qnode.next s.heap (if head = tail then _ else _) as none
    split
    · next heq =>
        -- there is one node, and the tail is the head
        have hlength : as.length = 1 := hshape.size.symm.trans (hone.resolve_left fun h => h heq)
        obtain ⟨a, rfl⟩ := List.length_eq_one_iff.mp hlength
        have hsame : s.m_input_queue.m_tail = s.m_input_queue.m_head := hshape.tail.trans hshape.path.1.symm
        rw [hsame]
        exact hshape.path
    · exact hshape.path
  obtain ⟨s', htakes, hempty, htaken, hserver, hinput⟩ := takes_spec hloaded
  refine ⟨s', ?_, hserver, htaken, hinput, [], hempty, rfl⟩
  rw [drain_eq hqueue, hfits, if_neg (by omega), if_pos ⟨hhead, htail⟩, if_pos (by omega), hshape.size]
  exact htakes

/-- No node is left to be taken. -/
theorem take_none (hhead : s.queue.m_head = none) : run.take s = none := by
  simp [run.take, Queue.dequeue, hhead]

/-- From the last node, no second one is taken. -/
theorem takes_last {a : ℕ} {d : judo_request_node} (hhead : s.queue.m_head = some a)
    (hcell : s.heap.cell a = some ⟨d, none⟩) (hsize : 1 < s.queue.m_size) : run.takes s = none := by
  by_contra hsome
  obtain ⟨s', h⟩ := Option.ne_none_iff_exists'.mp hsome
  rcases takes_cases h with ⟨h0, -⟩ | ⟨s₁, -, htake, h₁⟩
  · omega
  · have hnull : s₁.queue.m_head = none ∧ s₁.queue.m_size = s.queue.m_size - 1 := by
      simp only [run.take, Queue.dequeue, hhead, hcell, Option.bind_eq_bind, Option.bind_some,
        if_neg (show s.queue.m_size ≠ 1 by omega)] at htake
      cases htake
      exact ⟨rfl, rfl⟩
    rcases takes_cases h₁ with ⟨h0, -⟩ | ⟨s₂, -, htake', -⟩
    · omega
    · exact absurd (htake'.symm.trans (take_none hnull.1)) (Option.some_ne_none _)

/-- If the requests are taken, there are none, or the two pointers can be stored
through. -/
theorem Drained.writable (hqueue : s.queue = .new) (hrequests : s.m_input_queue.Rep s.heap requests)
    (h : Drained head tail s requests rows) :
    requests = [] ∨ requests.length < 2 ^ 31 ∧ Writable head tail s := by
  by_cases hne : requests = []
  · exact .inl hne
  · right
    obtain ⟨s', hdrain, hdrains⟩ := h
    have hsize := hrequests.size
    have hpos : 0 < requests.length := List.length_pos_of_ne_nil hne
    rw [drain_eq hqueue] at hdrain
    -- the round of `drain_eq`: nothing to dump, no cells, a cut size, or the case that goes well
    split at hdrain
    · -- nothing was taken
      cases hdrain
      have hempty := hdrains.m_input_queue.size
      rw [List.length_nil] at hempty
      omega
    · split at hdrain
      · next hcells =>
          split at hdrain
          · next hcount =>
              have hrange := (toInt32_mem s.m_input_queue.m_size).2
              generalize toInt32 s.m_input_queue.m_size = size at hcount hdrain hrange
              have hsome : (loaded head tail size s).queue.m_size ≠ 0 := (Int.pos_iff_toNat_pos.mp hcount).ne'
              have htaken : s'.taken.length = s.taken.length + size.toNat :=
                (taken_of_takes (fun hzero => absurd hzero hsome) hdrain).2
              rw [hdrains.taken, List.length_append] at htaken
              refine ⟨by omega, hcells.1, hcells.2, ?_⟩
              by_contra hboth
              obtain ⟨hsame, hmany⟩ := not_or.mp hboth
              obtain ⟨as, hshape, -⟩ := hrequests
              obtain ⟨as', a, node, -, hlast, -⟩ := hshape.exists_last (by omega)
              obtain ⟨d, hcell⟩ := Queues.last_of_shape hshape hlast
              have hmany' : s.m_input_queue.m_size ≠ 1 := hmany
              have hhead : (loaded head tail size s).queue.m_head = some a := (if_pos (not_not.mp hsame)).trans hlast
              have hless : 1 < (loaded head tail size s).queue.m_size := by
                show 1 < size.toNat
                omega
              rw [takes_last hhead hcell hless] at hdrain
              exact absurd hdrain.symm (Option.some_ne_none _)
          · -- the nodes are in neither queue any more
            cases hdrain
            have hnone : s.taken = s.taken ++ requests := hdrains.taken
            exact absurd (List.self_eq_append_right.mp hnone) hne
      · exact absurd hdrain.symm (Option.some_ne_none _)

/-- **Taking the requests.** At the top of a round, whatever is in `m_input_queue`, the
requests are taken exactly when there are none, or a number that an `int32_t` holds and
the two variables that are never set happen to point to a `qnode*` each. -/
theorem drained_iff (htop : AtTop s) (hrequests : s.m_input_queue.Rep s.heap requests)
    (hrows : s.server.m_ssl_nodes.Rep rows) :
    Drained head tail s requests rows ↔ requests = [] ∨ requests.length < 2 ^ 31 ∧ Writable head tail s := by
  have hqueue := htop.queue_new
  constructor
  · exact fun h => h.writable hqueue hrequests
  · intro hcond
    -- with no request the pointers are never used, so nothing is asked of them
    by_cases hne : requests = []
    · subst hne
      have hzero : s.m_input_queue.m_size = 0 := hrequests.size
      refine ⟨s, ?_, (List.append_nil _).symm, hrequests, ?_, ?_, fun _ => rfl⟩
      · rw [drain_eq hqueue, hzero]
        exact if_pos rfl
      · rw [hqueue]
        exact ⟨[], Queue.shape_new _, rfl⟩
      · simpa [connecting] using hrows
    · obtain ⟨hlt, hwritable⟩ := hcond.resolve_left hne
      obtain ⟨s', hdrain, hserver, htaken, hinput, hempty⟩ := drain_refines hqueue hrequests hne hlt hwritable
      refine ⟨s', hdrain, htaken, ?_, hempty, ?_, fun hnil => absurd hnil hne⟩
      · rw [hinput]
        exact ⟨[], Queue.shape_new _, rfl⟩
      · rw [hserver]
        exact rep_load_connecting requests hrows

/-- A request to connect, and another one. -/
def twoRequests : List judo_request_node :=
  [⟨clientNode, ⟨5, POLLIN, 0⟩, .ADD_CONNECT⟩, ⟨default, ⟨6, POLLIN, 0⟩, .DISCONNECT⟩]

/-- `run` in its first round, with these requests. -/
def waiting (pointers : Store Ptr) : Draining where
  server := .init_ default
  heap :=
    (Store.empty.set 0 ⟨⟨clientNode, ⟨5, POLLIN, 0⟩, .ADD_CONNECT⟩, some 1⟩).set 1 ⟨⟨default, ⟨6, POLLIN, 0⟩, .DISCONNECT⟩, none⟩
  m_input_queue := ⟨2, some 0, some 1⟩
  queue := .new
  pointers := pointers
  taken := []

/-- The two requests are what the queue holds. -/
theorem rep_waiting (pointers : Store Ptr) : (waiting pointers).m_input_queue.Rep (waiting pointers).heap twoRequests :=
  ⟨[0, 1], ⟨⟨rfl, _, rfl, rfl, _, rfl, rfl⟩, rfl, rfl⟩, rfl⟩

/-- With two cells to point to, both are taken. -/
theorem drained_two :
    Drained 0 1 (waiting ((Store.empty.set 0 none).set 1 none)) twoRequests [] := by
  have hwritable : Writable 0 1 (waiting ((Store.empty.set 0 none).set 1 none)) := by
    refine ⟨rfl, rfl, .inl ?_⟩
    decide
  exact (drained_iff (.first rfl) (rep_waiting _) DualDynamicArray.rep_new).mpr (.inr ⟨by decide, hwritable⟩)

/-- Where there is nothing to point to, no values of the two variables will do. -/
theorem not_drained : AtTop (waiting .empty) ∧ (waiting .empty).m_input_queue.Rep (waiting .empty).heap twoRequests
    ∧ (waiting .empty).server.m_ssl_nodes.Rep [] ∧ ∀ head tail, ¬ Drained head tail (waiting .empty) twoRequests [] := by
  refine ⟨.first rfl, rep_waiting _, DualDynamicArray.rep_new, fun head tail h => ?_⟩
  rcases h.writable rfl (rep_waiting _) with hnil | ⟨-, hhead, -⟩
  · exact absurd hnil (List.cons_ne_nil _ _)
  · exact absurd hhead Bool.false_ne_true

end JudoEngine
