/-
What holds of a `ConcurBlockingQueue` in every interleaving, whatever it is
then used for: who owns which mutex at which instruction, that the linked queue
and the segments in hand-over stay well formed and apart, and how far each call
has come.
-/
import JudoEngine.ConcurBlockingQueue.Model

set_option autoImplicit false

open Monitor Linked Words

namespace JudoEngine.ConcurBlockingQueue

variable {T : Type}

/-! ## Who owns what

Each script is checked against the rules once, and so is the order of the mutexes; what
follows holds in every state of every run. -/

/-- What a call owns at each instruction. `m_data` is taken only by the owner of
`m_next_to_access`, the queue is touched only by the owner of `m_data`, and a
LOW call has `m_low_prio_access` from its first instruction on. -/
def rules (c : Call T) : Rules Mutex SizeTest (QueueCall T) (Ret T) := fun h x =>
  match x with
  | .ret _ => True
  | .lock .m_low_prio_access _ => c.prio = .LOW ∧ h = ∅
  | .lock .m_next_to_access _ =>
      .m_next_to_access ∉ h ∧ .m_data ∉ h ∧ (.m_low_prio_access ∈ h ↔ c.prio = .LOW)
  | .lock .m_data _ =>
      .m_next_to_access ∈ h ∧ .m_data ∉ h ∧ (.m_low_prio_access ∈ h ↔ c.prio = .LOW)
  | .unlock _ _ => .m_low_prio_access ∈ h ↔ c.prio = .LOW
  | .notify _ => .m_data ∈ h ∧ (.m_low_prio_access ∈ h ↔ c.prio = .LOW)
  | .branch _ _ _ | .act _ _ =>
      .m_data ∈ h ∧ .m_next_to_access ∉ h ∧ (.m_low_prio_access ∈ h ↔ c.prio = .LOW)
  | .waitWhile _ m _ =>
      m = .m_data ∧ .m_next_to_access ∉ h ∧ (.m_low_prio_access ∈ h ↔ c.prio = .LOW)

/-- Every member function keeps to these rules, on each of its branches. -/
theorem locked_code (c : Call T) : Locked (rules c) ∅ (code c) := by
  rcases c with ⟨d, _ | _⟩ | ⟨_ | _, _ | _⟩ | ⟨_ | _, _ | _⟩ | ⟨p, r, n⟩
  case load =>
    by_cases hn : n ≤ 0
    · simp [code, load, hn, Locked]
    · simp [code, load, hn, Locked, rules, Call.prio]
  all_goals simp [code, enqueue, dequeue, dump, Locked, rules, Call.prio]

/-- The order in which the mutexes are taken. -/
def Mutex.rank : Mutex → ℕ
  | .m_low_prio_access => 0
  | .m_next_to_access => 1
  | .m_data => 2

/-- Whatever a call may still take comes after all that it has. -/
def ordered : Rules Mutex SizeTest (QueueCall T) (Ret T) := fun h x =>
  ∀ m ∈ h, ∀ m', Locks m' x → m.rank < m'.rank

/-- So every member function takes them in this order. -/
theorem ordered_code (c : Call T) : Locked ordered ∅ (code c) := by
  rcases c with ⟨d, _ | _⟩ | ⟨_ | _, _ | _⟩ | ⟨_ | _, _ | _⟩ | ⟨p, r, n⟩
  case load =>
    by_cases hn : n ≤ 0
    · simp [code, load, hn, Locked]
    · simp [code, load, hn, Locked, ordered, Locks, Mutex.rank]
  all_goals simp [code, enqueue, dequeue, dump, Locked, ordered, Locks, Mutex.rank]

/-! ## How far a call has come

A phase is read off what a call has left to do, so it needs no variable of its own. -/

/-- Where a call is with respect to its one effect on the queue: before it,
right before it (having seen an element), after it, or giving up because the
queue was empty. -/
inductive Phase where
  | entering
  | ready
  | acted
  | empty

/-- `r` can be what `c` has left to do in the phase `ph`. -/
def Flow (c : Call T) : Phase → Code T → Prop
  | .entering, .ret v => (∃ p r n, c = .load p r n ∧ n ≤ 0) ∧ v = some { code := -1 }
  | .entering, .lock _ k | .entering, .unlock _ k => Flow c .entering k
  | .entering, .branch _ x y =>
      (c.consumes = some .BLOCK ∧ Flow c .entering x ∨ c.consumes = some .NONBLOCK ∧ Flow c .empty x)
        ∧ Flow c .ready y
  | .entering, .waitWhile p _ k =>
      c.consumes = some .BLOCK ∧ p = .getSize ∧ Flow c .ready k
  | .entering, .act a k => c.consumes = none ∧ (∀ p r n, c = .load p r n → 0 < n)
      ∧ a = c.action ∧ Flow c .acted k
  | .ready, .act a k => c.consumes ≠ none ∧ a = c.action ∧ Flow c .acted k
  | .acted, .ret v => v = none ∨ (∃ d p, c = .enqueue d p) ∧ v = some {}
  | .acted, .unlock _ k | .acted, .notify k => Flow c .acted k
  | .empty, .ret v => v = some {}
  | .empty, .unlock _ k => Flow c .empty k
  | _, _ => False

/-- Every call starts before its effect, on each of its branches. -/
theorem flow_code (c : Call T) : Flow c .entering (code c) := by
  rcases c with ⟨d, _ | _⟩ | ⟨_ | _, _ | _⟩ | ⟨_ | _, _ | _⟩ | ⟨p, r, n⟩
  case load =>
    by_cases hn : n ≤ 0
    · simp [code, load, hn, Flow]
    · simp [code, load, hn, Flow, Call.consumes, Call.action]
      omega
  all_goals simp [code, enqueue, dequeue, dump, Flow, Call.consumes, Call.action]

/-- After its effect a call does not wait any more. -/
theorem Flow.not_waits {c : Call T} {r : Code T} (hr : Flow c .acted r) : ¬ Waits r := by
  induction r with
  | unlock m k ih | notify k ih => exact ih hr
  | ret => exact id
  | lock | branch | waitWhile | act => exact hr.elim

/-! ## The queue and the segments on the heap

The heap is shared by the queue, the calls of load that have been handed nodes and the
clients. The invariant keeps them apart. -/

namespace Shared

/-- The elements in the queue. -/
def content (σ : Shared T) : List T := Queue.data σ.heap (σ.m_queue.nodes σ.heap)

/-- The queue and every segment in hand-over are well formed, and no node
belongs to two of them. -/
structure Ok (σ : Shared T) : Prop where
  queue : Queue.Shape σ.heap σ.m_queue (σ.m_queue.nodes σ.heap)
  seg : ∀ t p r n, σ.loading t = some (p, r, n) → 0 < n ∧ Path qnode.next σ.heap p (σ.loadNodes t) none
    ∧ ((σ.loadNodes t).length : ℤ) = n ∧ r = (σ.loadNodes t).getLast?
  off : ∀ t, ∀ b ∈ σ.loadNodes t, b ∉ σ.m_queue.nodes σ.heap
  disj : ∀ t u, t ≠ u → ∀ b ∈ σ.loadNodes t, b ∉ σ.loadNodes u

theorem loadNodes_of_none {σ : Shared T} {t : ℕ} (ht : σ.loading t = none) : σ.loadNodes t = [] := by
  rw [loadNodes, ht]

theorem loadNodes_of_some {σ : Shared T} {t : ℕ} {p r : Ptr} {n : ℤ}
    (ht : σ.loading t = some (p, r, n)) : σ.loadNodes t = segment σ.heap p n := by
  rw [loadNodes, ht]

/-- The queue as it is constructed. -/
theorem ok_new (h : Heap T) : (Shared.new h).Ok where
  queue := Queue.shape_new h
  seg t p r n ht := by cases ht
  off t b hb := by cases hb
  disj t u _ b hb := by cases hb

/-- The queue stores its content. -/
theorem Ok.rep {σ : Shared T} (hσ : σ.Ok) : Queue.Rep σ.heap σ.m_queue σ.content :=
  ⟨_, hσ.queue, rfl⟩

/-- Its size is the number of elements. -/
theorem Ok.length_content {σ : Shared T} (hσ : σ.Ok) :
    σ.content.length = σ.m_queue.getSize := hσ.queue.length_data

/-- A segment in hand-over only depends on its own cells. -/
theorem Ok.seg_congr {σ σ' : Shared T} (hσ : σ.Ok) {t : ℕ} (hload : σ'.loading t = σ.loading t)
    (hcell : ∀ b ∈ σ.loadNodes t, σ'.heap.cell b = σ.heap.cell b) :
    σ'.loadNodes t = σ.loadNodes t
      ∧ ∀ p r n, σ'.loading t = some (p, r, n) → Path qnode.next σ'.heap p (σ.loadNodes t) none := by
  cases ht : σ.loading t with
  | none =>
      rw [loadNodes_of_none ht, loadNodes_of_none (hload.trans ht)]
      refine ⟨rfl, fun p r n h => ?_⟩
      rw [hload, ht] at h
      exact absurd h (by simp)
  | some x =>
      obtain ⟨p, r, n⟩ := x
      obtain ⟨hpos, hpath, hlen, -⟩ := hσ.seg t p r n ht
      have hpath' := hpath.congr hcell
      have hn : n.toNat = (σ.loadNodes t).length := by omega
      refine ⟨?_, fun p' r' n' h => ?_⟩
      · rw [loadNodes_of_some (hload.trans ht), segment, hn]
        exact hpath'.addresses_eq
      · rw [hload, ht] at h
        cases h
        exact hpath'

/-- A change of the heap and the queue that leaves every segment in hand-over
alone keeps the invariant, if the new queue is well formed and has no node of
a segment. -/
theorem Ok.update {σ σ' : Shared T} (hσ : σ.Ok) {as : List ℕ}
    (hshape : Queue.Shape σ'.heap σ'.m_queue as)
    (hload : ∀ t, σ'.loading t = σ.loading t ∨ σ'.loading t = none)
    (hcell : ∀ t, σ'.loading t = σ.loading t →
      ∀ b ∈ σ.loadNodes t, σ'.heap.cell b = σ.heap.cell b ∧ b ∉ as) : σ'.Ok := by
  -- a segment that is being handed over is still the same, or is one no longer
  have hnodes : ∀ t, σ'.loadNodes t = [] ∨ σ'.loading t = σ.loading t ∧ σ'.loadNodes t = σ.loadNodes t := by
    intro t
    rcases hload t with hsame | hnone
    · exact .inr ⟨hsame, (hσ.seg_congr hsame fun b hb => (hcell t hsame b hb).1).1⟩
    · exact .inl (loadNodes_of_none hnone)
  refine ⟨?_, ?_, ?_, ?_⟩
  · rw [hshape.nodes_eq]
    exact hshape
  · intro t p r n ht
    have hsame : σ'.loading t = σ.loading t := by
      rcases hload t with hsame | hnone
      · exact hsame
      · rw [hnone] at ht
        exact absurd ht (by simp)
    obtain ⟨hnodes, hpath⟩ := hσ.seg_congr hsame fun b hb => (hcell t hsame b hb).1
    obtain ⟨hpos, -, hlen, htail⟩ := hσ.seg t p r n (hsame ▸ ht)
    rw [hnodes]
    exact ⟨hpos, hpath p r n ht, hlen, htail⟩
  · intro t b hb
    rw [hshape.nodes_eq]
    rcases hnodes t with hnil | ⟨hsame, heq⟩
    · rw [hnil] at hb
      exact absurd hb (List.not_mem_nil)
    · rw [heq] at hb
      exact (hcell t hsame b hb).2
  · intro t u htu b hb hb'
    rcases hnodes t with hnil | ⟨-, heq⟩
    · rw [hnil] at hb
      exact absurd hb (List.not_mem_nil)
    · rcases hnodes u with hnil' | ⟨-, heq'⟩
      · rw [hnil'] at hb'
        exact absurd hb' (List.not_mem_nil)
      · rw [heq] at hb
        rw [heq'] at hb'
        exact hσ.disj t u htu b hb hb'

/-- The cells of a segment in hand-over are mapped. -/
theorem Ok.mapped {σ : Shared T} (hσ : σ.Ok) {t b : ℕ} (hb : b ∈ σ.loadNodes t) :
    ∃ x, σ.heap.cell b = some x := by
  cases ht : σ.loading t with
  | none =>
      rw [loadNodes_of_none ht] at hb
      exact absurd hb (List.not_mem_nil)
  | some x =>
      obtain ⟨p, r, n⟩ := x
      exact (hσ.seg t p r n ht).2.1.mapped b hb

/-! ## What the actions do

One lemma for each action: that it can be done, that it keeps the invariant, and what it is to
the elements. -/

/-- `enqueue` succeeds on any free address and appends its element. -/
theorem Ok.perform_enqueue {σ : Shared T} (hσ : σ.Ok) (d : T) (t : ℕ) {a : ℕ}
    (ha : σ.heap.cell a = none) : ∃ σ', perform (.enqueue d) t a σ = some (σ', {})
      ∧ σ'.Ok ∧ σ'.loading = σ.loading ∧ σ'.content = σ.content ++ [d] := by
  obtain ⟨h', q', heq, hshape, hdata, hframe⟩ := Queue.enqueue_spec d hσ.queue ha
  refine ⟨{ σ with heap := h', m_queue := q' },
    by simp only [perform, heq, Option.bind_eq_bind, Option.bind_some], ?_, rfl, ?_⟩
  · refine hσ.update hshape (fun _ => .inl rfl) fun u _ b hb => ?_
    have hba : b ∉ σ.m_queue.nodes σ.heap ++ [a] := by
      rw [List.mem_append, List.mem_singleton]
      rintro (hmem | rfl)
      · exact hσ.off u b hb hmem
      · obtain ⟨x, hx⟩ := hσ.mapped hb
        rw [ha] at hx
        exact absurd hx (by simp)
    exact ⟨hframe b hba, hba⟩
  · rw [content, hshape.nodes_eq, hdata]
    rfl

/-- `dequeue` succeeds on a non-empty queue and takes the first element. -/
theorem Ok.perform_dequeue {σ : Shared T} (hσ : σ.Ok) (hne : σ.m_queue.getSize ≠ 0) (t a : ℕ) :
    ∃ σ' d, perform .dequeue t a σ = some (σ', { ptr := some d })
      ∧ σ'.Ok ∧ σ'.loading = σ.loading ∧ σ.content = d :: σ'.content := by
  have hne' : σ.m_queue.nodes σ.heap ≠ [] := by
    intro hnil
    have hsize := hσ.queue.size
    rw [hnil] at hsize
    exact hne hsize
  obtain ⟨b, as, has⟩ := List.exists_cons_of_ne_nil hne'
  obtain ⟨d, h', q', heq, hshape, hdata, hframe⟩ := Queue.dequeue_spec (has ▸ hσ.queue)
  refine ⟨{ σ with heap := h', m_queue := q' }, d,
    by simp only [perform, heq, Option.bind_eq_bind, Option.bind_some], ?_, rfl, ?_⟩
  · refine hσ.update hshape (fun _ => .inl rfl) fun u _ x hx => ?_
    have hxas := hσ.off u x hx
    rw [has, List.mem_cons, not_or] at hxas
    exact ⟨hframe x hxas.1, hxas.2⟩
  · rw [content, has, hdata, content, hshape.nodes_eq]

/-- A caller who follows a chain of nodes finds their data. -/
theorem handed_of_path {h : Heap T} {tail : Ptr} {as : List ℕ} : ∀ {n : ℕ} {last p : Ptr},
    Path qnode.next h p as none → as.length ≤ n → as.getLast?.or last = tail →
    handed h tail n last p = some (Queue.data h as) := by
  induction as with
  | nil =>
      rintro n last p rfl - htail
      cases n <;> exact if_pos htail
  | cons a as ih =>
      rintro n last p ⟨rfl, x, hx, hrest⟩ hlen htail
      cases n with
      | zero => exact absurd hlen (by simp)
      | succ n =>
          -- the last node of the rest, or `a` itself
          have htail' : as.getLast?.or (some a) = tail := by
            rw [← htail, List.getLast?_cons, Option.or_some]
            rfl
          rw [handed, hx, Option.bind_eq_bind, Option.bind_some, ih hrest (Nat.le_of_succ_le_succ hlen) htail',
            Option.bind_eq_bind, Option.bind_some, Queue.data, Queue.data, cells_cons as hx, List.map_cons]

/-- `dump` hands out everything, and counts it in 32 bits. -/
theorem Ok.perform_dump {σ : Shared T} (hσ : σ.Ok) (t a : ℕ) :
    ∃ σ', perform .dump t a σ = some (σ',
        { code := toInt32 σ.m_queue.getSize, head := σ.m_queue.m_head, tail := σ.m_queue.m_tail,
          elems := σ.content })
      ∧ σ'.Ok ∧ σ'.loading = σ.loading ∧ σ'.content = [] := by
  have helems : handed σ.heap σ.m_queue.m_tail σ.m_queue.getSize none σ.m_queue.m_head = some σ.content :=
    handed_of_path hσ.queue.path (Nat.le_of_eq hσ.queue.size.symm) (by rw [Option.or_none, hσ.queue.tail])
  refine ⟨{ σ with m_queue := .new }, ?_, ?_, rfl, rfl⟩
  · simp only [perform, Queue.dump, helems, Option.getD_some]
    rfl
  exact hσ.update (Queue.shape_new _) (fun _ => .inl rfl) fun u _ b _ => ⟨rfl, List.not_mem_nil⟩

/-- `load` succeeds on the segment its call was handed and appends its elements. -/
theorem Ok.perform_load {σ : Shared T} (hσ : σ.Ok) {t : ℕ} {p r : Ptr} {n : ℤ}
    (ht : σ.loading t = some (p, r, n)) (a : ℕ) :
    ∃ σ' l, perform (.load p r n) t a σ = some (σ', { code := 0, elems := l })
      ∧ σ'.Ok ∧ σ'.loading = Function.update σ.loading t none
      ∧ (l.length : ℤ) = n ∧ σ'.content = σ.content ++ l := by
  obtain ⟨hpos, hpath, hlen, htail⟩ := hσ.seg t p r n ht
  -- the segment is off every other load's nodes, so only this thread's entry is cleared and the
  -- other segments keep their cells
  obtain ⟨h', q', heq, hshape, hdata, hframe⟩ :=
    Queue.load_spec hσ.queue hpath hlen hpos (hσ.off t)
  rw [← htail] at heq
  refine ⟨⟨h', q', Function.update σ.loading t none⟩, Queue.data σ.heap (σ.loadNodes t),
    by simp only [perform, heq, Option.bind_eq_bind, Option.bind_some, loadNodes_of_some ht], ?_, rfl,
    ?_, ?_⟩
  · refine hσ.update hshape (fun u => ?_) fun u hu b hb => ?_
    · by_cases hut : u = t
      · exact .inr (by simp only [hut, Function.update_self])
      · exact .inl (by simp only [Function.update_of_ne hut])
    · have hut : u ≠ t := by
        rintro rfl
        simp [ht] at hu
      have hbq := hσ.off u b hb
      refine ⟨hframe b hbq, fun hmem => ?_⟩
      rcases List.mem_append.mp hmem with hmem | hmem
      · exact hbq hmem
      · exact hσ.disj u t hut b hb hmem
  · rw [Queue.data, List.length_map, hpath.length_cells, hlen]
  · rw [content, hshape.nodes_eq, hdata]
    rfl

/-- Being handed a segment keeps the invariant. -/
theorem Ok.enter {σ : Shared T} (hσ : σ.Ok) {t : ℕ} {p r : Ptr} {n : ℤ} (hh : Handover σ p r n) :
    Ok { σ with loading := Function.update σ.loading t (some (p, r, n)) } := by
  have hself : ∀ q : Shared T, q = { σ with loading := Function.update σ.loading t (some (p, r, n)) } →
      q.loadNodes t = segment σ.heap p n := by
    rintro q rfl
    exact loadNodes_of_some (r := r) (Function.update_self ..)
  -- the segment of call `t` is new, those of all others are as they were
  have hother : ∀ u, u ≠ t →
      Shared.loadNodes { σ with loading := Function.update σ.loading t (some (p, r, n)) } u
        = σ.loadNodes u := by
    intro u hut
    simp only [loadNodes, Function.update_of_ne hut]
  refine ⟨hσ.queue, ?_, ?_, ?_⟩
  · intro u p' r' n' hu
    by_cases hut : u = t
    · subst hut
      simp only [Function.update_self, Option.some.injEq, Prod.mk.injEq] at hu
      obtain ⟨rfl, rfl, rfl⟩ := hu
      rw [hself _ rfl]
      exact ⟨hh.count.1, hh.path, hh.length, hh.tail⟩
    · simp only [Function.update_of_ne hut] at hu
      rw [hother u hut]
      exact hσ.seg u p' r' n' hu
  · intro u b hb
    by_cases hut : u = t
    · subst hut
      rw [hself _ rfl] at hb
      exact hh.queue b hb
    · rw [hother u hut] at hb
      exact hσ.off u b hb
  · intro u v huv b hb hb'
    by_cases hut : u = t
    · subst hut
      rw [hself _ rfl] at hb
      rw [hother v (Ne.symm huv)] at hb'
      exact hh.loads v b hb hb'
    · rw [hother u hut] at hb
      by_cases hvt : v = t
      · subst hvt
        rw [hself _ rfl] at hb'
        exact hh.loads u b hb' hb
      · rw [hother v hvt] at hb'
        exact hσ.disj u v huv b hb hb'

/-- So does whatever the clients do. -/
theorem Ok.client {σ σ' : Shared T} (hσ : σ.Ok) (hc : Client σ σ') : σ'.Ok := by
  have hshape : Queue.Shape σ'.heap σ'.m_queue (σ.m_queue.nodes σ.heap) := by
    rw [hc.m_queue]
    exact hσ.queue.congr hc.queue
  refine hσ.update hshape (fun t => .inl (by rw [hc.loading])) ?_
  exact fun t _ b hb => ⟨hc.loads t b hb, hσ.off t b hb⟩

/-- The clients cannot change what is in the queue. -/
theorem Ok.content_client {σ σ' : Shared T} (hσ : σ.Ok) (hc : Client σ σ') :
    σ'.content = σ.content := by
  have hshape : Queue.Shape σ'.heap σ'.m_queue (σ.m_queue.nodes σ.heap) := by
    rw [hc.m_queue]
    exact hσ.queue.congr hc.queue
  rw [content, hshape.nodes_eq, Queue.data_congr hc.queue]
  rfl

/-- What the effect of a call is on the elements in the queue. -/
inductive Acted (σ σ' : Shared T) : Call T → Ret T → Prop
  | enqueue {d p} (hc : σ'.content = σ.content ++ [d]) : Acted σ σ' (.enqueue d p) {}
  | dequeue {p b d} (hc : σ.content = d :: σ'.content) : Acted σ σ' (.dequeue p b) { ptr := some d }
  | dump {p b} (hne : σ.content ≠ []) (hc : σ'.content = []) :
      Acted σ σ' (.dump p b)
        { code := toInt32 σ.content.length, head := σ.m_queue.m_head, tail := σ.m_queue.m_tail,
          elems := σ.content }
  | load {p r n l} (hpos : 0 < n) (hlen : (l.length : ℤ) = n) (hc : σ'.content = σ.content ++ l) :
      Acted σ σ' (.load p r n) { elems := l }

/-- A call that acts with an element in sight, or with its segment in hand,
keeps the invariant and has its effect. -/
theorem Ok.perform {σ σ' : Shared T} (hσ : σ.Ok) {c : Call T} {t a : ℕ} {v : Ret T}
    (hsight : c.consumes ≠ none → σ.m_queue.getSize ≠ 0)
    (hhand : ∀ p r n, c = .load p r n → σ.loading t = some (p, r, n))
    (hp : ConcurBlockingQueue.perform c.action t a σ = some (σ', v)) :
    σ'.Ok ∧ (∀ u, u ≠ t → σ'.loading u = σ.loading u) ∧ Acted σ σ' c v := by
  -- by the calls, each by the lemma of its action
  cases c with
  | enqueue d prio =>
      cases ha : σ.heap.cell a with
      | some x =>
          simp only [Call.action, ConcurBlockingQueue.perform, Queue.enqueue, ha,
            Option.bind_eq_bind, Option.bind_none] at hp
          exact absurd hp (by simp)
      | none =>
          obtain ⟨σ₁, heq, hok, hload, hc⟩ := hσ.perform_enqueue d t ha
          cases heq.symm.trans hp
          exact ⟨hok, fun u _ => by rw [hload], .enqueue hc⟩
  | dequeue prio b =>
      obtain ⟨σ₁, d, heq, hok, hload, hc⟩ := hσ.perform_dequeue (hsight (by simp [Call.consumes])) t a
      cases heq.symm.trans hp
      exact ⟨hok, fun u _ => by rw [hload], .dequeue hc⟩
  | dump prio b =>
      have hsize := hsight (by simp [Call.consumes])
      obtain ⟨σ₁, heq, hok, hload, hc⟩ := hσ.perform_dump t a
      cases heq.symm.trans hp
      rw [← hσ.length_content] at hsize ⊢
      exact ⟨hok, fun u _ => by rw [hload], .dump (fun hnil => hsize (by rw [hnil]; rfl)) hc⟩
  | load p r n =>
      obtain ⟨σ₁, l, heq, hok, hload, hlen, hc⟩ := hσ.perform_load (hhand p r n rfl) a
      cases heq.symm.trans hp
      have hpos := (hσ.seg t p r n (hhand p r n rfl)).1
      exact ⟨hok, fun u hu => by rw [hload, Function.update_of_ne hu], .load hpos hlen hc⟩

/-- Such a call can act. -/
theorem Ok.exists_perform {σ : Shared T} (hσ : σ.Ok) {c : Call T} {t : ℕ}
    (hsight : c.consumes ≠ none → σ.m_queue.getSize ≠ 0)
    (hhand : ∀ p r n, c = .load p r n → σ.loading t = some (p, r, n)) :
    ∃ a σ' v, ConcurBlockingQueue.perform c.action t a σ = some (σ', v) := by
  cases c with
  | enqueue d prio =>
      obtain ⟨a, ha⟩ := σ.heap.exists_fresh
      obtain ⟨σ', heq, -⟩ := hσ.perform_enqueue d t ha
      exact ⟨a, σ', _, heq⟩
  | dequeue prio b =>
      obtain ⟨σ', d, heq, -⟩ := hσ.perform_dequeue (hsight (by simp [Call.consumes])) t 0
      exact ⟨0, σ', _, heq⟩
  | dump prio b =>
      obtain ⟨σ', heq, -⟩ := hσ.perform_dump t 0
      exact ⟨0, σ', _, heq⟩
  | load p r n =>
      obtain ⟨σ', l, heq, -⟩ := hσ.perform_load (hhand p r n rfl) 0
      exact ⟨0, σ', _, heq⟩

end Shared

/-! ## Effects

The record of accesses, cut down to the one access of each call at which it
takes effect: its action, or, when it does not block, the test that found the
queue empty. -/

/-- The effect of a call and what it returns. -/
structure Effect (T : Type) where
  thread : ℕ
  call : Call T
  ret : Ret T

/-- The effect that an access is, if it is one. -/
def effect? (e : Entry SizeTest (QueueCall T) (Ret T) (Call T)) : Option (Effect T) :=
  match e.access with
  | .act _ v => some ⟨e.thread, e.call, v⟩
  | .test _ true => if e.call.consumes = some .NONBLOCK then some ⟨e.thread, e.call, {}⟩ else none
  | .test _ false => none

/-- The effects so far, in the order in which they happened. -/
def effects (s : Config T) : List (Effect T) := s.log.filterMap effect?

/-- The effects of one call. -/
def effectsOf (s : Config T) (t : ℕ) : List (Effect T) := (effects s).filter (·.thread = t)

/-- One more line in the record is one effect or none. -/
theorem effects_record (s : Config T) (t : ℕ) (c : Call T) (x) :
    effects (s.record t c x) = effects s ++ (effect? ⟨t, c, x⟩).toList := by
  rw [effects, State.record_log, List.filterMap_append]
  cases h : effect? ⟨t, c, x⟩ with
  | none => simp [h, effects]
  | some e => simp [h, effects]

/-- What the phase of a running call says about the rest of the configuration. -/
def Reached (s : Config T) (t : ℕ) (c : Call T) (o : Option (Ret T)) : Phase → Prop
  | .entering => effectsOf s t = []
      ∧ ∀ p r n, c = .load p r n → 0 < n → s.shared.loading t = some (p, r, n)
  | .ready => effectsOf s t = [] ∧ s.shared.m_queue.getSize ≠ 0
  | .acted => ∃ v, o = some v ∧ effectsOf s t = [⟨t, c, v⟩] ∧ ((∃ d p, c = .enqueue d p) → v = {})
  | .empty => effectsOf s t = [⟨t, c, {}⟩]

/-- How far a call has come, and the trace it has left. -/
def Progress (s : Config T) (t : ℕ) : Prop :=
  match s.threads t with
  | .unborn => effectsOf s t = []
  | .running c r o _ => ∃ ph, Flow c ph r ∧ Reached s t c o ph
  | .done c v => (∃ v', v = some v' ∧ effectsOf s t = [⟨t, c, v'⟩])
      ∨ (∃ p r n, c = .load p r n ∧ n ≤ 0) ∧ v = some { code := -1 } ∧ effectsOf s t = []

/-! ## The invariant

One induction for all parts, since the ownership is needed for the effects, and the effects
for what a call has returned. -/

section

variable {ok : Config T → Label (Call T) → Prop} {h : Heap T} {s s' : Config T} {l : Label (Call T)}

/-- Whoever is about to touch the queue owns `m_data`. -/
theorem owner_of_act (hs : Run ok h s) {t : ℕ} {c : Call T} {a k o}
    (ht : s.threads t = .running c (.act a k) o .awake) : s.owner .m_data = some t := by
  have hok := hs.threadOk locked_code t
  rw [ht] at hok
  exact hok.1.1

/-- So does whoever tests it, notifies or waits. -/
theorem owner_of_branch (hs : Run ok h s) {t : ℕ} {c : Call T} {p x y o}
    (ht : s.threads t = .running c (.branch p x y) o .awake) : s.owner .m_data = some t := by
  have hok := hs.threadOk locked_code t
  rw [ht] at hok
  exact hok.1.1

theorem owner_of_notify (hs : Run ok h s) {t : ℕ} {c : Call T} {k o}
    (ht : s.threads t = .running c (.notify k) o .awake) : s.owner .m_data = some t := by
  have hok := hs.threadOk locked_code t
  rw [ht] at hok
  exact hok.1.1

theorem owner_of_waitWhile (hs : Run ok h s) {t : ℕ} {c : Call T} {p m k o}
    (ht : s.threads t = .running c (.waitWhile p m k) o .awake) : s.owner .m_data = some t := by
  have hok := hs.threadOk locked_code t
  rw [ht] at hok
  obtain ⟨⟨rfl, -⟩, hmem, -⟩ := hok
  exact hmem

/-- A call that waits, waits for `m_data`. -/
theorem waits_for_m_data (hs : Run ok h s) {t : ℕ} {c : Call T} {r o st}
    (ht : s.threads t = .running c r o st) (hst : st ≠ .awake) :
    ∃ p k, r = .waitWhile p .m_data k ∧ s.owner .m_data ≠ some t
      ∧ s.owner .m_next_to_access ≠ some t ∧ (s.owner .m_low_prio_access = some t ↔ c.prio = .LOW) := by
  have hok := hs.threadOk locked_code t
  rw [ht] at hok
  cases st with
  | awake => exact absurd rfl hst
  | parked | woken =>
      obtain ⟨p, m, k, rfl, hm, ⟨rfl, hnext, hlow⟩, -⟩ := hok
      simp only [Set.mem_insert_iff, reduceCtorEq, false_or] at hnext hlow
      exact ⟨p, k, rfl, hm, hnext, hlow⟩

/-- The mutexes that a call may still take come after those it has. -/
theorem locks_later (hs : Run ok h s) {t : ℕ} {c : Call T} {r o st} {m m' : Mutex}
    (ht : s.threads t = .running c r o st) (hm : s.owner m = some t) (hm' : Locks m' r) :
    m.rank < m'.rank := by
  have hok : ThreadOk (fun _ => ordered) (s.held t) (s.threads t) := hs.threadOk ordered_code t
  rw [ht] at hok
  have hret : ∀ v, r ≠ .ret v := by
    rintro v rfl
    exact hm'
  cases st with
  | awake => exact Locked.rule hok hret m hm m' hm'
  | parked | woken =>
      obtain ⟨p, m₁, k, rfl, -, hlock⟩ := hok
      exact hlock.rule hret m (Set.mem_insert_of_mem _ hm) m' hm'

/-- A call that has returned owns no mutex. -/
theorem released (hs : Run ok h s) {t : ℕ} {c : Call T} {v} (ht : s.threads t = .done c v) (m : Mutex) :
    s.owner m ≠ some t := by
  have hok := hs.threadOk locked_code t
  rw [ht] at hok
  have hheld : s.held t = ∅ := hok
  intro hm
  rw [← State.mem_held, hheld] at hm
  exact hm

/-- A call that is ready has nothing between it and its action. -/
theorem ready_act (hs : Run ok h s) {t : ℕ} {c : Call T} {r o st}
    (ht : s.threads t = .running c r o st) (hf : Flow c .ready r) :
    ∃ k, r = .act c.action k ∧ st = .awake ∧ c.consumes ≠ none ∧ Flow c .acted k := by
  cases r with
  | act a k =>
      obtain ⟨hc, rfl, hk⟩ := hf
      refine ⟨k, rfl, ?_, hc, hk⟩
      by_contra hst
      obtain ⟨p, k', hr, -⟩ := waits_for_m_data hs ht hst
      cases hr
  | ret | lock | unlock | branch | waitWhile | notify => exact hf.elim

/-- An effect is one of the call that made the access. -/
theorem thread_of_effect? {e : Entry SizeTest (QueueCall T) (Ret T) (Call T)} {x : Effect T}
    (hx : effect? e = some x) : x.thread = e.thread := by
  unfold effect? at hx
  split at hx
  · cases hx
    rfl
  · split at hx
    · cases hx
      rfl
    · cases hx
  · cases hx

/-- What one more line in the record adds to the effects of a call. -/
theorem effectsOf_record (s : Config T) (t u : ℕ) (c : Call T) (x) :
    effectsOf (s.record t c x) u = effectsOf s u ++ if t = u then (effect? ⟨t, c, x⟩).toList else [] := by
  rw [effectsOf, effects_record, List.filter_append]
  congr 1
  cases hx : effect? ⟨t, c, x⟩ with
  | none => simp
  | some e =>
      have hthread : e.thread = t := thread_of_effect? hx
      by_cases htu : t = u
      · simp [htu, hthread]
      · simp [htu, hthread]

@[simp] theorem effectsOf_setThread (s : Config T) (t u : ℕ) (x) :
    effectsOf (s.setThread t x) u = effectsOf s u := rfl

@[simp] theorem effectsOf_setOwner (s : Config T) (m : Mutex) (x) (u : ℕ) :
    effectsOf (s.setOwner m x) u = effectsOf s u := rfl

/-- A step only adds effects of the call that takes it. -/
theorem effectsOf_other (hstep : Step sem s l s') {u : ℕ} (hu : l.actor ≠ some u) :
    effectsOf s' u = effectsOf s u := by
  rcases hstep.log with hlog | ⟨t, c, x, ht, hlog⟩
  · rw [effectsOf, effectsOf, effects, effects, hlog]
  · have htu : t ≠ u := fun htu => hu (htu ▸ ht)
    have hsame : effectsOf s' u = effectsOf (s.record t c x) u := by
      rw [effectsOf, effectsOf, effects, effects, hlog, State.record_log]
    rw [hsame, effectsOf_record, if_neg htu, List.append_nil]

/-- The invariant of every run. -/
structure Inv (s : Config T) : Prop where
  shared : s.shared.Ok
  progress : ∀ t, Progress s t

/-- It holds at the start. -/
theorem Inv.init (h : Heap T) : Inv (.init (.new h) : Config T) where
  shared := Shared.ok_new h
  progress _ := rfl

/-- What is known of a call that is about to act. -/
theorem Inv.before_act (hi : Inv s) {t : ℕ} {c : Call T} {a k o st}
    (ht : s.threads t = .running c (.act a k) o st) :
    a = c.action ∧ Flow c .acted k ∧ effectsOf s t = []
      ∧ (c.consumes ≠ none → s.shared.m_queue.getSize ≠ 0)
      ∧ ∀ p r n, c = .load p r n → s.shared.loading t = some (p, r, n) := by
  have hp := hi.progress t
  rw [Progress, ht] at hp
  obtain ⟨ph, hf, hr⟩ := hp
  cases ph with
  | entering =>
      obtain ⟨hc, hpos, ha, hk⟩ := hf
      exact ⟨ha, hk, hr.1, fun hne => absurd hc hne, fun p r n hl => hr.2 p r n hl (hpos p r n hl)⟩
  | ready =>
      obtain ⟨hc, ha, hk⟩ := hf
      refine ⟨ha, hk, hr.1, fun _ => hr.2, ?_⟩
      rintro p r n rfl
      exact absurd rfl hc
  | acted | empty => exact hf.elim

/-- A call that is about to act can: it has an element in sight or its segment
in hand. -/
theorem Inv.act_enabled (hi : Inv s) {t : ℕ} {c : Call T} {a k o}
    (ht : s.threads t = .running c (.act a k) o .awake) :
    ∃ d σ' v, perform a t d s.shared = some (σ', v) := by
  obtain ⟨rfl, -, -, hsight, hhand⟩ := hi.before_act ht
  exact hi.shared.exists_perform hsight hhand

/-- What an action does, in a run. -/
theorem Inv.acted (hi : Inv s) {t d : ℕ} {c : Call T} {a k o st σ' v}
    (ht : s.threads t = .running c (.act a k) o st)
    (ha : perform a t d s.shared = some (σ', v)) :
    σ'.Ok ∧ (∀ u, u ≠ t → σ'.loading u = s.shared.loading u) ∧ Shared.Acted s.shared σ' c v := by
  obtain ⟨rfl, -, -, hsight, hhand⟩ := hi.before_act ht
  exact hi.shared.perform hsight hhand ha

/-- What a step does to the queue and the segments in hand-over, apart from
those of a call that it makes or that takes it. -/
theorem Inv.shared_step (hi : Inv s) (hstep : Step sem s l s') :
    s'.shared.Ok ∧ ∀ u, l.actor ≠ some u → (∀ c, l = .call c → u ≠ s.born) →
      s'.shared.loading u = s.shared.loading u := by
  -- the shared state changes in a new call (a load brings its segment), in an act of a thread, and
  -- by the caller's own code
  rcases hstep.shared with hsame | ⟨c, rfl, henter⟩ | ⟨t, d, c, a, k, o, v, rfl, ht, ha⟩ | hclient
  · rw [hsame]
    exact ⟨hi.shared, fun _ _ _ => rfl⟩
  · have hsame : s'.shared = s.shared → s'.shared.Ok ∧ ∀ u, Label.actor (.call c) ≠ some u →
        (∀ c', Label.call c = .call c' → u ≠ s.born) → s'.shared.loading u = s.shared.loading u := by
      intro hsame
      rw [hsame]
      exact ⟨hi.shared, fun _ _ _ => rfl⟩
    cases c with
    | enqueue | dequeue | dump => exact hsame henter
    | load p r n =>
        by_cases hn : n ≤ 0
        · exact hsame (by simpa [sem, enter, hn] using henter)
        · simp only [sem, enter, if_neg hn] at henter
          obtain ⟨hh, heq⟩ := henter
          rw [heq]
          exact ⟨hi.shared.enter hh, fun u _ hu => Function.update_of_ne (hu _ rfl) ..⟩
  · obtain ⟨hok, hload, -⟩ := hi.acted ht ha
    exact ⟨hok, fun u hu _ => hload u fun hut => hu (hut ▸ rfl)⟩
  · exact ⟨hi.shared.client hclient, fun u _ _ => by rw [hclient.loading]⟩

/-- Only the call that is about to act changes the size of the queue. -/
theorem size_step (hstep : Step sem s l s') :
    s'.shared.m_queue = s.shared.m_queue
      ∨ ∃ t d c a k o, l = .act t d ∧ s.threads t = .running c (.act a k) o .awake := by
  rcases hstep.shared with hsame | ⟨c, rfl, henter⟩ | ⟨t, d, c, a, k, o, v, rfl, ht, ha⟩ | hclient
  · exact .inl (by rw [hsame])
  · have hsame : s'.shared = s.shared → s'.shared.m_queue = s.shared.m_queue := fun hsame => by rw [hsame]
    refine .inl ?_
    cases c with
    | enqueue | dequeue | dump => exact hsame henter
    | load p r n =>
        by_cases hn : n ≤ 0
        · exact hsame (by simpa [sem, enter, hn] using henter)
        · simp only [sem, enter, if_neg hn] at henter
          rw [henter.2]
  · exact .inr ⟨t, d, c, a, k, o, rfl, ht⟩
  · exact .inl hclient.m_queue

/-- A call that does not take the step stays as far as it was. -/
theorem Inv.progress_other (hs : Run ok h s) (hi : Inv s) (hstep : Step sem s l s') {u : ℕ}
    (hu : l.actor ≠ some u) : Progress s' u := by
  have heff := effectsOf_other hstep hu
  obtain ⟨-, hload⟩ := hi.shared_step hstep
  -- a call in progress keeps its phase
  have hkeep : ∀ {c r o st st'}, s.threads u = .running c r o st → s'.threads u = .running c r o st' →
      Progress s' u := by
    intro c r o st st' hold hnew
    have hp := hi.progress u
    rw [Progress, hold] at hp
    obtain ⟨ph, hf, hr⟩ := hp
    have hborn : u ≠ s.born := by
      intro hborn
      rw [(hs.unborn_iff u).mpr (Nat.le_of_eq hborn.symm)] at hold
      cases hold
    rw [Progress, hnew]
    refine ⟨ph, hf, ?_⟩
    cases ph with
    | entering =>
        refine ⟨heff.trans hr.1, ?_⟩
        rw [hload u hu fun _ _ => hborn]
        exact hr.2
    | ready =>
        refine ⟨heff.trans hr.1, ?_⟩
        obtain ⟨k', rfl, rfl, -⟩ := ready_act hs hold hf
        rcases size_step hstep with hsame | ⟨t, d, c', a, k, o', rfl, ht⟩
        · rw [hsame]
          exact hr.2
        · -- both calls would own `m_data`
          have hown := owner_of_act hs ht
          rw [owner_of_act hs hold] at hown
          exact absurd hown.symm hu
    | acted =>
        obtain ⟨v, hv, he, hret⟩ := hr
        exact ⟨v, hv, heff.trans he, hret⟩
    | empty => exact heff.trans hr
  obtain ⟨-, hsame | ⟨c, r, o, hpark, hwoken⟩ | ⟨c, rfl, rfl, hnew⟩⟩ := hstep.other hu
  · cases hth : s.threads u with
    | running c r o st => exact hkeep hth (hsame.trans hth)
    | unborn | done =>
        have hp := hi.progress u
        rw [Progress, hth] at hp
        rw [Progress, hsame, hth, heff]
        exact hp
  · exact hkeep hpark hwoken
  · have hunborn := (hs.unborn_iff s.born).mpr (Nat.le_refl _)
    have hp := hi.progress s.born
    rw [Progress, hunborn] at hp
    rw [Progress, hnew]
    refine ⟨.entering, flow_code c, heff.trans hp, ?_⟩
    rintro p r n rfl hn
    cases hstep with
    | call henter =>
        simp only [sem, enter, if_neg (by omega : ¬ n ≤ 0)] at henter
        rw [henter.2]
        exact Function.update_self ..

/-- A test that finds an element finds one in the whole size. -/
theorem size_ne_zero_of_test {p : SizeTest} {σ : Shared T} (hp : test p σ = false) :
    σ.m_queue.getSize ≠ 0 := by
  intro h0
  cases p with
  | getSize => simp [test, h0] at hp
  | narrowed => simp [test, h0, toInt32] at hp

/-- The call that takes the step goes from phase to phase, one case for each
kind of instruction. -/
theorem Inv.progress_own (hi : Inv s) (hstep : Step sem s l s') {t : ℕ}
    (hact : l.actor = some t) : Progress s' t := by
  have hp := hi.progress t
  -- by the kinds of steps, and for each by the phase in which the call was
  cases hstep with
  | call | client => cases hact
  | lock ht hm =>
      cases hact
      rw [Progress, ht] at hp
      obtain ⟨ph, hf, hr⟩ := hp
      rw [Progress, State.setOwner_threads, State.setThread_self]
      cases ph with
      | entering => exact ⟨.entering, hf, hr⟩
      | ready | acted | empty => exact hf.elim
  | unlock ht hm =>
      cases hact
      rw [Progress, ht] at hp
      obtain ⟨ph, hf, hr⟩ := hp
      rw [Progress, State.setOwner_threads, State.setThread_self]
      cases ph with
      | entering => exact ⟨.entering, hf, hr⟩
      | acted => exact ⟨.acted, hf, hr⟩
      | empty => exact ⟨.empty, hf, hr⟩
      | ready => exact hf.elim
  | @branch t c p x y o ht =>
      cases hact
      rw [Progress, ht] at hp
      obtain ⟨ph, hf, hr⟩ := hp
      cases ph with
      | ready | acted | empty => exact hf.elim
      | entering =>
          obtain ⟨hx, hy⟩ := hf
          rw [Progress, State.record_threads, State.setThread_self]
          cases htest : sem.test p s.shared with
          | false => exact ⟨.ready, hy, by simpa [effectsOf_record, effect?] using hr.1,
              size_ne_zero_of_test htest⟩
          | true =>
              rcases hx with ⟨hc, hx⟩ | ⟨hc, hx⟩
              · exact ⟨.entering, hx, by simpa [effectsOf_record, effect?, hc] using hr.1, hr.2⟩
              · refine ⟨.empty, hx, ?_⟩
                simp only [Reached, effectsOf_record, effect?, hc, if_true]
                rw [effectsOf_setThread, hr.1]
                rfl
  | pass ht htest =>
      cases hact
      rw [Progress, ht] at hp
      obtain ⟨ph, hf, hr⟩ := hp
      cases ph with
      | ready | acted | empty => exact hf.elim
      | entering =>
          rw [Progress, State.record_threads, State.setThread_self]
          exact ⟨.ready, hf.2.2, by simpa [effectsOf_record, effect?] using hr.1,
            size_ne_zero_of_test htest⟩
  | park ht htest hm =>
      cases hact
      rw [Progress, ht] at hp
      obtain ⟨ph, hf, hr⟩ := hp
      cases ph with
      | ready | acted | empty => exact hf.elim
      | entering =>
          rw [Progress, State.record_threads, State.setOwner_threads, State.setThread_self]
          refine ⟨.entering, hf, ?_, hr.2⟩
          simpa [effectsOf_record, effect?, hf.1] using hr.1
  | wake ht =>
      cases hact
      rw [Progress, ht] at hp
      rw [Progress, State.setThread_self]
      exact hp
  | regain ht hm =>
      cases hact
      rw [Progress, ht] at hp
      rw [Progress, State.setOwner_threads, State.setThread_self]
      exact hp
  | @act t c a k o d σ' v ht ha =>
      cases hact
      obtain ⟨-, hk, hnone, -⟩ := hi.before_act ht
      obtain ⟨-, -, hacted⟩ := hi.acted ht ha
      have hth : ({ s.setThread t (.running c k (some v) .awake) with shared := σ' }.record t c
          (.act a v)).threads t = .running c k (some v) .awake := s.setThread_self ..
      have heff : effectsOf ({ s.setThread t (.running c k (some v) .awake) with shared := σ' }.record
          t c (.act a v)) t = effectsOf s t ++ [⟨t, c, v⟩] := by
        rw [effectsOf_record, if_pos rfl]
        rfl
      rw [Progress, hth]
      refine ⟨.acted, hk, v, rfl, by rw [heff, hnone]; rfl, ?_⟩
      rintro ⟨e, p, rfl⟩
      cases hacted
      rfl
  | notifyOne ht hu =>
      cases hact
      rw [Progress, ht] at hp
      obtain ⟨ph, hf, hr⟩ := hp
      rw [Progress, State.setThread_of_ne _ _ (State.ne_of_parked ht hu), State.setThread_self]
      cases ph with
      | acted => exact ⟨.acted, hf, hr⟩
      | entering | ready | empty => exact hf.elim
  | notifyNone ht hnone =>
      cases hact
      rw [Progress, ht] at hp
      obtain ⟨ph, hf, hr⟩ := hp
      rw [Progress, State.setThread_self]
      cases ph with
      | acted => exact ⟨.acted, hf, hr⟩
      | entering | ready | empty => exact hf.elim
  | release ht hm =>
      cases hact
      rw [Progress, ht] at hp
      rw [Progress, State.setOwner_threads, ht]
      exact hp
  | ret ht hfree =>
      cases hact
      rw [Progress, ht] at hp
      obtain ⟨ph, hf, hr⟩ := hp
      rw [Progress, State.setThread_self]
      cases ph with
      | ready => exact hf.elim
      | entering =>
          obtain ⟨hload, rfl⟩ := hf
          exact .inr ⟨hload, rfl, hr.1⟩
      | acted =>
          obtain ⟨v, rfl, heff, hret⟩ := hr
          rcases hf with rfl | ⟨henq, rfl⟩
          · exact .inl ⟨v, rfl, heff⟩
          · exact .inl ⟨{}, rfl, hret henq ▸ heff⟩
      | empty =>
          obtain rfl : _ = some ({} : Ret T) := hf
          exact .inl ⟨{}, rfl, hr⟩

/-- One step keeps the invariant ... -/
theorem Inv.step (hs : Run ok h s) (hi : Inv s) (hstep : Step sem s l s') : Inv s' where
  shared := (hi.shared_step hstep).1
  progress t := by
    by_cases hact : l.actor = some t
    · exact hi.progress_own hstep hact
    · exact hi.progress_other hs hstep hact

/-- ... so every reachable configuration has it. -/
theorem Inv.reach (hs : Run ok h s) : Inv s := by
  induction hs with
  | init => exact .init h
  | step hs _ hstep ih => exact ih.step hs hstep

end

end JudoEngine.ConcurBlockingQueue
