/-
Several queues on one heap, with segments in hand-over between them.

`dump` takes all nodes of a queue and gives its caller their head, their tail and
their number; `load` puts such a segment behind the nodes of a queue. While a segment
is with a caller no queue points at it, so it is an owner of nodes of its own, next to
the queues. `Apart` says that every owner's nodes are linked as its fields say and
that no node has two owners; each call changes the nodes of one owner or moves them
from one owner to another.

The count that `dump` returns is a `size_t` narrowed to 32 bits. `Fits` is the
condition that this loses nothing.
-/
import JudoEngine.Queue
import Mathlib.Data.List.Basic

set_option autoImplicit false

open Linked Words

namespace JudoEngine

/-! ## The queues and the segments

The calls of any number of queues, and segments that are on their way from a dump to a load.
The callers' duties are hypotheses on the calls. -/

/-- What a call of `dump` has stored through its two arguments, and returned. -/
structure Dumped where
  head : Ptr
  tail : Ptr
  terms : ℤ

/-- Queues with one heap. The segment of the `k`-th dump is at `k` until a `load` is
given it. -/
structure Queues (T : Type) where
  heap : Heap T
  queue : ℕ → Queue
  dumps : ℕ
  segment : ℕ → Option Dumped

namespace Queues

variable {T : Type}

/-- What can own nodes. -/
inductive Owner where
  | queue (q : ℕ)
  | segment (k : ℕ)
  deriving DecidableEq

/-- A call. `new_node` is the address that `new` returns; `k` is the dump whose
segment `load` is given. -/
inductive Call (T : Type) where
  | enqueue (q new_node : ℕ) (t_data : T)
  | dequeue (q : ℕ)
  | dump (q : ℕ)
  | load (q k : ℕ)

/-- Empty queues. -/
def init (h : Heap T) : Queues T := ⟨h, fun _ => Queue.new, 0, fun _ => none⟩

/-- The fields of an owner: a segment has a head, a tail and a size as a queue has. -/
def chain (s : Queues T) : Owner → Queue
  | .queue q => s.queue q
  | .segment k =>
      match s.segment k with
      | some g => ⟨g.terms.toNat, g.head, g.tail⟩
      | none => Queue.new

/-- The nodes of an owner. -/
def nodes (s : Queues T) (o : Owner) : List ℕ := Queue.nodes s.heap (s.chain o)

/-- A call, and the data it returns, where it returns some. `none` is undefined
behaviour. -/
def perform (s : Queues T) : Call T → Option (Option T × Queues T)
  | .enqueue q new_node t_data => do
      let (h, q') ← Queue.enqueue new_node t_data s.heap (s.queue q)
      some (none, { s with heap := h, queue := Function.update s.queue q q' })
  | .dequeue q => do
      let (d, h, q') ← Queue.dequeue s.heap (s.queue q)
      some (some d, { s with heap := h, queue := Function.update s.queue q q' })
  | .dump q =>
      let (head, tail, terms, q') := Queue.dump (s.queue q)
      some (none, { s with
        queue := Function.update s.queue q q'
        dumps := s.dumps + 1
        segment := Function.update s.segment s.dumps (some ⟨head, tail, terms⟩) })
  | .load q k => do
      let g ← s.segment k
      let (_, h, q') ← Queue.load g.head g.tail g.terms s.heap (s.queue q)
      some (none, { s with
        heap := h
        queue := Function.update s.queue q q'
        segment := Function.update s.segment k none })

/-- What the callers see to: `dequeue` is for a queue with something in it, `load` gets
a segment that a dump has returned and no load has been given yet; and `new` returns
memory that is not in use. -/
def Legal (s : Queues T) : Call T → Prop
  | .enqueue _ new_node _ => s.heap.cell new_node = none
  | .dequeue q => (s.queue q).getSize ≠ 0
  | .dump _ => True
  | .load _ k => s.segment k ≠ none

/-- The number of nodes that `dump` takes fits the `int32_t` that it returns. -/
def Fits (s : Queues T) (c : Call T) : Prop :=
  s.Legal c ∧ ∀ q, c = .dump q → (s.queue q).getSize < 2 ^ 31

/-- The calls made so far with the data they returned, and the state after them. -/
inductive Ran (C : Queues T → Call T → Prop) (h : Heap T) : List (Call T × Option T) → Queues T → Prop where
  | nil : Ran C h [] (init h)
  | snoc {log : List (Call T × Option T)} {s s' : Queues T} {c : Call T} {r : Option T}
      (hran : Ran C h log s) (hc : C s c) (hstep : s.perform c = some (r, s')) : Ran C h (log ++ [(c, r)]) s'

/-! ## The lists that they store

The same calls on lists, without nodes, pointers or counts. -/

/-- What the queues and the segments store. -/
structure Lists (T : Type) where
  content : Owner → List T
  dumps : ℕ

namespace Lists

/-- Nothing. -/
def init : Lists T := ⟨fun _ => [], 0⟩

/-- Append, pop-front, take-all and append-segment. -/
def apply (l : Lists T) : Call T → Option (Option T × Lists T)
  | .enqueue q _ d => some (none, { l with content := Function.update l.content (.queue q) (l.content (.queue q) ++ [d]) })
  | .dequeue q =>
      match l.content (.queue q) with
      | [] => none
      | d :: rest => some (some d, { l with content := Function.update l.content (.queue q) rest })
  | .dump q => some (none,
      { content := Function.update (Function.update l.content (.queue q) []) (.segment l.dumps) (l.content (.queue q))
        dumps := l.dumps + 1 })
  | .load q k => some (none, { l with
      content := Function.update (Function.update l.content (.segment k) []) (.queue q)
        (l.content (.queue q) ++ l.content (.segment k)) })

/-- What is stored after these calls, if they return this data. -/
inductive Replay : List (Call T × Option T) → Lists T → Prop where
  | nil : Replay [] init
  | snoc {log : List (Call T × Option T)} {l l' : Lists T} {c : Call T} {r : Option T} (hlog : Replay log l)
      (happly : l.apply c = some (r, l')) : Replay (log ++ [(c, r)]) l'

end Lists

/-- The lists that the queues and the segments store. -/
def lists (s : Queues T) : Lists T := ⟨fun o => Queue.data s.heap (s.nodes o), s.dumps⟩

/-! ## Who owns which node

The heap is cut up among the owners, so a call has to be followed for the nodes of one or two
of them only. -/

/-- The owners' nodes are linked as their fields say, and no node has two owners. -/
structure Apart {ι : Type} (h : Heap T) (chain : ι → Queue) (as : ι → List ℕ) : Prop where
  shape : ∀ o, Queue.Shape h (chain o) (as o)
  apart : ∀ o o', o ≠ o' → ∀ b ∈ as o, b ∉ as o'

section Apart

variable {ι : Type} [DecidableEq ι] {h h' : Heap T} {chain : ι → Queue} {as : ι → List ℕ}

/-- **Changing one owner.** It gets other fields and other nodes; the cells of the
other owners stay, and none of them is among the new nodes. -/
theorem Apart.update (ha : Apart h chain as) {o : ι} {q' : Queue} {bs : List ℕ} (hshape : Queue.Shape h' q' bs)
    (hframe : ∀ o', o' ≠ o → ∀ b ∈ as o', h'.cell b = h.cell b) (hnew : ∀ o', o' ≠ o → ∀ b ∈ bs, b ∉ as o') :
    Apart h' (Function.update chain o q') (Function.update as o bs) := by
  constructor
  · intro o'
    by_cases ho : o' = o
    · subst ho
      rw [Function.update_self, Function.update_self]
      exact hshape
    · rw [Function.update_of_ne ho, Function.update_of_ne ho]
      exact (ha.shape o').congr (hframe o' ho)
  · intro o₁ o₂ hne b hb
    -- only o has new nodes, and these are in no other list
    by_cases h₁ : o₁ = o
    · subst h₁
      rw [Function.update_self] at hb
      rw [Function.update_of_ne (Ne.symm hne)]
      exact hnew o₂ (Ne.symm hne) b hb
    · rw [Function.update_of_ne h₁] at hb
      by_cases h₂ : o₂ = o
      · subst h₂
        rw [Function.update_self]
        exact fun hb' => hnew o₁ h₁ b hb' hb
      · rw [Function.update_of_ne h₂]
        exact ha.apart o₁ o₂ hne b hb

/-- What is stored then. -/
theorem data_update {o : ι} (bs : List ℕ) (hframe : ∀ o', o' ≠ o → ∀ b ∈ as o', h'.cell b = h.cell b) :
    (fun o' => Queue.data h' (Function.update as o bs o'))
      = Function.update (fun o' => Queue.data h (as o')) o (Queue.data h' bs) := by
  funext o'
  by_cases ho : o' = o
  · subst ho
    rw [Function.update_self, Function.update_self]
  · rw [Function.update_of_ne ho, Function.update_of_ne ho]
    exact Queue.data_congr (hframe o' ho)

/-- Taking everything from an owner. -/
theorem Apart.clear (ha : Apart h chain as) (o : ι) :
    Apart h (Function.update chain o Queue.new) (Function.update as o []) :=
  ha.update (Queue.shape_new h) (fun _ _ _ _ => rfl) (fun _ _ _ hb => absurd hb List.not_mem_nil)

end Apart

/-! ## The calls

For each call: it goes through, keeps the owners apart, and does to what is stored what it
does to the lists. -/

/-- The invariant; a segment that no dump has made yet is not there. -/
structure Good (s : Queues T) : Prop where
  apart : Apart s.heap s.chain s.nodes
  later : ∀ k, s.dumps ≤ k → s.segment k = none

/-- The call goes through, keeps the invariant, and does what it should to the lists. -/
def Performs (s : Queues T) (c : Call T) : Prop :=
  ∃ r s', s.perform c = some (r, s') ∧ s'.Good ∧ s.lists.apply c = some (r, s'.lists)

/-- The nodes are the ones that the fields lead through. -/
theorem Apart.nodes_eq {s : Queues T} {as : Owner → List ℕ} (ha : Apart s.heap s.chain as) : s.nodes = as := by
  funext o
  exact (ha.shape o).nodes_eq

/-- No queue has a node at first. -/
theorem good_init (h : Heap T) : (init h : Queues T).Good := by
  have hchain : (init h : Queues T).chain = fun _ => Queue.new := by
    funext o
    cases o <;> rfl
  have ha : Apart (init h : Queues T).heap (init h : Queues T).chain fun _ => [] := by
    rw [hchain]
    exact ⟨fun _ => Queue.shape_new h, fun _ _ _ _ hb => absurd hb List.not_mem_nil⟩
  refine ⟨?_, fun _ _ => rfl⟩
  rw [ha.nodes_eq]
  exact ha

theorem lists_init (h : Heap T) : (init h : Queues T).lists = Lists.init := by
  have hnodes : ∀ o, (init h : Queues T).nodes o = [] := by
    intro o
    cases o <;> rfl
  simp only [lists, hnodes]
  rfl

/-- The fields of a queue, or of a segment, are those of one owner. -/
theorem chain_queue (s : Queues T) (h : Heap T) (q : ℕ) (q' : Queue) :
    chain { s with heap := h, queue := Function.update s.queue q q' } = Function.update s.chain (.queue q) q' := by
  funext o
  cases o with
  | queue p =>
      by_cases hp : p = q
      · subst hp
        simp only [chain, Function.update_self]
      · rw [Function.update_of_ne (by simpa using hp)]
        exact Function.update_of_ne hp ..
  | segment k => rw [Function.update_of_ne (by simp)]; rfl

theorem chain_segment (s : Queues T) (n k : ℕ) (g : Option Dumped) :
    chain { s with dumps := n, segment := Function.update s.segment k g }
      = Function.update s.chain (.segment k) (match g with | some g => ⟨g.terms.toNat, g.head, g.tail⟩ | none => Queue.new) := by
  funext o
  cases o with
  | queue p => rw [Function.update_of_ne (by simp)]; rfl
  | segment j =>
      by_cases hj : j = k
      · subst hj
        simp only [chain, Function.update_self]
      · rw [Function.update_of_ne (by simpa using hj)]
        simp only [chain, Function.update_of_ne hj]

/-- A call that leaves the state with these nodes performs what it should. -/
theorem Performs.of_apart {s t : Queues T} {c : Call T} {r : Option T} {a : Owner → List ℕ}
    (hperform : s.perform c = some (r, t)) (ha : Apart t.heap t.chain a)
    (hlater : ∀ k, t.dumps ≤ k → t.segment k = none)
    (happly : s.lists.apply c = some (r, ⟨fun o => Queue.data t.heap (a o), t.dumps⟩)) : s.Performs c := by
  have hnodes := ha.nodes_eq
  refine ⟨r, t, hperform, ⟨?_, hlater⟩, ?_⟩
  · rw [hnodes]
    exact ha
  · rw [happly, lists, hnodes]

/-- A node is added to one owner. -/
theorem performs_enqueue {s : Queues T} (hs : s.Good) {q a : ℕ} (d : T) (hfree : s.heap.cell a = none) :
    s.Performs (.enqueue q a d) := by
  have hshape := hs.apart.shape (.queue q)
  obtain ⟨h', q', henqueue, hshape', hdata, hframe⟩ := Queue.enqueue_spec d hshape hfree
  -- the node is free, so it is in no list before
  have hunused : ∀ o, a ∉ s.nodes o := by
    intro o hmem
    obtain ⟨x, hx⟩ := (hs.apart.shape o).path.mapped a hmem
    rw [hfree] at hx
    exact absurd hx (by simp)
  have hother : ∀ o, o ≠ .queue q → ∀ b ∈ s.nodes o, b ∉ s.nodes (.queue q) ++ [a] := by
    intro o ho b hb hmem
    rcases List.mem_append.mp hmem with hmem | hmem
    · exact hs.apart.apart o _ ho b hb hmem
    · exact hunused o (List.mem_singleton.mp hmem ▸ hb)
  have hkeep : ∀ o, o ≠ .queue q → ∀ b ∈ s.nodes o, h'.cell b = s.heap.cell b :=
    fun o ho b hb => hframe b (hother o ho b hb)
  have ha := hs.apart.update hshape' hkeep (fun o ho b hb hmem => hother o ho b hmem hb)
  refine .of_apart (t := { s with heap := h', queue := Function.update s.queue q q' }) (r := none) ?_
    (by rw [chain_queue]; exact ha) hs.later ?_
  · have henqueue' : Queue.enqueue a d s.heap (s.queue q) = some (h', q') := henqueue
    simp only [perform, henqueue', Option.bind_eq_bind, Option.bind_some]
  · rw [data_update _ hkeep, hdata]
    rfl

/-- A node is taken from one owner. -/
theorem performs_dequeue {s : Queues T} (hs : s.Good) {q : ℕ} (hne : (s.queue q).getSize ≠ 0) :
    s.Performs (.dequeue q) := by
  have hshape := hs.apart.shape (.queue q)
  have hnodes : s.nodes (.queue q) ≠ [] := by
    intro hnil
    apply hne
    rw [Queue.getSize]
    exact hshape.size.trans (by rw [hnil]; rfl)
  obtain ⟨a, bs, has⟩ := List.exists_cons_of_ne_nil hnodes
  rw [has] at hshape
  obtain ⟨d, h', q', hdequeue, hshape', hdata, hframe⟩ := Queue.dequeue_spec hshape
  -- the front node is in no other list, so the others keep their cells
  have hkeep : ∀ o, o ≠ .queue q → ∀ b ∈ s.nodes o, h'.cell b = s.heap.cell b := by
    intro o ho b hb
    apply hframe
    rintro rfl
    exact hs.apart.apart o _ ho b hb (by rw [has]; exact List.mem_cons_self)
  have hsub : ∀ o, o ≠ .queue q → ∀ b ∈ bs, b ∉ s.nodes o :=
    fun o ho b hb => hs.apart.apart _ o (Ne.symm ho) b (by rw [has]; exact List.mem_cons_of_mem a hb)
  have ha := hs.apart.update hshape' hkeep hsub
  refine .of_apart (t := { s with heap := h', queue := Function.update s.queue q q' }) (r := some d) ?_
    (by rw [chain_queue]; exact ha) hs.later ?_
  · have hdequeue' : Queue.dequeue s.heap (s.queue q) = some (d, h', q') := hdequeue
    simp only [perform, hdequeue', Option.bind_eq_bind, Option.bind_some]
  · have hcontent : s.lists.content (.queue q) = d :: Queue.data h' bs := by
      rw [← hdata, ← has]
      rfl
    rw [data_update _ hkeep]
    simp only [Lists.apply, hcontent]
    rfl

/-- All nodes of a queue go over to a segment. -/
theorem performs_dump {s : Queues T} (hs : s.Good) {q : ℕ} (hfits : (s.queue q).getSize < 2 ^ 31) :
    s.Performs (.dump q) := by
  have hshape : Queue.Shape s.heap (s.queue q) (s.nodes (.queue q)) := hs.apart.shape (.queue q)
  have hcount : (toInt32 (s.queue q).m_size).toNat = (s.queue q).m_size := by
    rw [toInt32_of_mem]
    · exact Int.toNat_natCast _
    · have hlt : (s.queue q).m_size < 2 ^ 31 := hfits
      unfold InInt32
      omega
  -- first nobody owns the nodes, then the new segment does
  have hclear := hs.apart.clear (.queue q)
  have ha := hclear.update (o := .segment s.dumps) hshape (fun _ _ _ _ => rfl) (fun o ho b hb hmem => by
    by_cases hq : o = .queue q
    · subst hq
      rw [Function.update_self] at hmem
      exact List.not_mem_nil hmem
    · rw [Function.update_of_ne hq] at hmem
      exact hs.apart.apart _ o (Ne.symm hq) b hb hmem)
  refine .of_apart (t := { s with
      queue := Function.update s.queue q Queue.new, dumps := s.dumps + 1,
      segment := Function.update s.segment s.dumps
        (some ⟨(s.queue q).m_head, (s.queue q).m_tail, toInt32 (s.queue q).m_size⟩) }) rfl ?_ ?_ ?_
    (a := Function.update (Function.update s.nodes (.queue q) []) (.segment s.dumps) (s.nodes (.queue q)))
  · have hq := chain_queue s s.heap q Queue.new
    have hk := chain_segment { s with heap := s.heap, queue := Function.update s.queue q Queue.new } (s.dumps + 1) s.dumps
      (some ⟨(s.queue q).m_head, (s.queue q).m_tail, toInt32 (s.queue q).m_size⟩)
    rw [hq] at hk
    simp only [hcount] at hk
    rw [hk]
    exact ha
  · intro k hk
    have hk : s.dumps + 1 ≤ k := hk
    show Function.update s.segment s.dumps _ k = none
    rw [Function.update_of_ne (by omega)]
    exact hs.later k (by omega)
  · rw [data_update _ (fun _ _ _ _ => rfl), data_update _ (fun _ _ _ _ => rfl)]
    rfl

/-- `load` of a segment. One that has no nodes is refused, which changes nothing
either. -/
theorem load_owner {h : Heap T} {q : Queue} {g : Dumped} {as bs : List ℕ} (hq : Queue.Shape h q as)
    (hg : Queue.Shape h ⟨g.terms.toNat, g.head, g.tail⟩ bs) (hdisj : ∀ b ∈ bs, b ∉ as) :
    ∃ code h' q', Queue.load g.head g.tail g.terms h q = some (code, h', q') ∧ Queue.Shape h' q' (as ++ bs)
      ∧ Queue.data h' (as ++ bs) = Queue.data h as ++ Queue.data h bs ∧ ∀ b, b ∉ as → h'.cell b = h.cell b := by
  have hlen : g.terms.toNat = bs.length := hg.size
  by_cases hpos : 0 < g.terms
  · have htail : g.tail = bs.getLast? := hg.tail
    rw [htail]
    exact ⟨0, Queue.load_spec hq hg.path (by omega) hpos hdisj⟩
  · have hnil : bs = [] := List.length_eq_zero_iff.mp (by omega)
    subst hnil
    refine ⟨-1, h, q, by rw [Queue.load, if_pos (by omega)], ?_, ?_, fun _ _ => rfl⟩
    · rw [List.append_nil]
      exact hq
    · rw [List.append_nil]
      exact (List.append_nil _).symm

/-- All nodes of a segment go over to a queue. -/
theorem performs_load {s : Queues T} (hs : s.Good) {q k : ℕ} (hk : s.segment k ≠ none) : s.Performs (.load q k) := by
  obtain ⟨g, hg⟩ := Option.ne_none_iff_exists'.mp hk
  have hchain : s.chain (.segment k) = ⟨g.terms.toNat, g.head, g.tail⟩ := by
    simp only [chain, hg]
  have hsegment := hs.apart.shape (.segment k)
  rw [hchain] at hsegment
  have hqueue : Queue.Shape s.heap (s.queue q) (s.nodes (.queue q)) := hs.apart.shape (.queue q)
  have hdisj : ∀ b ∈ s.nodes (.segment k), b ∉ s.nodes (.queue q) := hs.apart.apart _ _ (by simp)
  obtain ⟨code, h', q', hload, hshape', hdata, hframe⟩ := load_owner hqueue hsegment hdisj
  -- first nobody owns the segment, then the queue does
  have hclear := hs.apart.clear (.segment k)
  have hkeep : ∀ o, o ≠ .queue q → ∀ b ∈ Function.update s.nodes (.segment k) [] o, h'.cell b = s.heap.cell b := by
    intro o ho b hb
    apply hframe
    by_cases hok : o = .segment k
    · subst hok
      rw [Function.update_self] at hb
      exact absurd hb List.not_mem_nil
    · rw [Function.update_of_ne hok] at hb
      exact hs.apart.apart o _ ho b hb
  have hnew : ∀ o, o ≠ .queue q → ∀ b ∈ s.nodes (.queue q) ++ s.nodes (.segment k),
      b ∉ Function.update s.nodes (.segment k) [] o := by
    intro o ho b hb hmem
    by_cases hok : o = .segment k
    · subst hok
      rw [Function.update_self] at hmem
      exact List.not_mem_nil hmem
    · rw [Function.update_of_ne hok] at hmem
      rcases List.mem_append.mp hb with hb | hb
      · exact hs.apart.apart _ o (Ne.symm ho) b hb hmem
      · exact hs.apart.apart _ o (Ne.symm hok) b hb hmem
  have ha := hclear.update hshape' hkeep hnew
  refine .of_apart (r := none) (t := { s with
    heap := h', queue := Function.update s.queue q q', segment := Function.update s.segment k none }) ?_ ?_ ?_ ?_
    (a := Function.update (Function.update s.nodes (.segment k) []) (.queue q) (s.nodes (.queue q) ++ s.nodes (.segment k)))
  · simp only [perform, hg, hload, Option.bind_eq_bind, Option.bind_some]
  · have hseg := chain_segment s s.dumps k none
    have hq := chain_queue { s with segment := Function.update s.segment k none } h' q q'
    simp only at hseg hq
    rw [hseg] at hq
    rw [hq]
    exact ha
  · intro j hj
    show Function.update s.segment k none j = none
    by_cases hjk : j = k
    · rw [hjk, Function.update_self]
    · rw [Function.update_of_ne hjk]
      exact hs.later j hj
  · rw [data_update _ hkeep, data_update _ (fun _ _ _ _ => rfl), hdata]
    rfl

/-- **One call.** -/
theorem Good.performs {s : Queues T} (hs : s.Good) {c : Call T} (hc : s.Fits c) : s.Performs c := by
  obtain ⟨hlegal, hdump⟩ := hc
  cases c with
  | enqueue q a d => exact performs_enqueue hs d hlegal
  | dequeue q => exact performs_dequeue hs hlegal
  | dump q => exact performs_dump hs (hdump q rfl)
  | load q k => exact performs_load hs hlegal

/-! ## All calls

By induction on the calls: the owners stay apart, and the lists are stored. -/

/-- In this state every queue's, and every segment's, head leads to its tail in as many
nodes as its size says, the tail is the last, and no node is in two of them; and they
store what these calls store in lists, which return the same data. A call that its
caller may make goes through. -/
structure HandsOver (log : List (Call T × Option T)) (s : Queues T) : Prop where
  path : ∀ o, Path qnode.next s.heap (s.chain o).m_head (s.nodes o) none
  size : ∀ o, (s.nodes o).length = (s.chain o).m_size
  tail : ∀ o, (s.chain o).m_tail = (s.nodes o).getLast?
  last : ∀ o a, (s.chain o).m_tail = some a → ∃ d, s.heap.cell a = some ⟨d, none⟩
  null : ∀ o, ((s.chain o).m_head = none ↔ (s.chain o).m_size = 0) ∧ ((s.chain o).m_tail = none ↔ (s.chain o).m_size = 0)
  apart : ∀ o o', o ≠ o' → ∀ b ∈ s.nodes o, b ∉ s.nodes o'
  lists : Lists.Replay log s.lists
  goes : ∀ c, s.Legal c → ∃ r s', s.perform c = some (r, s')

/-- What the shape says at the two ends. -/
theorem last_of_shape {h : Heap T} {q : Queue} {as : List ℕ} (hs : Queue.Shape h q as) {a : ℕ} (ha : q.m_tail = some a) :
    ∃ d, h.cell a = some ⟨d, none⟩ := by
  have hne : q.m_size ≠ 0 := by
    intro h0
    have hnil : as = [] := List.length_eq_zero_iff.mp (hs.size.symm.trans h0)
    rw [hs.tail, hnil] at ha
    exact absurd ha (by simp)
  obtain ⟨as', t, node, rfl, htail, hnode⟩ := hs.exists_last hne
  obtain ⟨r, -, hright⟩ := hs.path.split
  obtain ⟨-, node', hnode', hnext⟩ := hright
  have hta : t = a := Option.some.inj (htail.symm.trans ha)
  subst hta
  refine ⟨node'.data, ?_⟩
  rw [hnode', ← path_nil.mp hnext]

/-- An owner without nodes has null pointers. -/
theorem null_of_shape {h : Heap T} {q : Queue} {as : List ℕ} (hs : Queue.Shape h q as) :
    (q.m_head = none ↔ q.m_size = 0) ∧ (q.m_tail = none ↔ q.m_size = 0) := by
  rw [hs.tail, hs.size]
  cases as with
  | nil => exact ⟨⟨fun _ => rfl, fun _ => hs.path⟩, ⟨fun _ => rfl, fun _ => rfl⟩⟩
  | cons a as =>
      have hhead : q.m_head = some a := hs.path.1
      rw [hhead]
      simp

/-- So it is as asked. -/
theorem Good.handsOver {log : List (Call T × Option T)} {s : Queues T} (hs : s.Good) (hlists : Lists.Replay log s.lists) :
    HandsOver log s where
  path o := (hs.apart.shape o).path
  size o := (hs.apart.shape o).size.symm
  tail o := (hs.apart.shape o).tail
  last o _ ha := last_of_shape (hs.apart.shape o) ha
  null o := null_of_shape (hs.apart.shape o)
  apart := hs.apart.apart
  lists := hlists
  goes c hc := by
    cases c with
    | enqueue q a d =>
        obtain ⟨r, s', hperform, -⟩ := performs_enqueue hs d hc
        exact ⟨r, s', hperform⟩
    | dequeue q =>
        obtain ⟨r, s', hperform, -⟩ := performs_dequeue hs hc
        exact ⟨r, s', hperform⟩
    | dump q => exact ⟨_, _, rfl⟩
    | load q k =>
        obtain ⟨r, s', hperform, -⟩ := performs_load hs hc
        exact ⟨r, s', hperform⟩

/-- Every run whose dumps fit keeps the invariant and is a run of the lists. -/
theorem Ran.good {h : Heap T} {log : List (Call T × Option T)} {s : Queues T} (hran : Ran Fits h log s) :
    s.Good ∧ Lists.Replay log s.lists := by
  induction hran with
  | nil =>
      refine ⟨good_init h, ?_⟩
      rw [lists_init]
      exact .nil
  | snoc hran hc hstep ih =>
      obtain ⟨hgood, hlists⟩ := ih
      obtain ⟨r', s'', hstep', hgood', happly⟩ := hgood.performs hc
      rw [hstep] at hstep'
      obtain ⟨rfl, rfl⟩ := Prod.mk.inj (Option.some.inj hstep')
      exact ⟨hgood', hlists.snoc happly⟩

/-- **Queues with hand-over.** In every state that any calls lead to, on any number of
queues, the nodes are linked as the fields say and apart, and the queues and the
segments store what the lists do: if no dump takes more nodes than it can count. -/
theorem hands_over {h : Heap T} {log : List (Call T × Option T)} {s : Queues T} (hran : Ran Fits h log s) :
    HandsOver log s := hran.good.1.handsOver hran.good.2

/-- Two elements go from one queue to another. -/
theorem hands_over_two : ∃ s : Queues Bool, Ran Fits .empty
      [(.enqueue 0 7 true, none), (.enqueue 0 3 false, none), (.dump 0, none), (.load 1 0, none), (.dequeue 1, some true)] s
    ∧ HandsOver [(.enqueue 0 7 true, none), (.enqueue 0 3 false, none), (.dump 0, none), (.load 1 0, none),
        (.dequeue 1, some true)] s := by
  have h₁ : Ran Fits (.empty : Heap Bool) [] (init .empty) := .nil
  have h₂ := h₁.snoc (c := .enqueue 0 7 true) ⟨rfl, fun _ hc => by cases hc⟩ rfl
  have h₃ := h₂.snoc (c := .enqueue 0 3 false) ⟨rfl, fun _ hc => by cases hc⟩ rfl
  have h₄ := h₃.snoc (c := .dump 0) ⟨trivial, fun _ hc => by cases hc; exact Nat.lt_of_lt_of_le (by decide : 2 < 3) (by norm_num)⟩ rfl
  have hload : ∀ (s : Queues Bool) (p t : Ptr), s.segment 0 = some ⟨p, t, toInt32 (2 : ℕ)⟩ → (s.queue 1).m_size = 0 →
      s.perform (.load 1 0) = some (none, { s with
        queue := Function.update s.queue 1 ⟨2, p, t⟩, segment := Function.update s.segment 0 none }) := by
    intro s p t hsegment hsize
    have hterms : toInt32 (2 : ℕ) = 2 := by decide
    simp only [perform, hsegment, Option.bind_eq_bind, Option.bind_some, Queue.load, hterms, hsize]
    rfl
  have h₅ := h₄.snoc (c := .load 1 0) ⟨Option.some_ne_none _, fun _ hc => by cases hc⟩ (hload _ _ _ rfl rfl)
  have h₆ := h₅.snoc (c := .dequeue 1) ⟨Nat.succ_ne_zero 1, fun _ hc => by cases hc⟩ rfl
  exact ⟨_, h₆, hands_over h₆⟩

/-! ## Too many nodes to count

The count is an `int32_t`; a dump of more nodes is possible, but their number is lost. -/

/-- A queue can get any number of elements. -/
theorem exists_size (n : ℕ) : ∃ log, ∃ s : Queues Unit, Ran Fits .empty log s ∧ (s.queue 0).m_size = n ∧ s.dumps = 0 := by
  induction n with
  | zero => exact ⟨[], init .empty, .nil, rfl, rfl⟩
  | succ n ih =>
      obtain ⟨log, s, hran, hsize, hdumps⟩ := ih
      obtain ⟨a, ha⟩ := s.heap.exists_fresh
      have hfits : s.Fits (.enqueue 0 a ()) := ⟨ha, fun _ hc => by cases hc⟩
      obtain ⟨h', q', henqueue, hshape, -⟩ := Queue.enqueue_spec () (hran.good.1.apart.shape (.queue 0)) ha
      have henqueue' : Queue.enqueue a () s.heap (s.queue 0) = some (h', q') := henqueue
      refine ⟨_, { s with heap := h', queue := Function.update s.queue 0 q' },
        hran.snoc (c := .enqueue 0 a ()) (r := none) hfits ?_, ?_, hdumps⟩
      · simp only [perform, henqueue', Option.bind_eq_bind, Option.bind_some]
      · have hold : (s.queue 0).m_size = (s.nodes (.queue 0)).length := (hran.good.1.apart.shape (.queue 0)).size
        show (Function.update s.queue 0 q' 0).m_size = n + 1
        rw [Function.update_self, hshape.size, List.length_append, ← hold, hsize]
        rfl

/-- Calls under a condition are calls under a weaker one. -/
theorem Ran.mono {C D : Queues T → Call T → Prop} (hC : ∀ s c, C s c → D s c) {h : Heap T}
    {log : List (Call T × Option T)} {s : Queues T} (hran : Ran C h log s) : Ran D h log s := by
  induction hran with
  | nil => exact .nil
  | snoc _ hc hstep ih => exact ih.snoc (hC _ _ hc) hstep

/-- The calls made last. -/
theorem Lists.Replay.last {log : List (Call T × Option T)} {c : Call T} {r : Option T} {l' : Lists T}
    (h : Lists.Replay (log ++ [(c, r)]) l') : ∃ l, Lists.Replay log l ∧ l.apply c = some (r, l') := by
  generalize hlog : log ++ [(c, r)] = log' at h
  cases h with
  | nil => exact absurd hlog (by simp)
  | snoc h happly =>
      obtain ⟨rfl, heq⟩ := List.append_inj' hlog rfl
      cases heq
      exact ⟨_, h, happly⟩

/-- Calls that return this data leave one content. -/
theorem Lists.Replay.unique {log : List (Call T × Option T)} {l₁ : Lists T} (h₁ : Lists.Replay log l₁) :
    ∀ {l₂ : Lists T}, Lists.Replay log l₂ → l₁ = l₂ := by
  induction h₁ with
  | nil =>
      intro l₂ h₂
      generalize hlog : ([] : List (Call T × Option T)) = log at h₂
      cases h₂ with
      | nil => rfl
      | snoc _ _ => exact absurd hlog (by simp)
  | snoc _ happly ih =>
      intro l₂ h₂
      obtain ⟨l, hl, happly'⟩ := h₂.last
      rw [ih hl, happly'] at happly
      exact ((Prod.mk.inj (Option.some.inj happly)).2).symm

/-- A dump of 2^31 nodes counts them as -2^31, and the load that is given that count
takes none of them. -/
theorem dumped_and_lost : ¬ ∀ (log : List (Call Unit × Option Unit)) (s : Queues Unit), Ran Legal .empty log s → HandsOver log s := by
  intro hall
  obtain ⟨log, s, hran, hsize, hdumps⟩ := exists_size (2 ^ 31)
  obtain ⟨hgood, hlists⟩ := hran.good
  have hlen : (s.lists.content (.queue 0)).length = 2 ^ 31 :=
    (hgood.apart.shape (.queue 0)).length_data.trans hsize
  have hlegal := hran.mono (D := Legal) fun _ _ hc => hc.1
  have hdumped := hlegal.snoc (c := .dump 0) trivial rfl
  have hterms : ¬ 0 < toInt32 ((2 ^ 31 : ℕ) : ℤ) := by decide +kernel
  have hloaded : Ran Legal .empty (log ++ [(.dump 0, none)] ++ [(.load 0 0, none)]) { s with
      queue := Function.update (Function.update s.queue 0 Queue.new) 0 Queue.new
      dumps := s.dumps + 1
      segment := Function.update (Function.update s.segment s.dumps
        (some ⟨(s.queue 0).m_head, (s.queue 0).m_tail, toInt32 (s.queue 0).m_size⟩)) 0 none } := hdumped.snoc
    (by simp [Legal, hdumps]) (by
      simp only [perform, hdumps, Function.update_self, Option.bind_eq_bind, Option.bind_some, Queue.load, hsize]
      rw [if_pos (not_lt.mp hterms)]
      rfl)
  -- the lists have them all in queue 0 again
  obtain ⟨l₂, hl₂, hload⟩ := (hall _ _ hloaded).lists.last
  obtain ⟨l₁, hl₁, hdump⟩ := hl₂.last
  rw [hl₁.unique hlists] at hdump
  have hl₂ := (Prod.mk.inj (Option.some.inj hdump)).2
  have hl₃ := (Prod.mk.inj (Option.some.inj hload)).2
  have hall : (l₂.content (.queue 0) ++ l₂.content (.segment 0)).length = 2 ^ 31 := by
    rw [← hl₂]
    have hfirst : s.lists.dumps = 0 := hdumps
    simp only
    rw [hfirst, Function.update_self, Function.update_of_ne (by simp), Function.update_self, List.nil_append, hlen]
  have hcontent := congrArg (fun l : Lists Unit => (l.content (.queue 0)).length) hl₃
  have hnone : (0 : ℕ) = 2 ^ 31 := by
    rw [← hall]
    simpa [lists, nodes, chain, Queue.nodes, Queue.new, Queue.data, addresses] using hcontent.symm
  norm_num at hnone

end Queues

end JudoEngine
