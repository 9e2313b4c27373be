/-
How two nodes that talk to each other come to a stop.

A call of `judoRead_` waits for a packet with the mutex of its node, and no other call of
that node can do anything then, so two nodes that both read wait for each other. That is
the only way: in any other state some call can go on (`session_atRest_iff`), and what has
been sent by then has been read.

For this each end must always have another call to make, and a `Session` says so: there is
a use for each of the infinitely many threads, `uses e t`, so the calls of an end that have
returned are never all of them. When the last call of an end has returned, and there is no
other, the session has stopped in another way, and a message may be left unread.

As in `Session`, `write` accepts everything, and a read neither fails nor waits too long:
the sockets of `judoAccept_` and `judoSocketConnect_` have a receive time-out of five
seconds, so in the program two such nodes wait for each other that long, and not for ever.
-/
import JudoEngine.JudoServer.Session
import Mathlib.Data.Fintype.EquivFin

set_option autoImplicit false

open Words Threads

namespace JudoEngine

namespace Session

variable {fuel : ℕ} {ends : Bool → End} {uses : Bool → ℕ → Use} {s s' : Session} {certs : Bool} {packet_buf_size : ℤ}

/-! ## Who waits

A call of this node can go on unless it has not got the mutex or waits for a packet. So when
nothing moves, one call has the mutex and reads from an empty stream, at both ends. -/

/-- Everything but the mutex. -/
def busy : Op → Bool
  | .lock _ | .unlock _ => false
  | _ => true

/-- A call that has given the mutex back has returned. -/
theorem Inv.returned (h : Inv fuel ends uses s) {e : Bool} {t : ℕ} (ht : t ∈ s.served ends e)
    (hhold : (s.pool e).holder (ends e).t_node.addr ≠ some t) : ∃ g, (s.pool e).left t = .ret g := by
  have hcritical : ∀ t, Critical nodeLocks (ends e).t_node.addr busy ((uses e t).code fuel (ends e)) :=
    fun t => critical_code (fun _ => rfl) (fun _ => rfl) fuel (ends e) (uses e t)
  have ho := (h.reach e).ordered hcritical
  have hdone := ho.done t ht hhold
  have hown := ((h.reach e).leads t).only (ownNode_code fuel (ends e) (uses e t))
  cases hleft : (s.pool e).left t with
  | ret g => exact ⟨g, rfl⟩
  | call o k =>
      rw [hleft] at hdone hown
      obtain ⟨⟨htakes, hgives, hbusy⟩, -⟩ := hdone
      obtain ⟨⟨hlock, hunlock, -⟩, -⟩ := hown
      cases o with
      | lock m =>
          obtain rfl := hlock m rfl
          exact absurd rfl htakes
      | unlock m =>
          obtain rfl := hunlock m rfl
          exact absurd rfl hgives
      | _ => cases hbusy

/-- The reading call that waits for a packet at one end. -/
structure Waiting (ends : Bool → End) (uses : Bool → ℕ → Use) (s : Session) (e : Bool) (t : ℕ) : Prop where
  holder : (s.pool e).holder (ends e).t_node.addr = some t
  reads : (uses e t).reads = true
  left : ∃ k, (s.pool e).left t = .call (.read (ends e).t_node.fp (ends e).t_node.bufferSize) k
  nothing : (s.link !e).flying = []

/-- At rest, a call at each end waits for a packet. -/
theorem waiting_of_atRest (h : Inv fuel ends uses s) (hrest : AtRest ends s) (e : Bool) : ∃ t, Waiting ends uses s e t := by
  have ho := (h.reach e).ordered fun t => critical_link fuel (ends e) (uses e t)
  cases hhold : (s.pool e).holder (ends e).t_node.addr with
  | none =>
      -- somebody could begin
      obtain ⟨t, ht⟩ := Infinite.exists_notMem_finset (s.served ends e).toFinset
      rw [List.mem_toFinset] at ht
      obtain ⟨⟨o, k, hleft, htakes, -⟩, -⟩ := ho.before t ht
      have hread : ∀ fd size, o ≠ .read fd size := by
        rintro fd size rfl
        cases htakes
      obtain ⟨x, hrecord, htake⟩ := exists_take (s.link !e) hread
      refine absurd (.step e t o k x _ hleft (fun m hm => ?_) hrecord htake) (hrest _)
      obtain rfl := Option.some.inj (htakes.symm.trans hm)
      exact hhold
  | some t =>
      have hinside := (ho.holding t hhold).2
      have hown := ((h.reach e).leads t).only (ownNode_code fuel (ends e) (uses e t))
      cases hleft : (s.pool e).left t with
      | ret g =>
          rw [hleft] at hinside
          exact hinside.elim
      | call o k =>
          rw [hleft] at hinside hown
          have hfree : ∀ m, nodeLocks.takes o = some m → (s.pool e).holder m = none := fun m hm =>
            absurd (hown.1.takes m hm ▸ hm) hinside.1
          by_cases hread : ∀ fd size, o ≠ .read fd size
          · obtain ⟨x, hrecord, htake⟩ := exists_take (s.link !e) hread
            exact absurd (.step e t o k x _ hleft hfree hrecord htake) (hrest _)
          · simp only [not_forall, not_not] at hread
            obtain rfl := hown.1.eq_read hread
            refine ⟨t, hhold, ?_, ⟨k, hleft⟩, ?_⟩
            · by_contra hreads
              have htake := ((h.reach e).leads t).only (reads_code fuel (ends e) (uses e t) (Bool.eq_false_iff.mpr hreads))
              rw [hleft] at htake
              cases htake.1
            · cases hflying : (s.link !e).flying with
              | nil => rfl
              | cons p flying =>
                  have htake : (s.link !e).take ⟨.read (ends e).t_node.fp (ends e).t_node.bufferSize, some p.2⟩
                      = some { s.link !e with flying := flying, opening := p.1 } := by
                    unfold Link.take
                    rw [hflying]
                    exact if_pos rfl
                  exact absurd (.step e t _ k (some p.2) _ hleft hfree trivial htake) (hrest _)

/-- When a call waits at each end, nothing moves. -/
theorem atRest_of_waiting (h : Inv fuel ends uses s) (hwaiting : ∀ e, ∃ t, Waiting ends uses s e t) : AtRest ends s := by
  intro s' hstep
  obtain ⟨e, t, o, k, x, l, hleft, hfree, -, htake⟩ := hstep
  obtain ⟨u, hu⟩ := hwaiting e
  have ho := (h.reach e).ordered fun t => critical_link fuel (ends e) (uses e t)
  -- a thread that was served has returned or is the reader, which nothing reaches; any other wants
  -- the mutex the reader holds
  by_cases ht : t ∈ s.served ends e
  · by_cases hhold : (s.pool e).holder (ends e).t_node.addr = some t
    · obtain rfl := Option.some.inj (hhold.symm.trans hu.holder)
      obtain ⟨k', hleft'⟩ := hu.left
      rw [hleft] at hleft'
      cases hleft'
      obtain ⟨p, flying, hflying, -⟩ := Link.take_read htake
      rw [hu.nothing] at hflying
      cases hflying
    · obtain ⟨g, hret⟩ := h.returned ht hhold
      rw [hret] at hleft
      cases hleft
  · obtain ⟨⟨o', k', hcall, htakes, -⟩, -⟩ := ho.before t ht
    rw [hleft] at hcall
    cases hcall
    have hnone := hfree _ htakes
    rw [hu.holder] at hnone
    cases hnone

/-- A call that is about to read has the mutex. -/
theorem Inv.holder_of_read (h : Inv fuel ends uses s) {e : Bool} {t : ℕ} {fd size : ℤ}
    {k : Ans (.read fd size) → Sys Got} (hleft : (s.pool e).left t = .call (.read fd size) k) :
    (s.pool e).holder (ends e).t_node.addr = some t := by
  have ho := (h.reach e).ordered fun t => critical_link fuel (ends e) (uses e t)
  by_contra hhold
  by_cases ht : t ∈ s.served ends e
  · obtain ⟨g, hret⟩ := h.returned ht hhold
    rw [hret] at hleft
    cases hleft
  · obtain ⟨⟨o, k', hcall, hlock, -⟩, -⟩ := ho.before t ht
    rw [hleft] at hcall
    cases hcall
    cases hlock

/-! ## What has been read by then

The calls that have read are those that have given the mutex back, and one more, which waits.
Counted against the messages sent, this leaves none. -/

/-- When a call waits at each end, every message has been read: the calls that read are
one more than the messages. -/
theorem Inv.length_readers (h : Inv fuel ends uses s) (hp : Paired ends certs packet_buf_size)
    (hfits : ∀ e t m, (uses e t).message = some m → Fits packet_buf_size fuel m) (hfuel : 0 < fuel)
    (hwaiting : ∀ e, ∃ t, Waiting ends uses s e t) (e : Bool) :
    (s.readers ends uses e).length = (s.sent ends uses !e).length + 1 := by
  obtain ⟨t, ht⟩ := hwaiting e
  -- all messages of the other end are there, because the call that has the mutex there reads
  obtain ⟨cs, extra, hall, -, hwhole⟩ := h.carried hp (hfits !e)
  have hflying := hwhole fun u hu => by
    obtain ⟨v, hv⟩ := hwaiting !e
    obtain rfl := Option.some.inj (hu.symm.trans hv.holder)
    cases hu' : uses (!e) u with
    | read t_out_buf => rfl
    | send t_buffer n =>
        have hreads := hv.reads
        rw [hu'] at hreads
        cases hreads
  have hmessages : ∀ m ∈ s.sent ends uses !e, Fits packet_buf_size fuel m := by
    intro m hm
    obtain ⟨u, -, hu⟩ := List.mem_filterMap.mp hm
    exact hfits (!e) u m hu
  have hlink := h.links !e
  rw [Bool.not_not] at hlink
  -- the calls before the one that waits are whole
  obtain ⟨whole, returned, extra', hruns, -, -, hsame, -, -⟩ := (h.reach e).completed someAnswer
    givesRecord_someAnswer (fun t => critical_link fuel (ends e) (uses e t)) (h.records e)
  have ho := (h.reach e).ordered fun t => critical_link fuel (ends e) (uses e t)
  obtain ⟨before, hserved⟩ := List.getLast?_eq_some_iff.mp (ho.holding t ht.holder).1
  have hbefore := ho.before_last hserved
  have hout : t ∉ before := fun hmem => hbefore t hmem ht.holder
  have hwatch : before.flatMap (fun u => watch Link.onLink (whole u))
      = before.flatMap fun u => watch Link.onLink (mine u (s.pool e).log) :=
    List.flatMap_congr fun u hu => hsame u (hserved ▸ List.mem_append_left _ hu) (hbefore u hu)
  have hlog : watch Link.onLink ((s.pool e).log.map Prod.snd)
      = before.flatMap (fun u => watch Link.onLink (whole u)) ++ watch Link.onLink (mine t (s.pool e).log) := by
    rw [ho.log, hserved, List.flatMap_append, List.flatMap_singleton, hwatch]
  have hreaders : s.readers ends uses e = (before.filter fun u => (uses e u).reads) ++ [t] := by
    unfold readers served
    rw [hserved, List.filter_append, List.filter_cons_of_pos (p := fun u => (uses e u).reads) ht.reads]
    rfl
  rw [hreaders, List.length_append, List.length_singleton, Nat.add_left_inj]
  apply Nat.le_antisymm
  · rw [← Link.takes_watch, hlog] at hlink
    obtain ⟨l₁, htakes, -⟩ := Link.takes_split hlink
    exact (takes_order hp hfuel before (fun u _ => hruns u) hall hmessages (hflying.trans (List.append_nil _).symm) (.inl rfl)
      htakes).1
  · -- otherwise the one that waits would have had its message, and more would not be read
    by_contra hlt
    obtain ⟨k, hleft⟩ := ht.left
    obtain ⟨n, tr, g, l', hrest, htakes, hempty⟩ := exists_takes ([], []) ((s.pool e).left t) (s.link !e) ht.nothing
    have hwholeRun := ((h.reach e).leads t).runs hrest
    have hn : n ≠ 0 := by
      rintro rfl
      rw [hleft] at hrest
      obtain ⟨x, tr', rfl, -⟩ := hrest
      obtain ⟨l₁, htake, -⟩ := Link.takes_cons htakes
      obtain ⟨p, flying, hfirst, -⟩ := Link.take_read htake
      rw [Link.more_flying, ht.nothing] at hfirst
      cases hfirst
    have hmore := Link.takes_more (List.replicate n ([], [])) _ hlink
    have hall' : (Link.more (Link.empty.puts (ends !e).t_node.certs ((s.pool !e).log.map Prod.snd)) (List.replicate n ([], []))).takes
        ((before ++ [t]).flatMap fun u => watch Link.onLink (Function.update whole t (mine t (s.pool e).log ++ tr) u)) = some l' := by
      have hsplit : ((before ++ [t]).flatMap fun u => watch Link.onLink (Function.update whole t (mine t (s.pool e).log ++ tr) u))
          = watch Link.onLink ((s.pool e).log.map Prod.snd) ++ watch Link.onLink tr := by
        rw [hlog, List.flatMap_append, List.flatMap_singleton, Function.update_self, watch_append, List.append_assoc]
        refine congrArg (· ++ _) (List.flatMap_congr fun u hu => ?_)
        rw [Function.update_of_ne]
        rintro rfl
        exact hout hu
      rw [hsplit, Link.takes_append, Link.takes_watch, hmore, Option.bind_some, Link.takes_watch]
      exact htakes
    have hcount : ((before ++ [t]).filter fun u => (uses e u).reads).length ≤ (s.sent ends uses !e).length := by
      rw [List.filter_append, List.filter_cons_of_pos (p := fun u => (uses e u).reads) ht.reads, List.length_append]
      exact Nat.lt_of_not_le hlt
    have hwholes : ∀ u ∈ before ++ [t], Prog.Runs ((uses e u).code fuel (ends e))
        (Function.update whole t (mine t (s.pool e).log ++ tr) u) (Function.update returned t g u) := by
      intro u _
      by_cases hut : u = t
      · subst hut
        rw [Function.update_self, Function.update_self]
        exact hwholeRun
      · rw [Function.update_of_ne hut, Function.update_of_ne hut]
        exact hruns u
    obtain ⟨-, hleftover, -⟩ := takes_order hp hfuel (before ++ [t]) hwholes hall hmessages (by rw [Link.more_flying, hflying])
      (.inr hcount) hall'
    rw [hempty] at hleftover
    have hnil := (List.append_eq_nil_iff.mp hleftover.symm).2
    rw [List.replicate_eq_nil_iff] at hnil
    exact hn hnil

/-- **Deadlock.** A session in which both ends always have another call to make comes to
a stop only in one way: at both ends a `judoRead_` has the mutex of the node and waits for a
packet, and nothing is on its way. Then no message has been lost: each end has read all that
the other has sent. -/
theorem session_atRest_iff (hp : Paired ends certs packet_buf_size)
    (hfits : ∀ e t m, (uses e t).message = some m → Fits packet_buf_size fuel m) (hfuel : 0 < fuel)
    (h : Reach fuel ends uses s) : AtRest ends s ↔ ∀ e, (∃ t, Waiting ends uses s e t)
      ∧ (s.readers ends uses e).length = (s.sent ends uses !e).length + 1 := by
  constructor
  · intro hrest
    have hwaiting := waiting_of_atRest h.inv hrest
    exact fun e => ⟨hwaiting e, h.inv.length_readers hp hfits hfuel hwaiting e⟩
  · exact fun hwaiting => atRest_of_waiting h.inv fun e => (hwaiting e).1

/-- A call that reads goes on until it waits, if nothing comes. -/
theorem Reach.waits (h : Reach fuel ends uses s) (hfuel : 0 < fuel) {e : Bool} {t : ℕ} (hu : (uses e t).reads = true)
    (hleft : (s.pool e).left t = (uses e t).code fuel (ends e)) (hhold : (s.pool e).holder (ends e).t_node.addr = none)
    (hnothing : (s.link !e).flying = []) :
    ∃ s', Reach fuel ends uses s' ∧ Waiting ends uses s' e t ∧ s'.pool (!e) = s.pool (!e)
      ∧ (s'.link e).flying = (s.link e).flying := by
  -- the call runs up to its first read that nothing answers, or to its end; it cannot end, since a
  -- judoRead_ needs a packet
  obtain ⟨tr, q, l, hleads, hrecords, htakes, ⟨g, rfl⟩ | ⟨fd, size, k, rfl, hl⟩⟩ :=
    exists_leads ((uses e t).code fuel (ends e)) (s.link !e)
  · have hruns := hleads.runs (Prog.runs_ret.mpr ⟨rfl, rfl⟩)
    rw [List.append_nil] at hruns
    rw [takes_read_nil hu hfuel hnothing hruns] at htakes
    cases htakes
  · obtain ⟨s', h', hleft', hpool, hlink, hlink'⟩ := h.call hleft hhold hleads hrecords htakes
    have hown := ((h'.inv.reach e).leads t).only (ownNode_code fuel (ends e) (uses e t))
    rw [hleft'] at hown
    have hnow : ∃ k', (s'.pool e).left t = .call (.read (ends e).t_node.fp (ends e).t_node.bufferSize) k' := by
      obtain ⟨hfd, hsize⟩ := hown.1.read fd size rfl
      rw [← hfd, ← hsize]
      exact ⟨k, hleft'⟩
    refine ⟨s', h', ⟨h'.inv.holder_of_read hleft', hu, hnow, by rw [hlink']; exact hl⟩, hpool, ?_⟩
    obtain ⟨tr', g, hrest⟩ := Prog.exists_runs (Prog.call (Op.read fd size) k)
    rw [hlink]
    refine congrArg Link.flying (Link.puts_of_not fun ev hev => ?_)
    exact (puts_free hu).of_runs (hleads.runs hrest) ev (List.mem_append_left _ hev)

/-- Both ends read first. -/
theorem session_atRest_both : ∃ s : Session, Reach 1 pair (fun _ _ => .read 0) s ∧ AtRest pair s
    ∧ ∀ e, (∃ t, Waiting pair (fun _ _ => .read 0) s e t)
      ∧ (s.readers pair (fun _ _ => .read 0) e).length = (s.sent pair (fun _ _ => .read 0) !e).length + 1 := by
  have hstart : Reach 1 pair (fun _ _ => .read 0) (.start 1 pair fun _ _ => .read 0) := .start
  obtain ⟨s₁, h₁, hwaiting₁, hpool, hlink⟩ := hstart.waits Nat.one_pos (e := true) (t := 0) rfl rfl rfl rfl
  have hpool₁ : s₁.pool false = (Session.start 1 pair fun _ _ => .read 0).pool false := hpool
  obtain ⟨s₂, h₂, hwaiting₂, hpool', hlink'⟩ := h₁.waits Nat.one_pos (e := false) (t := 0) rfl (by rw [hpool₁]; rfl)
    (by rw [hpool₁]; rfl) hlink
  have hwaiting : ∀ e, ∃ t, Waiting pair (fun _ _ => .read 0) s₂ e t := by
    refine forall_ends false ⟨0, hwaiting₂⟩ ⟨0, ?_, rfl, ?_, ?_⟩
    · rw [hpool']
      exact hwaiting₁.holder
    · rw [hpool']
      exact hwaiting₁.left
    · exact hlink'.trans hwaiting₁.nothing
  have hrest := atRest_of_waiting h₂.inv hwaiting
  exact ⟨s₂, h₂, hrest, (session_atRest_iff paired_pair (fun _ _ _ hm => by cases hm) Nat.one_pos h₂).mp hrest⟩

end Session

end JudoEngine
