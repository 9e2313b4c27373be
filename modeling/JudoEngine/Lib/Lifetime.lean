/-
Objects that a program makes, uses and destroys.

The operations of a program do not say which object they have to do with, nor which of
its fields. Notes do: a program with notes is a `Prog` that also says what it does to
which object, and `erase` takes the notes away again. A record of notes is legal when
nothing is done to an object that is not there, and no field is used for what it is
meant for before it has been set.

`Behaves` is what to show of a program: its notes are legal unless it takes a branch
that is wrong, and then they are not; and there may be branches beyond which nothing is
said. It is a condition on the program that goes along with its text, so one part after
the other can be shown to behave (`Behaves.bind`), and what it gives is about every run,
whole or not (`Behaves.legal_iff`, `Behaves.leads`).
-/
import JudoEngine.Lib.Threads

set_option autoImplicit false

namespace Lifetime

/-! ## Objects

An object is an address with the fields that have been set. A note changes the objects, and
may only be about one that is there; whether an allocator reuses addresses is left open. -/

/-- What a program does to an object: the one at an address, with fields `F`. `apply` is
a use of a field that must have been set. -/
inductive Note (F : Type) where
  | new (a : ℕ)
  | use (a : ℕ)
  | set (a : ℕ) (f : F)
  | apply (a : ℕ) (f : F)
  | destroy (a : ℕ)

/-- The objects that there are, and which of their fields have been set. -/
abbrev Objects (F : Type) := ℕ → Option (F → Bool)

/-- There are none. -/
def Objects.empty (F : Type) : Objects F := fun _ => none

/-- There is an object at `a`, with all fields set. -/
def Objects.Filled {F : Type} (s : Objects F) (a : ℕ) : Prop := s a = some fun _ => true

section Notes

variable {F : Type} [DecidableEq F]

/-- The objects after a note. -/
def Note.step (s : Objects F) : Note F → Objects F
  | .new a => Function.update s a (some fun _ => false)
  | .set a f => Function.update s a ((s a).map fun fields => Function.update fields f true)
  | .destroy a => Function.update s a none
  | .use _ | .apply _ _ => s

/-- There is such an object, and the field has been set. -/
def Note.Ok (s : Objects F) : Note F → Prop
  | .new _ => True
  | .use a | .set a _ | .destroy a => (s a).isSome = true
  | .apply a f => ∃ fields, s a = some fields ∧ fields f = true

/-- A new object does not get the address of another one: that is up to the allocator. -/
def Note.Free (s : Objects F) : Note F → Prop
  | .new a => s a = none
  | _ => True

/-- The objects after some notes. -/
def replay (s : Objects F) (l : List (Note F)) : Objects F := l.foldl Note.step s

/-- Every note is about an object that is there. -/
def Legal : Objects F → List (Note F) → Prop
  | _, [] => True
  | s, x :: l => x.Ok s ∧ Legal (x.step s) l

/-- Every new object has an address of its own. -/
def Allocates : Objects F → List (Note F) → Prop
  | _, [] => True
  | s, x :: l => x.Free s ∧ Allocates (x.step s) l

/-- Notes are replayed, and judged, part by part. -/
theorem replay_append (s : Objects F) (l l' : List (Note F)) : replay s (l ++ l') = replay (replay s l) l' :=
  List.foldl_append ..

theorem legal_append {l l' : List (Note F)} : ∀ {s : Objects F}, Legal s (l ++ l') ↔ Legal s l ∧ Legal (replay s l) l' := by
  induction l with
  | nil => exact ⟨fun h => ⟨trivial, h⟩, fun h => h.2⟩
  | cons x l ih =>
      intro s
      rw [List.cons_append, Legal, ih, Legal, and_assoc]
      rfl

theorem allocates_append {l l' : List (Note F)} : ∀ {s : Objects F},
    Allocates s (l ++ l') ↔ Allocates s l ∧ Allocates (replay s l) l' := by
  induction l with
  | nil => exact ⟨fun h => ⟨trivial, h⟩, fun h => h.2⟩
  | cons x l ih =>
      intro s
      rw [List.cons_append, Allocates, ih, Allocates, and_assoc]
      rfl

/-! ### What legal means -/

/-- The address of the object that a note is about. -/
def Note.addr : Note F → ℕ
  | .new a | .use a | .set a _ | .apply a _ | .destroy a => a

/-- An object that is not there is not there until it is made. -/
theorem replay_none {a : ℕ} {l : List (Note F)} : ∀ {s : Objects F}, s a = none → .new a ∉ l → replay s l a = none := by
  induction l with
  | nil => exact fun h _ => h
  | cons x l ih =>
      intro s h hnew
      obtain ⟨hx, hl⟩ := not_or.mp (mt List.mem_cons.mpr hnew)
      refine ih ?_ hl
      -- only a new for a itself would make it
      cases x with
      | new b =>
          have hne : a ≠ b := fun heq => hx (congrArg Note.new heq)
          exact (Function.update_of_ne hne ..).trans h
      | use b => exact h
      | set b f =>
          by_cases hab : a = b
          · subst hab
            rw [Note.step, Function.update_self, h]
            rfl
          · exact (Function.update_of_ne hab ..).trans h
      | apply b f => exact h
      | destroy b =>
          by_cases hab : a = b
          · subst hab
            exact Function.update_self ..
          · exact (Function.update_of_ne hab ..).trans h

/-- **Nothing is done to an object that has been destroyed**, it is not destroyed again
either: before that there has been another one at its address. -/
theorem Legal.renewed {s : Objects F} {l l' l'' : List (Note F)} {x : Note F}
    (h : Legal s (l ++ .destroy x.addr :: (l' ++ x :: l''))) : x = .new x.addr ∨ .new x.addr ∈ l' := by
  obtain ⟨-, -, hrest⟩ := legal_append.mp h
  obtain ⟨-, hok, -⟩ := legal_append.mp hrest
  by_contra hnot
  obtain ⟨hx, hl'⟩ := not_or.mp hnot
  have hnone := replay_none (Function.update_self (β := fun _ => Option (F → Bool)) x.addr none (replay s l)) hl'
  cases x with
  | new a => exact hx rfl
  | use a | set a f | destroy a => exact Bool.false_ne_true ((congrArg Option.isSome hnone).symm.trans hok)
  | apply a f =>
      obtain ⟨fields, hfields, -⟩ := hok
      exact Option.some_ne_none fields (hfields.symm.trans hnone)

/-- A field that has been set, or that was set at the start. -/
theorem replay_set {a : ℕ} {f : F} {l : List (Note F)} : ∀ {s : Objects F} {fields : F → Bool},
    replay s l a = some fields → fields f = true → .set a f ∈ l ∨ ∃ fields', s a = some fields' ∧ fields' f = true := by
  induction l with
  | nil => exact fun h hset => .inr ⟨_, h, hset⟩
  | cons x l ih =>
      intro s fields h hset
      rcases ih h hset with hl | ⟨fields', h', hset'⟩
      · exact .inl (List.mem_cons_of_mem _ hl)
      by_cases hx : x = .set a f
      · exact .inl (hx ▸ List.mem_cons_self)
      refine .inr ?_
      cases x with
      | new b =>
          -- a new object has no fields set
          by_cases hab : a = b
          · subst hab
            rw [Note.step, Function.update_self] at h'
            cases h'
            exact absurd hset' Bool.false_ne_true
          · exact ⟨fields', (Function.update_of_ne hab ..).symm.trans h', hset'⟩
      | use b | apply b g => exact ⟨fields', h', hset'⟩
      | set b g =>
          by_cases hab : a = b
          · subst hab
            have hfg : f ≠ g := fun heq => hx (congrArg (Note.set a) heq.symm)
            rw [Note.step, Function.update_self] at h'
            obtain ⟨fields'', h'', rfl⟩ := Option.map_eq_some_iff.mp h'
            exact ⟨fields'', h'', (Function.update_of_ne hfg ..).symm.trans hset'⟩
          · exact ⟨fields', (Function.update_of_ne hab ..).symm.trans h', hset'⟩
      | destroy b =>
          by_cases hab : a = b
          · subst hab
            rw [Note.step, Function.update_self] at h'
            exact absurd h'.symm (Option.some_ne_none _)
          · exact ⟨fields', (Function.update_of_ne hab ..).symm.trans h', hset'⟩

/-- **A field is only used** when it has been set. -/
theorem Legal.has_set {l l' : List (Note F)} {a : ℕ} {f : F} (h : Legal (.empty F) (l ++ .apply a f :: l')) :
    .set a f ∈ l := by
  obtain ⟨-, ⟨fields, hfields, hset⟩, -⟩ := legal_append.mp h
  rcases replay_set hfields hset with hl | ⟨fields', hnone, -⟩
  · exact hl
  · exact absurd hnone.symm (Option.some_ne_none _)

end Notes

/-! ## Programs with notes

Notes and marks are operations that are answered by nothing, so a program with notes is a
program, and taking the notes away is a function on programs. -/

/-- An operation, a note, or a mark: the program is on this branch. -/
inductive NotedOp (Op F B : Type) where
  | op (o : Op)
  | note (x : Note F)
  | branch (b : B)

/-- What these are answered. -/
@[reducible] def NotedAns {Op F B : Type} (Ans : Op → Type) : NotedOp Op F B → Type
  | .op o => Ans o
  | .note _ => Unit
  | .branch _ => Unit

/-- A program with notes. -/
abbrev Noted (Op : Type) (Ans : Op → Type) (F B α : Type) := Prog (NotedOp Op F B) (NotedAns Ans) α

/-- What is recorded of it. -/
abbrev NotedEvent (Op : Type) (Ans : Op → Type) (F B : Type) := Event (NotedOp Op F B) (NotedAns Ans)

variable {Op F B α β : Type} {Ans : Op → Type}

/-- The program without its notes. -/
def erase : Noted Op Ans F B α → Prog Op Ans α
  | .ret a => .ret a
  | .call (.op o) k => .call o fun x => erase (k x)
  | .call (.note _) k => erase (k ())
  | .call (.branch _) k => erase (k ())

/-- A program that has to do with no object. -/
def lift : Prog Op Ans α → Noted Op Ans F B α
  | .ret a => .ret a
  | .call o k => .call (.op o) fun x => lift (k x)

/-- The operations of a record. -/
def events : List (NotedEvent Op Ans F B) → List (Event Op Ans)
  | [] => []
  | ⟨.op o, x⟩ :: tr => ⟨o, x⟩ :: events tr
  | _ :: tr => events tr

/-- The notes of a record. -/
def notes : List (NotedEvent Op Ans F B) → List (Note F)
  | [] => []
  | ⟨.note x, _⟩ :: tr => x :: notes tr
  | _ :: tr => notes tr

/-- The branches taken. -/
def branches : List (NotedEvent Op Ans F B) → List B
  | [] => []
  | ⟨.branch b, _⟩ :: tr => b :: branches tr
  | _ :: tr => branches tr

/-- All three are computed part by part. -/
theorem events_append (tr tr' : List (NotedEvent Op Ans F B)) : events (tr ++ tr') = events tr ++ events tr' := by
  induction tr with
  | nil => rfl
  | cons ev tr ih =>
      obtain ⟨o, x⟩ := ev
      cases o with
      | op o => exact congrArg (List.cons _) ih
      | note x => exact ih
      | branch b => exact ih

theorem notes_append (tr tr' : List (NotedEvent Op Ans F B)) : notes (tr ++ tr') = notes tr ++ notes tr' := by
  induction tr with
  | nil => rfl
  | cons ev tr ih =>
      obtain ⟨o, x⟩ := ev
      cases o with
      | op o => exact ih
      | note x => exact congrArg (List.cons _) ih
      | branch b => exact ih

theorem branches_append (tr tr' : List (NotedEvent Op Ans F B)) : branches (tr ++ tr') = branches tr ++ branches tr' := by
  induction tr with
  | nil => rfl
  | cons ev tr ih =>
      obtain ⟨o, x⟩ := ev
      cases o with
      | op o => exact ih
      | note x => exact ih
      | branch b => exact congrArg (List.cons _) ih

/-- Notes are taken away along the text of a program. -/
@[simp] theorem erase_ret (a : α) : erase (.ret a : Noted Op Ans F B α) = .ret a := rfl

@[simp] theorem erase_op (o : Op) : erase (Prog.op (NotedOp.op o) : Noted Op Ans F B (Ans o)) = Prog.op o := rfl

@[simp] theorem erase_call_op (o : Op) (k : Ans o → Noted Op Ans F B α) :
    erase (Prog.call (.op o) k) = Prog.call o fun x => erase (k x) := rfl

@[simp] theorem erase_call_note (x : Note F) (k : Unit → Noted Op Ans F B α) :
    erase (Prog.call (.note x) k) = erase (k ()) := rfl

@[simp] theorem erase_call_branch (b : B) (k : Unit → Noted Op Ans F B α) :
    erase (Prog.call (.branch b) k) = erase (k ()) := rfl

theorem erase_op_bind (o : Op) (f : Ans o → Noted Op Ans F B α) :
    erase (Prog.op (NotedOp.op o) >>= f) = Prog.op o >>= fun x => erase (f x) := rfl

theorem erase_note_bind (x : Note F) (f : Unit → Noted Op Ans F B α) :
    erase (Prog.op (NotedOp.note x) >>= f) = erase (f ()) := rfl

@[simp] theorem erase_ite (c : Prop) [Decidable c] (p q : Noted Op Ans F B α) :
    erase (if c then p else q) = if c then erase p else erase q := by
  split <;> rfl

@[simp] theorem erase_bind (p : Noted Op Ans F B α) (f : α → Noted Op Ans F B β) :
    erase (p >>= f) = erase p >>= fun a => erase (f a) := by
  induction p with
  | ret a => rfl
  | call o k ih =>
      cases o with
      | op o => exact congrArg (Prog.call o) (funext fun x => ih x)
      | note x => exact ih ()
      | branch b => exact ih ()

@[simp] theorem erase_lift (p : Prog Op Ans α) : erase (lift p : Noted Op Ans F B α) = p := by
  induction p with
  | ret a => rfl
  | call o k ih => exact congrArg (Prog.call o) (funext fun x => ih x)

/-- A run of the program with notes is a run of the one without. -/
theorem runs_erase {p : Noted Op Ans F B α} {a : α} : ∀ {tr : List (NotedEvent Op Ans F B)},
    Prog.Runs p tr a → Prog.Runs (erase p) (events tr) a := by
  induction p with
  | ret b =>
      rintro tr ⟨rfl, rfl⟩
      exact ⟨rfl, rfl⟩
  | call o k ih =>
      rintro tr ⟨x, tr', rfl, hruns⟩
      have hrest := ih x hruns
      cases o with
      | op o => exact ⟨x, events tr', rfl, hrest⟩
      | note y => exact hrest
      | branch b => exact hrest

/-- Nothing is noted of a lifted program. -/
theorem runs_lift {p : Prog Op Ans α} {a : α} : ∀ {tr : List (NotedEvent Op Ans F B)},
    Prog.Runs (lift p) tr a → notes tr = [] ∧ branches tr = [] ∧ Prog.Runs p (events tr) a := by
  induction p with
  | ret b =>
      rintro tr ⟨rfl, rfl⟩
      exact ⟨rfl, rfl, rfl, rfl⟩
  | call o k ih =>
      rintro tr ⟨x, tr', rfl, hruns⟩
      obtain ⟨hnotes, hbranches, hrest⟩ := ih x hruns
      exact ⟨hnotes, hbranches, x, events tr', rfl, hrest⟩

/-! ## Behaving

The condition is about all ways in which a program can be answered, so it is proved from the
program's text, one operation after the other, with the objects of that moment. -/

section Behaves

variable [DecidableEq F] {wrong beyond : B → Prop} {Q : α → Objects F → Prop} {s : Objects F}

/-- Whatever it is answered, the program does something to an object that is not there. -/
def Misbehaves : Noted Op Ans F B α → Objects F → Prop
  | .ret _, _ => False
  | .call (.op _) k, s => ∀ x, Misbehaves (k x) s
  | .call (.note x) k, s => ¬ x.Ok s ∨ Misbehaves (k ()) (x.step s)
  | .call (.branch _) k, s => Misbehaves (k ()) s

/-- The program only does what it may, and ends as `Q` says, unless it takes a branch that
is wrong; then it misbehaves. -/
def Behaves (wrong beyond : B → Prop) (Q : α → Objects F → Prop) : Noted Op Ans F B α → Objects F → Prop
  | .ret a, s => Q a s
  | .call (.op _) k, s => ∀ x, Behaves wrong beyond Q (k x) s
  | .call (.note x) k, s => x.Free s → x.Ok s ∧ Behaves wrong beyond Q (k ()) (x.step s)
  | .call (.branch b) k, s =>
      ¬ beyond b → (wrong b → Misbehaves (k ()) s) ∧ (¬ wrong b → Behaves wrong beyond Q (k ()) s)

/-- What misbehaves does so whatever would follow. -/
theorem Misbehaves.bind {p : Noted Op Ans F B α} (f : α → Noted Op Ans F B β) : ∀ {s : Objects F},
    Misbehaves p s → Misbehaves (p >>= f) s := by
  induction p with
  | ret a => exact fun h => h.elim
  | call o k ih =>
      intro s h
      cases o with
      | op o => exact fun x => ih x (h x)
      | note x => exact h.imp_right (ih ())
      | branch b => exact ih () h

/-- Programs that behave can be put together. -/
theorem Behaves.bind {Q' : β → Objects F → Prop} {p : Noted Op Ans F B α} {f : α → Noted Op Ans F B β} :
    ∀ {s : Objects F}, Behaves wrong beyond Q p s → (∀ a s', Q a s' → Behaves wrong beyond Q' (f a) s') → Behaves wrong beyond Q' (p >>= f) s := by
  induction p with
  | ret a => exact fun h hf => hf a _ h
  | call o k ih =>
      intro s h hf
      cases o with
      | op o => exact fun x => ih x (h x) hf
      | note x => exact fun hfree => ⟨(h hfree).1, ih () (h hfree).2 hf⟩
      | branch b =>
          intro hbeyond
          exact ⟨fun hwrong => ((h hbeyond).1 hwrong).bind f, fun hright => ih () ((h hbeyond).2 hright) hf⟩

/-- Less may be asked for at the end. -/
theorem Behaves.mono {Q' : α → Objects F → Prop} {p : Noted Op Ans F B α} (hp : Behaves wrong beyond Q p s)
    (h : ∀ a s', Q a s' → Q' a s') : Behaves wrong beyond Q' p s := by
  have hbind := Behaves.bind (f := Prog.ret) hp h
  have hret : ∀ p : Noted Op Ans F B α, (p >>= Prog.ret) = p := by
    intro p
    induction p with
    | ret a => rfl
    | call o k ih => exact congrArg (Prog.call o) (funext fun x => ih x)
  rwa [hret] at hbind

/-! ### Going along a program -/

variable {f : Unit → Noted Op Ans F B α} {a : ℕ}

/-- An operation may be answered in any way. -/
theorem Behaves.op {o : Op} {k : Ans o → Noted Op Ans F B α} (h : ∀ x, Behaves wrong beyond Q (k x) s) :
    Behaves wrong beyond Q (Prog.op (.op o) >>= k) s := h

/-- A new object has an address of its own, and no field of it is set. -/
theorem Behaves.new (h : s a = none → Behaves wrong beyond Q (f ()) (Function.update s a (some fun _ => false))) :
    Behaves wrong beyond Q (Prog.op (.note (.new a)) >>= f) s := fun hfree => ⟨trivial, h hfree⟩

/-- An object that is used has to be there. -/
theorem Behaves.use (ha : (s a).isSome = true) (h : Behaves wrong beyond Q (f ()) s) :
    Behaves wrong beyond Q (Prog.op (.note (.use a)) >>= f) s := fun _ => ⟨ha, h⟩

/-- So does one that has a field set. -/
theorem Behaves.set {x : F} {fields : F → Bool} (ha : s a = some fields)
    (h : Behaves wrong beyond Q (f ()) (Function.update s a (some (Function.update fields x true)))) :
    Behaves wrong beyond Q (Prog.op (.note (.set a x)) >>= f) s := by
  refine fun _ => ⟨by rw [Note.Ok, ha]; rfl, ?_⟩
  rw [Note.step, ha]
  exact h

/-- A field that is used has to have been set. -/
theorem Behaves.apply {x : F} {fields : F → Bool} (ha : s a = some fields) (hx : fields x = true)
    (h : Behaves wrong beyond Q (f ()) s) : Behaves wrong beyond Q (Prog.op (.note (.apply a x)) >>= f) s := fun _ => ⟨⟨fields, ha, hx⟩, h⟩

/-- An object that is destroyed has to be there. -/
theorem Behaves.destroy (ha : (s a).isSome = true) (h : Behaves wrong beyond Q (f ()) (Function.update s a none)) :
    Behaves wrong beyond Q (Prog.op (.note (.destroy a)) >>= f) s := fun _ => ⟨ha, h⟩

/-- On a branch that is wrong the rest has to misbehave, and on any other to behave. -/
theorem Behaves.branch {b : B} (hwrong : wrong b → Misbehaves (f ()) s) (hright : ¬ wrong b → Behaves wrong beyond Q (f ()) s) :
    Behaves wrong beyond Q (Prog.op (.branch b) >>= f) s := fun _ => ⟨hwrong, hright⟩

/-- A program that has to do with no object, and what it can return. -/
theorem behaves_lift (p : Prog Op Ans α) (s : Objects F) :
    Behaves wrong beyond (fun a s' => s' = s ∧ ∃ tr, Prog.Runs p tr a) (lift p : Noted Op Ans F B α) s := by
  induction p with
  | ret a => exact ⟨rfl, [], rfl, rfl⟩
  | call o k ih =>
      intro x
      refine (ih x).mono ?_
      rintro a s' ⟨rfl, tr, hruns⟩
      exact ⟨rfl, ⟨o, x⟩ :: tr, x, tr, rfl, hruns⟩

/-- A program may misbehave later. -/
theorem Misbehaves.later {x : Note F} (h : Misbehaves (f ()) (x.step s)) : Misbehaves (Prog.op (.note x) >>= f) s := .inr h

/-- The object is not there any more. -/
theorem misbehaves_use (ha : s a = none) : Misbehaves (Prog.op (.note (.use a)) >>= f) s := by
  refine .inl fun hok => ?_
  rw [Note.Ok, ha] at hok
  exact Bool.false_ne_true hok

/-- The field has not been set. -/
theorem misbehaves_apply {x : F} {fields : F → Bool} (ha : s a = some fields) (hx : fields x = false) :
    Misbehaves (Prog.op (.note (.apply a x)) >>= f) s := by
  left
  rintro ⟨fields', ha', hx'⟩
  cases ha.symm.trans ha'
  exact Bool.false_ne_true (hx.symm.trans hx')

/-! ### What it means for a run -/

/-- No whole run of it is legal. -/
theorem Misbehaves.runs {p : Noted Op Ans F B α} {r : α} : ∀ {s : Objects F} {tr : List (NotedEvent Op Ans F B)},
    Misbehaves p s → Prog.Runs p tr r → ¬ Legal s (notes tr) := by
  induction p with
  | ret a => exact fun h => h.elim
  | call o k ih =>
      rintro s tr h ⟨x, tr', rfl, hruns⟩
      cases o with
      | op o =>
          have hrest := ih x (h x) hruns
          exact hrest
      | note y =>
          intro hlegal
          exact h.elim (fun hnot => hnot hlegal.1) fun hrest => ih x hrest hruns hlegal.2
      | branch b =>
          have hrest := ih x h hruns
          exact hrest

/-- **A whole run** is legal exactly when it takes no branch that is wrong. -/
theorem Behaves.legal_iff {p : Noted Op Ans F B α} {r : α} : ∀ {s : Objects F} {tr : List (NotedEvent Op Ans F B)},
    Behaves wrong beyond Q p s → Prog.Runs p tr r → Allocates s (notes tr) → (∀ b ∈ branches tr, ¬ beyond b) →
      (Legal s (notes tr) ↔ ∀ b ∈ branches tr, ¬ wrong b) ∧ (Legal s (notes tr) → Q r (replay s (notes tr))) := by
  induction p with
  | ret a =>
      rintro s tr h ⟨rfl, rfl⟩ - -
      exact ⟨⟨fun _ _ hb => absurd hb List.not_mem_nil, fun _ => trivial⟩, fun _ => h⟩
  | call o k ih =>
      rintro s tr h ⟨x, tr', rfl, hruns⟩ hfree hwithin
      cases o with
      | op o =>
          have hrest := ih x (h x) hruns hfree hwithin
          exact hrest
      | note y =>
          obtain ⟨hok, hrest⟩ := h hfree.1
          obtain ⟨hiff, hQ⟩ := ih x hrest hruns hfree.2 hwithin
          exact ⟨⟨fun hlegal => hiff.mp hlegal.2, fun hright => ⟨hok, hiff.mpr hright⟩⟩, fun hlegal => hQ hlegal.2⟩
      | branch b =>
          obtain ⟨hb, hwithin⟩ := List.forall_mem_cons.mp hwithin
          -- a wrong branch spoils everything behind it; any other leaves the question to the rest
          by_cases hwrong : wrong b
          · have hnot := ((h hb).1 hwrong).runs hruns
            refine ⟨⟨fun hlegal => absurd hlegal hnot, fun hright => ?_⟩, fun hlegal => absurd hlegal hnot⟩
            exact absurd hwrong (hright b List.mem_cons_self)
          · obtain ⟨hiff, hQ⟩ := ih x ((h hb).2 hwrong) hruns hfree hwithin
            refine ⟨⟨fun hlegal => List.forall_mem_cons.mpr ⟨hwrong, hiff.mp hlegal⟩, fun hright => ?_⟩, hQ⟩
            exact hiff.mpr (List.forall_mem_cons.mp hright).2

/-- **A run up to some point** is legal when it has taken no branch that is wrong. -/
theorem Behaves.leads {p q : Noted Op Ans F B α} : ∀ {s : Objects F} {tr : List (NotedEvent Op Ans F B)},
    Behaves wrong beyond Q p s → Prog.Leads p tr q → Allocates s (notes tr) → (∀ b ∈ branches tr, ¬ beyond b) →
      (∀ b ∈ branches tr, ¬ wrong b) → Legal s (notes tr) := by
  -- by the program: what is left of it behaves from the objects of that moment on
  induction p with
  | ret a =>
      intro s tr h hleads _ _ _
      cases tr with
      | nil => trivial
      | cons ev tr => exact absurd hleads.choose_spec.1 nofun
  | call o k ih =>
      intro s tr h hleads hfree hwithin hright
      cases tr with
      | nil => trivial
      | cons ev tr =>
          obtain ⟨o', x⟩ := ev
          obtain ⟨k', hcall, hrest⟩ := hleads
          obtain ⟨rfl, hk⟩ := Prog.call.inj hcall
          cases eq_of_heq hk
          cases o with
          | op o =>
              have hnext := ih x (h x) hrest hfree hwithin hright
              exact hnext
          | note y =>
              obtain ⟨hok, hnext⟩ := h hfree.1
              exact ⟨hok, ih x hnext hrest hfree.2 hwithin hright⟩
          | branch b =>
              obtain ⟨hb, hwithin⟩ := List.forall_mem_cons.mp hwithin
              obtain ⟨hnot, hright⟩ := List.forall_mem_cons.mp hright
              have hnext := ih x ((h hb).2 hnot) hrest hfree hwithin hright
              exact hnext

end Behaves

end Lifetime
