/-
Which interpreters the log calls.

`m_valid_functions` is a set: bit `k` for the interpreter of letter `k`, and bit 31 for the
file. The constructor puts bit 31 in and `addInterpreter` the others, but nothing makes the
set empty to begin with. So what the memory of the object held is in it, and a letter that
nobody has registered may have a bit, and a slot of `m_functions` that nothing was stored in.
-/
import JudoEngine.LoggyMcLogFace.Construction
import JudoEngine.LoggyMcLogFace.Format

set_option autoImplicit false

open Words Recorded CString

namespace JudoEngine

/-- The letter with this number. -/
def letterOf (k : ℕ) : Byte := BitVec.ofNat 8 (0x61 + k)

/-- It is a letter, and has this number. -/
theorem slot_letterOf {k : ℕ} (hk : k < 26) : Letter (letterOf k) ∧ slot (letterOf k) = k := by
  have hnat : (letterOf k).toNat = 0x61 + k := by
    rw [letterOf, BitVec.toNat_ofNat, Nat.mod_eq_of_lt (by omega)]
  unfold Letter slot
  omega

theorem letterOf_slot {fn : Byte} (h : Letter fn) : letterOf (slot fn) = fn := by
  obtain ⟨hlo, hhi⟩ := h
  refine BitVec.eq_of_toNat_eq ?_
  unfold letterOf slot
  rw [BitVec.toNat_ofNat, Nat.mod_eq_of_lt (by omega)]
  omega

theorem slot_lt {fn : Byte} (h : Letter fn) : slot fn < 26 := by
  obtain ⟨-, hhi⟩ := h
  unfold slot
  omega

namespace LoggyMcLogFace

variable {V : Type} {logger : LoggyMcLogFace V}

/-! ## Registering

What the clients have registered is read off the list of their calls: for each letter the last
interpreter. -/

/-- `LoggyMcLogFace::addInterpreter`; a `char` is signed. -/
def addInterpreter (logger : LoggyMcLogFace V) (t_letter : Byte) (t_function : V → List Byte) : LoggyMcLogFace V :=
  if t_letter.toInt ≤ 0x7A ∧ t_letter.toInt ≥ 0x61 then
    { logger with
      m_functions := Function.update logger.m_functions (letterIndex t_letter).toNat t_function
      m_valid_functions := logger.m_valid_functions ||| (0x01 <<< (letterIndex t_letter).toNat) }
  else logger

/-- A call on the object. -/
inductive Use (V : Type) where
  | addInterpreter (t_letter : Byte) (t_function : V → List Byte)
  | log (t_struct : tm) (t_str : ℕ → Byte) (t_values : ℕ → V) (t_num_values : ℤ)

/-- The object after these calls. -/
inductive Used (logger₀ : LoggyMcLogFace V) : List (Use V) → LoggyMcLogFace V → Prop where
  | nil : Used logger₀ [] logger₀
  | addInterpreter {uses : List (Use V)} {logger : LoggyMcLogFace V} (h : Used logger₀ uses logger) (t_letter : Byte)
      (t_function : V → List Byte) :
      Used logger₀ (uses ++ [.addInterpreter t_letter t_function]) (logger.addInterpreter t_letter t_function)
  | log {uses : List (Use V)} {logger logger' : LoggyMcLogFace V} (h : Used logger₀ uses logger) (t_struct : tm)
      (t_str : ℕ → Byte) (t_values : ℕ → V) (t_num_values : ℤ) {fuel : ℕ} {code : ℤ}
      (hlog : (logger.log t_num_values t_struct t_str t_values fuel).result = some (logger', code)) :
      Used logger₀ (uses ++ [.log t_struct t_str t_values t_num_values]) logger'

/-- There is an interpreter for letter `k`. -/
def Has (uses : List (Use V)) (k : ℕ) : Prop := ∃ f, .addInterpreter (letterOf k) f ∈ uses

/-- The one that was registered last. -/
def Last (uses : List (Use V)) (k : ℕ) (f : V → List Byte) : Prop :=
  ∃ before after, uses = before ++ .addInterpreter (letterOf k) f :: after ∧ ¬ Has after k

/-- A call of an interpreter is one of the last that has been registered for its letter. -/
def CallsLast (uses : List (Use V)) : LogAccess V → Prop
  | .call k function _ => k < 26 ∧ Last uses k function
  | _ => True

/-- The bits say which interpreters have been registered, and that the file has been opened, and
whatever `log` is called with, it calls only interpreters that have been registered, and
those that were last. -/
structure OnlyRegistered (opened : Bool) (uses : List (Use V)) (logger : LoggyMcLogFace V) : Prop where
  bits : ∀ k < 26, logger.m_valid_functions.getLsbD k = true ↔ Has uses k
  ready : logger.m_valid_functions.getLsbD 31 = opened
  calls : ∀ t_struct t_str t_values t_num_values fuel,
    (logger.log t_num_values t_struct t_str t_values fuel).All (CallsLast uses)

/-! ## What the calls change

The invariant has the mask as it was at first in it, since the constructor adds to what it
finds. -/

/-- A letter gets its bit and its slot. -/
theorem addInterpreter_of_letter {t_letter : Byte} (h : Letter t_letter) (t_function : V → List Byte) :
    logger.addInterpreter t_letter t_function
      = { logger with
          m_functions := Function.update logger.m_functions (slot t_letter) t_function
          m_valid_functions := logger.m_valid_functions ||| (0x01 <<< slot t_letter) } := by
  have hbounds := (letterIndex_iff t_letter).not.mpr (not_not.mpr h)
  unfold letterIndex at hbounds
  rw [addInterpreter, if_pos (by omega), toNat_letterIndex h]

/-- Any other byte changes nothing. -/
theorem addInterpreter_of_not_letter {t_letter : Byte} (h : ¬ Letter t_letter) (t_function : V → List Byte) :
    logger.addInterpreter t_letter t_function = logger := by
  have hbounds := (letterIndex_iff t_letter).mpr h
  unfold letterIndex at hbounds
  rw [addInterpreter, if_neg (by omega)]

/-- `log` changes the file and nothing else. -/
theorem log_frame {logger' : LoggyMcLogFace V} {t_num_values : ℤ} {t_struct : tm} {t_str : ℕ → Byte} {t_values : ℕ → V}
    {fuel : ℕ} {code : ℤ} (h : (logger.log t_num_values t_struct t_str t_values fuel).result = some (logger', code)) :
    logger'.m_valid_functions = logger.m_valid_functions ∧ logger'.m_functions = logger.m_functions := by
  unfold log at h
  split at h
  · rw [result_bind] at h
    split at h
    · cases h
      exact ⟨rfl, rfl⟩
    · split at h
      · cases h
        exact ⟨rfl, rfl⟩
      · cases h
        exact ⟨rfl, rfl⟩
    · cases h
  · cases h
    exact ⟨rfl, rfl⟩

/-- A call registers an interpreter or does not. -/
theorem has_snoc {uses : List (Use V)} {u : Use V} {k : ℕ} :
    Has (uses ++ [u]) k ↔ Has uses k ∨ ∃ f, u = .addInterpreter (letterOf k) f := by
  simp only [Has, List.mem_append, List.mem_singleton, exists_or]
  simp only [eq_comm]

/-- A later call that does not register an interpreter for the letter. -/
theorem Last.snoc {uses : List (Use V)} {u : Use V} {k : ℕ} {f : V → List Byte} (h : Last uses k f)
    (hu : ∀ g, u ≠ .addInterpreter (letterOf k) g) : Last (uses ++ [u]) k f := by
  obtain ⟨before, after, rfl, hafter⟩ := h
  refine ⟨before, after ++ [u], by rw [List.append_assoc, List.cons_append], ?_⟩
  rw [has_snoc]
  rintro (hhas | ⟨g, hg⟩)
  · exact hafter hhas
  · exact hu g hg

/-- The bits of the new object and those that have been registered are set, and the slots
hold the interpreters that were registered last. -/
structure Holding (logger₀ : LoggyMcLogFace V) (uses : List (Use V)) (logger : LoggyMcLogFace V) : Prop where
  bits : ∀ k < 32, logger.m_valid_functions.getLsbD k = true
    ↔ logger₀.m_valid_functions.getLsbD k = true ∨ k < 26 ∧ Has uses k
  last : ∀ k < 26, Has uses k → Last uses k (logger.m_functions k)

/-- The letter whose interpreter a call registers. -/
theorem registers_iff {t_letter : Byte} (hletter : Letter t_letter) (t_function : V → List Byte) {k : ℕ} (hk : k < 26) :
    (∃ f, (.addInterpreter t_letter t_function : Use V) = .addInterpreter (letterOf k) f) ↔ slot t_letter = k := by
  constructor
  · rintro ⟨f, hf⟩
    cases hf
    exact (slot_letterOf hk).2
  · rintro rfl
    exact ⟨t_function, by rw [letterOf_slot hletter]⟩

/-- A call that registers nothing. -/
theorem Holding.other {logger₀ logger' : LoggyMcLogFace V} {uses : List (Use V)} {u : Use V} (h : Holding logger₀ uses logger)
    (hmask : logger'.m_valid_functions = logger.m_valid_functions) (hslots : logger'.m_functions = logger.m_functions)
    (hu : ∀ k < 26, ∀ g, u ≠ .addInterpreter (letterOf k) g) : Holding logger₀ (uses ++ [u]) logger' := by
  have hhas : ∀ k < 26, (Has (uses ++ [u]) k ↔ Has uses k) := by
    intro k hk
    rw [has_snoc]
    apply or_iff_left
    rintro ⟨g, hg⟩
    exact hu k hk g hg
  constructor
  · intro k hk
    rw [hmask, h.bits k hk]
    exact or_congr_right (and_congr_right fun hk' => (hhas k hk').symm)
  · intro k hk hk'
    rw [hslots]
    exact (h.last k hk ((hhas k hk).mp hk')).snoc (hu k hk)

/-- A call that registers an interpreter. -/
theorem Holding.register {logger₀ : LoggyMcLogFace V} {uses : List (Use V)} (h : Holding logger₀ uses logger) {t_letter : Byte}
    (hletter : Letter t_letter) (t_function : V → List Byte) :
    Holding logger₀ (uses ++ [.addInterpreter t_letter t_function]) (logger.addInterpreter t_letter t_function) := by
  have hslot := slot_lt hletter
  rw [addInterpreter_of_letter hletter]
  constructor
  · intro k hk
    rw [BitVec.getLsbD_or, Bool.or_eq_true, h.bits k hk, getLsbD_bit hk, decide_eq_true_iff, has_snoc, or_assoc]
    refine or_congr_right ?_
    -- the bits from 26 on belong to no letter
    by_cases hk' : k < 26
    · simp only [hk', true_and, registers_iff hletter t_function hk']
    · simp only [hk', false_and, false_or, iff_false]
      omega
  · intro k hk hhas
    by_cases hslotk : slot t_letter = k
    · -- this is the last one for its letter
      subst hslotk
      refine ⟨uses, [], ?_, ?_⟩
      · rw [letterOf_slot hletter]
        dsimp only
        rw [Function.update_self]
      · rintro ⟨f, hf⟩
        exact absurd hf List.not_mem_nil
    · have hother : ¬ ∃ g, (.addInterpreter t_letter t_function : Use V) = .addInterpreter (letterOf k) g :=
        mt (registers_iff hletter t_function hk).mp hslotk
      have hold : Has uses k := (has_snoc.mp hhas).resolve_right hother
      dsimp only
      rw [Function.update_of_ne (Ne.symm hslotk)]
      exact (h.last k hk hold).snoc (not_exists.mp hother)

/-- **Any calls** leave the object like this. -/
theorem Used.holding {logger₀ : LoggyMcLogFace V} {uses : List (Use V)} (h : Used logger₀ uses logger) :
    Holding logger₀ uses logger := by
  induction h with
  | nil =>
      have hnone : ∀ k, ¬ Has ([] : List (Use V)) k := by
        rintro k ⟨f, hf⟩
        exact absurd hf List.not_mem_nil
      exact ⟨fun k _ => by simp [hnone], fun k _ hk => absurd hk (hnone k)⟩
  | @addInterpreter uses logger h t_letter t_function ih =>
      by_cases hletter : Letter t_letter
      · exact ih.register hletter t_function
      · -- no letter between `a` and `z` is this one
        rw [addInterpreter_of_not_letter hletter]
        apply ih.other rfl rfl
        intro k hk g hg
        cases hg
        exact hletter (slot_letterOf hk).1
  | @log uses logger logger' h t_struct t_str t_values t_num_values fuel code hlog ih =>
      obtain ⟨hmask, hslots⟩ := log_frame hlog
      apply ih.other hmask hslots
      intro k hk g hg
      cases hg

/-! ## What `log` calls

Only a slot whose bit is set, whatever the format: the test comes before each call. -/

/-- A call is of a slot that has its bit set. -/
def CallsSet (logger : LoggyMcLogFace V) : LogAccess V → Prop
  | .call k function _ => k < 26 ∧ logger.m_valid_functions.getLsbD k = true ∧ function = logger.m_functions k
  | _ => True

/-- All rounds of `log` only make such calls. -/
theorem all_loop_callsSet (logger : LoggyMcLogFace V) (t_num_values pos : ℤ) (t_str : ℕ → Byte) (t_values : ℕ → V) (fuel : ℕ) :
    ∀ (index k : ℕ) (m_file : OutFile),
      (log.loop logger t_num_values t_str t_values pos fuel index k m_file).All logger.CallsSet := by
  induction fuel with
  | zero => exact fun index k m_file => all_pure _ _
  | succ fuel ih =>
      intro index k m_file
      by_cases hzero : t_str index = 0
      · exact all_loop_nul hzero trivial
      · by_cases hslash : t_str index = 0x2F
        · by_cases hpercent : t_str (index + 1) = 0x25
          · refine all_loop_directive hslash hpercent (fun _ _ => trivial) fun hoffence => ?_
            obtain ⟨hletter, hdef, -⟩ := offence_eq_none_iff.mp hoffence
            exact ⟨trivial, ⟨slot_lt hletter, hdef, rfl⟩, ih _ _ _⟩
          · exact all_loop_plain hzero (fun _ => hpercent) trivial trivial (ih _ _ _)
        · exact all_loop_plain hzero (fun h => absurd h hslash) trivial trivial (ih _ _ _)

theorem all_log_callsSet (logger : LoggyMcLogFace V) (t_struct : tm) (t_str : ℕ → Byte) (t_values : ℕ → V)
    (t_num_values : ℤ) (fuel : ℕ) : (logger.log t_num_values t_struct t_str t_values fuel).All logger.CallsSet :=
  all_log (all_loop_callsSet logger t_num_values _ t_str t_values fuel 0 0 _)

/-! ## A new object

What the memory held before decides: with none of the bits set that count, they are all
registered ones. -/

section

variable {open_ : CStr → Option OutFile} {m_valid_functions : BitVec 32} {m_functions : ℕ → V → List Byte}
  {t_log_dir t_extention ctime : CStr}

/-- The file can be opened. -/
def opens (open_ : CStr → Option OutFile) (t_log_dir t_extention ctime : CStr) : Bool :=
  (open_ (fileName t_log_dir t_extention ctime).result).isSome

/-- The constructor sets bit 31 if it opens the file, and leaves the others as they are. -/
theorem getLsbD_construct {k : ℕ} (hk : k < 32) :
    ((construct open_ m_valid_functions m_functions t_log_dir t_extention ctime).result).m_valid_functions.getLsbD k = true
      ↔ m_valid_functions.getLsbD k = true ∨ k = 31 ∧ opens open_ t_log_dir t_extention ctime = true := by
  have hready : LOG_READY = ((0x01 <<< 31 : ℕ) : BitVec 32) := by decide
  unfold opens
  rw [construct, result_bind]
  cases open_ (fileName t_log_dir t_extention ctime).result with
  | some m_file =>
      rw [result_pure, BitVec.getLsbD_or, Bool.or_eq_true, hready, getLsbD_bit hk, decide_eq_true_iff]
      simp only [Option.isSome_some, and_true, eq_comm]
  | none => simp [result_pure]

/-- **The registry.** In every state of an object, after any calls of `addInterpreter` with any
characters and of `log` with any formats, its bits tell what has been registered and `log`
calls nothing else, exactly when every bit of a letter that the memory had set has been
registered since, and bit 31 was set only if the file has been opened. -/
theorem only_registered_iff {uses : List (Use V)}
    (hused : Used (construct open_ m_valid_functions m_functions t_log_dir t_extention ctime).result uses logger) :
    OnlyRegistered (opens open_ t_log_dir t_extention ctime) uses logger
      ↔ (∀ k < 26, m_valid_functions.getLsbD k = true → Has uses k)
        ∧ (m_valid_functions.getLsbD 31 = true → opens open_ t_log_dir t_extention ctime = true) := by
  have hholding := hused.holding
  have hbits : ∀ k < 26, logger.m_valid_functions.getLsbD k = true ↔ m_valid_functions.getLsbD k = true ∨ Has uses k := by
    intro k hk
    rw [hholding.bits k (by omega), getLsbD_construct (by omega)]
    have hne : k ≠ 31 := by omega
    simp only [hne, hk, false_and, or_false, true_and]
  have hready : logger.m_valid_functions.getLsbD 31 = true
      ↔ m_valid_functions.getLsbD 31 = true ∨ opens open_ t_log_dir t_extention ctime = true := by
    rw [hholding.bits 31 (by decide), getLsbD_construct (by decide)]
    simp
  -- a bit that was set at first is one of the mask, and has to be registered; without any the
  -- invariant is all
  constructor
  · rintro ⟨hregistered, hopened, -⟩
    refine ⟨fun k hk hset => (hregistered k hk).mp ((hbits k hk).mpr (.inl hset)), fun hset => ?_⟩
    rw [← hopened]
    exact hready.mpr (.inl hset)
  · rintro ⟨hregistered, hopened⟩
    have hset : ∀ k < 26, logger.m_valid_functions.getLsbD k = true ↔ Has uses k := by
      intro k hk
      rw [hbits k hk]
      exact or_iff_right_of_imp (hregistered k hk)
    refine ⟨hset, ?_, fun t_struct t_str t_values t_num_values fuel => ?_⟩
    · rw [Bool.eq_iff_iff, hready]
      exact or_iff_right_of_imp hopened
    · intro access haccess
      have hcall := all_log_callsSet logger t_struct t_str t_values t_num_values fuel access haccess
      cases access with
      | t_str index => trivial
      | t_values index => trivial
      | call k function value =>
          obtain ⟨hk, hbit, rfl⟩ := hcall
          exact ⟨hk, hholding.last k hk ((hset k hk).mp hbit)⟩

/-- In zeroed memory, with the interpreter of the server for `a`. -/
theorem only_registered_a : ∃ logger : LoggyMcLogFace (List Byte),
    Used (construct (fun _ => some ⟨[], 0, false⟩) 0 (fun _ _ => []) dotLog dotLog someTime).result
        [.addInterpreter 0x61 fun value => value] logger
      ∧ OnlyRegistered true [.addInterpreter 0x61 fun value => value] logger := by
  have hnew : Used (construct (fun _ => some ⟨[], 0, false⟩) 0 (fun _ (_ : List Byte) => []) dotLog dotLog someTime).result
    [] _ := .nil
  have hused := hnew.addInterpreter 0x61 fun value => value
  exact ⟨_, hused, (only_registered_iff hused).mpr ⟨fun k _ hset => absurd hset (by simp), fun hset => absurd hset (by simp)⟩⟩

/-- In memory that held a one there is an interpreter for `a` that nobody has registered. -/
theorem not_only_registered : ¬ ∀ (open_ : CStr → Option OutFile) (m_valid_functions : BitVec 32)
    (m_functions : ℕ → List Byte → List Byte) (t_log_dir t_extention ctime : CStr) (uses : List (Use (List Byte)))
    (logger : LoggyMcLogFace (List Byte)),
    Used (construct open_ m_valid_functions m_functions t_log_dir t_extention ctime).result uses logger →
    OnlyRegistered (opens open_ t_log_dir t_extention ctime) uses logger := by
  intro hall
  have hnew := hall (fun _ => none) 1 (fun _ _ => []) slash slash someTime [] _ .nil
  have hbit : (construct (fun _ => none) 1 (fun _ (_ : List Byte) => []) slash slash
      someTime).result.m_valid_functions.getLsbD 0 = true := (getLsbD_construct (by decide)).mpr (.inl (by decide))
  obtain ⟨f, hf⟩ := (hnew.bits 0 (by decide)).mp hbit
  exact absurd hf List.not_mem_nil

end

end LoggyMcLogFace

end JudoEngine
