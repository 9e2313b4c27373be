/-
The format language of the log.

`log` reads its format byte by byte and looks two bytes ahead. What it looks for is said
here as a grammar: a text is a sequence of pieces, a piece is a directive or a character
that is copied, and a text can be read in one way only. Over the memory that the format lies
in, `log` does what the pieces ask for (`loop_spec`), as long as its `index`, which is an
`int32_t`, reaches what it looks for; where it does not, the call does not come to an end
(`loop_overflow`).
-/
import JudoEngine.LoggyMcLogFace

set_option autoImplicit false

open Words Recorded CString

namespace JudoEngine

/-! ## The grammar

It says nothing of indices, so it is independent of how the loop walks the text. -/

/-- A piece of a format. -/
inductive Piece where
  | plain (c : Byte)
  | directive (fn : Byte)
  deriving DecidableEq

/-- `/%` and the character behind it are a directive, and every other character is a piece of
its own. At the end of the format the character behind is the NUL. -/
inductive Parses : List Byte → List Piece → Prop where
  | nil : Parses [] []
  | directive (fn : Byte) {t_str : List Byte} {ps : List Piece} (h : Parses t_str ps) :
      Parses (0x2F :: 0x25 :: fn :: t_str) (.directive fn :: ps)
  | atEnd : Parses [0x2F, 0x25] [.directive 0]
  | plain (c : Byte) {t_str : List Byte} {ps : List Piece} (hplain : ∀ rest, c :: t_str ≠ 0x2F :: 0x25 :: rest)
      (h : Parses t_str ps) : Parses (c :: t_str) (.plain c :: ps)

/-- The pieces of a text, computed. -/
def pieces : List Byte → List Piece
  | [] => []
  | [c] => [.plain c]
  | [c, c'] => if c = 0x2F ∧ c' = 0x25 then [.directive 0] else [.plain c, .plain c']
  | c :: c' :: fn :: t_str =>
      if c = 0x2F ∧ c' = 0x25 then .directive fn :: pieces t_str else .plain c :: pieces (c' :: fn :: t_str)

/-- Two characters that do not begin a directive. -/
theorem ne_directive {c c' : Byte} (h : ¬ (c = 0x2F ∧ c' = 0x25)) (l rest : List Byte) :
    c :: c' :: l ≠ 0x2F :: 0x25 :: rest := by
  intro heq
  obtain ⟨rfl, htail⟩ := List.cons.inj heq
  obtain ⟨rfl, -⟩ := List.cons.inj htail
  exact h ⟨rfl, rfl⟩

/-- Every text has a reading ... -/
theorem parses_pieces (t_str : List Byte) : Parses t_str (pieces t_str) := by
  induction t_str using pieces.induct with
  | case1 => exact .nil
  | case2 c => exact .plain c (fun rest heq => by cases heq) .nil
  | case3 c c' hdir =>
      obtain ⟨rfl, rfl⟩ := hdir
      exact .atEnd
  | case4 c c' hdir =>
      rw [pieces, if_neg hdir]
      exact .plain c (ne_directive hdir []) (.plain c' (fun rest heq => by cases heq) .nil)
  | case5 c c' fn t_str hdir ih =>
      rw [pieces, if_pos hdir]
      obtain ⟨rfl, rfl⟩ := hdir
      exact .directive fn ih
  | case6 c c' fn t_str hdir ih =>
      rw [pieces, if_neg hdir]
      exact .plain c (ne_directive hdir _) ih

/-- ... and no other. -/
theorem Parses.unique {t_str : List Byte} {ps : List Piece} (h : Parses t_str ps) : ∀ {ps' : List Piece},
    Parses t_str ps' → ps = ps' := by
  -- each piece is known by its first two characters
  induction h with
  | nil =>
      intro ps' h'
      cases h'
      rfl
  | directive fn h ih =>
      intro ps' h'
      cases h' with
      | directive fn h' => rw [ih h']
      | plain c hplain h' => exact absurd rfl (hplain _)
  | atEnd =>
      intro ps' h'
      cases h' with
      | atEnd => rfl
      | plain c hplain h' => exact absurd rfl (hplain _)
  | plain c hplain h ih =>
      intro ps' h'
      cases h' with
      | directive fn h' => exact absurd rfl (hplain _)
      | atEnd => exact absurd rfl (hplain _)
      | plain c hplain' h' => rw [ih h']

/-! ## What the pieces ask for

Which directive is the first that something is wrong with, and what is written up to there,
are functions of the pieces, the mask and the number of values. -/

/-- One of `'a'` to `'z'`. -/
def Letter (fn : Byte) : Prop := 0x61 ≤ fn.toNat ∧ fn.toNat ≤ 0x7A

instance (fn : Byte) : Decidable (Letter fn) := inferInstanceAs (Decidable (_ ∧ _))

/-- The number of a letter. -/
def slot (fn : Byte) : ℕ := fn.toNat - 0x61

namespace LoggyMcLogFace

variable {V : Type} (logger : LoggyMcLogFace V) (t_num_values : ℤ)

/-- There is an interpreter for it. -/
def Defined (fn : Byte) : Prop := logger.m_valid_functions.getLsbD (slot fn) = true

instance (fn : Byte) : Decidable (logger.Defined fn) := inferInstanceAs (Decidable (_ = _))

/-- What is wrong with a directive that `k` others come before. -/
def offence (k : ℕ) (fn : Byte) : Option ℤ :=
  if ¬ Letter fn then some NOT_VALID_FUNCTION_VAR
  else if ¬ logger.Defined fn then some FUNCTION_NEVER_DEFINED
  else if t_num_values < k + 1 then some MORE_VALUES_THEN_FUNCTION_CALLS
  else none

/-- What the first directive that something is wrong with is answered with, or else how many
directives there are. -/
def outcome : (k : ℕ) → List Piece → Except ℤ ℕ
  | k, [] => .ok k
  | k, .plain _ :: ps => outcome k ps
  | k, .directive fn :: ps =>
      match logger.offence t_num_values k fn with
      | some e => .error e
      | none => outcome (k + 1) ps

/-- The code that answers the format. -/
def answer (ps : List Piece) : ℤ :=
  match logger.outcome t_num_values 0 ps with
  | .error e => e
  | .ok n => if t_num_values = n then 0 else LESS_VALUES_THEN_FUNCTION_CALLS

/-- The text with what the interpreters write for the values. -/
def expansion (t_values : ℕ → V) : (k : ℕ) → List Piece → List Byte
  | _, [] => []
  | k, .plain c :: ps => c :: expansion t_values k ps
  | k, .directive fn :: ps => logger.m_functions (slot fn) (t_values k) ++ expansion t_values (k + 1) ps

/-- What the pieces write to the file, and what comes of it. -/
def follow (t_values : ℕ → V) (pos : ℤ) : (k : ℕ) → List Piece → OutFile → OutFile × Except ℤ ℤ
  | k, [], m_file => (m_file, .ok k)
  | k, .plain c :: ps, m_file => follow t_values pos k ps (m_file.put [c])
  | k, .directive fn :: ps, m_file =>
      match logger.offence t_num_values k fn with
      | some e => (m_file.seekp pos, .error e)
      | none => follow t_values pos (k + 1) ps (m_file.put (logger.m_functions (slot fn) (t_values k)))

/-- How many bytes there are up to the first directive that something is wrong with, with its
letter, or else up to the NUL, with it. -/
def extent : (k : ℕ) → List Piece → ℕ
  | _, [] => 1
  | k, .plain _ :: ps => extent k ps + 1
  | k, .directive fn :: ps =>
      match logger.offence t_num_values k fn with
      | some _ => 3
      | none => extent (k + 1) ps + 3

/-- The letters of the directives. -/
def letters (ps : List Piece) : List Byte :=
  ps.filterMap fun p =>
    match p with
    | .plain _ => none
    | .directive fn => some fn

/-- The string lies in this memory. -/
def LiesIn (s : CStr) (t_str : ℕ → Byte) : Prop := ∀ i ≤ s.val.length, t_str i = s.val.getD i 0

end LoggyMcLogFace

/-! ## Letters and bits

The source indexes its tables by `fun - 'a'` and tests a bit of its mask; both are about the
26 letters only. -/

/-- The index of a byte is one of the tables' exactly when it is a letter. -/
theorem letterIndex_iff (fn : Byte) : (letterIndex fn < 0 ∨ letterIndex fn > 25) ↔ ¬ Letter fn := by
  have hlt := fn.isLt
  unfold letterIndex Letter
  rw [BitVec.toInt_eq_toNat_cond]
  split <;> omega

theorem toNat_letterIndex {fn : Byte} (h : Letter fn) : (letterIndex fn).toNat = slot fn := by
  have hlt := fn.isLt
  obtain ⟨hlo, hhi⟩ := h
  unfold letterIndex slot
  rw [BitVec.toInt_eq_toNat_cond, if_pos (by omega)]
  omega

/-- The bits of a shifted one. -/
theorem getLsbD_bit {k i : ℕ} (hi : i < 32) : ((0x01 <<< k : ℕ) : BitVec 32).getLsbD i = decide (k = i) := by
  show (BitVec.ofNat 32 (1 <<< k)).getLsbD i = _
  rw [BitVec.getLsbD_ofNat, Nat.one_shiftLeft, Nat.testBit_two_pow, decide_eq_true hi, Bool.true_and]

/-- A bit of the mask. -/
theorem and_bit_ne_zero (m : BitVec 32) {k : ℕ} (hk : k < 32) : m &&& (0x01 <<< k) ≠ 0 ↔ m.getLsbD k = true := by
  constructor
  · intro hne
    by_contra hbit
    refine hne (BitVec.eq_of_getLsbD_eq fun i hi => ?_)
    rw [BitVec.getLsbD_and, getLsbD_bit hi]
    by_cases hki : k = i
    · subst hki
      rw [Bool.eq_false_of_not_eq_true hbit, Bool.false_and]
      exact BitVec.getLsbD_zero.symm
    · rw [decide_eq_false hki, Bool.and_false]
      exact BitVec.getLsbD_zero.symm
  · intro hbit hzero
    have hand := congrArg (fun x : BitVec 32 => x.getLsbD k) hzero
    simp only [BitVec.getLsbD_and, hbit, getLsbD_bit hk, decide_true, Bool.and_self] at hand
    exact absurd hand.symm (by rw [show (0 : BitVec 32) = 0#32 from rfl, BitVec.getLsbD_zero]; exact Bool.false_ne_true)

namespace LoggyMcLogFace

variable {V : Type} {logger : LoggyMcLogFace V} {t_num_values : ℤ} {t_values : ℕ → V} {t_str : ℕ → Byte} {pos : ℤ}

/-! ## The code's tests

They come in an order, and the first that fails gives the error. The same order is in
`offence`. -/

/-- The bit of a letter is set when it has an interpreter. -/
theorem defined_iff {fn : Byte} (h : Letter fn) :
    logger.m_valid_functions &&& (0x01 <<< (letterIndex fn).toNat) ≠ 0 ↔ logger.Defined fn := by
  have hslot : slot fn < 32 := by
    obtain ⟨-, hhi⟩ := h
    unfold slot
    omega
  rw [toNat_letterIndex h, and_bit_ne_zero _ hslot, Defined]

/-- The tests that a directive goes through find what is wrong with it. -/
theorem tests_eq {α : Type} (fn : Byte) (k : ℕ) (error : ℤ → α) (ok : α) :
    (if letterIndex fn < 0 ∨ letterIndex fn > 25 then error NOT_VALID_FUNCTION_VAR
      else if logger.m_valid_functions &&& (0x01 <<< (letterIndex fn).toNat) ≠ 0 then
        if (k : ℤ) + 1 > t_num_values then error MORE_VALUES_THEN_FUNCTION_CALLS else ok
      else error FUNCTION_NEVER_DEFINED)
      = match logger.offence t_num_values k fn with
        | some e => error e
        | none => ok := by
  unfold offence
  by_cases hletter : Letter fn
  · rw [if_neg (mt (letterIndex_iff fn).mp (not_not.mpr hletter)), if_neg (not_not.mpr hletter)]
    by_cases hdef : logger.Defined fn
    · rw [if_pos ((defined_iff hletter).mpr hdef), if_neg (not_not.mpr hdef)]
      by_cases hcount : t_num_values < k + 1
      · rw [if_pos hcount, if_pos hcount]
      · rw [if_neg hcount, if_neg hcount]
    · rw [if_neg (mt (defined_iff hletter).mp hdef), if_pos hdef]
  · rw [if_pos ((letterIndex_iff fn).mpr hletter), if_pos hletter]

/-- Nothing is wrong with a directive that has a letter, an interpreter and a value. -/
theorem offence_eq_none_iff {k : ℕ} {fn : Byte} :
    logger.offence t_num_values k fn = none ↔ Letter fn ∧ logger.Defined fn ∧ (k : ℤ) < t_num_values := by
  unfold offence
  by_cases hletter : Letter fn
  · by_cases hdef : logger.Defined fn
    · by_cases hcount : t_num_values < k + 1
      · simp only [hletter, hdef, hcount, not_true, if_true, if_false, reduceCtorEq, true_and, false_iff]
        omega
      · simp only [hletter, hdef, hcount, not_true, if_false, true_and, true_iff]
        omega
    · simp [hletter, hdef]
  · simp [hletter]

/-- The NUL is no letter. -/
theorem offence_zero (k : ℕ) : logger.offence t_num_values k 0 = some NOT_VALID_FUNCTION_VAR := by
  rw [offence, if_pos (by decide)]

variable (logger t_num_values t_values pos) in
/-- What the pieces write is their expansion, or something that is sought back over. -/
theorem follow_spec (ps : List Piece) : ∀ (k : ℕ) (m_file : OutFile),
    (∀ n, logger.outcome t_num_values k ps = .ok n →
        logger.follow t_num_values t_values pos k ps m_file = (m_file.put (logger.expansion t_values k ps), .ok (n : ℤ)))
      ∧ ∀ e, logger.outcome t_num_values k ps = .error e →
        ∃ out, logger.follow t_num_values t_values pos k ps m_file = ((m_file.put out).seekp pos, .error e) := by
  -- by the pieces; what is written before an error stays in the bytes behind the position
  induction ps with
  | nil =>
      intro k m_file
      refine ⟨fun n hn => ?_, fun e he => by cases he⟩
      cases hn
      rw [follow, expansion, OutFile.put_nil]
  | cons p ps ih =>
      intro k m_file
      cases p with
      | plain c =>
          obtain ⟨hok, herror⟩ := ih k (m_file.put [c])
          rw [outcome, follow, expansion]
          refine ⟨fun n hn => ?_, fun e he => ?_⟩
          · rw [hok n hn, OutFile.put_put, List.singleton_append]
          · obtain ⟨out, hout⟩ := herror e he
            exact ⟨[c] ++ out, by rw [hout, OutFile.put_put]⟩
      | directive fn =>
          rw [outcome, follow, expansion]
          cases hoffence : logger.offence t_num_values k fn with
          | some e =>
              refine ⟨fun n hn => (by cases hn), fun e' he => ⟨[], ?_⟩⟩
              cases he
              rw [OutFile.put_nil]
          | none =>
              obtain ⟨hok, herror⟩ := ih (k + 1) (m_file.put (logger.m_functions (slot fn) (t_values k)))
              refine ⟨fun n hn => ?_, fun e he => ?_⟩
              · rw [hok n hn, OutFile.put_put]
              · obtain ⟨out, hout⟩ := herror e he
                exact ⟨_, by rw [hout, OutFile.put_put]⟩

/-! ## The loop

One lemma for each kind of round: the NUL, a character that is copied, a directive, and the
reads of each. -/

/-- Nothing is looked at behind a directive that something is wrong with. -/
theorem extent_of_offence {k : ℕ} {fn : Byte} {e : ℤ} (h : logger.offence t_num_values k fn = some e) (ps : List Piece) :
    logger.extent t_num_values k (.directive fn :: ps) = 3 := by
  rw [extent, h]

/-- Behind one that nothing is wrong with it goes on. -/
theorem extent_of_none {k : ℕ} {fn : Byte} (h : logger.offence t_num_values k fn = none) (ps : List Piece) :
    logger.extent t_num_values k (.directive fn :: ps) = logger.extent t_num_values (k + 1) ps + 3 := by
  rw [extent, h]

/-- Something is always left to be looked at. -/
theorem extent_pos (k : ℕ) (ps : List Piece) : 0 < logger.extent t_num_values k ps := by
  cases ps with
  | nil => exact Nat.one_pos
  | cons p ps =>
      cases p with
      | plain c => exact Nat.succ_pos _
      | directive fn =>
          rw [extent]
          split
          · exact Nat.succ_pos 2
          · exact Nat.succ_pos _

section

variable {α : Type} {index : ℕ} {f : Byte → Recorded (LogAccess V) (Option α)} {P : LogAccess V → Prop}

/-- What comes of a read depends on whether `index` reaches the byte. -/
theorem result_at (hindex : index < 2 ^ 31) : (log.at t_str index f).result = (f (t_str index)).result := by
  rw [log.at, if_pos hindex]
  rfl

theorem result_at_overflow (hindex : 2 ^ 31 ≤ index) : (log.at t_str index f).result = none := by
  rw [log.at, if_neg (by omega)]
  rfl

theorem all_at (hread : P (.t_str index)) (hf : (f (t_str index)).All P) : (log.at t_str index f).All P := by
  unfold log.at
  split
  · exact (all_note.mpr hread).bind hf
  · exact all_pure _ _

end

section

variable {s : CStr} {index k fuel : ℕ} {m_file : OutFile}

/-- The memory from the index on. -/
theorem LiesIn.byte (hs : LiesIn s t_str) {l : List Byte} (hdrop : s.val.drop index = l) (hindex : index ≤ s.val.length)
    (i : ℕ) (hi : i ≤ l.length) : t_str (index + i) = l.getD i 0 := by
  have hlen : l.length = s.val.length - index := by
    rw [← hdrop, List.length_drop]
  rw [hs (index + i) (by omega), ← hdrop, List.getD_eq_getElem?_getD, List.getD_eq_getElem?_getD, List.getElem?_drop]

/-- At the NUL. -/
theorem loop_nul (hzero : t_str index = 0) (hindex : index < 2 ^ 31) :
    (log.loop logger t_num_values t_str t_values pos (fuel + 1) index k m_file).result = some (m_file, .ok (k : ℤ)) := by
  rw [log.loop, result_at hindex, if_pos hzero]
  rfl

/-- At a character that is copied. -/
theorem loop_plain (hc : t_str index ≠ 0) (hindex : index < 2 ^ 31)
    (hnext : t_str index = 0x2F → index + 1 < 2 ^ 31 ∧ t_str (index + 1) ≠ 0x25) :
    (log.loop logger t_num_values t_str t_values pos (fuel + 1) index k m_file).result
      = (log.loop logger t_num_values t_str t_values pos fuel (index + 1) k (m_file.put [t_str index])).result := by
  rw [log.loop, result_at hindex, if_neg hc]
  by_cases hslash : t_str index = 0x2F
  · obtain ⟨hindex', hnext⟩ := hnext hslash
    rw [if_pos hslash, result_at hindex', if_neg hnext]
  · rw [if_neg hslash]

/-- What is read at the NUL, ... -/
theorem all_loop_nul {P : LogAccess V → Prop} (hzero : t_str index = 0) (hread : P (.t_str index)) :
    (log.loop logger t_num_values t_str t_values pos (fuel + 1) index k m_file).All P := by
  rw [log.loop]
  refine all_at hread ?_
  rw [if_pos hzero]
  exact all_pure _ _

/-- ... at a character that is copied, ... -/
theorem all_loop_plain {P : LogAccess V → Prop} (hc : t_str index ≠ 0) (hnext : t_str index = 0x2F → t_str (index + 1) ≠ 0x25)
    (hread : P (.t_str index)) (hread' : P (.t_str (index + 1)))
    (hrest : (log.loop logger t_num_values t_str t_values pos fuel (index + 1) k (m_file.put [t_str index])).All P) :
    (log.loop logger t_num_values t_str t_values pos (fuel + 1) index k m_file).All P := by
  rw [log.loop]
  refine all_at hread ?_
  rw [if_neg hc]
  by_cases hslash : t_str index = 0x2F
  · rw [if_pos hslash]
    refine all_at hread' ?_
    rw [if_neg (hnext hslash)]
    exact hrest
  · rw [if_neg hslash]
    exact hrest

/-- ... and at a directive. -/
theorem all_loop_directive {P : LogAccess V → Prop} (hslash : t_str index = 0x2F) (hpercent : t_str (index + 1) = 0x25)
    (hread : ∀ i ≤ 2, P (.t_str (index + i)))
    (hrest : logger.offence t_num_values k (t_str (index + 2)) = none →
      P (.t_values k) ∧ P (.call (slot (t_str (index + 2))) (logger.m_functions (slot (t_str (index + 2)))) (t_values k))
        ∧ (log.loop logger t_num_values t_str t_values pos fuel (index + 3) (k + 1 : ℕ)
          (m_file.put (logger.m_functions (slot (t_str (index + 2))) (t_values k)))).All P) :
    (log.loop logger t_num_values t_str t_values pos (fuel + 1) index k m_file).All P := by
  have hne : t_str index ≠ 0 := by
    rw [hslash]
    decide
  rw [log.loop]
  refine all_at (hread 0 (Nat.zero_le 2)) ?_
  rw [if_neg hne, if_pos hslash]
  refine all_at (hread 1 (Nat.le_succ 1)) ?_
  rw [if_pos hpercent]
  refine all_at (hread 2 le_rfl) ?_
  rw [tests_eq (t_str (index + 2)) k fun e =>
    (pure (some (m_file.seekp pos, Except.error e)) : Recorded (LogAccess V) (Option (OutFile × Except ℤ ℤ)))]
  -- an offence returns before the value is read
  cases hoffence : logger.offence t_num_values k (t_str (index + 2)) with
  | some e => exact all_pure _ _
  | none =>
      have hletter := (offence_eq_none_iff.mp hoffence).1
      obtain ⟨hvalue, hcall, hrest⟩ := hrest hoffence
      simp only [all_bind, all_note, toNat_letterIndex hletter, Int.add_sub_cancel, Int.toNat_natCast]
      exact ⟨hvalue, hcall, hrest⟩

/-- At a directive. -/
theorem loop_directive (hslash : t_str index = 0x2F) (hpercent : t_str (index + 1) = 0x25) (hindex : index + 2 < 2 ^ 31) :
    (log.loop logger t_num_values t_str t_values pos (fuel + 1) index k m_file).result
      = match logger.offence t_num_values k (t_str (index + 2)) with
        | some e => some (m_file.seekp pos, .error e)
        | none => (log.loop logger t_num_values t_str t_values pos fuel (index + 3) (k + 1 : ℕ)
            (m_file.put (logger.m_functions (slot (t_str (index + 2))) (t_values k)))).result := by
  have hne : t_str index ≠ 0 := by
    rw [hslash]
    decide
  rw [log.loop, result_at (by omega), if_neg hne, if_pos hslash, result_at (by omega), if_pos hpercent, result_at hindex,
    tests_eq (t_str (index + 2)) k fun e =>
      (pure (some (m_file.seekp pos, Except.error e)) : Recorded (LogAccess V) (Option (OutFile × Except ℤ ℤ)))]
  cases hoffence : logger.offence t_num_values k (t_str (index + 2)) with
  | some e => rfl
  | none =>
      have hletter := (offence_eq_none_iff.mp hoffence).1
      simp only [result_bind, toNat_letterIndex hletter, Int.add_sub_cancel, Int.toNat_natCast]
      rfl

/-- A directive whose letter it does not reach. -/
theorem loop_directive_overflow (hslash : t_str index = 0x2F) (hpercent : t_str (index + 1) = 0x25)
    (hindex : 2 ^ 31 ≤ index + 2) :
    (log.loop logger t_num_values t_str t_values pos (fuel + 1) index k m_file).result = none := by
  have hne : t_str index ≠ 0 := by
    rw [hslash]
    decide
  rw [log.loop]
  by_cases hfirst : index < 2 ^ 31
  · rw [result_at hfirst, if_neg hne, if_pos hslash]
    by_cases hsecond : index + 1 < 2 ^ 31
    · rw [result_at hsecond, if_pos hpercent, result_at_overflow hindex]
    · rw [result_at_overflow (not_lt.mp hsecond)]
  · rw [result_at_overflow (not_lt.mp hfirst)]

/-! ## A whole format

By induction on the reading of the format, since each round takes one piece. -/

section

variable {c fn : Byte} {l : List Byte}

/-- What is left of a string does not begin with a NUL. -/
theorem ne_zero_of_drop (hdrop : s.val.drop index = c :: l) : c ≠ 0 := by
  rintro rfl
  refine s.property (List.mem_of_mem_drop (i := index) ?_)
  rw [hdrop]
  exact List.mem_cons_self

/-- Behind a character. -/
theorem drop_succ (hdrop : s.val.drop index = c :: l) : s.val.drop (index + 1) = l ∧ index + 1 ≤ s.val.length := by
  have hlen := congrArg List.length hdrop
  rw [List.length_drop, List.length_cons] at hlen
  refine ⟨?_, by omega⟩
  rw [← List.drop_drop, hdrop]
  rfl

/-- The bytes of a directive. -/
theorem LiesIn.directive (hs : LiesIn s t_str) (hdrop : s.val.drop index = 0x2F :: 0x25 :: fn :: l) (hindex : index ≤ s.val.length) :
    (t_str index = 0x2F ∧ t_str (index + 1) = 0x25 ∧ t_str (index + 2) = fn)
      ∧ s.val.drop (index + 3) = l ∧ index + 3 ≤ s.val.length := by
  have hslash : t_str index = 0x2F := hs.byte hdrop hindex 0 (Nat.zero_le _)
  have hpercent : t_str (index + 1) = 0x25 := hs.byte hdrop hindex 1 (by simp only [List.length_cons]; omega)
  have hfn : t_str (index + 2) = fn := hs.byte hdrop hindex 2 (by simp only [List.length_cons]; omega)
  obtain ⟨hdrop₁, -⟩ := drop_succ hdrop
  obtain ⟨hdrop₂, -⟩ := drop_succ hdrop₁
  exact ⟨⟨hslash, hpercent, hfn⟩, drop_succ hdrop₂⟩

/-- The bytes of one whose letter is the NUL. -/
theorem LiesIn.atEnd (hs : LiesIn s t_str) (hdrop : s.val.drop index = [0x2F, 0x25]) (hindex : index ≤ s.val.length) :
    (t_str index = 0x2F ∧ t_str (index + 1) = 0x25 ∧ t_str (index + 2) = 0) ∧ index + 2 ≤ s.val.length := by
  have hslash : t_str index = 0x2F := hs.byte hdrop hindex 0 (Nat.zero_le _)
  have hpercent : t_str (index + 1) = 0x25 := hs.byte hdrop hindex 1 (Nat.le_succ 1)
  have hnul : t_str (index + 2) = 0 := hs.byte hdrop hindex 2 le_rfl
  obtain ⟨hdrop₁, -⟩ := drop_succ hdrop
  exact ⟨⟨hslash, hpercent, hnul⟩, (drop_succ hdrop₁).2⟩

/-- A character of the string is no NUL. -/
theorem LiesIn.character (hs : LiesIn s t_str) (hdrop : s.val.drop index = c :: l) (hindex : index ≤ s.val.length) :
    t_str index = c ∧ t_str index ≠ 0 := by
  have hc : t_str index = c := hs.byte hdrop hindex 0 (Nat.zero_le _)
  refine ⟨hc, ?_⟩
  rw [hc]
  exact ne_zero_of_drop hdrop

/-- The byte behind a character that is copied does not make it a directive. -/
theorem LiesIn.not_percent (hs : LiesIn s t_str) (hdrop : s.val.drop index = c :: l) (hindex : index ≤ s.val.length)
    (hplain : ∀ rest, c :: l ≠ 0x2F :: 0x25 :: rest) (hslash : t_str index = 0x2F) : t_str (index + 1) ≠ 0x25 := by
  have hfirst := (hs.character hdrop hindex).1
  have hsecond := hs.byte hdrop hindex 1 (Nat.succ_le_succ (Nat.zero_le _))
  rw [hsecond]
  cases l with
  | nil => exact (by decide : (0 : Byte) ≠ 0x25)
  | cons c' l =>
      rintro rfl
      exact hplain l (by rw [← hfirst, hslash])

end

variable (logger t_num_values t_values pos) in
/-- **The loop** stays inside the string and the values, and does what the pieces ask for if
its index can reach what it looks for. -/
theorem loop_spec {s : CStr} (hs : LiesIn s t_str) {l : List Byte} {ps : List Piece} (h : Parses l ps) :
    ∀ {index k fuel : ℕ} {m_file : OutFile}, s.val.drop index = l → index ≤ s.val.length → l.length < fuel →
      (log.loop logger t_num_values t_str t_values pos fuel index k m_file).All (LogAccess.Inside t_num_values s.val.length)
        ∧ (index + logger.extent t_num_values k ps ≤ 2 ^ 31 →
          (log.loop logger t_num_values t_str t_values pos fuel index k m_file).result
            = some (logger.follow t_num_values t_values pos k ps m_file)) := by
  -- by the pieces; each round is the one that its piece asks for
  induction h with
  | nil =>
      intro index k fuel m_file hdrop hindex hfuel
      obtain ⟨fuel, rfl⟩ := Nat.exists_eq_succ_of_ne_zero (Nat.ne_of_gt hfuel)
      have hzero : t_str index = 0 := hs.byte hdrop hindex 0 le_rfl
      refine ⟨all_loop_nul hzero hindex, fun hextent => ?_⟩
      rw [extent] at hextent
      exact loop_nul hzero (by omega)
  | @directive fn l ps h ih =>
      intro index k fuel m_file hdrop hindex hfuel
      obtain ⟨fuel, rfl⟩ := Nat.exists_eq_succ_of_ne_zero (Nat.ne_of_gt (Nat.lt_of_le_of_lt (Nat.zero_le _) hfuel))
      obtain ⟨⟨hslash, hpercent, hfn⟩, hdrop₃, hindex₃⟩ := hs.directive hdrop hindex
      have hrest := fun m_file' => @ih _ (k + 1) fuel m_file' hdrop₃ hindex₃ (by
        simp only [List.length_cons] at hfuel
        omega)
      constructor
      · refine all_loop_directive hslash hpercent (fun i hi => ?_) fun hoffence => ⟨?_, trivial, (hrest _).1⟩
        · show index + i ≤ s.val.length
          omega
        · have hcount := (offence_eq_none_iff.mp hoffence).2.2
          exact ⟨Int.natCast_nonneg k, hcount⟩
      · intro hextent
        rw [follow]
        cases hoffence : logger.offence t_num_values k fn with
        | some e =>
            rw [extent_of_offence hoffence] at hextent
            rw [loop_directive hslash hpercent (by omega), hfn, hoffence]
        | none =>
            rw [extent_of_none hoffence] at hextent
            rw [loop_directive hslash hpercent (by omega), hfn, hoffence]
            exact (hrest _).2 (by omega)
  | atEnd =>
      intro index k fuel m_file hdrop hindex hfuel
      obtain ⟨fuel, rfl⟩ := Nat.exists_eq_succ_of_ne_zero (Nat.ne_of_gt (Nat.lt_of_le_of_lt (Nat.zero_le _) hfuel))
      obtain ⟨⟨hslash, hpercent, hnul⟩, hindex₂⟩ := hs.atEnd hdrop hindex
      constructor
      · refine all_loop_directive hslash hpercent (fun i hi => ?_) fun hoffence => ?_
        · show index + i ≤ s.val.length
          omega
        · rw [hnul, offence_zero] at hoffence
          cases hoffence
      · intro hextent
        rw [extent_of_offence (offence_zero k)] at hextent
        rw [loop_directive hslash hpercent (by omega), hnul, follow, offence_zero]
  | @plain c l ps hplain h ih =>
      intro index k fuel m_file hdrop hindex hfuel
      obtain ⟨fuel, rfl⟩ := Nat.exists_eq_succ_of_ne_zero (Nat.ne_of_gt (Nat.lt_of_le_of_lt (Nat.zero_le _) hfuel))
      obtain ⟨hc, hne⟩ := hs.character hdrop hindex
      have hnext := hs.not_percent hdrop hindex hplain
      obtain ⟨hdrop₁, hindex₁⟩ := drop_succ hdrop
      obtain ⟨hall, hrest⟩ := @ih _ k fuel (m_file.put [t_str index]) hdrop₁ hindex₁
        (Nat.lt_of_succ_lt_succ hfuel)
      refine ⟨all_loop_plain hne hnext hindex hindex₁ hall, fun hextent => ?_⟩
      rw [extent] at hextent
      have hpos : 0 < logger.extent t_num_values k ps := extent_pos k ps
      rw [loop_plain hne (by omega) fun hslash => ⟨by omega, hnext hslash⟩, hrest (by omega), follow, hc]

variable (logger t_num_values t_values pos) in
/-- An index that cannot reach it overflows. -/
theorem loop_overflow {s : CStr} (hs : LiesIn s t_str) {l : List Byte} {ps : List Piece} (h : Parses l ps) :
    ∀ {index k : ℕ} (fuel : ℕ) (m_file : OutFile), s.val.drop index = l → index ≤ s.val.length →
      2 ^ 31 < index + logger.extent t_num_values k ps →
      (log.loop logger t_num_values t_str t_values pos fuel index k m_file).result = none := by
  -- by the pieces: sooner or later the index has to go where it cannot
  induction h with
  | nil =>
      intro index k fuel m_file hdrop hindex hextent
      cases fuel with
      | zero => rfl
      | succ fuel =>
          rw [extent] at hextent
          rw [log.loop, result_at_overflow (by omega)]
  | @directive fn l ps h ih =>
      intro index k fuel m_file hdrop hindex hextent
      cases fuel with
      | zero => rfl
      | succ fuel =>
          obtain ⟨⟨hslash, hpercent, hfn⟩, hdrop₃, hindex₃⟩ := hs.directive hdrop hindex
          by_cases hreach : index + 2 < 2 ^ 31
          · -- the letter can be read, so what cannot be reached comes behind it
            rw [loop_directive hslash hpercent hreach, hfn]
            cases hoffence : logger.offence t_num_values k fn with
            | some e =>
                rw [extent_of_offence hoffence] at hextent
                omega
            | none =>
                rw [extent_of_none hoffence] at hextent
                exact ih fuel _ hdrop₃ hindex₃ (by omega)
          · exact loop_directive_overflow hslash hpercent (not_lt.mp hreach)
  | atEnd =>
      intro index k fuel m_file hdrop hindex hextent
      cases fuel with
      | zero => rfl
      | succ fuel =>
          obtain ⟨⟨hslash, hpercent, -⟩, -⟩ := hs.atEnd hdrop hindex
          rw [extent_of_offence (offence_zero k)] at hextent
          exact loop_directive_overflow hslash hpercent (by omega)
  | @plain c l ps hplain h ih =>
      intro index k fuel m_file hdrop hindex hextent
      cases fuel with
      | zero => rfl
      | succ fuel =>
          have hne := (hs.character hdrop hindex).2
          obtain ⟨hdrop₁, hindex₁⟩ := drop_succ hdrop
          rw [extent] at hextent
          by_cases hfirst : index < 2 ^ 31
          · by_cases hnext : t_str index = 0x2F → index + 1 < 2 ^ 31
            · rw [loop_plain hne hfirst fun hslash => ⟨hnext hslash, hs.not_percent hdrop hindex hplain hslash⟩]
              exact ih fuel _ hdrop₁ hindex₁ (by omega)
            · obtain ⟨hslash, hover⟩ := Classical.not_imp.mp hnext
              rw [log.loop, result_at hfirst, if_neg hne, if_pos hslash, result_at_overflow (not_lt.mp hover)]
          · rw [log.loop, result_at_overflow (not_lt.mp hfirst)]

end

/-! ## A call

Around the loop there are the stamp before, and after it the line's end or the seek back. -/

/-- The errors are none of them 0. -/
theorem offence_ne_zero {k : ℕ} {fn : Byte} {e : ℤ} (h : logger.offence t_num_values k fn = some e) : e ≠ 0 := by
  unfold offence at h
  split at h
  · cases h
    decide
  · split at h
    · cases h
      decide
    · split at h
      · cases h
        decide
      · cases h

variable (logger t_num_values) in
/-- Either something is wrong with one of the directives, or they are counted. -/
theorem outcome_cases (ps : List Piece) : ∀ k : ℕ,
    (∃ e, e ≠ 0 ∧ logger.outcome t_num_values k ps = .error e
        ∧ ¬ ((∀ fn ∈ letters ps, Letter fn ∧ logger.Defined fn) ∧ (k : ℤ) + (letters ps).length ≤ t_num_values))
      ∨ logger.outcome t_num_values k ps = .ok (k + (letters ps).length)
        ∧ ∀ fn ∈ letters ps, Letter fn ∧ logger.Defined fn := by
  -- by the pieces: something is wrong with the first directive, or with a later one, or with none
  induction ps with
  | nil => exact fun k => .inr ⟨rfl, fun fn hnil => absurd hnil List.not_mem_nil⟩
  | cons p ps ih =>
      intro k
      cases p with
      | plain c => exact ih k
      | directive fn =>
          have hletters : letters (.directive fn :: ps) = fn :: letters ps := rfl
          rw [hletters, outcome, List.forall_mem_cons, List.length_cons]
          cases hoffence : logger.offence t_num_values k fn with
          | some e =>
              refine .inl ⟨e, offence_ne_zero hoffence, rfl, fun hall => ?_⟩
              obtain ⟨⟨⟨hletter, hdef⟩, -⟩, hcount⟩ := hall
              have hnone : logger.offence t_num_values k fn = none :=
                offence_eq_none_iff.mpr ⟨hletter, hdef, by push_cast at hcount; omega⟩
              rw [hnone] at hoffence
              cases hoffence
          | none =>
              obtain ⟨hletter, hdef, -⟩ := offence_eq_none_iff.mp hoffence
              rcases ih (k + 1) with ⟨e, hne, herror, hnot⟩ | ⟨hok, hall⟩
              · refine .inl ⟨e, hne, herror, fun hall => hnot ⟨hall.1.2, ?_⟩⟩
                have hcount := hall.2
                push_cast at hcount ⊢
                omega
              · refine .inr ⟨?_, ⟨hletter, hdef⟩, hall⟩
                rw [hok, Nat.add_assoc, Nat.add_comm 1]

/-- The answer is 0 when nothing is wrong and the count is right. -/
theorem answer_eq_zero_iff (ps : List Piece) : logger.answer t_num_values ps = 0
    ↔ (∀ fn ∈ letters ps, Letter fn ∧ logger.Defined fn) ∧ t_num_values = (letters ps).length := by
  unfold answer
  rcases outcome_cases logger t_num_values ps 0 with ⟨e, hne, herror, hnot⟩ | ⟨hok, hall⟩
  · rw [herror]
    refine iff_of_false hne fun h => hnot ⟨h.1, ?_⟩
    rw [h.2]
    omega
  · rw [hok, Nat.zero_add]
    dsimp only
    split
    · next heq => exact iff_of_true rfl ⟨hall, heq⟩
    · next hne => exact iff_of_false (by decide) fun h => hne h.2

/-- `log` with this format returns. It returns 0 exactly when all directives have a letter and
an interpreter and there are as many as values, and then has written the line; else it
returns what the first directive that something is wrong with asks for, or -8; and it has
read no byte behind the NUL, and no entry that is not one of the values. -/
structure Returns (logger : LoggyMcLogFace V) (t_num_values : ℤ) (t_struct : tm) (t_str : ℕ → Byte) (t_values : ℕ → V)
    (length : ℕ) (ps : List Piece) (fuel : ℕ) (m_file : OutFile) : Prop where
  code : (logger.log t_num_values t_struct t_str t_values fuel).result
    = some ({ logger with m_file := m_file }, logger.answer t_num_values ps)
  zero : logger.answer t_num_values ps = 0
    ↔ (∀ fn ∈ letters ps, Letter fn ∧ logger.Defined fn) ∧ t_num_values = (letters ps).length
  line : logger.answer t_num_values ps = 0 →
    m_file = logger.m_file.put (t_struct.stamp ++ logger.expansion t_values 0 ps ++ text "\n")
  inside : (logger.log t_num_values t_struct t_str t_values fuel).All (LogAccess.Inside t_num_values length)

/-- After the loop nothing is read. -/
theorem all_log {P : LogAccess V → Prop} {t_struct : tm} {fuel : ℕ}
    (hloop : (log.loop logger t_num_values t_str t_values (toInt32 logger.m_file.tellp) fuel 0 0
      (logger.m_file.put t_struct.stamp)).All P) : (logger.log t_num_values t_struct t_str t_values fuel).All P := by
  unfold log
  split
  · refine hloop.bind ?_
    split
    · exact all_pure _ _
    · split
      · exact all_pure _ _
      · exact all_pure _ _
    · exact all_pure _ _
  · exact all_pure _ _

variable (t_num_values t_values) in
/-- **One call** on a ready logger answers as the pieces ask, if its index can reach what it
looks for. It has written its line, or something that it has sought back over. -/
theorem log_spec (hready : logger.m_valid_functions &&& LOG_READY ≠ 0) {s : CStr} (hs : LiesIn s t_str) {ps : List Piece}
    (hps : Parses s.val ps) (t_struct : tm) {fuel : ℕ} (hfuel : s.val.length < fuel)
    (hextent : logger.extent t_num_values 0 ps ≤ 2 ^ 31) :
    (logger.log t_num_values t_struct t_str t_values fuel).All (LogAccess.Inside t_num_values s.val.length)
      ∧ ∃ m_file, (logger.log t_num_values t_struct t_str t_values fuel).result
          = some ({ logger with m_file := m_file }, logger.answer t_num_values ps)
        ∧ (logger.answer t_num_values ps = 0 →
          m_file = logger.m_file.put (t_struct.stamp ++ logger.expansion t_values 0 ps ++ text "\n"))
        ∧ (logger.answer t_num_values ps ≠ 0 →
          ∃ out, m_file = (logger.m_file.put (t_struct.stamp ++ out)).seekp (toInt32 logger.m_file.tellp)) := by
  obtain ⟨hall, hresult⟩ := @loop_spec V logger t_num_values t_values t_str (toInt32 logger.m_file.tellp) s hs _ _ hps
    0 0 fuel (logger.m_file.put t_struct.stamp) List.drop_zero (Nat.zero_le _) hfuel
  have hloop := hresult (by omega)
  obtain ⟨hok, herror⟩ := follow_spec logger t_num_values t_values (toInt32 logger.m_file.tellp) ps 0
    (logger.m_file.put t_struct.stamp)
  rw [Nat.cast_zero] at hall hloop
  refine ⟨all_log hall, ?_⟩
  unfold log answer
  rw [if_pos hready]
  simp only [result_bind, hloop]
  -- an error seeks back, and a count that is not the number of values does so, too
  cases houtcome : logger.outcome t_num_values 0 ps with
  | error e =>
      obtain ⟨out, hout⟩ := herror e houtcome
      have hne : e ≠ 0 := by
        rcases outcome_cases logger t_num_values ps 0 with ⟨e', hne, herror', -⟩ | ⟨hok', -⟩
        · rw [houtcome] at herror'
          cases herror'
          exact hne
        · rw [houtcome] at hok'
          cases hok'
      rw [hout]
      exact ⟨_, rfl, fun hzero => absurd hzero hne, fun _ => ⟨out, by rw [OutFile.put_put]⟩⟩
  | ok n =>
      rw [hok n houtcome]
      dsimp only
      by_cases heq : t_num_values = n
      · rw [if_neg (not_not.mpr heq), if_pos heq]
        refine ⟨_, rfl, fun _ => ?_, fun hne => absurd rfl hne⟩
        rw [OutFile.put_put, OutFile.put_put, List.append_assoc]
      · rw [if_pos heq, if_neg heq]
        have herror : LESS_VALUES_THEN_FUNCTION_CALLS ≠ 0 := by decide
        exact ⟨_, rfl, fun hzero => absurd hzero herror, fun _ => ⟨_, by rw [OutFile.put_put]⟩⟩

variable (t_num_values t_values) in
/-- Beyond `int32_t` it does not come to an end. -/
theorem log_overflow (hready : logger.m_valid_functions &&& LOG_READY ≠ 0) {s : CStr} (hs : LiesIn s t_str) {ps : List Piece}
    (hps : Parses s.val ps) (t_struct : tm) (fuel : ℕ) (hextent : 2 ^ 31 < logger.extent t_num_values 0 ps) :
    (logger.log t_num_values t_struct t_str t_values fuel).result = none := by
  have hloop := loop_overflow logger t_num_values t_values (toInt32 logger.m_file.tellp) hs hps (k := 0) fuel
    (logger.m_file.put t_struct.stamp) List.drop_zero (Nat.zero_le _) (by omega)
  rw [Nat.cast_zero] at hloop
  rw [log, if_pos hready]
  simp only [result_bind, hloop]
  rfl

/-- **The format language.** Whatever lies behind the format in the memory, `log` with a ready
logger answers its pieces as they ask, and reads no more than it should, exactly when they
end, or the first of them that something is wrong with does, in the first 2³¹ bytes. -/
theorem log_returns_iff (hready : logger.m_valid_functions &&& LOG_READY ≠ 0) {s : CStr} (hs : LiesIn s t_str)
    {ps : List Piece} (hps : Parses s.val ps) (t_struct : tm) (t_values : ℕ → V) (t_num_values : ℤ) :
    (∃ fuel m_file, Returns logger t_num_values t_struct t_str t_values s.val.length ps fuel m_file)
      ↔ logger.extent t_num_values 0 ps ≤ 2 ^ 31 := by
  constructor
  · rintro ⟨fuel, m_file, hreturns⟩
    by_contra hextent
    have hcode := hreturns.code
    rw [log_overflow t_num_values t_values hready hs hps t_struct fuel (not_le.mp hextent)] at hcode
    cases hcode
  · intro hextent
    obtain ⟨hall, m_file, hcode, hline, -⟩ := log_spec t_num_values t_values hready hs hps t_struct (Nat.lt_succ_self _) hextent
    exact ⟨_, m_file, hcode, answer_eq_zero_iff ps, hline, hall⟩

/-- The logger of the server, with a file of its own. -/
def demo : LoggyMcLogFace (List Byte) where
  m_file := ⟨[], 0, false⟩
  m_valid_functions := 0x80000003
  m_functions := fun _ value => value

/-- `"to//%a"`. -/
def slashed : CStr := ⟨[0x74, 0x6F, 0x2F, 0x2F, 0x25, 0x61], by decide⟩

/-- The first slash is copied. -/
theorem log_returns_slashed : ∃ fuel m_file, Returns demo 1 ⟨9, 5, 0⟩ (fun i => slashed.val.getD i 0)
    (fun _ => text "127.0.0.1") slashed.val.length [.plain 0x74, .plain 0x6F, .plain 0x2F, .directive 0x61] fuel m_file := by
  have hps : Parses slashed.val [.plain 0x74, .plain 0x6F, .plain 0x2F, .directive 0x61] :=
    .plain _ (by simp) (.plain _ (by simp) (.plain _ (by simp) (.directive _ .nil)))
  exact (log_returns_iff (by decide) (fun _ _ => rfl) hps ⟨9, 5, 0⟩ _ 1).mpr (by decide +kernel)

/-- A text without directives. -/
def plainText (n : ℕ) : CStr := ⟨List.replicate n 0x78, fun hmem => absurd (List.eq_of_mem_replicate hmem) (by decide)⟩

theorem parses_plainText (n : ℕ) : Parses (plainText n).val (List.replicate n (.plain 0x78)) := by
  induction n with
  | zero => exact .nil
  | succ n ih => exact .plain _ (by simp) ih

/-- All of its characters are looked at, and the NUL. -/
theorem extent_plain (c : Byte) (k n : ℕ) : logger.extent t_num_values k (List.replicate n (.plain c)) = n + 1 := by
  induction n with
  | zero => rfl
  | succ n ih => rw [List.replicate_succ, extent, ih]

/-- A text of 2³¹ characters is too long. -/
theorem not_log_returns : ¬ ∀ (logger : LoggyMcLogFace (List Byte)) (s : CStr) (t_str : ℕ → Byte) (ps : List Piece)
    (t_struct : tm) (t_values : ℕ → List Byte) (t_num_values : ℤ), logger.m_valid_functions &&& LOG_READY ≠ 0 →
    LiesIn s t_str → Parses s.val ps →
    ∃ fuel m_file, Returns logger t_num_values t_struct t_str t_values s.val.length ps fuel m_file := by
  intro hall
  obtain ⟨n, hn⟩ : ∃ n, n = 2 ^ 31 := ⟨_, rfl⟩
  have hs : LiesIn (plainText n) fun i => (plainText n).val.getD i 0 := fun _ _ => rfl
  obtain ⟨fuel, m_file, hreturns⟩ := hall demo (plainText n) _ _ ⟨9, 5, 0⟩ (fun _ => []) 0 (by decide) hs (parses_plainText n)
  have hcode := hreturns.code
  rw [log_overflow 0 _ (by decide) hs (parses_plainText n) _ fuel (by rw [extent_plain]; omega)] at hcode
  cases hcode

end LoggyMcLogFace

end JudoEngine
