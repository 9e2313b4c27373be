/-
Whether the log is atomic.

A call that succeeds adds one line to the end of the file. A call that fails has written the
time stamp by then, and maybe more, and only seeks back over it: the file is longer than
before. So the file consists of whole lines exactly as long as no call fails.
-/
import JudoEngine.LoggyMcLogFace.Format

set_option autoImplicit false

open Words Recorded CString

namespace JudoEngine

namespace LoggyMcLogFace

variable {V : Type} {logger : LoggyMcLogFace V}

/-! ## One call

A call that fits puts its line at the end of the file. Any other writes at least the stamp
before it seeks back, or does not come to an end. -/

/-- The format and the number of values fit each other and the interpreters, and `index` can
walk the format. -/
def Fits (logger : LoggyMcLogFace V) (t_str : CStr) (t_num_values : ℤ) : Prop :=
  (∀ fn ∈ letters (pieces t_str.val), Letter fn ∧ logger.Defined fn)
    ∧ t_num_values = (letters (pieces t_str.val)).length ∧ t_str.val.length < 2 ^ 31

instance (t_str : CStr) (t_num_values : ℤ) : Decidable (logger.Fits t_str t_num_values) :=
  inferInstanceAs (Decidable (_ ∧ _ ∧ _))

/-- The complete line of a call. -/
def line (logger : LoggyMcLogFace V) (t_struct : tm) (t_str : CStr) (t_values : ℕ → V) : List Byte :=
  t_struct.stamp ++ logger.expansion t_values 0 (pieces t_str.val) ++ text "\n"

/-- A stamp has characters. -/
theorem stamp_ne_nil (t_struct : tm) : t_struct.stamp ≠ [] := by
  unfold tm.stamp
  simp [text]

/-- A call of `log`, with the time at which it is made. -/
structure LogCall (V : Type) where
  t_struct : tm
  t_str : CStr
  t_values : ℕ → V
  t_num_values : ℤ

/-- The call on this object, with its format in a memory of its own. -/
def make (logger : LoggyMcLogFace V) (c : LogCall V) : Option (LoggyMcLogFace V × ℤ) :=
  (logger.log c.t_num_values c.t_struct (fun i => c.t_str.val.getD i 0) c.t_values (c.t_str.val.length + 1)).result

variable (logger) in
/-- What `index` has to reach is no more than the format and its NUL, and is that if nothing is
wrong with a directive. -/
theorem extent_le (t_num_values : ℤ) {l : List Byte} {ps : List Piece} (h : Parses l ps) : ∀ k : ℕ,
    logger.extent t_num_values k ps ≤ l.length + 1
      ∧ ∀ n, logger.outcome t_num_values k ps = .ok n → logger.extent t_num_values k ps = l.length + 1 := by
  -- by the pieces of the format: the first offence ends the walk, and without one it goes to the
  -- end
  induction h with
  | nil => exact fun k => ⟨Nat.le_refl 1, fun _ _ => rfl⟩
  | @directive fn l ps h ih =>
      intro k
      rw [outcome, extent]
      cases logger.offence t_num_values k fn with
      | some e => exact ⟨by simp only [List.length_cons]; omega, fun n hn => by cases hn⟩
      | none =>
          obtain ⟨hle, heq⟩ := ih (k + 1)
          simp only [List.length_cons]
          exact ⟨by omega, fun n hn => by rw [heq n hn]⟩
  | atEnd =>
      intro k
      rw [outcome, extent, offence_zero]
      exact ⟨Nat.le_refl 3, fun n hn => by cases hn⟩
  | plain c hplain h ih =>
      intro k
      obtain ⟨hle, heq⟩ := ih k
      rw [outcome, extent, List.length_cons]
      exact ⟨Nat.succ_le_succ hle, fun n hn => by rw [heq n hn]⟩

/-- The answer 0 is one to a count. -/
theorem outcome_of_answer {t_num_values : ℤ} {ps : List Piece} (h : logger.answer t_num_values ps = 0) :
    ∃ n, logger.outcome t_num_values 0 ps = .ok n := by
  rcases outcome_cases logger t_num_values ps 0 with ⟨e, hne, herror, -⟩ | ⟨hok, -⟩
  · rw [answer, herror] at h
    exact absurd h hne
  · exact ⟨_, hok⟩

/-- **One call** writes its line if it fits. If not it does not come to an end, or it returns an
error and has sought back over what it has written. -/
theorem make_cases (hready : logger.m_valid_functions &&& LOG_READY ≠ 0) (c : LogCall V) :
    (logger.Fits c.t_str c.t_num_values
        ∧ logger.make c = some ({ logger with m_file := logger.m_file.put (logger.line c.t_struct c.t_str c.t_values) }, 0))
      ∨ ¬ logger.Fits c.t_str c.t_num_values
        ∧ ((2 ^ 31 ≤ c.t_str.val.length ∧ logger.make c = none)
          ∨ ∃ out e, e ≠ 0 ∧ logger.make c = some ({ logger with
              m_file := (logger.m_file.put (c.t_struct.stamp ++ out)).seekp (toInt32 logger.m_file.tellp) }, e)) := by
  have hlies : LiesIn c.t_str fun i => c.t_str.val.getD i 0 := fun _ _ => rfl
  have hps := parses_pieces c.t_str.val
  obtain ⟨hle, heq⟩ := extent_le logger c.t_num_values hps 0
  have hzero : logger.answer c.t_num_values (pieces c.t_str.val) = 0
      ↔ (∀ fn ∈ letters (pieces c.t_str.val), Letter fn ∧ logger.Defined fn)
        ∧ c.t_num_values = (letters (pieces c.t_str.val)).length := answer_eq_zero_iff _
  -- `index` reaches what it looks for or overflows, and the answer is 0 or an error
  by_cases hextent : logger.extent c.t_num_values 0 (pieces c.t_str.val) ≤ 2 ^ 31
  · obtain ⟨-, m_file, hmake, hline, hback⟩ := log_spec c.t_num_values c.t_values hready hlies hps c.t_struct
      (Nat.lt_succ_self _) hextent
    have hmake' : logger.make c = _ := hmake
    by_cases hanswer : logger.answer c.t_num_values (pieces c.t_str.val) = 0
    · obtain ⟨n, hn⟩ := outcome_of_answer hanswer
      obtain ⟨hletters, hvalues⟩ := hzero.mp hanswer
      rw [heq n hn] at hextent
      exact .inl ⟨⟨hletters, hvalues, by omega⟩, by rw [hmake', hline hanswer, hanswer, line]⟩
    · obtain ⟨out, hout⟩ := hback hanswer
      refine .inr ⟨fun hfits => hanswer (hzero.mpr ⟨hfits.1, hfits.2.1⟩), .inr ⟨out, _, hanswer, ?_⟩⟩
      rw [hmake', hout]
  · have hmake : logger.make c = none :=
      log_overflow c.t_num_values c.t_values hready hlies hps c.t_struct _ (not_le.mp hextent)
    have hlong : 2 ^ 31 ≤ c.t_str.val.length := by omega
    exact .inr ⟨fun hfits => absurd hfits.2.2 (not_lt.mpr hlong), .inl ⟨hlong, hmake⟩⟩

/-- A ready logger, with the file open and the put position at its end. -/
structure Ready (logger : LoggyMcLogFace V) : Prop where
  ready : logger.m_valid_functions &&& LOG_READY ≠ 0
  good : logger.m_file.fail = false
  atEnd : logger.m_file.pos = logger.m_file.bytes.length

/-- The logger after a call that fits. -/
def after (logger : LoggyMcLogFace V) (c : LogCall V) : LoggyMcLogFace V :=
  { logger with m_file := logger.m_file.put (logger.line c.t_struct c.t_str c.t_values) }

/-- It is as ready as it was, and its file has one line more. -/
theorem Ready.after (hready : logger.Ready) (c : LogCall V) : (logger.after c).Ready
    ∧ (logger.after c).m_file.bytes = logger.m_file.bytes ++ logger.line c.t_struct c.t_str c.t_values := by
  unfold LoggyMcLogFace.after
  rw [OutFile.put_atEnd hready.good hready.atEnd]
  exact ⟨⟨hready.ready, hready.good, rfl⟩, rfl⟩

/-- A call that returns an error leaves the file longer than before. -/
theorem Ready.longer (hready : logger.Ready) (t_struct : tm) (out : List Byte) (pos : ℤ) :
    logger.m_file.bytes.length < ((logger.m_file.put (t_struct.stamp ++ out)).seekp pos).bytes.length := by
  have hpos := List.length_pos_iff.mpr (stamp_ne_nil t_struct)
  rw [OutFile.seekp_bytes, OutFile.put_atEnd hready.good hready.atEnd, List.length_append, List.length_append]
  omega

/-! ## Sequences of calls

By induction on the calls, with the file as the first one has left it. -/

/-- The calls, one after the other, and the lines of those that have returned 0. `none`: one of
them does not come to an end. -/
def makeAll : LoggyMcLogFace V → List (LogCall V) → Option (LoggyMcLogFace V × List Byte)
  | logger, [] => some (logger, [])
  | logger, c :: calls => do
      let (logger', code) ← logger.make c
      let (logger'', lines) ← makeAll logger' calls
      some (logger'', (if code = 0 then logger.line c.t_struct c.t_str c.t_values else []) ++ lines)

/-- The first call comes to an end, and then the others do. -/
theorem makeAll_cons {c : LogCall V} {calls : List (LogCall V)} {logger' : LoggyMcLogFace V} {lines : List Byte} :
    logger.makeAll (c :: calls) = some (logger', lines) ↔ ∃ logger₁ code lines', logger.make c = some (logger₁, code)
      ∧ logger₁.makeAll calls = some (logger', lines')
      ∧ lines = (if code = 0 then logger.line c.t_struct c.t_str c.t_values else []) ++ lines' := by
  rw [makeAll]
  constructor
  · intro h
    obtain ⟨⟨logger₁, code⟩, hmake, h⟩ := Option.bind_eq_some_iff.mp h
    obtain ⟨⟨logger₂, lines'⟩, hrest, h⟩ := Option.bind_eq_some_iff.mp h
    cases h
    exact ⟨logger₁, code, lines', hmake, hrest, rfl⟩
  · rintro ⟨logger₁, code, lines', hmake, hrest, rfl⟩
    simp only [hmake, hrest, Option.bind_eq_bind, Option.bind_some]

/-- The calls come to an end, the file holds the complete lines of those that have returned 0,
and no other call has changed its bytes or its put position. -/
structure Atomic (logger : LoggyMcLogFace V) (calls : List (LogCall V)) : Prop where
  bytes : ∃ logger' lines, logger.makeAll calls = some (logger', lines)
    ∧ logger'.m_file.bytes = logger.m_file.bytes ++ lines
  error : ∀ before c after logger₁ lines logger₂ code, calls = before ++ c :: after →
    logger.makeAll before = some (logger₁, lines) → logger₁.make c = some (logger₂, code) → code ≠ 0 →
    logger₂.m_file.bytes = logger₁.m_file.bytes ∧ logger₂.m_file.pos = logger₁.m_file.pos

/-- The first call is atomic exactly when it fits; and then the others are atomic
exactly when they are on the logger that it leaves. -/
theorem atomic_cons (hready : logger.Ready) (c : LogCall V) (calls : List (LogCall V)) :
    logger.Atomic (c :: calls) ↔ logger.Fits c.t_str c.t_num_values ∧ (logger.after c).Atomic calls := by
  -- the first call fits, and the others follow; or it does not, and then it has changed the file
  rcases make_cases hready.ready c with ⟨hfits, hmake⟩ | ⟨hnot, hmake⟩
  · obtain ⟨-, hline⟩ := hready.after c
    have hmake' : logger.make c = some (logger.after c, 0) := hmake
    constructor
    · rintro ⟨⟨logger', lines, hall, hbytes⟩, herror⟩
      obtain ⟨logger₁, code, lines', hfirst, hrest, rfl⟩ := makeAll_cons.mp hall
      cases hmake'.symm.trans hfirst
      refine ⟨hfits, ⟨logger', lines', hrest, ?_⟩, fun before c' after logger₁ lines logger₂ code hcalls hbefore => ?_⟩
      · rw [hbytes, if_pos rfl, hline, List.append_assoc]
      · exact herror (c :: before) c' after logger₁ _ logger₂ code (congrArg (c :: ·) hcalls)
          (makeAll_cons.mpr ⟨_, _, lines, hmake', hbefore, rfl⟩)
    · rintro ⟨-, ⟨logger', lines, hall, hbytes⟩, herror⟩
      refine ⟨⟨logger', _, makeAll_cons.mpr ⟨_, _, lines, hmake', hall, rfl⟩, ?_⟩, ?_⟩
      · rw [hbytes, if_pos rfl, hline, List.append_assoc]
      · intro before c' after logger₁ lines logger₂ code hcalls hbefore hc hne
        cases before with
        | nil =>
            obtain ⟨rfl, -⟩ := List.cons.inj hcalls
            cases hbefore
            cases hmake'.symm.trans hc
            exact absurd rfl hne
        | cons c'' before =>
            obtain ⟨rfl, hrest⟩ := List.cons.inj hcalls
            obtain ⟨logger₃, code', lines', hfirst, hbefore', -⟩ := makeAll_cons.mp hbefore
            cases hmake'.symm.trans hfirst
            exact herror before c' after logger₁ lines' logger₂ code hrest hbefore' hc hne
  · refine iff_of_false ?_ fun h => hnot h.1
    rintro ⟨⟨logger', lines, hall, -⟩, herror⟩
    rcases hmake with ⟨-, hmake⟩ | ⟨out, e, hne, hmake⟩
    · obtain ⟨logger₁, code, lines', hfirst, -⟩ := makeAll_cons.mp hall
      cases hmake.symm.trans hfirst
    · have hsame := (herror [] c calls logger [] _ e rfl rfl hmake hne).1
      exact absurd (congrArg List.length hsame) (Nat.ne_of_gt (hready.longer c.t_struct out _))

/-- **Atomicity.** On a ready logger, whatever its file holds and however long it is, the
log is atomic exactly when the format of every call fits the interpreters and the
number of values, and is shorter than 2³¹ characters. -/
theorem atomic_iff (hready : logger.Ready) (calls : List (LogCall V)) :
    logger.Atomic calls ↔ ∀ c ∈ calls, logger.Fits c.t_str c.t_num_values := by
  induction calls generalizing logger with
  | nil =>
      refine iff_of_true ⟨⟨logger, [], rfl, (List.append_nil _).symm⟩, ?_⟩ fun _ hnil => absurd hnil List.not_mem_nil
      intro before c after logger₁ lines logger₂ code hcalls
      exact absurd hcalls.symm (List.append_ne_nil_of_right_ne_nil before (List.cons_ne_nil c after))
  | cons c calls ih =>
      rw [atomic_cons hready, List.forall_mem_cons, ih (hready.after c).1]
      -- the interpreters are the same
      exact Iff.rfl

/-- A format of the source. -/
def format (s : String) (h : 0 ∉ text s) : CStr := ⟨text s, h⟩

/-- `log("Attempting to connect to /%a", &con, 1)`. -/
def attempt : LogCall (List Byte) :=
  ⟨⟨9, 5, 0⟩, format "Attempting to connect to /%a" (by decide), fun _ => text "127.0.0.1", 1⟩

theorem atomic_attempt : demo.Atomic [attempt, attempt] := (atomic_iff ⟨by decide, rfl, rfl⟩ _).mpr (by decide +kernel)

/-- `log("port /%p", values, 1)`. -/
def port : LogCall (List Byte) := ⟨⟨9, 5, 0⟩, format "port /%p" (by decide), fun _ => [], 1⟩

/-- A letter without an interpreter: what was written before it stays in the file. -/
theorem partial_line : demo.Ready ∧ ¬ demo.Atomic [port]
    ∧ (demo.makeAll [port]).map (fun x => (x.1.m_file.bytes, x.2)) = some (text "[9:5:0]- port ", []) := by
  have hbytes : (demo.makeAll [port]).map (fun x => (x.1.m_file.bytes, x.2)) = some (text "[9:5:0]- port ", []) := by
    decide +kernel
  have hready : demo.Ready := ⟨by decide, rfl, rfl⟩
  refine ⟨hready, fun hatomic => ?_, hbytes⟩
  have hfits := (atomic_iff hready _).mp hatomic port (List.mem_singleton_self _)
  revert hfits
  decide +kernel

end LoggyMcLogFace

end JudoEngine
