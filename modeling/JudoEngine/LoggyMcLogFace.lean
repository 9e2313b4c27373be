/-
`LoggyMcLogFace.cpp`: the event log.

`log` writes a line piece by piece, straight to the file, and only finds out on the
way that the format and the values do not fit. It then seeks back to where the line
began, but what it has written stays in the file until something is written over it.

`OutFile` is what `std::ofstream` does here: the bytes of the file, the put position,
and whether the stream has failed, in which case nothing is written any more.

`log` itself is modelled over the memory that the format lies in, with every byte and every
value that it reads and every interpreter that it calls. Its `index` is an `int32_t`, so it
can only count so far.
-/
import JudoEngine.Lib.CString

set_option autoImplicit false

open Words Recorded

namespace JudoEngine

/-! ## Output files

A file is its bytes and a put position; what is written before the end is written over what is
there. -/

/-- An open output file. -/
structure OutFile where
  bytes : List Byte
  pos : ℕ
  fail : Bool
  deriving DecidableEq

namespace OutFile

/-- One byte is written over what stands at the put position; a gap is filled with zeros. -/
def putc (f : OutFile) (b : Byte) : OutFile :=
  { f with
    bytes := f.bytes.take f.pos ++ List.replicate (f.pos - f.bytes.length) 0 ++ b :: f.bytes.drop (f.pos + 1)
    pos := f.pos + 1 }

/-- `<<`. -/
def put (f : OutFile) (text : List Byte) : OutFile :=
  if f.fail then f else text.foldl putc f

/-- `tellp`. -/
def tellp (f : OutFile) : ℤ := if f.fail then -1 else f.pos

/-- `seekp`; there is no position before the first byte. -/
def seekp (f : OutFile) (pos : ℤ) : OutFile :=
  if f.fail then f
  else if pos < 0 then { f with fail := true }
  else { f with pos := pos.toNat }

@[simp] theorem seekp_bytes (f : OutFile) (pos : ℤ) : (f.seekp pos).bytes = f.bytes := by
  unfold seekp
  split
  · rfl
  · split <;> rfl

@[simp] theorem put_fail (f : OutFile) (text : List Byte) : (f.put text).fail = f.fail := by
  have hfold : ∀ (text : List Byte) (f : OutFile), (text.foldl putc f).fail = f.fail := by
    intro text
    induction text with
    | nil => exact fun _ => rfl
    | cons b text ih =>
        intro f
        rw [List.foldl_cons, ih]
        rfl
  unfold put
  split
  · rfl
  · exact hfold text f

theorem put_nil (f : OutFile) : f.put [] = f := by
  unfold put
  split <;> rfl

/-- Two texts, one after the other. -/
theorem put_put (f : OutFile) (text text' : List Byte) : (f.put text).put text' = f.put (text ++ text') := by
  have hfail := put_fail f text
  by_cases h : f.fail = true
  · simp only [put, h, if_true]
  · have h' : ¬ (f.put text).fail = true := by
      rw [hfail]
      exact h
    rw [put, if_neg h', put, if_neg h, put, if_neg h, List.foldl_append]

/-- At the end of the file, writing appends. -/
theorem put_atEnd {f : OutFile} (hfail : f.fail = false) (hend : f.pos = f.bytes.length) (text : List Byte) :
    f.put text = { f with bytes := f.bytes ++ text, pos := (f.bytes ++ text).length } := by
  have hfold : ∀ (text : List Byte) (f : OutFile), f.pos = f.bytes.length →
      text.foldl putc f = { f with bytes := f.bytes ++ text, pos := (f.bytes ++ text).length } := by
    intro text
    induction text with
    | nil =>
        intro f hend
        rw [List.foldl_nil, List.append_nil, ← hend]
    | cons b text ih =>
        intro f hend
        have hputc : f.putc b = { f with bytes := f.bytes ++ [b], pos := (f.bytes ++ [b]).length } := by
          unfold putc
          rw [hend, Nat.sub_self, List.take_length, List.drop_of_length_le (Nat.le_succ _), List.replicate_zero,
            List.append_nil, List.length_append, List.length_singleton]
        rw [List.foldl_cons, hputc, ih _ rfl]
        simp only [List.append_assoc, List.singleton_append]
  unfold put
  rw [if_neg (by rw [hfail]; exact Bool.false_ne_true)]
  exact hfold text f hend

end OutFile

/-! ## The class

The error codes are those of the source, and so are the two checks of a letter: that it is
one, and that it has an interpreter. -/

/-- The bit of a logger that may be used, and the errors. -/
def LOG_READY : BitVec 32 := 0x80000000
def LOG_NOT_READY_ERROR : ℤ := -4
def NOT_VALID_FUNCTION_VAR : ℤ := -5
def FUNCTION_NEVER_DEFINED : ℤ := -6
def MORE_VALUES_THEN_FUNCTION_CALLS : ℤ := -7
def LESS_VALUES_THEN_FUNCTION_CALLS : ℤ := -8

/-- The fields that `log` uses. An interpreter is what it writes for a value. -/
structure LoggyMcLogFace (V : Type) where
  m_file : OutFile
  m_valid_functions : BitVec 32
  m_functions : ℕ → V → List Byte

/-- The fields of `struct tm` that are printed. -/
structure tm where
  tm_hour : ℤ
  tm_min : ℤ
  tm_sec : ℤ

/-- What `<<` prints. -/
def text (s : String) : List Byte := s.toList.map fun c => BitVec.ofNat 8 c.toNat

/-- `'[' << t_struct->tm_hour << ':' << t_struct->tm_min << ':' << t_struct->tm_sec << "]- "`. -/
def tm.stamp (t_struct : tm) : List Byte :=
  text "[" ++ text (toString t_struct.tm_hour) ++ text ":" ++ text (toString t_struct.tm_min) ++ text ":"
    ++ text (toString t_struct.tm_sec) ++ text "]- "

/-- `fun - 'a'`; a `char` is signed. -/
def letterIndex (fn : Byte) : ℤ := fn.toInt - 0x61

namespace LoggyMcLogFace

variable {V : Type} (logger : LoggyMcLogFace V) (t_num_values : ℤ)

/-! ## `log`

An access is recorded before what is done with it. A read at an index that an `int32_t` does
not reach is none: the increment before it has overflowed, and from then on the source says
nothing. -/

/-- A byte of the format, or an entry of `t_values`, is read, or an interpreter is called. -/
inductive LogAccess (V : Type) where
  | t_str (index : ℕ)
  | t_values (index : ℤ)
  | call (k : ℕ) (function : V → List Byte) (value : V)

/-- The byte is one of the string, or its NUL, and the entry one of the values. -/
def LogAccess.Inside (length : ℕ) : LogAccess V → Prop
  | .t_str index => index ≤ length
  | .t_values index => 0 ≤ index ∧ index < t_num_values
  | .call _ _ _ => True

/-- `t_str[index]`, and what is done with it; beyond `int32_t` the index does not exist. -/
def log.at {α : Type} (t_str : ℕ → Byte) (index : ℕ) (f : Byte → Recorded (LogAccess V) (Option α)) :
    Recorded (LogAccess V) (Option α) :=
  if index < 2 ^ 31 then do
    note (.t_str index)
    f (t_str index)
  else pure none

/-- The `while` loop, for `fuel` rounds at most: the file, and the error or `vars_used`. There
are fewer directives than characters, so `vars_used` does not overflow before `index` does. -/
def log.loop (t_str : ℕ → Byte) (t_values : ℕ → V) (pos : ℤ) :
    (fuel index : ℕ) → (vars_used : ℤ) → OutFile → Recorded (LogAccess V) (Option (OutFile × Except ℤ ℤ))
  | 0, _, _, _ => pure none
  | fuel + 1, index, vars_used, m_file =>
      log.at t_str index fun c =>
        if c = 0 then pure (some (m_file, .ok vars_used))
        else if c = 0x2F then
          log.at t_str (index + 1) fun c' =>
            if c' = 0x25 then
              log.at t_str (index + 2) fun fn =>
                if letterIndex fn < 0 ∨ letterIndex fn > 25 then
                  pure (some (m_file.seekp pos, .error NOT_VALID_FUNCTION_VAR))
                else if logger.m_valid_functions &&& (0x01 <<< (letterIndex fn).toNat) ≠ 0 then
                  if vars_used + 1 > t_num_values then
                    pure (some (m_file.seekp pos, .error MORE_VALUES_THEN_FUNCTION_CALLS))
                  else do
                    let function := logger.m_functions (letterIndex fn).toNat
                    let value := t_values (vars_used + 1 - 1).toNat
                    note (.t_values (vars_used + 1 - 1))
                    note (.call (letterIndex fn).toNat function value)
                    log.loop t_str t_values pos fuel (index + 3) (vars_used + 1) (m_file.put (function value))
                else pure (some (m_file.seekp pos, .error FUNCTION_NEVER_DEFINED))
            else log.loop t_str t_values pos fuel (index + 1) vars_used (m_file.put [c])
        else log.loop t_str t_values pos fuel (index + 1) vars_used (m_file.put [c])

/-- `LoggyMcLogFace::log`, at the time that `localtime` gives: the object, and what the call
returns. `pos` is an `int32_t`. `none`: it has not come to an end in `fuel` rounds, or `index`
has overflowed. -/
def log (t_struct : tm) (t_str : ℕ → Byte) (t_values : ℕ → V) (fuel : ℕ) :
    Recorded (LogAccess V) (Option (LoggyMcLogFace V × ℤ)) :=
  if logger.m_valid_functions &&& LOG_READY ≠ 0 then do
    let pos := toInt32 logger.m_file.tellp
    match ← log.loop logger t_num_values t_str t_values pos fuel 0 0 (logger.m_file.put t_struct.stamp) with
    | some (m_file, .error e) => pure (some ({ logger with m_file := m_file }, e))
    | some (m_file, .ok vars_used) =>
        if t_num_values ≠ vars_used then
          pure (some ({ logger with m_file := m_file.seekp pos }, LESS_VALUES_THEN_FUNCTION_CALLS))
        else pure (some ({ logger with m_file := m_file.put (text "\n") }, 0))
    | none => pure none
  else pure (some (logger, LOG_NOT_READY_ERROR))

end LoggyMcLogFace

end JudoEngine
