/-
What the log holds after calls that have failed.

A call that fails leaves what it has written behind the put position, and the next call
writes over it. So the lines of the calls that have returned 0 are all there, one after the
other up to the put position, and none of them is ever touched again; only what stands
behind it is no line. This needs the put position to fit `pos`, which is an `int32_t`.
-/
import JudoEngine.LoggyMcLogFace.Atomicity

set_option autoImplicit false

open Words

namespace JudoEngine

namespace OutFile

/-- Writing in the middle of a file. -/
theorem put_within {f : OutFile} (hfail : f.fail = false) {before : List Byte} (text : List Byte) :
    ∀ {after : List Byte}, f.bytes = before ++ after → f.pos = before.length →
      f.put text = ⟨before ++ text ++ after.drop text.length, before.length + text.length, false⟩ := by
  have hfold : ∀ (text : List Byte) (before after : List Byte),
      text.foldl putc ⟨before ++ after, before.length, false⟩
        = ⟨before ++ text ++ after.drop text.length, before.length + text.length, false⟩ := by
    intro text
    -- by the bytes: each is stored over what is there, or behind the end
    induction text with
    | nil => exact fun before after => by rw [List.foldl_nil, List.append_nil, List.length_nil, List.drop_zero, Nat.add_zero]
    | cons b text ih =>
        intro before after
        have hputc : putc ⟨before ++ after, before.length, false⟩ b
            = ⟨(before ++ [b]) ++ after.drop 1, (before ++ [b]).length, false⟩ := by
          unfold putc
          have hgap : before.length - (before ++ after).length = 0 := by
            rw [List.length_append]
            omega
          dsimp only
          rw [hgap, List.take_left, List.replicate_zero, List.append_nil, List.drop_append,
            List.drop_of_length_le (Nat.le_succ _), List.nil_append, Nat.add_sub_cancel_left, List.append_assoc,
            List.length_append]
          rfl
        rw [List.foldl_cons, hputc, ih, List.drop_drop, List.length_append, List.length_singleton, List.length_cons,
          List.append_assoc before, Nat.add_comm 1, Nat.add_assoc, Nat.add_comm 1]
        rfl
  intro after hbytes hpos
  obtain ⟨bytes, pos, fail⟩ := f
  obtain rfl : fail = false := hfail
  obtain rfl : bytes = before ++ after := hbytes
  obtain rfl : pos = before.length := hpos
  exact hfold text before after

end OutFile

namespace LoggyMcLogFace

variable {V : Type} {logger : LoggyMcLogFace V} {written : List Byte}

/-- The logger is ready, and its file holds this up to the put position. -/
structure Holds (logger : LoggyMcLogFace V) (written : List Byte) : Prop where
  ready : logger.m_valid_functions &&& LOG_READY ≠ 0
  good : logger.m_file.fail = false
  bytes : ∃ rest, logger.m_file.bytes = written ++ rest
  pos : logger.m_file.pos = written.length

/-- What has been written is written over by the next call when the put position is set back. -/
theorem Holds.back (h : logger.Holds written) (hsmall : written.length < 2 ^ 31) (out : List Byte) :
    Holds { logger with m_file := (logger.m_file.put out).seekp (toInt32 logger.m_file.tellp) } written
      ∧ logger.m_file.bytes.length ≤ ((logger.m_file.put out).seekp (toInt32 logger.m_file.tellp)).bytes.length := by
  obtain ⟨rest, hbytes⟩ := h.bytes
  have htell : toInt32 logger.m_file.tellp = written.length := by
    unfold OutFile.tellp
    rw [if_neg (by rw [h.good]; exact Bool.false_ne_true), h.pos]
    exact toInt32_of_mem ⟨by omega, by exact_mod_cast hsmall⟩
  rw [htell, OutFile.put_within h.good out hbytes h.pos, OutFile.seekp, if_neg Bool.false_ne_true, if_neg (by omega), hbytes]
  refine ⟨⟨h.ready, rfl, ⟨out ++ rest.drop out.length, List.append_assoc ..⟩, Int.toNat_natCast _⟩, ?_⟩
  simp only [List.length_append, List.length_drop]
  omega

/-- A whole line moves it on. -/
theorem Holds.put (h : logger.Holds written) (out : List Byte) :
    Holds { logger with m_file := logger.m_file.put out } (written ++ out)
      ∧ logger.m_file.bytes.length ≤ (logger.m_file.put out).bytes.length := by
  obtain ⟨rest, hbytes⟩ := h.bytes
  rw [OutFile.put_within h.good out hbytes h.pos, hbytes]
  refine ⟨⟨h.ready, rfl, ⟨rest.drop out.length, rfl⟩, List.length_append.symm⟩, ?_⟩
  simp only [List.length_append, List.length_drop]
  omega

/-- **One call** adds its line to what the file holds, or nothing. -/
theorem Holds.make (h : logger.Holds written) (hsmall : written.length < 2 ^ 31) {c : LogCall V}
    {logger' : LoggyMcLogFace V} {code : ℤ} (hmake : logger.make c = some (logger', code)) :
    Holds logger' (written ++ if code = 0 then logger.line c.t_struct c.t_str c.t_values else [])
      ∧ logger.m_file.bytes.length ≤ logger'.m_file.bytes.length := by
  rcases make_cases h.ready c with ⟨-, heq⟩ | ⟨-, ⟨-, hnone⟩ | ⟨out, e, he, heq⟩⟩
  · cases heq.symm.trans hmake
    rw [if_pos rfl]
    exact h.put _
  · cases hnone.symm.trans hmake
  · cases heq.symm.trans hmake
    rw [if_neg he, List.append_nil]
    exact h.back hsmall _

/-- A call comes to an end if the index can walk the format. -/
theorem exists_make (hready : logger.m_valid_functions &&& LOG_READY ≠ 0) {c : LogCall V} (hshort : c.t_str.val.length < 2 ^ 31) :
    ∃ logger' code, logger.make c = some (logger', code) ∧ logger'.m_valid_functions = logger.m_valid_functions := by
  rcases make_cases hready c with ⟨-, heq⟩ | ⟨-, ⟨hlong, -⟩ | ⟨out, e, -, heq⟩⟩
  · exact ⟨_, _, heq, rfl⟩
  · exact absurd hshort (not_lt.mpr hlong)
  · exact ⟨_, _, heq, rfl⟩

/-- And so do all of them. -/
theorem exists_makeAll {calls : List (LogCall V)} (hready : logger.m_valid_functions &&& LOG_READY ≠ 0)
    (hshort : ∀ c ∈ calls, c.t_str.val.length < 2 ^ 31) : ∃ logger' lines, logger.makeAll calls = some (logger', lines) := by
  induction calls generalizing logger with
  | nil => exact ⟨logger, [], rfl⟩
  | cons c calls ih =>
      obtain ⟨hc, hcalls⟩ := List.forall_mem_cons.mp hshort
      obtain ⟨logger₁, code, hmake, hsame⟩ := exists_make hready hc
      obtain ⟨logger', lines, hrest⟩ := ih (by rw [hsame]; exact hready) hcalls
      exact ⟨logger', _, makeAll_cons.mpr ⟨logger₁, code, lines, hmake, hrest, rfl⟩⟩

/-- **The log survives its failures.** Whatever calls are made with formats of less than 2³¹
characters, and however many of them fail, all of them come to an end; and as long as the lines
fit in less than 2³¹ bytes, the file holds what it held and then the lines of the calls that
have returned 0, in their order, up to the put position. -/
theorem survives (h : logger.Holds written) (calls : List (LogCall V)) (hshort : ∀ c ∈ calls, c.t_str.val.length < 2 ^ 31) :
    ∃ logger' lines, logger.makeAll calls = some (logger', lines)
      ∧ (written.length + lines.length < 2 ^ 31 →
        Holds logger' (written ++ lines) ∧ logger.m_file.bytes.length ≤ logger'.m_file.bytes.length) := by
  obtain ⟨logger', lines, hall⟩ := exists_makeAll h.ready hshort
  refine ⟨logger', lines, hall, fun hsmall => ?_⟩
  clear hshort
  induction calls generalizing logger written lines with
  | nil =>
      cases hall
      exact ⟨by rw [List.append_nil]; exact h, Nat.le_refl _⟩
  | cons c calls ih =>
      obtain ⟨logger₁, code, lines', hmake, hrest, rfl⟩ := makeAll_cons.mp hall
      rw [List.length_append] at hsmall
      obtain ⟨hholds, hlonger⟩ := h.make (by omega) hmake
      obtain ⟨hholds', hlonger'⟩ := ih hholds lines' hrest (by rw [List.length_append]; omega)
      rw [← List.append_assoc]
      exact ⟨hholds', Nat.le_trans hlonger hlonger'⟩

/-- A failure between two lines. -/
theorem survives_attempt : ∃ logger' lines, demo.makeAll [attempt, port, attempt] = some (logger', lines)
    ∧ lines = text "[9:5:0]- Attempting to connect to 127.0.0.1\n" ++ text "[9:5:0]- Attempting to connect to 127.0.0.1\n"
    ∧ Holds logger' lines := by
  have hlines : (demo.makeAll [attempt, port, attempt]).map Prod.snd
      = some (text "[9:5:0]- Attempting to connect to 127.0.0.1\n" ++ text "[9:5:0]- Attempting to connect to 127.0.0.1\n") := by
    decide +kernel
  have hnew : demo.Holds [] := ⟨by decide, rfl, ⟨[], rfl⟩, rfl⟩
  obtain ⟨logger', lines, hall, hholds⟩ := survives hnew [attempt, port, attempt] (by decide)
  rw [hall] at hlines
  obtain rfl := Option.some.inj hlines
  exact ⟨logger', _, hall, rfl, (hholds (by decide)).1⟩

end LoggyMcLogFace

end JudoEngine
