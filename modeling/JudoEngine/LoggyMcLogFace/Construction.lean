/-
The constructor of the log, with every byte that it stores in an array of `char`.

The directory goes into 256 bytes, of which the last one is never stored to, and the name of
the file, which the directory, the time and the extension make up, has 300. The extension
has 4 bytes, and an extension of 4 characters is allowed, as is the one that stands in for
longer ones.

What `m_valid_functions` and `m_functions` hold before is an argument, since the class has no
initial values for them.
-/
import JudoEngine.Lib.CString
import JudoEngine.LoggyMcLogFace

set_option autoImplicit false

open Words Recorded CString

namespace JudoEngine

/-! ## The constructor

The arrays are those of the object and one local of the constructor. Every store goes through
the functions of `<cstring>`, so it is recorded with its array. -/

/-- The arrays. -/
inductive LogArray where
  | m_directory
  | m_extention
  | file_name
  deriving DecidableEq

/-- Their sizes. -/
def LogArray.size : LogArray → ℕ
  | .m_directory => 256
  | .m_extention => 4
  | .file_name => 300

/-- `".log"`. -/
def dotLog : CStr := ⟨text ".log", by decide⟩

/-- `"/"`. -/
def slash : CStr := ⟨text "/", by decide⟩

namespace LoggyMcLogFace

variable {V : Type}

/-- What goes into `m_extention`. -/
def extention (t_extention : CStr) : CStr := if t_extention.val.length ≤ 4 then t_extention else dotLog

/-- The name of the file, as `m_file.open` reads it. `ctime` is what the function of this name
returns; `mkdir` reads the directory's name. -/
def fileName (t_log_dir t_extention ctime : CStr) : Recorded (Access LogArray) CStr := do
  let m_directory ← strncpy .m_directory (List.replicate 256 0) t_log_dir 255
  let m_extention ← strcpy .m_extention (List.replicate 4 0) (extention t_extention)
  let _ ← read .m_directory m_directory
  let file_name ← strcat .file_name (List.replicate 300 0) (← read .m_directory m_directory)
  let file_name ← strcat .file_name file_name slash
  let file_name ← strcat .file_name file_name ctime
  let file_name ← strcat .file_name file_name (← read .m_extention m_extention)
  read .file_name file_name

/-- `LoggyMcLogFace::LoggyMcLogFace`. `open_` is what opening a file of this name gives, if it can be
opened. -/
def construct (open_ : CStr → Option OutFile) (m_valid_functions : BitVec 32) (m_functions : ℕ → V → List Byte)
    (t_log_dir t_extention ctime : CStr) : Recorded (Access LogArray) (LoggyMcLogFace V) := do
  let file_name ← fileName t_log_dir t_extention ctime
  match open_ file_name with
  | some m_file => pure ⟨m_file, m_valid_functions ||| LOG_READY, m_functions⟩
  | none => pure ⟨⟨[], 0, true⟩, m_valid_functions, m_functions⟩

/-! ## The arrays

Each string is as long as its parts, and the parts are cut off at known lengths, but for the
extension. -/

/-- The directory's name, cut off after 255 characters. -/
def directory (t_log_dir : CStr) : CStr :=
  ⟨t_log_dir.val.take 255, fun hmem => t_log_dir.property (List.mem_of_mem_take hmem)⟩

/-- It fits in its array. -/
theorem length_directory (t_log_dir : CStr) : (directory t_log_dir).val.length ≤ 255 := by
  rw [directory, List.length_take]
  exact Nat.min_le_left _ _

/-- With an extension of 3 characters at most everything fits, whatever the directory is. -/
theorem all_fileName (t_log_dir t_extention : CStr) {ctime : CStr} (hctime : ctime.val.length = 25)
    (hext : (extention t_extention).val.length ≤ 3) :
    (fileName t_log_dir t_extention ctime).All (Access.Within LogArray.size) := by
  have hdir : Holds (strncpy LogArray.m_directory (List.replicate 256 0) t_log_dir 255).result (directory t_log_dir) :=
    holds_strncpy _ _ _ rfl
  have hextention := holds_strcpy LogArray.m_extention (List.replicate 4 0) (extention t_extention)
  -- the directory's name has `m_directory`; the others are put behind it, one after the other
  have hempty : Holds (List.replicate 300 0) ⟨[], List.not_mem_nil⟩ := ⟨List.replicate 299 0, rfl⟩
  have hfirst := holds_strcat LogArray.file_name hempty (directory t_log_dir)
  have hsecond := holds_strcat LogArray.file_name hfirst slash
  have hthird := holds_strcat LogArray.file_name hsecond ctime
  have hfourth := holds_strcat LogArray.file_name hthird (extention t_extention)
  have hdirlen := length_directory t_log_dir
  have hslash : slash.val.length = 1 := rfl
  have hread : (read LogArray.m_directory (strncpy LogArray.m_directory (List.replicate 256 0) t_log_dir 255).result).All
      (Access.Within LogArray.size) := hdir.all_read (by simp only [LogArray.size]; omega)
  have hlong : ∀ {s s' : CStr}, (s.append s').val.length = s.val.length + s'.val.length := List.length_append
  have hnone : (⟨[], List.not_mem_nil⟩ : CStr).val.length = 0 := rfl
  simp only [fileName, all_bind, hdir.result_read, hextention.result_read]
  refine ⟨all_strncpy _ _ _ (by decide), ?_, hread, hread, ?_, ?_, ?_, ?_, ?_, ?_⟩
  · rw [all_strcpy]
    simp only [LogArray.size]
    omega
  · exact all_strcat _ hempty _ (by simp only [hlong, hnone, LogArray.size]; omega)
  · exact all_strcat _ hfirst _ (by simp only [hlong, hnone, hslash, LogArray.size]; omega)
  · exact all_strcat _ hsecond _ (by simp only [hlong, hnone, hslash, LogArray.size]; omega)
  · exact hextention.all_read (by simp only [LogArray.size]; omega)
  · exact all_strcat _ hthird _ (by simp only [hlong, hnone, hslash, LogArray.size]; omega)
  · exact hfourth.all_read (by simp only [hlong, hnone, hslash, LogArray.size]; omega)

/-- Storing the extension takes one byte more than it has characters. -/
theorem extention_of_all {t_log_dir t_extention ctime : CStr}
    (hall : (fileName t_log_dir t_extention ctime).All (Access.Within LogArray.size)) : t_extention.val.length ≤ 3 := by
  simp only [fileName, all_bind, all_strcpy, LogArray.size] at hall
  have hext := hall.2.1
  unfold extention at hext
  split at hext
  · omega
  · have hdot : dotLog.val.length = 4 := rfl
    omega

/-- After the name there are no more accesses. -/
theorem all_construct (open_ : CStr → Option OutFile) (m_valid_functions : BitVec 32) (m_functions : ℕ → V → List Byte)
    (t_log_dir t_extention ctime : CStr) :
    (construct open_ m_valid_functions m_functions t_log_dir t_extention ctime).All (Access.Within LogArray.size)
      ↔ (fileName t_log_dir t_extention ctime).All (Access.Within LogArray.size) := by
  rw [construct, all_bind, and_iff_left]
  split
  · exact all_pure _ _
  · exact all_pure _ _

/-- **The constructor** stays within its arrays, and reads only strings that end in them,
exactly when the extension has at most 3 characters. -/
theorem construct_within_iff (open_ : CStr → Option OutFile) (m_valid_functions : BitVec 32) (m_functions : ℕ → V → List Byte)
    (t_log_dir t_extention ctime : CStr) (hctime : ctime.val.length = 25) :
    (construct open_ m_valid_functions m_functions t_log_dir t_extention ctime).All (Access.Within LogArray.size)
      ↔ t_extention.val.length ≤ 3 := by
  rw [all_construct]
  refine ⟨extention_of_all, fun hle => all_fileName _ _ hctime ?_⟩
  rw [extention, if_pos (by omega)]
  exact hle

/-- A time, as `ctime` writes it. -/
def someTime : CStr := ⟨text "Sat Oct 15 12:00:00 2022\n", by decide⟩

/-- `LoggyMcLogFace("brungus", ".jr")`. -/
theorem construct_within_jr :
    (construct (fun _ => some ⟨[], 0, false⟩) 0 (fun _ (value : List Byte) => value) ⟨text "brungus", by decide⟩
        ⟨text ".jr", by decide⟩ someTime).All (Access.Within LogArray.size) :=
  (construct_within_iff _ _ _ _ _ _ rfl).mpr (by decide)

/-- With `".log"` the NUL is stored behind `m_extention`. -/
theorem not_construct_within : ¬ ∀ (open_ : CStr → Option OutFile) (m_valid_functions : BitVec 32)
    (m_functions : ℕ → List Byte → List Byte) (t_log_dir t_extention ctime : CStr), ctime.val.length = 25 →
    (construct open_ m_valid_functions m_functions t_log_dir t_extention ctime).All (Access.Within LogArray.size) := by
  intro hall
  have hdot := (all_construct _ _ _ _ _ _).mp
    (hall (fun _ => none) 0 (fun _ value => value) slash dotLog someTime rfl)
  exact absurd (extention_of_all hdot) (by decide)

end LoggyMcLogFace

end JudoEngine
