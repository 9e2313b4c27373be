/-
What the server logs.

`log` fails on a format that does not fit the interpreters or the number of values, and what
it has written by then stays in the file. The server's calls never do that to each other:
`init_` registers `read_ip` for `a` and `read_char_buf` for `b`, and every call of `log` that
its functions make has a format of these two letters with as many values. So the log of a
server, whatever has happened to it, is made of whole lines.
-/
import JudoEngine.JudoServer.Downgrade
import JudoEngine.LoggyMcLogFace.Atomicity
import JudoEngine.LoggyMcLogFace.Registry

set_option autoImplicit false

open Words

namespace JudoEngine

open LoggyMcLogFace

/-! ## The calls of `log`

The list is in the order of the source. A call of `log` is an operation of the model, with its
format and its number of values; the values themselves are addresses and file names that
nothing else reads, so a statement about the file is one about any values. -/

/-- The format and the number of values of every call of `log` in `JudoServer.cpp`. -/
def logCalls : List (String × ℤ) :=
  [("Server Init Complete", 0),
    ("FAILED to open server sock as the sock address was empty", 0),
    ("Server socket successfully opened at /%a", 1),
    ("FAILED to set up Server SSL", 0),
    ("Server SSL set up successful", 0),
    ("Server Certification requirement set.", 0),
    ("FAILED to set Server Certification requirement as SSL is not initialized", 0),
    ("Client Certification requirement set.", 0),
    ("FAILED to set Client Certification requirement as SSL is not initialized", 0),
    ("FAILED to find file: /%b", 1),
    ("Client: /%a has connected", 1),
    ("Attempting to connect to /%a", 1),
    ("Connection to /%a was Successful", 1),
    ("Client: /%a Handshake Successful", 1),
    ("Disconnecting Client: /%a", 1),
    ("Accepting Client", 0)]

/-- If it logs something, it is one of these. -/
def listed : Op → Bool
  | .log t_str t_num_values => decide ((t_str, t_num_values) ∈ logCalls)
  | _ => true

/-- A program that logs nothing else. -/
abbrev Lists {α : Type} (p : Sys α) : Prop := Prog.Only (fun o => listed o = true) p

/-! ## The functions

That all calls are in the list is said of the programs, whatever the system answers: `Lists`
is closed under everything that a program is built from, so each lemma follows its function
line by line, and decides the formats as they come. -/

/-- `judoSend_` logs nothing. -/
theorem listed_of_sending (o : Op) (ho : sending o = true) : listed o = true := by
  cases o with
  | log t_str t_num_values => exact absurd ho Bool.false_ne_true
  | _ => rfl

/-- So it is one of those that log what is listed. -/
theorem lists_judoSend_ (t_node : ssl_node) (t_buffer : Buffer) (t_size : ℤ) : Lists (judoSend_ t_node t_buffer t_size) :=
  Prog.Only.mono listed_of_sending (sending_judoSend_ ..)

/-- It logs once, when it has succeeded. -/
theorem lists_judoHandshake_ (t_node : ssl_node) (t_buffer_size : ℤ) (fuel : ℕ) :
    Lists (judoHandshake_ t_node t_buffer_size fuel) := by
  induction fuel with
  | zero => trivial
  | succ fuel ih =>
      unfold judoHandshake_
      refine .step rfl fun finished => ?_
      split
      · exact .step (by decide) fun _ => trivial
      · refine .step rfl fun _ => .step rfl fun w => ?_
        split
        · exact .step rfl fun _ => ih
        · refine .step rfl fun r => ?_
          split
          · exact .step rfl fun _ => ih
          · split
            · trivial
            · exact ih

/-- Three operations, no log. -/
theorem lists_dstr_ssl_node (n : ssl_node) : Lists (dstr_ssl_node n) :=
  .step rfl fun _ => .step rfl fun _ => .step rfl fun _ => trivial

/-- A file that is refused is logged under its name. -/
theorem lists_useFile {use : String → Sys ℤ} (huse : ∀ file, Lists (use file)) (failure : ℤ) (file : Option String) :
    Lists (useFile use failure file) := by
  cases file with
  | none => trivial
  | some file =>
      refine Prog.Only.bind (huse file) fun ret => ?_
      split
      · exact .step (by decide) fun _ => trivial
      · trivial

/-- The two files are all that can be logged here. -/
theorem lists_judoFillGeneralSSLFields_ (t_ssl_node : ssl_node) (t_cert t_key : Option String) (server_method : Bool) :
    Lists (judoFillGeneralSSLFields_ t_ssl_node t_cert t_key server_method) := by
  unfold judoFillGeneralSSLFields_
  refine .step rfl fun ctx => Prog.Only.bind ?_ fun ret => ?_
  · refine lists_useFile (fun _ => ?_) _ _
    exact ⟨rfl, fun _ => trivial⟩
  split
  · trivial
  refine Prog.Only.bind ?_ fun ret => ?_
  · refine lists_useFile (fun _ => ?_) _ _
    exact ⟨rfl, fun _ => trivial⟩
  split
  · trivial
  · exact .step rfl fun _ => .step rfl fun _ => .step rfl fun _ => .step rfl fun _ => trivial

/-- The server's half. -/
theorem lists_judoFillServerSSLFields_ (server : JudoServer) (t_node : ssl_node) : Lists (judoFillServerSSLFields_ server t_node) := by
  unfold judoFillServerSSLFields_
  refine Prog.Only.bind (lists_judoFillGeneralSSLFields_ ..) fun filled => ?_
  split
  · trivial
  · exact .step rfl fun _ => trivial

/-- One line either way. -/
theorem lists_judoMakeServerSock_ (server : JudoServer) : Lists (judoMakeServerSock_ server) := by
  unfold judoMakeServerSock_
  split
  · exact .step (by decide) fun _ => trivial
  · exact .step rfl fun _ => .step rfl fun _ => .step rfl fun _ => .step rfl fun _ => .step (by decide) fun _ => trivial

/-- Again one line either way, after those of the files. -/
theorem lists_judoSetUpServerSockSSL (server : JudoServer) (t_cert t_private_key : Option String) :
    Lists (judoSetUpServerSockSSL server t_cert t_private_key) := by
  unfold judoSetUpServerSockSSL
  refine Prog.Only.bind (lists_judoFillServerSSLFields_ ..) fun filled => ?_
  dsimp only
  split
  · exact .step (by decide) fun _ => trivial
  · exact .step (by decide) fun _ => trivial

/-- The two requirements differ in their texts. -/
theorem lists_requireCerts (server : JudoServer) (flag : BitVec 16) {done failed : String} (hdone : listed (.log done 0) = true)
    (hfailed : listed (.log failed 0) = true) : Lists (requireCerts server flag done failed) := by
  unfold requireCerts
  split
  · exact .step hdone fun _ => trivial
  · exact .step hfailed fun _ => trivial

/-- An accept logs the client before it looks at the answer, and then its handshake. -/
theorem lists_judoAccept_ (server : JudoServer) (fuel : ℕ) : Lists (judoAccept_ (judoHandshake_ · · fuel) server) := by
  have hgreet : ∀ (n : ssl_node) (buffer : ℕ), Lists (judoAccept_.greet server n buffer) := by
    intro n buffer
    -- the exits in the order of the source
    unfold judoAccept_.greet
    refine .step rfl fun _ => .step rfl fun _ => .step rfl fun _ => ?_
    exact Prog.Only.bind (lists_judoSend_ ..) fun _ => .step rfl fun _ => trivial
  unfold judoAccept_
  refine .step rfl fun node => Prog.Only.bind ?_ fun filled => ?_
  · unfold judoAccept_.fill
    split
    · exact lists_judoFillServerSSLFields_ ..
    · trivial
  split
  · exact .step rfl fun _ => trivial
  unfold judoAccept_.negotiate
  refine .step rfl fun buffer => .step rfl fun fp => .step rfl fun _ => .step rfl fun ret => ?_
  split
  · exact .step rfl fun _ => Prog.Only.bind (lists_dstr_ssl_node ..) fun _ => trivial
  · refine .step rfl fun resp => .step (by decide) fun _ => ?_
    split
    · split
      · refine Prog.Only.bind (lists_judoHandshake_ ..) fun ret => ?_
        cases ret with
        | none => trivial
        | some ret =>
            unfold judoAccept_.shaken
            dsimp only
            split
            · refine Prog.Only.step rfl fun _ => Prog.Only.bind (lists_dstr_ssl_node ..) fun _ => ?_
              exact Prog.Only.step rfl fun _ => .step rfl fun _ => trivial
            · exact hgreet _ _
      · exact hgreet _ _
    · exact .step rfl fun _ => Prog.Only.bind (lists_dstr_ssl_node ..) fun _ => trivial

/-- A connect logs the attempt, the success, and the handshake. -/
theorem lists_judoConnect_ (client : JudoServer) (fuel : ℕ) (t_cert t_key : Option String) (t_mode : Byte) :
    Lists (judoConnect_ (judoHandshake_ · · fuel) client t_cert t_key t_mode) := by
  have hrefuse : ∀ (n : ssl_node) (buffer : ℕ) (output : ℤ), Lists (judoConnect_.refuse client n buffer output) := by
    intro n buffer output
    -- the exits in the order of the source; the parts that they share are above
    unfold judoConnect_.refuse
    refine .step rfl fun _ => .step rfl fun _ => .step rfl fun _ => ?_
    exact Prog.Only.bind (lists_dstr_ssl_node ..) fun _ => trivial
  have hhello : ∀ (n : ssl_node) (buffer : ℕ × Buffer), Lists (judoConnect_.hello client n buffer) := by
    intro n buffer
    unfold judoConnect_.hello
    exact Prog.Only.bind (lists_judoSend_ ..) fun _ => .step rfl fun _ => trivial
  have hjoin : ∀ (n : ssl_node) (buffer : ℕ), Lists (judoConnect_.join (judoHandshake_ · · fuel) client n buffer) := by
    intro n buffer
    unfold judoConnect_.join
    generalize shiftOne (0x3F &&& n.mode) = size
    dsimp only
    refine Prog.Only.step rfl fun _ => ?_
    split
    · trivial
    · refine Prog.Only.step rfl fun buffer => ?_
      split
      · refine Prog.Only.bind (lists_judoHandshake_ ..) fun ret => ?_
        cases ret with
        | none => trivial
        | some ret =>
            unfold judoConnect_.shaken
            dsimp only
            split
            · refine Prog.Only.step rfl fun _ => Prog.Only.bind (lists_dstr_ssl_node ..) fun _ => ?_
              exact Prog.Only.step rfl fun _ => .step rfl fun _ => trivial
            · refine Prog.Only.step rfl fun _ => Prog.Only.step rfl fun _ => Prog.Only.step rfl fun _ => ?_
              exact hhello _ _
      · exact hhello _ _
  unfold judoConnect_
  split
  · trivial
  refine .step rfl fun node => Prog.Only.bind ?_ fun filled => ?_
  · unfold judoConnect_.fill
    split
    · unfold judoFillClientSSLFields_
      exact Prog.Only.bind (lists_judoFillGeneralSSLFields_ ..) fun filled => .step rfl fun _ => trivial
    · trivial
  split
  · trivial
  refine .step (by decide) fun _ => Prog.Only.bind ?_ fun connected => ?_
  · unfold judoSocketConnect_
    refine .step rfl fun fp => .step rfl fun _ => .step rfl fun ret => ?_
    split
    · exact .step rfl fun _ => trivial
    · trivial
  dsimp only
  split
  · exact Prog.Only.bind (lists_dstr_ssl_node ..) fun _ => trivial
  unfold judoConnect_.negotiate
  refine .step rfl fun buffer => .step rfl fun r => ?_
  split
  · dsimp only
    split
    · exact hrefuse _ _ _
    · split
      · exact hrefuse _ _ _
      · refine .step rfl fun _ => .step (by decide) fun _ => ?_
        exact hjoin _ _
  · refine .step rfl fun _ => Prog.Only.bind (lists_dstr_ssl_node ..) fun _ => ?_
    exact Prog.Only.step rfl fun _ => .step rfl fun _ => trivial

/-- A line before the descriptor is closed. -/
theorem lists_judoDisconnect_ (server : JudoServer) (t_node : ssl_node) (t_poll : pollfd) :
    Lists (judoDisconnect_ server t_node t_poll) := by
  unfold judoDisconnect_
  exact .step (by decide) fun _ => .step rfl fun _ => Prog.Only.bind (lists_dstr_ssl_node ..) fun _ => trivial

/-- Only by way of the disconnect. -/
theorem lists_judoRead_ (fuel : ℕ) (server : JudoServer) (t_node : ssl_node) (t_poll : pollfd) (t_out_buf : ℕ) :
    Lists (judoRead_ fuel server t_node t_poll t_out_buf) := by
  have hcopy : ∀ (out_buf : ℕ) (packet_buffer : Buffer) (n : ℕ) (i index : ℤ),
      Lists (judoRead_.copy out_buf packet_buffer n i index) := by
    intro out_buf packet_buffer n
    induction n with
    | zero => exact fun _ _ => trivial
    | succ n ih => exact fun _ _ => .step rfl fun _ => ih _ _
  have hloop : ∀ (buffer : ℕ) (packet_buf_size : ℤ) (fuel : ℕ) (packet_buffer : Buffer) (t_out_buf : ℕ) (index t_outbuf_size : ℤ),
      Lists (judoRead_.loop server t_node t_poll buffer packet_buf_size fuel packet_buffer t_out_buf index t_outbuf_size) := by
    intro buffer packet_buf_size fuel
    induction fuel with
    | zero => exact fun _ _ _ _ => trivial
    | succ fuel ih =>
        intro packet_buffer t_out_buf index t_outbuf_size
        unfold judoRead_.loop
        refine .step rfl fun r => ?_
        split
        -- nothing has come
        · exact Prog.Only.bind (lists_judoDisconnect_ ..) fun _ => .step rfl fun _ => trivial
        · refine Prog.Only.bind ?_ fun packet_buffer => ?_
          · unfold judoRead_.unseal
            split
            · exact .step rfl fun _ => .step rfl fun _ => trivial
            · trivial
          dsimp only
          generalize packet_buffer.int32 0 = a, packet_buffer.int32 4 = b, (packet_buf_size - 40).toNat = n
          refine Prog.Only.bind ?_ fun out => ?_
          · unfold judoRead_.reserve
            generalize toInt32 (b * packet_buf_size) = size
            split
            · split
              · trivial
              · exact .step rfl fun _ => trivial
            · trivial
          cases out with
          | none => trivial
          | some out =>
              refine Prog.Only.bind (hcopy ..) fun _ => ?_
              split
              · exact ih _ _ _ _
              · exact .step rfl fun _ => .step rfl fun _ => trivial
  unfold judoRead_
  refine .step rfl fun _ => .step rfl fun index => ?_
  generalize t_node.bufferSize = packet_buf_size
  exact Prog.Only.step rfl fun packet_buffer => hloop ..

/-- A store to the table is not logged. -/
theorem lists_clear (s : Round) : Lists s.clear := .step rfl fun _ => trivial

/-- The line for a client that is accepted, and the function that is called. -/
theorem lists_serve (fuel : ℕ) (s : Round) (p : pollfd) (n : ssl_node) : Lists (run.serve fuel s p n) := by
  unfold run.serve
  split
  · split
    · refine .step (by decide) fun _ => Prog.Only.bind (lists_judoAccept_ ..) fun out => ?_
      cases out with
      | none => trivial
      | some out => trivial
    · refine Prog.Only.bind (lists_clear _) fun s => .step rfl fun x => Prog.Only.bind (lists_judoRead_ ..) fun out => ?_
      cases out with
      | none => trivial
      | some out =>
          refine Prog.Only.bind (only_discard (P := fun o => listed o = true) (fun _ _ => rfl) (fun _ => rfl) rfl ..)
            fun goesOn => ?_
          cases goesOn with
          | false => trivial
          | true => trivial
  · trivial

/-- An iteration logs what serving its row does. -/
theorem lists_iteration (fuel : ℕ) (s : Round) : Lists (run.iteration fuel s) := by
  unfold run.iteration
  refine Prog.Only.bind (.step rfl fun _ => trivial) fun p => Prog.Only.bind (.step rfl fun _ => trivial) fun n => ?_
  refine Prog.Only.bind (lists_serve ..) fun out => ?_
  cases out with
  | none => trivial
  | some out =>
      refine Prog.Only.bind ?_ fun s => trivial
      unfold run.advance
      split
      · exact Prog.Only.bind (lists_clear _) fun _ => trivial
      · trivial

/-! ## Whole lives

From the functions to the steps of `run`, the calls of a life, and the calls in a row. What is
logged in `init_` is read off its own record (`logged_init`). -/

/-- The calls of `log`: the format, and the number of values. -/
def logged (tr : List (Event Op Ans)) : List (String × ℤ) :=
  tr.filterMap fun ev =>
    match ev.op with
    | .log t_str t_num_values => some (t_str, t_num_values)
    | _ => none

/-- Every step of `run` is made of these. -/
theorem LoopRun.lists {P : RunState → Outcome → Prop} {server : JudoServer} {tr : List (Event Op Ans)} {s : RunState}
    (h : LoopRun P server tr s) : ∀ ev ∈ tr, listed ev.op = true := by
  induction h with
  | start => exact fun _ hev => absurd hev List.not_mem_nil
  | step h hcond hstep ih =>
      refine List.forall_mem_append.mpr ⟨ih, ?_⟩
      cases hstep with
      | round ha hruns =>
          refine Prog.Only.of_runs (P := fun o => listed o = true) ?_ hruns
          exact .step rfl fun _ => .step rfl fun _ => trivial
      | iteration fuel hgo hruns => exact (lists_iteration fuel _).of_runs hruns
      | halt fuel hgo hruns => exact (lists_iteration fuel _).of_runs hruns
      | again hdone => exact fun _ hev => absurd hev List.not_mem_nil

/-- And so is every call of a member function. -/
theorem lists_of_makes {server server' : JudoServer} {call : ServerCall} {tr : List (Event Op Ans)} {ret : ℤ}
    (h : Makes server call tr server' ret) : ∀ ev ∈ tr, listed ev.op = true := by
  cases h with
  | judoMakeServerSock_ hruns => exact (lists_judoMakeServerSock_ server).of_runs hruns
  | judoSetUpServerSockSSL hruns => exact (lists_judoSetUpServerSockSSL ..).of_runs hruns
  | judoServerRequireCerts hruns => exact (lists_requireCerts _ _ (by decide) (by decide)).of_runs hruns
  | judoClientRequireCerts hruns => exact (lists_requireCerts _ _ (by decide) (by decide)).of_runs hruns
  | judoAccept_ fuel hruns => exact (lists_judoAccept_ server fuel).of_runs hruns
  | judoConnect_ fuel hruns => exact (lists_judoConnect_ ..).of_runs hruns
  | judoRead_ fuel hruns => exact (lists_judoRead_ ..).of_runs hruns
  | judoDisconnect_ ret hruns => exact (lists_judoDisconnect_ ..).of_runs hruns
  | run ret hruns hserver => exact hruns.lists

/-- What has been logged is in the list. -/
theorem logged_subset {tr : List (Event Op Ans)} (h : ∀ ev ∈ tr, listed ev.op = true) : ∀ p ∈ logged tr, p ∈ logCalls := by
  intro p hp
  obtain ⟨⟨o, x⟩, hev, heq⟩ := List.mem_filterMap.mp hp
  have hlisted := h _ hev
  cases o with
  | log t_str t_num_values =>
      obtain rfl := Option.some.inj heq
      exact of_decide_eq_true hlisted
  | _ => exact absurd heq.symm (Option.some_ne_none _)

/-- `init_` logs that it is done. -/
theorem logged_init {tr : List (Event Op Ans)} {server : JudoServer} (h : Prog.Runs JudoServer.init tr server) :
    logged tr = [("Server Init Complete", 0)] := by
  unfold JudoServer.init at h
  obtain ⟨node, rest, rfl, hlog⟩ := Prog.runs_step.mp h
  obtain ⟨done, rest, rfl, hret⟩ := Prog.runs_step.mp hlog
  rw [Prog.pure_eq, Prog.runs_ret] at hret
  rw [hret.1]
  rfl

/-- What a server has logged: in `init_`, and in the calls since then. -/
def loggedBy (init : List (Event Op Ans)) (log : List Called) : List (String × ℤ) :=
  logged init ++ log.flatMap fun c => logged c.trace

/-- Every call of `log` is one of those in the source. -/
theorem Life.logged {P : ServerCall → JudoServer → Prop} {t_addr : Option sockaddr_in} {log : List Called} {server : JudoServer}
    (h : Life P t_addr log server) {init : List (Event Op Ans)} {new : JudoServer} (hinit : Prog.Runs JudoServer.init init new) :
    ∀ p ∈ loggedBy init log, p ∈ logCalls := by
  refine List.forall_mem_append.mpr ⟨by rw [logged_init hinit]; decide, ?_⟩
  clear hinit
  induction h with
  | new hinit => exact fun _ ht => absurd ht List.not_mem_nil
  | newAt hinit hmakes =>
      rw [List.flatMap_singleton]
      exact logged_subset (lists_of_makes hmakes)
  | call h hcond hmakes ih =>
      rw [List.flatMap_append, List.flatMap_singleton]
      exact List.forall_mem_append.mpr ⟨ih, logged_subset (lists_of_makes hmakes)⟩

/-! ## The log

Here the two halves meet: the formats that a server uses, and a logger that has `read_ip` and
`read_char_buf` for `a` and `b`. Each call fits, so it returns 0 and leaves the logger as
ready as it was (`make_cases`), and the next one finds the end of the file where it should be. -/

namespace LoggyMcLogFace

/-- `m_event_logger`, as `init_` leaves it. -/
def withInterpreters {V : Type} (m_event_logger : LoggyMcLogFace V) (read_ip read_char_buf : V → List Byte) : LoggyMcLogFace V :=
  (m_event_logger.addInterpreter 0x61 read_ip).addInterpreter 0x62 read_char_buf

section Interpreters

variable {V : Type} {logger : LoggyMcLogFace V}

/-- `addInterpreter` takes no bit away, ... -/
theorem bit_addInterpreter {k : ℕ} (h : logger.m_valid_functions.getLsbD k = true) (t_letter : Byte)
    (t_function : V → List Byte) : (logger.addInterpreter t_letter t_function).m_valid_functions.getLsbD k = true := by
  by_cases hletter : Letter t_letter
  · rw [addInterpreter_of_letter hletter, BitVec.getLsbD_or, h, Bool.true_or]
  · rw [addInterpreter_of_not_letter hletter]
    exact h

/-- ... and sets the bit of its letter. -/
theorem defined_addInterpreter {t_letter : Byte} (h : Letter t_letter) (t_function : V → List Byte) :
    (logger.addInterpreter t_letter t_function).Defined t_letter := by
  have hslot := slot_lt h
  rw [Defined, addInterpreter_of_letter h, BitVec.getLsbD_or, getLsbD_bit (by omega), decide_eq_true rfl, Bool.or_true]

/-- The file stays as it is. -/
theorem Ready.addInterpreter (h : logger.Ready) {t_letter : Byte} (hletter : Letter t_letter) (t_function : V → List Byte) :
    (logger.addInterpreter t_letter t_function).Ready := by
  have hbit : ∀ logger : LoggyMcLogFace V,
      logger.m_valid_functions &&& LOG_READY ≠ 0 ↔ logger.m_valid_functions.getLsbD 31 = true :=
    fun logger => and_bit_ne_zero (k := 31) _ (by decide)
  refine ⟨(hbit _).mpr (bit_addInterpreter ((hbit _).mp h.ready) t_letter t_function), ?_, ?_⟩
  · rw [addInterpreter_of_letter hletter]
    exact h.good
  · rw [addInterpreter_of_letter hletter]
    exact h.atEnd

/-- Registering an interpreter writes nothing. -/
theorem withInterpreters_file (read_ip read_char_buf : V → List Byte) :
    (withInterpreters logger read_ip read_char_buf).m_file = logger.m_file := by
  rw [withInterpreters, addInterpreter_of_letter (by decide), addInterpreter_of_letter (by decide)]

/-- After `init_` the log is ready for the letters `a` and `b`. -/
theorem ready_withInterpreters (h : logger.Ready) (read_ip read_char_buf : V → List Byte) :
    (withInterpreters logger read_ip read_char_buf).Ready
      ∧ (withInterpreters logger read_ip read_char_buf).Defined 0x61
      ∧ (withInterpreters logger read_ip read_char_buf).Defined 0x62 := by
  refine ⟨(h.addInterpreter (by decide) _).addInterpreter (by decide) _, ?_, defined_addInterpreter (by decide) _⟩
  exact bit_addInterpreter (defined_addInterpreter (by decide) _) _ _

/-- Calls that fit return 0, and write their lines one after the other. -/
theorem makeAll_of_fits {calls : List (LogCall V)} (hready : logger.Ready)
    (hfits : ∀ c ∈ calls, logger.Fits c.t_str c.t_num_values) :
    (∃ logger' lines, logger.makeAll calls = some (logger', lines) ∧ logger'.m_file.bytes = logger.m_file.bytes ++ lines)
      ∧ ∀ before c after, calls = before ++ c :: after →
        ∃ logger₁ lines logger₂, logger.makeAll before = some (logger₁, lines) ∧ logger₁.make c = some (logger₂, 0) := by
  induction calls generalizing logger with
  | nil =>
      refine ⟨⟨logger, [], rfl, (List.append_nil _).symm⟩, fun before c after hcalls => ?_⟩
      exact absurd hcalls.symm (List.append_ne_nil_of_right_ne_nil before (List.cons_ne_nil c after))
  | cons c calls ih =>
      obtain ⟨hc, hcalls⟩ := List.forall_mem_cons.mp hfits
      obtain ⟨hready', hline⟩ := hready.after c
      have hmake : logger.make c = some (logger.after c, 0) := by
        rcases make_cases hready.ready c with ⟨-, hmake⟩ | ⟨hnot, -⟩
        · exact hmake
        · exact absurd hc hnot
      -- the interpreters are the same, so what fits still fits
      obtain ⟨⟨logger', lines, hall, hbytes⟩, hzero⟩ := ih hready' hcalls
      refine ⟨⟨logger', _, makeAll_cons.mpr ⟨_, _, lines, hmake, hall, rfl⟩, ?_⟩, fun before c' after hbefore => ?_⟩
      · rw [hbytes, hline, if_pos rfl, List.append_assoc]
      -- the call in question is this one, or it comes later
      · cases before with
        | nil =>
            obtain ⟨rfl, -⟩ := List.cons.inj hbefore
            exact ⟨logger, [], _, rfl, hmake⟩
        | cons c'' before =>
            obtain ⟨rfl, hrest⟩ := List.cons.inj hbefore
            obtain ⟨logger₁, lines₁, logger₂, hsome, hlast⟩ := hzero before c' after hrest
            exact ⟨logger₁, _, logger₂, makeAll_cons.mpr ⟨_, _, lines₁, hmake, hsome, rfl⟩, hlast⟩

end Interpreters

end LoggyMcLogFace

/-- The formats of the source have no letters but `a` and `b`, and as many of these as there
are values; and they are short. -/
theorem letters_logCalls : ∀ p ∈ logCalls, (∀ fn ∈ letters (pieces (text p.1)), fn = 0x61 ∨ fn = 0x62)
    ∧ p.2 = (letters (pieces (text p.1))).length ∧ (text p.1).length < 2 ^ 31 := by
  decide +kernel

/-- This is the call that the source makes with this format and this number of values, with some
values and at some time. -/
def IsCall {V : Type} (p : String × ℤ) (c : LogCall V) : Prop := c.t_str.val = text p.1 ∧ c.t_num_values = p.2

/-- Such a call fits. -/
theorem fits_of_isCall {V : Type} {logger : LoggyMcLogFace V} (ha : logger.Defined 0x61) (hb : logger.Defined 0x62)
    {p : String × ℤ} (hmem : p ∈ logCalls) {c : LogCall V} (hcall : IsCall p c) : logger.Fits c.t_str c.t_num_values := by
  obtain ⟨hletters, hvalues, hshort⟩ := letters_logCalls p hmem
  rw [LoggyMcLogFace.Fits, hcall.1, hcall.2]
  refine ⟨fun fn hfn => ?_, hvalues, hshort⟩
  rcases hletters fn hfn with rfl | rfl
  · exact ⟨by decide, ha⟩
  · exact ⟨by decide, hb⟩

/-- Each call is one of those of the list that it is made from. -/
theorem exists_isCall {V : Type} {ps : List (String × ℤ)} {calls : List (LogCall V)} (h : List.Forall₂ IsCall ps calls) :
    ∀ c ∈ calls, ∃ p ∈ ps, IsCall p c := by
  induction h with
  | nil => exact fun _ hc => absurd hc List.not_mem_nil
  | cons hcall _ ih =>
      refine List.forall_mem_cons.mpr ⟨⟨_, List.mem_cons_self, hcall⟩, fun c hc => ?_⟩
      obtain ⟨p, hp, hcall⟩ := ih c hc
      exact ⟨p, List.mem_cons_of_mem _ hp, hcall⟩

/-- **The server's log.** Whatever happens to a server in its life: if the logger that its
constructor makes is ready, then with the interpreters that `init_` registers the calls of `log`
all return 0, whatever the values and the times, and what they add to the file is their lines,
whole and in their order. -/
theorem log_of_life {P : ServerCall → JudoServer → Prop} {t_addr : Option sockaddr_in} {log : List Called} {server : JudoServer}
    (h : Life P t_addr log server) {init : List (Event Op Ans)} {new : JudoServer} (hinit : Prog.Runs JudoServer.init init new)
    {V : Type} {logger : LoggyMcLogFace V} (hready : logger.Ready) (read_ip read_char_buf : V → List Byte)
    {calls : List (LogCall V)} (hcalls : List.Forall₂ IsCall (loggedBy init log) calls) :
    (∃ logger' lines, (withInterpreters logger read_ip read_char_buf).makeAll calls = some (logger', lines)
        ∧ logger'.m_file.bytes = logger.m_file.bytes ++ lines)
      ∧ ∀ before c after, calls = before ++ c :: after →
        ∃ logger₁ lines logger₂, (withInterpreters logger read_ip read_char_buf).makeAll before = some (logger₁, lines)
          ∧ logger₁.make c = some (logger₂, 0) := by
  obtain ⟨hready', ha, hb⟩ := ready_withInterpreters hready read_ip read_char_buf
  have hfits : ∀ c ∈ calls, (withInterpreters logger read_ip read_char_buf).Fits c.t_str c.t_num_values := by
    intro c hc
    obtain ⟨p, hp, hcall⟩ := exists_isCall hcalls c hc
    exact fits_of_isCall ha hb (h.logged hinit p hp) hcall
  have hall := makeAll_of_fits hready' hfits
  rw [withInterpreters_file] at hall
  exact hall

/-- A server that cannot read its certificate says so. -/
def refusal : List (LogCall (List Byte)) :=
  [⟨⟨9, 5, 0⟩, format "Server Init Complete" (by decide), fun _ => [], 0⟩,
    ⟨⟨9, 5, 0⟩, format "FAILED to find file: /%b" (by decide), fun _ => text "cert.pem", 1⟩,
    ⟨⟨9, 5, 1⟩, format "FAILED to set up Server SSL" (by decide), fun _ => [], 0⟩]

theorem log_of_life_refused :
    ∃ init new log server, Prog.Runs JudoServer.init init new ∧ Life (fun _ _ => True) none log server
      ∧ loggedBy init log = [("Server Init Complete", 0), ("FAILED to find file: /%b", 1), ("FAILED to set up Server SSL", 0)]
      ∧ ∃ logger', (withInterpreters demo id id).makeAll refusal = some (logger',
          text "[9:5:0]- Server Init Complete\n[9:5:0]- FAILED to find file: cert.pem\n[9:5:1]- FAILED to set up Server SSL\n")
        ∧ logger'.m_file.bytes
          = text "[9:5:0]- Server Init Complete\n[9:5:0]- FAILED to find file: cert.pem\n[9:5:1]- FAILED to set up Server SSL\n" := by
  have hinit : Prog.Runs JudoServer.init _ (.init_ default) := Prog.runs_exec (h := peerAnswer 0) JudoServer.init ()
  have hnew : Life (fun _ _ => True) none [] (.init_ default) := .new hinit
  have hsetup : Makes (.init_ default) (.judoSetUpServerSockSSL (some "cert.pem") none) _ _ JUDO_READ_CERT_FILE_FAILURE :=
    .judoSetUpServerSockSSL (Prog.runs_exec (h := peerAnswer 0) _ ())
  have hlife := hnew.call trivial hsetup
  have hready : demo.Ready := ⟨by decide, rfl, rfl⟩
  refine ⟨_, _, _, _, hinit, hlife, rfl, ?_⟩
  obtain ⟨⟨logger', lines, hall, hbytes⟩, -⟩ := log_of_life hlife hinit hready id id
    (show List.Forall₂ IsCall _ refusal from .cons ⟨rfl, rfl⟩ (.cons ⟨rfl, rfl⟩ (.cons ⟨rfl, rfl⟩ .nil)))
  have hlines : ((withInterpreters demo id id).makeAll refusal).map Prod.snd = some (text
      "[9:5:0]- Server Init Complete\n[9:5:0]- FAILED to find file: cert.pem\n[9:5:1]- FAILED to set up Server SSL\n") := by
    decide +kernel
  rw [hall] at hlines
  obtain rfl := Option.some.inj hlines
  exact ⟨logger', hall, hbytes⟩

end JudoEngine
