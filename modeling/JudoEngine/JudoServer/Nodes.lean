/-
The member functions again, with notes of what they do to which node.

A note stands where the source goes through a pointer to a node: `use` for its mutex,
its mode, its `fp`, its address and its BIOs, `set` and `apply` for `ssl` and `ssl_ctx`,
where `apply` is a call of OpenSSL on the field. A mark stands where a function knows
that it gives a node up, and says which way out that is. Everything else is as it was:
without notes and marks each function is the one it has its name from.
-/
import JudoEngine.DualDynamicArray.Bag
import JudoEngine.JudoServer.Life
import JudoEngine.Lib.Lifetime

set_option autoImplicit false

open Words Lifetime

namespace JudoEngine

/-! ## Notes on nodes

The notes speak of a node by its address, as the pointers of the source do, so that two copies
of a row name one node. Which orders of notes are legal is said in `Lifetime`, for any kind of
field; here there are the two fields that `new struct ssl_node` leaves unset. -/

/-- The fields that must have been set before they are used. -/
inductive TlsField where
  | ssl
  | ssl_ctx
  deriving DecidableEq

/-- The ways out on which a node is given up; `tls` says that the node is one to have TLS
fields. And in `run` a row may be read that is not in its table. -/
inductive Turn where
  | unwritten (tls : Bool)
  | unanswered (tls : Bool)
  | acceptUnshaken
  | connectUnfilled
  | unconnected (tls : Bool)
  | unread
  | refused (tls : Bool)
  | connectUnshaken
  | disconnected
  | stray
  deriving DecidableEq

/-- Programs with notes on nodes. -/
abbrev NodeSys := Noted Op Ans TlsField Turn

namespace Nodes

/-- An operation of the system. -/
abbrev ask (o : Op) : NodeSys (Ans o) := Prog.op (NotedOp.op o)

/-- A note, which the system does not see. -/
abbrev note (x : Note TlsField) : NodeSys Unit := Prog.op (NotedOp.note x)

/-- A mark for a way out. -/
abbrev mark (b : Turn) : NodeSys Unit := Prog.op (NotedOp.branch b)

/-! ## TLS

OpenSSL is called on the two fields only. What is read of a node besides (`t_node->fp`, a BIO)
is a `use`, which is wrong after the node is gone and right at any time before.
`dstr_ssl_node` applies to both fields and then destroys, whoever calls it and whatever the
node is: all that goes wrong on a plain-text node comes from there. -/

/-- `useFile` with notes, which are those of `use`. -/
def useFile (use : String → NodeSys ℤ) (failure : ℤ) : Option String → NodeSys ℤ
  | none => pure JUDO_SUCCESS
  | some file => do
      let ret ← use file
      if ret ≤ 0 then do
        ask (.log "FAILED to find file: /%b" 1)
        pure failure
      else pure JUDO_SUCCESS

/-- `ssl_ctx` is set first, and `ssl` only when both files have been accepted. -/
def judoFillGeneralSSLFields_ (t_ssl_node : ssl_node) (t_cert t_key : Option String) (server_method : Bool) :
    NodeSys (ssl_node × ℤ) := do
  let ctx ← ask (.SSL_CTX_new server_method)
  note (.set t_ssl_node.addr .ssl_ctx)
  let t_ssl_node := { t_ssl_node with ssl_ctx := ctx }
  -- `SSL_CTX_set_ecdh_auto`
  note (.apply t_ssl_node.addr .ssl_ctx)
  let ret ← useFile (fun file => do
    note (.apply t_ssl_node.addr .ssl_ctx)
    ask (.SSL_CTX_use_certificate_file ctx file)) JUDO_READ_CERT_FILE_FAILURE t_cert
  if ret ≠ JUDO_SUCCESS then pure (t_ssl_node, ret)
  else do
    let ret ← useFile (fun file => do
      note (.apply t_ssl_node.addr .ssl_ctx)
      ask (.SSL_CTX_use_PrivateKey_file ctx file)) JUDO_READ_KEY_FILE_FAILURE t_key
    if ret ≠ JUDO_SUCCESS then pure (t_ssl_node, ret)
    else do
      -- `SSL_CTX_set_options`, and `SSL_new`
      note (.apply t_ssl_node.addr .ssl_ctx)
      let ssl ← ask (.SSL_new ctx)
      note (.set t_ssl_node.addr .ssl)
      let read_bio ← ask .BIO_new
      note (.use t_ssl_node.addr)
      let write_bio ← ask .BIO_new
      note (.use t_ssl_node.addr)
      note (.apply t_ssl_node.addr .ssl)
      ask (.SSL_set_bio ssl read_bio write_bio)
      pure ({ t_ssl_node with ssl := ssl, read_bio := read_bio, write_bio := write_bio }, JUDO_SUCCESS)

/-- The test comes before `ssl` is used. -/
def judoFillServerSSLFields_ (server : JudoServer) (t_node : ssl_node) : NodeSys (ssl_node × ℤ) := do
  let filled ← judoFillGeneralSSLFields_ t_node server.m_server_cert_file server.m_server_private_key_file true
  if filled.2 ≠ JUDO_SUCCESS then pure filled
  else do
    note (.apply t_node.addr .ssl)
    ask (.SSL_set_accept_state filled.1.ssl)
    pure (filled.1, JUDO_SUCCESS)

/-- Here `SSL_set_connect_state` comes before the test: after a failure `ssl` is used and
has not been set. -/
def judoFillClientSSLFields_ (t_node : ssl_node) (t_cert t_key : Option String) : NodeSys (ssl_node × ℤ) := do
  let filled ← judoFillGeneralSSLFields_ t_node t_cert t_key false
  if filled.2 ≠ JUDO_SUCCESS then mark .connectUnfilled else pure ()
  note (.apply t_node.addr .ssl)
  ask (.SSL_set_connect_state filled.1.ssl)
  pure filled

/-- Every call of OpenSSL is on `ssl`, every transfer on a BIO or the descriptor. -/
def judoHandshake_ (t_node : ssl_node) (t_buffer_size : ℤ) : ℕ → NodeSys (Option ℤ)
  | 0 => pure none
  | fuel + 1 => do
      note (.apply t_node.addr .ssl)
      let finished ← ask (.SSL_is_init_finished t_node.ssl)
      if finished then do
        -- the address of the client is logged
        note (.use t_node.addr)
        ask (.log "Client: /%a Handshake Successful" 1)
        pure (some JUDO_SUCCESS)
      else do
        note (.apply t_node.addr .ssl)
        ask (.SSL_do_handshake t_node.ssl)
        note (.use t_node.addr)
        let w ← ask (.BIO_read t_node.write_bio t_buffer_size)
        if bytesRead w > 0 then do
          note (.use t_node.addr)
          let _ ← ask (.write t_node.fp (bytesRead w) (w.getD []))
          judoHandshake_ t_node t_buffer_size fuel
        else do
          note (.use t_node.addr)
          let r ← ask (.read t_node.fp t_buffer_size)
          if bytesRead r > 0 then do
            note (.use t_node.addr)
            ask (.BIO_write t_node.read_bio (bytesRead r) (r.getD []))
            judoHandshake_ t_node t_buffer_size fuel
          else if bytesRead w < 0 then pure (some JUDO_SSL_HANDSHAKE_FAILURE)
          else judoHandshake_ t_node t_buffer_size fuel

/-- Both fields are freed, set or not, and then the node is deleted. -/
def dstr_ssl_node (node : ssl_node) : NodeSys Unit := do
  note (.apply node.addr .ssl)
  ask (.SSL_free node.ssl)
  note (.apply node.addr .ssl_ctx)
  ask (.SSL_CTX_free node.ssl_ctx)
  note (.destroy node.addr)
  ask (.delete_ssl_node node.addr)

/-- The node of the listening socket may get its fields again; the old ones are
overwritten. -/
def judoSetUpServerSockSSL (server : JudoServer) (t_cert t_private_key : Option String) : NodeSys (JudoServer × ℤ) := do
  let server := { server with m_server_cert_file := t_cert, m_server_private_key_file := t_private_key }
  let filled ← judoFillServerSSLFields_ server server.m_server_list_sock_node
  let server := { server with m_server_list_sock_node := filled.1 }
  if filled.2 ≠ JUDO_SUCCESS then do
    ask (.log "FAILED to set up Server SSL" 0)
    pure (server, filled.2)
  else do
    ask (.log "Server SSL set up successful" 0)
    pure ({ server with m_mode := server.m_mode ||| JUDO_MODE_SSL_ENABLED }, JUDO_SUCCESS)

/-! ## Sending and receiving

Both functions take the mutex of the node first and give it back last, so the last note of
each is a `use`. In `judoRead_` that is what goes wrong after a disconnect: the node is
destroyed in the middle, and the destructor of `sock_lock` comes after it. -/

/-- A packet: `mode` is read for the certificate bits, and under TLS `ssl` and `write_bio`
are used. -/
def judoSend_.loop (t_node : ssl_node) (t_buffer : Buffer) (t_size buffer_size packets : ℤ) :
    ℕ → (i index : ℤ) → Buffer → NodeSys Unit
  | 0, _, _, _ => pure ()
  | n + 1, i, index, buffer => do
      let buffer := (buffer.putInt32 0 i).putInt32 4 packets
      let filled := judoSend_.fill t_buffer t_size (buffer_size - 40).toNat 0 index buffer
      -- `mode`
      note (.use t_node.addr)
      if t_node.certs then do
        note (.apply t_node.addr .ssl)
        ask (.SSL_write t_node.ssl (filled.1.bytes (buffer_size - 32)))
        note (.use t_node.addr)
        let r ← ask (.BIO_read t_node.write_bio buffer_size)
        let sealed := filled.1.fill (r.getD [])
        note (.use t_node.addr)
        let _ ← ask (.write t_node.fp (bytesRead r) (sealed.bytes (bytesRead r)))
        loop t_node t_buffer t_size buffer_size packets n (i + 1) filled.2 sealed
      else do
        note (.use t_node.addr)
        let _ ← ask (.write t_node.fp buffer_size (filled.1.bytes buffer_size))
        loop t_node t_buffer t_size buffer_size packets n (i + 1) filled.2 filled.1

/-- The mutex, the mode, the packets, and the mutex again. -/
def judoSend_ (t_node : ssl_node) (t_buffer : Buffer) (t_size : ℤ) : NodeSys ℤ := do
  note (.use t_node.addr)
  ask (.lock t_node.addr)
  note (.use t_node.addr)
  let buffer_size := t_node.bufferSize
  let packets := 1 + t_size.tdiv (buffer_size - 40)
  let buffer ← ask (.new_char buffer_size)
  judoSend_.loop t_node t_buffer t_size buffer_size packets packets.toNat 1 0 buffer.2
  ask (.delete_char buffer.1)
  note (.use t_node.addr)
  ask (.unlock t_node.addr)
  pure 0

/-- The descriptor is closed while the node is still there. -/
def judoDisconnect_ (server : JudoServer) (t_node : ssl_node) (t_poll : pollfd) : NodeSys JudoServer := do
  note (.use t_node.addr)
  ask (.log "Disconnecting Client: /%a" 1)
  note (.use t_node.addr)
  ask (.close t_node.fp)
  dstr_ssl_node t_node
  pure { server with m_ssl_nodes := server.m_ssl_nodes.remove compare_pollfd t_poll }

/-- Under TLS what has come goes through `read_bio` and `ssl`. -/
def judoRead_.unseal (t_node : ssl_node) (packet_buf_size bytes_read : ℤ) (packet_buffer : Buffer) : NodeSys Buffer := do
  note (.use t_node.addr)
  if t_node.certs then do
    note (.use t_node.addr)
    ask (.BIO_write t_node.read_bio bytes_read (packet_buffer.bytes bytes_read))
    note (.apply t_node.addr .ssl)
    let c ← ask (.SSL_read t_node.ssl packet_buf_size)
    pure (packet_buffer.fill (c.getD []))
  else pure packet_buffer

/-- A packet, or the disconnect; after the latter the mutex of the destroyed node is given
back. -/
def judoRead_.loop (server : JudoServer) (t_node : ssl_node) (t_poll : pollfd) (buffer : ℕ) (packet_buf_size : ℤ) :
    ℕ → (packet_buffer : Buffer) → (t_out_buf : ℕ) → (index t_outbuf_size : ℤ) → NodeSys (Option (JudoServer × ℤ × ℕ × ℤ))
  | 0, _, _, _, _ => pure none
  | fuel + 1, packet_buffer, t_out_buf, index, t_outbuf_size => do
      note (.use t_node.addr)
      let r ← ask (.read t_node.fp packet_buf_size)
      if bytesRead r ≤ 0 then do
        mark .disconnected
        let server ← judoDisconnect_ server t_node t_poll
        -- the destructor of `sock_lock`
        note (.use t_node.addr)
        ask (.unlock t_node.addr)
        pure (some (server, -1, t_out_buf, t_outbuf_size))
      else do
        let packet_buffer ←
          judoRead_.unseal t_node packet_buf_size (bytesRead r) (packet_buffer.fill (r.getD []))
        let a := packet_buffer.int32 0
        let b := packet_buffer.int32 4
        match ← lift (judoRead_.reserve b packet_buf_size t_out_buf t_outbuf_size) with
        | none => pure none
        | some (out_buf, outbuf_size) => do
            let packet_buffer := packet_buffer.set (packet_buf_size - 32) 0
            lift (judoRead_.copy out_buf packet_buffer (packet_buf_size - 40).toNat 0 index)
            if a ≠ b then
              loop server t_node t_poll buffer packet_buf_size fuel packet_buffer out_buf
                (index + (packet_buf_size - 40).toNat) outbuf_size
            else do
              -- only this exit deletes the packet buffer
              ask (.delete_char buffer)
              note (.use t_node.addr)
              ask (.unlock t_node.addr)
              pure (some (server, 0, out_buf, outbuf_size))

/-- The mutex and the mode, and then the loop. -/
def judoRead_ (fuel : ℕ) (server : JudoServer) (t_node : ssl_node) (t_poll : pollfd) (t_out_buf : ℕ) :
    NodeSys (Option (JudoServer × ℤ × ℕ × ℤ)) := do
  note (.use t_node.addr)
  ask (.lock t_node.addr)
  let index ← ask .indeterminate
  note (.use t_node.addr)
  let packet_buf_size := t_node.bufferSize
  let packet_buffer ← ask (.new_char packet_buf_size)
  judoRead_.loop server t_node t_poll packet_buffer.1 packet_buf_size fuel packet_buffer.2 t_out_buf index (-1)

/-! ## Accepting

The function is cut where its exits are: `greet` when the row is added, `shaken` after a
handshake, `negotiate` from `accept` on. Each exit that gives the node up has its mark, and
the order of its close and its destruction is that of the source. -/

/-- The server has TLS. -/
def sslEnabled (server : JudoServer) : Bool := server.m_mode &&& JUDO_MODE_SSL_ENABLED ≠ 0

/-- The row is added, and the greeting is sent on the node. -/
def judoAccept_.greet (server : JudoServer) (new_node : ssl_node) (buffer : ℕ) : NodeSys (Option (JudoServer × ℤ)) := do
  note (.use new_node.addr)
  let server := { server with m_ssl_nodes := server.m_ssl_nodes.add ⟨new_node.fp, POLLIN, 0⟩ new_node }
  ask (.delete_char buffer)
  let buffer ← ask (.new_char 4096)
  ask .sleep
  let _ ← judoSend_ new_node (buffer.2.fill greeting) 3073
  ask (.delete_char buffer.1)
  pure (some (server, JUDO_SUCCESS))

/-- The failed handshake: `close` reads the descriptor from the node that has been
destroyed. -/
def judoAccept_.shaken (server : JudoServer) (new_node : ssl_node) (buffer : ℕ) :
    Option ℤ → NodeSys (Option (JudoServer × ℤ))
  | none => pure none
  | some ret =>
      if ret ≠ JUDO_SUCCESS then do
        mark .acceptUnshaken
        ask (.delete_char buffer)
        dstr_ssl_node new_node
        note (.use new_node.addr)
        let fp ← ask .freed
        ask (.close fp)
        pure (some (server, JUDO_SSL_HANDSHAKE_FAILURE))
      else judoAccept_.greet server new_node buffer

/-- From `accept` to the answered mode byte. Both failures close first and destroy then. -/
def judoAccept_.negotiate (fuel : ℕ) (server : JudoServer) (new_node : ssl_node) : NodeSys (Option (JudoServer × ℤ)) := do
  let buffer ← ask (.new_char server.m_buffer_size)
  -- the address, and then the descriptor, are stored
  note (.use new_node.addr)
  let fp ← ask (.accept server.m_server_list_sock)
  note (.use new_node.addr)
  let new_node := { new_node with fp := fp }
  ask (.setsockopt new_node.fp)
  note (.use new_node.addr)
  let ret_val ← ask (.write new_node.fp 1 ((buffer.2.set 0 new_node.mode).bytes 1))
  if ret_val ≤ 0 then do
    mark (.unwritten (sslEnabled server))
    note (.use new_node.addr)
    ask (.close new_node.fp)
    dstr_ssl_node new_node
    pure (some (server, JUDO_FAILURE))
  else do
    note (.use new_node.addr)
    let resp ← ask (.read new_node.fp 1)
    let response := (buffer.2.set 0 new_node.mode).fill (resp.getD []) 0
    note (.use new_node.addr)
    ask (.log "Client: /%a has connected" 1)
    if bytesRead resp > 0 ∧ response.toInt = new_node.mode.toNat then
      if new_node.certs then do
        let ret ← judoHandshake_ new_node server.m_buffer_size fuel
        judoAccept_.shaken server new_node buffer.1 ret
      else judoAccept_.greet server new_node buffer.1
    else do
      mark (.unanswered (sslEnabled server))
      note (.use new_node.addr)
      ask (.close new_node.fp)
      dstr_ssl_node new_node
      pure (some (server, JUDO_FAILURE))

/-- TLS, if the server has it. -/
def judoAccept_.fill (server : JudoServer) (new_node : ssl_node) : NodeSys (ssl_node × ℤ) :=
  if server.m_mode &&& JUDO_MODE_SSL_ENABLED ≠ 0 then judoFillServerSSLFields_ server new_node
  else pure (new_node, JUDO_SUCCESS)

/-- The node is new. When its fields cannot be filled it is deleted as it is, with nothing
freed. -/
def judoAccept_ (fuel : ℕ) (server : JudoServer) : NodeSys (Option (JudoServer × ℤ)) := do
  let new_node ← ask .new_ssl_node
  note (.new new_node.addr)
  note (.use new_node.addr)
  let filled ← judoAccept_.fill server new_node
  if filled.2 ≠ JUDO_SUCCESS then do
    note (.destroy new_node.addr)
    ask (.delete_ssl_node new_node.addr)
    pure (some (server, filled.2))
  else do
    -- the certificate bits are stored
    note (.use new_node.addr)
    judoAccept_.negotiate fuel server { filled.1 with mode := server.connectionMode }

/-! ## Connecting

The mirror image, with one exit more: `judoConnect_` returns with the node still there when
the files are refused, so that way has no `destroy`. The mark `unconnected` and the others say
whether the node is one that has TLS fields. -/

/-- The bits differ: the descriptor is closed before the node is destroyed. -/
def judoConnect_.refuse (client : JudoServer) (new_node : ssl_node) (buffer : ℕ) (output : ℤ) :
    NodeSys (Option (JudoServer × ℤ)) := do
  mark (.refused new_node.certs)
  note (.use new_node.addr)
  let _ ← ask (.write new_node.fp 1 [0xFF])
  note (.use new_node.addr)
  ask (.close new_node.fp)
  ask (.delete_char buffer)
  dstr_ssl_node new_node
  pure (some (client, output))

/-- The row is added, and the first message is sent on the node. -/
def judoConnect_.hello (client : JudoServer) (new_node : ssl_node) (buffer : ℕ × Buffer) :
    NodeSys (Option (JudoServer × ℤ)) := do
  note (.use new_node.addr)
  let client := { client with m_ssl_nodes := client.m_ssl_nodes.add ⟨new_node.fp, POLLIN, 0⟩ new_node }
  let _ ← judoSend_ new_node (buffer.2.fill [0x4A, 0x65, 0x4A, 0x65, 0x4A, 0x65, 0x00]) 7
  ask (.delete_char buffer.1)
  pure (some (client, JUDO_SUCCESS))

/-- As in `judoAccept_`, and after a good handshake one more packet is read. -/
def judoConnect_.shaken (client : JudoServer) (new_node : ssl_node) (buffer : ℕ × Buffer) (size : ℤ) :
    Option ℤ → NodeSys (Option (JudoServer × ℤ))
  | none => pure none
  | some ret =>
      if ret ≠ JUDO_SUCCESS then do
        mark .connectUnshaken
        ask (.delete_char buffer.1)
        dstr_ssl_node new_node
        note (.use new_node.addr)
        let fp ← ask .freed
        ask (.close fp)
        pure (some (client, JUDO_SSL_HANDSHAKE_FAILURE))
      else do
        note (.use new_node.addr)
        let r ← ask (.read new_node.fp size)
        note (.use new_node.addr)
        ask (.BIO_write new_node.read_bio (bytesRead r) (r.getD []))
        note (.apply new_node.addr .ssl)
        let c ← ask (.SSL_read new_node.ssl size)
        judoConnect_.hello client new_node (buffer.1, (buffer.2.fill (r.getD [])).fill (c.getD []))

/-- The mode that was agreed on gives the size of the buffer. -/
def judoConnect_.join (fuel : ℕ) (client : JudoServer) (new_node : ssl_node) (buffer : ℕ) :
    NodeSys (Option (JudoServer × ℤ)) := do
  note (.use new_node.addr)
  let size := shiftOne (0x3F &&& new_node.mode)
  ask (.delete_char buffer)
  if size < 0 then pure none
  else do
    let buffer ← ask (.new_char size)
    note (.use new_node.addr)
    if new_node.certs then do
      let ret ← judoHandshake_ new_node size fuel
      judoConnect_.shaken client new_node buffer size ret
    else judoConnect_.hello client new_node buffer

/-- From the first byte of the server to the answer. When it does not come, the node is
destroyed first and the descriptor closed then. -/
def judoConnect_.negotiate (fuel : ℕ) (client : JudoServer) (new_node : ssl_node) (t_mode : Byte) :
    NodeSys (Option (JudoServer × ℤ)) := do
  let buffer ← ask (.new_char 1)
  note (.use new_node.addr)
  let r ← ask (.read new_node.fp 1)
  if bytesRead r > 0 then do
    let mode := buffer.2.fill (r.getD []) 0
    if mode &&& JUDO_CON_SERVER_CERTS ≠ t_mode &&& JUDO_CON_SERVER_CERTS then
      judoConnect_.refuse client new_node buffer.1
        (if mode &&& JUDO_CON_SERVER_CERTS ≠ 0 then JUDO_REMOTE_HOST_SERVER_CERTS_REQUIRED
          else JUDO_REMOTE_HOST_NO_SERVER_CERTS)
    else if mode &&& JUDO_CON_CLIENT_CERTS ≠ t_mode &&& JUDO_CON_CLIENT_CERTS then
      judoConnect_.refuse client new_node buffer.1
        (if mode &&& JUDO_CON_CLIENT_CERTS ≠ 0 then JUDO_REMOTE_HOST_CLIENT_CERTS_REQUIRED
          else JUDO_REMOTE_HOST_NO_CLIENT_CERTS)
    else do
      note (.use new_node.addr)
      let _ ← ask (.write new_node.fp 1 [mode])
      ask (.log "Connection to /%a was Successful" 1)
      judoConnect_.join fuel client { new_node with mode := mode } buffer.1
  else do
    mark .unread
    ask (.delete_char buffer.1)
    dstr_ssl_node new_node
    note (.use new_node.addr)
    let fp ← ask .freed
    ask (.close fp)
    pure (some (client, JUDO_REMOTE_HOST_DISCONNECT))

/-- TLS, if the mode has certificate bits. -/
def judoConnect_.fill (new_node : ssl_node) (t_cert t_key : Option String) : NodeSys (ssl_node × ℤ) :=
  if new_node.mode &&& (JUDO_CON_CLIENT_CERTS ||| JUDO_CON_SERVER_CERTS) ≠ 0 then
    judoFillClientSSLFields_ new_node t_cert t_key
  else pure (new_node, JUDO_SUCCESS)

/-- The node is new, and not given up when its fields cannot be filled. -/
def judoConnect_ (fuel : ℕ) (client : JudoServer) (t_cert t_key : Option String) (t_mode : Byte) :
    NodeSys (Option (JudoServer × ℤ)) :=
  if CertFilesMissing t_cert t_key t_mode then pure (some (client, JUDO_INPUT_CERT_FILES_MISSING))
  else do
    let new_node ← ask .new_ssl_node
    note (.new new_node.addr)
    note (.use new_node.addr)
    let filled ← judoConnect_.fill { new_node with mode := t_mode } t_cert t_key
    if filled.2 ≠ JUDO_SUCCESS then pure (some (client, filled.2))
    else do
      ask (.log "Attempting to connect to /%a" 1)
      -- it stores the descriptor
      note (.use new_node.addr)
      let connected ← lift judoSocketConnect_
      let new_node := { filled.1 with fp := connected.2 }
      if connected.1 ≠ JUDO_SUCCESS then do
        mark (.unconnected new_node.certs)
        dstr_ssl_node new_node
        pure (some (client, connected.1))
      else judoConnect_.negotiate fuel client new_node t_mode

/-! ## The life of a server

What `run` and the destructor do with the nodes of the table. Here a node may be one that the
table does not have: `run` reads its row through pointers that may be stale, and `watch` marks
that. -/

/-- The node of the listening socket; its TLS fields are not set here. -/
def init : NodeSys JudoServer := do
  let node ← ask .new_ssl_node
  note (.new node.addr)
  ask (.log "Server Init Complete" 0)
  pure (.init_ node)

/-- Whether the row is one of the table. -/
def watch (s : Round) (row : pollfd × ssl_node) : NodeSys Unit :=
  if row ∈ s.table.rows then pure () else mark .stray

/-- `run` prints the `fp` of the node when `judoRead_` has returned. -/
def serve (fuel : ℕ) (s : Round) (current_poll : pollfd) (current_node : ssl_node) : NodeSys (Option (Round × Act)) :=
  if current_poll.revents &&& POLLIN ≠ 0 then
    if current_poll.fd = s.server.m_server_list_sock then do
      ask (.log "Accepting Client" 0)
      match ← judoAccept_ fuel s.server with
      | none => pure none
      | some (server, ret) => pure (some ({ s with server := server, a := s.a + 1 }, .accept ret))
    else do
      watch s (current_poll, current_node)
      let s ← lift s.clear
      let buffer ← ask .indeterminate
      match ← judoRead_ fuel s.server current_node current_poll buffer.toNat with
      | none => pure none
      | some (server, ret, buffer, buffer_size) => do
          let s := { s with server := server, sockets_to_handel := s.sockets_to_handel - 1, a := s.a + 1 }
          note (.use current_node.addr)
          let goesOn ← lift (run.discard current_node ret buffer buffer_size)
          if goesOn then
            pure (some
              (if ret = -1 then { s with index := s.index - 1, array_size := s.array_size - 1 } else s,
                .read (current_poll, current_node) ret))
          else pure none
  else pure (some (s, .idle))

/-- Both arrays are read before anything is known of the row. -/
def iteration (fuel : ℕ) (s : Round) : NodeSys (Option (Round × Act)) := do
  let s := { s with array_size := s.table.getSize }
  let current_poll ← lift s.poll_array
  let current_node ← lift s.node_array
  match ← serve fuel s current_poll current_node with
  | none => pure none
  | some (s, act) => do
      let s ← lift (run.advance s)
      pure (some (s, act))

/-- The rows from the last one on: each node is destroyed, then its row is removed. -/
def destroy.loop (server : JudoServer) :
    (i : ℕ) → DualDynamicArray pollfd ssl_node → NodeSys (DualDynamicArray pollfd ssl_node)
  | 0, m_ssl_nodes => pure m_ssl_nodes
  | i + 1, m_ssl_nodes => do
      let wild ← ask (.access m_ssl_nodes.arrays i m_ssl_nodes.arrays m_ssl_nodes.m_size)
      dstr_ssl_node (server.node ((m_ssl_nodes.m_second_array i).getD wild.2))
      let wild ← ask (.access m_ssl_nodes.arrays i m_ssl_nodes.arrays m_ssl_nodes.m_size)
      loop server i (m_ssl_nodes.remove compare_pollfd ((m_ssl_nodes.m_first_array i).getD wild.1))

/-- The table, and the listening socket. -/
def destroy (server : JudoServer) : NodeSys Unit := do
  let _ ← destroy.loop server server.m_ssl_nodes.getSize server.m_ssl_nodes
  ask (.close server.m_server_list_sock)

/-! ## Without the notes

The programs above are the functions of the model, with notes. This is what makes what is
proved of them say something about the code: `erase` takes the notes and the marks out, and
what is left is the function itself, to the letter. One lemma for each function; a caller's
lemma uses those of what it calls. -/

@[simp] theorem erase_useFile (use : String → NodeSys ℤ) (failure : ℤ) (file : Option String) :
    erase (useFile use failure file) = JudoEngine.useFile (fun file => erase (use file)) failure file := by
  cases file with
  | none => rfl
  | some file => simp [useFile, JudoEngine.useFile]

/-- The notes around the two files are in `useFile`'s argument, and `erase_useFile` reaches
them there. -/
@[simp] theorem erase_judoFillGeneralSSLFields_ (t_ssl_node : ssl_node) (t_cert t_key : Option String) (server_method : Bool) :
    erase (judoFillGeneralSSLFields_ t_ssl_node t_cert t_key server_method)
      = JudoEngine.judoFillGeneralSSLFields_ t_ssl_node t_cert t_key server_method := by
  simp only [judoFillGeneralSSLFields_, Prog.op_bind, erase_call_op, erase_call_note, erase_bind, erase_useFile, erase_ite]
  rfl

@[simp] theorem erase_judoFillServerSSLFields_ (server : JudoServer) (t_node : ssl_node) :
    erase (judoFillServerSSLFields_ server t_node) = JudoEngine.judoFillServerSSLFields_ server t_node := by
  simp [judoFillServerSSLFields_, JudoEngine.judoFillServerSSLFields_]

@[simp] theorem erase_judoFillClientSSLFields_ (t_node : ssl_node) (t_cert t_key : Option String) :
    erase (judoFillClientSSLFields_ t_node t_cert t_key) = JudoEngine.judoFillClientSSLFields_ t_node t_cert t_key := by
  simp [judoFillClientSSLFields_, JudoEngine.judoFillClientSSLFields_]

/-- By induction on the rounds. -/
@[simp] theorem erase_judoHandshake_ (t_node : ssl_node) (t_buffer_size : ℤ) (fuel : ℕ) :
    erase (judoHandshake_ t_node t_buffer_size fuel) = JudoEngine.judoHandshake_ t_node t_buffer_size fuel := by
  induction fuel with
  | zero => rfl
  | succ fuel ih => simp [judoHandshake_, JudoEngine.judoHandshake_, ih]

@[simp] theorem erase_dstr_ssl_node (node : ssl_node) : erase (dstr_ssl_node node) = JudoEngine.dstr_ssl_node node := by
  rfl

theorem erase_judoSetUpServerSockSSL (server : JudoServer) (t_cert t_private_key : Option String) :
    erase (judoSetUpServerSockSSL server t_cert t_private_key) = JudoEngine.judoSetUpServerSockSSL server t_cert t_private_key := by
  simp [judoSetUpServerSockSSL, JudoEngine.judoSetUpServerSockSSL]

/-- By induction on the packets. -/
@[simp] theorem erase_judoSend_loop (t_node : ssl_node) (t_buffer : Buffer) (t_size buffer_size packets : ℤ) (n : ℕ) :
    ∀ (i index : ℤ) (buffer : Buffer), erase (judoSend_.loop t_node t_buffer t_size buffer_size packets n i index buffer)
      = JudoEngine.judoSend_.loop t_node t_buffer t_size buffer_size packets n i index buffer := by
  induction n with
  | zero => exact fun _ _ _ => rfl
  | succ n ih => simp [judoSend_.loop, JudoEngine.judoSend_.loop, ih]

@[simp] theorem erase_judoSend_ (t_node : ssl_node) (t_buffer : Buffer) (t_size : ℤ) :
    erase (judoSend_ t_node t_buffer t_size) = JudoEngine.judoSend_ t_node t_buffer t_size := by
  simp [judoSend_, JudoEngine.judoSend_]

@[simp] theorem erase_judoDisconnect_ (server : JudoServer) (t_node : ssl_node) (t_poll : pollfd) :
    erase (judoDisconnect_ server t_node t_poll) = JudoEngine.judoDisconnect_ server t_node t_poll := by
  simp [judoDisconnect_, JudoEngine.judoDisconnect_]

@[simp] theorem erase_unseal (t_node : ssl_node) (packet_buf_size bytes_read : ℤ) (packet_buffer : Buffer) :
    erase (judoRead_.unseal t_node packet_buf_size bytes_read packet_buffer)
      = JudoEngine.judoRead_.unseal t_node packet_buf_size bytes_read packet_buffer := by
  simp [judoRead_.unseal, JudoEngine.judoRead_.unseal]

/-- By induction on the rounds. A round is taken apart bind by bind, because the loop goes
on inside a `match`. -/
theorem erase_judoRead_loop (server : JudoServer) (t_node : ssl_node) (t_poll : pollfd) (buffer : ℕ) (packet_buf_size : ℤ)
    (fuel : ℕ) : ∀ (packet_buffer : Buffer) (t_out_buf : ℕ) (index t_outbuf_size : ℤ),
    erase (judoRead_.loop server t_node t_poll buffer packet_buf_size fuel packet_buffer t_out_buf index t_outbuf_size)
      = JudoEngine.judoRead_.loop server t_node t_poll buffer packet_buf_size fuel packet_buffer t_out_buf index
          t_outbuf_size := by
  induction fuel with
  | zero => exact fun _ _ _ _ => rfl
  | succ fuel ih =>
      intro packet_buffer t_out_buf index t_outbuf_size
      -- what follows the `read`, whatever it has brought
      refine congrArg (Prog.call _) (funext fun r => ?_)
      simp only [Prog.bind, erase_ite, erase_bind, erase_lift, erase_unseal]
      refine congrArg (ite _ _) (congrArg (_ >>= ·) (funext fun packet_buffer => congrArg (_ >>= ·) (funext fun out => ?_)))
      rcases out with _ | ⟨out_buf, outbuf_size⟩
      · rfl
      · simp [ih]

/-- The mutex around the loop. -/
@[simp] theorem erase_judoRead_ (fuel : ℕ) (server : JudoServer) (t_node : ssl_node) (t_poll : pollfd) (t_out_buf : ℕ) :
    erase (judoRead_ fuel server t_node t_poll t_out_buf) = JudoEngine.judoRead_ fuel server t_node t_poll t_out_buf := by
  simp [judoRead_, JudoEngine.judoRead_, erase_judoRead_loop]

/-- The three operations on the buffers, and then `judoSend_`. -/
@[simp] theorem erase_greet (server : JudoServer) (new_node : ssl_node) (buffer : ℕ) :
    erase (judoAccept_.greet server new_node buffer) = JudoEngine.judoAccept_.greet server new_node buffer := by
  rw [judoAccept_.greet, JudoEngine.judoAccept_.greet, erase_note_bind, erase_op_bind]
  refine congrArg (sys _ >>= ·) (funext fun _ => ?_)
  rw [erase_op_bind]
  refine congrArg (sys _ >>= ·) (funext fun _ => ?_)
  rw [erase_op_bind]
  refine congrArg (sys _ >>= ·) (funext fun _ => ?_)
  rw [erase_bind, erase_judoSend_]
  rfl

@[simp] theorem erase_accept_shaken (server : JudoServer) (new_node : ssl_node) (buffer : ℕ) (ret : Option ℤ) :
    erase (judoAccept_.shaken server new_node buffer ret) = JudoEngine.judoAccept_.shaken server new_node buffer ret := by
  cases ret with
  | none => rfl
  | some ret => simp [judoAccept_.shaken, JudoEngine.judoAccept_.shaken]

/-- `judoAccept_` is a function of the handshake that it calls, which is the program's own
here. -/
@[simp] theorem erase_accept_negotiate (fuel : ℕ) (server : JudoServer) (new_node : ssl_node) :
    erase (judoAccept_.negotiate fuel server new_node)
      = JudoEngine.judoAccept_.negotiate (JudoEngine.judoHandshake_ · · fuel) server new_node := by
  simp [judoAccept_.negotiate, JudoEngine.judoAccept_.negotiate]

@[simp] theorem erase_accept_fill (server : JudoServer) (new_node : ssl_node) :
    erase (judoAccept_.fill server new_node) = JudoEngine.judoAccept_.fill server new_node := by
  simp [judoAccept_.fill, JudoEngine.judoAccept_.fill]

/-- `judoAccept_` without notes. -/
@[simp] theorem erase_judoAccept_ (fuel : ℕ) (server : JudoServer) :
    erase (judoAccept_ fuel server) = JudoEngine.judoAccept_ (JudoEngine.judoHandshake_ · · fuel) server := by
  simp [judoAccept_, JudoEngine.judoAccept_]

@[simp] theorem erase_refuse (client : JudoServer) (new_node : ssl_node) (buffer : ℕ) (output : ℤ) :
    erase (judoConnect_.refuse client new_node buffer output) = JudoEngine.judoConnect_.refuse client new_node buffer output := by
  simp [judoConnect_.refuse, JudoEngine.judoConnect_.refuse]

@[simp] theorem erase_hello (client : JudoServer) (new_node : ssl_node) (buffer : ℕ × Buffer) :
    erase (judoConnect_.hello client new_node buffer) = JudoEngine.judoConnect_.hello client new_node buffer := by
  refine (erase_bind (judoSend_ ..) _).trans ?_
  rw [erase_judoSend_]
  rfl

@[simp] theorem erase_connect_shaken (client : JudoServer) (new_node : ssl_node) (buffer : ℕ × Buffer) (size : ℤ)
    (ret : Option ℤ) : erase (judoConnect_.shaken client new_node buffer size ret)
      = JudoEngine.judoConnect_.shaken client new_node buffer size ret := by
  cases ret with
  | none => rfl
  | some ret => simp [judoConnect_.shaken, JudoEngine.judoConnect_.shaken]

/-- The handshake in it is the program's own. -/
@[simp] theorem erase_join (fuel : ℕ) (client : JudoServer) (new_node : ssl_node) (buffer : ℕ) :
    erase (judoConnect_.join fuel client new_node buffer)
      = JudoEngine.judoConnect_.join (JudoEngine.judoHandshake_ · · fuel) client new_node buffer := by
  rw [judoConnect_.join, JudoEngine.judoConnect_.join, erase_note_bind, erase_op_bind]
  refine congrArg (sys _ >>= ·) (funext fun _ => ?_)
  rw [erase_ite, erase_op_bind]
  refine congrArg (ite _ _) (congrArg (sys _ >>= ·) (funext fun _ => ?_))
  -- with or without certificates
  rw [erase_note_bind, erase_ite, erase_bind, erase_judoHandshake_, erase_hello]
  simp only [erase_connect_shaken]

@[simp] theorem erase_connect_negotiate (fuel : ℕ) (client : JudoServer) (new_node : ssl_node) (t_mode : Byte) :
    erase (judoConnect_.negotiate fuel client new_node t_mode)
      = JudoEngine.judoConnect_.negotiate (JudoEngine.judoHandshake_ · · fuel) client new_node t_mode := by
  simp [judoConnect_.negotiate, JudoEngine.judoConnect_.negotiate]

@[simp] theorem erase_connect_fill (new_node : ssl_node) (t_cert t_key : Option String) :
    erase (judoConnect_.fill new_node t_cert t_key) = JudoEngine.judoConnect_.fill new_node t_cert t_key := by
  simp [judoConnect_.fill, JudoEngine.judoConnect_.fill]

/-- `judoConnect_` without notes. -/
theorem erase_judoConnect_ (fuel : ℕ) (client : JudoServer) (t_cert t_key : Option String) (t_mode : Byte) :
    erase (judoConnect_ fuel client t_cert t_key t_mode)
      = JudoEngine.judoConnect_ (JudoEngine.judoHandshake_ · · fuel) client t_cert t_key t_mode := by
  simp [judoConnect_, JudoEngine.judoConnect_]

theorem erase_init : erase init = JudoServer.init := rfl

/-- Serving a row. That `watch` only marks is the first step. -/
@[simp] theorem erase_serve (fuel : ℕ) (s : Round) (current_poll : pollfd) (current_node : ssl_node) :
    erase (serve fuel s current_poll current_node) = run.serve fuel s current_poll current_node := by
  have hwatch : erase (watch s (current_poll, current_node)) = .ret () := by
    rw [watch, erase_ite]
    exact ite_self _
  rw [serve, run.serve, erase_ite, erase_ite, erase_op_bind]
  refine congrArg (ite _ · _) (congrArg₂ (ite _) (congrArg (sys _ >>= ·) (funext fun _ => ?_)) ?_)
  -- the listening socket
  · rw [erase_bind, erase_judoAccept_]
    refine congrArg (_ >>= ·) (funext fun out => ?_)
    cases out with
    | none => rfl
    | some out => rfl
  -- a connection: `watch`, the store to `revents`, the local `buffer`, and `judoRead_`
  · rw [erase_bind, hwatch, Prog.ret_bind, erase_bind, erase_lift]
    refine congrArg (_ >>= ·) (funext fun s => ?_)
    rw [erase_op_bind]
    refine congrArg (sys _ >>= ·) (funext fun buffer => ?_)
    rw [erase_bind, erase_judoRead_]
    refine congrArg (_ >>= ·) (funext fun out => ?_)
    rcases out with _ | ⟨server, ret, buffer, buffer_size⟩
    · rfl
    · dsimp only
      rw [erase_note_bind, erase_bind, erase_lift]
      refine congrArg (_ >>= ·) (funext fun goesOn => ?_)
      rw [erase_ite]
      rfl

/-- An iteration of the event loop without notes. -/
theorem erase_iteration (fuel : ℕ) (s : Round) : erase (iteration fuel s) = run.iteration fuel s := by
  rw [iteration, run.iteration, erase_bind, erase_lift]
  refine congrArg (_ >>= ·) (funext fun current_poll => ?_)
  rw [erase_bind, erase_lift]
  refine congrArg (_ >>= ·) (funext fun current_node => ?_)
  rw [erase_bind, erase_serve]
  refine congrArg (_ >>= ·) (funext fun out => ?_)
  cases out with
  | none => rfl
  | some out => simp

/-- By induction on the rows. -/
theorem erase_destroy_loop (server : JudoServer) (i : ℕ) : ∀ (m_ssl_nodes : DualDynamicArray pollfd ssl_node),
    erase (destroy.loop server i m_ssl_nodes) = JudoServer.destroy.loop server i m_ssl_nodes := by
  induction i with
  | zero => exact fun _ => rfl
  | succ i ih => simp [destroy.loop, JudoServer.destroy.loop, ih]

/-- The destructor without notes. -/
theorem erase_destroy (server : JudoServer) : erase (destroy server) = server.destroy := by
  rw [destroy, erase_bind, erase_destroy_loop]
  rfl

end Nodes

end JudoEngine
