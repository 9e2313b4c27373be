/-
`JudoServer.cpp`: configuring a server, and making connections.

`judoAccept_` and `judoConnect_` take the handshake as an argument. The code's own
is `judoHandshake_`, with a bound on its rounds; `tlsHandshake` is one operation
that only has an outcome.
-/
import JudoEngine.JudoServer.Model

set_option autoImplicit false

open Words

namespace JudoEngine

/-! ## TLS

The three functions that fill a node, and the handshake. A file name that is not there is
passed over, and what a file's use returns is the only result of OpenSSL that is looked at:
`SSL_CTX_new`, `SSL_new` and `BIO_new` may have failed. -/

/-- What `judoFillGeneralSSLFields_` does with each of its two file names. -/
def useFile (use : String → Sys ℤ) (failure : ℤ) : Option String → Sys ℤ
  | none => pure JUDO_SUCCESS
  | some file => do
      let ret ← use file
      if ret ≤ 0 then do
        sys (.log "FAILED to find file: /%b" 1)
        pure failure
      else pure JUDO_SUCCESS

/-- `JudoServer::judoFillGeneralSSLFields_`; the method is the server's or the client's. -/
def judoFillGeneralSSLFields_ (t_ssl_node : ssl_node) (t_cert t_key : Option String) (server_method : Bool) :
    Sys (ssl_node × ℤ) := do
  let ctx ← sys (.SSL_CTX_new server_method)
  let t_ssl_node := { t_ssl_node with ssl_ctx := ctx }
  let ret ← useFile (fun file => sys (.SSL_CTX_use_certificate_file ctx file)) JUDO_READ_CERT_FILE_FAILURE t_cert
  if ret ≠ JUDO_SUCCESS then pure (t_ssl_node, ret)
  else do
    let ret ← useFile (fun file => sys (.SSL_CTX_use_PrivateKey_file ctx file)) JUDO_READ_KEY_FILE_FAILURE t_key
    if ret ≠ JUDO_SUCCESS then pure (t_ssl_node, ret)
    else do
      let ssl ← sys (.SSL_new ctx)
      let read_bio ← sys .BIO_new
      let write_bio ← sys .BIO_new
      sys (.SSL_set_bio ssl read_bio write_bio)
      pure ({ t_ssl_node with ssl := ssl, read_bio := read_bio, write_bio := write_bio }, JUDO_SUCCESS)

/-- `JudoServer::judoFillServerSSLFields_`. -/
def judoFillServerSSLFields_ (server : JudoServer) (t_node : ssl_node) : Sys (ssl_node × ℤ) := do
  let filled ← judoFillGeneralSSLFields_ t_node server.m_server_cert_file server.m_server_private_key_file true
  if filled.2 ≠ JUDO_SUCCESS then pure filled
  else do
    sys (.SSL_set_accept_state filled.1.ssl)
    pure (filled.1, JUDO_SUCCESS)

/-- `JudoServer::judoFillClientSSLFields_`; it sets the state whether the node could be
filled or not. -/
def judoFillClientSSLFields_ (t_node : ssl_node) (t_cert t_key : Option String) : Sys (ssl_node × ℤ) := do
  let filled ← judoFillGeneralSSLFields_ t_node t_cert t_key false
  sys (.SSL_set_connect_state filled.1.ssl)
  pure filled

/-- `JudoServer::judoHandshake_`, at most `fuel` rounds of it. -/
def judoHandshake_ (t_node : ssl_node) (t_buffer_size : ℤ) : ℕ → Sys (Option ℤ)
  | 0 => pure none
  | fuel + 1 => do
      let finished ← sys (.SSL_is_init_finished t_node.ssl)
      if finished then do
        sys (.log "Client: /%a Handshake Successful" 1)
        pure (some JUDO_SUCCESS)
      else do
        sys (.SSL_do_handshake t_node.ssl)
        let w ← sys (.BIO_read t_node.write_bio t_buffer_size)
        if bytesRead w > 0 then do
          let _ ← sys (.write t_node.fp (bytesRead w) (w.getD []))
          judoHandshake_ t_node t_buffer_size fuel
        else do
          let r ← sys (.read t_node.fp t_buffer_size)
          if bytesRead r > 0 then do
            sys (.BIO_write t_node.read_bio (bytesRead r) (r.getD []))
            judoHandshake_ t_node t_buffer_size fuel
          else if bytesRead w < 0 then pure (some JUDO_SSL_HANDSHAKE_FAILURE)
          else judoHandshake_ t_node t_buffer_size fuel

/-- A handshake of which only the outcome matters. -/
def tlsHandshake (t_node : ssl_node) (_ : ℤ) : Sys (Option ℤ) := do
  let ret ← sys (.handshake t_node.addr)
  pure (some ret)

/-! ## Configuring a server

Each of these changes the object and returns a code; that the two do not always go together is
the matter of `SetUp` and `Flags`. The two requirements are one program with two flags and
four texts. -/

/-- `JudoServer::judoMakeServerSock_`. The `mode` that it adds a flag to is a local
variable. -/
def judoMakeServerSock_ (server : JudoServer) : Sys (JudoServer × ℤ) :=
  if server.m_list_sock_addr = ⟨0, 0⟩ then do
    sys (.log "FAILED to open server sock as the sock address was empty" 0)
    pure (server, JUDO_NO_SERVER_SOCK_ADDR)
  else do
    let fd ← sys .socket
    sys (.setsockopt fd)
    let _ ← sys (.bind fd)
    let _ ← sys (.listen fd)
    sys (.log "Server socket successfully opened at /%a" 1)
    pure ({ server with
      m_server_list_sock := fd
      m_ssl_nodes := server.m_ssl_nodes.add ⟨fd, POLLIN, 0⟩ server.m_server_list_sock_node }, JUDO_SUCCESS)

/-- `JudoServer::judoSetUpServerSockSSL`. -/
def judoSetUpServerSockSSL (server : JudoServer) (t_cert t_private_key : Option String) : Sys (JudoServer × ℤ) := do
  let server := { server with m_server_cert_file := t_cert, m_server_private_key_file := t_private_key }
  let filled ← judoFillServerSSLFields_ server server.m_server_list_sock_node
  let server := { server with m_server_list_sock_node := filled.1 }
  if filled.2 ≠ JUDO_SUCCESS then do
    sys (.log "FAILED to set up Server SSL" 0)
    pure (server, filled.2)
  else do
    sys (.log "Server SSL set up successful" 0)
    pure ({ server with m_mode := server.m_mode ||| JUDO_MODE_SSL_ENABLED }, JUDO_SUCCESS)

/-- What the two functions that follow do. -/
def requireCerts (server : JudoServer) (flag : BitVec 16) (done failed : String) : Sys (JudoServer × ℤ) :=
  if server.m_mode &&& JUDO_MODE_SSL_ENABLED ≠ 0 ∧ ¬ server.m_active then do
    sys (.log done 0)
    pure ({ server with m_mode := server.m_mode ||| flag }, 0)
  else do
    sys (.log failed 0)
    pure (server, -1)

/-- `JudoServer::judoServerRequireCerts`. -/
def judoServerRequireCerts (server : JudoServer) : Sys (JudoServer × ℤ) :=
  requireCerts server JUDO_MODE_SERVER_CERTS_REQ "Server Certification requirement set."
    "FAILED to set Server Certification requirement as SSL is not initialized"

/-- `JudoServer::judoClientRequireCerts`. -/
def judoClientRequireCerts (server : JudoServer) : Sys (JudoServer × ℤ) :=
  requireCerts server JUDO_MODE_CLIENT_CERTS_REQ "Client Certification requirement set."
    "FAILED to set Client Certification requirement as SSL is not initialized"

/-! ## Accepting

The source's function in pieces, cut where its calls of other functions and its exits are; a
piece is named for what it begins with. `none` is a handshake that has not come to an end
within its bound. -/

/-- The mode byte of a new connection: the buffer factor, and what the server requires. -/
def JudoServer.connectionMode (server : JudoServer) : Byte :=
  let mode := BitVec.ofInt 8 server.m_buffer_factor
  let mode := if server.m_mode &&& JUDO_MODE_SERVER_CERTS_REQ ≠ 0 then mode ||| JUDO_CON_SERVER_CERTS else mode
  if server.m_mode &&& JUDO_MODE_CLIENT_CERTS_REQ ≠ 0 then mode ||| JUDO_CON_CLIENT_CERTS else mode

/-- The greeting, with its NUL: 3071 characters 8 and a 9. -/
def greeting : List Byte := List.replicate 3071 0x38 ++ [0x39, 0x00]

/-- `judoAccept_` from the row that it adds on. -/
def judoAccept_.greet (server : JudoServer) (new_node : ssl_node) (buffer : ℕ) : Sys (Option (JudoServer × ℤ)) := do
  let server := { server with m_ssl_nodes := server.m_ssl_nodes.add ⟨new_node.fp, POLLIN, 0⟩ new_node }
  sys (.delete_char buffer)
  let buffer ← sys (.new_char 4096)
  sys .sleep
  let _ ← judoSend_ new_node (buffer.2.fill greeting) 3073
  sys (.delete_char buffer.1)
  pure (some (server, JUDO_SUCCESS))

/-- `judoAccept_` after the handshake. -/
def judoAccept_.shaken (server : JudoServer) (new_node : ssl_node) (buffer : ℕ) : Option ℤ → Sys (Option (JudoServer × ℤ))
  | none => pure none
  | some ret =>
      if ret ≠ JUDO_SUCCESS then do
        sys (.delete_char buffer)
        dstr_ssl_node new_node
        -- the node is gone, and its `fp` with it
        let fp ← sys .freed
        sys (.close fp)
        pure (some (server, JUDO_SSL_HANDSHAKE_FAILURE))
      else judoAccept_.greet server new_node buffer

/-- `judoAccept_` from the node on that has its mode and its TLS fields. The mode is
an unsigned byte and `buffer[0]` a signed one, so the comparison of the two is one
of integers. -/
def judoAccept_.negotiate (judoHandshake_ : ssl_node → ℤ → Sys (Option ℤ)) (server : JudoServer) (new_node : ssl_node) :
    Sys (Option (JudoServer × ℤ)) := do
  let buffer ← sys (.new_char server.m_buffer_size)
  let fp ← sys (.accept server.m_server_list_sock)
  let new_node := { new_node with fp := fp }
  sys (.setsockopt new_node.fp)
  let ret_val ← sys (.write new_node.fp 1 ((buffer.2.set 0 new_node.mode).bytes 1))
  if ret_val ≤ 0 then do
    sys (.close new_node.fp)
    dstr_ssl_node new_node
    pure (some (server, JUDO_FAILURE))
  else do
    let resp ← sys (.read new_node.fp 1)
    let response := (buffer.2.set 0 new_node.mode).fill (resp.getD []) 0
    sys (.log "Client: /%a has connected" 1)
    -- a mode byte of 0x80 or more is negative on the left
    if bytesRead resp > 0 ∧ response.toInt = new_node.mode.toNat then
      if new_node.certs then do
        let ret ← judoHandshake_ new_node server.m_buffer_size
        judoAccept_.shaken server new_node buffer.1 ret
      else judoAccept_.greet server new_node buffer.1
    else do
      sys (.close new_node.fp)
      dstr_ssl_node new_node
      pure (some (server, JUDO_FAILURE))

/-- `if (m_mode & JUDO_MODE_SSL_ENABLED)` in `judoAccept_`. -/
def judoAccept_.fill (server : JudoServer) (new_node : ssl_node) : Sys (ssl_node × ℤ) :=
  if server.m_mode &&& JUDO_MODE_SSL_ENABLED ≠ 0 then judoFillServerSSLFields_ server new_node
  else pure (new_node, JUDO_SUCCESS)

/-- `JudoServer::judoAccept_`. -/
def judoAccept_ (judoHandshake_ : ssl_node → ℤ → Sys (Option ℤ)) (server : JudoServer) :
    Sys (Option (JudoServer × ℤ)) := do
  let new_node ← sys .new_ssl_node
  let filled ← judoAccept_.fill server new_node
  if filled.2 ≠ JUDO_SUCCESS then do
    sys (.delete_ssl_node new_node.addr)
    pure (some (server, filled.2))
  else judoAccept_.negotiate judoHandshake_ server { filled.1 with mode := server.connectionMode }

/-! ## Connecting

The client's side, in pieces of the same kind. The socket that `judoSocketConnect_` could not
connect is closed and becomes -1, so the node that is destroyed then holds no descriptor. -/

/-- `JudoServer::judoSocketConnect_`: what it returns, and `*t_fp_out`. -/
def judoSocketConnect_ : Sys (ℤ × ℤ) := do
  let fp ← sys .socket
  sys (.setsockopt fp)
  let return_val ← sys (.connect fp)
  if return_val < 0 then do
    sys (.close fp)
    pure (JUDO_CONNECTION_FAILURE, -1)
  else pure (JUDO_SUCCESS, fp)

/-- What `judoConnect_` does with a server whose certificate bits differ. -/
def judoConnect_.refuse (client : JudoServer) (new_node : ssl_node) (buffer : ℕ) (output : ℤ) :
    Sys (Option (JudoServer × ℤ)) := do
  let _ ← sys (.write new_node.fp 1 [0xFF])
  sys (.close new_node.fp)
  sys (.delete_char buffer)
  dstr_ssl_node new_node
  pure (some (client, output))

/-- `judoConnect_` from the row that it adds on; it ends with a first message. -/
def judoConnect_.hello (client : JudoServer) (new_node : ssl_node) (buffer : ℕ × Buffer) :
    Sys (Option (JudoServer × ℤ)) := do
  let client := { client with m_ssl_nodes := client.m_ssl_nodes.add ⟨new_node.fp, POLLIN, 0⟩ new_node }
  let _ ← judoSend_ new_node (buffer.2.fill [0x4A, 0x65, 0x4A, 0x65, 0x4A, 0x65, 0x00]) 7
  sys (.delete_char buffer.1)
  pure (some (client, JUDO_SUCCESS))

/-- `judoConnect_` after the handshake. -/
def judoConnect_.shaken (client : JudoServer) (new_node : ssl_node) (buffer : ℕ × Buffer) (size : ℤ) :
    Option ℤ → Sys (Option (JudoServer × ℤ))
  | none => pure none
  | some ret =>
      if ret ≠ JUDO_SUCCESS then do
        sys (.delete_char buffer.1)
        dstr_ssl_node new_node
        let fp ← sys .freed
        sys (.close fp)
        pure (some (client, JUDO_SSL_HANDSHAKE_FAILURE))
      else do
        -- one packet more is read, and thrown away
        let r ← sys (.read new_node.fp size)
        sys (.BIO_write new_node.read_bio (bytesRead r) (r.getD []))
        let c ← sys (.SSL_read new_node.ssl size)
        judoConnect_.hello client new_node (buffer.1, (buffer.2.fill (r.getD [])).fill (c.getD []))

/-- `judoConnect_` from the answer to the server on. `new` throws when it is asked for
an array of negative length, and nothing catches that. -/
def judoConnect_.join (judoHandshake_ : ssl_node → ℤ → Sys (Option ℤ)) (client : JudoServer) (new_node : ssl_node)
    (buffer : ℕ) : Sys (Option (JudoServer × ℤ)) := do
  let size := shiftOne (0x3F &&& new_node.mode)
  sys (.delete_char buffer)
  if size < 0 then pure none
  else do
    let buffer ← sys (.new_char size)
    if new_node.certs then do
      let ret ← judoHandshake_ new_node size
      judoConnect_.shaken client new_node buffer size ret
    else judoConnect_.hello client new_node buffer

/-- `judoConnect_` from the connected socket on. -/
def judoConnect_.negotiate (judoHandshake_ : ssl_node → ℤ → Sys (Option ℤ)) (client : JudoServer) (new_node : ssl_node)
    (t_mode : Byte) : Sys (Option (JudoServer × ℤ)) := do
  let buffer ← sys (.new_char 1)
  let r ← sys (.read new_node.fp 1)
  if bytesRead r > 0 then do
    let mode := buffer.2.fill (r.getD []) 0
    if mode &&& JUDO_CON_SERVER_CERTS ≠ t_mode &&& JUDO_CON_SERVER_CERTS then
      judoConnect_.refuse client new_node buffer.1
        (if mode &&& JUDO_CON_SERVER_CERTS ≠ 0 then JUDO_REMOTE_HOST_SERVER_CERTS_REQUIRED
          else JUDO_REMOTE_HOST_NO_SERVER_CERTS)
    else if mode &&& JUDO_CON_CLIENT_CERTS ≠ t_mode &&& JUDO_CON_CLIENT_CERTS then
      judoConnect_.refuse client new_node buffer.1
        (if mode &&& JUDO_CON_CLIENT_CERTS ≠ 0 then JUDO_REMOTE_HOST_CLIENT_CERTS_REQUIRED
          else JUDO_REMOTE_HOST_NO_CLIENT_CERTS)
    else do
      let _ ← sys (.write new_node.fp 1 [mode])
      sys (.log "Connection to /%a was Successful" 1)
      judoConnect_.join judoHandshake_ client { new_node with mode := mode } buffer.1
  else do
    sys (.delete_char buffer.1)
    dstr_ssl_node new_node
    let fp ← sys .freed
    sys (.close fp)
    pure (some (client, JUDO_REMOTE_HOST_DISCONNECT))

/-- `if (t_mode & (JUDO_CON_CLIENT_CERTS | JUDO_CON_SERVER_CERTS))` in `judoConnect_`. -/
def judoConnect_.fill (new_node : ssl_node) (t_cert t_key : Option String) : Sys (ssl_node × ℤ) :=
  if new_node.mode &&& (JUDO_CON_CLIENT_CERTS ||| JUDO_CON_SERVER_CERTS) ≠ 0 then
    judoFillClientSSLFields_ new_node t_cert t_key
  else pure (new_node, JUDO_SUCCESS)

/-- `judoConnect_`'s check of its arguments. -/
def CertFilesMissing (t_cert t_key : Option String) (t_mode : Byte) : Prop :=
  t_mode &&& JUDO_CON_CLIENT_CERTS ≠ 0 ∧ (t_cert = none ∨ t_key = none)

instance (t_cert t_key : Option String) (t_mode : Byte) : Decidable (CertFilesMissing t_cert t_key t_mode) :=
  inferInstanceAs (Decidable (_ ∧ _))

/-- `JudoServer::judoConnect_`. -/
def judoConnect_ (judoHandshake_ : ssl_node → ℤ → Sys (Option ℤ)) (client : JudoServer) (t_cert t_key : Option String)
    (t_mode : Byte) : Sys (Option (JudoServer × ℤ)) :=
  if CertFilesMissing t_cert t_key t_mode then pure (some (client, JUDO_INPUT_CERT_FILES_MISSING))
  else do
    let new_node ← sys .new_ssl_node
    let filled ← judoConnect_.fill { new_node with mode := t_mode } t_cert t_key
    if filled.2 ≠ JUDO_SUCCESS then pure (some (client, filled.2))
    else do
      sys (.log "Attempting to connect to /%a" 1)
      let connected ← judoSocketConnect_
      let new_node := { filled.1 with fp := connected.2 }
      if connected.1 ≠ JUDO_SUCCESS then do
        dstr_ssl_node new_node
        pure (some (client, connected.1))
      else judoConnect_.negotiate judoHandshake_ client new_node t_mode

end JudoEngine
