/-
`JudoServer.cpp` and `ssl_node.cpp`: the member functions as programs over the
system calls, the OpenSSL calls and the memory operations that they make.

The socket layer, OpenSSL and the allocator answer as they like: an answer is
the environment's. A loop of the source that need not end takes a bound on the
number of its rounds and returns `none` when the bound is used up, so a
statement about every bound is one about the loop, ended or not.

Nothing that the code reads from the node of a row changes once the row is in the
table, so a row holds the node itself, with its address.
-/
import JudoEngine.DualDynamicArray
import JudoEngine.Lib.Memory
import JudoEngine.Lib.Prog

set_option autoImplicit false

open Words

namespace JudoEngine

/-! ## Constants

The numbers of `JudoServer.hpp`, in its order, and `POLLIN`. The certificate bits of a
connection are in the upper two bits of its mode, and the lower four are the logarithm of its
packet size. -/

def JUDO_SUCCESS : ℤ := 0
def JUDO_FAILURE : ℤ := -1

def JUDO_MODE_SSL_ENABLED : BitVec 16 := 0x0002
def JUDO_MODE_SERVER_CERTS_REQ : BitVec 16 := 0x0004
def JUDO_MODE_CLIENT_CERTS_REQ : BitVec 16 := 0x0008

def JUDO_READ_CERT_FILE_FAILURE : ℤ := -10
def JUDO_READ_KEY_FILE_FAILURE : ℤ := -11

def JUDO_NO_SERVER_SOCK_ADDR : ℤ := -20
def JUDO_CONNECTION_FAILURE : ℤ := -21
def JUDO_SSL_HANDSHAKE_FAILURE : ℤ := -22
def JUDO_REMOTE_HOST_SERVER_CERTS_REQUIRED : ℤ := -23
def JUDO_REMOTE_HOST_CLIENT_CERTS_REQUIRED : ℤ := -24
def JUDO_INPUT_CERT_FILES_MISSING : ℤ := -25
def JUDO_REMOTE_HOST_NO_SERVER_CERTS : ℤ := -26
def JUDO_REMOTE_HOST_NO_CLIENT_CERTS : ℤ := -27
def JUDO_REMOTE_HOST_DISCONNECT : ℤ := -28

def JUDO_CON_SERVER_CERTS : Byte := 0x40
def JUDO_CON_CLIENT_CERTS : Byte := 0x80

def POLLIN : BitVec 16 := 0x0001

/-! ## Data

The structures of the headers, with the fields that some function reads. A pointer to a node
is its address; a `pollfd` is copied by the source and has none. -/

/-- `struct pollfd`. -/
structure pollfd where
  fd : ℤ
  events : BitVec 16
  revents : BitVec 16
  deriving DecidableEq, Inhabited

/-- The fields of `struct ssl_node` that are used, and its address. -/
structure ssl_node where
  addr : ℕ
  ssl : ℕ
  ssl_ctx : ℕ
  read_bio : ℕ
  write_bio : ℕ
  fp : ℤ
  mode : Byte
  deriving DecidableEq, Inhabited

/-- `enum request`. -/
inductive request where
  | ADD_CONNECT
  | DISCONNECT
  | DO_HANDSHAKE
  deriving DecidableEq

/-- `struct judo_request_node`. -/
structure judo_request_node where
  ssl_info : ssl_node
  poll : pollfd
  req : request

/-- `struct sockaddr_in`: the address and the port. -/
structure sockaddr_in where
  s_addr : BitVec 32
  sin_port : BitVec 16
  deriving DecidableEq

/-- The fields of `class JudoServer` that its functions use; a `nullptr` file
name is `none`. -/
structure JudoServer where
  m_ssl_nodes : DualDynamicArray pollfd ssl_node
  m_server_list_sock : ℤ
  m_server_list_sock_node : ssl_node
  m_list_sock_addr : sockaddr_in
  m_server_cert_file : Option String
  m_server_private_key_file : Option String
  m_active : Bool
  m_mode : BitVec 16
  m_buffer_size : ℤ
  m_buffer_factor : ℤ

/-- `JudoServer::init_`; `node` is the node that it allocates. -/
def JudoServer.init_ (node : ssl_node) : JudoServer where
  m_ssl_nodes := .new
  m_server_list_sock := -1
  m_server_list_sock_node := node
  m_list_sock_addr := ⟨0, 0⟩
  m_server_cert_file := none
  m_server_private_key_file := none
  m_active := false
  m_mode := 0
  m_buffer_size := toInt32 (2 ^ 10)
  m_buffer_factor := 10

/-- `compare_pollfd`. -/
def compare_pollfd (a b : pollfd) : ℤ := a.fd - b.fd

/-! ## The system

Everything that a member function can ask for, in one type of operations, so that a run has
one record and a statement can be about the order of any two of them. There are three kinds:
calls of the socket layer and of OpenSSL, operations on memory that has an owner (nodes, char
arrays, the arrays of the table), and the places where the source relies on what the language
does not define. -/

/-- What the code asks for. `store` is a store through `*t_out_buf`, `indeterminate` the
value of a local that has not been initialised, `freed` that of a field of an object that
has been deleted, and `undefined` what comes of operations whose behaviour the language does
not define. What `print_client` prints of a node that has been deleted is not known. -/
inductive Op where
  | new_ssl_node
  | delete_ssl_node (node : ℕ)
  | new_char (size : ℤ)
  | delete_char (buffer : ℕ)
  | print_client (fp : Option ℤ) (buffer : ℕ)
  | store (buffer : ℕ) (index : ℤ) (x : Byte)
  | indeterminate
  | freed
  | undefined
  | lock (node : ℕ)
  | unlock (node : ℕ)
  | log (t_str : String) (t_num_values : ℤ)
  | sleep
  | socket
  | setsockopt (fd : ℤ)
  | bind (fd : ℤ)
  | listen (fd : ℤ)
  | connect (fd : ℤ)
  | accept (fd : ℤ)
  | read (fd size : ℤ)
  | write (fd size : ℤ) (data : List Byte)
  | close (fd : ℤ)
  | SSL_CTX_new (server : Bool)
  | SSL_CTX_use_certificate_file (ctx : ℕ) (file : String)
  | SSL_CTX_use_PrivateKey_file (ctx : ℕ) (file : String)
  | SSL_new (ctx : ℕ)
  | BIO_new
  | SSL_set_bio (ssl rbio wbio : ℕ)
  | SSL_set_connect_state (ssl : ℕ)
  | SSL_set_accept_state (ssl : ℕ)
  | SSL_free (ssl : ℕ)
  | SSL_CTX_free (ctx : ℕ)
  | SSL_is_init_finished (ssl : ℕ)
  | SSL_do_handshake (ssl : ℕ)
  | SSL_write (ssl : ℕ) (data : List Byte)
  | SSL_read (ssl : ℕ) (size : ℤ)
  | BIO_read (bio : ℕ) (size : ℤ)
  | BIO_write (bio : ℕ) (size : ℤ) (data : List Byte)
  | handshake (node : ℕ)
  | poll (fds : List (Option pollfd))
  | dump
  | access (arrays : ℕ) (index : ℤ) (m_arrays m_size : ℕ)

/-- What it is answered. A new node and a new array come with whatever the
memory holds; a read that fails is `none`. `handshake` stands for a whole
`judoHandshake_` where only its outcome matters. `poll` answers its result and
the new `revents` of each row, and `dump` the requests that were in the queue.
`access` is an access of the event loop to row `index` of the arrays numbered
`arrays`, while the table owns those numbered `m_arrays` and has `m_size` rows;
it answers what such memory holds when there is no such row. `undefined` answers
whether the program ends there. -/
@[reducible] def Ans : Op → Type
  | .new_ssl_node => ssl_node
  | .new_char _ => ℕ × Buffer
  | .indeterminate | .freed | .socket | .bind _ | .listen _ | .connect _ | .accept _ | .write _ _ _ | .handshake _ => ℤ
  | .read _ _ | .SSL_read _ _ | .BIO_read _ _ => Option (List Byte)
  | .SSL_CTX_new _ | .SSL_new _ | .BIO_new => ℕ
  | .SSL_CTX_use_certificate_file _ _ | .SSL_CTX_use_PrivateKey_file _ _ => ℤ
  | .SSL_is_init_finished _ | .undefined => Bool
  | .poll _ => ℤ × (ℕ → BitVec 16)
  | .dump => List judo_request_node
  | .access _ _ _ _ => pollfd × ssl_node
  | _ => Unit

instance (o : Op) : Inhabited (Ans o) := by
  cases o <;> infer_instance

/-- A program over these operations. -/
abbrev Sys := Prog Op Ans

/-- One operation. -/
abbrev sys (o : Op) : Sys (Ans o) := Prog.op o

/-- What a reading call returns. -/
def bytesRead (r : Option (List Byte)) : ℤ :=
  match r with
  | none => -1
  | some l => l.length

/-- Something that has been read has a length. -/
theorem bytesRead_pos {r : List Byte} (hr : r ≠ []) : 0 < bytesRead (some r) :=
  Int.natCast_pos.mpr (List.length_pos_iff.mpr hr)

/-- `0x01 << count`. A count of 32 or more is undefined; the shift instruction
takes it modulo 32. -/
def shiftOne (count : Byte) : ℤ := toInt32 (2 ^ (count.toNat % 32))

/-- `mode & (JUDO_CON_SERVER_CERTS | JUDO_CON_CLIENT_CERTS)`. -/
def ssl_node.certs (t_node : ssl_node) : Bool :=
  t_node.mode &&& (JUDO_CON_SERVER_CERTS ||| JUDO_CON_CLIENT_CERTS) ≠ 0

/-- `0x01 << (mode & 0xCF)`: the size of the packets on the connection. -/
def ssl_node.bufferSize (t_node : ssl_node) : ℤ := shiftOne (t_node.mode &&& 0xCF)

/-- `dstr_ssl_node`. -/
def dstr_ssl_node (node : ssl_node) : Sys Unit := do
  sys (.SSL_free node.ssl)
  sys (.SSL_CTX_free node.ssl_ctx)
  sys (.delete_ssl_node node.addr)

/-! ## Sending

A packet is two numbers of four bytes, a payload of `buffer_size - 40` bytes, and 32 bytes at
the end that the loop does not fill. The buffer is made once and filled again for each packet,
so what is not overwritten comes from the packet before. -/

/-- `for (int j = 0; j < buffer_size - 40; j++)` in `judoSend_`, with `n` rounds to
go: the buffer and the index after it. -/
def judoSend_.fill (t_buffer : Buffer) (t_size : ℤ) : ℕ → (j index : ℤ) → Buffer → Buffer × ℤ
  | 0, _, index, buffer => (buffer, index)
  | n + 1, j, index, buffer =>
      if index ≠ t_size then fill t_buffer t_size n (j + 1) (index + 1) (buffer.set (8 + j) (t_buffer index))
      else fill t_buffer t_size n (j + 1) index (buffer.set (8 + j) 0x00)

/-- `for (int i = 1; i <= packets; i++)` in `judoSend_`, with `n` rounds to go. -/
def judoSend_.loop (t_node : ssl_node) (t_buffer : Buffer) (t_size buffer_size packets : ℤ) :
    ℕ → (i index : ℤ) → Buffer → Sys Unit
  | 0, _, _, _ => pure ()
  | n + 1, i, index, buffer => do
      let buffer := (buffer.putInt32 0 i).putInt32 4 packets
      let filled := judoSend_.fill t_buffer t_size (buffer_size - 40).toNat 0 index buffer
      if t_node.certs then do
        sys (.SSL_write t_node.ssl (filled.1.bytes (buffer_size - 32)))
        let r ← sys (.BIO_read t_node.write_bio buffer_size)
        let sealed := filled.1.fill (r.getD [])
        let _ ← sys (.write t_node.fp (bytesRead r) (sealed.bytes (bytesRead r)))
        loop t_node t_buffer t_size buffer_size packets n (i + 1) filled.2 sealed
      else do
        let _ ← sys (.write t_node.fp buffer_size (filled.1.bytes buffer_size))
        loop t_node t_buffer t_size buffer_size packets n (i + 1) filled.2 filled.1

/-- `JudoServer::judoSend_`. -/
def judoSend_ (t_node : ssl_node) (t_buffer : Buffer) (t_size : ℤ) : Sys ℤ := do
  sys (.lock t_node.addr)
  let buffer_size := t_node.bufferSize
  let packets := 1 + t_size.tdiv (buffer_size - 40)
  let buffer ← sys (.new_char buffer_size)
  judoSend_.loop t_node t_buffer t_size buffer_size packets packets.toNat 1 0 buffer.2
  sys (.delete_char buffer.1)
  sys (.unlock t_node.addr)
  pure 0

/-! ## Receiving

The mirror image, one `read` for each packet: how many bytes it has brought is only asked to
see whether there are any. `index` is an argument of the loop because the source never sets
it. -/

/-- `JudoServer::judoDisconnect_`; it has no `return`, and its callers do not look
at what it returns. -/
def judoDisconnect_ (server : JudoServer) (t_node : ssl_node) (t_poll : pollfd) : Sys JudoServer := do
  sys (.log "Disconnecting Client: /%a" 1)
  sys (.close t_node.fp)
  dstr_ssl_node t_node
  pure { server with m_ssl_nodes := server.m_ssl_nodes.remove compare_pollfd t_poll }

/-- `for (int i = 0; i < packet_buf_size - 40; i++)` in `judoRead_`, with `n` rounds
to go. -/
def judoRead_.copy (t_out_buf : ℕ) (packet_buffer : Buffer) : ℕ → (i index : ℤ) → Sys Unit
  | 0, _, _ => pure ()
  | n + 1, i, index => do
      sys (.store t_out_buf index (packet_buffer (8 + i)))
      copy t_out_buf packet_buffer n (i + 1) (index + 1)

/-- What a round of `judoRead_` does with the bytes it has read: under TLS they go
through OpenSSL, which is not asked whether it had a record. -/
def judoRead_.unseal (t_node : ssl_node) (packet_buf_size bytes_read : ℤ) (packet_buffer : Buffer) :
    Sys Buffer :=
  if t_node.certs then do
    sys (.BIO_write t_node.read_bio bytes_read (packet_buffer.bytes bytes_read))
    let c ← sys (.SSL_read t_node.ssl packet_buf_size)
    pure (packet_buffer.fill (c.getD []))
  else pure packet_buffer

/-- `if (*t_outbuf_size == -1)` in `judoRead_`: the array and its size after it.
`new` throws when it is asked for an array of negative length, and nothing
catches that. -/
def judoRead_.reserve (b packet_buf_size : ℤ) (t_out_buf : ℕ) (t_outbuf_size : ℤ) :
    Sys (Option (ℕ × ℤ)) :=
  if t_outbuf_size = -1 then
    if toInt32 (b * packet_buf_size) < 0 then pure none
    else do
      let out ← sys (.new_char (toInt32 (b * packet_buf_size)))
      pure (some (out.1, toInt32 (b * packet_buf_size)))
  else pure (some (t_out_buf, t_outbuf_size))

/-- The `do` loop of `judoRead_`, at most `fuel` rounds of it: the server after it,
what the call returns, `*t_out_buf` and `*t_outbuf_size`. -/
def judoRead_.loop (server : JudoServer) (t_node : ssl_node) (t_poll : pollfd) (buffer : ℕ)
    (packet_buf_size : ℤ) :
    ℕ → (packet_buffer : Buffer) → (t_out_buf : ℕ) → (index t_outbuf_size : ℤ) →
      Sys (Option (JudoServer × ℤ × ℕ × ℤ))
  | 0, _, _, _, _ => pure none
  | fuel + 1, packet_buffer, t_out_buf, index, t_outbuf_size => do
      let r ← sys (.read t_node.fp packet_buf_size)
      if bytesRead r ≤ 0 then do
        let server ← judoDisconnect_ server t_node t_poll
        sys (.unlock t_node.addr)
        pure (some (server, -1, t_out_buf, t_outbuf_size))
      else do
        let packet_buffer ←
          judoRead_.unseal t_node packet_buf_size (bytesRead r) (packet_buffer.fill (r.getD []))
        let a := packet_buffer.int32 0
        let b := packet_buffer.int32 4
        match ← judoRead_.reserve b packet_buf_size t_out_buf t_outbuf_size with
        | none => pure none
        | some (out_buf, outbuf_size) => do
            let packet_buffer := packet_buffer.set (packet_buf_size - 32) 0
            judoRead_.copy out_buf packet_buffer (packet_buf_size - 40).toNat 0 index
            if a ≠ b then
              loop server t_node t_poll buffer packet_buf_size fuel packet_buffer out_buf
                (index + (packet_buf_size - 40).toNat) outbuf_size
            else do
              sys (.delete_char buffer)
              sys (.unlock t_node.addr)
              pure (some (server, 0, out_buf, outbuf_size))

/-- `JudoServer::judoRead_`, with what `*t_out_buf` is before it. -/
def judoRead_ (fuel : ℕ) (server : JudoServer) (t_node : ssl_node) (t_poll : pollfd) (t_out_buf : ℕ) :
    Sys (Option (JudoServer × ℤ × ℕ × ℤ)) := do
  sys (.lock t_node.addr)
  let index ← sys .indeterminate
  let packet_buf_size := t_node.bufferSize
  let packet_buffer ← sys (.new_char packet_buf_size)
  judoRead_.loop server t_node t_poll packet_buffer.1 packet_buf_size fuel packet_buffer.2 t_out_buf
    index (-1)

end JudoEngine
