/-
Opening a connection.

When the server requires no certificates, opening takes one byte in each direction, and then
each end sends a first message. These go the way of all others: the first message is what the
event loop of the other end reads first, and what is sent later comes out after it.
-/
import JudoEngine.JudoServer.Reception

set_option autoImplicit false

open Words Threads Histories

namespace JudoEngine

variable {n : ssl_node} {tr : List (Event Op Ans)}

/-! ## The first message

The server greets a client that it has accepted, and a client says hello to the server; either
way what goes out is a message like any other. -/

/-- The mode byte of a connection without certificates, as it goes over the link. -/
def modePacket : Packet := ([0x0A], [0x0A])

/-- What the call that opens a connection leaves: a node without certificates, with packets
of 1024 bytes, and the mode byte and the first message on the link. -/
structure Opened (n : ssl_node) (text : List Byte) (tr : List (Event Op Ans)) : Prop where
  certs : n.certs = false
  size : n.bufferSize = 1024
  puts : ∃ (m : Buffer × ℕ) (c : List Packet), m.1.bytes m.2 = text ∧ m.2 = text.length ∧ Carried n.certs n.bufferSize m c
    ∧ ∀ l : Link, (l.puts n.certs tr).flying = l.flying ++ modePacket :: c

end JudoEngine
