/-
# The echo server on epoll (`examples/echo_epoll.c`)

One client of the second echo server: a state machine that is called once for each event on its
socket.  `client_on_update` reads only when `EPOLLIN` is reported, and sends only when `EPOLLOUT`
is; `size`, `msg` and their cursors serve both directions.

`Connection` is a client with what is still to come from `recv`, and what has been sent; `Update` is
a call, with the events and what `send` will answer.

`recv` and `send` are calls that return.  The sockets of `echo_epoll.c` are blocking, so this is an
assumption: a client that sends and does not read can fill the buffers of its connection, and then
`send` does not return before it reads.
-/
import CAsync.Echo

namespace CAsync

open Bytes Faulting

/-- `ClientMode`. -/
inductive ClientMode where
  | reading
  | writing
  deriving DecidableEq, Repr

/-- `Client`, without the socket and the links of the lists of the server. -/
structure Client where
  mode : ClientMode
  msg : Str
  size : List UInt8
  readBuffer : List UInt8
  readPtr : Int
  readEnd : Int
  sizePtr : Int
  msgPtr : Int
  deriving DecidableEq, Repr

/-- A new client: all zero. -/
def serverNewClient : Client :=
  { mode := .reading, msg := stringInit, size := [0, 0, 0, 0],
    readBuffer := List.replicate 256 0, readPtr := 0, readEnd := 0, sizePtr := 0, msgPtr := 0 }

/-- A client and its socket. -/
structure Connection where
  client : Client
  incoming : List Piece
  sent : List UInt8

/-- A call of `client_on_update`: whether `events` has `EPOLLIN` and `EPOLLOUT`, and the
next answer of `send`. -/
structure Update where
  input : Bool
  output : Bool
  send : Send
  deriving DecidableEq, Repr

/-! ## 1. Reading -/

/-- `s[i]`. -/
def getByte (s : List UInt8) (i : Int) : Except Fault UInt8 :=
  if 0 ≤ i then load s i.toNat else .error .outOfBounds

/-- The two loops of `client_on_update`: while more is needed, `put` the next byte of the buffer.
An empty buffer ends the call. -/
def readWhile (more : Client → Bool) (put : Client → UInt8 → Except Fault Client) :
    Nat → Client → Except Fault (Client × Bool)
  | 0, c => if more c then .error .endlessChain else .ok (c, true)
  | fuel + 1, c =>
    if more c then
      if c.readPtr ≥ c.readEnd then .ok ({ c with readPtr := 0, readEnd := 0 }, false)
      else do
        let b ← getByte c.readBuffer c.readPtr
        let c ← put { c with readPtr := c.readPtr + 1 } b
        readWhile more put fuel c
    else .ok (c, true)

/-- `client->size[client->size_ptr++] = b`. -/
def putSize (c : Client) (b : UInt8) : Except Fault Client := do
  let size ← setByte c.size c.sizePtr b
  .ok { c with size := size, sizePtr := c.sizePtr + 1 }

/-- `string_append(&client->msg, b)` and `client->msg_ptr++`. -/
def putMsg (c : Client) (b : UInt8) : Except Fault Client := do
  let msg ← stringAppend c.msg b
  .ok { c with msg := msg, msgPtr := c.msgPtr + 1 }

/-- The loop over the header: whether it is there. -/
def readSize (c : Client) : Except Fault (Client × Bool) :=
  readWhile (fun c => c.sizePtr < 4) putSize (4 - c.sizePtr).toNat c

/-- The loop over the message: whether it is there. -/
def readMsg (msgLen : Int) (c : Client) : Except Fault (Client × Bool) :=
  readWhile (fun c => c.msgPtr < msgLen) putMsg (msgLen - c.msgPtr).toNat c

/-- `recv`, if `read_ptr` is 0; nothing if there is nothing to receive. -/
def refill (s : Connection) : Except Fault (Option Connection) :=
  if s.client.readPtr = 0 then
    match s.incoming with
    | [] => .ok none
    | p :: incoming => do
      let buffer ← memcpyTo s.client.readBuffer 0 p.bytes
      let client := { s.client with readBuffer := buffer, readEnd := p.bytes.length }
      .ok (some { s with client := client, incoming := incoming })
  else .ok (some s)

/-- The buffered input: a status if the call ends here, or a message to write. -/
def readFrame (s : Connection) : Except Fault (Connection × Option Int) := do
  let r ← readSize s.client
  if ¬ r.2 then .ok ({ s with client := r.1 }, some 0)
  else do
    let r ← readMsg (headerInt r.1.size) r.1
    if ¬ r.2 then .ok ({ s with client := r.1 }, some 0)
    else
      let client := { r.1 with msgPtr := 0, sizePtr := 0, mode := .writing }
      .ok ({ s with client := client }, none)

/-- `client_on_update` in the mode `Reading`, with `EPOLLIN`. -/
def onInput (s : Connection) : Except Fault (Connection × Option Int) := do
  let filled ← refill s
  match filled with
  | none => .ok (s, some (-1))
  | some s => readFrame s

/-! ## 2. Writing -/

/-- `send`: the status. -/
def sendOnce (bytes : List UInt8) : Send → Int
  | .accepts more => (min (more + 1) bytes.length : Nat)
  | _ => -1

/-- `client_on_update` in the mode `Writing`, with `EPOLLOUT`. -/
def onOutput (s : Connection) (send : Send) : Except Fault (Connection × Int) :=
  let c := s.client
  if c.sizePtr < 4 then do
    let buf ← memcpyFrom c.size c.sizePtr (4 - c.sizePtr).toNat
    let status := sendOnce buf send
    if status = -1 then .ok (s, -1)
    else
      let client := { c with sizePtr := c.sizePtr + status }
      .ok ({ s with client := client, sent := s.sent ++ buf.take status.toNat }, 0)
  else if c.msgPtr < c.msg.len then do
    let buf ← memcpyFrom c.msg.str c.msgPtr (c.msg.len - c.msgPtr).toNat
    let status := sendOnce buf send
    if status = -1 then .ok (s, -1)
    else
      let client := { c with msgPtr := c.msgPtr + status }
      .ok ({ s with client := client, sent := s.sent ++ buf.take status.toNat }, 0)
  else do
    let msg ← stringClear c.msg
    let client := { c with msg := msg, msgPtr := 0, sizePtr := 0, mode := .reading }
    .ok ({ s with client := client }, 0)

/-- `client_on_update`: what it returns. -/
def clientOnUpdate (s : Connection) (u : Update) : Except Fault (Connection × Int) := do
  let r ← if s.client.mode = .reading ∧ u.input then onInput s else .ok (s, none)
  match r.2 with
  | some status => .ok (r.1, status)
  | none =>
    if r.1.client.mode = .writing ∧ u.output then onOutput r.1 u.send else .ok (r.1, 0)

end CAsync
