/-
# The clients of the epoll server (`examples/echo_epoll.c`)

`Epoll` has one client; here is the server around it.  The clients are records in memory, with links
to their neighbours, and the server has the first one of the list `clients` and of the list
`free_clients`.  An event carries the address of a record, and the record whose socket is the one
that accepts is not a client.

`shutdown`, `close` and `free` are only what the records show of them.  `epollFd` stands for the
interest list of `epoll_fd`, and `close` takes a socket off it.  A record keeps what has been sent
on its socket.

`accept`, `recv` and `send` are calls that return.  The sockets are blocking, so this is an
assumption: one client that sends frames and does not read the answers can stop the whole server
inside `send`.  What is said here of the server is said of the calls that it makes and that return.

The statistics that `run_server` prints are left out, but for `current_client_cnt`.  The one that
could overflow is `bytes_processed`, a `static int` to which each frame adds `msg_len + 4`, and
which is set back to 0 when it is printed; that it stays below 2^31 in between is an assumption.
-/
import CAsync.EpollFraming

namespace CAsync

open Faulting

/-- Why the server stops.  The first three are its assertions, `update` is a fault of
`client_on_update`. -/
inductive ServerFault where
  | freeNotFirst
  | firstHasPrev
  | socketClosed
  | badPointer
  | endless
  | update (f : Fault)
  deriving DecidableEq, Repr

/-- `Client`, and its socket. -/
structure ClientRecord where
  conn : Connection
  socket : Int
  prev : Option Nat
  next : Option Nat

/-- `Server` and `current_client_cnt`, and the records that `calloc` has returned: the address of a
record is its place in `heap`. -/
structure Server where
  acceptSocket : Int
  clients : Option Nat
  freeClients : Option Nat
  currentClientCnt : Int
  heap : List ClientRecord
  epollFd : List Nat

/-- What `accept` returns, and `epoll_ctl` behind it.  A new socket comes with all that
will be received on it. -/
inductive Accept where
  | failed
  | connected (socket : Int) (incoming : List Piece) (added : Bool)

/-- An event of `epoll_wait`, and what the calls behind it will answer: `update` is the next call of
`client_on_update`, and `hangup` stands for `EPOLLHUP` and `EPOLLERR`. -/
structure Event where
  ptr : Nat
  accept : Accept
  update : Update
  hangup : Bool

namespace Server

/-! ## 1. The list of the clients -/

/-- `*c`. -/
def client (s : Server) (c : Nat) : Except ServerFault ClientRecord :=
  match s.heap[c]? with
  | some r => .ok r
  | none => .error .badPointer

def setClient (s : Server) (c : Nat) (r : ClientRecord) : Server :=
  { s with heap := s.heap.set c r }

/-- A record that `calloc` returns, or that is overwritten by `(Client){0}`. -/
def zeroClient (incoming : List Piece) : ClientRecord :=
  { conn := accepted incoming, socket := 0, prev := none, next := none }

/-- The first part of `server_new_client`: a record of the list `free_clients`, or a new one. -/
def takeClient (s : Server) : Except ServerFault (Server × Nat) :=
  match s.freeClients with
  | some c => do
    let r ← s.client c
    require (r.prev = none) .freeNotFirst
    .ok ({ s with freeClients := r.next }, c)
  | none => .ok ({ s with heap := s.heap ++ [zeroClient []] }, s.heap.length)

/-- `if (next) { assert(next->prev == NULL); next->prev = c; }`. -/
def linkFirst (s : Server) (next : Option Nat) (c : Nat) : Except ServerFault Server :=
  match next with
  | none => .ok s
  | some n => do
    let r ← s.client n
    require (r.prev = none) .firstHasPrev
    .ok (s.setClient n { r with prev := some c })

/-- `server_new_client`. -/
def serverNewClient (s : Server) (socket : Int) (incoming : List Piece) :
    Except ServerFault (Server × Nat) := do
  let (s, c) ← s.takeClient
  let next := s.clients
  let s := { s with clients := some c }.setClient c { zeroClient incoming with next := next }
  let s ← s.linkFirst next c
  let r ← s.client c
  .ok (s.setClient c { r with socket := socket }, c)

/-- `if (c) { c->next = next; }`. -/
def setNext (s : Server) (c next : Option Nat) : Except ServerFault Server :=
  match c with
  | none => .ok s
  | some c => do
    let r ← s.client c
    .ok (s.setClient c { r with next := next })

/-- `if (c) { c->prev = prev; }`. -/
def setPrev (s : Server) (c prev : Option Nat) : Except ServerFault Server :=
  match c with
  | none => .ok s
  | some c => do
    let r ← s.client c
    .ok (s.setClient c { r with prev := prev })

/-- `string_deinit(&client->msg)`. -/
def deinitMsg (r : ClientRecord) : ClientRecord :=
  { r with conn := { r.conn with client := { r.conn.client with msg := stringInit } } }

/-- `server_close_client`. -/
def serverCloseClient (s : Server) (c : Nat) : Except ServerFault Server := do
  let r ← s.client c
  let s := { s with epollFd := s.epollFd.filter (· ≠ c) }.setClient c (deinitMsg r)
  let s ← s.setNext r.prev r.next
  let s ← s.setPrev r.next r.prev
  let r ← s.client c
  .ok (s.setClient c { r with next := s.freeClients, prev := none, socket := 0 })

/-! ## 2. `start_server`, `run_server` and `stop_server` -/

/-- The end of `start_server`, when the server listens on `acceptSocket`. -/
def startServer (acceptSocket : Int) : Except ServerFault Server := do
  let s : Server :=
    { acceptSocket := acceptSocket, clients := none, freeClients := none, currentClientCnt := 0,
      heap := [], epollFd := [] }
  let (s, c) ← s.serverNewClient acceptSocket []
  .ok { s with epollFd := [c] }

/-- `run_server`, when the event is one of the socket that accepts. -/
def onAccept (s : Server) (a : Accept) : Except ServerFault Server := do
  let s := { s with currentClientCnt := s.currentClientCnt + 1 }
  match a with
  | .failed => .ok s
  | .connected socket incoming added => do
    let (s, c) ← s.serverNewClient socket incoming
    if added then .ok { s with epollFd := c :: s.epollFd } else .ok s

/-- `client_on_update`, on the record of the client. -/
def updateClient (s : Server) (c : Nat) (r : ClientRecord) (u : Update) :
    Except ServerFault (Server × Int) :=
  match clientOnUpdate r.conn u with
  | .error f => .error (.update f)
  | .ok (conn, status) => .ok (s.setClient c { r with conn := conn }, status)

/-- The body of the loop of `run_server`, for one event. -/
def onEvent (s : Server) (e : Event) : Except ServerFault Server := do
  let r ← s.client e.ptr
  if r.socket = s.acceptSocket then s.onAccept e.accept
  else do
    require (r.socket ≠ 0) .socketClosed
    let (s, status) ← s.updateClient e.ptr r e.update
    if status = -1 ∨ e.hangup then do
      let s ← s.serverCloseClient e.ptr
      .ok { s with currentClientCnt := s.currentClientCnt - 1 }
    else .ok s

/-- The first loop of `stop_server`. -/
def closeFrom : Nat → Server → Option Nat → Except ServerFault Server
  | _, s, none => .ok s
  | 0, _, some _ => .error .endless
  | fuel + 1, s, some c => do
    let s ← s.serverCloseClient c
    let r ← s.client c
    closeFrom fuel s r.next

/-- The second loop of `stop_server`: the records that are freed. -/
def freeFrom (s : Server) : Nat → Option Nat → Except ServerFault (List Nat)
  | _, none => .ok []
  | 0, some _ => .error .endless
  | fuel + 1, some c => do
    let r ← s.client c
    let freed ← freeFrom s fuel r.next
    .ok (c :: freed)

/-- `stop_server`: the records that are freed, too. -/
def stopServer (s : Server) : Except ServerFault (Server × List Nat) := do
  let s ← closeFrom s.heap.length { s with epollFd := [] } s.clients
  let freed ← s.freeFrom s.heap.length s.freeClients
  .ok (s, freed)

/-! ## 3. Runs -/

/-- What the operating system promises: an event is one of a socket in the interest list, and
`accept` returns a socket that is not in use. -/
def Possible (s : Server) (e : Event) : Prop :=
  e.ptr ∈ s.epollFd ∧ ∀ socket incoming added, e.accept = .connected socket incoming added →
    socket ≠ 0 ∧ socket ≠ s.acceptSocket

/-- One event. -/
def Serves (s : Server) (e : Event) (t : Server) : Prop :=
  s.Possible e ∧ s.onEvent e = .ok t

end Server
end CAsync
