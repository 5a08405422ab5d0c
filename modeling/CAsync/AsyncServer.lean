/-
# The echo server on the async library (`examples/echo_async.c`)

The tasks of the server: `async_main`, `server_stats`, `accept_loop`, and an `echo_loop` for each
client.  `AsyncServer.step` is one step of the running task: a round of a loop of `echo_loop`, a
call of `accept`, or a call of the library, which may switch to another task.  Each step gets the
answers of the operating system to the calls it may make (`OsReply`).

`start` is `async_main` up to its `await`, from the point where the socket listens; what it does
before (`getaddrinfo`, `socket`, `bind`) is left out, as are the numbers that `server_stats` prints,
but for `current_client_cnt`.  One of them is the `static int` `bytes_processed`, which grows by
`msg_len + 4` with each frame until it is printed: that it stays below 2^31 is an assumption.
-/
import CAsync.Lib.Runs
import CAsync.Reachable
import CAsync.EchoAlone
import Mathlib.Logic.Function.Basic

namespace CAsync

open Faulting

/-! ## 1. Data types -/

/-- The functions of the tasks. -/
inductive ServerFn where
  | asyncMain
  | serverStats
  | acceptLoop
  | echoLoop
  deriving DecidableEq, Repr

/-- The arguments of the tasks: `NULL`, the address of a variable, or a socket. -/
inductive ServerArg where
  | null
  | address
  | socket (fd : Int)
  deriving DecidableEq, Repr

/-- What `accept` returns, and whether `fcntl` behind it succeeds. -/
inductive AcceptReply where
  | again
  | failed
  | client (fd : Int) (nonblock : Bool)
  deriving DecidableEq, Repr

/-- What the operating system answers to the next call of each kind. -/
structure OsReply where
  accept : AcceptReply
  recv : RecvReply
  send : SendReply

/-- Where a task is in its own code. -/
inductive ServerCode where
  /-- In the `await` of `async_main`. -/
  | await (h : Handle)
  /-- In `async_main`, behind the `await`. -/
  | returned
  /-- In the loop of `server_stats`. -/
  | stats
  /-- In `accept_loop`, before `await_async_accept`. -/
  | accept
  /-- In `accept_loop`, before `async_call(echo_loop, client_socket)`. -/
  | callEcho (fd : Int)
  /-- In `accept_loop`, before `async_orphan(h)`. -/
  | orphanEcho (h : Handle)
  | echo (fd : Int) (e : EchoTask)

/-- The library, the code of the tasks, the open sockets of the clients, those that have been
closed, and `current_client_cnt`. -/
structure AsyncServer (S : Type) where
  lib : Runtime S ServerFn ServerArg
  code : Handle → ServerCode
  sockets : Int → Option Conn
  closed : List Conn
  currentClientCnt : Int

/-- After a step: the process has exited or has been killed, a call was on a socket that is closed,
or the server goes on. -/
inductive ServerResult (S : Type) where
  | exit
  | killed
  | badSocket
  | next (m : AsyncServer S)

namespace AsyncServer

variable {S : Type}

/-! ## 2. The code of the tasks -/

/-- The running task goes on at `code`. -/
def goto (m : AsyncServer S) (code : ServerCode) : AsyncServer S :=
  { m with code := Function.update m.code m.lib.running code }

/-- The socket has answered. -/
def setSocket (m : AsyncServer S) (fd : Int) (c : Conn) : AsyncServer S :=
  { m with sockets := Function.update m.sockets fd (some c) }

/-- `echo_loop` behind `fail`, up to `async_return`. -/
def leave (m : AsyncServer S) (fd : Int) (c : Conn) : AsyncServer S :=
  { m with
    sockets := Function.update m.sockets fd none, closed := m.closed ++ [c]
    currentClientCnt := m.currentClientCnt - 1 }

/-- The first line of the function of a task that starts.  No other functions are called. -/
def entry : ServerFn → ServerArg → Except Fault ServerCode
  | .serverStats, _ => .ok .stats
  | .acceptLoop, _ => .ok .accept
  | .echoLoop, .socket fd => .ok (.echo fd .init)
  | _, _ => .error .nullDeref

/-- The code that the processor is in gets the reply of the library.  No other replies come after a
switch. -/
def deliver (m : AsyncServer S) : Reply ServerFn ServerArg → Except Fault (AsyncServer S)
  | .start fn data => do
    let code ← entry fn data
    .ok (m.goto code)
  | .skip => .ok m
  | .waiting _ => .ok m
  | .await _ => .ok (m.goto .returned)
  | _ => .error .nullDeref

section

variable [SchedulerVTable S]

/-- A call that may switch. -/
def switch (m : AsyncServer S) (op : Op ServerFn ServerArg) : Except Fault (ServerResult S) := do
  let outcome ← CAsync.step m.lib op
  match outcome with
  | .exit _ => .ok .exit
  | .next s reply => do
    let m ← deliver { m with lib := s } reply
    .ok (.next m)

/-- `async_call`. -/
def create (m : AsyncServer S) (fn : ServerFn) (arg : ServerArg) :
    Except Fault (AsyncServer S × Handle) := do
  let outcome ← CAsync.step m.lib (.call fn arg)
  match outcome with
  | .next s (.handle h) => .ok ({ m with lib := s }, h)
  | _ => .error .nullDeref

/-- `async_orphan`. -/
def orphan (m : AsyncServer S) (h : Handle) : Except Fault (AsyncServer S) := do
  let outcome ← CAsync.step m.lib (.orphan h)
  match outcome with
  | .next s .done => .ok { m with lib := s }
  | _ => .error .nullDeref

/-- A round of `accept_loop`, up to `async_call`. -/
def acceptRound (m : AsyncServer S) (r : AcceptReply) : Except Fault (ServerResult S) :=
  match r with
  | .again => m.switch .skip
  | .failed => .ok (.next m)
  | .client fd nonblock =>
    let m := m.setSocket fd .zero
    .ok (.next (if nonblock then m.goto (.callEcho fd) else m))

/-- A round of `echo_loop`, on its socket. -/
def echoRound (m : AsyncServer S) (fd : Int) (e : EchoTask) (c : Conn) (r : OsReply) :
    Except Fault (ServerResult S) :=
  match e.point with
  | .start => .ok (.next ({ m with currentClientCnt := m.currentClientCnt + 1 }.goto
      (.echo fd e.again)))
  | .fail => (m.leave fd c).switch (.ret .null)
  | _ => do
    let next ← e.step c r.recv r.send
    match next with
    | .skip => m.switch .skip
    | .killed => .ok .killed
    | .next e c => .ok (.next ((m.setSocket fd c).goto (.echo fd e)))

/-- One step of the running task. -/
def step (m : AsyncServer S) (r : OsReply) : Except Fault (ServerResult S) :=
  match m.code m.lib.running with
  | .await h => m.switch (.await h)
  | .returned => m.switch (.ret .null)
  | .stats => m.switch .skip
  | .accept => m.acceptRound r.accept
  | .callEcho fd => do
    let (m, h) ← m.create .echoLoop (.socket fd)
    .ok (.next (m.goto (.orphanEcho h)))
  | .orphanEcho h => do
    let m ← m.orphan h
    .ok (.next (m.goto .accept))
  | .echo fd e =>
    match m.sockets fd with
    | none => .ok .badSocket
    | some c => m.echoRound fd e c r

/-- `async_main` from the point where the socket listens, up to the switch in its `await`. -/
def start : Except Fault (ServerResult S) := do
  let outcome ← runAsyncMain .asyncMain .address
  match outcome with
  | .exit _ => .ok .exit
  | .next s _ => do
    let m : AsyncServer S :=
      { lib := s, code := fun _ => .returned, sockets := fun _ => none, closed := [],
        currentClientCnt := 0 }
    let (m, h) ← m.create .serverStats .null
    let m ← m.orphan h
    let (m, h) ← m.create .acceptLoop .address
    (m.goto (.await h)).switch (.await h)

/-! ## 3. Runs -/

/-- What the operating system promises: `accept` returns a descriptor that is not in use. -/
def Possible (m : AsyncServer S) (r : OsReply) : Prop :=
  ∀ fd nonblock, r.accept = .client fd nonblock → m.sockets fd = none

/-- One step of a run. -/
def Serves (m : AsyncServer S) (r : OsReply) (m' : AsyncServer S) : Prop :=
  m.Possible r ∧ m.step r = .ok (.next m')

/-- The states that the server can reach. -/
def Reached (l : List OsReply) (m : AsyncServer S) : Prop :=
  ∃ m₀, start = .ok (.next m₀) ∧ Steps Serves m₀ l m

end

end AsyncServer
end CAsync
