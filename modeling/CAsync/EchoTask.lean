/-
# `echo_loop` as a task

`Echo` runs `echo_loop` from its start to its end, on a script of all that the operating system will
answer.  In the server the task stops at each `async_skip`, and other tasks run; so here is the same
code, one round of a loop at a time, with one answer of `recv` and one of `send` for the round
(`EchoTask.step`).  What the socket has answered so far is in its `Conn`.

The rest of the code from any point on is `EchoTask.resume`, in terms of the loops of `Echo`.  A
round does not change what the rest computes, so however a task is interrupted, it does what
`echo_loop` does on the same answers.
-/
import CAsync.EchoFraming

namespace CAsync

open Bytes Faulting

/-! ## 1. The code -/

/-- A result of `recv`. -/
inductive RecvReply where
  | again
  | piece (p : Piece)
  | ended (e : Ending)

/-- A result of `send`.  `broken` stands for a socket that the client has closed: the flags of
`write_n_bytes` are 0, so the process gets SIGPIPE, which ends it. -/
inductive SendReply where
  | again
  | failed
  | broken
  | accepts (more : Nat)

/-- What a socket has answered, without `EAGAIN`, and what has been sent on it. -/
structure Conn where
  recvs : List Recv
  ending : Option Ending
  sends : List Send
  sent : List UInt8

namespace Conn

def zero : Conn := { recvs := [], ending := none, sends := [], sent := [] }

/-- The socket if it goes on with these answers, from its beginning. -/
def script (c : Conn) (recvs : List Recv) (ending : Ending) (sends : List Send) : Socket :=
  { recvs := c.recvs ++ recvs, ending := ending, sends := c.sends ++ sends, sent := [] }

/-- `recv` has returned these bytes. -/
def receives (c : Conn) (p : Piece) : Conn := { c with recvs := c.recvs ++ [.piece p] }

/-- `recv` has returned 0 or an error, or it has not been called. -/
def ends (c : Conn) (ending : Option Ending) : Conn :=
  { c with ending := ending.or c.ending }

/-- `send` has taken these bytes. -/
def accepts (c : Conn) (more : Nat) (bytes : List UInt8) : Conn :=
  { c with sends := c.sends ++ [.accepts more], sent := c.sent ++ bytes }

/-- `send` has failed, or it has not been called. -/
def fails (c : Conn) (failed : Bool) : Conn :=
  if failed then { c with sends := c.sends ++ [.failed] } else c

/-- The same, from now on. -/
def later (c : Conn) (recvs : List Recv) (ending : Ending) (sends : List Send) : Socket :=
  { recvs := recvs, ending := ending, sends := sends, sent := c.sent }

end Conn

/-- Where `echo_loop` is. -/
inductive EchoPoint where
  | start
  /-- In the loop of `read_n_bytes(client_socket, 4, size, &buf)`. -/
  | readSize (amt : Int) (size : List UInt8)
  /-- In the loop of `read_n_bytes(client_socket, msg_len, msg.str, &buf)`. -/
  | readMsg (size : List UInt8) (amt : Int)
  /-- In the loop of `write_n_bytes(client_socket, 4, size)`. -/
  | writeSize (size : List UInt8) (sentAmt : Int)
  /-- In the loop of `write_n_bytes(client_socket, msg_len, msg.str)`. -/
  | writeMsg (size : List UInt8) (sentAmt : Int)
  /-- Behind the label `fail`. -/
  | fail

/-- The locals of `echo_loop`. -/
structure EchoTask where
  msg : Str
  buf : Buffer
  point : EchoPoint

/-- After a round of `read_n_bytes`. -/
inductive ReadNext where
  | skip
  | filled (p : Piece) (buf : Buffer)
  | copied (amt : Int) (out : List UInt8) (buf : Buffer)
  | returned (ret : Int) (ending : Option Ending)

/-- A round of the loop of `read_n_bytes`.  A round that fills the buffer is left before its second
half, which begins with the same condition. -/
def readRound (n amt : Int) (out : List UInt8) (buf : Buffer) (r : RecvReply) :
    Except Fault ReadNext :=
  if amt < n then
    if buf.start = buf.stop then
      match r with
      | .again => .ok .skip
      | .ended e => .ok (.returned e.status (some e))
      | .piece p => do
        let buffer ← memcpyTo buf.buffer 0 p.bytes
        .ok (.filled p { buffer := buffer, start := 0, stop := p.bytes.length })
    else do
      let c ← readCopy n amt out buf
      .ok (.copied (amt + c.2) c.1 { buf with start := buf.start + c.2 })
  else .ok (.returned amt none)

/-- After a round of `write_n_bytes`. -/
inductive WriteNext where
  | skip
  | killed
  | sent (more : Nat) (sentAmt : Int) (bytes : List UInt8)
  | returned (ret : Int) (failed : Bool)

/-- A round of the loop of `write_n_bytes`. -/
def writeRound (n : Int) (msg : List UInt8) (sentAmt : Int) (r : SendReply) :
    Except Fault WriteNext :=
  if sentAmt < n then do
    let bytes ← memcpyFrom msg sentAmt (n - sentAmt).toNat
    match r with
    | .again => .ok .skip
    | .broken => .ok .killed
    | .failed => .ok (.returned (-1) true)
    | .accepts more =>
      let status := min (more + 1) bytes.length
      .ok (.sent more (sentAmt + status) (bytes.take status))
  else .ok (.returned sentAmt false)

/-- After a round: the task is in `async_skip`, the process is gone, or the task is at its next
round. -/
inductive EchoNext where
  | skip
  | killed
  | next (e : EchoTask) (c : Conn)

namespace EchoTask

/-- `echo_loop` when it starts. -/
def init : EchoTask :=
  { msg := stringInit, buf := { buffer := List.replicate 256 0, start := 0, stop := 0 },
    point := .start }

/-- The next round of the loop of `echo_loop`. -/
def again (e : EchoTask) : EchoTask := { e with point := .readSize 0 [0, 0, 0, 0] }

/-- `goto fail`. -/
def failed (e : EchoTask) : EchoTask := { e with point := .fail }

/-- `echo_loop` after the first `read_n_bytes`. -/
def sizeRead (e : EchoTask) (size : List UInt8) (ret : Int) : Except Fault EchoTask :=
  if ret ≠ 4 then .ok e.failed
  else do
    let msg ← stringClear e.msg
    let msg ← stringResize msg (headerInt size) '!'.toUInt8
    .ok { e with msg := msg, point := .readMsg size 0 }

/-- `echo_loop` after the second `read_n_bytes`. -/
def msgRead (e : EchoTask) (size : List UInt8) (ret : Int) : EchoTask :=
  if ret ≠ headerInt size then e.failed else { e with point := .writeSize size 0 }

/-- `echo_loop` after the first `write_n_bytes`. -/
def sizeWritten (e : EchoTask) (size : List UInt8) (ret : Int) : EchoTask :=
  if ret ≠ 4 then e.failed else { e with point := .writeMsg size 0 }

/-- `echo_loop` after the second `write_n_bytes`. -/
def msgWritten (e : EchoTask) (size : List UInt8) (ret : Int) : EchoTask :=
  if ret ≠ headerInt size then e.failed else e.again

/-- One round of the loop that the task is in, or the code between two loops. -/
def step (e : EchoTask) (c : Conn) (recv : RecvReply) (send : SendReply) :
    Except Fault EchoNext :=
  match e.point with
  | .start => .ok (.next e.again c)
  | .readSize amt size => do
    let next ← readRound 4 amt size e.buf recv
    match next with
    | .skip => .ok .skip
    | .filled p buf => .ok (.next { e with buf := buf } (c.receives p))
    | .copied amt size buf => .ok (.next { e with buf := buf, point := .readSize amt size } c)
    | .returned ret ending => do
      let e ← e.sizeRead size ret
      .ok (.next e (c.ends ending))
  | .readMsg size amt => do
    let next ← readRound (headerInt size) amt e.msg.str e.buf recv
    match next with
    | .skip => .ok .skip
    | .filled p buf => .ok (.next { e with buf := buf } (c.receives p))
    | .copied amt out buf =>
      .ok (.next { msg := { e.msg with str := out }, buf := buf, point := .readMsg size amt } c)
    | .returned ret ending => .ok (.next (e.msgRead size ret) (c.ends ending))
  | .writeSize size sentAmt => do
    let next ← writeRound 4 size sentAmt send
    match next with
    | .skip => .ok .skip
    | .killed => .ok .killed
    | .sent more sentAmt bytes =>
      .ok (.next { e with point := .writeSize size sentAmt } (c.accepts more bytes))
    | .returned ret failed => .ok (.next (e.sizeWritten size ret) (c.fails failed))
  | .writeMsg size sentAmt => do
    let next ← writeRound (headerInt size) e.msg.str sentAmt send
    match next with
    | .skip => .ok .skip
    | .killed => .ok .killed
    | .sent more sentAmt bytes =>
      .ok (.next { e with point := .writeMsg size sentAmt } (c.accepts more bytes))
    | .returned ret failed => .ok (.next (e.msgWritten size ret) (c.fails failed))
  | .fail => .ok (.next e c)

end EchoTask

/-! ## 2. The rest of the code -/

/-- The loop of `read_n_bytes` from a round on. -/
def readFrom (n amt : Int) (out : List UInt8) (buf : Buffer) (sock : Socket) :
    Except Fault ReadResult :=
  readLoop n (n - amt).toNat amt out buf sock

/-- The loop of `write_n_bytes` from a round on. -/
def writeFrom (n sentAmt : Int) (msg : List UInt8) (sock : Socket) : Except Fault (Int × Socket) :=
  writeLoop n msg (n - sentAmt).toNat sentAmt sock

/-- `echo_loop` behind one round. -/
def echoNext (fuel : Nat) (r : Option (Str × Buffer) × Socket) : Except Fault Socket :=
  match r.1 with
  | none => .ok r.2
  | some (msg, buf) => echoRounds fuel msg buf r.2

/-- A round of `echo_loop` behind the first `read_n_bytes`. -/
def behindSize (msg : Str) (size : ReadResult) : Except Fault (Option (Str × Buffer) × Socket) :=
  if size.ret ≠ 4 then .ok (none, size.sock) else echoMessage size.out msg size.buf size.sock

/-- A round of `echo_loop` behind the second `read_n_bytes`. -/
def behindMsg (size : List UInt8) (msg : Str) (body : ReadResult) :
    Except Fault (Option (Str × Buffer) × Socket) :=
  if body.ret ≠ headerInt size then .ok (none, body.sock)
  else echoReply size (headerInt size) { msg with str := body.out } body.buf body.sock

/-- A round of `echo_loop` behind the second `write_n_bytes`. -/
def behindReply (msgLen : Int) (msg : Str) (buf : Buffer) (body : Int × Socket) :
    Except Fault (Option (Str × Buffer) × Socket) :=
  if body.1 ≠ msgLen then .ok (none, body.2) else .ok (some (msg, buf), body.2)

/-- A round of `echo_loop` behind the first `write_n_bytes`. -/
def behindHeader (msgLen : Int) (msg : Str) (buf : Buffer) (header : Int × Socket) :
    Except Fault (Option (Str × Buffer) × Socket) :=
  if header.1 ≠ 4 then .ok (none, header.2)
  else do
    let body ← writeNBytes msgLen msg.str header.2
    behindReply msgLen msg buf body

/-- The rest of `echo_loop`, with `fuel` rounds behind this one. -/
def EchoTask.resume (fuel : Nat) (e : EchoTask) (sock : Socket) : Except Fault Socket :=
  match e.point with
  | .start => echoRounds (fuel + 1) e.msg e.buf sock
  | .readSize amt size => readFrom 4 amt size e.buf sock >>= behindSize e.msg >>= echoNext fuel
  | .readMsg size amt =>
    readFrom (headerInt size) amt e.msg.str e.buf sock >>= behindMsg size e.msg >>= echoNext fuel
  | .writeSize size sentAmt =>
    writeFrom 4 sentAmt size sock >>= behindHeader (headerInt size) e.msg e.buf >>= echoNext fuel
  | .writeMsg size sentAmt =>
    writeFrom (headerInt size) sentAmt e.msg.str sock >>=
      behindReply (headerInt size) e.msg e.buf >>= echoNext fuel
  | .fail => .ok sock

end CAsync
