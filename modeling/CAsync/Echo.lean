/-
# The echo server on the async library (`examples/echo_async.c`)

One client of the server: `read_n_bytes`, `write_n_bytes` and `echo_loop`, with `await_async_recv`
and `await_async_send` of `io.c` under them.  What the operating system answers on the socket is a
script: the results of `recv` one after the other, which end with 0 or an error that repeats, and
those of `send`, which takes everything once its script is over.  `async_skip` gives the other tasks
a turn, and they leave this socket and this stack alone.

The statistics of the server (`current_client_cnt`, `bytes_processed`), the logging and the cleanup
behind `fail` are left out: nothing here reads them.  `bytes_processed` is a `static int` to which
each frame adds `msg_len + 4`, and which `server_stats` sets back to 0; that it stays below 2^31 in
between, so that the addition is defined, is an assumption.
-/
import CAsync.Str
import CAsync.Lib.Framing

namespace CAsync

open Bytes Faulting

/-! ## 1. The socket -/

/-- The bytes of one successful `recv` into a buffer of `BUF_SIZE` bytes. -/
structure Piece where
  bytes : List UInt8
  pos : 0 < bytes.length
  le : bytes.length ≤ 256

/-- A result of `recv`: -1 with `EAGAIN`, or some bytes. -/
inductive Recv where
  | again
  | piece (p : Piece)

/-- The last result of `recv`: 0, or -1 with another error. -/
inductive Ending where
  | closed
  | failed
  deriving DecidableEq, Repr

def Ending.status : Ending → Int
  | closed => 0
  | failed => -1

/-- A result of `send`: -1 with `EAGAIN` or another error, or one byte and up to `more` others. -/
inductive Send where
  | again
  | failed
  | accepts (more : Nat)
  deriving DecidableEq, Repr

structure Socket where
  recvs : List Recv
  ending : Ending
  sends : List Send
  sent : List UInt8

/-- The bytes that some results of `recv` bring. -/
def received : List Recv → List UInt8
  | [] => []
  | .again :: recvs => received recvs
  | .piece p :: recvs => p.bytes ++ received recvs

/-- `await_async_recv`: the status, the bytes written to `buf`, and what is left of the script. -/
def awaitAsyncRecv (ending : Ending) : List Recv → Int × List UInt8 × List Recv
  | [] => (ending.status, [], [])
  | .again :: recvs => awaitAsyncRecv ending recvs
  | .piece p :: recvs => (p.bytes.length, p.bytes, recvs)

/-- `await_async_send` of some bytes: the status, and what is left of the script. -/
def awaitAsyncSend (bytes : List UInt8) : List Send → Int × List Send
  | [] => (bytes.length, [])
  | .again :: sends => awaitAsyncSend bytes sends
  | .failed :: sends => (-1, sends)
  | .accepts more :: sends => ((min (more + 1) bytes.length : Nat), sends)

/-! ## 2. `read_n_bytes` and `write_n_bytes` -/

/-- `Buffer`: `buffer[BUF_SIZE]` with `start` and `end`. -/
structure Buffer where
  buffer : List UInt8
  start : Int
  stop : Int
  deriving DecidableEq, Repr

/-- What `read_n_bytes` returns and leaves: `out`, the buffer and the socket. -/
structure ReadResult where
  ret : Int
  out : List UInt8
  buf : Buffer
  sock : Socket

/-- The second half of a round of `read_n_bytes`: copy what the buffer has, or what is missing. -/
def readCopy (n amt : Int) (out : List UInt8) (buf : Buffer) :
    Except Fault (List UInt8 × Int) := do
  require (buf.start < buf.stop) .bufferEmpty
  let writeAmt := if n - amt > buf.stop - buf.start then buf.stop - buf.start else n - amt
  let bytes ← memcpyFrom buf.buffer buf.start writeAmt.toNat
  let out ← memcpyTo out amt bytes
  .ok (out, writeAmt)

/-- The loop of `read_n_bytes`. -/
def readLoop (n : Int) : Nat → Int → List UInt8 → Buffer → Socket → Except Fault ReadResult
  | 0, amt, out, buf, sock =>
    if amt < n then .error .endlessChain
    else .ok { ret := amt, out := out, buf := buf, sock := sock }
  | fuel + 1, amt, out, buf, sock =>
    if amt < n then
      if buf.start = buf.stop then
        let r := awaitAsyncRecv sock.ending sock.recvs
        let sock := { sock with recvs := r.2.2 }
        if r.1 = -1 then .ok { ret := -1, out := out, buf := buf, sock := sock }
        else if r.1 = 0 then .ok { ret := 0, out := out, buf := buf, sock := sock }
        else do
          let buffer ← memcpyTo buf.buffer 0 r.2.1
          let buf : Buffer := { buffer := buffer, start := 0, stop := r.1 }
          let c ← readCopy n amt out buf
          readLoop n fuel (amt + c.2) c.1 { buf with start := buf.start + c.2 } sock
      else do
        let c ← readCopy n amt out buf
        readLoop n fuel (amt + c.2) c.1 { buf with start := buf.start + c.2 } sock
    else .ok { ret := amt, out := out, buf := buf, sock := sock }

/-- `read_n_bytes`: each round copies a byte at least. -/
def readNBytes (n : Int) (out : List UInt8) (buf : Buffer) (sock : Socket) :
    Except Fault ReadResult :=
  readLoop n n.toNat 0 out buf sock

/-- The loop of `write_n_bytes`. -/
def writeLoop (n : Int) (msg : List UInt8) : Nat → Int → Socket → Except Fault (Int × Socket)
  | 0, sentAmt, sock => if sentAmt < n then .error .endlessChain else .ok (sentAmt, sock)
  | fuel + 1, sentAmt, sock =>
    if sentAmt < n then do
      let bytes ← memcpyFrom msg sentAmt (n - sentAmt).toNat
      let r := awaitAsyncSend bytes sock.sends
      if r.1 = -1 then .ok (-1, { sock with sends := r.2 })
      else
        writeLoop n msg fuel (sentAmt + r.1)
          { sock with sends := r.2, sent := sock.sent ++ bytes.take r.1.toNat }
    else .ok (sentAmt, sock)

/-- `write_n_bytes`: each round sends a byte at least. -/
def writeNBytes (n : Int) (msg : List UInt8) (sock : Socket) : Except Fault (Int × Socket) :=
  writeLoop n msg n.toNat 0 sock

/-! ## 3. `echo_loop` -/

/-- `ntohl(*(uint32_t *)size)`, as an `int`: the first byte is the most significant one. -/
def headerInt (size : List UInt8) : Int := (BitVec.ofNat 32 (ofLe size.reverse)).toInt

/-- The frames of the echo protocol. -/
def echoFormat : Framing UInt8 := { header := 4, pos := by decide, size := headerInt }

/-- The end of a round of `echo_loop`: send the header and the message back.  Nothing is returned
for the next round after `goto fail`. -/
def echoReply (size : List UInt8) (msgLen : Int) (msg : Str) (buf : Buffer) (sock : Socket) :
    Except Fault (Option (Str × Buffer) × Socket) := do
  let header ← writeNBytes 4 size sock
  if header.1 ≠ 4 then .ok (none, header.2)
  else do
    let body ← writeNBytes msgLen msg.str header.2
    if body.1 ≠ msgLen then .ok (none, body.2) else .ok (some (msg, buf), body.2)

/-- A round of `echo_loop` behind the header. -/
def echoMessage (size : List UInt8) (msg : Str) (buf : Buffer) (sock : Socket) :
    Except Fault (Option (Str × Buffer) × Socket) := do
  let msgLen := headerInt size
  let msg ← stringClear msg
  let msg ← stringResize msg msgLen '!'.toUInt8
  let body ← readNBytes msgLen msg.str buf sock
  if body.ret ≠ msgLen then .ok (none, body.sock)
  else echoReply size msgLen { msg with str := body.out } body.buf body.sock

/-- One round of `echo_loop`: the message and the buffer for the next round, or nothing after
`goto fail`. -/
def echoRound (msg : Str) (buf : Buffer) (sock : Socket) :
    Except Fault (Option (Str × Buffer) × Socket) := do
  let size ← readNBytes 4 [0, 0, 0, 0] buf sock
  if size.ret ≠ 4 then .ok (none, size.sock) else echoMessage size.out msg size.buf size.sock

/-- The rounds of `echo_loop`, up to a `goto fail`. -/
def echoRounds : Nat → Str → Buffer → Socket → Except Fault Socket
  | 0, _, _, _ => .error .endlessChain
  | fuel + 1, msg, buf, sock => do
    let r ← echoRound msg buf sock
    match r.1 with
    | none => .ok r.2
    | some (msg, buf) => echoRounds fuel msg buf r.2

/-- `echo_loop`. -/
def echoLoop (fuel : Nat) (sock : Socket) : Except Fault Socket :=
  echoRounds fuel stringInit { buffer := List.replicate 256 0, start := 0, stop := 0 } sock

end CAsync
