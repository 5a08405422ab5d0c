/-
# One round of `echo_loop`

`Echo` runs `echo_loop` from its start to its end, against a socket whose answers are all given in
advance.  In the server the same code runs in rounds, between which other tasks have the
processor, and each round gets one answer (`EchoTask.step`).  This module says that a round does
its part of the whole: what the code from here on computed before the round, with the answer of
the round in front of the others, it computes behind the round on the others.

`resume` is the code from a point on, as a function of the socket, and `Round` is the relation
between two points.  It quantifies over the answers that are still to come, so it composes: the
code from the first point on, with the answers of all rounds in a row, is the code from the last
point on, with none of them left.

* §1 takes the two loops apart.  `readLoop` and `writeLoop` have a fuel, which each round of
  theirs makes smaller; it is enough if it covers the bytes that are missing, and then it does not
  matter (`readLoop_fuel`, `writeLoop_fuel`, by induction on it, a copy taking a byte at least).
  So the loop from any amount is one function, and a round leaves the same loop from the new
  amount on (`ReadRound`, `WriteRound`).
* §2 defines `Round`, with one lemma for each thing that an answer can be: none, bytes that have
  come, bytes that have been taken, the end of the stream, and a `send` that failed.
* §3 is the code between two loops, which gets no answer.
* §4 puts them together, one case for each point (`EchoTask.step_round`).  The round that
  ends a message, written or not, uses up one unit of the fuel of `echoRounds`; no other does.

If a round faults, so does the code from there on (`EchoTask.step_error`), so the server has no
faults that `echo_loop` alone does not have.
-/
import CAsync.EchoTask

namespace CAsync

open Bytes Faulting

/-! ## 1. One round of a loop -/

/-- A copy takes a byte at least. -/
theorem readCopy_pos {n amt : Int} {out : List UInt8} {buf : Buffer} {c : List UInt8 × Int}
    (hamt : amt < n) (h : readCopy n amt out buf = .ok c) : 0 < c.2 := by
  unfold readCopy at h
  obtain ⟨_, hstart, h⟩ := bind_eq_ok.mp h
  have hstart := require_eq_ok.mp hstart
  obtain ⟨bytes, -, h⟩ := bind_eq_ok.mp h
  obtain ⟨out', -, h⟩ := bind_eq_ok.mp h
  cases h
  dsimp only
  split <;> omega

/-- Enough fuel is enough. -/
theorem readLoop_fuel {n : Int} (f g : Nat) (amt : Int) (out : List UInt8) (buf : Buffer)
    (sock : Socket) (hf : (n - amt).toNat ≤ f) (hg : (n - amt).toNat ≤ g) :
    readLoop n f amt out buf sock = readLoop n g amt out buf sock := by
  induction f generalizing g amt out buf sock with
  | zero =>
    have hlt : ¬ amt < n := by omega
    cases g with
    | zero => rfl
    | succ g => rw [readLoop, readLoop, if_neg hlt, if_neg hlt]
  | succ f ih =>
    by_cases hlt : amt < n
    · obtain ⟨g, rfl⟩ : ∃ k, g = k + 1 := ⟨g - 1, by omega⟩
      have hcopy : ∀ (buf : Buffer) (sock : Socket), (do
          let c ← readCopy n amt out buf
          readLoop n f (amt + c.2) c.1 { buf with start := buf.start + c.2 } sock) = (do
          let c ← readCopy n amt out buf
          readLoop n g (amt + c.2) c.1 { buf with start := buf.start + c.2 } sock) := by
        intro buf sock
        cases hc : readCopy n amt out buf with
        | error e => rfl
        | ok c =>
          have hpos := readCopy_pos hlt hc
          rw [ok_bind, ok_bind]
          exact ih g _ _ _ _ (by omega) (by omega)
      rw [readLoop, readLoop, if_pos hlt, if_pos hlt]
      simp only [hcopy]
    · cases g with
      | zero => rw [readLoop, readLoop, if_neg hlt, if_neg hlt]
      | succ g => rw [readLoop, readLoop, if_neg hlt, if_neg hlt]

section

variable {n amt : Int} {out : List UInt8} {buf : Buffer} {sock : Socket} {recvs : List Recv}
  {ending : Ending} {sends : List Send} {sent : List UInt8}

theorem readFrom_done (hamt : ¬ amt < n) :
    readFrom n amt out buf sock = .ok { ret := amt, out := out, buf := buf, sock := sock } := by
  have hfuel : (n - amt).toNat = 0 := by omega
  rw [readFrom, hfuel, readLoop, if_neg hamt]

/-- A round with a buffer that is not empty. -/
theorem readFrom_copy (hamt : amt < n) (hbuf : buf.start ≠ buf.stop) :
    readFrom n amt out buf sock = (do
      let c ← readCopy n amt out buf
      readFrom n (amt + c.2) c.1 { buf with start := buf.start + c.2 } sock) := by
  obtain ⟨k, hk⟩ : ∃ k, (n - amt).toNat = k + 1 := ⟨(n - amt).toNat - 1, by omega⟩
  rw [readFrom, hk, readLoop, if_pos hamt, if_neg hbuf]
  cases hc : readCopy n amt out buf with
  | error e => rfl
  | ok c =>
    have hpos := readCopy_pos hamt hc
    rw [ok_bind, ok_bind]
    exact readLoop_fuel _ _ _ _ _ _ (by omega) (Nat.le_refl _)

/-- The buffer is filled, and the same round goes on with a buffer that is not empty. -/
theorem readFrom_fill (hamt : amt < n) (hbuf : buf.start = buf.stop) (p : Piece) :
    readFrom n amt out buf ⟨.piece p :: recvs, ending, sends, sent⟩ = (do
      let buffer ← memcpyTo buf.buffer 0 p.bytes
      readFrom n amt out { buffer := buffer, start := 0, stop := p.bytes.length }
        ⟨recvs, ending, sends, sent⟩) := by
  have hpos := p.pos
  obtain ⟨k, hk⟩ : ∃ k, (n - amt).toNat = k + 1 := ⟨(n - amt).toNat - 1, by omega⟩
  have hstatus : ¬ (p.bytes.length : Int) = -1 := by omega
  have hstatus' : ¬ (p.bytes.length : Int) = 0 := by omega
  have hrecv : awaitAsyncRecv ending (.piece p :: recvs) =
      ((p.bytes.length : Int), p.bytes, recvs) := rfl
  rw [readFrom, hk, readLoop, if_pos hamt, if_pos hbuf, hrecv]
  simp only
  rw [if_neg hstatus, if_neg hstatus']
  cases memcpyTo buf.buffer 0 p.bytes with
  | error e => rfl
  | ok buffer =>
    have hne : (0 : Int) ≠ p.bytes.length := by omega
    rw [ok_bind, ok_bind, readFrom_copy hamt hne]
    cases hc : readCopy n amt out { buffer := buffer, start := 0, stop := p.bytes.length } with
    | error e => rfl
    | ok c =>
      have hpos := readCopy_pos hamt hc
      rw [ok_bind, ok_bind]
      exact readLoop_fuel _ _ _ _ _ _ (by omega) (Nat.le_refl _)

theorem readFrom_end (hamt : amt < n) (hbuf : buf.start = buf.stop) :
    readFrom n amt out buf ⟨[], ending, sends, sent⟩ =
      .ok { ret := ending.status, out := out, buf := buf, sock := ⟨[], ending, sends, sent⟩ } := by
  obtain ⟨k, hk⟩ : ∃ k, (n - amt).toNat = k + 1 := ⟨(n - amt).toNat - 1, by omega⟩
  rw [readFrom, hk, readLoop, if_pos hamt, if_pos hbuf]
  cases ending <;> rfl

/-- **What a round of `read_n_bytes` leaves of its loop.** -/
inductive ReadRound (n amt : Int) (out : List UInt8) (buf : Buffer) : ReadNext → Prop
  | skip : ReadRound n amt out buf .skip
  | filled {p : Piece} {buf' : Buffer}
      (rest : ∀ recvs ending sends sent,
        readFrom n amt out buf ⟨.piece p :: recvs, ending, sends, sent⟩ =
          readFrom n amt out buf' ⟨recvs, ending, sends, sent⟩) :
      ReadRound n amt out buf (.filled p buf')
  | copied {amt' : Int} {out' : List UInt8} {buf' : Buffer} (more : amt < amt')
      (rest : ∀ sock, readFrom n amt out buf sock = readFrom n amt' out' buf' sock) :
      ReadRound n amt out buf (.copied amt' out' buf')
  | returned (rest : ∀ sock, readFrom n amt out buf sock =
      .ok { ret := amt, out := out, buf := buf, sock := sock }) :
      ReadRound n amt out buf (.returned amt none)
  | ended {e : Ending} (less : amt < n)
      (rest : ∀ sends sent, readFrom n amt out buf ⟨[], e, sends, sent⟩ =
        .ok { ret := e.status, out := out, buf := buf, sock := ⟨[], e, sends, sent⟩ }) :
      ReadRound n amt out buf (.returned e.status (some e))

theorem readRound_ok {r : RecvReply} {next : ReadNext} (h : readRound n amt out buf r = .ok next) :
    ReadRound n amt out buf next := by
  unfold readRound at h
  by_cases hamt : amt < n
  · rw [if_pos hamt] at h
    by_cases hbuf : buf.start = buf.stop
    · rw [if_pos hbuf] at h
      cases r with
      | again =>
        cases h
        exact .skip
      | piece p =>
        obtain ⟨buffer, hfill, h⟩ := bind_eq_ok.mp h
        cases h
        refine .filled fun recvs ending sends sent => ?_
        rw [readFrom_fill hamt hbuf, hfill, ok_bind]
      | ended e =>
        cases h
        exact .ended hamt fun _ _ => readFrom_end hamt hbuf
    · rw [if_neg hbuf] at h
      obtain ⟨c, hc, h⟩ := bind_eq_ok.mp h
      cases h
      have hpos := readCopy_pos hamt hc
      refine .copied (by omega) fun sock => ?_
      rw [readFrom_copy hamt hbuf, hc, ok_bind]
  · rw [if_neg hamt] at h
    cases h
    exact .returned fun _ => readFrom_done hamt

/-- The answer, as the next one of a script. -/
def RecvReply.script : RecvReply → List Recv
  | .piece p => [.piece p]
  | _ => []

/-- A fault in a round is one of the loop. -/
theorem readRound_error {r : RecvReply} {f : Fault} (h : readRound n amt out buf r = .error f) :
    readFrom n amt out buf ⟨r.script, ending, sends, sent⟩ = .error f := by
  unfold readRound at h
  by_cases hamt : amt < n
  · rw [if_pos hamt] at h
    by_cases hbuf : buf.start = buf.stop
    · rw [if_pos hbuf] at h
      cases r with
      | again => cases h
      | piece p =>
        dsimp only at h
        rw [RecvReply.script, readFrom_fill hamt hbuf]
        cases hfill : memcpyTo buf.buffer 0 p.bytes with
        | error e =>
          rw [hfill, error_bind] at h
          rw [error_bind]
          cases h
          rfl
        | ok buffer =>
          rw [hfill] at h
          cases h
      | ended e => cases h
    · rw [if_neg hbuf] at h
      rw [readFrom_copy hamt hbuf]
      cases hc : readCopy n amt out buf with
      | error e =>
        rw [hc, error_bind] at h
        rw [error_bind]
        cases h
        rfl
      | ok c =>
        rw [hc] at h
        cases h
  · rw [if_neg hamt] at h
    cases h

end

section

variable {n sentAmt : Int} {msg : List UInt8} {sock : Socket} {recvs : List Recv}
  {ending : Ending} {sends : List Send} {sent : List UInt8}

theorem length_memcpyFrom {mem bytes : List UInt8} {ptr : Int} {k : Nat}
    (h : memcpyFrom mem ptr k = .ok bytes) : bytes.length = k := by
  unfold memcpyFrom at h
  split at h
  · rename_i hbound
    cases h
    exact length_slice (by omega)
  · cases h

/-- `send` takes a byte at least, unless it fails. -/
theorem awaitAsyncSend_pos {bytes : List UInt8} (hbytes : 0 < bytes.length) (sends : List Send) :
    (awaitAsyncSend bytes sends).1 = -1 ∨ 0 < (awaitAsyncSend bytes sends).1 := by
  rcases awaitAsyncSend_cases hbytes sends with ⟨-, later, hsend⟩ | ⟨k, later, hpos, -, -, hsend⟩
  · rw [hsend]
    exact .inl rfl
  · rw [hsend]
    exact .inr (by simp only; omega)

/-- Enough fuel is enough. -/
theorem writeLoop_fuel (f g : Nat) (sentAmt : Int) (sock : Socket) (hf : (n - sentAmt).toNat ≤ f)
    (hg : (n - sentAmt).toNat ≤ g) :
    writeLoop n msg f sentAmt sock = writeLoop n msg g sentAmt sock := by
  induction f generalizing g sentAmt sock with
  | zero =>
    have hlt : ¬ sentAmt < n := by omega
    cases g with
    | zero => rfl
    | succ g => rw [writeLoop, writeLoop, if_neg hlt, if_neg hlt]
  | succ f ih =>
    by_cases hlt : sentAmt < n
    · obtain ⟨g, rfl⟩ : ∃ k, g = k + 1 := ⟨g - 1, by omega⟩
      rw [writeLoop, writeLoop, if_pos hlt, if_pos hlt]
      cases hmem : memcpyFrom msg sentAmt (n - sentAmt).toNat with
      | error e => rfl
      | ok bytes =>
        have hlen := length_memcpyFrom hmem
        rw [ok_bind, ok_bind]
        dsimp only
        rcases awaitAsyncSend_pos (show 0 < bytes.length by omega) sock.sends with hfail | hpos
        · rw [if_pos hfail, if_pos hfail]
        · rw [if_neg (by omega), if_neg (by omega)]
          exact ih g _ _ (by omega) (by omega)
    · cases g with
      | zero => rw [writeLoop, writeLoop, if_neg hlt, if_neg hlt]
      | succ g => rw [writeLoop, writeLoop, if_neg hlt, if_neg hlt]

theorem writeFrom_done (hamt : ¬ sentAmt < n) :
    writeFrom n sentAmt msg sock = .ok (sentAmt, sock) := by
  have hfuel : (n - sentAmt).toNat = 0 := by omega
  rw [writeFrom, hfuel, writeLoop, if_neg hamt]

/-- **What a round of `write_n_bytes` leaves of its loop.** -/
inductive WriteRound (n sentAmt : Int) (msg : List UInt8) : WriteNext → Prop
  | skip : WriteRound n sentAmt msg .skip
  | killed : WriteRound n sentAmt msg .killed
  | sent {more : Nat} {sentAmt' : Int} {bytes : List UInt8} (less : sentAmt < sentAmt')
      (rest : ∀ recvs ending sends sent,
        writeFrom n sentAmt msg ⟨recvs, ending, .accepts more :: sends, sent⟩ =
          writeFrom n sentAmt' msg ⟨recvs, ending, sends, sent ++ bytes⟩) :
      WriteRound n sentAmt msg (.sent more sentAmt' bytes)
  | returned (rest : ∀ sock, writeFrom n sentAmt msg sock = .ok (sentAmt, sock)) :
      WriteRound n sentAmt msg (.returned sentAmt false)
  | failed (less : sentAmt < n)
      (rest : ∀ recvs ending sends sent,
        writeFrom n sentAmt msg ⟨recvs, ending, .failed :: sends, sent⟩ =
          .ok (-1, ⟨recvs, ending, sends, sent⟩)) :
      WriteRound n sentAmt msg (.returned (-1) true)

theorem writeRound_ok {r : SendReply} {next : WriteNext}
    (h : writeRound n msg sentAmt r = .ok next) : WriteRound n sentAmt msg next := by
  unfold writeRound at h
  by_cases hamt : sentAmt < n
  · rw [if_pos hamt] at h
    obtain ⟨bytes, hmem, h⟩ := bind_eq_ok.mp h
    have hlen := length_memcpyFrom hmem
    obtain ⟨k, hk⟩ : ∃ k, (n - sentAmt).toNat = k + 1 := ⟨(n - sentAmt).toNat - 1, by omega⟩
    have hround : ∀ sock, writeFrom n sentAmt msg sock = writeLoop n msg (k + 1) sentAmt sock := by
      intro sock
      rw [writeFrom, hk]
    cases r with
    | again =>
      cases h
      exact .skip
    | broken =>
      cases h
      exact .killed
    | failed =>
      cases h
      refine .failed hamt fun recvs ending sends sent => ?_
      rw [hround, writeLoop, if_pos hamt, hmem, ok_bind]
      rfl
    | accepts more =>
      cases h
      have hpos : 0 < min (more + 1) bytes.length := by omega
      refine .sent (by omega) fun recvs ending sends sent => ?_
      have hsend : awaitAsyncSend bytes (.accepts more :: sends) =
          (((min (more + 1) bytes.length : Nat) : Int), sends) := rfl
      rw [hround, writeLoop, if_pos hamt, hmem, ok_bind, hsend]
      simp only
      rw [if_neg (by omega), Int.toNat_natCast]
      exact writeLoop_fuel _ _ _ _ (by omega) (Nat.le_refl _)
  · rw [if_neg hamt] at h
    cases h
    exact .returned fun _ => writeFrom_done hamt

/-- A fault in a round is one of the loop. -/
theorem writeRound_error {r : SendReply} {f : Fault} (h : writeRound n msg sentAmt r = .error f) :
    writeFrom n sentAmt msg sock = .error f := by
  unfold writeRound at h
  by_cases hamt : sentAmt < n
  · obtain ⟨k, hk⟩ : ∃ k, (n - sentAmt).toNat = k + 1 := ⟨(n - sentAmt).toNat - 1, by omega⟩
    rw [if_pos hamt] at h
    rw [writeFrom, hk, writeLoop, if_pos hamt]
    cases hmem : memcpyFrom msg sentAmt (n - sentAmt).toNat with
    | error e =>
      rw [hmem, error_bind] at h
      rw [error_bind]
      cases h
      rfl
    | ok bytes =>
      rw [hmem] at h
      cases r <;> cases h
  · rw [if_neg hamt] at h
    cases h

end

/-! ## 2. What a round leaves -/

theorem echoMessage_eq (size : List UInt8) (msg : Str) (buf : Buffer) (sock : Socket) :
    echoMessage size msg buf sock = (do
      let msg ← stringClear msg
      let msg ← stringResize msg (headerInt size) '!'.toUInt8
      readFrom (headerInt size) 0 msg.str buf sock >>= behindMsg size msg) := by
  unfold echoMessage readNBytes readFrom
  simp only [Int.sub_zero]
  rfl

theorem writeNBytes_eq (n : Int) (msg : List UInt8) (sock : Socket) :
    writeNBytes n msg sock = writeFrom n 0 msg sock := by
  unfold writeNBytes writeFrom
  rw [Int.sub_zero]

theorem echoRounds_eq (fuel : Nat) (msg : Str) (buf : Buffer) (sock : Socket) :
    echoRounds (fuel + 1) msg buf sock =
      readFrom 4 0 [0, 0, 0, 0] buf sock >>= behindSize msg >>= echoNext fuel := rfl

/-- Behind the start, the amounts that are there already are not negative. -/
def EchoPoint.Counts : EchoPoint → Prop
  | .start => False
  | .readSize amt _ => 0 ≤ amt
  | .readMsg _ amt => 0 ≤ amt
  | .writeSize _ sentAmt => 0 ≤ sentAmt
  | .writeMsg _ sentAmt => 0 ≤ sentAmt
  | .fail => True

namespace EchoTask

/-- **What a round leaves of the rest of the code**: the rest before it, on the answers of the round
and any later ones, is the rest behind it on the later ones. -/
structure Round (e : EchoTask) (c : Conn) (e' : EchoTask) (c' : Conn) : Prop where
  counts : e'.point.Counts
  ending : c'.ending ≠ none → e'.point = .fail
  failed : Send.failed ∈ c'.sends →
    Send.failed ∈ c.sends ∨ e'.point = .fail ∧ c'.recvs = c.recvs ∧ c'.sent = c.sent
  rest : ∃ (k : Nat) (recvs : List Recv) (sends : List Send),
    c'.recvs = c.recvs ++ recvs ∧ c'.sends = c.sends ++ sends ∧
    ∀ fuel recvs' ending sends', (c'.ending = none ∨ c'.ending = some ending ∧ recvs' = []) →
      e.resume (fuel + k) (c.later (recvs ++ recvs') ending (sends ++ sends')) =
        e'.resume fuel (c'.later recvs' ending sends')

variable {e e' : EchoTask} {c c' : Conn} {recv : RecvReply} {send : SendReply}

/-- A round without an answer of the operating system. -/
theorem Round.local_ (k : Nat) (hcounts : e'.point.Counts) (hend : c.ending = none)
    (hrest : ∀ fuel sock, e.resume (fuel + k) sock = e'.resume fuel sock) : Round e c e' c where
  counts := hcounts
  ending := fun h => absurd hend h
  failed := .inl
  rest := ⟨k, [], [], (List.append_nil _).symm, (List.append_nil _).symm,
    fun fuel _ _ _ _ => hrest fuel _⟩

theorem Round.receives {p : Piece} (hcounts : e'.point.Counts) (hend : c.ending = none)
    (hrest : ∀ fuel recvs ending sends sent,
      e.resume fuel ⟨.piece p :: recvs, ending, sends, sent⟩ =
        e'.resume fuel ⟨recvs, ending, sends, sent⟩) : Round e c e' (c.receives p) where
  counts := hcounts
  ending := fun h => absurd hend h
  failed := .inl
  rest := ⟨0, [.piece p], [], rfl, (List.append_nil _).symm,
    fun fuel recvs ending sends _ => hrest fuel recvs ending sends _⟩

theorem Round.accepts {more : Nat} {bytes : List UInt8} (hcounts : e'.point.Counts)
    (hend : c.ending = none)
    (hrest : ∀ fuel recvs ending sends sent,
      e.resume fuel ⟨recvs, ending, .accepts more :: sends, sent⟩ =
        e'.resume fuel ⟨recvs, ending, sends, sent ++ bytes⟩) :
    Round e c e' (c.accepts more bytes) where
  counts := hcounts
  ending := fun h => absurd hend h
  failed := fun h => by
    rcases List.mem_append.mp h with h | h
    · exact .inl h
    · cases List.mem_singleton.mp h
  rest := ⟨0, [], [.accepts more], (List.append_nil _).symm, rfl,
    fun fuel recvs ending sends _ => hrest fuel recvs ending sends _⟩

/-- The stream has ended, and with it the code. -/
theorem Round.ends {en : Ending} (hfail : e'.point = .fail)
    (hrest : ∀ fuel sends sent,
      e.resume fuel ⟨[], en, sends, sent⟩ = e'.resume fuel ⟨[], en, sends, sent⟩) :
    Round e c e' (c.ends (some en)) where
  counts := by
    rw [hfail]
    trivial
  ending := fun _ => hfail
  failed := .inl
  rest := by
    refine ⟨0, [], [], (List.append_nil _).symm, (List.append_nil _).symm, ?_⟩
    rintro fuel recvs ending sends (h | ⟨h, rfl⟩)
    · cases h
    · cases h
      exact hrest fuel sends _

theorem Round.fails (k : Nat) (hfail : e'.point = .fail)
    (hrest : ∀ fuel recvs ending sends sent,
      e.resume (fuel + k) ⟨recvs, ending, .failed :: sends, sent⟩ =
        e'.resume fuel ⟨recvs, ending, sends, sent⟩) :
    Round e c e' (c.fails true) where
  counts := by
    rw [hfail]
    trivial
  ending := fun _ => hfail
  failed := fun _ => .inr ⟨hfail, rfl, rfl⟩
  rest := ⟨k, [], [.failed], (List.append_nil _).symm, rfl,
    fun fuel recvs ending sends _ => hrest fuel recvs ending sends _⟩

/-! ## 3. The code between two loops -/

theorem sizeRead_rest {size : List UInt8} {ret : Int} (h : e.sizeRead size ret = .ok e')
    (fuel : Nat)
    (sock : Socket) :
    behindSize e.msg { ret := ret, out := size, buf := e.buf, sock := sock } >>= echoNext fuel =
      e'.resume fuel sock := by
  unfold sizeRead at h
  unfold behindSize
  by_cases hret : ret = 4
  · rw [if_neg (not_not.mpr hret)] at h
    rw [if_neg (not_not.mpr hret), echoMessage_eq]
    obtain ⟨msg, hclear, h⟩ := bind_eq_ok.mp h
    obtain ⟨msg', hresize, h⟩ := bind_eq_ok.mp h
    cases h
    rw [hclear, ok_bind, hresize, ok_bind]
    rfl
  · rw [if_pos hret] at h
    cases h
    rw [if_pos hret]
    rfl

theorem msgRead_rest (size : List UInt8) (ret : Int) (fuel : Nat) (sock : Socket) :
    behindMsg size e.msg { ret := ret, out := e.msg.str, buf := e.buf, sock := sock } >>=
      echoNext fuel = (e.msgRead size ret).resume fuel sock := by
  unfold msgRead behindMsg
  by_cases hret : ret = headerInt size
  · rw [if_neg (not_not.mpr hret), if_neg (not_not.mpr hret)]
    rfl
  · rw [if_pos hret, if_pos hret]
    rfl

theorem sizeWritten_rest (size : List UInt8) (ret : Int) (fuel : Nat) (sock : Socket) :
    behindHeader (headerInt size) e.msg e.buf (ret, sock) >>= echoNext fuel =
      (e.sizeWritten size ret).resume fuel sock := by
  unfold sizeWritten behindHeader
  by_cases hret : ret = 4
  · rw [if_neg (not_not.mpr hret), if_neg (not_not.mpr hret), writeNBytes_eq]
    rfl
  · rw [if_pos hret, if_pos hret]
    rfl

theorem msgWritten_rest (size : List UInt8) (ret : Int) (fuel : Nat) (sock : Socket) :
    behindReply (headerInt size) e.msg e.buf (ret, sock) >>= echoNext (fuel + 1) =
      (e.msgWritten size ret).resume fuel sock := by
  unfold msgWritten behindReply
  by_cases hret : ret = headerInt size
  · rw [if_neg (not_not.mpr hret), if_neg (not_not.mpr hret), ok_bind]
    exact echoRounds_eq fuel e.msg e.buf sock
  · rw [if_pos hret, if_pos hret]
    rfl

theorem sizeRead_point {size : List UInt8} {ret : Int} (h : e.sizeRead size ret = .ok e') :
    e'.point.Counts ∧ (ret ≠ 4 → e'.point = .fail) := by
  unfold sizeRead at h
  by_cases hret : ret = 4
  · rw [if_neg (not_not.mpr hret)] at h
    obtain ⟨msg, -, h⟩ := bind_eq_ok.mp h
    obtain ⟨msg', -, h⟩ := bind_eq_ok.mp h
    cases h
    exact ⟨Int.le_refl 0, fun hne => absurd hret hne⟩
  · rw [if_pos hret] at h
    cases h
    exact ⟨trivial, fun _ => rfl⟩

/-- The other branches end in `goto fail`, or before the first round of the next loop. -/
theorem point_ite {p : Prop} [Decidable p] (hcounts : e'.point.Counts) :
    (if p then e.failed else e').point.Counts ∧
      (p → (if p then e.failed else e').point = .fail) := by
  by_cases h : p
  · rw [if_pos h]
    exact ⟨trivial, fun _ => rfl⟩
  · rw [if_neg h]
    exact ⟨hcounts, fun hp => absurd hp h⟩

theorem msgRead_point (e : EchoTask) (size : List UInt8) (ret : Int) :
    (e.msgRead size ret).point.Counts ∧
      (ret ≠ headerInt size → (e.msgRead size ret).point = .fail) := by
  refine point_ite ?_
  exact Int.le_refl 0

theorem sizeWritten_point (e : EchoTask) (size : List UInt8) (ret : Int) :
    (e.sizeWritten size ret).point.Counts ∧
      (ret ≠ 4 → (e.sizeWritten size ret).point = .fail) := by
  refine point_ite ?_
  exact Int.le_refl 0

theorem msgWritten_point (e : EchoTask) (size : List UInt8) (ret : Int) :
    (e.msgWritten size ret).point.Counts ∧
      (ret ≠ headerInt size → (e.msgWritten size ret).point = .fail) := by
  refine point_ite ?_
  exact Int.le_refl 0

/-- `recv` does not return the length that `read_n_bytes` is to read, when it returns 0 or -1. -/
theorem status_ne {n amt : Int} (en : Ending) (hcounts : 0 ≤ amt) (hless : amt < n) :
    en.status ≠ n := by
  rcases status_eq en with h | h <;> omega

/-! ## 4. One round of the task -/

/-- **One round of `echo_loop`.** -/
theorem step_round (hcounts : e.point = .start ∨ e.point.Counts) (hend : c.ending = none)
    (hstep : e.step c recv send = .ok (.next e' c')) : Round e c e' c' := by
  obtain ⟨msg, buf, point⟩ := e
  cases point with
  | start =>
    cases hstep
    exact .local_ 0 (Int.le_refl 0) hend fun fuel sock => echoRounds_eq fuel msg buf sock
  | readSize amt size =>
    have hcounts := hcounts.resolve_left nofun
    obtain ⟨next, hnext, hstep⟩ := bind_eq_ok.mp hstep
    cases readRound_ok hnext with
    | skip => cases hstep
    | filled rest =>
      cases hstep
      refine .receives hcounts hend fun fuel recvs ending sends sent => ?_
      unfold resume
      dsimp only
      rw [rest]
    | copied more rest =>
      cases hstep
      refine .local_ 0 (Int.le_trans hcounts (Int.le_of_lt more)) hend fun fuel sock => ?_
      unfold resume
      dsimp only
      rw [Nat.add_zero, rest]
    | returned rest =>
      obtain ⟨e₁, hread, hstep⟩ := bind_eq_ok.mp hstep
      cases hstep
      refine .local_ 0 (sizeRead_point hread).1 hend fun fuel sock => ?_
      rw [← sizeRead_rest hread]
      unfold resume
      dsimp only
      rw [Nat.add_zero, rest]
      rfl
    | @ended en less rest =>
      obtain ⟨e₁, hread, hstep⟩ := bind_eq_ok.mp hstep
      cases hstep
      refine .ends ((sizeRead_point hread).2 (status_ne en hcounts less)) fun fuel sends sent => ?_
      rw [← sizeRead_rest hread]
      unfold resume
      dsimp only
      rw [rest]
      rfl
  | readMsg size amt =>
    have hcounts := hcounts.resolve_left nofun
    obtain ⟨next, hnext, hstep⟩ := bind_eq_ok.mp hstep
    cases readRound_ok hnext with
    | skip => cases hstep
    | filled rest =>
      cases hstep
      refine .receives hcounts hend fun fuel recvs ending sends sent => ?_
      unfold resume
      dsimp only at rest ⊢
      rw [rest]
    | copied more rest =>
      cases hstep
      refine .local_ 0 (Int.le_trans hcounts (Int.le_of_lt more)) hend fun fuel sock => ?_
      unfold resume
      dsimp only at rest ⊢
      rw [Nat.add_zero, rest]
      rfl
    | returned rest =>
      cases hstep
      refine .local_ 0 (msgRead_point _ _ _).1 hend fun fuel sock => ?_
      rw [← msgRead_rest]
      unfold resume
      dsimp only at rest ⊢
      rw [Nat.add_zero, rest]
      rfl
    | @ended en less rest =>
      cases hstep
      refine .ends ((msgRead_point _ _ _).2 (status_ne en hcounts less))
        fun fuel sends sent => ?_
      rw [← msgRead_rest]
      unfold resume
      dsimp only at rest ⊢
      rw [rest]
      rfl
  | writeSize size sentAmt =>
    have hcounts := hcounts.resolve_left nofun
    obtain ⟨next, hnext, hstep⟩ := bind_eq_ok.mp hstep
    cases writeRound_ok hnext with
    | skip => cases hstep
    | killed => cases hstep
    | sent less rest =>
      cases hstep
      refine .accepts (Int.le_trans hcounts (Int.le_of_lt less)) hend
        fun fuel recvs ending sends sent => ?_
      unfold resume
      dsimp only
      rw [rest]
    | returned rest =>
      cases hstep
      refine .local_ 0 (sizeWritten_point _ _ _).1 hend fun fuel sock => ?_
      rw [← sizeWritten_rest]
      unfold resume
      dsimp only
      rw [Nat.add_zero, rest]
      rfl
    | failed less rest =>
      cases hstep
      refine .fails 0 ((sizeWritten_point _ _ _).2 (by decide))
        fun fuel recvs ending sends sent => ?_
      rw [← sizeWritten_rest]
      unfold resume
      dsimp only
      rw [Nat.add_zero, rest]
      rfl
  | writeMsg size sentAmt =>
    have hcounts := hcounts.resolve_left nofun
    obtain ⟨next, hnext, hstep⟩ := bind_eq_ok.mp hstep
    cases writeRound_ok hnext with
    | skip => cases hstep
    | killed => cases hstep
    | sent less rest =>
      cases hstep
      refine .accepts (Int.le_trans hcounts (Int.le_of_lt less)) hend
        fun fuel recvs ending sends sent => ?_
      unfold resume
      dsimp only
      rw [rest]
    | returned rest =>
      cases hstep
      refine .local_ 1 (msgWritten_point _ _ _).1 hend fun fuel sock => ?_
      rw [← msgWritten_rest]
      unfold resume
      dsimp only
      rw [rest]
      rfl
    | failed less rest =>
      cases hstep
      have hne : (-1 : Int) ≠ headerInt size := by
        change 0 ≤ sentAmt at hcounts
        omega
      refine .fails 1 ((msgWritten_point _ _ _).2 hne) fun fuel recvs ending sends sent => ?_
      rw [← msgWritten_rest]
      unfold resume
      dsimp only
      rw [rest]
      rfl
  | fail =>
    cases hstep
    exact .local_ 0 trivial hend fun _ _ => rfl

theorem sizeRead_error {size : List UInt8} {ret : Int} {f : Fault}
    (h : e.sizeRead size ret = .error f) (fuel : Nat) (sock : Socket) :
    behindSize e.msg { ret := ret, out := size, buf := e.buf, sock := sock } >>= echoNext fuel =
      .error f := by
  unfold sizeRead at h
  unfold behindSize
  by_cases hret : ret = 4
  · rw [if_neg (not_not.mpr hret)] at h
    rw [if_neg (not_not.mpr hret), echoMessage_eq]
    cases hclear : stringClear e.msg with
    | error f' =>
      rw [hclear] at h
      cases h
      rfl
    | ok msg =>
      rw [hclear, ok_bind] at h
      rw [ok_bind]
      cases hresize : stringResize msg (headerInt size) '!'.toUInt8 with
      | error f' =>
        rw [hresize] at h
        cases h
        rfl
      | ok msg' =>
        rw [hresize] at h
        cases h
  · rw [if_pos hret] at h
    cases h

/-- **A fault in a round is one of the rest.** -/
theorem step_error {f : Fault} (hcounts : e.point = .start ∨ e.point.Counts)
    (hstep : e.step c recv send = .error f)
    (fuel : Nat) (ending : Ending) (sends : List Send) :
    e.resume fuel (c.later recv.script ending sends) = .error f := by
  obtain ⟨msg, buf, point⟩ := e
  cases point with
  | start => cases hstep
  | readSize amt size =>
    have hcounts := hcounts.resolve_left nofun
    unfold step at hstep
    dsimp only at hstep
    cases hround : readRound 4 amt size buf recv with
    | error f' =>
      rw [hround, error_bind] at hstep
      cases hstep
      unfold resume Conn.later
      dsimp only
      rw [readRound_error hround, error_bind, error_bind]
    | ok next =>
      rw [hround, ok_bind] at hstep
      cases readRound_ok hround with
      | skip => cases hstep
      | filled rest => cases hstep
      | copied more rest => cases hstep
      | returned rest =>
        dsimp only at hstep
        cases hread : sizeRead ⟨msg, buf, .readSize amt size⟩ size amt with
        | ok e' =>
          rw [hread] at hstep
          cases hstep
        | error f' =>
          rw [hread, error_bind] at hstep
          cases hstep
          rw [← sizeRead_error hread fuel (c.later recv.script ending sends)]
          unfold resume
          dsimp only
          rw [rest]
          rfl
      | @ended en less rest =>
        dsimp only at hstep
        unfold sizeRead at hstep
        rw [if_pos (status_ne en hcounts less)] at hstep
        cases hstep
  | readMsg size amt =>
    unfold step at hstep
    dsimp only at hstep
    cases hround : readRound (headerInt size) amt msg.str buf recv with
    | error f' =>
      rw [hround, error_bind] at hstep
      cases hstep
      unfold resume Conn.later
      dsimp only
      rw [readRound_error hround, error_bind, error_bind]
    | ok next =>
      rw [hround, ok_bind] at hstep
      cases readRound_ok hround <;> cases hstep
  | writeSize size sentAmt =>
    unfold step at hstep
    dsimp only at hstep
    cases hround : writeRound 4 size sentAmt send with
    | error f' =>
      rw [hround, error_bind] at hstep
      cases hstep
      unfold resume
      dsimp only
      rw [writeRound_error hround, error_bind, error_bind]
    | ok next =>
      rw [hround, ok_bind] at hstep
      cases writeRound_ok hround <;> cases hstep
  | writeMsg size sentAmt =>
    unfold step at hstep
    dsimp only at hstep
    cases hround : writeRound (headerInt size) msg.str sentAmt send with
    | error f' =>
      rw [hround, error_bind] at hstep
      cases hstep
      unfold resume
      dsimp only
      rw [writeRound_error hround, error_bind, error_bind]
    | ok next =>
      rw [hround, ok_bind] at hstep
      cases writeRound_ok hround <;> cases hstep
  | fail => cases hstep

end EchoTask
end CAsync
