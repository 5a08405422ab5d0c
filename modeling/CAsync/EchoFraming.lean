/-
# What the echo server sends

The bytes that `echo_loop` has not looked at yet are those in its buffer, and those still to be
received (`unread`).  `read_n_bytes` takes from this stream, wherever the pieces end (`read_spec`),
and `write_n_bytes` sends its message, whatever `send` takes (`write_spec`).  So a round of the loop
takes a frame from the stream and sends it (`echoRound_frame`), and by induction along the stream
the loop sends the frames of the stream (`echo_framing`).

The size of a message is chosen by the client.  `string_resize` is safe for an empty string and a
size of 0 and more, but a negative one is written in front of the block that an earlier message has
left (`string_resize_safe_iff`).
-/
import CAsync.Echo

namespace CAsync

open Bytes Faulting

/-! ## 1. The stream -/

/-- A buffer whose cursors are in bounds. -/
inductive Buffer.Ok : Buffer → Prop
  | mk {buffer : List UInt8} {start stop : Nat} : buffer.length = 256 → start ≤ stop →
      stop ≤ 256 → Ok { buffer := buffer, start := start, stop := stop }

/-- The bytes in a buffer. -/
def Buffer.bytes (buf : Buffer) : List UInt8 :=
  slice buf.buffer buf.start.toNat (buf.stop - buf.start).toNat

/-- The bytes that are still to be read. -/
def unread (buf : Buffer) (sock : Socket) : List UInt8 := buf.bytes ++ received sock.recvs

theorem unread_mk (buffer : List UInt8) (start stop : Nat) (sock : Socket) :
    unread { buffer := buffer, start := start, stop := stop } sock =
      slice buffer start (stop - start) ++ received sock.recvs := by
  unfold unread Buffer.bytes
  congr 2
  simp only
  omega

theorem status_eq (ending : Ending) : ending.status = 0 ∨ ending.status = -1 := by
  cases ending with
  | closed => exact .inl rfl
  | failed => exact .inr rfl

/-- `await_async_recv` brings the next bytes, or the end. -/
theorem awaitAsyncRecv_cases (ending : Ending) (recvs : List Recv) :
    (received recvs = [] ∧ awaitAsyncRecv ending recvs = (ending.status, [], [])) ∨
      ∃ (p : Piece) (later : List Recv), received recvs = p.bytes ++ received later ∧
        awaitAsyncRecv ending recvs = ((p.bytes.length : Int), p.bytes, later) := by
  induction recvs with
  | nil => exact .inl ⟨rfl, rfl⟩
  | cons r recvs ih =>
    cases r with
    | again => exact ih
    | piece p => exact .inr ⟨p, recvs, rfl, rfl⟩

/-! ## 2. `read_n_bytes` -/

/-- **A copy**: one byte at least, from the front of the buffer. -/
theorem readCopy_spec {n amt start stop : Nat} {out buffer : List UInt8}
    (hlen : buffer.length = 256)
    (hstart : start < stop) (hstop : stop ≤ 256) (hamt : amt < n) (hout : n ≤ out.length) :
    ∃ k : Nat, 0 < k ∧ k ≤ n - amt ∧ k ≤ stop - start ∧
      readCopy n amt out { buffer := buffer, start := start, stop := stop } =
        .ok (overwrite out amt (slice buffer start k), k) := by
  have hcopy : ∀ k : Nat, k ≤ n - amt → k ≤ stop - start →
      memcpyFrom buffer start k = .ok (slice buffer start k) ∧
        memcpyTo out amt (slice buffer start k) =
          .ok (overwrite out amt (slice buffer start k)) := by
    intro k hk hk'
    refine ⟨memcpyFrom_nat (by omega), memcpyTo_nat ?_⟩
    rw [length_slice (by omega)]
    omega
  unfold readCopy
  rw [require_of (by simp only; omega), ok_bind]
  simp only
  by_cases hmore : (n : Int) - amt > stop - start
  · obtain ⟨hfrom, hto⟩ := hcopy (stop - start) (by omega) (Nat.le_refl _)
    refine ⟨stop - start, by omega, by omega, Nat.le_refl _, ?_⟩
    have hcast : (stop : Int) - start = (stop - start : Nat) := by omega
    rw [if_pos hmore, hcast, Int.toNat_natCast, hfrom, ok_bind, hto, ok_bind]
  · obtain ⟨hfrom, hto⟩ := hcopy (n - amt) (Nat.le_refl _) (by omega)
    refine ⟨n - amt, by omega, Nat.le_refl _, by omega, ?_⟩
    have hcast : (n : Int) - amt = (n - amt : Nat) := by omega
    rw [if_neg hmore, hcast, Int.toNat_natCast, hfrom, ok_bind, hto, ok_bind]

/-- **What a read does** with the bytes `u` of the stream, when `amt` bytes of `n` are
there: it takes what is missing from their front, or returns 0 or -1 if they are not
enough.  It sends nothing. -/
structure Reads (n amt : Nat) (out u : List UInt8) (sock : Socket) (r : ReadResult) : Prop where
  ok : r.buf.Ok
  sends : r.sock.sends = sock.sends
  sent : r.sock.sent = sock.sent
  whole : n - amt ≤ u.length → r.ret = n ∧ r.out = overwrite out amt (u.take (n - amt)) ∧
    unread r.buf r.sock = u.drop (n - amt)
  short : u.length < n - amt → r.ret ≤ 0

namespace Reads

variable {n amt k : Nat} {out u : List UInt8} {buf : Buffer} {sock : Socket} {r : ReadResult}

/-- Nothing is missing. -/
theorem full (hbuf : buf.Ok) (hamt : amt = n) : Reads n amt out (unread buf sock) sock
    { ret := amt, out := out, buf := buf, sock := sock } := by
  have hn : n - amt = 0 := by omega
  refine ⟨hbuf, rfl, rfl, fun _ => ⟨congrArg Nat.cast hamt, ?_, ?_⟩, fun hlt => ?_⟩
  · rw [hn, List.take_zero, overwrite_nil]
  · rw [hn, List.drop_zero]
  · omega

/-- The stream ends. -/
theorem ended (hbuf : r.buf.Ok) (hsends : r.sock.sends = sock.sends)
    (hsent : r.sock.sent = sock.sent) (hamt : amt < n) (hret : r.ret ≤ 0) :
    Reads n amt out [] sock r := by
  refine ⟨hbuf, hsends, hsent, fun hle => ?_, fun _ => hret⟩
  rw [List.length_nil] at hle
  omega

/-- A copy of `k` bytes, and the rest of the read. -/
theorem copy (h : Reads n (amt + k) (overwrite out amt (u.take k)) (u.drop k) sock r)
    (hk : k ≤ n - amt) (hu : k ≤ u.length) (hout : n ≤ out.length) (hamt : amt ≤ n) :
    Reads n amt out u sock r := by
  have hlen : (u.take k).length = k := List.length_take_of_le hu
  have hsum : k + (n - (amt + k)) = n - amt := by omega
  refine ⟨h.ok, h.sends, h.sent, fun hle => ?_, fun hlt => h.short ?_⟩
  · obtain ⟨hret, hr, hrest⟩ := h.whole (by rw [List.length_drop]; omega)
    refine ⟨hret, ?_, ?_⟩
    · have htwo : overwrite (overwrite out amt (u.take k)) (amt + (u.take k).length)
          ((u.drop k).take (n - (amt + k))) =
          overwrite out amt (u.take k ++ (u.drop k).take (n - (amt + k))) :=
        overwrite_overwrite (by omega)
      rw [hlen] at htwo
      rw [hr, htwo, ← List.take_add, hsum]
    · rw [hrest, List.drop_drop, hsum]
  · rw [List.length_drop]
    omega

end Reads

/-- **The loop of `read_n_bytes`.** -/
theorem readLoop_spec {n : Nat} : ∀ (fuel amt : Nat) (out : List UInt8) (buf : Buffer)
    (sock : Socket), buf.Ok → amt ≤ n → n - amt ≤ fuel → n ≤ out.length →
      ∃ r, readLoop n fuel amt out buf sock = .ok r ∧ Reads n amt out (unread buf sock) sock r
  | 0, amt, out, buf, sock, hbuf, hamt, hfuel, _ =>
    ⟨_, if_neg (by omega), .full hbuf (by omega)⟩
  | fuel + 1, amt, out, buf, sock, hbuf, hamt, hfuel, hout => by
    by_cases hdone : amt = n
    · exact ⟨_, if_neg (by omega), .full hbuf hdone⟩
    -- a round with a buffer that is not empty
    have hround : ∀ (buffer : List UInt8) (start stop : Nat) (sock : Socket),
        buffer.length = 256 → start < stop → stop ≤ 256 → ∃ r, (do
          let c ← readCopy n amt out { buffer := buffer, start := start, stop := stop }
          readLoop n fuel (amt + c.2) c.1 { buffer := buffer, start := start + c.2, stop := stop }
            sock) = .ok r ∧
          Reads n amt out (slice buffer start (stop - start) ++ received sock.recvs) sock r := by
      intro buffer start stop sock hlen hstart hstop
      obtain ⟨k, hpos, hk, hk', hcopy⟩ := readCopy_spec hlen hstart hstop
        (show amt < n by omega) hout
      have hbytes : (slice buffer start (stop - start)).length = stop - start :=
        length_slice (by omega)
      have hlen' : (overwrite out amt (slice buffer start k)).length = out.length :=
        length_overwrite (by rw [length_slice (by omega)]; omega)
      obtain ⟨r, hok, hr⟩ := readLoop_spec (n := n) fuel (amt + k)
        (overwrite out amt (slice buffer start k))
        { buffer := buffer, start := (start + k : Nat), stop := stop } sock
        (.mk hlen (by omega) hstop) (by omega) (by omega) (by omega)
      refine ⟨r, ?_, Reads.copy (k := k) ?_ hk ?_ hout hamt⟩
      · rw [hcopy, ok_bind]
        exact hok
      · rw [List.take_append_of_le_length (by omega), List.drop_append_of_le_length (by omega),
          take_slice hk', drop_slice, Nat.sub_sub]
        rwa [unread_mk] at hr
      · rw [List.length_append]
        omega
    have hlt : (amt : Int) < n := by omega
    cases hbuf with
    | @mk buffer start stop hlen hstart hstop =>
      rw [unread_mk, readLoop, if_pos hlt]
      by_cases hempty : start = stop
      · -- the buffer is refilled
        have hnone : slice buffer start (stop - start) = [] := by
          rw [hempty, Nat.sub_self]
          exact List.take_zero
        rw [if_pos (by simp only; omega), hnone, List.nil_append]
        rcases awaitAsyncRecv_cases sock.ending sock.recvs with ⟨hend, hrecv⟩ |
          ⟨p, later, hp, hrecv⟩
        · rw [hrecv, hend]
          have hok : Buffer.Ok { buffer := buffer, start := start, stop := stop } :=
            .mk hlen hstart hstop
          have hamt' : amt < n := by omega
          simp only
          rcases status_eq sock.ending with hstatus | hstatus
          · rw [hstatus, if_neg (by omega), if_pos rfl]
            exact ⟨_, rfl, .ended hok rfl rfl hamt' (Int.le_refl 0)⟩
          · rw [hstatus, if_pos rfl]
            exact ⟨_, rfl, .ended hok rfl rfl hamt' (by simp only; omega)⟩
        · have hpos := p.pos
          have hle := p.le
          have hfill : memcpyTo buffer 0 p.bytes = .ok (overwrite buffer 0 p.bytes) :=
            memcpyTo_nat (n := 0) (by omega)
          obtain ⟨r, hok, hr⟩ := hround (overwrite buffer 0 p.bytes) 0 p.bytes.length
            { sock with recvs := later } (by rw [length_overwrite (by omega), hlen]) hpos hle
          refine ⟨r, ?_, ?_⟩
          · rw [hrecv]
            simp only
            rw [if_neg (by omega), if_neg (by omega), hfill, ok_bind]
            exact hok
          · have hbytes : slice (overwrite buffer 0 p.bytes) 0 (p.bytes.length - 0) = p.bytes := by
              rw [slice_zero, Nat.sub_zero, overwrite, List.take_zero, List.nil_append,
                List.take_left]
            rw [hbytes] at hr
            rw [hp]
            exact ⟨hr.ok, hr.sends, hr.sent, hr.whole, hr.short⟩
      · rw [if_neg (by simp only; omega)]
        exact hround buffer start stop sock hlen (by omega) hstop

/-- **`read_n_bytes`** takes the next `n` bytes of the stream, if it has as many. -/
theorem readNBytes_spec (n : Nat) (out : List UInt8) {buf : Buffer} (sock : Socket) (hbuf : buf.Ok)
    (hout : n ≤ out.length) :
    ∃ r, readNBytes n out buf sock = .ok r ∧ Reads n 0 out (unread buf sock) sock r := by
  unfold readNBytes
  rw [Int.toNat_natCast]
  exact readLoop_spec n 0 out buf sock hbuf (Nat.zero_le n) (by omega) hout

/-! ## 3. `write_n_bytes` -/

/-- `await_async_send` takes a byte at least, unless it fails. -/
theorem awaitAsyncSend_cases {bytes : List UInt8} (hbytes : 0 < bytes.length) (sends : List Send) :
    (Send.failed ∈ sends ∧ ∃ later, awaitAsyncSend bytes sends = (-1, later)) ∨
      ∃ (k : Nat) (later : List Send), 0 < k ∧ k ≤ bytes.length ∧ later ⊆ sends ∧
        awaitAsyncSend bytes sends = ((k : Int), later) := by
  induction sends with
  | nil => exact .inr ⟨bytes.length, [], hbytes, Nat.le_refl _, List.Subset.refl _, rfl⟩
  | cons r sends ih =>
    cases r with
    | again =>
      rcases ih with ⟨hmem, later, hsend⟩ | ⟨k, later, hpos, hk, hsub, hsend⟩
      · exact .inl ⟨List.mem_cons_of_mem _ hmem, later, hsend⟩
      · exact .inr ⟨k, later, hpos, hk, List.subset_cons_of_subset _ hsub, hsend⟩
    | failed => exact .inl ⟨List.mem_cons_self, sends, rfl⟩
    | accepts more =>
      exact .inr ⟨min (more + 1) bytes.length, sends, by omega, Nat.min_le_right _ _,
        List.subset_cons_self _ _, rfl⟩

/-- **What a write does**: nothing to the stream, and if no `send` fails it sends `bytes`. -/
structure Writes (n : Nat) (bytes : List UInt8) (sock : Socket) (r : Int × Socket) : Prop where
  recvs : r.2.recvs = sock.recvs
  ending : r.2.ending = sock.ending
  whole : Send.failed ∉ sock.sends →
    r.1 = n ∧ r.2.sent = sock.sent ++ bytes ∧ Send.failed ∉ r.2.sends

/-- **The loop of `write_n_bytes`.** -/
theorem writeLoop_spec {n : Nat} {msg : List UInt8} (hmsg : n ≤ msg.length) :
    ∀ (fuel amt : Nat) (sock : Socket), amt ≤ n → n - amt ≤ fuel →
      ∃ r, writeLoop n msg fuel amt sock = .ok r ∧ Writes n (slice msg amt (n - amt)) sock r
  | 0, amt, sock, hamt, hfuel => by
    obtain rfl : amt = n := by omega
    refine ⟨_, if_neg (by omega), rfl, rfl, fun hsends => ⟨rfl, ?_, hsends⟩⟩
    rw [Nat.sub_self, slice, List.take_zero, List.append_nil]
  | fuel + 1, amt, sock, hamt, hfuel => by
    by_cases hdone : amt = n
    · subst hdone
      refine ⟨_, if_neg (by omega), rfl, rfl, fun hsends => ⟨rfl, ?_, hsends⟩⟩
      rw [Nat.sub_self, slice, List.take_zero, List.append_nil]
    have hcast : (n : Int) - amt = (n - amt : Nat) := by omega
    have hlen : (slice msg amt (n - amt)).length = n - amt := length_slice (by omega)
    have hfrom : memcpyFrom msg amt (n - amt) = .ok (slice msg amt (n - amt)) :=
      memcpyFrom_nat (by omega)
    rw [writeLoop, if_pos (by omega), hcast, Int.toNat_natCast, hfrom, ok_bind]
    have hpos : 0 < (slice msg amt (n - amt)).length := by omega
    rcases awaitAsyncSend_cases hpos sock.sends with
      ⟨hmem, later, hsend⟩ | ⟨k, later, hpos, hk, hsub, hsend⟩
    · rw [hsend]
      exact ⟨_, if_pos rfl, rfl, rfl, fun hsends => absurd hmem hsends⟩
    · rw [hsend]
      simp only
      rw [if_neg (by omega), take_slice (by omega)]
      obtain ⟨r, hok, hr⟩ := writeLoop_spec hmsg fuel (amt + k)
        { sock with sends := later, sent := sock.sent ++ slice msg amt k } (by omega) (by omega)
      refine ⟨r, hok, hr.recvs, hr.ending, fun hsends => ?_⟩
      obtain ⟨hret, hsent, hlater⟩ := hr.whole fun h => hsends (hsub h)
      refine ⟨hret, ?_, hlater⟩
      have hrest : slice msg amt k ++ slice msg (amt + k) (n - (amt + k)) =
          slice msg amt (n - amt) := by
        rw [← Nat.sub_sub, ← drop_slice, ← take_slice (show k ≤ n - amt by omega),
          List.take_append_drop]
      rw [hsent, List.append_assoc, hrest]

/-- **`write_n_bytes`** sends its `n` bytes. -/
theorem writeNBytes_spec {n : Nat} {msg : List UInt8} (sock : Socket) (hmsg : n ≤ msg.length) :
    ∃ r, writeNBytes n msg sock = .ok r ∧ Writes n (msg.take n) sock r := by
  unfold writeNBytes
  rw [Int.toNat_natCast]
  exact writeLoop_spec hmsg n 0 sock (Nat.zero_le n) (by omega)

/-! ## 4. A round -/

section

variable {msg : Str} {buf : Buffer} {sock : Socket} {size : List UInt8} {n : Nat}

/-- **The reply**: header and message, unless a `send` fails. -/
theorem echoReply_spec (msg : Str) (buf : Buffer) (sock : Socket) (hsize : size.length = 4)
    (hmsg : n ≤ msg.str.length) :
    ∃ r, echoReply size n msg buf sock = .ok r ∧ r.2.recvs = sock.recvs ∧
      (r.1 = none ∨ r.1 = some (msg, buf)) ∧
      (Send.failed ∉ sock.sends → r.1 = some (msg, buf) ∧
        r.2.sent = sock.sent ++ (size ++ msg.str.take n) ∧ Send.failed ∉ r.2.sends) := by
  obtain ⟨header, hheader, hw⟩ := writeNBytes_spec (n := 4) sock (Nat.le_of_eq hsize.symm)
  rw [← hsize, List.take_length, hsize] at hw
  obtain ⟨body, hbody, hw'⟩ := writeNBytes_spec header.2 hmsg
  have hheader' : writeNBytes 4 size sock = .ok header := hheader
  unfold echoReply
  rw [hheader', ok_bind]
  by_cases hput : header.1 = 4
  · rw [if_neg (not_not.mpr hput), hbody, ok_bind]
    by_cases hput' : body.1 = n
    · rw [if_neg (not_not.mpr hput')]
      refine ⟨_, rfl, hw'.recvs.trans hw.recvs, .inr rfl, fun hsends => ?_⟩
      obtain ⟨-, hsent, hlater⟩ := hw.whole hsends
      obtain ⟨-, hsent', hlater'⟩ := hw'.whole hlater
      refine ⟨rfl, ?_, hlater'⟩
      rw [hsent', hsent, List.append_assoc]
    · rw [if_pos hput']
      refine ⟨_, rfl, hw'.recvs.trans hw.recvs, .inl rfl, fun hsends => ?_⟩
      exact absurd (hw'.whole (hw.whole hsends).2.2).1 hput'
  · rw [if_pos hput]
    exact ⟨_, rfl, hw.recvs, .inl rfl, fun hsends => absurd (hw.whole hsends).1 hput⟩

/-- **A message that has arrived**: the round goes on, unless a `send` fails. -/
theorem echoMessage_frame (hsize : size.length = 4) (hn : headerInt size = n) (hmsg : msg.Valid)
    (hbuf : buf.Ok) (hint : n + 1 < 2 ^ 31) (hu : n ≤ (unread buf sock).length) :
    ∃ r, echoMessage size msg buf sock = .ok r ∧
      (r.1 = none ∨ ∃ msg' buf', r.1 = some (msg', buf') ∧ msg'.Valid ∧
        (msg'.cap ≠ 0 ↔ msg.cap ≠ 0 ∨ 0 < n) ∧ buf'.Ok ∧
        unread buf' r.2 = (unread buf sock).drop n) ∧
      (Send.failed ∉ sock.sends → r.1 ≠ none ∧
        r.2.sent = sock.sent ++ (size ++ (unread buf sock).take n) ∧ Send.failed ∉ r.2.sends) := by
  obtain ⟨cleared, hclear, hvalid, hzero, hcap⟩ := hmsg.clear
  obtain ⟨resized, hresize, hvalid', hlen, hcap'⟩ :=
    stringResize_cleared '!'.toUInt8 hvalid hzero hint
  have hroom : n ≤ resized.str.length := by
    have := hvalid'.len_le
    omega
  obtain ⟨body, hread, hr⟩ := readNBytes_spec n resized.str sock hbuf hroom
  obtain ⟨hret, hout, hrest⟩ := hr.whole (by omega)
  rw [Nat.sub_zero] at hout hrest
  have htake : ((unread buf sock).take n).length = n := List.length_take_of_le hu
  have hvalid'' : Str.Valid { resized with str := body.out } := by
    rw [hout]
    exact hvalid'.text (by omega)
  have hbody : body.out.take n = (unread buf sock).take n := by
    rw [hout, overwrite, List.take_zero, List.nil_append, List.take_append_of_le_length (by omega),
      List.take_of_length_le (by omega)]
  have hroom' : n ≤ body.out.length := by
    rw [hout, length_overwrite (by omega)]
    exact hroom
  obtain ⟨r, hreply, hrecvs, hround, hsent⟩ := echoReply_spec
    { resized with str := body.out } body.buf body.sock hsize hroom'
  refine ⟨r, ?_, ?_, fun hsends => ?_⟩
  · unfold echoMessage
    simp only
    rw [hclear, ok_bind, hn, hresize, ok_bind, hread, ok_bind, if_neg (not_not.mpr hret)]
    exact hreply
  · refine hround.imp id fun hsome => ⟨_, _, hsome, hvalid'', ?_, hr.ok, ?_⟩
    · simp only
      rw [hcap', hcap]
    · rw [← hrest, unread, hrecvs, unread]
  · obtain ⟨hsome, hall, hlater⟩ := hsent (by rwa [hr.sends])
    refine ⟨by simp [hsome], ?_, hlater⟩
    rw [hall, hr.sent, hbody]

/-- A message that has not arrived as a whole: the loop ends. -/
theorem echoMessage_stop (hn : headerInt size = n) (hmsg : msg.Valid) (hbuf : buf.Ok)
    (hint : n + 1 < 2 ^ 31) (hu : (unread buf sock).length < n) :
    ∃ sock', echoMessage size msg buf sock = .ok (none, sock') ∧ sock'.sent = sock.sent := by
  obtain ⟨cleared, hclear, hvalid, hzero, -⟩ := hmsg.clear
  obtain ⟨resized, hresize, hvalid', hlen, -⟩ :=
    stringResize_cleared '!'.toUInt8 hvalid hzero hint
  have hroom : n ≤ resized.str.length := by
    have := hvalid'.len_le
    omega
  obtain ⟨body, hread, hr⟩ := readNBytes_spec n resized.str sock hbuf hroom
  have hret := hr.short (by omega)
  refine ⟨body.sock, ?_, hr.sent⟩
  unfold echoMessage
  simp only
  rw [hclear, ok_bind, hn, hresize, ok_bind, hread, ok_bind, if_pos (by omega)]

/-- A negative size and no storage: the loop ends. -/
theorem echoMessage_neg_zero (hn : headerInt size < 0) (hmsg : msg.Valid) (hcap : msg.cap = 0) :
    echoMessage size msg buf sock = .ok (none, sock) := by
  obtain rfl := hmsg.eq_zero hcap
  have hclear : stringClear stringInit = .ok stringInit := rfl
  have hread : readNBytes (headerInt size) [] buf sock =
      .ok { ret := 0, out := [], buf := buf, sock := sock } := by
    unfold readNBytes
    rw [Int.toNat_of_nonpos (by omega)]
    exact if_neg (by omega)
  have hread' : readNBytes (headerInt size) ({ stringInit with len := headerInt size } : Str).str
      buf sock = .ok { ret := 0, out := [], buf := buf, sock := sock } := hread
  unfold echoMessage
  simp only
  rw [hclear, ok_bind, stringResize_neg_zero hn, ok_bind, hread', ok_bind,
    if_pos (by simp only; omega)]

/-- **The unsafe sizes**: a negative one when there is storage, and the largest `int`. -/
theorem echoMessage_unsafe (hmsg : msg.Valid)
    (hn : headerInt size < 0 ∧ msg.cap ≠ 0 ∨ 2 ^ 31 - 1 ≤ headerInt size) :
    ∃ e, echoMessage size msg buf sock = .error e := by
  obtain ⟨cleared, hclear, -, hzero, hcap⟩ := hmsg.clear
  unfold echoMessage
  simp only
  rw [hclear, ok_bind]
  rcases hn with ⟨hneg, hstorage⟩ | hbig
  · rw [stringResize_neg (by omega) (by rw [hcap]; exact hstorage) hneg]
    exact ⟨_, rfl⟩
  · rw [stringResize_overflow hzero hbig]
    exact ⟨_, rfl⟩

/-- **The header**, if the stream has one. -/
theorem echoRound_header (msg : Str) (sock : Socket) (hbuf : buf.Ok)
    (hu : 4 ≤ (unread buf sock).length) :
    ∃ buf' sock', buf'.Ok ∧ sock'.sends = sock.sends ∧ sock'.sent = sock.sent ∧
      unread buf' sock' = (unread buf sock).drop 4 ∧
      echoRound msg buf sock = echoMessage ((unread buf sock).take 4) msg buf' sock' := by
  obtain ⟨r, hread, hr⟩ := readNBytes_spec 4 [0, 0, 0, 0] sock hbuf (Nat.le_refl 4)
  obtain ⟨hret, hout, hrest⟩ := hr.whole hu
  have hsize : r.out = (unread buf sock).take 4 := by
    rw [hout]
    exact overwrite_all (List.length_take_of_le hu)
  have hread' : readNBytes 4 [0, 0, 0, 0] buf sock = .ok r := hread
  have hret' : r.ret = 4 := hret
  refine ⟨r.buf, r.sock, hr.ok, hr.sends, hr.sent, hrest, ?_⟩
  unfold echoRound
  rw [hread', ok_bind, if_neg (not_not.mpr hret'), hsize]

/-- No header: the loop ends. -/
theorem echoRound_short (msg : Str) (sock : Socket) (hbuf : buf.Ok)
    (hu : (unread buf sock).length < 4) :
    ∃ sock', echoRound msg buf sock = .ok (none, sock') ∧ sock'.sent = sock.sent := by
  obtain ⟨r, hread, hr⟩ := readNBytes_spec 4 [0, 0, 0, 0] sock hbuf (Nat.le_refl 4)
  have hret := hr.short hu
  have hread' : readNBytes 4 [0, 0, 0, 0] buf sock = .ok r := hread
  refine ⟨r.sock, ?_, hr.sent⟩
  unfold echoRound
  rw [hread', ok_bind, if_pos (by omega)]

end

/-! ## 5. The loop -/

/-- Sizes that `echo_loop` can receive one after the other: `alloc` says whether the message has
storage. -/
def SafeSizes : Prop → List Int → Prop
  | _, [] => True
  | alloc, n :: ns => n < 2 ^ 31 - 1 ∧ (n < 0 → ¬ alloc) ∧ SafeSizes (alloc ∨ 0 < n) ns

/-- **What the rounds of `echo_loop` do** with the rest `u` of the stream: they send its frames if
its sizes are safe, and leave the storage if not. -/
def Echoes (u : List UInt8) : Prop :=
  ∀ (fuel : Nat) {msg : Str} {buf : Buffer} {sock : Socket},
    msg.Valid → buf.Ok → unread buf sock = u → u.length < fuel →
      (SafeSizes (msg.cap ≠ 0) (echoFormat.sizes u) → ∃ w, echoRounds fuel msg buf sock = .ok w ∧
        (Send.failed ∉ sock.sends → w.sent = sock.sent ++ (echoFormat.frames u).flatten)) ∧
      (¬ SafeSizes (msg.cap ≠ 0) (echoFormat.sizes u) → Send.failed ∉ sock.sends →
        ∃ e, echoRounds fuel msg buf sock = .error e)

section

variable {fuel : Nat} {msg : Str} {buf : Buffer} {sock sock' : Socket} {u : List UInt8}

/-- The last round. -/
theorem echoRounds_last (hround : echoRound msg buf sock = .ok (none, sock'))
    (hsent : sock'.sent = sock.sent) : ∃ w, echoRounds (fuel + 1) msg buf sock = .ok w ∧
      (Send.failed ∉ sock.sends → w.sent = sock.sent ++ []) := by
  refine ⟨sock', ?_, fun _ => by rw [hsent, List.append_nil]⟩
  rw [echoRounds, hround, ok_bind]

theorem echoRounds_error (hround : ∃ e, echoRound msg buf sock = .error e) :
    ∃ e, echoRounds (fuel + 1) msg buf sock = .error e := by
  obtain ⟨e, he⟩ := hround
  refine ⟨e, ?_⟩
  rw [echoRounds, he, error_bind]

/-- **A stream with no whole frame**: the loop ends in this round. -/
theorem echoes_of_not_whole (hu : ¬ echoFormat.Whole u) : Echoes u := by
  intro fuel msg buf sock hmsg hbuf hunread hfuel
  obtain ⟨fuel, rfl⟩ : ∃ k, fuel = k + 1 := ⟨fuel - 1, by omega⟩
  rw [Framing.sizes_of_not_whole hu, Framing.frames_of_not_whole hu, List.flatten_nil]
  by_cases hlong : echoFormat.header ≤ u.length
  · -- a header, but no message
    rw [if_pos hlong]
    obtain ⟨buf', sock', hbuf', hsends, hsent, hrest, hheader⟩ :=
      echoRound_header msg sock hbuf (by rwa [hunread])
    rw [hunread] at hrest hheader
    constructor
    · rintro ⟨hint, hneg, -⟩
      rcases Int.lt_or_le (echoFormat.announced u) 0 with hsign | hsign
      · have hok : echoMessage (u.take 4) msg buf' sock' = .ok (none, sock') :=
          echoMessage_neg_zero hsign hmsg (not_not.mp (hneg hsign))
        exact echoRounds_last (hheader.trans hok) hsent
      · obtain ⟨n, hn⟩ := Int.eq_ofNat_of_zero_le hsign
        have hlen : (unread buf' sock').length < n := by
          rw [hrest, List.length_drop]
          by_contra hge
          refine hu ⟨hlong, hsign, ?_⟩
          change 4 ≤ u.length at hlong
          change 4 + (echoFormat.announced u).toNat ≤ u.length
          omega
        obtain ⟨sock'', hok, hsent'⟩ := echoMessage_stop hn hmsg hbuf' (by omega) hlen
        exact echoRounds_last (hheader.trans hok) (hsent'.trans hsent)
    · intro hnot _
      refine echoRounds_error ?_
      rw [hheader]
      refine echoMessage_unsafe hmsg ?_
      change echoFormat.announced u < 0 ∧ msg.cap ≠ 0 ∨ 2 ^ 31 - 1 ≤ echoFormat.announced u
      by_contra hcase
      rw [not_or, not_and] at hcase
      exact hnot ⟨by omega, hcase.1, trivial⟩
  · -- no header
    rw [if_neg hlong]
    obtain ⟨sock', hok, hsent⟩ := echoRound_short msg sock hbuf (by
      rw [hunread]
      exact Nat.not_le.mp hlong)
    exact ⟨fun _ => echoRounds_last hok hsent, fun hnot => absurd trivial hnot⟩

/-- **A frame in front of the stream**: it is sent, and the loop goes on. -/
theorem Echoes.frame {f : List UInt8} (hf : echoFormat.IsFrame f) (hu : Echoes u) :
    Echoes (f ++ u) := by
  intro fuel msg buf sock hmsg hbuf hunread hfuel
  obtain ⟨fuel, rfl⟩ : ∃ k, fuel = k + 1 := ⟨fuel - 1, by omega⟩
  rw [Framing.sizes_append hf, Framing.frames_append hf, List.flatten_cons]
  have hlong : 4 ≤ f.length := hf.1
  obtain ⟨n, hn⟩ := Int.eq_ofNat_of_zero_le hf.2.1
  have hlen : f.length = 4 + (echoFormat.announced f).toNat := hf.2.2
  have hbody : (f.drop 4).length = n := by
    rw [List.length_drop]
    omega
  obtain ⟨buf', sock', hbuf', hsends, hsent, hrest, hheader⟩ :=
    echoRound_header msg sock hbuf (by rw [hunread, List.length_append]; omega)
  rw [hunread, List.take_append_of_le_length hlong] at hheader
  rw [hunread, List.drop_append_of_le_length hlong] at hrest
  by_cases hint : n + 1 < 2 ^ 31
  · have hin : n ≤ (unread buf' sock').length := by
      rw [hrest, List.length_append]
      omega
    obtain ⟨r, hok, hnext, hsends'⟩ := echoMessage_frame (List.length_take_of_le hlong)
      (show headerInt (f.take 4) = n from hn) hmsg hbuf' hint hin
    rw [hrest, List.take_left' hbody, List.take_append_drop, hsends, hsent] at hsends'
    rw [hrest, List.drop_left' hbody] at hnext
    rw [echoRounds, hheader, hok, ok_bind]
    rcases hnext with hnone | ⟨msg', buf', hsome, hmsg', hcap, hbuf', hunread'⟩
    · -- only after a failed `send`
      have hbad : Send.failed ∈ sock.sends := by
        by_contra hsends
        exact (hsends' hsends).1 hnone
      rw [hnone]
      exact ⟨fun _ => ⟨_, rfl, fun h => absurd hbad h⟩, fun _ h => absurd hbad h⟩
    · rw [hsome]
      obtain ⟨hsafe, hunsafe⟩ := hu fuel hmsg' hbuf' hunread' (by
        rw [List.length_append] at hfuel
        omega)
      rw [hcap] at hsafe hunsafe
      rw [hn]
      refine ⟨fun h => ?_, fun hnot hgood => hunsafe (fun h => hnot ⟨by omega, by omega, ?_⟩)
        (hsends' hgood).2.2⟩
      · obtain ⟨w, hw, hwsent⟩ := hsafe (by simpa using h.2.2)
        refine ⟨w, hw, fun hgood => ?_⟩
        obtain ⟨-, hall, hlater⟩ := hsends' hgood
        rw [hwsent hlater, hall, List.append_assoc]
      · simpa using h
  · refine ⟨fun h => absurd h.1 (by omega), fun _ _ => echoRounds_error ?_⟩
    rw [hheader]
    refine echoMessage_unsafe hmsg (.inr ?_)
    change 2 ^ 31 - 1 ≤ echoFormat.announced f
    omega

/-- **The rounds**, along any stream. -/
theorem echoes (u : List UInt8) : Echoes u :=
  echoFormat.induct (fun _ => echoes_of_not_whole) (fun _ _ => Echoes.frame) u

end

/-! ## 6. The server -/

/-- Every stream can arrive, byte by byte for instance. -/
def byteByByte (s : List UInt8) : List Recv := s.map fun b => .piece ⟨[b], Nat.one_pos, by simp⟩

theorem received_byteByByte (s : List UInt8) : received (byteByByte s) = s := by
  induction s with
  | nil => rfl
  | cons b s ih =>
    unfold byteByByte at ih ⊢
    rw [List.map_cons, received, ih]
    rfl

/-- The safe sequences of sizes, without the state of the message. -/
theorem safeSizes_iff {alloc : Prop} {ns : List Int} : SafeSizes alloc ns ↔
    (∀ n ∈ ns, n < 2 ^ 31 - 1) ∧ (alloc → ∀ n ∈ ns, 0 ≤ n) ∧
      ns.Pairwise fun m n => 0 < m → 0 ≤ n := by
  induction ns generalizing alloc with
  | nil => simp [SafeSizes]
  | cons n ns ih =>
    rw [SafeSizes, ih, List.pairwise_cons, List.forall_mem_cons, List.forall_mem_cons]
    constructor
    · rintro ⟨hint, hneg, hints, hall, hpair⟩
      refine ⟨⟨hint, hints⟩, fun h => ⟨?_, hall (.inl h)⟩, fun m hm hpos => hall (.inr hpos) m hm,
        hpair⟩
      by_contra hlt
      exact hneg (Int.not_le.mp hlt) h
    · rintro ⟨⟨hint, hints⟩, halloc, hall, hpair⟩
      refine ⟨hint, fun hneg h => ?_, hints, fun h m hm => ?_, hpair⟩
      · exact absurd (halloc h).1 (Int.not_le.mpr hneg)
      · rcases h with h | hpos
        · exact (halloc h).2 m hm
        · exact hall m hm hpos

/-- `echo_loop` as a whole: the buffer is empty, and the message has no storage. -/
theorem echoLoop_spec (fuel : Nat) (sock : Socket) (hfuel : (received sock.recvs).length < fuel) :
    (SafeSizes False (echoFormat.sizes (received sock.recvs)) →
      ∃ w, echoLoop fuel sock = .ok w ∧ (Send.failed ∉ sock.sends →
        w.sent = sock.sent ++ (echoFormat.frames (received sock.recvs)).flatten)) ∧
    (¬ SafeSizes False (echoFormat.sizes (received sock.recvs)) → Send.failed ∉ sock.sends →
      ∃ e, echoLoop fuel sock = .error e) := by
  have hcap : stringInit.cap ≠ 0 ↔ False := by simp [stringInit]
  let buf : Buffer := { buffer := List.replicate 256 0, start := (0 : Nat), stop := (0 : Nat) }
  have hbuf : buf.Ok := .mk List.length_replicate (Nat.le_refl 0) (Nat.zero_le 256)
  have hunread : unread buf sock = received sock.recvs := rfl
  have hall := echoes (received sock.recvs) fuel .zero hbuf hunread hfuel
  rw [hcap] at hall
  exact hall

/-- **A stream of small sizes** is echoed frame by frame. -/
theorem echoLoop_frames (fuel : Nat) (sock : Socket)
    (hsizes : ∀ n ∈ echoFormat.sizes (received sock.recvs), 0 ≤ n ∧ n < 2 ^ 30)
    (hsends : Send.failed ∉ sock.sends) (hsent : sock.sent = [])
    (hfuel : (received sock.recvs).length < fuel) :
    ∃ w, echoLoop fuel sock = .ok w ∧
      w.sent = (echoFormat.frames (received sock.recvs)).flatten := by
  have hsafe : SafeSizes False (echoFormat.sizes (received sock.recvs)) := by
    refine safeSizes_iff.mpr ⟨fun n hn => ?_, fun h => h.elim, ?_⟩
    · have := (hsizes n hn).2
      omega
    · exact List.pairwise_of_forall_mem_list fun _ _ n hn _ => (hsizes n hn).1
  obtain ⟨w, hok, hw⟩ := (echoLoop_spec fuel sock hfuel).1 hsafe
  refine ⟨w, hok, ?_⟩
  rw [hw hsends, hsent, List.nil_append]

/-- **The echo does not depend on how the stream is cut.**  If all sizes of the stream are below
`2 ^ 30`, then `echo_loop` sends its frames, whatever `recv` and `send` make of them; and so any two
runs on the same stream send the same bytes. -/
theorem echo_framing {s : List UInt8} (hsizes : ∀ n ∈ echoFormat.sizes s, 0 ≤ n ∧ n < 2 ^ 30) :
    (∀ (fuel : Nat) (recvs : List Recv) (ending : Ending) (sends : List Send),
      received recvs = s → Send.failed ∉ sends → s.length < fuel →
      ∃ w, echoLoop fuel { recvs := recvs, ending := ending, sends := sends, sent := [] } = .ok w ∧
        w.sent = (echoFormat.frames s).flatten) ∧
    ∀ (fuel fuel' : Nat) (sock sock' w w' : Socket),
      received sock.recvs = s → Send.failed ∉ sock.sends → sock.sent = [] → s.length < fuel →
      received sock'.recvs = s → Send.failed ∉ sock'.sends → sock'.sent = [] → s.length < fuel' →
      echoLoop fuel sock = .ok w → echoLoop fuel' sock' = .ok w' → w.sent = w'.sent := by
  refine ⟨fun fuel recvs ending sends hrecvs hsends hfuel => ?_, ?_⟩
  · subst hrecvs
    exact echoLoop_frames fuel ⟨recvs, ending, sends, []⟩ hsizes hsends rfl hfuel
  · rintro fuel fuel' sock sock' w w' rfl hsends hsent hfuel hs' hsends' hsent' hfuel' hw hw'
    obtain ⟨v, hv, hvsent⟩ := echoLoop_frames fuel sock hsizes hsends hsent hfuel
    obtain ⟨v', hv', hvsent'⟩ := echoLoop_frames fuel' sock'
      (by rwa [hs']) hsends' hsent' (by rwa [hs'])
    rw [hw] at hv
    rw [hw'] at hv'
    cases hv
    cases hv'
    rw [hvsent, hvsent', hs']

/-- Two frames and the start of a third, in two pieces that cut the first frame. -/
def cutFrame : List Recv :=
  [.piece ⟨[0, 0, 0], by decide, by decide⟩, .again,
    .piece ⟨[1, 65, 0, 0, 0, 0, 0, 0], by decide, by decide⟩]

theorem echo_framing_cut : ∃ w,
    echoLoop 12 ⟨cutFrame, .closed, [.accepts 1, .again, .accepts 0], []⟩ = .ok w ∧
      w.sent = (echoFormat.frames [0, 0, 0, 1, 65, 0, 0, 0, 0, 0, 0]).flatten :=
  (echo_framing (s := [0, 0, 0, 1, 65, 0, 0, 0, 0, 0, 0]) (by decide)).1 12 cutFrame .closed _ rfl
    (by decide) (by decide)

/-- **When `string_resize` is safe.**  For a single call, exactly for the sizes from 0 to the
length, and for all below the largest `int` if the string is empty.  For all runs of
`echo_loop` on a stream, exactly if no size of it is the largest `int`, and none is negative
behind a positive one. -/
theorem string_resize_safe_iff {s : Str} (hs : s.Valid) (newSize : Int) (padChar : UInt8)
    (stream : List UInt8) :
    (Resizes s newSize padChar ↔
      0 ≤ newSize ∧ (newSize ≤ s.len ∨ s.len = 0 ∧ newSize < 2 ^ 31 - 1)) ∧
    ((∀ (fuel : Nat) (sock : Socket), received sock.recvs = stream → stream.length < fuel →
        ∃ w, echoLoop fuel sock = .ok w) ↔
      (∀ n ∈ echoFormat.sizes stream, n < 2 ^ 31 - 1) ∧
        (echoFormat.sizes stream).Pairwise fun m n => 0 < m → 0 ≤ n) := by
  refine ⟨resizes_iff hs newSize, ?_⟩
  have hsafe : SafeSizes False (echoFormat.sizes stream) ↔ _ := safeSizes_iff
  constructor
  · intro hall
    by_contra hnot
    have hunsafe : ¬ SafeSizes False (echoFormat.sizes stream) := fun h =>
      hnot ⟨(hsafe.mp h).1, (hsafe.mp h).2.2⟩
    have hbytes := received_byteByByte stream
    obtain ⟨w, hok⟩ := hall (stream.length + 1) ⟨byteByByte stream, .closed, [], []⟩ hbytes
      (Nat.lt_succ_self _)
    obtain ⟨e, he⟩ := (echoLoop_spec (stream.length + 1) ⟨byteByByte stream, .closed, [], []⟩
      (by rw [hbytes]; exact Nat.lt_succ_self _)).2 (by rwa [hbytes]) List.not_mem_nil
    rw [hok] at he
    cases he
  · rintro ⟨hint, hpair⟩ fuel sock rfl hfuel
    obtain ⟨w, hok, -⟩ :=
      (echoLoop_spec fuel sock hfuel).1 (hsafe.mpr ⟨hint, fun h => h.elim, hpair⟩)
    exact ⟨w, hok⟩

/-- A text of three bytes is cut to two; a stream with two frames is read to its end. -/
theorem string_resize_safe_iff_frames :
    Resizes { str := [65, 66, 67, 0], len := (3 : Nat), cap := (4 : Nat) } 2 '!'.toUInt8 ∧
    ¬ Resizes { str := [65, 66, 67, 0], len := (3 : Nat), cap := (4 : Nat) } 5 '!'.toUInt8 ∧
    ∀ (fuel : Nat) (sock : Socket),
      received sock.recvs = [0, 0, 0, 2, 65, 66, 0, 0, 0, 1, 67] → 11 < fuel →
        ∃ w, echoLoop fuel sock = .ok w := by
  have hvalid : Str.Valid { str := [65, 66, 67, 0], len := (3 : Nat), cap := (4 : Nat) } :=
    .block (by decide) (by decide) rfl rfl
  obtain ⟨hcut, hstream⟩ := string_resize_safe_iff hvalid 2 '!'.toUInt8
    [0, 0, 0, 2, 65, 66, 0, 0, 0, 1, 67]
  obtain ⟨hgrow, -⟩ := string_resize_safe_iff hvalid 5 '!'.toUInt8 []
  refine ⟨hcut.mpr (by decide), fun h => ?_, hstream.mpr ⟨by decide, by decide⟩⟩
  have hsize := hgrow.mp h
  revert hsize
  decide

set_option maxRecDepth 4000 in
/-- Behind a message of one byte, a size of -1: the 0 is written in front of the message. -/
theorem resize_after_message :
    (∃ s : Str, s.Valid ∧ s.len = 0 ∧ stringResize s (-1) '!'.toUInt8 = .error .outOfBounds) ∧
      echoLoop 10 ⟨byteByByte [0, 0, 0, 1, 65, 255, 255, 255, 255], .closed, [], []⟩ =
        .error .outOfBounds :=
  ⟨⟨{ str := [0, 0], len := (0 : Nat), cap := (2 : Nat) },
    .block (by decide) (by decide) rfl rfl, rfl, rfl⟩, rfl⟩

end CAsync
