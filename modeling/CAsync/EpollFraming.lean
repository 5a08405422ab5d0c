/-
# What the epoll server sends

A client holds the first bytes of a message in `size` and `msg` (`Client.Keeps`), and the bytes of
its buffer that no message has yet (`buffered`).  Each loop of `client_on_update` moves bytes from
the buffer to the message (`readWhile_spec`), so that a call in the mode `Reading` with `EPOLLIN`
takes a message from the input as soon as it is there, and one message only (`readFrame_spec`).

That is where the server falls behind: a piece can hold several messages, each takes such a call,
and `EPOLLIN` is reported for what is still to be received only.  All frames are answered exactly
if, from the call that receives the last piece on, there are as many such calls as frames end in
this piece (`epoll_echoes_iff`).
-/
import CAsync.Epoll
import CAsync.EchoFraming

namespace CAsync

open Bytes Faulting

/-! ## 1. The loops -/

/-- The bytes in the buffer. -/
def Client.buffered (c : Client) : List UInt8 :=
  slice c.readBuffer c.readPtr.toNat (c.readEnd - c.readPtr).toNat

/-- The cursors of the buffer: in bounds, and 0 only together. -/
structure Client.Cursors (c : Client) : Prop where
  length : c.readBuffer.length = 256
  ptr : 0 ≤ c.readPtr
  le : c.readPtr ≤ c.readEnd
  stop : c.readEnd ≤ 256

theorem Client.Cursors.length_buffered {c : Client} (h : c.Cursors) :
    (c.buffered.length : Int) = c.readEnd - c.readPtr := by
  have := h.length
  have := h.ptr
  have := h.le
  have := h.stop
  rw [buffered, length_slice (by omega)]
  omega

/-- The buffer is empty. -/
theorem Client.Cursors.buffered_nil {c : Client} (h : c.Cursors) (hend : c.readEnd ≤ c.readPtr) :
    c.buffered = [] := by
  have := h.length_buffered
  refine List.length_eq_zero_iff.mp ?_
  omega

/-- The next byte of the buffer. -/
theorem Client.Cursors.next {c : Client} (h : c.Cursors) (hlt : c.readPtr < c.readEnd) :
    ∃ b later, c.buffered = b :: later ∧ getByte c.readBuffer c.readPtr = .ok b ∧
      ({ c with readPtr := c.readPtr + 1 } : Client).buffered = later ∧
      ({ c with readPtr := c.readPtr + 1 } : Client).Cursors := by
  obtain ⟨hlen, hptr, hle, hstop⟩ := h
  have hin : c.readPtr.toNat < c.readBuffer.length := by omega
  refine ⟨c.readBuffer[c.readPtr.toNat], slice c.readBuffer (c.readPtr.toNat + 1)
    ((c.readEnd - c.readPtr).toNat - 1), ?_, ?_, ?_, hlen, ?_, ?_, hstop⟩
  · obtain ⟨k, hk⟩ : ∃ k, (c.readEnd - c.readPtr).toNat = k + 1 :=
      ⟨(c.readEnd - c.readPtr).toNat - 1, by omega⟩
    rw [buffered, slice, slice, hk, List.drop_eq_getElem_cons hin, List.take_succ_cons,
      Nat.add_sub_cancel]
  · rw [getByte, if_pos hptr]
    exact load_eq (List.getElem?_eq_getElem hin)
  · rw [buffered]
    congr 1
    · simp only
      omega
    · simp only
      omega
  · simp only
    omega
  · simp only
    omega

/-- **What a loop does** that needs `need` more bytes of the message `q`: it takes them from the
buffer, or empties it. -/
structure Takes (P : Client → List UInt8 → Prop) (need : Nat) (c : Client) (q : List UInt8)
    (r : Client × Bool) : Prop where
  mode : r.1.mode = c.mode
  cursors : r.1.Cursors
  done : need ≤ c.buffered.length → r.2 = true ∧ P r.1 (q ++ c.buffered.take need) ∧
    r.1.buffered = c.buffered.drop need ∧ r.1.readPtr = c.readPtr + need
  short : c.buffered.length < need → r.2 = false ∧ P r.1 (q ++ c.buffered) ∧ r.1.readPtr = 0 ∧
    r.1.readEnd = 0

/-- **The loops**: `P c q` says that `c` has the bytes `q` of the message, of which `limit` are
needed. -/
theorem readWhile_spec {more : Client → Bool} {put : Client → UInt8 → Except Fault Client}
    {P : Client → List UInt8 → Prop} (limit : Nat)
    (hmore : ∀ c q, P c q → (more c = true ↔ q.length < limit))
    (hput : ∀ c q b, P c q → q.length < limit → ∃ c', put c b = .ok c' ∧ P c' (q ++ [b]) ∧
      c'.mode = c.mode ∧ c'.readBuffer = c.readBuffer ∧ c'.readPtr = c.readPtr ∧
      c'.readEnd = c.readEnd)
    (hP : ∀ c q i j, P c q → P { c with readPtr := i, readEnd := j } q) :
    ∀ (fuel : Nat) (c : Client) (q : List UInt8), P c q → c.Cursors → limit - q.length ≤ fuel →
      ∃ r, readWhile more put fuel c = .ok r ∧ Takes P (limit - q.length) c q r
  | fuel, c, q, hc, hcur, hfuel => by
    by_cases hq : limit ≤ q.length
    · -- the message has all it needs
      have hno : more c = false := by
        rw [← Bool.not_eq_true]
        exact fun h => absurd ((hmore c q hc).mp h) (by omega)
      have hneed : limit - q.length = 0 := by omega
      refine ⟨(c, true), ?_, rfl, hcur, fun _ => ⟨rfl, ?_, ?_, ?_⟩, fun hlt => by omega⟩
      · cases fuel with
        | zero => simp [readWhile, hno]
        | succ fuel => simp [readWhile, hno]
      · rw [hneed, List.take_zero, List.append_nil]
        exact hc
      · rw [hneed, List.drop_zero]
      · rw [hneed]
        simp
    have hyes : more c = true := (hmore c q hc).mpr (by omega)
    cases fuel with
    | zero => omega
    | succ fuel =>
      rw [readWhile, if_pos hyes]
      by_cases hempty : c.readPtr ≥ c.readEnd
      · have hnil := hcur.buffered_nil hempty
        rw [if_pos hempty]
        refine ⟨_, rfl, rfl, ⟨hcur.length, Int.le_refl 0, Int.le_refl 0, by simp⟩, fun hle => ?_,
          fun _ => ⟨rfl, ?_, rfl, rfl⟩⟩
        · rw [hnil, List.length_nil] at hle
          omega
        · rw [hnil, List.append_nil]
          exact hP c q 0 0 hc
      · obtain ⟨b, later, hbuf, hget, hlater, hcur'⟩ := hcur.next (Int.not_le.mp hempty)
        obtain ⟨c', hok, hc', hmode, hbuffer, hptr, hend⟩ :=
          hput { c with readPtr := c.readPtr + 1 } q b (hP c q _ _ hc) (by omega)
        have hcur'' : c'.Cursors :=
          ⟨by rw [hbuffer]; exact hcur'.length, by rw [hptr]; exact hcur'.ptr,
            by rw [hptr, hend]; exact hcur'.le, by rw [hend]; exact hcur'.stop⟩
        have hbuf' : c'.buffered = later := by
          rw [← hlater, Client.buffered, Client.buffered, hbuffer, hptr, hend]
        have hlen : (q ++ [b]).length = q.length + 1 := by simp
        obtain ⟨r, hrun, hr⟩ := readWhile_spec limit hmore hput hP fuel c' (q ++ [b]) hc' hcur''
          (by omega)
        obtain ⟨need, hneed⟩ : ∃ k, limit - q.length = k + 1 := ⟨limit - q.length - 1, by omega⟩
        have hneed' : limit - (q ++ [b]).length = need := by omega
        rw [hneed'] at hr
        refine ⟨r, ?_, hr.mode.trans hmode, hr.cursors, fun hle => ?_, fun hlt => ?_⟩
        · rw [if_neg hempty, hget, ok_bind, hok, ok_bind]
          exact hrun
        · rw [hneed, hbuf, List.length_cons] at hle
          obtain ⟨hdone, hP', hrest, hptr'⟩ := hr.done (by rw [hbuf']; omega)
          rw [hbuf', List.append_assoc] at hP'
          refine ⟨hdone, ?_, ?_, ?_⟩
          · rw [hneed, hbuf, List.take_succ_cons]
            exact hP'
          · rw [hneed, hbuf, List.drop_succ_cons, hrest, hbuf']
          · rw [hptr', hptr, hneed]
            simp only
            omega
        · rw [hneed, hbuf, List.length_cons] at hlt
          obtain ⟨hdone, hP', hzero⟩ := hr.short (by rw [hbuf']; omega)
          rw [hbuf', List.append_assoc] at hP'
          refine ⟨hdone, ?_, hzero⟩
          rw [hbuf]
          exact hP'

/-! ## 2. A message -/

/-- **The client has the bytes `q` of a message**, and its cursors are behind
the first `w` of them. -/
structure Client.At (c : Client) (q : List UInt8) (w : Nat) : Prop where
  length_size : c.size.length = 4
  header : c.size.take q.length = q.take 4
  msg : c.msg.Grown (q.drop 4)
  sizePtr : c.sizePtr = (min 4 w : Nat)
  msgPtr : c.msgPtr = (w - 4 : Nat)

namespace Client.At

variable {c : Client} {q : List UInt8} {w : Nat}

/-- A message with a header. -/
theorem size_eq (h : c.At q w) (hq : 4 ≤ q.length) : c.size = q.take 4 := by
  have hheader := h.header
  rwa [List.take_of_length_le (by rw [h.length_size]; exact hq)] at hheader

/-- A byte of the header. -/
theorem putSize (h : c.At q q.length) (hq : q.length < 4) (b : UInt8) :
    ∃ c', CAsync.putSize c b = .ok c' ∧ c'.At (q ++ [b]) (q ++ [b]).length ∧ c'.mode = c.mode ∧
      c'.readBuffer = c.readBuffer ∧ c'.readPtr = c.readPtr ∧ c'.readEnd = c.readEnd := by
  obtain ⟨hlen, hheader, hmsg, hsize, hmsgPtr⟩ := h
  have hset : setByte c.size c.sizePtr b = .ok (c.size.set q.length b) := by
    rw [hsize, Nat.min_eq_right (by omega)]
    exact setByte_nat (by omega) b
  refine ⟨{ c with size := c.size.set q.length b, sizePtr := c.sizePtr + 1 }, ?_,
    ⟨?_, ?_, ?_, ?_, ?_⟩, rfl, rfl, rfl, rfl⟩
  · unfold CAsync.putSize
    rw [hset, ok_bind]
  · simpa using hlen
  · have hshort : q.take 4 = q := List.take_of_length_le (by omega)
    have hshort' : (q ++ [b]).take 4 = q ++ [b] := List.take_of_length_le (by simp; omega)
    simp only [List.length_append, List.length_singleton]
    rw [List.take_add_one, List.take_set_of_le (Nat.le_refl _), hheader, hshort, hshort',
      List.getElem?_set_self (by omega)]
    rfl
  · rw [List.drop_of_length_le (by simp; omega)]
    rwa [List.drop_of_length_le (by omega)] at hmsg
  · simp only [List.length_append, List.length_singleton]
    omega
  · simp only [List.length_append, List.length_singleton]
    omega

/-- A byte of the body. -/
theorem putMsg (h : c.At q q.length) (hq : 4 ≤ q.length) (hint : q.length < 4 + 2 ^ 30 - 1)
    (b : UInt8) :
    ∃ c', CAsync.putMsg c b = .ok c' ∧ c'.At (q ++ [b]) (q ++ [b]).length ∧ c'.mode = c.mode ∧
      c'.readBuffer = c.readBuffer ∧ c'.readPtr = c.readPtr ∧ c'.readEnd = c.readEnd := by
  have hsize := h.size_eq hq
  obtain ⟨hlen, hheader, hmsg, hsizePtr, hmsgPtr⟩ := h
  obtain ⟨msg, happend, hmsg'⟩ := hmsg.append b (by rw [List.length_drop]; omega)
  refine ⟨{ c with msg := msg, msgPtr := c.msgPtr + 1 }, ?_, ⟨hlen, ?_, ?_, ?_, ?_⟩, rfl, rfl, rfl,
    rfl⟩
  · unfold CAsync.putMsg
    rw [happend, ok_bind]
  · rw [List.take_append_of_le_length hq, List.take_of_length_le (by simp; omega), hsize]
  · rwa [List.drop_append_of_le_length hq]
  · simp only [List.length_append, List.length_singleton]
    omega
  · simp only [List.length_append, List.length_singleton]
    omega

end Client.At

/-- **The loop over the header.** -/
theorem readSize_spec {c : Client} {q : List UInt8} (h : c.At q q.length) (hcur : c.Cursors) :
    ∃ r, readSize c = .ok r ∧ Takes (fun c q => c.At q q.length) (4 - q.length) c q r := by
  unfold readSize
  refine readWhile_spec 4 (fun c q hc => ?_) (fun c q b hc hq => hc.putSize hq b)
    (fun c q i j hc => ⟨hc.length_size, hc.header, hc.msg, hc.sizePtr, hc.msgPtr⟩) _ c q h hcur ?_
  · rw [decide_eq_true_iff, hc.sizePtr]
    omega
  · rw [h.sizePtr]
    omega

/-- **The loop over the body.** -/
theorem readMsg_spec {c : Client} {q : List UInt8} {n : Nat} (h : c.At q q.length)
    (hq : 4 ≤ q.length) (hint : n < 2 ^ 30) (hcur : c.Cursors) :
    ∃ r, readMsg n c = .ok r ∧
      Takes (fun c q => c.At q q.length ∧ 4 ≤ q.length) (4 + n - q.length) c q r := by
  unfold readMsg
  refine readWhile_spec (4 + n) (fun c q hc => ?_) (fun c q b hc hq => ?_)
    (fun c q i j hc => ⟨⟨hc.1.length_size, hc.1.header, hc.1.msg, hc.1.sizePtr, hc.1.msgPtr⟩, hc.2⟩)
    _ c q ⟨h, hq⟩ hcur ?_
  · have hlong := hc.2
    rw [decide_eq_true_iff, hc.1.msgPtr]
    omega
  · obtain ⟨c', hok, hc', hsame⟩ := hc.1.putMsg hc.2 (by omega) b
    exact ⟨c', hok, ⟨hc', by simp; omega⟩, hsame⟩
  · rw [h.msgPtr]
    omega

/-- What a call has made of the message `q` and the input `u`: a frame to write, if it is there, or
more of the message, and an empty buffer. -/
structure Parsed (s : Connection) (q u : List UInt8) (r : Connection × Option Int) : Prop where
  sent : r.1.sent = s.sent
  incoming : r.1.incoming = s.incoming
  cursors : r.1.client.Cursors
  whole : echoFormat.Whole (q ++ u) → r.2 = none ∧ r.1.client.mode = .writing ∧
    0 < r.1.client.readPtr ∧ ∃ f, echoFormat.IsFrame f ∧ q ++ u = f ++ r.1.client.buffered ∧
      r.1.client.At f 0
  short : ¬ echoFormat.Whole (q ++ u) → r.2 = some 0 ∧ r.1.client.mode = .reading ∧
    r.1.client.readPtr = 0 ∧ r.1.client.readEnd = 0 ∧ r.1.client.At (q ++ u) (q ++ u).length

/-- **A call takes one frame from the buffer**, if it is there. -/
theorem readFrame_spec {s : Connection} {q : List UInt8} (hmode : s.client.mode = .reading)
    (h : s.client.At q q.length) (hcur : s.client.Cursors) (hq : ¬ echoFormat.Whole q)
    (hsize : 4 ≤ (q ++ s.client.buffered).length →
      0 ≤ echoFormat.announced (q ++ s.client.buffered) ∧
        echoFormat.announced (q ++ s.client.buffered) < 2 ^ 30) :
    ∃ r, readFrame s = .ok r ∧ Parsed s q s.client.buffered r := by
  have hptr := hcur.ptr
  obtain ⟨r₁, hok₁, hr₁⟩ := readSize_spec h hcur
  rw [List.length_append] at hsize
  rcases Nat.lt_or_ge s.client.buffered.length (4 - q.length) with hshort | hlong
  · -- the header is not there
    obtain ⟨hdone, hat, hptr₁, hend₁⟩ := hr₁.short hshort
    refine ⟨({ s with client := r₁.1 }, some 0), ?_, rfl, rfl, hr₁.cursors, fun hw => ?_,
      fun _ => ⟨rfl, hr₁.mode.trans hmode, hptr₁, hend₁, hat⟩⟩
    · unfold readFrame
      rw [hok₁, ok_bind, if_pos (by simp [hdone])]
    · have hle : 4 ≤ (q ++ s.client.buffered).length := hw.1
      rw [List.length_append] at hle
      omega
  · obtain ⟨hdone₁, hat₁, hbuf₁, hptr₁⟩ := hr₁.done hlong
    obtain ⟨q₁, hq₁⟩ : ∃ q₁, q₁ = q ++ s.client.buffered.take (4 - q.length) := ⟨_, rfl⟩
    have hlen₁ : q₁.length = max 4 q.length := by
      rw [hq₁, List.length_append, List.length_take_of_le hlong]
      omega
    have hall : q₁ ++ r₁.1.buffered = q ++ s.client.buffered := by
      rw [hq₁, hbuf₁, List.append_assoc, List.take_append_drop]
    rw [← hq₁] at hat₁
    obtain ⟨hnonneg, hint⟩ := hsize (by omega)
    have hann : headerInt r₁.1.size = echoFormat.announced (q ++ s.client.buffered) := by
      rw [hat₁.size_eq (by omega), ← hall, Framing.announced_append (by change 4 ≤ _; omega)]
      rfl
    obtain ⟨n, hn⟩ := Int.eq_ofNat_of_zero_le hnonneg
    rw [hn] at hann hint
    have hframe : echoFormat.frameLen (q ++ s.client.buffered) = 4 + n := by
      unfold Framing.frameLen
      rw [hn]
      rfl
    -- the message needs more than `q`
    have hq' : q.length < 4 + n := by
      by_contra hge
      have hannq : echoFormat.announced q = n := by
        rw [← hn, Framing.announced_append (by change 4 ≤ _; omega)]
      refine hq ⟨by change 4 ≤ q.length; omega, by rw [hannq]; omega, ?_⟩
      change 4 + (echoFormat.announced q).toNat ≤ q.length
      rw [hannq]
      omega
    obtain ⟨r₂, hok₂, hr₂⟩ := readMsg_spec (n := n) hat₁ (by omega) (by omega) hr₁.cursors
    have hread : readFrame s = (if ¬ r₂.2 then .ok ({ s with client := r₂.1 }, some 0)
        else .ok ({ s with client := { r₂.1 with msgPtr := 0, sizePtr := 0, mode := .writing } },
          none)) := by
      unfold readFrame
      rw [hok₁, ok_bind, if_neg (by simp [hdone₁]), hann, hok₂, ok_bind]
    have hlenall : q₁.length + r₁.1.buffered.length = q.length + s.client.buffered.length := by
      rw [← List.length_append, hall, List.length_append]
    rcases Nat.lt_or_ge r₁.1.buffered.length (4 + n - q₁.length) with hshort | hlong'
    · -- the body is not there
      obtain ⟨hdone₂, ⟨hat₂, -⟩, hptr₂, hend₂⟩ := hr₂.short hshort
      rw [hall] at hat₂
      refine ⟨_, hread.trans (if_pos (by simp [hdone₂])), rfl, rfl, hr₂.cursors, fun hw => ?_,
        fun _ => ⟨rfl, (hr₂.mode.trans hr₁.mode).trans hmode, hptr₂, hend₂, hat₂⟩⟩
      have hle := hw.2.2
      rw [hframe, List.length_append] at hle
      omega
    · obtain ⟨hdone₂, ⟨hat₂, -⟩, hbuf₂, hptr₂⟩ := hr₂.done hlong'
      obtain ⟨f, hf⟩ : ∃ f, f = q₁ ++ r₁.1.buffered.take (4 + n - q₁.length) := ⟨_, rfl⟩
      have hlenf : f.length = 4 + n := by
        rw [hf, List.length_append, List.length_take_of_le hlong']
        omega
      have hsplit : q ++ s.client.buffered = f ++ r₂.1.buffered := by
        rw [← hall, hf, hbuf₂, List.append_assoc, List.take_append_drop]
      have hannf : echoFormat.announced f = n := by
        rw [← hn, hsplit, Framing.announced_append (by change 4 ≤ _; omega)]
      have hframe' : echoFormat.IsFrame f := by
        refine ⟨by change 4 ≤ f.length; omega, by rw [hannf]; omega, ?_⟩
        change f.length = 4 + (echoFormat.announced f).toNat
        rw [hannf, hlenf, Int.toNat_natCast]
      rw [← hf] at hat₂
      have hcur₂ := hr₂.cursors
      refine ⟨_, hread.trans (if_neg (by simp [hdone₂])), rfl, rfl,
        ⟨hcur₂.length, hcur₂.ptr, hcur₂.le, hcur₂.stop⟩, fun _ => ⟨rfl, rfl, ?_, f, hframe', hsplit,
          ⟨hat₂.length_size, hat₂.header, hat₂.msg, rfl, rfl⟩⟩, fun hnot => ?_⟩
      · change 0 < r₂.1.readPtr
        rw [hptr₂, hptr₁]
        omega
      · exact absurd (by rw [hsplit]; exact hframe'.whole_append _) hnot

/-! ## 3. A call -/

/-- The bytes of some pieces. -/
def pieceBytes (pieces : List Piece) : List UInt8 := (pieces.map Piece.bytes).flatten

/-- What is still to be received after a call that reads. -/
def Connection.left (s : Connection) : List Piece :=
  if s.client.readPtr = 0 then s.incoming.tail else s.incoming

/-- **The invariant of a connection**: the frames `parsed` have been read, and `todo` are
still to be read as a whole.  In the mode `Reading` everything read has been sent, and the
client has a part `q` of the next frame; in the mode `Writing` it has sent `w` bytes of the
last frame `f` it has read. -/
inductive Tracks (s : Connection) : List (List UInt8) → List (List UInt8) → Prop
  | reading {parsed todo : List (List UInt8)} {q : List UInt8} (mode : s.client.mode = .reading)
    (cursors : s.client.Cursors) (zero : s.client.readPtr = 0 → s.client.readEnd = 0)
    (part : s.client.At q q.length) (unfinished : ¬ echoFormat.Whole q)
    (sent : s.sent = parsed.flatten)
    (input : q ++ (s.client.buffered ++ pieceBytes s.incoming) = todo.flatten) :
    Tracks s parsed todo
  | writing {parsed todo : List (List UInt8)} {f : List UInt8} {w : Nat}
    (mode : s.client.mode = .writing) (cursors : s.client.Cursors) (ptr : 0 < s.client.readPtr)
    (frame : s.client.At f w) (long : 4 ≤ f.length) (le : w ≤ f.length)
    (sent : s.sent ++ f.drop w = parsed.flatten)
    (input : s.client.buffered ++ pieceBytes s.incoming = todo.flatten) : Tracks s parsed todo

/-- The bytes that a client has to send, and one call to go back to reading. -/
def Connection.backlog (s : Connection) : Nat :=
  match s.client.mode with
  | .reading => 0
  | .writing => (4 - s.client.sizePtr).toNat + (s.client.msg.len - s.client.msgPtr).toNat + 1

/-- `send` fails, or takes a byte at least. -/
theorem sendOnce_cases {bytes : List UInt8} (hbytes : 0 < bytes.length) (send : Send) :
    sendOnce bytes send = -1 ∧ (∀ more, send ≠ .accepts more) ∨
      ∃ k : Nat, 0 < k ∧ k ≤ bytes.length ∧ sendOnce bytes send = k := by
  cases send with
  | again => exact .inl ⟨rfl, fun _ h => by cases h⟩
  | failed => exact .inl ⟨rfl, fun _ h => by cases h⟩
  | accepts more =>
    exact .inr ⟨min (more + 1) bytes.length, by omega, Nat.min_le_right _ _, rfl⟩

section

variable {s : Connection} {parsed todo : List (List UInt8)}

/-- What a client in the mode `Writing` has to send. -/
theorem backlog_writing {f : List UInt8} {w : Nat} (mode : s.client.mode = .writing)
    (frame : s.client.At f w) (long : 4 ≤ f.length) (le : w ≤ f.length) :
    s.backlog = f.length - w + 1 := by
  have hsizePtr := frame.sizePtr
  have hmsgPtr := frame.msgPtr
  have hlen := frame.msg.len
  rw [List.length_drop] at hlen
  unfold Connection.backlog
  rw [mode]
  simp only
  omega

/-- **`send` has taken `k` bytes** of the frame. -/
theorem Tracks.advance {f : List UInt8} {w k : Nat} {i j : Int} (mode : s.client.mode = .writing)
    (cursors : s.client.Cursors) (ptr : 0 < s.client.readPtr) (frame : s.client.At f w)
    (long : 4 ≤ f.length) (sent : s.sent ++ f.drop w = parsed.flatten)
    (input : s.client.buffered ++ pieceBytes s.incoming = todo.flatten) (hk : 0 < k)
    (hle : w + k ≤ f.length) (hi : i = (min 4 (w + k) : Nat)) (hj : j = (w + k - 4 : Nat)) :
    let t : Connection := { s with
      client := { s.client with sizePtr := i, msgPtr := j }, sent := s.sent ++ (f.drop w).take k }
    Tracks t parsed todo ∧ t.backlog < s.backlog := by
  intro t
  have frame' : t.client.At f (w + k) := ⟨frame.length_size, frame.header, frame.msg, hi, hj⟩
  refine ⟨.writing (w := w + k) mode ⟨cursors.length, cursors.ptr, cursors.le, cursors.stop⟩ ptr
    frame' long hle ?_ input, ?_⟩
  · change (s.sent ++ (f.drop w).take k) ++ f.drop (w + k) = _
    rw [List.append_assoc, ← List.drop_drop, List.take_append_drop, sent]
  · rw [backlog_writing mode frame long (by omega), backlog_writing (s := t) mode frame' long hle]
    omega

/-- **A call that writes** sends some bytes of its frame, or goes back to reading.  A `send` that
fails changes nothing. -/
theorem onOutput_spec (h : Tracks s parsed todo) (hmode : s.client.mode = .writing) (send : Send) :
    ∃ t status, onOutput s send = .ok (t, status) ∧ Tracks t parsed todo ∧
      t.incoming = s.incoming ∧
      (∀ more, send = .accepts more → status = 0 ∧ t.backlog < s.backlog) := by
  cases h with
  | reading mode => rw [mode] at hmode; cases hmode
  | @writing f w mode cursors ptr frame long le sent input =>
    have hsizePtr := frame.sizePtr
    have hmsgPtr := frame.msgPtr
    have hlen := frame.msg.len
    have hroom := frame.msg.le_length
    rw [List.length_drop] at hlen hroom
    have hsame : Tracks s parsed todo := .writing mode cursors ptr frame long le sent input
    rcases Nat.lt_or_ge w 4 with hheader | hbody
    · -- the header
      have hbuf : memcpyFrom s.client.size s.client.sizePtr (4 - s.client.sizePtr).toNat =
          .ok ((f.drop w).take (4 - w)) := by
        have hw : s.client.sizePtr = w := by omega
        have hroom' : w + (4 - w) ≤ (f.take 4).length := by
          rw [List.length_take_of_le long]
          omega
        rw [frame.size_eq long, hw, show (4 - (w : Int)).toNat = 4 - w by omega,
          memcpyFrom_nat hroom', slice, List.drop_take, List.take_take, Nat.min_self]
      have hpos : 0 < ((f.drop w).take (4 - w)).length := by
        rw [List.length_take, List.length_drop]
        omega
      unfold onOutput
      simp only
      rw [if_pos (by omega), hbuf, ok_bind]
      rcases sendOnce_cases hpos send with ⟨hfail, hnot⟩ | ⟨k, hk, hle, hsend⟩
      · rw [if_pos hfail]
        exact ⟨s, -1, rfl, hsame, rfl, fun more he => absurd he (hnot more)⟩
      · rw [List.length_take, List.length_drop] at hle
        rw [if_neg (by omega), hsend, Int.toNat_natCast, List.take_take, Nat.min_eq_left (by omega)]
        obtain ⟨ht, hback⟩ := Tracks.advance (i := s.client.sizePtr + k) (j := s.client.msgPtr) mode
          cursors ptr frame long sent input hk (by omega) (by omega) (by omega)
        exact ⟨_, 0, rfl, ht, rfl, fun _ _ => ⟨rfl, hback⟩⟩
    · rcases Nat.lt_or_ge w f.length with hmore | hall
      · -- the body
        have hbuf : memcpyFrom s.client.msg.str s.client.msgPtr
            (s.client.msg.len - s.client.msgPtr).toNat = .ok (f.drop w) := by
          have hw : s.client.msgPtr = (w - 4 : Nat) := hmsgPtr
          have hn : (s.client.msg.len - s.client.msgPtr).toNat = f.length - w := by omega
          have htext := frame.msg.text_eq
          rw [List.length_drop] at htext
          rw [hn, hw, memcpyFrom_nat (by omega), slice,
            show f.length - w = (f.length - 4) - (w - 4) by omega, ← List.drop_take, htext,
            List.drop_drop, show 4 + (w - 4) = w by omega]
        have hpos : 0 < (f.drop w).length := by
          rw [List.length_drop]
          omega
        unfold onOutput
        simp only
        rw [if_neg (by omega), if_pos (by omega), hbuf, ok_bind]
        rcases sendOnce_cases hpos send with ⟨hfail, hnot⟩ | ⟨k, hk, hle, hsend⟩
        · rw [if_pos hfail]
          exact ⟨s, -1, rfl, hsame, rfl, fun more he => absurd he (hnot more)⟩
        · rw [List.length_drop] at hle
          rw [if_neg (by omega), hsend, Int.toNat_natCast]
          obtain ⟨ht, hback⟩ :=
            Tracks.advance (i := s.client.sizePtr) (j := s.client.msgPtr + k) mode
            cursors ptr frame long sent input hk (by omega) (by omega) (by omega)
          exact ⟨_, 0, rfl, ht, rfl, fun _ _ => ⟨rfl, hback⟩⟩
      · -- the frame is sent
        obtain ⟨msg, hclear, hmsg⟩ := frame.msg.clear
        unfold onOutput
        simp only
        rw [if_neg (by omega), if_neg (by omega), hclear, ok_bind]
        refine ⟨_, 0, rfl, .reading (q := []) rfl ⟨cursors.length, cursors.ptr, cursors.le,
          cursors.stop⟩ (fun hzero => ?_) ⟨frame.length_size, rfl, hmsg, rfl, rfl⟩ (fun hw => ?_) ?_
          input, rfl, fun _ _ => ⟨rfl, ?_⟩⟩
        · simp only at hzero
          omega
        · exact absurd hw.1 (by decide)
        · simp only
          rw [← sent, List.drop_of_length_le hall, List.append_nil]
        · rw [backlog_writing mode frame long le]
          unfold Connection.backlog
          simp only
          omega

/-- **The buffered input**: one frame more is read, or none is there as a whole. -/
theorem readFrame_tracks {q : List UInt8}
    (htodo : ∀ f ∈ todo, echoFormat.IsFrame f ∧ echoFormat.announced f < 2 ^ 30)
    (hmode : s.client.mode = .reading) (hcur : s.client.Cursors) (hpart : s.client.At q q.length)
    (hq : ¬ echoFormat.Whole q) (hsent : s.sent = parsed.flatten)
    (hinput : q ++ (s.client.buffered ++ pieceBytes s.incoming) = todo.flatten) :
    ∃ r, readFrame s = .ok r ∧ r.1.incoming = s.incoming ∧
      ((r.2 = some 0 ∧ Tracks r.1 parsed todo ∧ r.1.client.mode = .reading ∧
          (s.incoming = [] → todo = [])) ∨
        r.2 = none ∧ ∃ f later, todo = f :: later ∧ Tracks r.1 (parsed ++ [f]) later ∧
          r.1.client.mode = .writing) := by
  rw [← List.append_assoc] at hinput
  -- what is to be read begins with a frame, unless it is empty
  have hfirst : 0 < (q ++ s.client.buffered).length → ∃ g later, todo = g :: later ∧
      echoFormat.IsFrame g ∧ echoFormat.announced g < 2 ^ 30 ∧
      (q ++ s.client.buffered) ++ pieceBytes s.incoming = g ++ later.flatten := by
    intro hpos
    cases todo with
    | nil =>
      have hnil := congrArg List.length hinput
      rw [List.length_append, List.flatten_nil, List.length_nil] at hnil
      omega
    | cons g later =>
      obtain ⟨hg, hint⟩ := htodo g List.mem_cons_self
      exact ⟨g, later, rfl, hg, hint, hinput⟩
  obtain ⟨r, hok, hr⟩ := readFrame_spec hmode hpart hcur hq fun hlong => by
    obtain ⟨g, later, -, hg, hint, heq⟩ := hfirst (by omega)
    have hann : echoFormat.announced (q ++ s.client.buffered) = echoFormat.announced g := by
      rw [← Framing.announced_append hlong (pieceBytes s.incoming), heq, hg.announced_append]
    rw [hann]
    exact ⟨hg.2.1, hint⟩
  refine ⟨r, hok, hr.incoming, ?_⟩
  by_cases hw : echoFormat.Whole (q ++ s.client.buffered)
  · obtain ⟨hnone, hmode', hptr, f, hf, hsplit, hat⟩ := hr.whole hw
    have hpos : 0 < (q ++ s.client.buffered).length := Nat.lt_of_lt_of_le (by decide) hw.1
    obtain ⟨g, later, htodo', hg, -, heq⟩ := hfirst hpos
    rw [hsplit, List.append_assoc] at heq
    obtain ⟨rfl, hlater⟩ := hf.append_inj hg heq
    refine .inr ⟨hnone, f, later, htodo', .writing hmode' hr.cursors hptr hat hf.1 (Nat.zero_le _)
      ?_ (by rw [hr.incoming, hlater]), hmode'⟩
    rw [hr.sent, hsent, List.drop_zero, List.flatten_append, List.flatten_singleton]
  · obtain ⟨hstatus, hmode', hptr, hend, hat⟩ := hr.short hw
    refine .inl
      ⟨hstatus, .reading hmode' hr.cursors (fun _ => hend) hat hw (hr.sent.trans hsent) ?_,
      hmode', fun hnil => ?_⟩
    · rw [hr.cursors.buffered_nil (by omega), List.nil_append, hr.incoming]
      exact hinput
    · -- all input is there, and is no whole frame
      cases todo with
      | nil => rfl
      | cons g later =>
        refine absurd ?_ hw
        rw [hnil] at hinput
        have hall : q ++ s.client.buffered = g ++ later.flatten := by
          rw [← List.flatten_cons, ← hinput]
          exact (List.append_nil _).symm
        rw [hall]
        exact (htodo g List.mem_cons_self).1.whole_append _

/-- **A call that reads** takes one frame from the input, if it is there. -/
theorem onInput_spec
    (htodo : ∀ f ∈ todo, echoFormat.IsFrame f ∧ echoFormat.announced f < 2 ^ 30)
    (h : Tracks s parsed todo) (hmode : s.client.mode = .reading) :
    ∃ r, onInput s = .ok r ∧
      (r = (s, some (-1)) ∧ s.incoming = [] ∨ r.1.incoming = s.left ∧
        ((r.2 = some 0 ∧ Tracks r.1 parsed todo ∧ r.1.client.mode = .reading ∧
            (s.left = [] → todo = [])) ∨
          r.2 = none ∧ ∃ f later, todo = f :: later ∧ Tracks r.1 (parsed ++ [f]) later ∧
            r.1.client.mode = .writing)) := by
  cases h with
  | writing mode => rw [mode] at hmode; cases hmode
  | @reading q mode cursors zero part unfinished sent input =>
    unfold onInput refill Connection.left
    by_cases hptr : s.client.readPtr = 0
    · have hnil := cursors.buffered_nil (by have := zero hptr; omega)
      rw [if_pos hptr, if_pos hptr]
      cases hin : s.incoming with
      | nil => exact ⟨_, rfl, .inl ⟨rfl, rfl⟩⟩
      | cons p incoming =>
        have hlen := cursors.length
        have hle := p.le
        have hcopy : memcpyTo s.client.readBuffer 0 p.bytes =
            .ok (overwrite s.client.readBuffer 0 p.bytes) := memcpyTo_nat (n := 0) (by omega)
        simp only
        rw [hcopy, ok_bind, ok_bind]
        simp only
        have hbuf : ({ s.client with
            readBuffer := overwrite s.client.readBuffer 0 p.bytes
            readEnd := p.bytes.length } : Client).buffered = p.bytes := by
          unfold Client.buffered
          simp only
          rw [hptr, Int.sub_zero, Int.toNat_natCast, Int.toNat_zero, slice_zero, overwrite,
            List.take_zero, List.nil_append, List.take_left]
        obtain ⟨r, hok, hincoming, hcase⟩ := readFrame_tracks (q := q) (s :=
            { s with
              client := { s.client with
                readBuffer := overwrite s.client.readBuffer 0 p.bytes
                readEnd := p.bytes.length }
              incoming := incoming }) htodo mode
          ⟨by rw [length_overwrite (by omega)]; exact hlen, by simp only; omega,
            by simp only; omega, by simp only; omega⟩
          ⟨part.length_size, part.header, part.msg, part.sizePtr, part.msgPtr⟩ unfinished sent (by
            rw [hbuf, ← input, hnil, hin]
            rfl)
        exact ⟨r, hok, .inr ⟨hincoming, hcase⟩⟩
    · rw [if_neg hptr, if_neg hptr]
      obtain ⟨r, hok, hincoming, hcase⟩ :=
        readFrame_tracks htodo mode cursors part unfinished sent input
      exact ⟨r, hok, .inr ⟨hincoming, hcase⟩⟩

variable {u : Update}

/-- **A call that does not read.** -/
theorem update_quiet (h : Tracks s parsed todo)
    (hquiet : ¬ (s.client.mode = .reading ∧ u.input = true)) :
    ∃ t status, clientOnUpdate s u = .ok (t, status) ∧ Tracks t parsed todo ∧
      t.incoming = s.incoming ∧
      (u.output = true → ∀ more, u.send = .accepts more → status = 0 ∧
        (t.backlog < s.backlog ∨ t.backlog = 0)) := by
  unfold clientOnUpdate
  rw [if_neg hquiet, ok_bind]
  simp only
  by_cases hwrite : s.client.mode = .writing ∧ u.output = true
  · rw [if_pos hwrite]
    obtain ⟨t, status, hok, ht, hin, hback⟩ := onOutput_spec h hwrite.1 u.send
    refine ⟨t, status, hok, ht, hin, fun _ more hmore => ?_⟩
    obtain ⟨hstatus, hlt⟩ := hback more hmore
    exact ⟨hstatus, .inl hlt⟩
  · rw [if_neg hwrite]
    refine ⟨s, 0, rfl, h, rfl, fun hout _ _ => ⟨rfl, .inr ?_⟩⟩
    unfold Connection.backlog
    cases hmode : s.client.mode with
    | reading => rfl
    | writing => exact absurd ⟨hmode, hout⟩ hwrite

/-- **A call that reads**, and then writes what it has read if `EPOLLOUT` is reported as well. -/
theorem update_input
    (htodo : ∀ f ∈ todo, echoFormat.IsFrame f ∧ echoFormat.announced f < 2 ^ 30)
    (h : Tracks s parsed todo) (hread : s.client.mode = .reading ∧ u.input = true) :
    ∃ t status, clientOnUpdate s u = .ok (t, status) ∧
      (t = s ∧ status = -1 ∧ s.incoming = [] ∨ t.incoming = s.left ∧
        ((Tracks t parsed todo ∧ (s.left = [] → todo = [])) ∨
          ∃ f later, todo = f :: later ∧ Tracks t (parsed ++ [f]) later)) := by
  obtain ⟨r, hok, hcase⟩ := onInput_spec htodo h hread.1
  unfold clientOnUpdate
  rw [if_pos hread, hok, ok_bind]
  rcases hcase with ⟨rfl, hnil⟩ |
    ⟨hin, ⟨hstatus, ht, hmode, hleft⟩ | ⟨hnone, f, later, htodo', ht, hmode⟩⟩
  · exact ⟨s, -1, rfl, .inl ⟨rfl, rfl, hnil⟩⟩
  · simp only
    rw [hstatus]
    exact ⟨r.1, 0, rfl, .inr ⟨hin, .inl ⟨ht, hleft⟩⟩⟩
  · simp only
    rw [hnone]
    simp only
    by_cases hout : u.output = true
    · rw [if_pos ⟨hmode, hout⟩]
      obtain ⟨t, status, hok', ht', hin', -⟩ := onOutput_spec ht hmode u.send
      exact ⟨t, status, hok', .inr ⟨hin'.trans hin, .inr ⟨f, later, htodo', ht'⟩⟩⟩
    · rw [if_neg fun hboth => hout hboth.2]
      exact ⟨r.1, 0, rfl, .inr ⟨hin, .inr ⟨f, later, htodo', ht⟩⟩⟩

end

/-! ## 4. Sequences of calls -/

/-- The call reads, and leaves nothing to be received. -/
def readsLast (s : Connection) (u : Update) : Bool :=
  u.input && decide (s.client.mode = .reading) && s.left.isEmpty

/-- A call, with what it returns and whether it reads and leaves nothing to be received. -/
def observe (s : Connection) (u : Update) : Except Fault (Connection × (Int × Bool)) := do
  let r ← clientOnUpdate s u
  .ok (r.1, (r.2, readsLast s u))

theorem observe_eq {s t : Connection} {u : Update} {status : Int}
    (hok : clientOnUpdate s u = .ok (t, status)) :
    observe s u = .ok (t, (status, readsLast s u)) := by
  unfold observe
  rw [hok, ok_bind]

/-- A call that reads takes the first piece, or nothing if there are bytes in the buffer. -/
theorem Connection.incoming_eq (s : Connection) : ∃ taken, s.incoming = taken ++ s.left := by
  unfold left
  split
  · exact ⟨s.incoming.take 1, by rw [← List.drop_one, List.take_append_drop]⟩
  · exact ⟨[], rfl⟩

/-- A call that leaves nothing to be received has taken the last piece. -/
theorem Connection.last_of_left {s : Connection} (hleft : s.left = []) (hin : s.incoming ≠ []) :
    s.client.readPtr = 0 ∧ ∃ p, s.incoming = [p] := by
  unfold left at hleft
  by_cases hptr : s.client.readPtr = 0
  · rw [if_pos hptr] at hleft
    cases hsi : s.incoming with
    | nil => exact absurd hsi hin
    | cons p rest =>
      rw [hsi] at hleft
      obtain rfl : rest = [] := hleft
      exact ⟨hptr, p, rfl⟩
  · rw [if_neg hptr] at hleft
    exact absurd hleft hin

/-- A new connection. -/
def accepted (pieces : List Piece) : Connection :=
  { client := serverNewClient, incoming := pieces, sent := [] }

/-- The number of frames that have ended before the last piece. -/
def endedBefore (pieces : List Piece) : Nat :=
  (echoFormat.frames (pieceBytes pieces.dropLast)).length

section

variable {fs : List (List UInt8)} {pieces : List Piece} {s : Connection} {os : List (Int × Bool)}

/-- **The invariant of a sequence of calls.**  As long as there is something to be received, no call
has read the last piece; afterwards each such call has read a frame, if there was one. -/
def Progress (fs : List (List UInt8)) (pieces : List Piece) (os : List (Int × Bool))
    (s : Connection) : Prop :=
  ∃ parsed todo consumed, fs = parsed ++ todo ∧ Tracks s parsed todo ∧
    pieces = consumed ++ s.incoming ∧ (s.incoming ≠ [] → os.countP (fun o => o.2) = 0) ∧
    (s.incoming = [] → (∀ o ∈ os, o.1 = 0) →
      parsed.length = min (endedBefore pieces + os.countP fun o => o.2) fs.length)

/-- Before the last piece is received, the frames that have ended are read. -/
theorem length_parsed {parsed todo : List (List UInt8)} {consumed : List Piece} {p : Piece}
    (hfs : ∀ f ∈ fs, echoFormat.IsFrame f) (hbytes : pieceBytes pieces = fs.flatten)
    (hsplit : fs = parsed ++ todo) (h : Tracks s parsed todo) (hmode : s.client.mode = .reading)
    (hptr : s.client.readPtr = 0) (hin : s.incoming = [p]) (hpieces : pieces = consumed ++ [p]) :
    parsed.length = endedBefore pieces := by
  cases h with
  | writing mode => rw [mode] at hmode; cases hmode
  | @reading q mode cursors zero part unfinished sent input =>
    have hnil := cursors.buffered_nil (by have := zero hptr; omega)
    have hlast : pieceBytes [p] = p.bytes := List.append_nil _
    have hsum : pieceBytes pieces = pieceBytes consumed ++ p.bytes := by
      rw [hpieces, pieceBytes, List.map_append, List.flatten_append]
      exact congrArg _ hlast
    rw [hnil, List.nil_append, hin, hlast] at input
    rw [hsplit, List.flatten_append, ← input, hsum, ← List.append_assoc] at hbytes
    have hconsumed := List.append_cancel_right hbytes
    unfold endedBefore
    rw [hpieces, List.dropLast_concat, hconsumed, Framing.frames_flatten_append
      (fun f hf => hfs f (by rw [hsplit]; exact List.mem_append_left _ hf)),
      Framing.frames_of_not_whole unfinished, List.append_nil]

/-- **One call more.** -/
theorem Progress.step (hfs : ∀ f ∈ fs, echoFormat.IsFrame f ∧ echoFormat.announced f < 2 ^ 30)
    (hbytes : pieceBytes pieces = fs.flatten) (h : Progress fs pieces os s) (u : Update) :
    ∃ t o, observe s u = .ok (t, o) ∧ Progress fs pieces (os ++ [o]) t := by
  obtain ⟨parsed, todo, consumed, hsplit, htracks, hpieces, hbefore, hafter⟩ := h
  have htodo : ∀ f ∈ todo, echoFormat.IsFrame f ∧ echoFormat.announced f < 2 ^ 30 := fun f hf =>
    hfs f (by rw [hsplit]; exact List.mem_append_right _ hf)
  have hlen : fs.length = parsed.length + todo.length := by rw [hsplit, List.length_append]
  by_cases hread : s.client.mode = .reading ∧ u.input = true
  · obtain ⟨t, status, hok, hcase⟩ := update_input htodo htracks hread
    have hlast : readsLast s u = s.left.isEmpty := by simp [readsLast, hread.1, hread.2]
    refine ⟨t, (status, readsLast s u), observe_eq hok, ?_⟩
    rcases hcase with ⟨rfl, hstatus, hnil⟩ | ⟨hin, hcase⟩
    · -- nothing to receive
      refine ⟨parsed, todo, consumed, hsplit, htracks, hpieces, fun hne => absurd hnil hne,
        fun _ hzero => ?_⟩
      have hbad := hzero _ (List.mem_append_right _ List.mem_cons_self)
      rw [hstatus] at hbad
      cases hbad
    · obtain ⟨taken, htaken⟩ := s.incoming_eq
      have hpieces' : pieces = (consumed ++ taken) ++ t.incoming := by
        rw [hin, List.append_assoc, ← htaken, hpieces]
      have hcount : (os ++ [(status, readsLast s u)]).countP (fun o => o.2) =
          os.countP (fun o => o.2) + if s.left = [] then 1 else 0 := by
        rw [List.countP_append, hlast]
        cases s.left with
        | nil => rfl
        | cons p left => rfl
      -- what was read before, if this call leaves nothing to be received
      have hold : s.left = [] → (∀ o ∈ os, o.1 = 0) →
          parsed.length = min (endedBefore pieces + os.countP fun o => o.2) fs.length := by
        intro hnil hzero
        by_cases hnone : s.incoming = []
        · exact hafter hnone hzero
        · obtain ⟨hptr, p, hp⟩ := Connection.last_of_left hnil hnone
          have hj := length_parsed (fun f hf => (hfs f hf).1) hbytes hsplit htracks hread.1 hptr hp
            (by rw [hpieces, hp])
          rw [hbefore hnone]
          omega
      have hfull : t.incoming ≠ [] →
          (os ++ [(status, readsLast s u)]).countP (fun o => o.2) = 0 := by
        intro hne
        rw [hin] at hne
        rw [hcount, if_neg hne, hbefore fun hnil => hne ?_]
        rw [hnil] at htaken
        exact (List.append_eq_nil_iff.mp htaken.symm).2
      rcases hcase with ⟨ht, htodo'⟩ | ⟨f, later, htodo', ht⟩
      · refine ⟨parsed, todo, consumed ++ taken, hsplit, ht, hpieces', hfull, fun hnil hzero => ?_⟩
        rw [hin] at hnil
        have hpast := hold hnil fun o ho => hzero o (List.mem_append_left _ ho)
        rw [htodo' hnil, List.length_nil] at hlen
        rw [hcount, if_pos hnil]
        omega
      · refine ⟨parsed ++ [f], later, consumed ++ taken,
          by rw [hsplit, htodo', List.append_assoc]; rfl, ht, hpieces', hfull, fun hnil hzero => ?_⟩
        rw [hin] at hnil
        have hpast := hold hnil fun o ho => hzero o (List.mem_append_left _ ho)
        rw [htodo', List.length_cons] at hlen
        rw [hcount, if_pos hnil, List.length_append, List.length_singleton]
        omega
  · obtain ⟨t, status, hok, ht, hin, -⟩ := update_quiet htracks hread
    have hlast : readsLast s u = false := by
      rw [← Bool.not_eq_true]
      intro h
      simp only [readsLast, Bool.and_eq_true, decide_eq_true_iff] at h
      exact hread ⟨h.1.2, h.1.1⟩
    refine ⟨t, (status, readsLast s u), observe_eq hok, parsed, todo, consumed, hsplit, ht,
      by rw [hin]; exact hpieces, ?_, ?_⟩
    · rw [hlast, List.countP_append, hin]
      exact fun hne => hbefore hne
    · rw [hlast, List.countP_append, hin]
      exact fun hnil hzero => hafter hnil fun o ho => hzero o (List.mem_append_left _ ho)

/-- A new connection has read nothing. -/
theorem Progress.accepted (hfs : ∀ f ∈ fs, echoFormat.IsFrame f)
    (hbytes : pieceBytes pieces = fs.flatten) : Progress fs pieces [] (accepted pieces) := by
  refine ⟨[], fs, [], rfl, .reading (q := []) rfl ⟨List.length_replicate, Int.le_refl 0,
    Int.le_refl 0, Nat.cast_nonneg 256⟩ (fun _ => rfl) ⟨rfl, rfl, .init, rfl, rfl⟩
    (by decide) rfl ?_, rfl,
    fun _ => rfl, fun hnil _ => ?_⟩
  · rw [List.nil_append]
    exact hbytes
  · have hpieces : pieces = [] := hnil
    rw [hpieces] at hbytes
    rw [Framing.flatten_eq_nil hfs hbytes.symm]
    simp

/-- **Calls with `EPOLLOUT` only** read nothing, and send what there is to send. -/
theorem output_run {parsed todo : List (List UInt8)} : ∀ (out : List Update) {s : Connection},
    Tracks s parsed todo →
    (∀ u ∈ out, u.input = false ∧ u.output = true ∧ ∃ more, u.send = .accepts more) →
    ∃ t os, runOps observe s out = .ok (t, os) ∧ (∀ o ∈ os, o.1 = 0) ∧ Tracks t parsed todo ∧
      (s.backlog ≤ out.length → t.backlog = 0)
  | [], s, h, _ => ⟨s, [], rfl, fun _ ho => absurd ho List.not_mem_nil, h, Nat.le_zero.mp⟩
  | u :: out, s, h, hout => by
    obtain ⟨hinput, houtput, more, hmore⟩ := hout u List.mem_cons_self
    obtain ⟨t, status, hok, ht, -, hback⟩ := update_quiet (u := u) h (by simp [hinput])
    obtain ⟨hstatus, hlt⟩ := hback houtput more hmore
    obtain ⟨w, os, hrun, hzero, hw, hdone⟩ := output_run out ht fun u hu =>
      hout u (List.mem_cons_of_mem _ hu)
    refine ⟨w, _, runOps_cons_ok.mpr ⟨t, _, os, observe_eq hok, hrun, rfl⟩, fun o ho => ?_, hw,
      fun hle => ?_⟩
    · rcases List.mem_cons.mp ho with rfl | ho
      · exact hstatus
      · exact hzero o ho
    · refine hdone ?_
      rw [List.length_cons] at hle
      omega

/-- What has been sent is the beginning of what has been read, and all of it in
the mode `Reading`. -/
theorem Tracks.sent_le {parsed todo : List (List UInt8)} (h : Tracks s parsed todo) :
    s.sent.length ≤ parsed.flatten.length := by
  cases h with
  | reading _ _ _ _ _ sent _ => rw [sent]
  | writing _ _ _ _ _ _ sent _ =>
    rw [← sent, List.length_append]
    exact Nat.le_add_right _ _

/-- A client with nothing left to send is in the mode `Reading`. -/
theorem Tracks.mode_reading {parsed todo : List (List UInt8)} (h : Tracks s parsed todo)
    (hback : s.backlog = 0) : s.client.mode = .reading := by
  cases h with
  | reading mode _ _ _ _ _ _ => exact mode
  | writing mode _ _ _ _ _ _ _ =>
    unfold Connection.backlog at hback
    rw [mode] at hback
    cases hback

/-- Everything is read: in the mode `Reading` everything is sent, and the buffer is empty. -/
theorem Tracks.finished {parsed : List (List UInt8)} (h : Tracks s parsed [])
    (hback : s.backlog = 0) : s.sent = parsed.flatten ∧ s.client.buffered = [] := by
  have hmode := h.mode_reading hback
  cases h with
  | reading _ _ _ _ _ sent input =>
    rw [List.flatten_nil, List.append_eq_nil_iff, List.append_eq_nil_iff] at input
    exact ⟨sent, input.2.1⟩
  | writing mode _ _ _ _ _ _ _ =>
    rw [mode] at hmode
    cases hmode

/-- The calls of `out` report `EPOLLOUT` only, and every `send` takes a byte at least. -/
def OutputOnly (out : List Update) : Prop :=
  ∀ u ∈ out, u.input = false ∧ u.output = true ∧ ∃ more, u.send = .accepts more

/-- **The frames are answered**: after enough calls with `EPOLLOUT` only, all frames have been sent,
and the buffer holds no frame. -/
def AnswersAll (s : Connection) (fs : List (List UInt8)) : Prop :=
  ∃ enough : Nat, ∀ out : List Update, OutputOnly out → enough ≤ out.length →
    ∃ t os, runOps observe s out = .ok (t, os) ∧ (∀ o ∈ os, o.1 = 0) ∧ t.sent = fs.flatten ∧
      ¬ echoFormat.Whole t.client.buffered

/-- **The client waits for a frame again**: after enough calls with `EPOLLOUT` only, it is back in
the mode `Reading`. -/
def ReturnsToReading (s : Connection) : Prop :=
  ∃ enough : Nat, ∀ out : List Update, OutputOnly out → enough ≤ out.length →
    ∃ t os, runOps observe s out = .ok (t, os) ∧ t.client.mode = .reading

theorem Tracks.returns {parsed todo : List (List UInt8)} (h : Tracks s parsed todo) :
    ReturnsToReading s := by
  refine ⟨s.backlog, fun out hout hle => ?_⟩
  obtain ⟨t, os, hrun, -, ht, hback⟩ := output_run out h hout
  exact ⟨t, os, hrun, ht.mode_reading (hback hle)⟩

/-- The frames are answered exactly if all of them have been read. -/
theorem answersAll_iff_read {parsed todo : List (List UInt8)} (hfs : ∀ f ∈ fs, echoFormat.IsFrame f)
    (hsplit : fs = parsed ++ todo) (h : Tracks s parsed todo) : AnswersAll s fs ↔ todo = [] := by
  constructor
  · rintro ⟨enough, hall⟩
    let u : Update := { input := false, output := true, send := .accepts 0 }
    have hout : OutputOnly (List.replicate enough u) := fun v hv => by
      rw [List.eq_of_mem_replicate hv]
      exact ⟨rfl, rfl, 0, rfl⟩
    obtain ⟨t, os, hrun, -, hsent, -⟩ := hall _ hout (Nat.le_of_eq List.length_replicate.symm)
    obtain ⟨t', os', hrun', -, ht, -⟩ := output_run _ h hout
    rw [hrun] at hrun'
    cases hrun'
    have hle := ht.sent_le
    rw [hsent, hsplit, List.flatten_append, List.length_append] at hle
    refine Framing.flatten_eq_nil (fun f hf => hfs f ?_) (List.length_eq_zero_iff.mp (by omega))
    rw [hsplit]
    exact List.mem_append_right _ hf
  · rintro rfl
    refine ⟨s.backlog, fun out hout hle => ?_⟩
    obtain ⟨t, os, hrun, hzero, ht, hback⟩ := output_run out h hout
    obtain ⟨hsent, hnil⟩ := ht.finished (hback hle)
    refine ⟨t, os, hrun, hzero, by rw [hsent, hsplit, List.append_nil], ?_⟩
    rw [hnil]
    decide

/-- Any sequence of calls runs. -/
theorem run_progress (hfs : ∀ f ∈ fs, echoFormat.IsFrame f ∧ echoFormat.announced f < 2 ^ 30)
    (hbytes : pieceBytes pieces = fs.flatten) (calls : List Update) :
    ∃ t os, runOps observe (accepted pieces) calls = .ok (t, os) ∧ Progress fs pieces os t :=
  runOps_total (P := fun _ os s => Progress fs pieces os s)
    (Progress.accepted (fun f hf => (hfs f hf).1) hbytes)
    fun _ u _ _ _ _ hs => Progress.step hfs hbytes hs u

/-- Counting the calls that have read, when all pieces have been received. -/
theorem Progress.answersAll_iff (hfs : ∀ f ∈ fs, echoFormat.IsFrame f) (h : Progress fs pieces os s)
    (hzero : ∀ o ∈ os, o.1 = 0) (hnil : s.incoming = []) :
    AnswersAll s fs ↔ fs.length - endedBefore pieces ≤ os.countP fun o => o.2 := by
  obtain ⟨parsed, todo, consumed, hsplit, htracks, -, -, hafter⟩ := h
  have hlen := hafter hnil hzero
  have hsum : fs.length = parsed.length + todo.length := by rw [hsplit, List.length_append]
  rw [answersAll_iff_read hfs hsplit htracks, ← List.length_eq_zero_iff]
  omega

/-- **When the epoll server answers everything.**  Any sequence of calls runs, whatever the events,
and calls with `EPOLLOUT` only then bring the client back to `Reading`; and if it has received all
pieces with no error, then all frames are answered exactly if at least as many of its calls have
read with nothing left to be received as frames end in the last piece.  The loop of the other server
answers them always. -/
theorem epoll_echoes_iff (hfs : ∀ f ∈ fs, echoFormat.IsFrame f ∧ echoFormat.announced f < 2 ^ 30)
    (hbytes : pieceBytes pieces = fs.flatten) :
    (∀ calls : List Update, ∃ t os, runOps observe (accepted pieces) calls = .ok (t, os) ∧
      ReturnsToReading t ∧ ((∀ o ∈ os, o.1 = 0) → t.incoming = [] →
        (AnswersAll t fs ↔ fs.length - endedBefore pieces ≤ os.countP fun o => o.2))) ∧
    ∀ (fuel : Nat) (sock : Socket), received sock.recvs = fs.flatten → Send.failed ∉ sock.sends →
      sock.sent = [] → fs.flatten.length < fuel →
      ∃ w, echoLoop fuel sock = .ok w ∧ w.sent = fs.flatten := by
  have hframes : ∀ f ∈ fs, echoFormat.IsFrame f := fun f hf => (hfs f hf).1
  constructor
  · intro calls
    obtain ⟨t, os, hrun, hprogress⟩ := run_progress hfs hbytes calls
    have hiff := hprogress.answersAll_iff hframes
    obtain ⟨parsed, todo, consumed, -, htracks, -⟩ := hprogress
    exact ⟨t, os, hrun, htracks.returns, hiff⟩
  · intro fuel sock hstream hsends hsent hfuel
    have hsizes : ∀ n ∈ echoFormat.sizes (received sock.recvs), 0 ≤ n ∧ n < 2 ^ 30 := by
      rw [hstream, Framing.sizes_flatten hframes]
      intro n hn
      obtain ⟨f, hf, rfl⟩ := List.mem_map.mp hn
      exact ⟨(hframes f hf).2.1, (hfs f hf).2⟩
    obtain ⟨w, hok, hw⟩ := echoLoop_frames fuel sock hsizes hsends hsent (by rwa [hstream])
    rw [hstream, Framing.frames_flatten hframes] at hw
    exact ⟨w, hok, hw⟩

end

/-- Two frames without a body. -/
def emptyFrames : List (List UInt8) := [[0, 0, 0, 0], [0, 0, 0, 0]]

theorem isFrame_emptyFrames :
    ∀ f ∈ emptyFrames, echoFormat.IsFrame f ∧ echoFormat.announced f < 2 ^ 30 := by
  intro f hf
  obtain rfl : f = [0, 0, 0, 0] := by simpa [emptyFrames] using hf
  exact ⟨⟨by decide, by decide, by decide⟩, by decide⟩

/-- Both frames in one piece. -/
def onePiece : List Piece := [⟨[0, 0, 0, 0, 0, 0, 0, 0], by decide, by decide⟩]

/-- A call with `EPOLLIN` and `EPOLLOUT`. -/
def bothEvents : Update := { input := true, output := true, send := .accepts 3 }

set_option maxRecDepth 4000 in
theorem epoll_echoes_iff_two : ∃ t os,
    runOps observe (accepted onePiece) [bothEvents, bothEvents, bothEvents] = .ok (t, os) ∧
      (∀ o ∈ os, o.1 = 0) ∧ AnswersAll t emptyFrames ∧ ReturnsToReading t := by
  obtain ⟨t, os, hrun, hreturns, hiff⟩ := (epoll_echoes_iff isFrame_emptyFrames
    (show pieceBytes onePiece = emptyFrames.flatten from rfl)).1
    [bothEvents, bothEvents, bothEvents]
  obtain ⟨t', hrun', hnil⟩ : ∃ t', runOps observe (accepted onePiece)
      [bothEvents, bothEvents, bothEvents] = .ok (t', [(0, true), (0, false), (0, true)]) ∧
        t'.incoming = [] := ⟨_, rfl, rfl⟩
  have hzero : ∀ o ∈ [((0 : Int), true), (0, false), (0, true)], o.1 = 0 := by decide
  rw [hrun] at hrun'
  cases hrun'
  exact ⟨t, _, hrun, hzero, (hiff hzero hnil).mpr (by decide), hreturns⟩

set_option maxRecDepth 4000 in
/-- Both frames are received in one call, which answers the first.  The second is never answered. -/
theorem pipelined_unanswered : ∃ t os,
    runOps observe (accepted onePiece) [bothEvents] = .ok (t, os) ∧ (∀ o ∈ os, o.1 = 0) ∧
      t.incoming = [] ∧ ¬ AnswersAll t emptyFrames := by
  obtain ⟨t, os, hrun, hprogress⟩ := run_progress isFrame_emptyFrames
    (show pieceBytes onePiece = emptyFrames.flatten from rfl) [bothEvents]
  obtain ⟨t', hrun', hnil⟩ : ∃ t', runOps observe (accepted onePiece) [bothEvents] =
      .ok (t', [(0, true)]) ∧ t'.incoming = [] := ⟨_, rfl, rfl⟩
  have hzero : ∀ o ∈ [((0 : Int), true)], o.1 = 0 := by decide
  rw [hrun] at hrun'
  cases hrun'
  refine ⟨t, _, hrun, hzero, hnil, fun hall => ?_⟩
  have hcount := (hprogress.answersAll_iff (fun f hf => (isFrame_emptyFrames f hf).1) hzero
    hnil).mp hall
  exact absurd hcount (by decide)

end CAsync
