/-
# A task of `echo_loop` does what `echo_loop` does

`e.Follows c` says that the task `e`, on a socket that has answered `c`, is where `echo_loop` is
after the same answers: the whole of it, on these answers and any later ones, is the rest of it
from `e` on the later ones.  Every round keeps this (`EchoTask.Follows.step`), whatever other
tasks run in between; and what `echo_framing` is made of says what that means for the bytes that
are sent (`EchoServed`).
-/
import CAsync.EchoRound

namespace CAsync

open Bytes Faulting

/-! ## 1. What is sent is never taken back -/

section

variable {n : Int} {sock : Socket}

theorem readLoop_sent (fuel : Nat) (amt : Int) (out : List UInt8) (buf : Buffer) (sock : Socket)
    {r : ReadResult} (h : readLoop n fuel amt out buf sock = .ok r) : r.sock.sent = sock.sent := by
  induction fuel generalizing amt out buf sock with
  | zero =>
    rw [readLoop] at h
    split at h
    · cases h
    · cases h
      rfl
  | succ fuel ih =>
    rw [readLoop] at h
    by_cases hamt : amt < n
    · rw [if_pos hamt] at h
      by_cases hbuf : buf.start = buf.stop
      · rw [if_pos hbuf] at h
        dsimp only at h
        split at h
        · cases h
          rfl
        · split at h
          · cases h
            rfl
          · obtain ⟨buffer, -, h⟩ := bind_eq_ok.mp h
            obtain ⟨c, -, h⟩ := bind_eq_ok.mp h
            rw [ih _ _ _ _ h]
      · rw [if_neg hbuf] at h
        obtain ⟨c, -, h⟩ := bind_eq_ok.mp h
        exact ih _ _ _ _ h
    · rw [if_neg hamt] at h
      cases h
      rfl

theorem writeLoop_sent (msg : List UInt8) (fuel : Nat) (sentAmt : Int) (sock : Socket)
    {r : Int × Socket} (h : writeLoop n msg fuel sentAmt sock = .ok r) :
    sock.sent <+: r.2.sent := by
  induction fuel generalizing sentAmt sock with
  | zero =>
    rw [writeLoop] at h
    split at h
    · cases h
    · cases h
      exact List.prefix_refl _
  | succ fuel ih =>
    rw [writeLoop] at h
    by_cases hamt : sentAmt < n
    · rw [if_pos hamt] at h
      obtain ⟨bytes, -, h⟩ := bind_eq_ok.mp h
      dsimp only at h
      split at h
      · cases h
        exact List.prefix_refl _
      · exact (List.prefix_append _ _).trans (ih _ _ h)
    · rw [if_neg hamt] at h
      cases h
      exact List.prefix_refl _

theorem behindReply_sent {msgLen : Int} {msg : Str} {buf : Buffer} {body : Int × Socket}
    {r : Option (Str × Buffer) × Socket} (h : behindReply msgLen msg buf body = .ok r) :
    body.2.sent <+: r.2.sent := by
  unfold behindReply at h
  split at h
  · cases h
    exact List.prefix_refl _
  · cases h
    exact List.prefix_refl _

theorem behindHeader_sent {msgLen : Int} {msg : Str} {buf : Buffer} {header : Int × Socket}
    {r : Option (Str × Buffer) × Socket} (h : behindHeader msgLen msg buf header = .ok r) :
    header.2.sent <+: r.2.sent := by
  unfold behindHeader at h
  split at h
  · cases h
    exact List.prefix_refl _
  · obtain ⟨body, hbody, h⟩ := bind_eq_ok.mp h
    exact (writeLoop_sent _ _ _ _ hbody).trans (behindReply_sent h)

theorem echoReply_sent {size : List UInt8} {msgLen : Int} {msg : Str} {buf : Buffer}
    {r : Option (Str × Buffer) × Socket} (h : echoReply size msgLen msg buf sock = .ok r) :
    sock.sent <+: r.2.sent := by
  obtain ⟨header, hheader, h⟩ := bind_eq_ok.mp h
  exact (writeLoop_sent _ _ _ _ hheader).trans (behindHeader_sent h)

theorem behindMsg_sent {size : List UInt8} {msg : Str} {body : ReadResult}
    {r : Option (Str × Buffer) × Socket} (h : behindMsg size msg body = .ok r) :
    body.sock.sent <+: r.2.sent := by
  unfold behindMsg at h
  split at h
  · cases h
    exact List.prefix_refl _
  · exact echoReply_sent h

theorem behindSize_sent {msg : Str} {size : ReadResult} {r : Option (Str × Buffer) × Socket}
    (h : behindSize msg size = .ok r) : size.sock.sent <+: r.2.sent := by
  unfold behindSize at h
  split at h
  · cases h
    exact List.prefix_refl _
  · rw [echoMessage_eq] at h
    obtain ⟨msg₁, -, h⟩ := bind_eq_ok.mp h
    obtain ⟨msg₂, -, h⟩ := bind_eq_ok.mp h
    obtain ⟨body, hbody, h⟩ := bind_eq_ok.mp h
    rw [← readLoop_sent _ _ _ _ _ hbody]
    exact behindMsg_sent h

theorem echoRounds_sent (fuel : Nat) (msg : Str) (buf : Buffer) (sock : Socket) {w : Socket}
    (h : echoRounds fuel msg buf sock = .ok w) : sock.sent <+: w.sent := by
  induction fuel generalizing msg buf sock with
  | zero => cases h
  | succ fuel ih =>
    rw [echoRounds_eq] at h
    obtain ⟨r, hr, h⟩ := bind_eq_ok.mp h
    obtain ⟨size, hsize, hr⟩ := bind_eq_ok.mp hr
    have hround : sock.sent <+: r.2.sent := by
      rw [← readLoop_sent _ _ _ _ _ hsize]
      exact behindSize_sent hr
    unfold echoNext at h
    split at h
    · cases h
      exact hround
    · exact hround.trans (ih _ _ _ h)

theorem echoNext_sent {fuel : Nat} {r : Option (Str × Buffer) × Socket} {w : Socket}
    (h : echoNext fuel r = .ok w) : r.2.sent <+: w.sent := by
  unfold echoNext at h
  split at h
  · cases h
    exact List.prefix_refl _
  · exact echoRounds_sent _ _ _ _ h

/-- **The rest of the code only adds to what is sent.** -/
theorem EchoTask.resume_sent {e : EchoTask} {fuel : Nat} {w : Socket}
    (h : e.resume fuel sock = .ok w) : sock.sent <+: w.sent := by
  obtain ⟨msg, buf, point⟩ := e
  cases point with
  | start => exact echoRounds_sent _ _ _ _ h
  | readSize amt size =>
    obtain ⟨r, hr, h⟩ := bind_eq_ok.mp h
    obtain ⟨x, hx, hr⟩ := bind_eq_ok.mp hr
    rw [← readLoop_sent _ _ _ _ _ hx]
    exact (behindSize_sent hr).trans (echoNext_sent h)
  | readMsg size amt =>
    obtain ⟨r, hr, h⟩ := bind_eq_ok.mp h
    obtain ⟨x, hx, hr⟩ := bind_eq_ok.mp hr
    rw [← readLoop_sent _ _ _ _ _ hx]
    exact (behindMsg_sent hr).trans (echoNext_sent h)
  | writeSize size sentAmt =>
    obtain ⟨r, hr, h⟩ := bind_eq_ok.mp h
    obtain ⟨x, hx, hr⟩ := bind_eq_ok.mp hr
    exact ((writeLoop_sent _ _ _ _ hx).trans (behindHeader_sent hr)).trans (echoNext_sent h)
  | writeMsg size sentAmt =>
    obtain ⟨r, hr, h⟩ := bind_eq_ok.mp h
    obtain ⟨x, hx, hr⟩ := bind_eq_ok.mp hr
    exact ((writeLoop_sent _ _ _ _ hx).trans (behindReply_sent hr)).trans (echoNext_sent h)
  | fail =>
    cases h
    exact List.prefix_refl _

end

/-- **More fuel changes nothing.** -/
theorem echoRounds_add (fuel k : Nat) (msg : Str) (buf : Buffer) (sock : Socket) {w : Socket}
    (h : echoRounds fuel msg buf sock = .ok w) : echoRounds (fuel + k) msg buf sock = .ok w := by
  induction fuel generalizing msg buf sock with
  | zero => cases h
  | succ fuel ih =>
    rw [echoRounds_eq] at h
    obtain ⟨r, hr, h⟩ := bind_eq_ok.mp h
    rw [Nat.add_right_comm, echoRounds_eq, hr, ok_bind]
    unfold echoNext at h ⊢
    split at h
    · exact h
    · exact ih _ _ _ h

/-! ## 2. The task on its own -/

/-- The sizes of a stream are those that `echo_loop` can receive: none is the largest `int`, and
none is negative behind a positive one. -/
def Orderly (stream : List UInt8) : Prop :=
  (∀ n ∈ echoFormat.sizes stream, n < 2 ^ 31 - 1) ∧
    (echoFormat.sizes stream).Pairwise fun m n => 0 < m → 0 ≤ n

instance (stream : List UInt8) : Decidable (Orderly stream) :=
  inferInstanceAs (Decidable (_ ∧ _))

theorem safeSizes_of_orderly {stream : List UInt8} (h : Orderly stream) :
    SafeSizes False (echoFormat.sizes stream) :=
  safeSizes_iff.mpr ⟨h.1, fun h => h.elim, h.2⟩

/-- `echo_loop` on the answers so far and any later ones is the rest of it on the later ones. -/
def EchoTask.Follows (e : EchoTask) (c : Conn) : Prop :=
  ∃ k, ∀ fuel recvs ending sends, (c.ending = none ∨ c.ending = some ending ∧ recvs = []) →
    echoLoop (fuel + k) (c.script recvs ending sends) = e.resume fuel (c.later recvs ending sends)

theorem EchoTask.Follows.init : EchoTask.init.Follows .zero := ⟨1, fun _ _ _ _ _ => rfl⟩

/-- **A round keeps it.** -/
theorem EchoTask.Follows.step {e e' : EchoTask} {c c' : Conn} (h : e.Follows c)
    (hend : c.ending = none)
    (hround : EchoTask.Round e c e' c') : e'.Follows c' := by
  obtain ⟨k, hk⟩ := h
  obtain ⟨j, recvs, sends, hrecvs, hsends, hrest⟩ := hround.rest
  refine ⟨j + k, fun fuel recvs' ending sends' hnext => ?_⟩
  have hscript : c'.script recvs' ending sends' =
      c.script (recvs ++ recvs') ending (sends ++ sends') := by
    unfold Conn.script
    rw [hrecvs, hsends, List.append_assoc, List.append_assoc]
  rw [hscript, ← Nat.add_assoc, hk _ _ _ _ (.inl hend), hrest _ _ _ _ hnext]

/-- **What a client gets**: the beginning of the frames that it has sent. -/
structure EchoServed (e : EchoTask) (c : Conn) : Prop where
  counts : e.point = .start ∨ e.point.Counts
  ending : c.ending ≠ none → e.point = .fail
  failed : Send.failed ∈ c.sends → e.point = .fail
  follows : e.Follows c
  echoed : Orderly (received c.recvs) → c.sent <+: (echoFormat.frames (received c.recvs)).flatten

namespace EchoServed

variable {e e' : EchoTask} {c c' : Conn} {recv : RecvReply} {send : SendReply}

/-- `echo_loop` on the answers so far, when nothing else is received. -/
theorem exists_echoLoop (h : e.Follows c) (horderly : Orderly (received c.recvs))
    (hsends : Send.failed ∉ c.sends) :
    ∃ fuel ending w, e.resume fuel (c.later [] ending []) = .ok w ∧
      w.sent = (echoFormat.frames (received c.recvs)).flatten := by
  obtain ⟨k, hk⟩ := h
  obtain ⟨ending, hending⟩ : ∃ ending, c.ending = none ∨ c.ending = some ending := by
    cases c.ending with
    | none => exact ⟨.closed, .inl rfl⟩
    | some en => exact ⟨en, .inr rfl⟩
  have hscript : (c.script [] ending []).recvs = c.recvs := List.append_nil _
  obtain ⟨w, hw, hsent⟩ := (echoLoop_spec ((received c.recvs).length + 1 + k)
    (c.script [] ending []) (by rw [hscript]; omega)).1
      (by rw [hscript]; exact safeSizes_of_orderly horderly)
  rw [hk _ _ _ _ (hending.imp_right fun h => ⟨h, rfl⟩)] at hw
  refine ⟨_, ending, w, hw, ?_⟩
  have hfailed : Send.failed ∉ (c.script [] ending []).sends := by
    unfold Conn.script
    dsimp only
    rwa [List.append_nil]
  rw [hsent hfailed, hscript]
  rfl

theorem init : EchoServed .init .zero where
  counts := .inl rfl
  ending := fun h => absurd rfl h
  failed := fun h => by cases h
  follows := .init
  echoed := fun _ => List.nil_prefix

/-- **A round keeps it**, and only a round of a task that goes on is one. -/
theorem step (h : EchoServed e c) (hpoint : e.point ≠ .fail)
    (hstep : e.step c recv send = .ok (.next e' c')) : EchoServed e' c' := by
  have hend : c.ending = none := by
    by_contra hne
    exact hpoint (h.ending hne)
  have hround := EchoTask.step_round h.counts hend hstep
  have hfollows := h.follows.step hend hround
  refine ⟨.inr hround.counts, hround.ending, fun hmem => ?_, hfollows, fun horderly => ?_⟩
  · exact (hround.failed hmem).elim (fun h' => absurd (h.failed h') hpoint) And.left
  · by_cases hmem : Send.failed ∈ c'.sends
    · -- a failed `send` sends nothing
      rcases hround.failed hmem with h' | ⟨-, hrecvs, hsent⟩
      · exact absurd (h.failed h') hpoint
      · rw [hrecvs] at horderly ⊢
        rw [hsent]
        exact h.echoed horderly
    · obtain ⟨fuel, ending, w, hw, hsent⟩ := exists_echoLoop hfollows horderly hmem
      rw [← hsent]
      exact EchoTask.resume_sent hw

/-- The start is behind a task that has made a round. -/
theorem not_start (h : EchoServed e c) (hpoint : e.point ≠ .fail)
    (hstep : e.step c recv send = .ok (.next e' c')) : e'.point ≠ .start := by
  have hend : c.ending = none := by
    by_contra hne
    exact hpoint (h.ending hne)
  have hcounts := (EchoTask.step_round h.counts hend hstep).counts
  intro hstart
  rw [hstart] at hcounts
  exact hcounts

/-- **A round of a task never faults** while the stream is orderly. -/
theorem no_fault (h : EchoServed e c) (hpoint : e.point ≠ .fail)
    (horderly : Orderly (received (c.recvs ++ recv.script))) :
    ∃ next, e.step c recv send = .ok next := by
  cases hstep : e.step c recv send with
  | ok next => exact ⟨next, rfl⟩
  | error f =>
    have hend : c.ending = none := by
      by_contra hne
      exact hpoint (h.ending hne)
    obtain ⟨k, hk⟩ := h.follows
    obtain ⟨w, hw, -⟩ := (echoLoop_spec ((received (c.recvs ++ recv.script)).length + 1 + k)
      (c.script recv.script .closed []) (by unfold Conn.script; dsimp only; omega)).1
        (safeSizes_of_orderly horderly)
    rw [hk _ _ _ _ (.inl hend), EchoTask.step_error h.counts hstep] at hw
    cases hw

/-- Only SIGPIPE kills the process. -/
theorem broken (hstep : e.step c recv send = .ok .killed) : send = .broken := by
  have hround : ∀ {n sentAmt : Int} {msg : List UInt8},
      writeRound n msg sentAmt send = .ok .killed → send = .broken := by
    intro n sentAmt msg h
    unfold writeRound at h
    split at h
    · obtain ⟨bytes, -, h⟩ := bind_eq_ok.mp h
      cases send with
      | broken => rfl
      | again => cases h
      | failed => cases h
      | accepts more => cases h
    · cases h
  obtain ⟨msg, buf, point⟩ := e
  cases point with
  | start => cases hstep
  | readSize amt size =>
    obtain ⟨next, hnext, hstep⟩ := bind_eq_ok.mp hstep
    cases next with
    | returned ret ending =>
      obtain ⟨e', -, hstep⟩ := bind_eq_ok.mp hstep
      cases hstep
    | skip => cases hstep
    | filled p buf => cases hstep
    | copied amt size buf => cases hstep
  | readMsg size amt =>
    obtain ⟨next, hnext, hstep⟩ := bind_eq_ok.mp hstep
    cases next <;> cases hstep
  | writeSize size sentAmt =>
    obtain ⟨next, hnext, hstep⟩ := bind_eq_ok.mp hstep
    cases next with
    | killed => exact hround hnext
    | skip => cases hstep
    | sent more sentAmt bytes => cases hstep
    | returned ret failed => cases hstep
  | writeMsg size sentAmt =>
    obtain ⟨next, hnext, hstep⟩ := bind_eq_ok.mp hstep
    cases next with
    | killed => exact hround hnext
    | skip => cases hstep
    | sent more sentAmt bytes => cases hstep
    | returned ret failed => cases hstep
  | fail => cases hstep

end EchoServed

/-- **What has been sent** is the beginning of what `echo_loop` sends on these answers and any later
ones. -/
theorem EchoTask.Follows.sent_prefix {e : EchoTask} {c : Conn} (h : e.Follows c) {fuel : Nat}
    {recvs : List Recv} {ending : Ending} {sends : List Send} {w : Socket}
    (hnext : c.ending = none ∨ c.ending = some ending ∧ recvs = [])
    (hw : echoLoop fuel (c.script recvs ending sends) = .ok w) : c.sent <+: w.sent := by
  obtain ⟨k, hk⟩ := h
  have hmore : echoLoop (fuel + k) (c.script recvs ending sends) = .ok w :=
    echoRounds_add _ _ _ _ _ hw
  rw [hk _ _ _ _ hnext] at hmore
  exact EchoTask.resume_sent hmore

/-- The task is in `recv`: its buffer is empty, and bytes are missing. -/
def EchoTask.Receiving (e : EchoTask) : Prop :=
  e.buf.start = e.buf.stop ∧ ((∃ amt size, e.point = .readSize amt size ∧ amt < 4) ∨
    ∃ size amt, e.point = .readMsg size amt ∧ amt < headerInt size)

/-- In `recv`, the end of the stream would end the task. -/
theorem EchoTask.Receiving.resume {e : EchoTask} (h : e.Receiving) (fuel : Nat) (sends : List Send)
    (sent : List UInt8) (hcounts : e.point = .start ∨ e.point.Counts) (ending : Ending) :
    e.resume fuel ⟨[], ending, sends, sent⟩ = .ok ⟨[], ending, sends, sent⟩ := by
  obtain ⟨hbuf, ⟨amt, size, hpoint, hamt⟩ | ⟨size, amt, hpoint, hamt⟩⟩ := h
  · have hcounts := hcounts.resolve_left (by rw [hpoint]; nofun)
    rw [hpoint] at hcounts
    unfold EchoTask.resume
    rw [hpoint]
    dsimp only
    rw [readFrom_end hamt hbuf, ok_bind, behindSize,
      if_pos (EchoTask.status_ne ending hcounts hamt), ok_bind]
    rfl
  · have hcounts := hcounts.resolve_left (by rw [hpoint]; nofun)
    rw [hpoint] at hcounts
    unfold EchoTask.resume
    rw [hpoint]
    dsimp only
    rw [readFrom_end hamt hbuf, ok_bind, behindMsg,
      if_pos (EchoTask.status_ne ending hcounts hamt), ok_bind]
    rfl

/-- **A task that is in `recv` has answered every frame**, and so has one that has ended without a
failed `send`. -/
theorem EchoServed.all_echoed {e : EchoTask} {c : Conn} (h : EchoServed e c)
    (horderly : Orderly (received c.recvs))
    (hdone : e.Receiving ∨ e.point = .fail ∧ Send.failed ∉ c.sends) :
    c.sent = (echoFormat.frames (received c.recvs)).flatten := by
  have hsends : Send.failed ∉ c.sends := by
    rcases hdone with ⟨-, hpoint⟩ | ⟨-, hsends⟩
    · intro hmem
      have hfail := h.failed hmem
      rcases hpoint with ⟨_, _, hpoint, -⟩ | ⟨_, _, hpoint, -⟩
      · rw [hpoint] at hfail
        cases hfail
      · rw [hpoint] at hfail
        cases hfail
    · exact hsends
  obtain ⟨fuel, ending, w, hw, hsent⟩ := exists_echoLoop h.follows horderly hsends
  rw [← hsent]
  rcases hdone with hrecv | ⟨hpoint, -⟩
  · rw [Conn.later, hrecv.resume fuel [] c.sent h.counts ending] at hw
    cases hw
    rfl
  · unfold EchoTask.resume at hw
    rw [hpoint] at hw
    cases hw
    rfl

end CAsync
