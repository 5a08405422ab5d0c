/-
# What the echo server does for its clients

The server starts in a state that satisfies `Serving` (`start_serving`), so every state it reaches
does.  It goes on until SIGPIPE kills it, or a client sends a size that `string_resize` cannot take
(`async_server_goes_on`); each client is served as if it was alone (`async_isolated`), and so gets
its own frames back (`async_server_echoes`).
-/
import CAsync.AsyncServing

namespace CAsync

open Bytes Faulting TaskPool

namespace AsyncServer

variable {l : List OsReply} {m : AsyncServer Graph} {r : OsReply}

/-! ## 1. The start -/

/-- The calls of `async_main`, up to the switch in its `await`. -/
def mainCalls : List (Op ServerFn ServerArg × Reply ServerFn ServerArg) :=
  [(.call .serverStats .null, .handle ⟨2⟩), (.orphan ⟨2⟩, .done),
    (.call .acceptLoop .address, .handle ⟨3⟩), (.await ⟨3⟩, .start .serverStats .null)]

/-- The model after the calls of `async_main`. -/
theorem main_run : ∃ a : Runtime TaskGraph ServerFn ServerArg,
    Steps Next (started .asyncMain .address) mainCalls a ∧ a.running = ⟨2⟩ ∧
      a.sched.tasks = [⟨2⟩, ⟨3⟩] ∧ a.sched.nodeOf 2 = some 1 ∧ a.sched.parent 1 = none ∧
      ∃ t₁ t₂ t₃, a.pool.tasks = [t₁, t₂, t₃] ∧
        (t₁.fn = .asyncMain ∧ t₁.state = .running ∧
          t₁.stackPtr = some (.graphWaitReady ⟨1⟩ 2 ⟨3⟩)) ∧
        t₂.fn = .serverStats ∧ t₃.fn = .acceptLoop ∧ t₃.state = .init := by
  refine ⟨_, .cons rfl (.cons rfl (.cons rfl (.single rfl))), rfl, rfl, rfl, rfl, ?_⟩
  exact ⟨_, _, _, rfl, ⟨rfl, rfl, rfl⟩, rfl, rfl, rfl⟩

/-- `async_main` waits, and the other two tasks are in the queue. -/
theorem main_cast : ∃ a : Runtime TaskGraph ServerFn ServerArg,
    Steps Next (started .asyncMain .address) mainCalls a ∧ Cast a none ∧ a.running = ⟨2⟩ ∧
      (∀ h, clientOf a h = none) ∧ a.sched.tasks.length = 2 ∧
      a.pool.stateOf ⟨3⟩ = some .init := by
  obtain ⟨a, hrun, hrunning, htasks, hnode, hparent, t₁, t₂, t₃, hpool, ⟨hfn₁, hst₁, hptr₁⟩, hfn₂,
    hfn₃, hst₃⟩ := main_run
  have hslots : a.pool.slot ⟨1⟩ = some t₁ ∧ a.pool.slot ⟨2⟩ = some t₂ ∧
      a.pool.slot ⟨3⟩ = some t₃ := by
    unfold slot
    rw [hpool]
    exact ⟨rfl, rfl, rfl⟩
  have hlen : a.pool.len = 3 := congrArg List.length hpool
  have hhandle : ∀ h u, a.pool.slot h = some u → h = ⟨1⟩ ∨ h = ⟨2⟩ ∨ h = ⟨3⟩ := by
    rintro ⟨i⟩ u hu
    obtain ⟨hpos, hle⟩ := slot_bounds hu
    rw [hlen] at hle
    simp only [Handle.mk.injEq]
    dsimp only at hpos hle
    omega
  have hcast : Cast a none := {
    inv := hrun.invariant (fun _ _ _ hi hst => (hi.effect hst).2) (started_inv _ _)
    main := ⟨2, t₁, ⟨by rw [hrunning]; simp, t₁, hslots.1, hst₁, hptr₁⟩, hslots.1, hfn₁⟩
    stats := ⟨by rw [htasks]; simp, t₂, hslots.2.1, hfn₂⟩
    accept := ⟨by rw [htasks]; simp, t₃, hslots.2.2, hfn₃⟩
    client := fun h hmem h2 h3 => by
      rw [htasks] at hmem
      simp [h2, h3] at hmem
    unawaited := fun h hmem h3 c hc => by
      obtain rfl : h = ⟨2⟩ := by simpa [htasks, h3] using hmem
      rw [hnode] at hc
      cases hc
      exact hparent
    live := fun h u hu _ => by
      rw [htasks]
      simpa using hhandle h u hu
    pending := nofun }
  refine ⟨a, hrun, hcast, hrunning, fun h => ?_, by rw [htasks]; rfl, ?_⟩
  · cases hc : clientOf a h with
    | none => rfl
    | some x =>
      obtain ⟨hmem, h2, h3⟩ := hcast.clientOf_isSome.mp ⟨x.1, x.2, hc⟩
      rw [htasks] at hmem
      simp [h2, h3] at hmem
  · unfold stateOf
    rw [hslots.2.2, Option.map_some, hst₃]

/-- `start` makes these calls. -/
theorem start_run : ∃ m₀ : AsyncServer Graph, ∃ s₀, start = .ok (.next m₀) ∧
    runAsyncMain .asyncMain .address = .ok (.next s₀ (.start .asyncMain .address)) ∧
    Steps Next s₀ mainCalls m₀.lib ∧ m₀.lib.pool.len = 3 ∧ m₀.sockets = (fun _ => none) ∧
    m₀.closed = [] ∧ m₀.currentClientCnt = 0 ∧ m₀.code ⟨2⟩ = .stats ∧ m₀.code ⟨3⟩ = .returned :=
  ⟨_, _, rfl, rfl, .cons rfl (.cons rfl (.cons rfl (.single rfl))), rfl, rfl, rfl, rfl, rfl, rfl⟩

/-- **The server starts.** -/
theorem start_serving : ∃ m₀ a₀, start = .ok (.next m₀) ∧ Serving m₀ a₀ ∧
    CAsync.Reached mainCalls m₀.lib ∧ m₀.lib.pool.len = 3 := by
  obtain ⟨m₀, s₀, hstart, hmain, hcalls, hlen, hsockets, hclosed, hcnt, hstats, haccept⟩ :=
    start_run
  obtain ⟨a₀, hrun, hcast, hrunning, hclients, htasks, hinit⟩ := main_cast
  have hsame : SameRuntime TaskGraph.Represents m₀.lib a₀ := by
    have hrel := graphRefines.runAsyncMain ServerFn.asyncMain ServerArg.address
    rw [hmain, runAsyncMain_eq] at hrel
    obtain ⟨o, ho, hrel⟩ := hrel.ok_left
    cases ho
    cases hrel with
    | next _ hsame =>
      obtain ⟨b, hb, hsame⟩ := graphRefines.steps hsame hcalls
      rwa [Next.steps_unique hrun hb]
  have hpending : m₀.pending = none := by
    unfold pending
    rw [haccept]
  have hreached : CAsync.Reached mainCalls m₀.lib := ⟨s₀, ⟨_, _, hmain⟩, hcalls⟩
  refine ⟨m₀, a₀, hstart, ⟨hsame, by rwa [hpending], fun _ => hstats, fun h => ?_, ?_, ?_, ?_, ?_⟩,
    hreached, hlen⟩
  · rw [hinit] at h
    cases h
  · refine ⟨?_, ?_, ?_, ?_⟩ <;> intros <;> simp_all
  · rw [hclosed]
    nofun
  · rw [hcnt, List.countP_eq_zero.mpr]
    · rfl
    · intro h _
      unfold counted
      rw [hclients]
      simp
  · rw [htasks, hclosed]
    exact hreached.accounts

/-! ## 2. A conversation -/

/-- Nobody answers. -/
def quiet : OsReply := { accept := .again, recv := .again, send := .again }

/-- A client connects, sends the frame of one byte, and reads it. -/
def conversation : List OsReply :=
  [quiet, { quiet with accept := .client 5 true }, quiet, quiet, quiet, quiet, quiet,
    { quiet with recv := .piece ⟨[0, 0, 0, 1, 65], by decide, by decide⟩ }, quiet, quiet, quiet,
    quiet, { quiet with send := .accepts 3 }, quiet, { quiet with send := .accepts 0 }, quiet]

/-- The client has closed its socket, and its task returns. -/
def departure : List OsReply := [{ quiet with recv := .ended .closed }, quiet]

theorem possible_quiet (m : AsyncServer Graph) {r : OsReply} (hr : r.accept = .again) :
    m.Possible r := by
  intro fd nonblock h
  rw [hr] at h
  cases h

/-- The socket of this client. -/
def echoed : Conn :=
  { recvs := [.piece ⟨[0, 0, 0, 1, 65], by decide, by decide⟩], ending := none
    sends := [.accepts 3, .accepts 0], sent := [0, 0, 0, 1, 65] }

set_option maxRecDepth 20000 in
/-- Where the conversation ends: the client has its frame, and its task is in `recv` again.  It can
wait, and the other two tasks go on; or the client leaves. -/
theorem conversation_reached : ∃ (m : AsyncServer Graph) (e : EchoTask),
    Reached conversation m ∧ m.lib.running = ⟨4⟩ ∧ clientOf m.lib ⟨4⟩ = some (5, true) ∧
      m.code ⟨4⟩ = .echo 5 e ∧ e.Receiving ∧ m.sockets 5 = some echoed ∧
      (∃ u v w, Serves m quiet u ∧ Serves u quiet v ∧ Serves v quiet w ∧ u.lib.running = ⟨3⟩ ∧
        v.lib.running = ⟨2⟩ ∧ w.lib.running = ⟨4⟩ ∧
        u.lib.pool.handles.filter (fun h => (clientOf u.lib h).isSome) = [⟨4⟩]) ∧
      ∃ t, Steps Serves m departure t ∧ t.closed.length = 1 ∧
        t.lib.pool.handles.filter (fun h => (clientOf t.lib h).isSome) = [] := by
  have hclient : ∀ (m : AsyncServer Graph) (r : OsReply), r.accept = .client 5 true →
      m.sockets 5 = none → m.Possible r := by
    intro m r hr hfd fd nonblock h
    rw [hr] at h
    cases h
    exact hfd
  have hq : ∀ {m m' : AsyncServer Graph} {r : OsReply}, r.accept = .again →
      m.step r = .ok (.next m') → Serves m r m' :=
    fun hr hstep => ⟨possible_quiet _ hr, hstep⟩
  exact ⟨_, _, ⟨_, rfl, .cons (hq rfl rfl) (.cons ⟨hclient _ _ rfl rfl, rfl⟩ (.cons (hq rfl rfl)
    (.cons (hq rfl rfl) (.cons (hq rfl rfl) (.cons (hq rfl rfl) (.cons (hq rfl rfl)
    (.cons (hq rfl rfl) (.cons (hq rfl rfl) (.cons (hq rfl rfl) (.cons (hq rfl rfl)
    (.cons (hq rfl rfl) (.cons (hq rfl rfl) (.cons (hq rfl rfl) (.cons (hq rfl rfl)
    (.single (hq rfl rfl))))))))))))))))⟩, rfl, rfl, rfl,
    ⟨rfl, .inl ⟨_, _, rfl, by decide⟩⟩, rfl,
    ⟨_, _, _, hq rfl rfl, hq rfl rfl, hq rfl rfl, rfl, rfl, rfl, rfl⟩,
    ⟨_, .cons (hq rfl rfl) (.single (hq rfl rfl)), rfl, rfl⟩⟩

/-! ## 3. Every state -/

/-- **Every state that the server can reach is one between two steps.** -/
theorem Reached.serving (hm : Reached l m) : ∃ a, Serving m a := by
  obtain ⟨m₀, hstart, hrun⟩ := hm
  obtain ⟨m₁, a₀, hstart', hs, -⟩ := start_serving
  rw [hstart] at hstart'
  cases hstart'
  refine hrun.invariant (I := fun m => ∃ a, Serving m a) ?_ ⟨a₀, hs⟩
  rintro m r m' ⟨a, hs⟩ ⟨hp, hstep⟩
  cases hs.step hp with
  | next hnext hm' _ =>
    rw [hstep] at hnext
    cases hnext
    exact ⟨_, hm'⟩
  | killed hkilled =>
    rw [hstep] at hkilled
    cases hkilled
  | fault hfault =>
    rw [hstep] at hfault
    cases hfault

/-- **The server goes on.**  In every state it can reach, its next step succeeds, whatever the
operating system answers: no assertion of the library fails, no closed socket is used, and
`async_main` does not return.  The exceptions are SIGPIPE, and a fault of `echo_loop` on a stream
whose sizes are not orderly. -/
theorem async_server_goes_on (hm : Reached l m) (hp : m.Possible r) :
    (∃ m', m.step r = .ok (.next m')) ∨ m.step r = .ok .killed ∧ r.send = .broken ∨
      ∃ f fd e c, m.step r = .error f ∧ m.code m.lib.running = .echo fd e ∧
        m.sockets fd = some c ∧ ¬ Orderly (received (c.recvs ++ r.recv.script)) := by
  obtain ⟨a, hs⟩ := hm.serving
  cases hs.step hp with
  | next hnext => exact .inl ⟨_, hnext⟩
  | killed hkilled _ _ hbroken => exact .inr (.inl ⟨hkilled, EchoServed.broken hbroken⟩)
  | fault hfault hcode hfd hserved hpoint hstep =>
    refine .inr (.inr ⟨_, _, _, _, hfault, hcode, hfd, fun horderly => ?_⟩)
    obtain ⟨next, hnext⟩ := hserved.no_fault hpoint horderly
    rw [hstep] at hnext
    cases hnext

/-- The client of the conversation has nothing to say. -/
theorem async_server_goes_on_quiet : ∃ m m' : AsyncServer Graph,
    Reached conversation m ∧ m.step quiet = .ok (.next m') := by
  obtain ⟨m, e, hm, hrun, -, hcode, -, hfd, -⟩ := conversation_reached
  rcases async_server_goes_on hm (possible_quiet m (r := quiet) rfl) with
    ⟨m', hnext⟩ | ⟨-, hbroken⟩ | ⟨f, fd, e', c, -, hcode', hfd', horderly⟩
  · exact ⟨m, m', hm, hnext⟩
  · cases hbroken
  · rw [hrun, hcode] at hcode'
    cases hcode'
    rw [hfd] at hfd'
    cases hfd'
    exact absurd (by decide) horderly

/-- A client that is not served yet has been sent nothing. -/
theorem Serving.served {a : Runtime TaskGraph ServerFn ServerArg} (hs : Serving m a) {fd : Int}
    {c : Conn} (hfd : m.sockets fd = some c) : c = .zero ∨ ∃ h e, m.code h = .echo fd e ∧
      EchoServed e c := by
  rcases hs.clients.owned hfd with hzero | ⟨h, b, hclient⟩
  · exact .inl hzero
  · cases b with
    | false =>
      rw [hs.clients.fresh hclient] at hfd
      cases hfd
      exact .inl rfl
    | true =>
      obtain ⟨c', e, hc', hcode, hserved⟩ := hs.clients.started hclient
      rw [hfd] at hc'
      cases hc'
      exact .inr ⟨h, e, hcode, hserved⟩

/-- **Each client is served as if it was alone.**  What has been sent on an open socket is the
beginning of what `echo_loop` sends by itself on the answers of this socket and any later ones; and
on the answers of a socket that is closed, `echo_loop` by itself ends, has used up these answers and
no more, and has sent just what has been sent. -/
theorem async_isolated (hm : Reached l m) :
    (∀ fd c, m.sockets fd = some c → ∀ fuel recvs ending sends w,
      c.ending = none ∨ c.ending = some ending ∧ recvs = [] →
      echoLoop fuel (c.script recvs ending sends) = .ok w → c.sent <+: w.sent) ∧
    ∀ c ∈ m.closed, ∃ fuel, ∀ recvs ending sends,
      c.ending = none ∨ c.ending = some ending ∧ recvs = [] →
      echoLoop fuel (c.script recvs ending sends) = .ok (c.later recvs ending sends) := by
  obtain ⟨a, hs⟩ := hm.serving
  constructor
  · intro fd c hfd fuel recvs ending sends w hnext hw
    rcases hs.served hfd with rfl | ⟨h, e, -, hserved⟩
    · exact List.nil_prefix
    · exact hserved.follows.sent_prefix hnext hw
  · intro c hc
    obtain ⟨e, hserved, hpoint⟩ := hs.closed c hc
    obtain ⟨k, hk⟩ := hserved.follows
    refine ⟨0 + k, fun recvs ending sends hnext => ?_⟩
    rw [hk _ _ _ _ hnext]
    unfold EchoTask.resume
    rw [hpoint]

set_option maxRecDepth 4000 in
/-- The client of the conversation leaves. -/
theorem async_isolated_conversation : ∃ (m : AsyncServer Graph) (w : Socket),
    m.sockets 5 = some echoed ∧ echoLoop 3 (echoed.script [] .closed []) = .ok w ∧
      echoed.sent <+: w.sent := by
  obtain ⟨m, e, hm, -, -, -, -, hfd, -⟩ := conversation_reached
  exact ⟨m, _, hfd, rfl, (async_isolated hm).1 5 echoed hfd 3 [] .closed [] _ (.inl rfl) rfl⟩

/-- **Each client gets its own frames back.**  While the sizes of its stream are orderly, what has
been sent to it is the beginning of the frames that have been received from it.  It is all of them
when its task is in `recv`, and when the socket has been closed without a failed `send`. -/
theorem async_server_echoes (hm : Reached l m) :
    (∀ fd c, m.sockets fd = some c → Orderly (received c.recvs) →
      c.sent <+: (echoFormat.frames (received c.recvs)).flatten) ∧
    (∀ fd c h e, m.sockets fd = some c → clientOf m.lib h = some (fd, true) →
      m.code h = .echo fd e → e.Receiving → Orderly (received c.recvs) →
      c.sent = (echoFormat.frames (received c.recvs)).flatten) ∧
    ∀ c ∈ m.closed, Orderly (received c.recvs) →
      c.sent <+: (echoFormat.frames (received c.recvs)).flatten ∧
        (.failed ∉ c.sends → c.sent = (echoFormat.frames (received c.recvs)).flatten) := by
  obtain ⟨a, hs⟩ := hm.serving
  refine ⟨fun fd c hfd horderly => ?_, fun fd c h e hfd hclient hcode hrecv horderly => ?_,
    fun c hc horderly => ?_⟩
  · rcases hs.served hfd with rfl | ⟨h, e, -, hserved⟩
    · exact List.nil_prefix
    · exact hserved.echoed horderly
  · have hclient' : clientOf a h = some (fd, true) := by
      unfold clientOf at hclient ⊢
      rwa [← hs.same.pool]
    obtain ⟨c', e', hc', hcode', hserved⟩ := hs.clients.started hclient'
    rw [hfd] at hc'
    rw [hcode] at hcode'
    cases hc'
    cases hcode'
    exact hserved.all_echoed horderly (.inl hrecv)
  · obtain ⟨e, hserved, hpoint⟩ := hs.closed c hc
    exact ⟨hserved.echoed horderly,
      fun hfailed => hserved.all_echoed horderly (.inr ⟨hpoint, hfailed⟩)⟩

/-- The frame of the conversation. -/
theorem async_server_echoes_conversation : ∃ m : AsyncServer Graph, m.sockets 5 = some echoed ∧
    echoed.sent = (echoFormat.frames (received echoed.recvs)).flatten := by
  obtain ⟨m, e, hm, -, hclient, hcode, hrecv, hfd, -⟩ := conversation_reached
  exact ⟨m, hfd, (async_server_echoes hm).2.1 5 echoed ⟨4⟩ e hfd hclient hcode hrecv (by decide)⟩

end AsyncServer
end CAsync
