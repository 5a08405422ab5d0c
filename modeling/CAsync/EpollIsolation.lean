/-
# The clients of the epoll server do not disturb each other

Whatever is sent on the other sockets, and in whatever order `epoll_wait` reports them, a client is
served as if it was alone (`epoll_isolated`), so the results about one connection hold of each of
them (`epoll_server_echoes`).  No assertion of the server ever fails (`epoll_server_faults`): what
can fault is `client_on_update`, on bytes that are no frames.

All of this is about calls of `accept`, `recv` and `send` that return, which on the blocking sockets
of this server is up to the clients.  A call that does not return stops the server for all of them.
-/
import CAsync.EpollServerRuns

namespace CAsync

open Faulting

namespace Server

variable {s t : Server} {c : Nat} {r : ClientRecord} {e : Event} {fd : Int}

/-! ## 1. One event -/

/-- The connections that an event is not about. -/
theorem Handled.other (h : Handled s e t) (hc : c ≠ e.ptr) (hr : s.recordAt c = some r) :
    ∃ r', t.recordAt c = some r' ∧ r'.conn = r.conn ∧ r'.socket = r.socket := by
  cases h with
  | failed ptr answer same => exact ⟨r, by rw [same]; exact hr, rfl, rfl⟩
  | connected ptr answer records length clients count epollFd =>
    rw [records, Function.update_of_ne (Nat.ne_of_lt (recordAt_lt hr)), through_eq hr]
    refine ⟨_, rfl, ?_, ?_⟩
    · split <;> rfl
    · split <;> rfl
  | updated ptr record open_ ok stays same =>
    rw [same, recordAt_setClient record, Function.update_of_ne hc]
    exact ⟨r, hr, rfl, rfl⟩
  | left ptr record open_ ok leaves records length clients count epollFd =>
    rw [records, Function.update_of_ne hc, through_eq (through_eq hr)]
    refine ⟨_, rfl, ?_, ?_⟩
    · split <;> split <;> rfl
    · split <;> split <;> rfl

/-- The connection that it is about. -/
theorem Handled.own (h : Handled s e t) (hptr : 0 < e.ptr) (hr : s.recordAt e.ptr = some r) :
    ∃ conn status r', clientOnUpdate r.conn e.update = .ok (conn, status) ∧
      t.recordAt e.ptr = some r' ∧ r'.conn.sent = conn.sent ∧ (r'.socket ≠ 0 → r'.conn = conn) := by
  cases h with
  | failed ptr => omega
  | connected ptr => omega
  | @updated r₁ conn status ptr record open_ ok stays same =>
    rw [hr] at record
    cases record
    refine ⟨conn, status, { r with conn := conn }, ok, ?_, rfl, fun _ => rfl⟩
    rw [same, recordAt_setClient hr, Function.update_self]
  | @left r₁ conn status ptr record open_ ok leaves records length clients count epollFd =>
    rw [hr] at record
    cases record
    refine ⟨conn, status, closedClient { r with conn := conn }, ok, ?_, rfl,
      fun h => absurd rfl h⟩
    rw [records, Function.update_self]

theorem Serves.handled (h : Serves s e t) (hs : Consistent s) : Consistent t ∧ Handled s e t := by
  obtain ⟨hp, hok⟩ := h
  rcases hs.event hp with ⟨f, r, herr, -, -⟩ | ⟨u, hu, hcons, hhandled⟩
  · rw [hok] at herr
    cases herr
  · rw [hok] at hu
    cases hu
    exact ⟨hcons, hhandled⟩

/-! ## 2. The start -/

theorem startServer_eq (hfd : fd ≠ 0) : ∃ s, startServer fd = .ok s ∧ Consistent s ∧
    s.recordAt = Function.update (fun _ => none) 0
      (some { zeroClient [] with socket := fd }) ∧
    s.heap.length = 1 ∧ s.clients = some 0 ∧ s.currentClientCnt = 0 := by
  let s₀ : Server :=
    { acceptSocket := fd, clients := none, freeClients := none, currentClientCnt := 0, heap := [],
      epollFd := [] }
  obtain ⟨s, hs, hrec, hlen, hclients, hfree, haccept, hcount, -⟩ :=
    serverNewClient_eq (s := s₀) rfl (fun c hc => by cases hc) fd []
  have hnone : s₀.recordAt = fun _ => none := rfl
  have hrec : s.recordAt = Function.update (fun _ => none) 0
      (some { zeroClient [] with socket := fd }) := by
    rw [hrec, through_none, hnone]
    rfl
  refine ⟨{ s with epollFd := [0] }, ?_, ?_, hrec, hlen, hclients, hcount⟩
  · unfold startServer
    change (s₀.serverNewClient fd [] >>= fun x => .ok { x.1 with epollFd := [x.2] }) = _
    rw [hs, ok_bind]
    rfl
  have hself : s.recordAt 0 = some { zeroClient [] with socket := fd } := by
    rw [hrec, Function.update_self]
  have honly : ∀ {x y}, s.recordAt x = some y →
      x = 0 ∧ y = { zeroClient [] with socket := fd } := by
    intro x y hy
    by_cases hx : x = 0
    · subst hx
      rw [hself] at hy
      cases hy
      exact ⟨rfl, rfl⟩
    · rw [hrec, Function.update_of_ne hx] at hy
      cases hy
  refine ⟨hfree, fun c hc => ?_, fun {x y r} hr hnext => ?_, fun {x y r} hr hprev => ?_, ?_,
    ⟨_, hself, haccept.symm⟩, fun {c r} hc hr => ?_, fun {c} hc => ?_⟩
  · have hc : s.clients = some c := hc
    rw [hclients] at hc
    cases hc
    exact ⟨_, hself, rfl⟩
  · obtain ⟨-, rfl⟩ := honly hr
    cases hnext
  · obtain ⟨-, rfl⟩ := honly hr
    cases hprev
  · change s.acceptSocket ≠ 0
    rw [haccept]
    exact hfd
  · obtain ⟨rfl, -⟩ := honly hr
    omega
  · obtain rfl : c = 0 := by simpa using hc
    exact ⟨_, hself, hfd⟩

/-- The states that the server can reach, with the socket that accepts not 0, the standard input. -/
def Reached (fd : Int) (l : List Event) (s : Server) : Prop :=
  fd ≠ 0 ∧ ∃ s₀, startServer fd = .ok s₀ ∧ Steps Serves s₀ l s

theorem Reached.consistent {l : List Event} (h : Reached fd l s) : Consistent s := by
  obtain ⟨hfd, s₀, h₀, hrun⟩ := h
  obtain ⟨s₁, h₁, hs, -⟩ := startServer_eq hfd
  rw [h₀] at h₁
  cases h₁
  exact hrun.invariant (fun _ _ _ hs hst => (hst.handled hs).1) hs

/-! ## 3. Runs -/

/-- The calls of `client_on_update` for the record at `c`. -/
def own (c : Nat) (l : List Event) : List Update := (l.filter fun e => e.ptr = c).map Event.update

theorem own_snoc (c : Nat) (l : List Event) (e : Event) :
    own c (l ++ [e]) = own c l ++ if e.ptr = c then [e.update] else [] := by
  unfold own
  rw [List.filter_append, List.map_append]
  by_cases h : e.ptr = c <;> simp [h]

/-- The record at `c` after the calls `us`: as if nothing else had happened.  When the client has
left, its socket is 0, and its message is released. -/
def Alone (incoming : List Piece) (c : Nat) (us : List Update) (s : Server) : Prop :=
  ∃ conn os r, runOps observe (accepted incoming) us = .ok (conn, os) ∧ s.recordAt c = some r ∧
    r.conn.sent = conn.sent ∧ (r.socket ≠ 0 → r.conn = conn)

theorem Alone.step {incoming : List Piece} {us : List Update} (hc : 0 < c) (hs : Consistent s)
    (h : Alone incoming c us s) (hst : Serves s e t) :
    Alone incoming c (us ++ if e.ptr = c then [e.update] else []) t := by
  obtain ⟨conn, os, r, hrun, hr, hsent, hopen⟩ := h
  obtain ⟨-, hhandled⟩ := hst.handled hs
  by_cases hptr : e.ptr = c
  · subst hptr
    rw [if_pos rfl]
    obtain ⟨r₁, hr₁, hsock⟩ := hs.watched hst.1.1
    rw [hr] at hr₁
    cases hr₁
    obtain ⟨conn', status, r', hok, hr', hsent', hopen'⟩ := hhandled.own hc hr
    rw [hopen hsock] at hok
    exact ⟨conn', _, r', runOps_snoc_ok.mpr ⟨conn, _, os, hrun, observe_eq hok, rfl⟩, hr', hsent',
      hopen'⟩
  · rw [if_neg hptr, List.append_nil]
    obtain ⟨r', hr', hconn, hsock⟩ := hhandled.other (Ne.symm hptr) hr
    refine ⟨conn, os, r', hrun, hr', by rw [hconn, hsent], fun h => ?_⟩
    rw [hsock] at h
    rw [hconn, hopen h]

end Server

open Server

variable {fd : Int} {l l' : List Event} {s t u : Server} {e : Event}

/-- A client connects, and will send these pieces. -/
def connect (socket : Int) (incoming : List Piece) : Event :=
  { ptr := 0, accept := .connected socket incoming true, update := bothEvents, hangup := false }

/-- A client can be read from and sent to. -/
def ready (c : Nat) : Event :=
  { ptr := c, accept := .failed, update := bothEvents, hangup := false }

/-- `accept` fails. -/
def refused : Event := ready 0

set_option maxRecDepth 4000 in
/-- Two clients connect, and the first one sends two frames. -/
theorem exists_two_clients : ∃ s t u v w x y, startServer 3 = .ok s ∧
    Serves s (connect 5 onePiece) t ∧ Serves t (connect 6 []) u ∧ Serves u refused v ∧
    Serves v (ready 1) w ∧ Serves w (ready 1) x ∧ Serves x (ready 1) y := by
  have hnone : ∀ {c : Nat} {s : Server} (socket : Int) (incoming : List Piece) (added : Bool),
      (ready c).accept = .connected socket incoming added → socket ≠ 0 ∧ socket ≠ s.acceptSocket :=
    fun _ _ _ h => by cases h
  refine ⟨_, _, _, _, _, _, _, rfl, ⟨⟨by decide, ?_⟩, rfl⟩, ⟨⟨by decide, ?_⟩, rfl⟩,
    ⟨⟨by decide, hnone⟩, rfl⟩, ⟨⟨by decide, hnone⟩, rfl⟩, ⟨⟨by decide, hnone⟩, rfl⟩,
    ⟨⟨by decide, hnone⟩, rfl⟩⟩
  · rintro socket incoming added ⟨⟩
    exact ⟨by decide, by decide⟩
  · rintro socket incoming added ⟨⟩
    exact ⟨by decide, by decide⟩

/-- **No assertion of the server fails, and it follows no wild pointer.**  In every state that it
reaches, the handler of an event, whose calls of `accept`, `recv` and `send` return, gets to its
end, or `client_on_update` has faulted on what this client has sent. -/
theorem epoll_server_faults (hs : Server.Reached fd l s) (hp : s.Possible e) :
    (∃ t, s.onEvent e = .ok t) ∨ ∃ f r, s.onEvent e = .error (.update f) ∧
      s.recordAt e.ptr = some r ∧ clientOnUpdate r.conn e.update = .error f := by
  rcases hs.consistent.event hp with ⟨f, r, h⟩ | ⟨t, ht, -⟩
  · exact .inr ⟨f, r, h⟩
  · exact .inl ⟨t, ht⟩

/-- The first client can be read. -/
theorem epoll_server_faults_ready : ∃ s : Server, s.Possible (ready 1) ∧
    ((∃ t, s.onEvent (ready 1) = .ok t) ∨ ∃ f r, s.onEvent (ready 1) = .error (.update f) ∧
      s.recordAt 1 = some r ∧ clientOnUpdate r.conn bothEvents = .error f) := by
  obtain ⟨s, t, u, v, w, x, y, hs, hst, htu, huv, hvw, -⟩ := exists_two_clients
  have hreached : Server.Reached 3 [connect 5 onePiece, connect 6 [], refused] v :=
    ⟨by decide, s, hs, .cons hst (.cons htu (.single huv))⟩
  exact ⟨v, hvw.1, epoll_server_faults hreached hvw.1⟩

/-- **A client is served as if it was alone.**  Its record is a new one; and after any other events,
with any other clients, what it has been sent is what `client_on_update` sends in the calls for this
client only. -/
theorem epoll_isolated {socket : Int} {incoming : List Piece} {added : Bool}
    (hs : Server.Reached fd l s) (haccept : Serves s e t) (hptr : e.ptr = 0)
    (hanswer : e.accept = .connected socket incoming added) (hrun : Steps Serves t l' u) :
    s.recordAt s.heap.length = none ∧ Alone incoming s.heap.length (own s.heap.length l') u := by
  have hcons := hs.consistent
  obtain ⟨hcons', hhandled⟩ := haccept.handled hcons
  have hnew : Alone incoming s.heap.length [] t := by
    cases hhandled with
    | failed ptr answer same =>
      rw [hanswer] at answer
      cases answer
    | connected ptr answer records length clients count epollFd =>
      rw [hanswer] at answer
      cases answer
      exact ⟨_, [], _, rfl, by rw [records, Function.update_self], rfl, fun _ => rfl⟩
    | updated ptr => omega
    | left ptr => omega
  refine ⟨List.getElem?_eq_none (Nat.le_refl _), ?_⟩
  exact (hrun.history (P := fun l u => Consistent u ∧ Alone incoming s.heap.length
    (own s.heap.length l) u) ⟨hcons', hnew⟩ fun l v e w _ hv hst => by
      rw [own_snoc]
      exact ⟨(hst.handled hv.1).1, hv.2.step hcons.pos hv.1 hst⟩).2

/-- Between its own events another client connects, and one is refused. -/
theorem epoll_isolated_two : ∃ s u : Server, s.recordAt s.heap.length = none ∧
    Alone onePiece s.heap.length
      (own s.heap.length [connect 6 [], refused, ready 1, ready 1, ready 1]) u := by
  obtain ⟨s, t, u, v, w, x, y, hs, hst, htu, huv, hvw, hwx, hxy⟩ := exists_two_clients
  have hreached : Server.Reached 3 [] s := ⟨by decide, s, hs, .refl s⟩
  exact ⟨s, y, epoll_isolated hreached hst rfl rfl
    (.cons htu (.cons huv (.cons hvw (.cons hwx (.single hxy)))))⟩

/-! ## 4. Clients that send frames -/

variable {fs : List (List UInt8)} {pieces : List Piece}

/-- Some pieces are frames, with lengths that the server can hold. -/
def Frames (pieces : List Piece) (fs : List (List UInt8)) : Prop :=
  (∀ f ∈ fs, echoFormat.IsFrame f ∧ echoFormat.announced f < 2 ^ 30) ∧
    pieceBytes pieces = fs.flatten

/-- What has been sent is the beginning of the frames. -/
theorem Tracks.sent_prefix {conn : Connection} {parsed todo : List (List UInt8)}
    (h : Tracks conn parsed todo) : conn.sent <+: parsed.flatten := by
  cases h with
  | reading _ _ _ _ _ sent _ => exact ⟨[], by rw [List.append_nil, sent]⟩
  | writing _ _ _ _ _ _ sent _ => exact ⟨_, sent⟩

theorem Progress.sent_prefix {conn : Connection} {os : List (Int × Bool)}
    (h : Progress fs pieces os conn) : conn.sent <+: fs.flatten := by
  obtain ⟨parsed, todo, consumed, hsplit, htracks, -⟩ := h
  rw [hsplit, List.flatten_append]
  exact htracks.sent_prefix.trans (List.prefix_append _ _)

/-- **Each client gets its own frames back**, whatever the other clients send, and in whatever order
the sockets are ready.  What it has been sent is always the beginning of its frames; and if all its
bytes have been received with no error, all its frames are answered exactly if at least as many
calls for it have read with nothing left to be received as frames end in the last piece. -/
theorem epoll_server_echoes {socket : Int} {added : Bool} (hs : Server.Reached fd l s)
    (haccept : Serves s e t) (hptr : e.ptr = 0)
    (hanswer : e.accept = .connected socket pieces added)
    (hfs : Frames pieces fs) (hrun : Steps Serves t l' u) :
    ∃ conn os r, runOps observe (accepted pieces) (own s.heap.length l') = .ok (conn, os) ∧
      u.recordAt s.heap.length = some r ∧ r.conn.sent = conn.sent ∧ conn.sent <+: fs.flatten ∧
      ((∀ o ∈ os, o.1 = 0) → conn.incoming = [] →
        (AnswersAll conn fs ↔ fs.length - endedBefore pieces ≤ os.countP fun o => o.2)) := by
  obtain ⟨-, conn, os, r, hown, hr, hsent, -⟩ := epoll_isolated hs haccept hptr hanswer hrun
  obtain ⟨conn', os', hown', hprogress⟩ := run_progress hfs.1 hfs.2 (own s.heap.length l')
  rw [hown] at hown'
  cases hown'
  exact ⟨conn, os, r, hown, hr, hsent, hprogress.sent_prefix,
    hprogress.answersAll_iff fun f hf => (hfs.1 f hf).1⟩

/-- The two frames of the first client. -/
theorem epoll_server_echoes_two : ∃ (s u : Server) (conn : Connection) (os : List (Int × Bool))
    (r : ClientRecord), runOps observe (accepted onePiece)
        (own s.heap.length [connect 6 [], refused, ready 1, ready 1, ready 1]) = .ok (conn, os) ∧
      u.recordAt s.heap.length = some r ∧ r.conn.sent = conn.sent ∧
      conn.sent <+: emptyFrames.flatten ∧
      ((∀ o ∈ os, o.1 = 0) → conn.incoming = [] → (AnswersAll conn emptyFrames ↔
        emptyFrames.length - endedBefore onePiece ≤ os.countP fun o => o.2)) := by
  obtain ⟨s, t, u, v, w, x, y, hs, hst, htu, huv, hvw, hwx, hxy⟩ := exists_two_clients
  have hreached : Server.Reached 3 [] s := ⟨by decide, s, hs, .refl s⟩
  exact ⟨s, y, epoll_server_echoes hreached hst rfl rfl ⟨isFrame_emptyFrames, rfl⟩
    (.cons htu (.cons huv (.cons hvw (.cons hwx (.single hxy)))))⟩

/-- All clients that have not left are on their way through their frames. -/
def AllProgress (s : Server) : Prop :=
  ∀ c r, 0 < c → s.recordAt c = some r → r.socket ≠ 0 →
    ∃ pieces fs os, Frames pieces fs ∧ Progress fs pieces os r.conn

theorem AllProgress.step (hs : Consistent s) (h : AllProgress s) (hst : Serves s e t)
    (hframes : ∀ socket incoming added, e.accept = .connected socket incoming added →
      ∃ fs, Frames incoming fs) : AllProgress t := by
  obtain ⟨-, hhandled⟩ := hst.handled hs
  intro c r' hc hr' hopen'
  cases hr : s.recordAt c with
  | none =>
    -- only a socket that is accepted makes a record
    cases hhandled with
    | failed ptr answer same =>
      rw [same] at hr'
      exact absurd (hr'.symm.trans hr) (by simp)
    | @connected socket incoming added ptr answer records length clients count epollFd =>
      by_cases hnew : c = s.heap.length
      · rw [records, hnew, Function.update_self] at hr'
        cases hr'
        obtain ⟨fs, hfs⟩ := hframes socket incoming added answer
        exact ⟨incoming, fs, [], hfs, Progress.accepted (fun f hf => (hfs.1 f hf).1) hfs.2⟩
      · rw [records, Function.update_of_ne hnew] at hr'
        obtain ⟨r, hr₁, -⟩ := of_through hr'
        rw [hr] at hr₁
        cases hr₁
    | @updated r₁ conn status ptr record open_ ok stays same =>
      rw [same, recordAt_setClient record] at hr'
      have hne : c ≠ e.ptr := by
        rintro rfl
        rw [hr] at record
        cases record
      rw [Function.update_of_ne hne, hr] at hr'
      cases hr'
    | @left r₁ conn status ptr record open_ ok leaves records length clients count epollFd =>
      have hne : c ≠ e.ptr := by
        rintro rfl
        rw [hr] at record
        cases record
      rw [records, Function.update_of_ne hne] at hr'
      obtain ⟨r₂, hr₂, -⟩ := of_through hr'
      obtain ⟨r₃, hr₃, -⟩ := of_through hr₂
      rw [hr] at hr₃
      cases hr₃
  | some r =>
    by_cases hptr : c = e.ptr
    · subst hptr
      obtain ⟨conn, status, r₁, hok, hr₁, -, hconn⟩ := hhandled.own hc hr
      rw [hr'] at hr₁
      cases hr₁
      obtain ⟨r₂, hr₂, hopen⟩ := hs.watched hst.1.1
      rw [hr] at hr₂
      cases hr₂
      obtain ⟨pieces, fs, os, hfs, hprogress⟩ := h _ r hc hr hopen
      obtain ⟨conn', o, hok', hprogress'⟩ := hprogress.step hfs.1 hfs.2 e.update
      rw [observe_eq hok] at hok'
      cases hok'
      rw [hconn hopen']
      exact ⟨pieces, fs, _, hfs, hprogress'⟩
    · obtain ⟨r₁, hr₁, hconn, hsock⟩ := hhandled.other hptr hr
      rw [hr'] at hr₁
      cases hr₁
      rw [hconn]
      exact h c r hc hr (by rwa [← hsock])

/-- **No event stops the server**, if all its clients send frames, and every `accept`, `recv` and
`send` that it calls returns: their sockets are blocking. -/
theorem epoll_server_goes_on (hs : Server.Reached fd l s) (hframes : ∀ e ∈ l,
      ∀ socket incoming added, e.accept = .connected socket incoming added →
        ∃ fs, Frames incoming fs) (hp : s.Possible e) : ∃ t, s.onEvent e = .ok t := by
  have hcons := hs.consistent
  obtain ⟨hfd, s₀, h₀, hrun⟩ := hs
  obtain ⟨s₁, h₁, hs₀, -, hlen, -⟩ := startServer_eq hfd
  rw [h₀] at h₁
  cases h₁
  have hstart : AllProgress s₀ := fun c r hc hr => by
    have hlt := recordAt_lt hr
    omega
  have hall : AllProgress s := (hrun.history (P := fun l s => (∀ e ∈ l, ∀ socket incoming added,
      e.accept = .connected socket incoming added → ∃ fs, Frames incoming fs) →
        Consistent s ∧ AllProgress s) (fun _ => ⟨hs₀, hstart⟩) (fun l v e w _ hv hst hl => by
      obtain ⟨hv, hprogress⟩ := hv fun e he => hl e (List.mem_append_left _ he)
      exact ⟨(hst.handled hv).1, hprogress.step hv hst
        (hl e (List.mem_append_right _ (List.mem_singleton_self e)))⟩) hframes).2
  rcases Nat.eq_zero_or_pos e.ptr with hptr | hptr
  · obtain ⟨t, ht, -⟩ := hcons.onAccept_eq hp hptr
    exact ⟨t, (hcons.accepts hptr).trans ht⟩
  rcases hcons.event hp with ⟨f, r, -, hr, hf⟩ | ⟨t, ht, -⟩
  · obtain ⟨r₁, hr₁, hopen⟩ := hcons.watched hp.1
    rw [hr] at hr₁
    cases hr₁
    obtain ⟨pieces, fs, os, hfs, hprogress⟩ := hall _ r hptr hr hopen
    obtain ⟨conn, o, hok, -⟩ := hprogress.step hfs.1 hfs.2 e.update
    unfold observe at hok
    rw [hf] at hok
    cases hok
  · exact ⟨t, ht⟩

/-- One client sends two frames, and the other nothing. -/
theorem epoll_server_goes_on_two : ∃ s t : Server, s.onEvent (ready 1) = .ok t := by
  obtain ⟨s, t, u, v, w, x, y, hs, hst, htu, huv, hvw, -⟩ := exists_two_clients
  have hreached : Server.Reached 3 [connect 5 onePiece, connect 6 [], refused] v :=
    ⟨by decide, s, hs, .cons hst (.cons htu (.single huv))⟩
  refine ⟨v, epoll_server_goes_on hreached (fun e he => ?_) hvw.1⟩
  simp only [List.mem_cons, List.not_mem_nil, or_false] at he
  rcases he with rfl | rfl | rfl
  · rintro socket incoming added ⟨⟩
    exact ⟨emptyFrames, isFrame_emptyFrames, rfl⟩
  · rintro socket incoming added ⟨⟩
    exact ⟨[], by simp, rfl⟩
  · rintro socket incoming added ⟨⟩

end CAsync
