/-
# What the epoll server does with its clients

`Consistent` is the invariant of the records: the links agree in both directions, the first client
has nobody in front of it, and `free_clients` is empty.  From it each of the two operations on the
list has one lemma that says what it does to every record (`serverNewClient_eq`,
`serverCloseClient_eq`), and each event one that says what becomes of every connection (`Handled`).

A record is described by the function `recordAt`, and a write through a link of the list by
`through`, which does nothing where the link is NULL.  So the two operations are a few updates of a
function, one after another, and a link that is not NULL leads to a record by the invariant.

The links go from newer records to older ones (`Consistent.next` says `y < x`), since a new client
is put in front.  So a record is never its own neighbour, and `server_close_client` writes to three
different records.  The head of the list is not moved by `server_close_client`, so it may be a
record that has left; `first` therefore says of the head only that nothing is in front of it, not
that it is open.

`client_on_update` changes the connection of one record and no link (`SameLinks`), which is why the
invariant is about all of them and still one lemma for every event (`Consistent.event`).
-/
import CAsync.EpollServer
import CAsync.Lib.Links
import CAsync.Lib.Runs

namespace CAsync

open Faulting

namespace Server

variable {s t : Server} {c x y : Nat} {r : ClientRecord} {socket : Int} {incoming : List Piece}

/-! ## 1. Writing through a link -/

def recordAt (s : Server) (c : Nat) : Option ClientRecord := s.heap[c]?

@[simp] theorem client_eq_ok : s.client c = .ok r ↔ s.recordAt c = some r := by
  unfold client recordAt
  cases s.heap[c]? with
  | none => simp
  | some r' => simp

theorem recordAt_lt (hr : s.recordAt c = some r) : c < s.heap.length :=
  (List.getElem?_eq_some_iff.mp hr).1

theorem recordAt_setClient {r' : ClientRecord} (hr : s.recordAt c = some r') :
    (s.setClient c r).recordAt = Function.update s.recordAt c (some r) := by
  funext x
  unfold recordAt setClient
  by_cases hx : x = c
  · subst hx
    rw [Function.update_self, List.getElem?_set_self (recordAt_lt hr)]
  · rw [Function.update_of_ne hx, List.getElem?_set_ne (Ne.symm hx)]

theorem recordAt_push (s : Server) (r : ClientRecord) {t : Server} (ht : t.heap = s.heap ++ [r]) :
    t.recordAt = Function.update s.recordAt s.heap.length (some r) := by
  funext x
  unfold recordAt
  rw [ht]
  rcases Nat.lt_trichotomy x s.heap.length with hlt | rfl | hlt
  · rw [Function.update_of_ne (Nat.ne_of_lt hlt), List.getElem?_append_left hlt]
  · rw [Function.update_self, List.getElem?_concat_length]
  · have hlen : (s.heap ++ [r]).length ≤ x := by
      rw [List.length_append]
      exact hlt
    rw [Function.update_of_ne (Nat.ne_of_gt hlt)]
    exact (List.getElem?_eq_none hlen).trans (List.getElem?_eq_none (Nat.le_of_lt hlt)).symm

/-- Only records differ. -/
structure SameServer (s t : Server) : Prop where
  length : t.heap.length = s.heap.length
  clients : t.clients = s.clients
  freeClients : t.freeClients = s.freeClients
  acceptSocket : t.acceptSocket = s.acceptSocket
  count : t.currentClientCnt = s.currentClientCnt
  epollFd : t.epollFd = s.epollFd

theorem SameServer.refl (s : Server) : SameServer s s := ⟨rfl, rfl, rfl, rfl, rfl, rfl⟩

theorem SameServer.trans {u : Server} (h : SameServer s t) (h' : SameServer t u) :
    SameServer s u :=
  ⟨h'.length.trans h.length, h'.clients.trans h.clients, h'.freeClients.trans h.freeClients,
    h'.acceptSocket.trans h.acceptSocket, h'.count.trans h.count, h'.epollFd.trans h.epollFd⟩

theorem SameServer.setClient (s : Server) (c : Nat) (r : ClientRecord) :
    SameServer s (s.setClient c r) := ⟨List.length_set, rfl, rfl, rfl, rfl, rfl⟩

/-- The record that a link goes to is changed by `f`, if there is one. -/
def through (link : Option Nat) (f : ClientRecord → ClientRecord) (m : Nat → Option ClientRecord)
    (x : Nat) : Option ClientRecord :=
  (m x).map fun r => if link = some x then f r else r

theorem through_none (f : ClientRecord → ClientRecord) (m : Nat → Option ClientRecord) :
    through none f m = m := by
  funext x
  unfold through
  simp

theorem through_some {f : ClientRecord → ClientRecord} {m : Nat → Option ClientRecord} {n : Nat}
    (hn : m n = some r) : through (some n) f m = Function.update m n (some (f r)) := by
  funext x
  unfold through
  by_cases hx : x = n
  · subst hx
    rw [Function.update_self, hn, Option.map_some, if_pos rfl]
  · have hne : some n ≠ some x := by simpa using Ne.symm hx
    rw [Function.update_of_ne hx]
    simp [hne]

theorem through_eq {link : Option Nat} {f : ClientRecord → ClientRecord}
    {m : Nat → Option ClientRecord} (hx : m x = some r) :
    through link f m x = some (if link = some x then f r else r) := by
  unfold through
  rw [hx, Option.map_some]

/-- A link to another record. -/
theorem through_update {link : Option Nat} {m : Nat → Option ClientRecord} {v : Option ClientRecord}
    (f : ClientRecord → ClientRecord) (hlink : ∀ n, link = some n → n ≠ c ∧ ∃ r, m n = some r) :
    through link f (Function.update m c v) = Function.update (through link f m) c v := by
  cases link with
  | none => rw [through_none, through_none]
  | some n =>
    obtain ⟨hne, r, hr⟩ := hlink n rfl
    rw [through_some (r := r) (by rw [Function.update_of_ne hne, hr]), through_some hr,
      Function.update_comm (Ne.symm hne)]

theorem linkFirst_eq (s : Server) (link : Option Nat)
    (hlink : ∀ n, link = some n → ∃ r, s.recordAt n = some r ∧ r.prev = none) (c : Nat) :
    ∃ t, s.linkFirst link c = .ok t ∧
      t.recordAt = through link (fun r => { r with prev := some c }) s.recordAt ∧
      SameServer s t := by
  cases link with
  | none => exact ⟨s, rfl, (through_none _ _).symm, .refl s⟩
  | some n =>
    obtain ⟨r, hr, hprev⟩ := hlink n rfl
    refine ⟨s.setClient n { r with prev := some c }, ?_, ?_, .setClient _ _ _⟩
    · unfold linkFirst
      dsimp only
      rw [client_eq_ok.mpr hr, ok_bind, require_of hprev, ok_bind]
    · rw [recordAt_setClient hr, through_some hr]

theorem setNext_eq (s : Server) (link : Option Nat)
    (hlink : ∀ n, link = some n → (s.recordAt n).isSome)
    (next : Option Nat) : ∃ t, s.setNext link next = .ok t ∧
      t.recordAt = through link (fun r => { r with next := next }) s.recordAt ∧ SameServer s t := by
  cases link with
  | none => exact ⟨s, rfl, (through_none _ _).symm, .refl s⟩
  | some n =>
    obtain ⟨r, hr⟩ := Option.isSome_iff_exists.mp (hlink n rfl)
    refine ⟨s.setClient n { r with next := next }, ?_, ?_, .setClient _ _ _⟩
    · unfold setNext
      dsimp only
      rw [client_eq_ok.mpr hr, ok_bind]
    · rw [recordAt_setClient hr, through_some hr]

theorem setPrev_eq (s : Server) (link : Option Nat)
    (hlink : ∀ n, link = some n → (s.recordAt n).isSome)
    (prev : Option Nat) : ∃ t, s.setPrev link prev = .ok t ∧
      t.recordAt = through link (fun r => { r with prev := prev }) s.recordAt ∧ SameServer s t := by
  cases link with
  | none => exact ⟨s, rfl, (through_none _ _).symm, .refl s⟩
  | some n =>
    obtain ⟨r, hr⟩ := Option.isSome_iff_exists.mp (hlink n rfl)
    refine ⟨s.setClient n { r with prev := prev }, ?_, ?_, .setClient _ _ _⟩
    · unfold setPrev
      dsimp only
      rw [client_eq_ok.mpr hr, ok_bind]
    · rw [recordAt_setClient hr, through_some hr]

/-! ## 2. The two operations on the list -/

/-- The records agree with each other, and with what the operating system knows. -/
structure Consistent (s : Server) : Prop where
  free : s.freeClients = none
  first : ∀ c, s.clients = some c → ∃ r, s.recordAt c = some r ∧ r.prev = none
  next : ∀ {x y r}, s.recordAt x = some r → r.next = some y →
    y < x ∧ ∃ r', s.recordAt y = some r' ∧ r'.prev = some x
  prev : ∀ {x y r}, s.recordAt y = some r → r.prev = some x →
    ∃ r', s.recordAt x = some r' ∧ r'.next = some y
  nonzero : s.acceptSocket ≠ 0
  accept : ∃ r, s.recordAt 0 = some r ∧ r.socket = s.acceptSocket
  others : ∀ {c r}, 0 < c → s.recordAt c = some r → r.socket ≠ s.acceptSocket
  watched : ∀ {c}, c ∈ s.epollFd → ∃ r, s.recordAt c = some r ∧ r.socket ≠ 0

namespace Consistent

/-- The neighbours of a record are other records. -/
theorem prev_ne (hs : Consistent s) (hr : s.recordAt c = some r) :
    ∀ p, r.prev = some p → p ≠ c ∧ ∃ rp, s.recordAt p = some rp := fun p hp => by
  obtain ⟨rp, hrp, hnext⟩ := hs.prev hr hp
  exact ⟨Nat.ne_of_gt (hs.next hrp hnext).1, rp, hrp⟩

theorem next_ne (hs : Consistent s) (hr : s.recordAt c = some r) :
    ∀ n, r.next = some n → n ≠ c ∧ ∃ rn, s.recordAt n = some rn := fun n hn => by
  obtain ⟨hlt, rn, hrn, -⟩ := hs.next hr hn
  exact ⟨Nat.ne_of_lt hlt, rn, hrn⟩

/-- The writes of `server_close_client` to the neighbours do not touch the record. -/
theorem bypass_update (hs : Consistent s) (hr : s.recordAt c = some r) (v : Option ClientRecord) :
    through r.next (fun y => { y with prev := r.prev })
        (through r.prev (fun y => { y with next := r.next }) (Function.update s.recordAt c v)) =
      Function.update (through r.next (fun y => { y with prev := r.prev })
        (through r.prev (fun y => { y with next := r.next }) s.recordAt)) c v := by
  rw [through_update _ (hs.prev_ne hr), through_update]
  intro n hn
  obtain ⟨hne, rn, hrn⟩ := hs.next_ne hr n hn
  exact ⟨hne, _, through_eq hrn⟩

end Consistent

/-- The record that `server_new_client` makes. -/
def newClient (s : Server) (socket : Int) (incoming : List Piece) : ClientRecord :=
  { zeroClient incoming with socket := socket, next := s.clients }

/-- **`server_new_client`** makes a new record, in front of the first one. -/
theorem serverNewClient_eq (hfree : s.freeClients = none)
    (hfirst : ∀ c, s.clients = some c → ∃ r, s.recordAt c = some r ∧ r.prev = none)
    (socket : Int) (incoming : List Piece) :
    ∃ t, s.serverNewClient socket incoming = .ok (t, s.heap.length) ∧
      t.recordAt = Function.update
        (through s.clients (fun r => { r with prev := some s.heap.length }) s.recordAt)
        s.heap.length (some (s.newClient socket incoming)) ∧
      t.heap.length = s.heap.length + 1 ∧ t.clients = some s.heap.length ∧ t.freeClients = none ∧
      t.acceptSocket = s.acceptSocket ∧ t.currentClientCnt = s.currentClientCnt ∧
      t.epollFd = s.epollFd := by
  let new := s.heap.length
  let r₁ : ClientRecord := { zeroClient incoming with next := s.clients }
  let a : Server :=
    { s with clients := some new, freeClients := none, heap := s.heap ++ [zeroClient []] }
  let b := a.setClient new r₁
  have hb : b.recordAt = Function.update s.recordAt new (some r₁) := by
    have ha := recordAt_push s (zeroClient []) (show a.heap = s.heap ++ [zeroClient []] from rfl)
    have hnew : a.recordAt new = some (zeroClient []) := by rw [ha, Function.update_self]
    rw [recordAt_setClient hnew, ha, Function.update_idem]
  have hne : ∀ n, s.clients = some n → n ≠ new := fun n hn => by
    obtain ⟨r, hr, -⟩ := hfirst n hn
    exact Nat.ne_of_lt (recordAt_lt hr)
  obtain ⟨d, hd, hdrec, hsame⟩ := linkFirst_eq b s.clients (fun n hn => by
    obtain ⟨r, hr, hprev⟩ := hfirst n hn
    exact ⟨r, by rw [hb, Function.update_of_ne (hne n hn), hr], hprev⟩) new
  have hdrec : d.recordAt = Function.update
      (through s.clients (fun r => { r with prev := some new }) s.recordAt) new (some r₁) := by
    rw [hdrec, hb, through_update]
    intro n hn
    obtain ⟨r, hr, -⟩ := hfirst n hn
    exact ⟨hne n hn, r, hr⟩
  have hdnew : d.recordAt new = some r₁ := by rw [hdrec, Function.update_self]
  have hlen : d.heap.length = new + 1 := by
    rw [hsame.length]
    change ((s.heap ++ [zeroClient []]).set new r₁).length = new + 1
    rw [List.length_set, List.length_append]
    rfl
  refine ⟨d.setClient new { r₁ with socket := socket }, ?_, ?_, ?_, hsame.clients,
    hsame.freeClients, hsame.acceptSocket, hsame.count, hsame.epollFd⟩
  · unfold serverNewClient takeClient
    rw [hfree]
    change (b.linkFirst s.clients new >>= fun s => s.client new >>= fun r =>
      .ok (s.setClient new { r with socket := socket }, new)) = _
    rw [hd, ok_bind, client_eq_ok.mpr hdnew, ok_bind]
  · rw [recordAt_setClient hdnew, hdrec, Function.update_idem]
    rfl
  · exact List.length_set.trans hlen

/-- The record that `server_close_client` leaves. -/
def closedClient (r : ClientRecord) : ClientRecord :=
  { deinitMsg r with next := none, prev := none, socket := 0 }

/-- **`server_close_client`** joins the neighbours of the record, and nothing else: the record is
not in the list `free_clients` afterwards, and `clients` is not changed. -/
theorem serverCloseClient_eq (hs : Consistent s) (hr : s.recordAt c = some r) :
    ∃ t, s.serverCloseClient c = .ok t ∧
      t.recordAt = Function.update (through r.next (fun y => { y with prev := r.prev })
        (through r.prev (fun y => { y with next := r.next }) s.recordAt)) c
        (some (closedClient r)) ∧
      t.heap.length = s.heap.length ∧ t.clients = s.clients ∧ t.freeClients = none ∧
      t.acceptSocket = s.acceptSocket ∧ t.currentClientCnt = s.currentClientCnt ∧
      t.epollFd = s.epollFd.filter (· ≠ c) := by
  let a := { s with epollFd := s.epollFd.filter (· ≠ c) }.setClient c (deinitMsg r)
  have ha : a.recordAt = Function.update s.recordAt c (some (deinitMsg r)) :=
    recordAt_setClient (s := { s with epollFd := s.epollFd.filter (· ≠ c) }) hr
  have hthere : ∀ {m : Nat → Option ClientRecord} {n : Nat}, (∃ r', m n = some r') → n ≠ c →
      (Function.update m c (some (deinitMsg r)) n).isSome := by
    rintro m n ⟨r', hr'⟩ hne
    rw [Function.update_of_ne hne, hr']
    rfl
  obtain ⟨b, hb, hbrec, hsameb⟩ := setNext_eq a r.prev (fun p hp => by
    obtain ⟨hne, hrp⟩ := hs.prev_ne hr p hp
    rw [ha]
    exact hthere hrp hne) r.next
  obtain ⟨d, hd, hdrec, hsamed⟩ := setPrev_eq b r.next (fun n hn => by
    obtain ⟨hne, rn, hrn⟩ := hs.next_ne hr n hn
    rw [hbrec, ha, through_update _ (hs.prev_ne hr)]
    exact hthere ⟨_, through_eq hrn⟩ hne) r.prev
  rw [hbrec, ha, hs.bypass_update hr] at hdrec
  have hdc : d.recordAt c = some (deinitMsg r) := by rw [hdrec, Function.update_self]
  have hsame := hsameb.trans hsamed
  have hfree : d.freeClients = none := hsame.freeClients.trans hs.free
  refine ⟨d.setClient c (closedClient r), ?_, ?_, ?_, hsame.clients, hfree, hsame.acceptSocket,
    hsame.count, hsame.epollFd⟩
  · unfold serverCloseClient
    rw [client_eq_ok.mpr hr, ok_bind]
    change (a.setNext r.prev r.next >>= fun s => s.setPrev r.next r.prev >>= fun s =>
      s.client c >>= fun r => .ok (s.setClient c
        { r with next := s.freeClients, prev := none, socket := 0 })) = _
    rw [hb, ok_bind, hd, ok_bind, client_eq_ok.mpr hdc, ok_bind, hfree]
    rfl
  · rw [recordAt_setClient hdc, hdrec, Function.update_idem]
  · exact List.length_set.trans (hsame.length.trans List.length_set)

/-! ## 3. The records stay consistent -/

/-- What a write through a link does to a record, seen from the record. -/
theorem of_through {link : Option Nat} {f : ClientRecord → ClientRecord}
    {m : Nat → Option ClientRecord} (hx : through link f m x = some r) :
    ∃ r', m x = some r' ∧ r = if link = some x then f r' else r' := by
  unfold through at hx
  obtain ⟨r', hr', rfl⟩ := Option.map_eq_some_iff.mp hx
  exact ⟨r', hr', rfl⟩

/-- A change of the records that keeps the links and the sockets. -/
structure SameLinks (s t : Server) : Prop where
  same : SameServer s t
  forth : ∀ {x r}, s.recordAt x = some r → ∃ r', t.recordAt x = some r' ∧ r'.next = r.next ∧
    r'.prev = r.prev ∧ r'.socket = r.socket
  back : ∀ {x r}, t.recordAt x = some r → ∃ r', s.recordAt x = some r' ∧ r'.next = r.next ∧
    r'.prev = r.prev ∧ r'.socket = r.socket

namespace Consistent

theorem sameLinks (hs : Consistent s) (h : SameLinks s t) : Consistent t := by
  refine ⟨h.same.freeClients.trans hs.free, fun c hc => ?_, fun {x y r} hr hnext => ?_,
    fun {x y r} hr hprev => ?_, ?_, ?_, fun {c r} hc hr => ?_, fun {c} hc => ?_⟩
  · obtain ⟨r, hr, hprev⟩ := hs.first c (h.same.clients ▸ hc)
    obtain ⟨r', hr', -, hprev', -⟩ := h.forth hr
    exact ⟨r', hr', hprev'.trans hprev⟩
  · obtain ⟨r₁, hr₁, hnext₁, -, -⟩ := h.back hr
    obtain ⟨hlt, r₂, hr₂, hprev₂⟩ := hs.next hr₁ (hnext₁.trans hnext)
    obtain ⟨r', hr', -, hprev', -⟩ := h.forth hr₂
    exact ⟨hlt, r', hr', hprev'.trans hprev₂⟩
  · obtain ⟨r₁, hr₁, -, hprev₁, -⟩ := h.back hr
    obtain ⟨r₂, hr₂, hnext₂⟩ := hs.prev hr₁ (hprev₁.trans hprev)
    obtain ⟨r', hr', hnext', -, -⟩ := h.forth hr₂
    exact ⟨r', hr', hnext'.trans hnext₂⟩
  · rw [h.same.acceptSocket]
    exact hs.nonzero
  · obtain ⟨r, hr, hsock⟩ := hs.accept
    obtain ⟨r', hr', -, -, hsock'⟩ := h.forth hr
    exact ⟨r', hr', by rw [hsock', hsock, h.same.acceptSocket]⟩
  · obtain ⟨r₁, hr₁, -, -, hsock₁⟩ := h.back hr
    rw [← hsock₁, h.same.acceptSocket]
    exact hs.others hc hr₁
  · rw [h.same.epollFd] at hc
    obtain ⟨r, hr, hsock⟩ := hs.watched hc
    obtain ⟨r', hr', -, -, hsock'⟩ := h.forth hr
    exact ⟨r', hr', by rwa [hsock']⟩

theorem pos (hs : Consistent s) : 0 < s.heap.length := by
  obtain ⟨r, hr, -⟩ := hs.accept
  exact recordAt_lt hr

/-- After `server_new_client`. -/
theorem pushed (hs : Consistent s) (hzero : socket ≠ 0) (hsocket : socket ≠ s.acceptSocket)
    (hrec : t.recordAt = Function.update
      (through s.clients (fun r => { r with prev := some s.heap.length }) s.recordAt)
      s.heap.length (some (s.newClient socket incoming)))
    (hclients : t.clients = some s.heap.length) (hfree : t.freeClients = none)
    (haccept : t.acceptSocket = s.acceptSocket)
    (hwatched : ∀ c ∈ t.epollFd, c = s.heap.length ∨ c ∈ s.epollFd) : Consistent t := by
  have hold : ∀ {x r}, s.recordAt x = some r → t.recordAt x = some
      (if s.clients = some x then { r with prev := some s.heap.length } else r) := by
    intro x r hr
    rw [hrec, Function.update_of_ne (Nat.ne_of_lt (recordAt_lt hr)), through_eq hr]
  have hnew : t.recordAt s.heap.length = some (s.newClient socket incoming) := by
    rw [hrec, Function.update_self]
  have hof : ∀ {x r}, t.recordAt x = some r →
      x = s.heap.length ∧ r = s.newClient socket incoming ∨
      ∃ r', s.recordAt x = some r' ∧
        r = if s.clients = some x then { r' with prev := some s.heap.length } else r' := by
    intro x r hr
    by_cases hx : x = s.heap.length
    · subst hx
      rw [hnew] at hr
      cases hr
      exact .inl ⟨rfl, rfl⟩
    · rw [hrec, Function.update_of_ne hx] at hr
      exact .inr (of_through hr)
  refine ⟨hfree, fun c hc => ?_, fun {x y r} hr hnext => ?_, fun {x y r} hr hprev => ?_, ?_, ?_,
    fun {c r} hc hr => ?_, fun {c} hc => ?_⟩
  · rw [hclients] at hc
    cases hc
    exact ⟨_, hnew, rfl⟩
  · rcases hof hr with ⟨rfl, rfl⟩ | ⟨r', hr', rfl⟩
    · obtain ⟨r₁, hr₁, -⟩ := hs.first y hnext
      refine ⟨recordAt_lt hr₁, _, hold hr₁, ?_⟩
      rw [if_pos (show s.clients = some y from hnext)]
    · have hnext' : r'.next = some y := by
        split at hnext <;> exact hnext
      obtain ⟨hlt, r₁, hr₁, hprev₁⟩ := hs.next hr' hnext'
      refine ⟨hlt, _, hold hr₁, ?_⟩
      rw [if_neg]
      · exact hprev₁
      · intro hy
        obtain ⟨r₂, hr₂, hprev₂⟩ := hs.first y hy
        rw [hr₁] at hr₂
        cases hr₂
        rw [hprev₁] at hprev₂
        cases hprev₂
  · rcases hof hr with ⟨rfl, rfl⟩ | ⟨r', hr', rfl⟩
    · cases hprev
    · by_cases hy : s.clients = some y
      · rw [if_pos hy] at hprev
        cases hprev
        exact ⟨_, hnew, hy⟩
      · rw [if_neg hy] at hprev
        obtain ⟨r₁, hr₁, hnext₁⟩ := hs.prev hr' hprev
        refine ⟨_, hold hr₁, ?_⟩
        split <;> exact hnext₁
  · rw [haccept]
    exact hs.nonzero
  · obtain ⟨r, hr, hsock⟩ := hs.accept
    refine ⟨_, hold hr, ?_⟩
    rw [haccept]
    split <;> exact hsock
  · rw [haccept]
    rcases hof hr with ⟨-, rfl⟩ | ⟨r', hr', rfl⟩
    · exact hsocket
    · have hother := hs.others hc hr'
      split <;> exact hother
  · rcases hwatched c hc with rfl | hc
    · exact ⟨_, hnew, hzero⟩
    · obtain ⟨r, hr, hsock⟩ := hs.watched hc
      refine ⟨_, hold hr, ?_⟩
      split <;> exact hsock

/-- After `server_close_client`. -/
theorem closed (hs : Consistent s) (hc : 0 < c) (hr : s.recordAt c = some r)
    (hrec : t.recordAt = Function.update (through r.next (fun y => { y with prev := r.prev })
      (through r.prev (fun y => { y with next := r.next }) s.recordAt)) c (some (closedClient r)))
    (hclients : t.clients = s.clients) (hfree : t.freeClients = none)
    (haccept : t.acceptSocket = s.acceptSocket)
    (hwatched : t.epollFd = s.epollFd.filter (· ≠ c)) : Consistent t := by
  have hself : t.recordAt c = some (closedClient r) := by rw [hrec, Function.update_self]
  -- the links of the others that went to `c` go past it
  have hold : ∀ {x y}, x ≠ c → s.recordAt x = some y → ∃ z, t.recordAt x = some z ∧
      z.socket = y.socket ∧ z.next = (if r.prev = some x then r.next else y.next) ∧
      z.prev = (if r.next = some x then r.prev else y.prev) := by
    intro x y hx hy
    refine ⟨_, by rw [hrec, Function.update_of_ne hx, through_eq (through_eq hy)], ?_, ?_, ?_⟩
    · split <;> split <;> rfl
    · split <;> split <;> rfl
    · split <;> split <;> rfl
  have hof : ∀ {x z}, t.recordAt x = some z → x = c ∧ z = closedClient r ∨ x ≠ c ∧
      ∃ y, s.recordAt x = some y ∧ z.socket = y.socket ∧
        z.next = (if r.prev = some x then r.next else y.next) ∧
        z.prev = (if r.next = some x then r.prev else y.prev) := by
    intro x z hz
    by_cases hx : x = c
    · subst hx
      rw [hself] at hz
      cases hz
      exact .inl ⟨rfl, rfl⟩
    · rw [hrec, Function.update_of_ne hx] at hz
      obtain ⟨y₁, hy₁, rfl⟩ := of_through hz
      obtain ⟨y, hy, rfl⟩ := of_through hy₁
      refine .inr ⟨hx, y, hy, ?_, ?_, ?_⟩
      · split <;> split <;> rfl
      · split <;> split <;> rfl
      · split <;> split <;> rfl
  refine ⟨hfree, fun d hd => ?_, fun {x y z} hz hnext => ?_, fun {x y z} hz hprev => ?_, ?_, ?_,
    fun {d z} hd hz => ?_, fun {d} hd => ?_⟩
  · obtain ⟨y, hy, hprev⟩ := hs.first d (hclients ▸ hd)
    by_cases hdc : d = c
    · exact ⟨_, hdc ▸ hself, rfl⟩
    · obtain ⟨z, hz, -, -, hprev'⟩ := hold hdc hy
      refine ⟨z, hz, ?_⟩
      rw [hprev', if_neg, hprev]
      intro hn
      obtain ⟨-, y', hy', hprev''⟩ := hs.next hr hn
      rw [hy] at hy'
      cases hy'
      rw [hprev] at hprev''
      cases hprev''
  · rcases hof hz with ⟨rfl, rfl⟩ | ⟨hx, w, hw, -, hnext', -⟩
    · cases hnext
    rw [hnext'] at hnext
    by_cases hp : r.prev = some x
    · rw [if_pos hp] at hnext
      obtain ⟨hlt, y', hy', hprev''⟩ := hs.next hr hnext
      obtain ⟨z', hz', -, -, hprev'⟩ := hold (Nat.ne_of_lt hlt) hy'
      obtain ⟨w', hw', hnextw⟩ := hs.prev hr hp
      refine ⟨hlt.trans (hs.next hw' hnextw).1, z', hz', ?_⟩
      rw [hprev', if_pos hnext, hp]
    · rw [if_neg hp] at hnext
      obtain ⟨hlt, y', hy', hprev''⟩ := hs.next hw hnext
      have hy : y ≠ c := by
        rintro rfl
        rw [hr] at hy'
        cases hy'
        exact hp hprev''
      obtain ⟨z', hz', -, -, hprev'⟩ := hold hy hy'
      refine ⟨hlt, z', hz', ?_⟩
      rw [hprev', if_neg, hprev'']
      intro hn
      obtain ⟨-, y'', hy'', hprevc⟩ := hs.next hr hn
      rw [hy'] at hy''
      cases hy''
      rw [hprev''] at hprevc
      cases hprevc
      exact hx rfl
  · rcases hof hz with ⟨rfl, rfl⟩ | ⟨hy, w, hw, -, -, hprev'⟩
    · cases hprev
    rw [hprev'] at hprev
    by_cases hn : r.next = some y
    · rw [if_pos hn] at hprev
      obtain ⟨w', hw', hnext'⟩ := hs.prev hr hprev
      have hx : x ≠ c := Nat.ne_of_gt (hs.next hw' hnext').1
      obtain ⟨z', hz', -, hnextz, -⟩ := hold hx hw'
      refine ⟨z', hz', ?_⟩
      rw [hnextz, if_pos hprev, hn]
    · rw [if_neg hn] at hprev
      obtain ⟨w', hw', hnext'⟩ := hs.prev hw hprev
      have hx : x ≠ c := by
        rintro rfl
        rw [hr] at hw'
        cases hw'
        exact hn hnext'
      obtain ⟨z', hz', -, hnextz, -⟩ := hold hx hw'
      refine ⟨z', hz', ?_⟩
      rw [hnextz, if_neg, hnext']
      intro hp
      obtain ⟨w'', hw'', hnextc⟩ := hs.prev hr hp
      rw [hw'] at hw''
      cases hw''
      rw [hnext'] at hnextc
      cases hnextc
      exact hy rfl
  · rw [haccept]
    exact hs.nonzero
  · obtain ⟨y, hy, hsock⟩ := hs.accept
    obtain ⟨z, hz, hsock', -, -⟩ := hold (Nat.ne_of_lt hc) hy
    exact ⟨z, hz, by rw [hsock', hsock, haccept]⟩
  · rw [haccept]
    rcases hof hz with ⟨rfl, rfl⟩ | ⟨-, w, hw, hsock, -, -⟩
    · exact Ne.symm hs.nonzero
    · rw [hsock]
      exact hs.others hd hw
  · rw [hwatched, List.mem_filter] at hd
    obtain ⟨y, hy, hsock⟩ := hs.watched hd.1
    obtain ⟨z, hz, hsock', -, -⟩ := hold (by simpa using hd.2) hy
    exact ⟨z, hz, by rwa [hsock']⟩

end Consistent

/-! ## 4. One event -/

/-- **What an event does**: a socket is accepted or not, or a client is updated, and may leave. -/
inductive Handled (s : Server) (e : Event) (t : Server) : Prop
  | failed (ptr : e.ptr = 0) (answer : e.accept = .failed)
      (same : t = { s with currentClientCnt := s.currentClientCnt + 1 }) : Handled s e t
  | connected {socket : Int} {incoming : List Piece} {added : Bool} (ptr : e.ptr = 0)
      (answer : e.accept = .connected socket incoming added)
      (records : t.recordAt = Function.update
        (through s.clients (fun r => { r with prev := some s.heap.length }) s.recordAt)
        s.heap.length (some (s.newClient socket incoming)))
      (length : t.heap.length = s.heap.length + 1) (clients : t.clients = some s.heap.length)
      (count : t.currentClientCnt = s.currentClientCnt + 1)
      (epollFd : t.epollFd = if added then s.heap.length :: s.epollFd else s.epollFd) :
      Handled s e t
  | updated {r : ClientRecord} {conn : Connection} {status : Int} (ptr : 0 < e.ptr)
      (record : s.recordAt e.ptr = some r) (open_ : r.socket ≠ 0)
      (ok : clientOnUpdate r.conn e.update = .ok (conn, status))
      (stays : status ≠ -1 ∧ e.hangup = false)
      (same : t = s.setClient e.ptr { r with conn := conn }) : Handled s e t
  | left {r : ClientRecord} {conn : Connection} {status : Int} (ptr : 0 < e.ptr)
      (record : s.recordAt e.ptr = some r) (open_ : r.socket ≠ 0)
      (ok : clientOnUpdate r.conn e.update = .ok (conn, status))
      (leaves : status = -1 ∨ e.hangup = true)
      (records : t.recordAt = Function.update (through r.next (fun y => { y with prev := r.prev })
        (through r.prev (fun y => { y with next := r.next }) s.recordAt)) e.ptr
        (some (closedClient { r with conn := conn })))
      (length : t.heap.length = s.heap.length) (clients : t.clients = s.clients)
      (count : t.currentClientCnt = s.currentClientCnt - 1)
      (epollFd : t.epollFd = s.epollFd.filter (· ≠ e.ptr)) : Handled s e t

variable {e : Event}

theorem SameLinks.setClient (hr : s.recordAt c = some r) (conn : Connection) :
    SameLinks s (s.setClient c { r with conn := conn }) := by
  have hrec := recordAt_setClient (r := { r with conn := conn }) hr
  refine ⟨.setClient _ _ _, fun {x y} hy => ?_, fun {x y} hy => ?_⟩
  · rw [hrec]
    by_cases hx : x = c
    · subst hx
      rw [hr] at hy
      cases hy
      exact ⟨_, Function.update_self _ _ _, rfl, rfl, rfl⟩
    · rw [Function.update_of_ne hx]
      exact ⟨y, hy, rfl, rfl, rfl⟩
  · rw [hrec] at hy
    by_cases hx : x = c
    · subst hx
      rw [Function.update_self] at hy
      cases hy
      exact ⟨r, hr, rfl, rfl, rfl⟩
    · rw [Function.update_of_ne hx] at hy
      exact ⟨y, hy, rfl, rfl, rfl⟩

namespace Consistent

/-- An event of the socket that accepts. -/
theorem accepts (hs : Consistent s) (hptr : e.ptr = 0) : s.onEvent e = s.onAccept e.accept := by
  obtain ⟨r, hr, hsock⟩ := hs.accept
  unfold onEvent
  rw [hptr, client_eq_ok.mpr hr, ok_bind, if_pos hsock]

theorem onAccept_eq (hs : Consistent s) (hp : s.Possible e) (hptr : e.ptr = 0) :
    ∃ t, s.onAccept e.accept = .ok t ∧ Consistent t ∧ Handled s e t := by
  let s₁ : Server := { s with currentClientCnt := s.currentClientCnt + 1 }
  have hs₁ : Consistent s₁ :=
    ⟨hs.free, hs.first, hs.next, hs.prev, hs.nonzero, hs.accept, hs.others, hs.watched⟩
  cases ha : e.accept with
  | failed => exact ⟨s₁, rfl, hs₁, .failed hptr ha rfl⟩
  | connected socket incoming added =>
    obtain ⟨hzero, hsocket⟩ := hp.2 socket incoming added ha
    obtain ⟨u, hu, hrec, hlen, hclients, hfree, haccept, hcount, hwatched⟩ :=
      serverNewClient_eq hs₁.free hs₁.first socket incoming
    unfold onAccept
    change ∃ t, (s₁.serverNewClient socket incoming >>= fun x =>
      if added = true then .ok { x.1 with epollFd := x.2 :: x.1.epollFd } else .ok x.1) = .ok t ∧ _
    rw [hu, ok_bind]
    by_cases hadded : added = true
    · rw [if_pos hadded]
      refine ⟨_, rfl, ?_, .connected hptr ha hrec hlen hclients hcount ?_⟩
      · refine hs₁.pushed hzero hsocket hrec hclients hfree haccept fun c hc => ?_
        rcases List.mem_cons.mp hc with rfl | hc
        · exact .inl rfl
        · exact .inr (hwatched ▸ hc)
      · rw [if_pos hadded, hwatched]
    · rw [if_neg hadded]
      refine ⟨_, rfl, ?_, .connected hptr ha hrec hlen hclients hcount ?_⟩
      · exact hs₁.pushed hzero hsocket hrec hclients hfree haccept fun c hc => .inr (hwatched ▸ hc)
      · rw [if_neg hadded, hwatched]

/-- An event of a client. -/
theorem updates (hs : Consistent s) (hptr : 0 < e.ptr) (hr : s.recordAt e.ptr = some r)
    (hopen : r.socket ≠ 0) : s.onEvent e = (do
      let (s, status) ← s.updateClient e.ptr r e.update
      if status = -1 ∨ e.hangup then do
        let s ← s.serverCloseClient e.ptr
        .ok { s with currentClientCnt := s.currentClientCnt - 1 }
      else .ok s) := by
  unfold onEvent
  rw [client_eq_ok.mpr hr, ok_bind, if_neg (hs.others hptr hr), require_of hopen, ok_bind]

/-- **One event**: the server goes on, unless `client_on_update` faults on what
the client has sent. -/
theorem event (hs : Consistent s) (hp : s.Possible e) :
    (∃ f r, s.onEvent e = .error (.update f) ∧ s.recordAt e.ptr = some r ∧
      clientOnUpdate r.conn e.update = .error f) ∨
    ∃ t, s.onEvent e = .ok t ∧ Consistent t ∧ Handled s e t := by
  rcases Nat.eq_zero_or_pos e.ptr with hptr | hptr
  · rw [hs.accepts hptr]
    exact .inr (hs.onAccept_eq hp hptr)
  obtain ⟨r, hr, hopen⟩ := hs.watched hp.1
  rw [hs.updates hptr hr hopen]
  unfold updateClient
  cases hup : clientOnUpdate r.conn e.update with
  | error f => exact .inl ⟨f, r, rfl, hr, hup⟩
  | ok x =>
    obtain ⟨conn, status⟩ := x
    refine .inr ?_
    dsimp only
    rw [ok_bind]
    have hlinks := SameLinks.setClient hr conn
    have hs₁ := hs.sameLinks hlinks
    have hr₁ : (s.setClient e.ptr { r with conn := conn }).recordAt e.ptr =
        some { r with conn := conn } := by
      rw [recordAt_setClient hr, Function.update_self]
    by_cases hleaves : status = -1 ∨ e.hangup = true
    · rw [if_pos hleaves]
      obtain ⟨t, ht, hrec, hlen, hclients, hfree, haccept, hcount, hwatched⟩ :=
        serverCloseClient_eq hs₁ hr₁
      rw [ht, ok_bind]
      have hclosed := hs₁.closed hptr hr₁ hrec hclients hfree haccept hwatched
      refine ⟨_, rfl, ⟨hclosed.free, hclosed.first, hclosed.next, hclosed.prev, hclosed.nonzero,
        hclosed.accept, hclosed.others, hclosed.watched⟩, .left hptr hr hopen hup hleaves ?_
        (hlen.trans hlinks.same.length) hclients ?_ hwatched⟩
      · have hrec' := hrec
        rw [recordAt_setClient hr, hs.bypass_update hr, Function.update_idem] at hrec'
        exact hrec'
      · rw [hcount]
        rfl
    · rw [if_neg hleaves]
      refine ⟨_, rfl, hs₁, .updated hptr hr hopen hup ?_ rfl⟩
      rw [not_or] at hleaves
      exact ⟨hleaves.1, by simpa using hleaves.2⟩

end Consistent

end Server
end CAsync
