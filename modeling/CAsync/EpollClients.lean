/-
# Which clients the epoll server still has

`server_close_client` does not move the head of the list `clients`, and does not put the record on
the list `free_clients`.  So records are never used again and never freed, and when the first client
leaves, the list ends at its record: the clients behind it are no longer on it, and never will be
(`epoll_clients_lost`).  They are served all the same, since `epoll_wait` reports their addresses.

The list is described by `h`, the last record on it: 0, or a first client that has left.
-/
import CAsync.EpollIsolation

namespace CAsync

open Faulting

namespace Server

variable {s t : Server} {c h x : Nat} {r : ClientRecord} {e : Event} {fd : Int}

/-! ## 1. Counting -/

/-- The sockets of the records. -/
def sockets (s : Server) : List Int := s.heap.map ClientRecord.socket

theorem sockets_getElem? (s : Server) (c : Nat) :
    s.sockets[c]? = (s.recordAt c).map ClientRecord.socket := List.getElem?_map

theorem sockets_through {link : Option Nat} {f : ClientRecord → ClientRecord}
    {m : Nat → Option ClientRecord} (hf : ∀ r, (f r).socket = r.socket) (x : Nat) :
    (through link f m x).map ClientRecord.socket = (m x).map ClientRecord.socket := by
  unfold through
  rw [Option.map_map]
  congr 1
  funext r
  dsimp only [Function.comp]
  split
  · exact hf r
  · rfl

theorem sockets_prev (link v : Option Nat) (m : Nat → Option ClientRecord) (x : Nat) :
    (through link (fun r => { r with prev := v }) m x).map ClientRecord.socket =
      (m x).map ClientRecord.socket :=
  sockets_through (f := fun r => { r with prev := v }) (fun _ => rfl) x

theorem sockets_next (link v : Option Nat) (m : Nat → Option ClientRecord) (x : Nat) :
    (through link (fun r => { r with next := v }) m x).map ClientRecord.socket =
      (m x).map ClientRecord.socket :=
  sockets_through (f := fun r => { r with next := v }) (fun _ => rfl) x

/-- The clients that have not left, and the record of the socket that accepts. -/
def opened (s : Server) : Nat := s.sockets.countP (· ≠ 0)

/-- The event is a call of `accept` that fails. -/
def Event.fails (e : Event) : Bool :=
  e.ptr = 0 && match e.accept with
    | .failed => true
    | .connected _ _ _ => false

/-- The event is a call of `accept` that returns a socket. -/
def Event.connects (e : Event) : Bool :=
  e.ptr = 0 && match e.accept with
    | .failed => false
    | .connected _ _ _ => true

theorem sockets_connected {socket : Int} {incoming : List Piece}
    (records : t.recordAt = Function.update
      (through s.clients (fun r => { r with prev := some s.heap.length }) s.recordAt)
      s.heap.length (some (s.newClient socket incoming))) : t.sockets = s.sockets ++ [socket] := by
  have hlen : s.sockets.length = s.heap.length := List.length_map _
  refine List.ext_getElem? fun x => ?_
  rw [sockets_getElem?, records]
  rcases Nat.lt_trichotomy x s.heap.length with hlt | rfl | hlt
  · rw [Function.update_of_ne (Nat.ne_of_lt hlt), sockets_prev,
      List.getElem?_append_left (by omega), sockets_getElem?]
  · rw [Function.update_self, ← hlen, List.getElem?_concat_length]
    rfl
  · rw [Function.update_of_ne (Nat.ne_of_gt hlt), sockets_prev,
      ← sockets_getElem?, List.getElem?_eq_none (by omega),
      List.getElem?_eq_none (by rw [List.length_append, List.length_singleton]; omega)]

theorem sockets_left (hr : s.recordAt c = some r) {r' : ClientRecord}
    (records : t.recordAt = Function.update (through r.next (fun y => { y with prev := r.prev })
      (through r.prev (fun y => { y with next := r.next }) s.recordAt)) c (some r')) :
    t.sockets = s.sockets.set c r'.socket := by
  have hlen : s.sockets.length = s.heap.length := List.length_map _
  have hlt := recordAt_lt hr
  refine List.ext_getElem? fun x => ?_
  rw [sockets_getElem?, records]
  by_cases hx : x = c
  · subst hx
    rw [Function.update_self, List.getElem?_set_self (by omega), Option.map_some]
  · rw [Function.update_of_ne hx, sockets_prev, sockets_next,
      List.getElem?_set_ne (Ne.symm hx), sockets_getElem?]

/-- What an event does to the number of records, and to the count. -/
theorem Handled.counts (hp : s.Possible e) (hh : Handled s e t) :
    t.heap.length = s.heap.length + (if Event.connects e then 1 else 0) ∧
      t.currentClientCnt - (t.opened : Int) =
        s.currentClientCnt - s.opened + if Event.fails e then 1 else 0 := by
  cases hh with
  | failed ptr answer same =>
    have hfails : Event.fails e = true := by
      unfold Event.fails
      rw [ptr, answer]
      rfl
    have hconnects : Event.connects e = false := by
      unfold Event.connects
      rw [ptr, answer]
      rfl
    rw [hfails, hconnects, same]
    refine ⟨rfl, ?_⟩
    change s.currentClientCnt + 1 - (s.opened : Int) = _
    simp only [if_true]
    omega
  | @connected socket incoming added ptr answer records length clients count epollFd =>
    have hfails : Event.fails e = false := by
      unfold Event.fails
      rw [ptr, answer]
      rfl
    have hconnects : Event.connects e = true := by
      unfold Event.connects
      rw [ptr, answer]
      rfl
    have hopened : t.opened = s.opened + 1 := by
      unfold opened
      rw [sockets_connected records, List.countP_append, List.countP_singleton,
        if_pos (by simpa using (hp.2 _ _ _ answer).1)]
    rw [hfails, hconnects, length, count, hopened]
    refine ⟨rfl, ?_⟩
    simp only [Bool.false_eq_true, if_false]
    omega
  | @updated r conn status ptr record open_ ok stays same =>
    have hne : e.ptr ≠ 0 := Nat.ne_of_gt ptr
    have hfails : Event.fails e = false := by simp [Event.fails, hne]
    have hconnects : Event.connects e = false := by simp [Event.connects, hne]
    have hsockets : t.sockets = s.sockets := by
      refine List.ext_getElem? fun x => ?_
      rw [sockets_getElem?, sockets_getElem?, same, recordAt_setClient record]
      by_cases hx : x = e.ptr
      · rw [hx, Function.update_self, record]
        rfl
      · rw [Function.update_of_ne hx]
    rw [hfails, hconnects]
    refine ⟨by rw [same]; exact List.length_set, ?_⟩
    unfold opened
    rw [hsockets, same]
    exact (Int.add_zero _).symm
  | @left r conn status ptr record open_ ok leaves records length clients count epollFd =>
    have hne : e.ptr ≠ 0 := Nat.ne_of_gt ptr
    have hfails : Event.fails e = false := by simp [Event.fails, hne]
    have hconnects : Event.connects e = false := by simp [Event.connects, hne]
    have hsock : s.sockets[e.ptr]? = some r.socket := by
      rw [sockets_getElem?, record, Option.map_some]
    have hopened : t.opened + 1 = s.opened := by
      obtain ⟨hlt, hget⟩ := List.getElem?_eq_some_iff.mp hsock
      have hpos : 0 < s.sockets.countP (· ≠ 0) :=
        List.countP_pos_iff.mpr ⟨_, List.mem_of_getElem? hsock, by simpa using open_⟩
      unfold opened
      rw [sockets_left record records, List.countP_set (h := hlt), hget]
      simp only [closedClient, ne_eq, decide_not, open_, decide_false, Bool.not_false, if_true,
        decide_true, Bool.not_true, Bool.false_eq_true, if_false] at hpos ⊢
      omega
    rw [hfails, hconnects, length, count]
    refine ⟨rfl, ?_⟩
    simp only [Bool.false_eq_true, if_false]
    omega

/-! ## 2. The list -/

/-- The link of a record to the next one. -/
def nextOf (s : Server) (x : Nat) : Option Nat := (s.recordAt x).bind ClientRecord.next

/-- The client has not left. -/
def IsOpen (s : Server) (x : Nat) : Prop := ∃ r, s.recordAt x = some r ∧ r.socket ≠ 0

instance (s : Server) (x : Nat) : Decidable (s.IsOpen x) :=
  decidable_of_iff ((s.recordAt x).any fun r => r.socket ≠ 0) (by
    unfold IsOpen
    cases s.recordAt x <;> simp)

/-- The clients behind `h` that have not left, the last one first. -/
def openFrom (s : Server) (h : Nat) : List Nat :=
  (List.range s.heap.length).reverse.filter fun x => h < x ∧ s.IsOpen x

/-- The list `clients`: the open clients behind `h`, and `h`. -/
structure Listed (s : Server) (h : Nat) : Prop where
  last : h < s.heap.length
  ended : h = 0 ∨ ¬ s.IsOpen h
  links : Links s.nextOf s.clients (s.openFrom h ++ [h])

theorem mem_openFrom : x ∈ s.openFrom h ↔ h < x ∧ s.IsOpen x := by
  unfold openFrom
  rw [List.mem_filter, List.mem_reverse, List.mem_range]
  constructor
  · rintro ⟨-, hx⟩
    simpa using hx
  · rintro ⟨hlt, r, hr, hsock⟩
    exact ⟨recordAt_lt hr, by simpa using ⟨hlt, r, hr, hsock⟩⟩

theorem pairwise_openFrom (s : Server) (h : Nat) : (s.openFrom h).Pairwise (· > ·) := by
  unfold openFrom
  refine List.Pairwise.filter _ ?_
  rw [List.pairwise_reverse]
  exact List.pairwise_lt_range

/-- The list goes from the newest record to the oldest. -/
theorem Listed.le (hl : Listed s h) (hclients : s.clients = some c)
    (hx : x = h ∨ x ∈ s.openFrom h) :
    x ≤ c := by
  have hhead := hl.links.head
  rw [hclients] at hhead
  have hpair := pairwise_openFrom s h
  cases hopen : s.openFrom h with
  | nil =>
    rw [hopen] at hhead hx
    obtain rfl : c = h := by simpa using hhead
    exact Nat.le_of_eq (hx.resolve_right (by simp))
  | cons d rest =>
    rw [hopen] at hhead hpair hx
    obtain rfl : c = d := by simpa using hhead
    have hd : c ∈ s.openFrom h := by
      rw [hopen]
      exact List.mem_cons_self
    rcases hx with rfl | hx
    · exact Nat.le_of_lt (mem_openFrom.mp hd).1
    · rcases List.mem_cons.mp hx with rfl | hx
      · exact Nat.le_refl _
      · exact Nat.le_of_lt (List.rel_of_pairwise_cons hpair hx)

theorem openFrom_congr (hlen : t.heap.length = s.heap.length)
    (hopen : ∀ x, h < x → (t.IsOpen x ↔ s.IsOpen x)) : t.openFrom h = s.openFrom h := by
  unfold openFrom
  rw [hlen]
  refine List.filter_congr fun x _ => ?_
  rw [decide_eq_decide]
  exact and_congr_right fun hx => hopen x hx

/-- Another event of a client changes neither the links nor who is there. -/
theorem Listed.same (hl : Listed s h) (hsame : SameLinks s t) : Listed t h := by
  have hopen : ∀ x, t.IsOpen x ↔ s.IsOpen x := by
    intro x
    constructor
    · rintro ⟨r, hr, hsock⟩
      obtain ⟨r', hr', -, -, hsock'⟩ := hsame.back hr
      exact ⟨r', hr', by rwa [hsock']⟩
    · rintro ⟨r, hr, hsock⟩
      obtain ⟨r', hr', -, -, hsock'⟩ := hsame.forth hr
      exact ⟨r', hr', by rwa [hsock']⟩
  have hnext : t.nextOf = s.nextOf := by
    funext x
    unfold nextOf
    cases hr : s.recordAt x with
    | none =>
      cases hr' : t.recordAt x with
      | none => rfl
      | some r' =>
        obtain ⟨r, hr₁, -⟩ := hsame.back hr'
        rw [hr] at hr₁
        cases hr₁
    | some r =>
      obtain ⟨r', hr', hnext', -⟩ := hsame.forth hr
      rw [hr']
      exact hnext'
  refine ⟨by rw [hsame.same.length]; exact hl.last, hl.ended.imp_right fun h => by rwa [hopen], ?_⟩
  rw [openFrom_congr hsame.same.length fun x _ => hopen x, hnext, hsame.same.clients]
  exact hl.links

theorem Listed.connected {socket : Int} {incoming : List Piece} (hl : Listed s h)
    (hsocket : socket ≠ 0)
    (records : t.recordAt = Function.update
      (through s.clients (fun r => { r with prev := some s.heap.length }) s.recordAt)
      s.heap.length (some (s.newClient socket incoming)))
    (length : t.heap.length = s.heap.length + 1) (clients : t.clients = some s.heap.length) :
    Listed t h := by
  have hlast := hl.last
  have hold : ∀ x, x ≠ s.heap.length → (t.IsOpen x ↔ s.IsOpen x) ∧ t.nextOf x = s.nextOf x := by
    intro x hx
    have hrec := congrFun records x
    rw [Function.update_of_ne hx] at hrec
    cases hr : s.recordAt x with
    | none =>
      unfold through at hrec
      rw [hr, Option.map_none] at hrec
      unfold IsOpen nextOf
      rw [hrec, hr]
      exact ⟨Iff.rfl, rfl⟩
    | some r =>
      rw [through_eq hr] at hrec
      unfold IsOpen nextOf
      rw [hrec, hr]
      split <;> simp
  have hnew : t.recordAt s.heap.length = some (s.newClient socket incoming) := by
    rw [records, Function.update_self]
  have hnext : t.nextOf = Function.update s.nextOf s.heap.length s.clients := by
    funext x
    by_cases hx : x = s.heap.length
    · subst hx
      unfold nextOf
      rw [Function.update_self, hnew]
      rfl
    · rw [Function.update_of_ne hx, (hold x hx).2]
  have hfrom : t.openFrom h = s.heap.length :: s.openFrom h := by
    unfold openFrom
    rw [length, List.range_succ, List.reverse_append, List.reverse_singleton, List.singleton_append,
      List.filter_cons_of_pos (by simpa using ⟨hlast, _, hnew, hsocket⟩)]
    congr 1
    refine List.filter_congr fun x hx => ?_
    rw [List.mem_reverse, List.mem_range] at hx
    rw [decide_eq_decide]
    exact and_congr_right fun _ => (hold x (Nat.ne_of_lt hx)).1
  refine ⟨by omega, hl.ended.imp_right fun h => by rwa [(hold _ (Nat.ne_of_lt hlast)).1], ?_⟩
  rw [hfrom, hnext, clients]
  refine hl.links.push fun hmem => ?_
  rcases List.mem_append.mp hmem with hmem | hmem
  · obtain ⟨-, r, hr, -⟩ := mem_openFrom.mp hmem
    exact Nat.lt_irrefl _ (recordAt_lt hr)
  · rw [List.mem_singleton.mp hmem] at hlast
    exact Nat.lt_irrefl _ hlast

/-- What a client that leaves does to the links and to who is there. -/
theorem left_links (hs : Consistent s) (hr : s.recordAt c = some r) {r' : ClientRecord}
    (hclosed : r'.next = none ∧ r'.socket = 0)
    (records : t.recordAt = Function.update (through r.next (fun y => { y with prev := r.prev })
      (through r.prev (fun y => { y with next := r.next }) s.recordAt)) c (some r')) :
    ¬ t.IsOpen c ∧ t.nextOf c = none ∧ (∀ x, x ≠ c → (t.IsOpen x ↔ s.IsOpen x)) ∧
      ∀ x, x ≠ c → t.nextOf x = if r.prev = some x then r.next else s.nextOf x := by
  have hself : t.recordAt c = some r' := by rw [records, Function.update_self]
  have hold : ∀ {x}, x ≠ c → s.recordAt x = none ∧ t.recordAt x = none ∨
      ∃ y z, s.recordAt x = some y ∧ t.recordAt x = some z ∧ z.socket = y.socket ∧
        z.next = if r.prev = some x then r.next else y.next := by
    intro x hx
    have hrec := congrFun records x
    rw [Function.update_of_ne hx] at hrec
    cases hy : s.recordAt x with
    | none =>
      unfold through at hrec
      rw [hy, Option.map_none, Option.map_none] at hrec
      exact .inl ⟨rfl, hrec⟩
    | some y =>
      rw [through_eq (through_eq hy)] at hrec
      refine .inr ⟨y, _, rfl, hrec, ?_, ?_⟩
      · split <;> split <;> rfl
      · split <;> split <;> rfl
  refine ⟨?_, ?_, fun x hx => ?_, fun x hx => ?_⟩
  · rintro ⟨z, hz, hsock⟩
    rw [hself] at hz
    cases hz
    exact hsock hclosed.2
  · unfold nextOf
    rw [hself]
    exact hclosed.1
  · unfold IsOpen
    rcases hold hx with ⟨h1, h2⟩ | ⟨y, z, h1, h2, hsock, -⟩
    · rw [h1, h2]
    · rw [h1, h2]
      simp [hsock]
  · rcases hold hx with ⟨h1, h2⟩ | ⟨y, z, h1, h2, -, hnext⟩
    · unfold nextOf
      rw [h1, h2, if_neg]
      intro hp
      obtain ⟨y, hy, -⟩ := hs.prev hr hp
      rw [h1] at hy
      cases hy
    · have hs' : s.nextOf x = y.next := by
        unfold nextOf
        rw [h1]
        rfl
      have ht' : t.nextOf x = z.next := by
        unfold nextOf
        rw [h2]
        rfl
      rw [ht', hs', hnext]

/-- **The first client leaves, and the list ends there**; or another one leaves, and
the list goes past it. -/
theorem Listed.left (hs : Consistent s) (hl : Listed s h) (hr : s.recordAt c = some r)
    (hopen : r.socket ≠ 0) (hc : 0 < c) {r' : ClientRecord}
    (hclosed : r'.next = none ∧ r'.socket = 0)
    (records : t.recordAt = Function.update (through r.next (fun y => { y with prev := r.prev })
      (through r.prev (fun y => { y with next := r.next }) s.recordAt)) c (some r'))
    (length : t.heap.length = s.heap.length) (clients : t.clients = s.clients) :
    Listed t (if s.clients = some c then c else h) := by
  obtain ⟨hgone, hnone, hothers, hnext⟩ := left_links hs hr hclosed records
  have hsnext : s.nextOf c = r.next := by
    unfold nextOf
    rw [hr]
    rfl
  by_cases hfirst : s.clients = some c
  · rw [if_pos hfirst]
    have hempty : t.openFrom c = [] := by
      rw [List.eq_nil_iff_forall_not_mem]
      intro x hx
      obtain ⟨hlt, hopenx⟩ := mem_openFrom.mp hx
      rw [hothers x (Nat.ne_of_gt hlt)] at hopenx
      have hle : h ≤ c := hl.le hfirst (.inl rfl)
      have hxle := hl.le hfirst (.inr (mem_openFrom.mpr ⟨Nat.lt_of_le_of_lt hle hlt, hopenx⟩))
      omega
    refine ⟨by rw [length]; exact recordAt_lt hr, .inr hgone, ?_⟩
    rw [hempty, clients, hfirst]
    refine .cons ?_
    rw [hnone]
    exact .nil
  · rw [if_neg hfirst]
    have hch : c ≠ h := by
      rintro rfl
      rcases hl.ended with h0 | hended
      · omega
      · exact hended ⟨r, hr, hopen⟩
    refine ⟨by rw [length]; exact hl.last, hl.ended.imp_right fun hn => ?_, ?_⟩
    · rwa [hothers h (Ne.symm hch)]
    have hprev : ∀ p, s.nextOf p = some c ↔ r.prev = some p := by
      intro p
      constructor
      · intro hp
        obtain ⟨y, hy, hnexty⟩ := Option.bind_eq_some_iff.mp hp
        obtain ⟨-, r₁, hr₁, hprev⟩ := hs.next hy hnexty
        rw [hr] at hr₁
        cases hr₁
        exact hprev
      · intro hp
        obtain ⟨y, hy, hnexty⟩ := hs.prev hr hp
        unfold nextOf
        rw [hy]
        exact hnexty
    rw [clients]
    by_cases hmem : h < c
    · have hcmem : c ∈ s.openFrom h := mem_openFrom.mpr ⟨hmem, r, hr, hopen⟩
      obtain ⟨a, b, hab⟩ := List.append_of_mem hcmem
      have hlinks := hl.links
      have hnd := hlinks.nodup
      rw [hab] at hlinks hnd
      -- the record in front of `c`
      obtain ⟨a, p, rfl⟩ : ∃ a' p, a = a' ++ [p] := by
        rcases List.eq_nil_or_concat a with rfl | ⟨a', p, rfl⟩
        · exact absurd hlinks.head hfirst
        · exact ⟨a', p, by rw [List.concat_eq_append]⟩
      have hne : (∀ x ∈ a ++ [p], x ≠ c) ∧ ∀ x ∈ b ++ [h], x ≠ c := by
        rw [List.append_assoc, List.cons_append, List.nodup_append, List.nodup_cons] at hnd
        refine ⟨fun x hx => hnd.2.2 x hx c List.mem_cons_self, ?_⟩
        rintro x hx rfl
        exact hnd.2.1.1 hx
      have hfrom : t.openFrom h = a ++ p :: b := by
        have hfilter : t.openFrom h = (s.openFrom h).filter (· ≠ c) := by
          unfold openFrom
          rw [length, List.filter_filter]
          refine List.filter_congr fun x _ => ?_
          by_cases hx : x = c
          · subst hx
            simp [hgone]
          · simp [hx, hothers x hx]
        rw [hfilter, hab, List.filter_append, List.filter_cons_of_neg (by simp),
          List.filter_eq_self.mpr (fun x hx => by simpa using hne.1 x hx),
          List.filter_eq_self.mpr (fun x hx => by
            simpa using hne.2 x (List.mem_append_left _ hx)), List.append_assoc]
        rfl
      have hlist : a ++ [p] ++ c :: b ++ [h] = a ++ p :: c :: (b ++ [h]) := by simp
      rw [hlist] at hlinks hnd
      have hpc : s.nextOf p = some c := hlinks.suffix.tail.head
      rw [hfrom, List.append_assoc, List.cons_append]
      refine hlinks.unlink.congr fun x hx => ?_
      have hxc : x ≠ c := by
        rcases List.mem_append.mp hx with hx | hx
        · exact hne.1 x (List.mem_append_left _ hx)
        · rcases List.mem_cons.mp hx with rfl | hx
          · exact hne.1 x (List.mem_append_right _ (List.mem_singleton_self x))
          · exact hne.2 x hx
      rw [hnext x hxc, hsnext]
      by_cases hxp : x = p
      · rw [hxp, Function.update_self, if_pos ((hprev p).mp hpc)]
      · rw [Function.update_of_ne hxp, if_neg]
        intro hx'
        have hp := (hprev p).mp hpc
        rw [hx'] at hp
        exact hxp (Option.some.inj hp)
    · have hle : ∀ x ∈ s.openFrom h ++ [h], h ≤ x := by
        intro x hx
        rcases List.mem_append.mp hx with hx | hx
        · exact Nat.le_of_lt (mem_openFrom.mp hx).1
        · exact Nat.le_of_eq (List.mem_singleton.mp hx).symm
      have hfrom : t.openFrom h = s.openFrom h := by
        refine openFrom_congr length fun x hx => hothers x ?_
        omega
      rw [hfrom]
      refine hl.links.congr fun x hx => ?_
      have hhx := hle x hx
      rw [hnext x (by omega), if_neg]
      intro hp
      have hcle := hle c (hl.links.mem_of_next hx ((hprev x).mpr hp))
      omega

/-- An event leaves the clients behind `h` on the list, or behind a first client that it closes. -/
theorem Listed.step (hs : Consistent s) (hl : Listed s h) (hst : Serves s e t) :
    Listed t (if s.clients = some e.ptr ∧ ¬ t.IsOpen e.ptr then e.ptr else h) := by
  obtain ⟨ht, hhandled⟩ := hst.handled hs
  have hzero : t.IsOpen 0 := by
    obtain ⟨r, hr, hsock⟩ := ht.accept
    exact ⟨r, hr, by rw [hsock]; exact ht.nonzero⟩
  cases hhandled with
  | failed ptr answer same =>
    rw [if_neg (by rw [ptr]; exact fun h => h.2 hzero), same]
    exact ⟨hl.last, hl.ended, hl.links⟩
  | connected ptr answer records length clients count epollFd =>
    rw [if_neg (by rw [ptr]; exact fun h => h.2 hzero)]
    exact hl.connected (hst.1.2 _ _ _ answer).1 records length clients
  | @updated r conn status ptr record open_ ok stays same =>
    have hlinks := SameLinks.setClient record conn
    rw [← same] at hlinks
    have hopen : t.IsOpen e.ptr := by
      obtain ⟨r', hr', -, -, hsock⟩ := hlinks.forth record
      exact ⟨r', hr', by rwa [hsock]⟩
    rw [if_neg fun h => h.2 hopen]
    exact hl.same hlinks
  | @left r conn status ptr record open_ ok leaves records length clients count epollFd =>
    have hgone : ¬ t.IsOpen e.ptr := by
      rintro ⟨r', hr', hsock⟩
      rw [records, Function.update_self] at hr'
      cases hr'
      exact hsock rfl
    have hlist := hl.left hs record open_ ptr ⟨rfl, rfl⟩ records length clients
    by_cases hfirst : s.clients = some e.ptr
    · rw [if_pos hfirst] at hlist
      rwa [if_pos ⟨hfirst, hgone⟩]
    · rw [if_neg hfirst] at hlist
      rwa [if_neg fun h => hfirst h.1]

theorem Listed.step_le (hs : Consistent s) (hl : Listed s h) (hst : Serves s e t) :
    ∃ h', h ≤ h' ∧ Listed t h' := by
  refine ⟨_, ?_, hl.step hs hst⟩
  split
  · rename_i hfirst
    exact hl.le hfirst.1 (.inl rfl)
  · exact Nat.le_refl h

theorem Listed.steps {l : List Event} (hs : Consistent s) (hl : Listed s h)
    (hrun : Steps Serves s l t) : ∃ h', h ≤ h' ∧ Listed t h' :=
  (hrun.invariant (I := fun t => Consistent t ∧ ∃ h', h ≤ h' ∧ Listed t h')
    (fun s e t hs hst => by
      obtain ⟨hs, h', hle, hl⟩ := hs
      obtain ⟨h'', hle', hl'⟩ := hl.step_le hs hst
      exact ⟨(hst.handled hs).1, h'', hle.trans hle', hl'⟩)
    ⟨hs, h, Nat.le_refl h, hl⟩).2

theorem startServer_listed (hfd : fd ≠ 0) (hok : startServer fd = .ok s) : Listed s 0 := by
  obtain ⟨s₁, h₁, hs, hrec, hlen, hclients, -⟩ := startServer_eq hfd
  rw [hok] at h₁
  cases h₁
  have hempty : s.openFrom 0 = [] := by
    rw [List.eq_nil_iff_forall_not_mem]
    intro x hx
    obtain ⟨hlt, r, hr, -⟩ := mem_openFrom.mp hx
    have hx := recordAt_lt hr
    omega
  refine ⟨by omega, .inl rfl, ?_⟩
  rw [hempty, hclients]
  refine .cons ?_
  have hnone : s.nextOf 0 = none := by
    unfold nextOf
    rw [hrec, Function.update_self]
    rfl
  rw [hnone]
  exact .nil

theorem Reached.listed {l : List Event} (hs : Reached fd l s) : ∃ h, Listed s h := by
  obtain ⟨hfd, s₀, h₀, hrun⟩ := hs
  obtain ⟨s₁, h₁, hs₀, -⟩ := startServer_eq hfd
  rw [h₀] at h₁
  cases h₁
  obtain ⟨h, -, hl⟩ := (startServer_listed hfd h₀).steps hs₀ hrun
  exact ⟨h, hl⟩

end Server

open Server

variable {fd : Int} {l l' : List Event} {s t u : Server} {e : Event} {c : Nat}

/-! ## 3. Runs -/

/-- **Records are never used again**, and `current_client_cnt` also counts the sockets that were not
accepted: the server makes a record for each socket, keeps it when the client leaves, and counts the
clients that have not left (the other open record is that of the socket that accepts), and every
call of `accept` that has failed. -/
theorem epoll_server_counts (hs : Server.Reached fd l s) : s.freeClients = none ∧
    s.heap.length = 1 + l.countP Event.connects ∧
    s.currentClientCnt = (s.opened : Int) - 1 + l.countP Event.fails := by
  have hcons := hs.consistent
  obtain ⟨hfd, s₀, h₀, hrun⟩ := hs
  obtain ⟨s₁, h₁, hs₀, hrec, hlen, -, hcount⟩ := startServer_eq hfd
  rw [h₀] at h₁
  cases h₁
  have hopened : s₀.opened = 1 := by
    have hsock : s₀.sockets = [fd] := by
      refine List.ext_getElem? fun x => ?_
      rw [sockets_getElem?, hrec]
      cases x with
      | zero => rfl
      | succ x => rfl
    unfold opened
    rw [hsock]
    simp [hfd]
  refine ⟨hcons.free, ?_⟩
  have hmain := hrun.history (P := fun l s => Consistent s ∧
    s.heap.length = 1 + l.countP Event.connects ∧
      s.currentClientCnt = (s.opened : Int) - 1 + l.countP Event.fails) ⟨hs₀, by simp [hlen], by
        simp [hcount, hopened]⟩ fun l v e w _ hv hst => by
      obtain ⟨hw, hhandled⟩ := hst.handled hv.1
      obtain ⟨hlen', hcount'⟩ := hhandled.counts hst.1
      refine ⟨hw, ?_, ?_⟩
      · rw [hlen', hv.2.1, List.countP_append, List.countP_singleton]
        omega
      · rw [List.countP_append, List.countP_singleton]
        have hprev := hv.2.2
        push_cast
        split at hcount' <;> simp_all <;> omega
  exact hmain.2

/-- Two clients are there, and one could not be accepted. -/
theorem epoll_server_counts_failed : ∃ s : Server, s.freeClients = none ∧ s.heap.length = 3 ∧
    s.currentClientCnt = (s.opened : Int) - 1 + 1 := by
  obtain ⟨s, t, u, v, w, x, y, hs, hst, htu, huv, -⟩ := exists_two_clients
  have hreached : Server.Reached 3 [connect 5 onePiece, connect 6 [], refused] v :=
    ⟨by decide, s, hs, .cons hst (.cons htu (.single huv))⟩
  exact ⟨v, epoll_server_counts hreached⟩

/-- **The clients behind the first one are lost when it leaves.**  The list is then its record
alone, which is closed, and none of the clients that are there at this time is ever on it again. -/
theorem epoll_clients_lost (hs : Server.Reached fd l s) (hfirst : s.clients = some c)
    (hst : Serves s e t) (hptr : e.ptr = c) (hleft : ¬ t.IsOpen c) (hrun : Steps Serves t l' u) :
    Links t.nextOf t.clients [c] ∧
      ∃ xs, Links u.nextOf u.clients xs ∧ (∀ x ∈ xs, c ≤ x) ∧ ∀ x, t.IsOpen x → x ∉ xs := by
  subst hptr
  have hcons := hs.consistent
  obtain ⟨h, hl⟩ := hs.listed
  have hstep := hl.step hcons hst
  rw [if_pos ⟨hfirst, hleft⟩] at hstep
  have hcons' := (hst.handled hcons).1
  obtain ⟨h', hle, hl'⟩ := hstep.steps hcons' hrun
  have hge : ∀ x ∈ u.openFrom h' ++ [h'], e.ptr ≤ x := by
    intro x hx
    rcases List.mem_append.mp hx with hx | hx
    · exact hle.trans (Nat.le_of_lt (mem_openFrom.mp hx).1)
    · rwa [List.mem_singleton.mp hx]
  have hclients : t.clients = some e.ptr := by
    cases (hst.handled hcons).2 with
    | updated ptr record open_ ok stays same =>
      rw [same]
      exact hfirst
    | left ptr record open_ ok leaves records length clients count epollFd =>
      rw [clients, hfirst]
    | failed ptr =>
      obtain ⟨r, hr, hsock⟩ := hcons'.accept
      rw [ptr] at hleft
      exact absurd ⟨r, hr, by rw [hsock]; exact hcons'.nonzero⟩ hleft
    | connected ptr =>
      obtain ⟨r, hr, hsock⟩ := hcons'.accept
      rw [ptr] at hleft
      exact absurd ⟨r, hr, by rw [hsock]; exact hcons'.nonzero⟩ hleft
  -- the one that has left was the newest of the open clients
  have hnewest : ∀ x, t.IsOpen x → ¬ e.ptr < x := by
    intro x hopen hlt
    have hle := hstep.le hclients (.inr (mem_openFrom.mpr ⟨hlt, hopen⟩))
    omega
  have hempty : t.openFrom e.ptr = [] := by
    rw [List.eq_nil_iff_forall_not_mem]
    exact fun x hx => hnewest x (mem_openFrom.mp hx).2 (mem_openFrom.mp hx).1
  have hlinks := hstep.links
  rw [hempty] at hlinks
  refine ⟨hlinks, _, hl'.links, hge, fun x hopen hx => ?_⟩
  rcases Nat.lt_or_eq_of_le (hge x hx) with hlt | heq
  · exact hnewest x hopen hlt
  · rw [heq] at hleft
    exact hleft hopen

set_option maxRecDepth 4000 in
/-- Two clients connect, and the second one, which is the first of the list, leaves. -/
theorem exists_first_leaves : ∃ s t u v w, startServer 3 = .ok s ∧
    Serves s (connect 5 onePiece) t ∧ Serves t (connect 6 []) u ∧ Serves u (ready 2) v ∧
    Serves v (connect 7 []) w ∧ u.clients = some 2 ∧ u.IsOpen 2 ∧ u.IsOpen 1 ∧ ¬ v.IsOpen 2 ∧
    v.IsOpen 1 := by
  have hfresh : ∀ (k : Int) (pieces : List Piece) (s : Server), k ≠ 0 → k ≠ s.acceptSocket →
      ∀ (socket : Int) (incoming : List Piece) (added : Bool),
      (connect k pieces).accept = .connected socket incoming added →
        socket ≠ 0 ∧ socket ≠ s.acceptSocket :=
    fun _ _ _ h0 hs _ _ _ h => by
      cases h
      exact ⟨h0, hs⟩
  refine ⟨_, _, _, _, _, rfl, ⟨⟨by decide, hfresh _ _ _ (by decide) (by decide)⟩, rfl⟩,
    ⟨⟨by decide, hfresh _ _ _ (by decide) (by decide)⟩, rfl⟩,
    ⟨⟨by decide, fun _ _ _ h => by cases h⟩, rfl⟩,
    ⟨⟨by decide, hfresh _ _ _ (by decide) (by decide)⟩, rfl⟩, rfl, by decide, by decide,
    by decide, by decide⟩

/-- The second client leaves, and the first one is lost. -/
theorem epoll_clients_lost_first : ∃ (s t u : Server) (l' : List Event) (xs : List Nat),
    Serves s (ready 2) t ∧ t.IsOpen 1 ∧ Links t.nextOf t.clients [2] ∧ Steps Serves t l' u ∧
      Links u.nextOf u.clients xs ∧ (∀ x ∈ xs, 2 ≤ x) ∧ ∀ x, t.IsOpen x → x ∉ xs := by
  obtain ⟨s, t, u, v, w, hs, hst, htu, huv, hvw, hclients, -, -, hleft, hopen⟩ :=
    exists_first_leaves
  have hreached : Server.Reached 3 [connect 5 onePiece, connect 6 []] u :=
    ⟨by decide, s, hs, .cons hst (.single htu)⟩
  obtain ⟨halone, xs, hxs⟩ :=
    epoll_clients_lost hreached hclients huv rfl hleft (.single hvw)
  exact ⟨u, v, w, _, xs, huv, hopen, halone, .single hvw, hxs⟩

/-- **`stop_server` closes one record, and frees nothing.**  The loop over the clients goes on with
the link of the record that it has just closed. -/
theorem stop_server_frees_nothing (hs : Server.Reached fd l s) : ∃ c t,
    s.clients = some c ∧ s.stopServer = .ok (t, []) ∧
      (∃ r, t.recordAt c = some r ∧ r.socket = 0 ∧ r.next = none) ∧
      ∀ x r, x ≠ c → s.recordAt x = some r →
        ∃ r', t.recordAt x = some r' ∧ r'.conn = r.conn ∧ r'.socket = r.socket := by
  obtain ⟨h, hl⟩ := hs.listed
  have hcons := hs.consistent
  obtain ⟨c, hc⟩ : ∃ c, s.clients = some c := by
    rw [hl.links.head]
    cases s.openFrom h with
    | nil => exact ⟨_, rfl⟩
    | cons c rest => exact ⟨_, rfl⟩
  obtain ⟨r, hr, -⟩ := hcons.first c hc
  let s₁ : Server := { s with epollFd := [] }
  have hs₁ : Consistent s₁ := ⟨hcons.free, hcons.first, hcons.next, hcons.prev, hcons.nonzero,
    hcons.accept, hcons.others, fun {c} hc => absurd hc List.not_mem_nil⟩
  obtain ⟨t, ht, hrec, -, -, hfree, -⟩ := serverCloseClient_eq hs₁ hr
  have hself : t.recordAt c = some (closedClient r) := by rw [hrec, Function.update_self]
  have hclose : closeFrom s.heap.length s₁ (some c) = .ok t := by
    obtain ⟨n, hn⟩ := Nat.exists_eq_succ_of_ne_zero (Nat.ne_of_gt hcons.pos)
    rw [hn, closeFrom, ht, ok_bind, client_eq_ok.mpr hself, ok_bind]
    cases n <;> rfl
  refine ⟨c, t, hc, ?_, ⟨_, hself, rfl, rfl⟩, fun x y hx hy => ?_⟩
  · unfold stopServer
    change (closeFrom s.heap.length s₁ s.clients >>= fun s₂ =>
      s₂.freeFrom s₂.heap.length s₂.freeClients >>= fun freed => .ok (s₂, freed)) = _
    rw [hc, hclose, ok_bind, hfree]
    cases t.heap.length <;> rfl
  · have hy₁ : s₁.recordAt x = some y := hy
    rw [hrec, Function.update_of_ne hx, through_eq (through_eq hy₁)]
    refine ⟨_, rfl, ?_, ?_⟩
    · split <;> split <;> rfl
    · split <;> split <;> rfl

/-- Two clients are there: the one in front is closed, and the other one stays open. -/
theorem stop_server_frees_nothing_two : ∃ (s t : Server), s.IsOpen 1 ∧ s.IsOpen 2 ∧
    s.stopServer = .ok (t, []) ∧ ¬ t.IsOpen 2 ∧ t.IsOpen 1 := by
  obtain ⟨s, t, u, v, w, hs, hst, htu, -, -, hclients, hopen₂, hopen₁, -⟩ := exists_first_leaves
  have hreached : Server.Reached 3 [connect 5 onePiece, connect 6 []] u :=
    ⟨by decide, s, hs, .cons hst (.single htu)⟩
  obtain ⟨c, y, hc, hstop, ⟨r, hr, hsocket, -⟩, hothers⟩ := stop_server_frees_nothing hreached
  rw [hclients, Option.some.injEq] at hc
  subst hc
  obtain ⟨r₁, hr₁, hsocket₁⟩ := hopen₁
  obtain ⟨r₁', hr₁', -, hsame⟩ := hothers 1 r₁ (by decide) hr₁
  refine ⟨u, y, ⟨r₁, hr₁, hsocket₁⟩, hopen₂, hstop, ?_, r₁', hr₁', by rwa [hsame]⟩
  rintro ⟨r', hr', hne⟩
  rw [hr, Option.some.injEq] at hr'
  exact hne (hr' ▸ hsocket)

end CAsync
