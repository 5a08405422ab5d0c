/-
# The turns of the echo server

A step of the server makes at most one call of the library, so what holds of every run of the
library holds of the server (`Reached.library`).  Its tasks are three and one for each client
(`async_server_counts`), and the slots of the clients that have left are used again
(`async_server_pool`).  All but `async_main` take turns (`async_server_turns`); but a client for
which `recv` and `send` never answer `EAGAIN` keeps the processor (`async_server_starves`).

The tasks of the run queue are `accept_loop`, `server_stats` and the clients, in some order
(`Serving.tasks_perm`): that is where the number of live tasks comes from, and it turns what is
proved of every run about the length of the pool (`live_le_len`) and about the exit (`exit_frees`)
into numbers of clients.

For the turns, every step is a move of the queue (`Serving.takes_turns`): what is ahead of a task
only gets shorter, by one with each switch, and a new client comes in at the back.  So the bound is
the length of the queue less one, which is the number of clients and one more.  Nothing is assumed
of the clients there but that the processor does change hands.  That it need not is the last
section: as long as `recv` and `send` have something to do, a round of `echo_loop` makes no call of
the library at all (`Serves.alone`), until its task comes to its end.
-/
import CAsync.AsyncEchoes
import CAsync.Fairness
import CAsync.FreeList
import CAsync.Lib.TurnQueue

namespace CAsync

open Faulting TaskPool

namespace AsyncServer

variable {l : List OsReply} {m m₀ m' : AsyncServer Graph} {r : OsReply} {h : Handle}

/-! ## 1. The calls of the library -/

theorem deliver_lib {reply : Reply ServerFn ServerArg} (hok : deliver m reply = .ok m') :
    m'.lib = m.lib := by
  cases reply with
  | start fn data =>
    obtain ⟨code, -, hok⟩ := bind_eq_ok.mp hok
    cases hok
    rfl
  | skip =>
    cases hok
    rfl
  | waiting h =>
    cases hok
    rfl
  | await data =>
    cases hok
    rfl
  | handle h => cases hok
  | done => cases hok
  | state st => cases hok

theorem switch_lib {op : Op ServerFn ServerArg} (hok : m.switch op = .ok (.next m')) :
    ∃ x, Next m.lib x m'.lib := by
  obtain ⟨outcome, hstep, hok⟩ := bind_eq_ok.mp hok
  cases outcome with
  | exit code => cases hok
  | next s reply =>
    obtain ⟨m₁, hdeliver, hok⟩ := bind_eq_ok.mp hok
    cases hok
    refine ⟨(op, reply), ?_⟩
    rw [deliver_lib hdeliver]
    exact hstep

theorem create_lib {fn : ServerFn} {arg : ServerArg} (hok : m.create fn arg = .ok (m', h)) :
    ∃ x, Next m.lib x m'.lib := by
  obtain ⟨outcome, hstep, hok⟩ := bind_eq_ok.mp hok
  split at hok
  · cases hok
    exact ⟨(.call fn arg, .handle h), hstep⟩
  · cases hok

theorem orphan_lib (hok : m.orphan h = .ok m') : ∃ x, Next m.lib x m'.lib := by
  obtain ⟨outcome, hstep, hok⟩ := bind_eq_ok.mp hok
  split at hok
  · cases hok
    exact ⟨(.orphan h, .done), hstep⟩
  · cases hok

/-- **A step makes at most one call of the library.** -/
theorem Serves.lib (hst : Serves m r m') : m'.lib = m.lib ∨ ∃ x, Next m.lib x m'.lib := by
  obtain ⟨-, hstep⟩ := hst
  unfold AsyncServer.step at hstep
  split at hstep
  · exact .inr (switch_lib hstep)
  · exact .inr (switch_lib hstep)
  · exact .inr (switch_lib hstep)
  · unfold acceptRound at hstep
    split at hstep
    · exact .inr (switch_lib hstep)
    · cases hstep
      exact .inl rfl
    · cases hstep
      split
      · exact .inl rfl
      · exact .inl rfl
  · obtain ⟨⟨m₁, h⟩, hcreate, hstep⟩ := bind_eq_ok.mp hstep
    have hlib := create_lib hcreate
    cases hstep
    exact .inr hlib
  · obtain ⟨m₁, horphan, hstep⟩ := bind_eq_ok.mp hstep
    have hlib := orphan_lib horphan
    cases hstep
    exact .inr hlib
  · split at hstep
    · cases hstep
    · unfold echoRound at hstep
      split at hstep
      · cases hstep
        exact .inl rfl
      · have hleave := switch_lib hstep
        exact .inr hleave
      · obtain ⟨next, -, hstep⟩ := bind_eq_ok.mp hstep
        cases next with
        | skip => exact .inr (switch_lib hstep)
        | killed => cases hstep
        | next e c =>
          cases hstep
          exact .inl rfl

/-- **A run of the server is a run of the library.** -/
theorem Serves.calls (hrun : Steps Serves m l m') : ∃ calls, Steps Next m.lib calls m'.lib := by
  induction hrun with
  | refl _ => exact ⟨[], .refl _⟩
  | cons hst _ ih =>
    obtain ⟨calls, hcalls⟩ := ih
    rcases hst.lib with hlib | ⟨x, hx⟩
    · rw [hlib] at hcalls
      exact ⟨calls, hcalls⟩
    · exact ⟨x :: calls, .cons hx hcalls⟩

/-- **The states of the library under the server** are states that the library reaches. -/
theorem Reached.library (hm : Reached l m) : ∃ calls, CAsync.Reached calls m.lib := by
  obtain ⟨m₀, hstart, hrun⟩ := hm
  obtain ⟨m₁, -, hstart', -, hreached, -⟩ := start_serving
  rw [hstart] at hstart'
  cases hstart'
  obtain ⟨calls, hcalls⟩ := Serves.calls hrun
  exact ⟨_, hreached.append hcalls⟩

/-- Where a step goes. -/
theorem Serving.moved {a : Runtime TaskGraph ServerFn ServerArg} (hs : Serving m a)
    (hst : Serves m r m') : ∃ b, Serving m' b ∧ Moved a b := by
  obtain ⟨hp, hstep⟩ := hst
  cases hs.step hp with
  | next hnext hm' hmoved =>
    rw [hstep] at hnext
    cases hnext
    exact ⟨_, hm', hmoved⟩
  | killed hkilled =>
    rw [hstep] at hkilled
    cases hkilled
  | fault hfault =>
    rw [hstep] at hfault
    cases hfault

end AsyncServer

/-! ## 2. How many tasks there are -/

namespace AsyncServer

variable {l : List OsReply} {m m₀ m' : AsyncServer Graph} {r : OsReply} {h : Handle}

/-- The clients: the tasks of `echo_loop` that have not returned. -/
def clients (m : AsyncServer Graph) : List Handle :=
  m.lib.pool.handles.filter fun h => (clientOf m.lib h).isSome

namespace Serving

variable {a : Runtime TaskGraph ServerFn ServerArg}

theorem clientOf_eq (hs : Serving m a) : clientOf m.lib = clientOf a := by
  unfold clientOf
  rw [hs.same.pool]

theorem mem_clients (hs : Serving m a) :
    h ∈ m.clients ↔ h ∈ a.sched.tasks ∧ h ≠ ⟨2⟩ ∧ h ≠ ⟨3⟩ := by
  rw [← hs.cast.clientOf_isSome]
  unfold AsyncServer.clients
  rw [List.mem_filter, mem_handles, hs.clientOf_eq, hs.same.pool]
  constructor
  · rintro ⟨-, hsome⟩
    obtain ⟨⟨fd, b⟩, hx⟩ := Option.isSome_iff_exists.mp hsome
    exact ⟨fd, b, hx⟩
  · rintro ⟨fd, b, hx⟩
    refine ⟨?_, by rw [hx]; rfl⟩
    obtain ⟨t, ht, -⟩ := Option.bind_eq_some_iff.mp hx
    rw [ht]
    rfl

/-- **The queue** has two tasks besides the clients. -/
theorem tasks_perm (hs : Serving m a) : a.sched.tasks.Perm (⟨2⟩ :: ⟨3⟩ :: m.clients) := by
  have hnd : (⟨2⟩ :: ⟨3⟩ :: m.clients : List Handle).Nodup := by
    refine List.nodup_cons.mpr ⟨?_, List.nodup_cons.mpr ⟨?_, m.lib.pool.handles_nodup.filter _⟩⟩
    · rw [List.mem_cons, hs.mem_clients]
      simp
    · rw [hs.mem_clients]
      simp
  refine (List.perm_ext_iff_of_nodup hs.cast.inv.graph.tasks_nodup hnd).mpr fun h => ?_
  rw [List.mem_cons, List.mem_cons, hs.mem_clients]
  constructor
  · intro hmem
    by_cases h2 : h = ⟨2⟩
    · exact .inl h2
    by_cases h3 : h = ⟨3⟩
    · exact .inr (.inl h3)
    · exact .inr (.inr ⟨hmem, h2, h3⟩)
  · rintro (rfl | rfl | ⟨hmem, -⟩)
    · exact hs.cast.stats.1
    · exact hs.cast.accept.1
    · exact hmem

theorem live_eq (hs : Serving m a) : m.lib.pool.live = m.clients.length + 3 := by
  have hnd : (⟨1⟩ :: a.sched.tasks : List Handle).Nodup :=
    List.nodup_cons.mpr ⟨hs.cast.main_not_mem, hs.cast.inv.graph.tasks_nodup⟩
  rw [hs.same.pool, live_eq_length hnd fun h => ?_, List.length_cons, hs.tasks_perm.length_eq]
  · rfl
  · rw [List.mem_cons]
    constructor
    · rintro (rfl | hmem)
      · obtain ⟨c, -, ⟨-, t, ht, hstate, -⟩, -⟩ := hs.cast.main
        exact ⟨t, ht, by rw [hstate]; simp⟩
      · rcases hs.cast.inv.unfinished hmem with hst | hst
        · obtain ⟨t, ht, hstate⟩ := stateOf_eq_some.mp hst
          exact ⟨t, ht, by rw [hstate]; simp⟩
        · obtain ⟨t, ht, hstate⟩ := stateOf_eq_some.mp hst
          exact ⟨t, ht, by rw [hstate]; simp⟩
    · rintro ⟨t, ht, hstate⟩
      exact hs.cast.live h t ht hstate

end Serving

/-- **The tasks of the server**, in every state it can reach: `async_main`, `server_stats`,
`accept_loop`, and one for each client; no two clients have the same socket, and the sockets of all
are open.  `current_client_cnt` is the number of the clients that have counted themselves. -/
theorem async_server_counts (hm : Reached l m) :
    m.lib.pool.live = m.clients.length + 3 ∧
      m.currentClientCnt = m.clients.countP (m.counted (clientOf m.lib)) ∧
      (∀ h ∈ m.clients, ∃ fd b c, clientOf m.lib h = some (fd, b) ∧ m.sockets fd = some c) ∧
      ∀ h i fd b b', clientOf m.lib h = some (fd, b) → clientOf m.lib i = some (fd, b') →
        h = i := by
  obtain ⟨a, hs⟩ := hm.serving
  have hnone : ∀ {h : Handle}, h = ⟨2⟩ ∨ h = ⟨3⟩ → m.counted (clientOf a) h = false := by
    intro h hh
    unfold counted
    cases hc : clientOf a h with
    | none => rfl
    | some x =>
      obtain ⟨-, h2, h3⟩ := hs.cast.clientOf_isSome.mp ⟨x.1, x.2, hc⟩
      exact absurd hh (by simp [h2, h3])
  refine ⟨hs.live_eq, ?_, fun h hh => ?_, ?_⟩
  · rw [hs.count, hs.tasks_perm.countP_eq, hs.clientOf_eq, List.countP_cons, List.countP_cons,
      hnone (.inl rfl), hnone (.inr rfl)]
    simp
  · obtain ⟨fd, b, hclient⟩ := hs.cast.clientOf_isSome.mpr (hs.mem_clients.mp hh)
    obtain ⟨c, hc⟩ := hs.clients.isOpen hclient
    exact ⟨fd, b, c, by rwa [hs.clientOf_eq], hc⟩
  · rw [hs.clientOf_eq]
    exact fun h i fd b b' => hs.clients.distinct

/-- One client. -/
theorem async_server_counts_conversation : ∃ m : AsyncServer Graph, Reached conversation m ∧
    m.lib.pool.live = m.clients.length + 3 := by
  obtain ⟨m, -, hm, -⟩ := conversation_reached
  exact ⟨m, hm, (async_server_counts hm).1⟩

/-- **The server leaks.**  Two blocks have been allocated for each client that there has been, a
node of the graph scheduler and an entry of its map; when the client has left, neither is in the map
any more, and the server never frees them or uses them again. -/
theorem async_server_leaks (hm : Reached l m) :
    m.lib.sched.nodes.length = m.clients.length + 3 + m.closed.length ∧
      m.lib.sched.handleToNode.nodes.length = m.clients.length + 3 + m.closed.length ∧
      ∃ nodes entries : List Nat, m.lib.sched.graphCleanup = .ok (nodes.map some, entries) ∧
        nodes.Nodup ∧ entries.Nodup ∧ nodes.length = m.clients.length + 3 ∧
        entries.length = m.clients.length + 3 := by
  obtain ⟨a, hs⟩ := hm.serving
  obtain ⟨calls, hcalls⟩ := hm.library
  have htasks : a.sched.tasks.length = m.clients.length + 2 := hs.tasks_perm.length_eq
  obtain ⟨-, hentries, hnodes⟩ := hs.nodes
  obtain ⟨nodes, entries, hok, hnd, hnd', hlen, hlen', -⟩ := exit_frees hcalls
  rw [hs.live_eq] at hlen hlen'
  rw [htasks] at hentries hnodes
  exact ⟨hnodes, hentries, nodes, entries, hok, hnd, hnd', hlen, hlen'⟩

/-- A client has come and left: its node and its entry are the fourth of each, and are not freed. -/
theorem async_server_leaks_departure : ∃ m : AsyncServer Graph,
    Reached (conversation ++ departure) m ∧ m.clients = [] ∧ m.lib.sched.nodes.length = 4 ∧
      m.lib.sched.handleToNode.nodes.length = 4 ∧
      ∃ nodes entries : List Nat, m.lib.sched.graphCleanup = .ok (nodes.map some, entries) ∧
        nodes.length = 3 ∧ entries.length = 3 := by
  obtain ⟨u, -, ⟨m₀, hstart, hrun⟩, -, -, -, -, -, -, m, hleave, hclosed, hclients⟩ :=
    conversation_reached
  have hnone : m.clients = [] := hclients
  have hm : Reached (conversation ++ departure) m := ⟨m₀, hstart, hrun.append hleave⟩
  obtain ⟨hnodes, hentries, nodes, entries, hok, -, -, hlen, hlen'⟩ := async_server_leaks hm
  rw [hnone, hclosed] at hnodes hentries
  rw [hnone] at hlen hlen'
  exact ⟨m, hm, hnone, hnodes, hentries, nodes, entries, hok, hlen, hlen'⟩

/-- **Slots are used again.**  In every run, the pool is as long as there are tasks in the state
with the most clients, however many clients there have been. -/
theorem async_server_pool (hstart : start = .ok (.next m₀)) (hrun : Steps Serves m₀ l m) :
    (∀ l₁ l₂ u, l = l₁ ++ l₂ → Steps Serves m₀ l₁ u → Steps Serves u l₂ m →
      u.clients.length + 3 ≤ m.lib.pool.len) ∧
    ∃ l₁ l₂ u, l = l₁ ++ l₂ ∧ Steps Serves m₀ l₁ u ∧ Steps Serves u l₂ m ∧
      u.clients.length + 3 = m.lib.pool.len := by
  constructor
  · rintro l₁ l₂ u - h₁ h₂
    have hu : Reached l₁ u := ⟨m₀, hstart, h₁⟩
    obtain ⟨a, hs⟩ := hu.serving
    obtain ⟨calls₀, hcalls₀⟩ := hu.library
    obtain ⟨calls, hcalls⟩ := Serves.calls h₂
    rw [← hs.live_eq]
    exact live_le_len hcalls hcalls₀
  · refine hrun.history (P := fun l m => ∃ l₁ l₂ u, l = l₁ ++ l₂ ∧ Steps Serves m₀ l₁ u ∧
      Steps Serves u l₂ m ∧ u.clients.length + 3 = m.lib.pool.len) ?_ ?_
    · obtain ⟨m₁, a₀, hstart', hs, -, hlen⟩ := start_serving
      rw [hstart] at hstart'
      cases hstart'
      have hle := m₀.lib.pool.live_le
      rw [hs.live_eq] at hle
      exact ⟨[], [], m₀, rfl, .refl _, .refl _, by omega⟩
    · rintro l m r m' hrun ⟨l₁, l₂, u, rfl, h₁, h₂, hu⟩ hst
      have hm : Reached (l₁ ++ l₂) m := ⟨m₀, hstart, hrun⟩
      have hm' : Reached (l₁ ++ l₂ ++ [r]) m' := ⟨m₀, hstart, hrun.append (.single hst)⟩
      have hkept : m'.lib.pool.len = m.lib.pool.len → ∃ l₁' l₂' u, l₁ ++ l₂ ++ [r] = l₁' ++ l₂' ∧
          Steps Serves m₀ l₁' u ∧ Steps Serves u l₂' m' ∧
            u.clients.length + 3 = m'.lib.pool.len := by
        intro hlen
        exact ⟨l₁, l₂ ++ [r], u, List.append_assoc _ _ _, h₁, h₂.append (.single hst),
          by rw [hlen, hu]⟩
      rcases hst.lib with hlib | ⟨x, hx⟩
      · exact hkept (by rw [hlib])
      · obtain ⟨calls, hcalls⟩ := hm.library
        obtain ⟨a, b, hsa, htb, -, heff, -⟩ := hcalls.effect hx
        rcases heff.len with hlen | ⟨-, hlen⟩
        · exact hkept (by rw [hsa.pool, htb.pool, hlen])
        · obtain ⟨b', hs'⟩ := hm'.serving
          refine ⟨_, [], m', (List.append_nil _).symm, hrun.append (.single hst), .refl _, ?_⟩
          rw [← hs'.live_eq, htb.pool, hlen]

theorem async_server_pool_conversation : ∃ m₀ m : AsyncServer Graph,
    ∃ l₁ l₂ u, conversation = l₁ ++ l₂ ∧ Steps Serves m₀ l₁ u ∧ Steps Serves u l₂ m ∧
      u.clients.length + 3 = m.lib.pool.len := by
  obtain ⟨m, -, ⟨m₀, hstart, hrun⟩, -⟩ := conversation_reached
  exact ⟨m₀, m, (async_server_pool hstart hrun).2⟩

/-! ## 3. Turns -/

/-- One step, and whether the processor goes to another task. -/
def Turns (m : AsyncServer Graph) (x : OsReply × Bool) (m' : AsyncServer Graph) : Prop :=
  Serves m x.1 m' ∧ x.2 = decide (m'.lib.running ≠ m.lib.running)

/-- A step of the server moves the queue, and with each switch it takes a turn. -/
theorem Serving.takes_turns {a : Runtime TaskGraph ServerFn ServerArg} {x : OsReply × Bool}
    (hs : Serving m a) (hst : Turns m x m') : (∃ a', Serving m' a') ∧
      ∃ b, TurnQueue.Moves b m.lib.sched.tasks m'.lib.sched.tasks ∧ (x.2 = true → b = true) := by
  obtain ⟨hst, hturn⟩ := hst
  obtain ⟨a', hs', hmoved⟩ := hs.moved hst
  refine ⟨⟨a', hs'⟩, ?_⟩
  rw [hs.same.sched.tasks_eq, hs'.same.sched.tasks_eq, hturn, hs.same.running, hs'.same.running]
  cases hmoved with
  | @stays new hrun htasks =>
    rw [htasks]
    exact ⟨false, .stays new, fun hne => absurd hrun (of_decide_eq_true hne)⟩
  | @turns rest back hqueue htasks hback =>
    rw [hqueue, htasks]
    exact ⟨true, .turns hback, fun _ => rfl⟩

/-- The task at the front is the running one. -/
theorem Serving.front {a : Runtime TaskGraph ServerFn ServerArg} (hs : Serving m a) :
    m.lib.sched.tasks.head? = some m.lib.running := by
  obtain ⟨rest, htasks⟩ := hs.cast.inv.exists_rest
  rw [hs.same.sched.tasks_eq, hs.same.running, htasks]
  rfl

/-- **Everyone gets a turn.**  From every state that the server can reach, `server_stats`,
`accept_loop` and each client get the processor before it has gone from one task to another more
often than there are clients, and once more, whatever the clients do and how many new ones come. -/
theorem async_server_turns (hm : Reached l m) (hh : h = ⟨2⟩ ∨ h = ⟨3⟩ ∨ h ∈ m.clients)
    {l' : List (OsReply × Bool)} (hrun : Steps Turns m l' m')
    (hmany : m.clients.length + 1 ≤ l'.countP Prod.snd) :
    ∃ l₁ l₂ u, l' = l₁ ++ l₂ ∧ Steps Turns m l₁ u ∧ Steps Turns u l₂ m' ∧ u.lib.running = h := by
  obtain ⟨a, hs⟩ := hm.serving
  have hperm : m.lib.sched.tasks.Perm (⟨2⟩ :: ⟨3⟩ :: m.clients) := by
    rw [hs.same.sched.tasks_eq]
    exact hs.tasks_perm
  have hmem : h ∈ m.lib.sched.tasks := by
    rw [hperm.mem_iff]
    simpa using hh
  have hahead : (TurnQueue.ahead m.lib.sched.tasks h).length ≤ m.clients.length + 1 := by
    have hlt := TurnQueue.length_ahead_lt hmem
    rw [hperm.length_eq] at hlt
    exact Nat.le_of_lt_succ hlt
  obtain ⟨l₁, l₂, u, rfl, h₁, h₂, hfront⟩ := TurnQueue.exists_front
    (I := fun m => ∃ a, Serving m a) (fun m => m.lib.sched.tasks)
    (fun m x m' ⟨_, hs⟩ hst => hs.takes_turns hst) hrun ⟨a, hs⟩ hmem (hahead.trans hmany)
  refine ⟨l₁, l₂, u, rfl, h₁, h₂, ?_⟩
  obtain ⟨a', hs'⟩ := h₁.invariant (I := fun m => ∃ a, Serving m a)
    (fun m x m' ⟨_, hs⟩ hst => (hs.takes_turns hst).1) ⟨a, hs⟩
  rw [hs'.front] at hfront
  exact Option.some.inj hfront

/-- `accept_loop` and `server_stats` give the processor to the client. -/
theorem async_server_turns_client : ∃ m m' : AsyncServer Graph,
    Reached (conversation ++ [quiet]) m ∧ m.lib.running = ⟨3⟩ ∧ m.clients = [⟨4⟩] ∧
    ∃ l₁ l₂ u, [(quiet, true), (quiet, true)] = l₁ ++ l₂ ∧ Steps Turns m l₁ u ∧
      Steps Turns u l₂ m' ∧ u.lib.running = ⟨4⟩ := by
  obtain ⟨m₁, -, ⟨m₀, hstart, hrun⟩, -, -, -, -, -, ⟨m, v, w, hm, hv, hw, hm3, hv2, hw4, hclients⟩,
    -⟩ := conversation_reached
  have hone : m.clients = [⟨4⟩] := hclients
  have hreached : Reached (conversation ++ [quiet]) m := ⟨m₀, hstart, hrun.append (.single hm)⟩
  have hturns : Steps Turns m [(quiet, true), (quiet, true)] w := by
    refine .cons ⟨hv, ?_⟩ (.single ⟨hw, ?_⟩)
    · rw [hv2, hm3]
      rfl
    · rw [hw4, hv2]
      rfl
  refine ⟨m, w, hreached, hm3, hone, async_server_turns hreached ?_ hturns ?_⟩
  · rw [hone]
    exact .inr (.inr (List.mem_singleton_self _))
  · rw [hone]
    decide

/-! ## 4. A client that never waits -/

/-- A round that gives the processor away has got `EAGAIN`. -/
theorem skip_of_again {e : EchoTask} {c : Conn} {recv : RecvReply} {send : SendReply}
    (hstep : e.step c recv send = .ok .skip) : recv = .again ∨ send = .again := by
  have hread : ∀ {n amt : Int} {out : List UInt8} {buf : Buffer},
      readRound n amt out buf recv = .ok .skip → recv = .again := by
    intro n amt out buf h
    unfold readRound at h
    split at h
    · split at h
      · cases recv with
        | again => rfl
        | piece p =>
          obtain ⟨buffer, -, h⟩ := bind_eq_ok.mp h
          cases h
        | ended en => cases h
      · obtain ⟨x, -, h⟩ := bind_eq_ok.mp h
        cases h
    · cases h
  have hwrite : ∀ {n sentAmt : Int} {msg : List UInt8},
      writeRound n msg sentAmt send = .ok .skip → send = .again := by
    intro n sentAmt msg h
    unfold writeRound at h
    split at h
    · obtain ⟨bytes, -, h⟩ := bind_eq_ok.mp h
      cases send with
      | again => rfl
      | broken => cases h
      | failed => cases h
      | accepts more => cases h
    · cases h
  obtain ⟨msg, buf, point⟩ := e
  cases point with
  | start => cases hstep
  | readSize amt size =>
    obtain ⟨next, hnext, hstep⟩ := bind_eq_ok.mp hstep
    cases next with
    | skip => exact .inl (hread hnext)
    | filled p buf => cases hstep
    | copied amt size buf => cases hstep
    | returned ret ending =>
      obtain ⟨e', -, hstep⟩ := bind_eq_ok.mp hstep
      cases hstep
  | readMsg size amt =>
    obtain ⟨next, hnext, hstep⟩ := bind_eq_ok.mp hstep
    cases next with
    | skip => exact .inl (hread hnext)
    | filled p buf => cases hstep
    | copied amt size buf => cases hstep
    | returned ret ending => cases hstep
  | writeSize size sentAmt =>
    obtain ⟨next, hnext, hstep⟩ := bind_eq_ok.mp hstep
    cases next with
    | skip => exact .inr (hwrite hnext)
    | killed => cases hstep
    | sent more sentAmt bytes => cases hstep
    | returned ret failed => cases hstep
  | writeMsg size sentAmt =>
    obtain ⟨next, hnext, hstep⟩ := bind_eq_ok.mp hstep
    cases next with
    | skip => exact .inr (hwrite hnext)
    | killed => cases hstep
    | sent more sentAmt bytes => cases hstep
    | returned ret failed => cases hstep
  | fail => cases hstep

/-- Only the client on `fd`, which is running, has moved. -/
structure Alone (fd : Int) (m m' : AsyncServer Graph) : Prop where
  lib : m'.lib = m.lib
  sockets : ∀ i, i ≠ fd → m'.sockets i = m.sockets i
  code : ∀ h, h ≠ m.lib.running → m'.code h = m.code h
  closed : m'.closed = m.closed

theorem Alone.trans {fd : Int} {m m₁ m' : AsyncServer Graph} (h : Alone fd m m₁)
    (h' : Alone fd m₁ m') : Alone fd m m' where
  lib := h'.lib.trans h.lib
  sockets := fun i hi => (h'.sockets i hi).trans (h.sockets i hi)
  code := fun i hi => (h'.code i (by rwa [h.lib])).trans (h.code i hi)
  closed := h'.closed.trans h.closed

/-- One round. -/
theorem Serves.alone {fd : Int} {e : EchoTask} {c : Conn} (hst : Serves m r m')
    (hcode : m.code m.lib.running = .echo fd e) (hfd : m.sockets fd = some c)
    (hpoint : e.point ≠ .fail) (hrecv : r.recv ≠ .again) (hsend : r.send ≠ .again) :
    Alone fd m m' := by
  obtain ⟨-, hstep⟩ := hst
  unfold AsyncServer.step at hstep
  rw [hcode] at hstep
  dsimp only at hstep
  rw [hfd] at hstep
  unfold echoRound at hstep
  dsimp only at hstep
  split at hstep
  · cases hstep
    exact ⟨rfl, fun _ _ => rfl, fun h hh => Function.update_of_ne hh _ _, rfl⟩
  · rename_i hfail
    exact absurd hfail hpoint
  · obtain ⟨next, hnext, hstep⟩ := bind_eq_ok.mp hstep
    cases next with
    | skip => exact ((skip_of_again hnext).elim hrecv hsend).elim
    | killed => cases hstep
    | next e' c' =>
      cases hstep
      exact ⟨rfl, fun i hi => Function.update_of_ne hi _ _,
        fun h hh => Function.update_of_ne hh _ _, rfl⟩

/-- **A client that never waits keeps the processor.**  While its `recv` and `send` do not answer
`EAGAIN`, and until its task comes to `fail`, no other task moves: nobody is accepted, and nothing
is received from other clients or sent to them. -/
theorem async_server_starves (hm : Reached l m) {fd : Int}
    (hclient : clientOf m.lib m.lib.running = some (fd, true)) {l' : List OsReply}
    (hrun : Steps Serves m l' m') (hbusy : ∀ r ∈ l', r.recv ≠ .again ∧ r.send ≠ .again) :
    Alone fd m m' ∨ ∃ l₁ l₂ u e, l' = l₁ ++ l₂ ∧ Steps Serves m l₁ u ∧ Steps Serves u l₂ m' ∧
      Alone fd m u ∧ u.code m.lib.running = .echo fd e ∧ e.point = .fail := by
  induction hrun generalizing l with
  | refl m => exact .inl ⟨rfl, fun _ _ => rfl, fun _ _ => rfl, rfl⟩
  | @cons m m₁ m' r l' hst hrest ih =>
    obtain ⟨a, hs⟩ := hm.serving
    rw [hs.clientOf_eq] at hclient
    obtain ⟨c, e, hfd, hcode, -⟩ := hs.clients.started hclient
    by_cases hpoint : e.point = .fail
    · exact .inr ⟨[], r :: l', m, e, rfl, .refl m, .cons hst hrest,
        ⟨rfl, fun _ _ => rfl, fun _ _ => rfl, rfl⟩, hcode, hpoint⟩
    · have hr := hbusy r List.mem_cons_self
      have halone : Alone fd m m₁ := hst.alone hcode hfd hpoint hr.1 hr.2
      obtain ⟨m₀, hstart, hrun₀⟩ := hm
      have hm₁ : Reached (l ++ [r]) m₁ := ⟨m₀, hstart, hrun₀.append (.single hst)⟩
      rw [← hs.clientOf_eq] at hclient
      rcases ih hm₁ (by rwa [halone.lib]) fun r hr => hbusy r (List.mem_cons_of_mem _ hr) with
        hrest' | ⟨l₁, l₂, u, e', rfl, h₁, h₂, hu, hcode', hpoint'⟩
      · exact .inl (halone.trans hrest')
      · rw [halone.lib] at hcode'
        exact .inr ⟨r :: l₁, l₂, u, e', rfl, .cons hst h₁, h₂, halone.trans hu, hcode', hpoint'⟩

/-- The client of the conversation sends another frame. -/
def more : OsReply :=
  { accept := .again, recv := .piece ⟨[0, 0, 0, 1, 66], by decide, by decide⟩, send := .accepts 0 }

theorem async_server_starves_more : ∃ m m' : AsyncServer Graph, Reached conversation m ∧
    Steps Serves m [more] m' ∧ (Alone 5 m m' ∨ ∃ l₁ l₂ u e, [more] = l₁ ++ l₂ ∧
      Steps Serves m l₁ u ∧ Steps Serves u l₂ m' ∧ Alone 5 m u ∧
        u.code m.lib.running = .echo 5 e ∧ e.point = .fail) := by
  obtain ⟨m, e, hm, hrunning, hclient, hcode, -, hfd, -⟩ := conversation_reached
  have hp : m.Possible more := possible_quiet m rfl
  obtain ⟨m', hnext⟩ : ∃ m', m.step more = .ok (.next m') := by
    rcases async_server_goes_on hm hp with hnext | ⟨-, hbroken⟩ | ⟨f, fd, e', c, -, hcode', hfd', h⟩
    · exact hnext
    · cases hbroken
    · rw [hrunning, hcode] at hcode'
      cases hcode'
      rw [hfd] at hfd'
      cases hfd'
      exact absurd (by decide) h
  have hrun : Steps Serves m [more] m' := .single ⟨hp, hnext⟩
  refine ⟨m, m', hm, hrun, async_server_starves hm (by rwa [hrunning]) hrun fun r hr => ?_⟩
  rw [List.mem_singleton.mp hr]
  exact ⟨nofun, nofun⟩

end AsyncServer
end CAsync
