/-
# Runs of the echo server

`Serving m a` is what holds of the server `m` between two steps, with the model `a` of its library:
the tasks are the `Cast`; each client that has not left has an open socket of its own, and is where
`echo_loop` is after the answers of that socket (`Clients`); and `current_client_cnt` counts the
clients that have been counted.  Every step keeps it, unless the process is killed or `echo_loop`
itself faults (`Serving.step`).
-/
import CAsync.Deinit
import CAsync.ServerTasks

namespace CAsync

open Faulting TaskPool

namespace AsyncServer

/-! ## 1. The clients -/

variable {S : Type}

/-- `f h` is the socket of the client `h`, and whether the task has started. -/
structure Clients (f : Handle → Option (Int × Bool)) (m : AsyncServer S) : Prop where
  fresh : ∀ {h fd}, f h = some (fd, false) → m.sockets fd = some .zero
  started : ∀ {h fd}, f h = some (fd, true) →
    ∃ c e, m.sockets fd = some c ∧ m.code h = .echo fd e ∧ EchoServed e c
  distinct : ∀ {h i fd b b'}, f h = some (fd, b) → f i = some (fd, b') → h = i
  /-- Nothing has happened on a socket that is not a client's. -/
  owned : ∀ {fd c}, m.sockets fd = some c → c = .zero ∨ ∃ h b, f h = some (fd, b)

/-- The client has been counted in `current_client_cnt`. -/
def counted (f : Handle → Option (Int × Bool)) (m : AsyncServer S) (h : Handle) : Bool :=
  match f h, m.code h with
  | some (_, true), .echo _ e =>
    match e.point with
    | .start => false
    | _ => true
  | _, _ => false

/-- The task that `accept_loop` is about to orphan. -/
def pending (m : AsyncServer S) : Option Handle :=
  match m.code ⟨3⟩ with
  | .orphanEcho h => some h
  | _ => none

namespace Clients

variable {f : Handle → Option (Int × Bool)} {m : AsyncServer S} {h i : Handle} {fd : Int} {b : Bool}

/-- A client has an open socket. -/
theorem isOpen (hf : Clients f m) (hh : f h = some (fd, b)) : ∃ c, m.sockets fd = some c := by
  cases b with
  | false => exact ⟨_, hf.fresh hh⟩
  | true =>
    obtain ⟨c, -, hc, -⟩ := hf.started hh
    exact ⟨c, hc⟩

/-- Only the code of a client that has started matters. -/
theorem congr {m' : AsyncServer S} (hf : Clients f m) (hsockets : m'.sockets = m.sockets)
    (hcode : ∀ h fd, f h = some (fd, true) → m'.code h = m.code h) : Clients f m' where
  fresh := fun hh => by
    rw [hsockets]
    exact hf.fresh hh
  started := fun hh => by
    rw [hsockets, hcode _ _ hh]
    exact hf.started hh
  distinct := hf.distinct
  owned := fun hfd => by
    rw [hsockets] at hfd
    exact hf.owned hfd

/-- A client that has started is told nothing by a switch. -/
theorem begins_eq (hh : f h = none ∨ ∃ fd, f h = some (fd, true)) : begins f h = f := by
  unfold begins
  funext i
  by_cases hi : i = h
  · rw [hi, Function.update_self]
    rcases hh with hh | ⟨fd, hh⟩ <;> rw [hh] <;> rfl
  · rw [Function.update_of_ne hi]

/-- **A client starts.** -/
theorem begins (hf : Clients f m) (hh : f h = some (fd, false)) {m' : AsyncServer S}
    (hsockets : m'.sockets = m.sockets)
    (hcode : m'.code = Function.update m.code h (.echo fd .init)) :
    Clients (begins f h) m' := by
  have hbegins : ∀ {i fd' b'}, CAsync.begins f h i = some (fd', b') →
      (i = h ∧ fd' = fd ∧ b' = true) ∨ i ≠ h ∧ f i = some (fd', b') := by
    intro i fd' b' hi
    unfold CAsync.begins at hi
    by_cases hih : i = h
    · rw [hih, Function.update_self, hh, Option.map_some, Option.some.injEq, Prod.mk.injEq] at hi
      exact .inl ⟨hih, hi.1.symm, hi.2.symm⟩
    · rw [Function.update_of_ne hih] at hi
      exact .inr ⟨hih, hi⟩
  have hback : ∀ {i fd' b'}, CAsync.begins f h i = some (fd', b') → ∃ b, f i = some (fd', b) := by
    intro i fd' b' hi
    rcases hbegins hi with ⟨rfl, rfl, -⟩ | ⟨-, hi⟩
    · exact ⟨_, hh⟩
    · exact ⟨_, hi⟩
  refine ⟨fun {i fd'} hi => ?_, fun {i fd'} hi => ?_, fun {i j fd' b b'} hi hj => ?_,
    fun {fd' c} hfd => ?_⟩
  · rcases hbegins hi with ⟨-, -, hb⟩ | ⟨-, hi⟩
    · cases hb
    · rw [hsockets]
      exact hf.fresh hi
  · rw [hsockets, hcode]
    rcases hbegins hi with ⟨rfl, rfl, -⟩ | ⟨hih, hi⟩
    · exact ⟨_, _, hf.fresh hh, Function.update_self _ _ _, .init⟩
    · rw [Function.update_of_ne hih]
      exact hf.started hi
  · obtain ⟨b₁, hi⟩ := hback hi
    obtain ⟨b₂, hj⟩ := hback hj
    exact hf.distinct hi hj
  · rw [hsockets] at hfd
    refine (hf.owned hfd).imp_right ?_
    rintro ⟨i, b', hi⟩
    unfold CAsync.begins
    by_cases hih : i = h
    · rw [hih, hh] at hi
      cases hi
      exact ⟨h, true, by rw [Function.update_self, hh, Option.map_some]⟩
    · exact ⟨i, b', by rwa [Function.update_of_ne hih]⟩

/-- **A client is created** for a socket that no other client has. -/
theorem create (hf : Clients f m) (hnew : f h = none) (hfd : m.sockets fd = some .zero)
    (hfree : ∀ i b, f i ≠ some (fd, b)) :
    Clients (Function.update f h (some (fd, false))) m := by
  have hcases : ∀ {i fd' b'}, Function.update f h (some (fd, false)) i = some (fd', b') →
      (i = h ∧ fd' = fd ∧ b' = false) ∨ i ≠ h ∧ f i = some (fd', b') := by
    intro i fd' b' hi
    by_cases hih : i = h
    · rw [hih, Function.update_self, Option.some.injEq, Prod.mk.injEq] at hi
      exact .inl ⟨hih, hi.1.symm, hi.2.symm⟩
    · rw [Function.update_of_ne hih] at hi
      exact .inr ⟨hih, hi⟩
  refine ⟨fun {i fd'} hi => ?_, fun {i fd'} hi => ?_, fun {i j fd' b b'} hi hj => ?_,
    fun {fd' c} hfd' => ?_⟩
  · rcases hcases hi with ⟨-, rfl, -⟩ | ⟨-, hi⟩
    · exact hfd
    · exact hf.fresh hi
  · rcases hcases hi with ⟨-, -, hb⟩ | ⟨-, hi⟩
    · cases hb
    · exact hf.started hi
  · rcases hcases hi with ⟨rfl, rfl, -⟩ | ⟨-, hi'⟩
    · rcases hcases hj with ⟨rfl, -, -⟩ | ⟨-, hj'⟩
      · rfl
      · exact absurd hj' (hfree j b')
    · rcases hcases hj with ⟨-, rfl, -⟩ | ⟨-, hj'⟩
      · exact absurd hi' (hfree i b)
      · exact hf.distinct hi' hj'
  · refine (hf.owned hfd').imp_right ?_
    rintro ⟨i, b', hi⟩
    refine ⟨i, b', ?_⟩
    rw [Function.update_of_ne, hi]
    rintro rfl
    rw [hnew] at hi
    cases hi

/-- **A client leaves**, and its socket is closed. -/
theorem remove (hf : Clients f m) (hh : f h = some (fd, b)) {m' : AsyncServer S}
    (hsockets : m'.sockets = Function.update m.sockets fd none) (hcode : m'.code = m.code) :
    Clients (Function.update f h none) m' := by
  have hcases : ∀ {i fd' b'}, Function.update f h none i = some (fd', b') →
      i ≠ h ∧ f i = some (fd', b') := by
    intro i fd' b' hi
    by_cases hih : i = h
    · rw [hih, Function.update_self] at hi
      cases hi
    · rw [Function.update_of_ne hih] at hi
      exact ⟨hih, hi⟩
  have hother : ∀ {i fd' b'}, i ≠ h → f i = some (fd', b') → m'.sockets fd' = m.sockets fd' := by
    intro i fd' b' hih hi
    rw [hsockets, Function.update_of_ne]
    rintro rfl
    exact hih (hf.distinct hi hh)
  refine ⟨fun {i fd'} hi => ?_, fun {i fd'} hi => ?_, fun {i j fd' b b'} hi hj => ?_,
    fun {fd' c} hfd' => ?_⟩
  · obtain ⟨hih, hi⟩ := hcases hi
    rw [hother hih hi]
    exact hf.fresh hi
  · obtain ⟨hih, hi⟩ := hcases hi
    rw [hother hih hi, hcode]
    exact hf.started hi
  · exact hf.distinct (hcases hi).2 (hcases hj).2
  · by_cases hfd : fd' = fd
    · rw [hsockets, hfd, Function.update_self] at hfd'
      cases hfd'
    · rw [hsockets, Function.update_of_ne hfd] at hfd'
      refine (hf.owned hfd').imp_right ?_
      rintro ⟨i, b', hi⟩
      refine ⟨i, b', ?_⟩
      rw [Function.update_of_ne, hi]
      rintro rfl
      rw [hh] at hi
      cases hi
      exact hfd rfl

/-- **A round of one client** leaves the others alone. -/
theorem round (hf : Clients f m) (hh : f h = some (fd, true)) {m' : AsyncServer S} {e : EchoTask}
    {c : Conn} (hserved : EchoServed e c)
    (hsockets : m'.sockets = Function.update m.sockets fd (some c))
    (hcode : m'.code = Function.update m.code h (.echo fd e)) : Clients f m' := by
  have hother : ∀ {i fd' b'}, i ≠ h → f i = some (fd', b') → m'.sockets fd' = m.sockets fd' := by
    intro i fd' b' hih hi
    rw [hsockets, Function.update_of_ne]
    rintro rfl
    exact hih (hf.distinct hi hh)
  refine ⟨fun {i fd'} hi => ?_, fun {i fd'} hi => ?_, hf.distinct, fun {fd' c} hfd' => ?_⟩
  · by_cases hih : i = h
    · rw [hih, hh] at hi
      cases hi
    · rw [hother hih hi]
      exact hf.fresh hi
  · by_cases hih : i = h
    · rw [hih, hh] at hi
      cases hi
      exact ⟨c, e, by rw [hsockets, Function.update_self], by rw [hih, hcode, Function.update_self],
        hserved⟩
    · rw [hother hih hi, hcode, Function.update_of_ne hih]
      exact hf.started hi
  · by_cases hfd : fd' = fd
    · exact .inr ⟨h, true, hfd ▸ hh⟩
    · rw [hsockets, Function.update_of_ne hfd] at hfd'
      exact hf.owned hfd'

/-- **A socket is accepted**, which was not open. -/
theorem accepted (hf : Clients f m) (hfd : m.sockets fd = none) {m' : AsyncServer S}
    (hsockets : m'.sockets = Function.update m.sockets fd (some .zero))
    (hcode : ∀ h fd, f h = some (fd, true) → m'.code h = m.code h) :
    Clients f m' ∧ ∀ i b, f i ≠ some (fd, b) := by
  have hfree : ∀ i b, f i ≠ some (fd, b) := by
    intro i b hi
    obtain ⟨c, hc⟩ := hf.isOpen hi
    rw [hfd] at hc
    cases hc
  have hother : ∀ {i fd' b'}, f i = some (fd', b') → m'.sockets fd' = m.sockets fd' := by
    intro i fd' b' hi
    rw [hsockets, Function.update_of_ne]
    rintro rfl
    exact hfree _ _ hi
  refine ⟨⟨fun {i fd'} hi => ?_, fun {i fd'} hi => ?_, hf.distinct, fun {fd' c} hfd' => ?_⟩, hfree⟩
  · rw [hother hi]
    exact hf.fresh hi
  · rw [hother hi, hcode _ _ hi]
    exact hf.started hi
  · by_cases hsame : fd' = fd
    · rw [hsockets, hsame, Function.update_self] at hfd'
      cases hfd'
      exact .inl rfl
    · rw [hsockets, Function.update_of_ne hsame] at hfd'
      exact hf.owned hfd'

end Clients

/-! ## 2. The server -/

/-- Where `accept_loop` is: with a socket in its hands, it is running. -/
inductive Accepting (m : AsyncServer S) (f : Handle → Option (Int × Bool)) : Prop
  | accept : m.code ⟨3⟩ = .accept → Accepting m f
  | callEcho {fd : Int} : m.code ⟨3⟩ = .callEcho fd → m.lib.running = ⟨3⟩ →
      m.sockets fd = some .zero → (∀ i b, f i ≠ some (fd, b)) → Accepting m f
  | orphanEcho {h : Handle} : m.code ⟨3⟩ = .orphanEcho h → m.lib.running = ⟨3⟩ → Accepting m f

/-- **The server between two steps**, with the model `a` of its library. -/
structure Serving (m : AsyncServer Graph) (a : Runtime TaskGraph ServerFn ServerArg) : Prop where
  same : SameRuntime TaskGraph.Represents m.lib a
  cast : Cast a m.pending
  stats : a.pool.stateOf ⟨2⟩ = some .running → m.code ⟨2⟩ = .stats
  accept : a.pool.stateOf ⟨3⟩ = some .running → Accepting m (clientOf a)
  clients : Clients (clientOf a) m
  closed : ∀ c ∈ m.closed, ∃ e, EchoServed e c ∧ e.point = .fail
  count : m.currentClientCnt = a.sched.tasks.countP (m.counted (clientOf a))
  /-- A node for `async_main`, one for each task in the queue, and one for each that has left. -/
  nodes : Accounts m.lib.sched (a.sched.tasks.length + 1 + m.closed.length)

namespace Serving

variable {m m' : AsyncServer Graph} {a b : Runtime TaskGraph ServerFn ServerArg} {r : OsReply}
  {next : Handle}

/-- The library does what its model does. -/
theorem libStep {s : Runtime Graph ServerFn ServerArg}
    (hsame : SameRuntime TaskGraph.Represents s a)
    {op : Op ServerFn ServerArg} {reply : Reply ServerFn ServerArg}
    (hok : CAsync.step a op = .ok (.next b reply)) :
    ∃ s', CAsync.step s op = .ok (.next s' reply) ∧ SameRuntime TaskGraph.Represents s' b := by
  have hstep := graphRefines.step hsame op
  rw [hok] at hstep
  obtain ⟨x, hx, hxy⟩ := hstep.ok_right
  cases hxy with
  | next _ hsame' => exact ⟨_, hx, hsame'⟩

/-- What the library allocates. -/
theorem allocates (hs : Serving m a) {op : Op ServerFn ServerArg}
    {reply : Reply ServerFn ServerArg} {s' : Runtime Graph ServerFn ServerArg}
    (hok : CAsync.step m.lib op = .ok (.next s' reply)) : Accounts s'.sched
      (a.sched.tasks.length + 1 + m.closed.length + if op.creates then 1 else 0) :=
  hs.nodes.moves hs.same.sched (Next.moves hok)

/-- A switch with `accept_loop` in `accept`. -/
theorem idle (hs : Serving m a) (hrun : m.lib.running = ⟨3⟩ → m.code ⟨3⟩ = .accept) :
    (a.pool.stateOf ⟨3⟩ = some .running → m.code ⟨3⟩ = .accept) ∧ m.pending = none := by
  constructor
  · intro hstate
    cases hs.accept hstate with
    | accept h => exact h
    | callEcho _ h => exact hrun h
    | orphanEcho _ h => exact hrun h
  · cases hp : m.pending with
    | none => rfl
    | some h =>
      have hthree := (hs.cast.pending h hp).1
      rw [← hs.same.running] at hthree
      unfold pending at hp
      rw [hrun hthree] at hp
      cases hp

/-- **A switch**: `next` goes on in `m`, whose library has been switched from `a` to `b`. -/
theorem resume {f : Handle → Option (Int × Bool)} {g : Handle → Option State}
    {u : Task ServerFn ServerArg} (ha : Cast a none) (hmem : next ∈ a.sched.tasks)
    (hne : next ≠ a.running) (hu : a.pool.slot next = some u) (hf : f next = clientOf a next)
    (hg : g next = a.pool.stateOf next)
    (hb : Cast b none) (hsame : SameRuntime TaskGraph.Represents m.lib b) (hrun : b.running = next)
    (hstates : b.pool.stateOf = Function.update g next (some .running))
    (hclients : clientOf b = begins f next) (hstats : g ⟨2⟩ = some .running → m.code ⟨2⟩ = .stats)
    (haccept : g ⟨3⟩ = some .running → m.code ⟨3⟩ = .accept) (hpending : m.pending = none)
    (hmf : Clients f m) (hclosed : ∀ c ∈ m.closed, ∃ e, EchoServed e c ∧ e.point = .fail)
    (hcount : m.currentClientCnt = b.sched.tasks.countP (m.counted f))
    (hnodes : Accounts m.lib.sched (b.sched.tasks.length + 1 + m.closed.length)) :
    ∃ m', deliver m u.resumed = .ok m' ∧ Serving m' b := by
  have hstate : ∀ i, i ≠ next → b.pool.stateOf i = g i := by
    intro i hi
    rw [hstates, Function.update_of_ne hi]
  rcases ha.resumed hmem hne hu with ⟨hinit, code, hentry, hresumed, h2, h3, hclient⟩ |
    ⟨hrunning, hresumed⟩
  · -- the task starts
    refine ⟨m.goto code, ?_, ?_⟩
    · rw [hresumed]
      unfold deliver
      dsimp only
      rw [hentry]
      rfl
    have hcode : (m.goto code).code = Function.update m.code next code := by
      unfold goto
      rw [hsame.running, hrun]
    have hkept : ∀ i, i ≠ next → (m.goto code).code i = m.code i := by
      intro i hi
      rw [hcode, Function.update_of_ne hi]
    have hcode3 : (m.goto code).code ⟨3⟩ = .accept ∨ (m.goto code).code ⟨3⟩ = m.code ⟨3⟩ := by
      by_cases hi : (⟨3⟩ : Handle) = next
      · rw [hcode, ← hi, Function.update_self]
        exact .inl (h3 hi.symm)
      · exact .inr (hkept _ hi)
    have hpending' : (m.goto code).pending = none := by
      unfold pending
      rcases hcode3 with h | h
      · rw [h]
      · rw [h]
        exact hpending
    refine ⟨hsame, by rwa [hpending'], fun hs => ?_, fun hs => ?_, ?_, hclosed, ?_, hnodes⟩
    · by_cases hi : (⟨2⟩ : Handle) = next
      · rw [hcode, ← hi, Function.update_self]
        exact h2 hi.symm
      · rw [hstate _ hi] at hs
        rw [hkept _ hi]
        exact hstats hs
    · by_cases hi : (⟨3⟩ : Handle) = next
      · refine .accept ?_
        rw [hcode, ← hi, Function.update_self]
        exact h3 hi.symm
      · rw [hstate _ hi] at hs
        refine .accept ?_
        rw [hkept _ hi]
        exact haccept hs
    · rw [hclients]
      cases hcl : f next with
      | none =>
        rw [Clients.begins_eq (.inl hcl)]
        refine hmf.congr rfl fun i fd hi => hkept i ?_
        rintro rfl
        rw [hcl] at hi
        cases hi
      | some x =>
        obtain ⟨fd, b'⟩ := x
        obtain ⟨rfl, hcode'⟩ := hclient fd b' (by rw [← hf, hcl])
        exact hmf.begins hcl rfl (by rw [hcode, hcode'])
    · have hsamecount : (m.goto code).counted (clientOf b) = m.counted f := by
        funext i
        unfold counted
        rw [hclients]
        by_cases hi : i = next
        · unfold begins
          rw [hi, Function.update_self, hcode, Function.update_self]
          cases hcl : f next with
          | none => rfl
          | some x =>
            obtain ⟨fd, b'⟩ := x
            obtain ⟨rfl, hcode'⟩ := hclient fd b' (by rw [← hf, hcl])
            rw [hcode']
            rfl
        · unfold begins
          rw [Function.update_of_ne hi, hkept i hi]
      rw [hsamecount]
      exact hcount
  · -- the task goes on
    refine ⟨m, by rw [hresumed]; rfl, ?_⟩
    have hbegins : begins f next = f := by
      refine Clients.begins_eq ?_
      cases hcl : f next with
      | none => exact .inl rfl
      | some x =>
        obtain ⟨fd, b'⟩ := x
        rw [hf] at hcl
        unfold clientOf at hcl
        rw [hu] at hcl
        obtain ⟨-, -, hst⟩ := Task.client_eq_some.mp hcl
        rw [hrunning] at hst
        cases b' with
        | false => cases hst
        | true => exact .inr ⟨fd, rfl⟩
    have hold : ∀ i, b.pool.stateOf i = some .running → g i = some .running := by
      intro i hi
      by_cases hin : i = next
      · rw [hin, hg, stateOf_eq hu, hrunning]
      · rwa [hstate i hin] at hi
    refine ⟨hsame, by rwa [hpending], fun hs => hstats (hold _ hs),
      fun hs => .accept (haccept (hold _ hs)), ?_, hclosed, ?_, hnodes⟩
    · rw [hclients, hbegins]
      exact hmf
    · rw [hclients, hbegins]
      exact hcount

/-! ## 3. The steps -/

/-- **`async_skip`.** -/
theorem skip (hs : Serving m a) (hrun : m.lib.running = ⟨3⟩ → m.code ⟨3⟩ = .accept) :
    ∃ m' b, m.switch .skip = .ok (.next m') ∧ Serving m' b ∧ Moved a b := by
  obtain ⟨hidle, hpend⟩ := hs.idle hrun
  have hc : Cast a none := by
    rw [← hpend]
    exact hs.cast
  obtain ⟨b, next, u, hok, hb, hmem, hne, hu, hbrun, hperm, hmoved, hstates, hclients⟩ :=
    hc.skip
  obtain ⟨s', hok', hsame'⟩ := libStep hs.same hok
  have hcount : m.currentClientCnt = b.sched.tasks.countP (m.counted (clientOf a)) := by
    rw [hperm.countP_eq]
    exact hs.count
  have hclients' : Clients (clientOf a) { m with lib := s' } :=
    hs.clients.congr rfl fun _ _ _ => rfl
  have hnodes : Accounts s'.sched (b.sched.tasks.length + 1 + m.closed.length) := by
    rw [hperm.length_eq]
    exact hs.allocates hok'
  obtain ⟨m', hdeliver, hm'⟩ := resume (m := { m with lib := s' }) hc hmem hne hu rfl rfl hb hsame'
    hbrun hstates hclients hs.stats hidle hpend hclients' hs.closed hcount hnodes
  refine ⟨m', b, ?_, hm', hmoved⟩
  unfold switch
  rw [hok', ok_bind]
  dsimp only
  rw [hdeliver, ok_bind]

/-- A started client is counted, once it is behind the start. -/
theorem counted_eq {f : Handle → Option (Int × Bool)} {h : Handle} {fd fd' : Int} {e : EchoTask}
    (hf : f h = some (fd, true)) (hcode : m.code h = .echo fd' e) :
    m.counted f h = true ↔ e.point ≠ .start := by
  unfold counted
  rw [hf, hcode]
  dsimp only
  cases e.point <;> simp

/-- Who is counted depends on the code of the clients only. -/
theorem counted_congr {f : Handle → Option (Int × Bool)}
    (hcode : ∀ h fd, f h = some (fd, true) → m'.code h = m.code h) :
    m'.counted f = m.counted f := by
  funext h
  unfold counted
  cases hf : f h with
  | none => rfl
  | some x =>
    obtain ⟨fd, b⟩ := x
    cases b with
    | false => rfl
    | true => rw [hcode h fd hf]

/-- **`async_return` of an `echo_loop`.** -/
theorem leaves (hs : Serving m a) {fd : Int} {e : EchoTask} {c : Conn}
    (hclient : clientOf a a.running = some (fd, true)) (hcode : m.code a.running = .echo fd e)
    (hserved : EchoServed e c) (hpoint : e.point = .fail) :
    ∃ m' b, (m.leave fd c).switch (.ret .null) = .ok (.next m') ∧ Serving m' b ∧ Moved a b := by
  obtain ⟨-, h2, h3⟩ := hs.cast.clientOf_isSome.mp ⟨fd, true, hclient⟩
  obtain ⟨hidle, hpend⟩ := hs.idle fun h => absurd (hs.same.running.symm.trans h) h3
  have hc : Cast a none := by
    rw [← hpend]
    exact hs.cast
  obtain ⟨b, next, u, hok, hb, hmem, hne, hu, hbrun, hqueue, hstates, hclients⟩ :=
    hc.ret hclient .null
  obtain ⟨s', hok', hsame'⟩ := libStep (s := (m.leave fd c).lib) hs.same hok
  let f := Function.update (clientOf a) a.running none
  have hout : a.running ∉ b.sched.tasks := by
    have hnd := hc.inv.graph.tasks_nodup
    rw [hqueue] at hnd
    exact (List.nodup_cons.mp hnd).1
  have hothers : ∀ i ∈ b.sched.tasks, m.counted f i = m.counted (clientOf a) i := by
    intro i hi
    have hne : i ≠ a.running := fun heq => hout (heq ▸ hi)
    unfold counted
    rw [show f i = clientOf a i from Function.update_of_ne hne _ _]
  have hself : m.counted (clientOf a) a.running = true :=
    (counted_eq hclient hcode).mpr (by rw [hpoint]; nofun)
  have hcount : m.currentClientCnt - 1 = b.sched.tasks.countP (m.counted f) := by
    have hsame : b.sched.tasks.countP (m.counted (clientOf a)) =
        b.sched.tasks.countP (m.counted f) :=
      List.countP_congr fun i hi => by rw [hothers i hi]
    rw [hs.count, hqueue, List.countP_cons_of_pos hself, hsame]
    omega
  have hclients' : Clients f { m.leave fd c with lib := s' } :=
    hs.clients.remove hclient rfl rfl
  have hclosed : ∀ c' ∈ (m.leave fd c).closed, ∃ e, EchoServed e c' ∧ e.point = .fail := by
    intro c' hc'
    rcases List.mem_append.mp hc' with hc' | hc'
    · exact hs.closed c' hc'
    · rw [List.mem_singleton.mp hc']
      exact ⟨e, hserved, hpoint⟩
  have hnodes : Accounts s'.sched (b.sched.tasks.length + 1 + (m.leave fd c).closed.length) := by
    have hlen : b.sched.tasks.length + 1 + (m.leave fd c).closed.length =
        a.sched.tasks.length + 1 + m.closed.length := by
      rw [hqueue]
      simp only [leave, List.length_append, List.length_cons, List.length_nil]
      omega
    rw [hlen]
    exact hs.allocates hok'
  have hmoved : Moved a b := .turns hqueue (List.append_nil _).symm (List.nil_subset _)
  obtain ⟨m', hdeliver, hm'⟩ :=
    resume (m := { m.leave fd c with lib := s' }) (f := f) hc hmem hne hu
    (Function.update_of_ne hne _ _) (Function.update_of_ne hne _ _) hb hsame' hbrun hstates hclients
    (fun h => hs.stats (by rwa [Function.update_of_ne (Ne.symm h2)] at h))
    (fun h => hidle (by rwa [Function.update_of_ne (Ne.symm h3)] at h)) hpend hclients' hclosed
    hcount hnodes
  refine ⟨m', b, ?_, hm', hmoved⟩
  unfold switch
  rw [hok', ok_bind]
  dsimp only
  rw [hdeliver, ok_bind]

/-- **A call of `accept_loop` that does not switch**: only its own code changes. -/
theorem accepts (hs : Serving m a) {code : ServerCode} (hlib : m'.lib = m.lib)
    (hcode : m'.code = Function.update m.code ⟨3⟩ code)
    (hclosed : m'.closed = m.closed) (hcnt : m'.currentClientCnt = m.currentClientCnt)
    (hpending : Cast a m'.pending) (hclients : Clients (clientOf a) m')
    (haccept : Accepting m' (clientOf a)) : Serving m' a := by
  have hthree : ∀ h fd, clientOf a h = some (fd, true) → m'.code h = m.code h := by
    intro h fd hh
    have hne := (hs.cast.clientOf_isSome.mp ⟨fd, true, hh⟩).2.2
    rw [hcode, Function.update_of_ne hne]
  refine ⟨by rw [hlib]; exact hs.same, hpending, fun h => ?_, fun _ => haccept, hclients, ?_, ?_,
    by rw [hlib, hclosed]; exact hs.nodes⟩
  · rw [hcode, Function.update_of_ne (by simp)]
    exact hs.stats h
  · rw [hclosed]
    exact hs.closed
  · rw [hcnt, counted_congr hthree]
    exact hs.count

/-- **A round of `accept_loop`.** -/
theorem acceptRound (hs : Serving m a) (hp : m.Possible r) (hrun : m.lib.running = ⟨3⟩)
    (hcode : m.code ⟨3⟩ = .accept) :
    ∃ m' b, m.acceptRound r.accept = .ok (.next m') ∧ Serving m' b ∧ Moved a b := by
  have hthree : ∀ (code : ServerCode) h fd, clientOf a h = some (fd, true) →
      Function.update m.code ⟨3⟩ code h = m.code h := by
    intro code h fd hh
    exact Function.update_of_ne (hs.cast.clientOf_isSome.mp ⟨fd, true, hh⟩).2.2 _ _
  have hnone : m.pending = none := (hs.idle fun _ => hcode).2
  unfold AsyncServer.acceptRound
  cases hr : r.accept with
  | again => exact hs.skip fun _ => hcode
  | failed => exact ⟨m, a, rfl, hs, .refl a⟩
  | client fd nonblock =>
    have hclosed : m.sockets fd = none := hp fd nonblock hr
    cases nonblock with
    | false =>
      have hclients : Clients (clientOf a) (m.setSocket fd .zero) ∧
          ∀ i b, clientOf a i ≠ some (fd, b) := hs.clients.accepted hclosed rfl fun _ _ _ => rfl
      refine ⟨m.setSocket fd .zero, a, rfl, ?_, .refl a⟩
      have hself : (m.setSocket fd .zero).code = Function.update m.code ⟨3⟩ .accept := by
        rw [← hcode, Function.update_eq_self]
        rfl
      exact hs.accepts rfl hself rfl rfl hs.cast hclients.1 (.accept hcode)
    | true =>
      have hupdate : ((m.setSocket fd .zero).goto (.callEcho fd)).code =
          Function.update m.code ⟨3⟩ (.callEcho fd) := by
        rw [← hrun]
        rfl
      have hself : ((m.setSocket fd .zero).goto (.callEcho fd)).code ⟨3⟩ = .callEcho fd := by
        rw [hupdate, Function.update_self]
      have hclients : Clients (clientOf a) ((m.setSocket fd .zero).goto (.callEcho fd)) ∧
          ∀ i b, clientOf a i ≠ some (fd, b) :=
        hs.clients.accepted hclosed rfl fun h fd' hh => by rw [hupdate, hthree _ h fd' hh]
      refine ⟨(m.setSocket fd .zero).goto (.callEcho fd), a, rfl,
        hs.accepts rfl hupdate rfl rfl ?_ hclients.1
          (.callEcho hself hrun (Function.update_self _ _ _) hclients.2), .refl a⟩
      unfold pending
      rw [hself]
      rw [← hnone]
      exact hs.cast

/-- **`async_call` by `accept_loop`.** -/
theorem calls (hs : Serving m a) {fd : Int} (hrun : m.lib.running = ⟨3⟩)
    (hcode : m.code ⟨3⟩ = .callEcho fd) (hfd : m.sockets fd = some .zero)
    (hfree : ∀ i b, clientOf a i ≠ some (fd, b)) :
    ∃ m' h b, m.create .echoLoop (.socket fd) = .ok (m', h) ∧
      Serving (m'.goto (.orphanEcho h)) b ∧ Moved a b := by
  have hnone : m.pending = none := by
    unfold pending
    rw [hcode]
  have hc : Cast a none := by
    rw [← hnone]
    exact hs.cast
  have harun : a.running = ⟨3⟩ := hs.same.running.symm.trans hrun
  obtain ⟨b, h, hok, hb, hbrun, htasks, hnew, hstates, hclients⟩ := hc.call harun fd
  obtain ⟨s', hok', hsame'⟩ := libStep hs.same hok
  let m' : AsyncServer Graph := { m with lib := s' }
  have hupdate : (m'.goto (.orphanEcho h)).code = Function.update m.code ⟨3⟩ (.orphanEcho h) := by
    have hs' : s'.running = ⟨3⟩ := hsame'.running.trans (hbrun.trans harun)
    rw [← hs']
    rfl
  have hself : (m'.goto (.orphanEcho h)).code ⟨3⟩ = .orphanEcho h := by
    rw [hupdate, Function.update_self]
  have hnothing : clientOf a h = none := by
    cases hcl : clientOf a h with
    | none => rfl
    | some x => exact absurd (hc.clientOf_isSome.mp ⟨x.1, x.2, hcl⟩).1 hnew
  have hthree : ∀ i fd', clientOf b i = some (fd', true) →
      (m'.goto (.orphanEcho h)).code i = m.code i := by
    intro i fd' hi
    rw [hupdate, Function.update_of_ne (hb.clientOf_isSome.mp ⟨fd', true, hi⟩).2.2]
  refine ⟨m', h, b, ?_, ⟨hsame', ?_, fun h2 => ?_, fun _ => ?_, ?_, hs.closed, ?_, ?_⟩,
    .stays hbrun htasks⟩
  · unfold create
    rw [hok', ok_bind]
  · unfold pending
    rw [hself]
    exact hb
  · have hne : (⟨2⟩ : Handle) ≠ h := fun heq => hnew (heq ▸ hc.stats.1)
    rw [hstates, Function.update_of_ne hne] at h2
    rw [hupdate, Function.update_of_ne (by simp)]
    exact hs.stats h2
  · exact .orphanEcho hself (hsame'.running.trans (hbrun.trans harun))
  · have hcreate := hs.clients.create hnothing hfd hfree
    rw [← hclients] at hcreate
    exact hcreate.congr rfl hthree
  · have hlast : m.counted (clientOf b) h = false := by
      unfold counted
      rw [hclients, Function.update_self]
    have hrest : a.sched.tasks.countP (m.counted (clientOf b)) =
        a.sched.tasks.countP (m.counted (clientOf a)) := by
      refine List.countP_congr fun i hi => ?_
      have hne : i ≠ h := fun heq => hnew (heq ▸ hi)
      unfold counted
      rw [hclients, Function.update_of_ne hne]
    have hgoto : (m'.goto (.orphanEcho h)).counted (clientOf b) = m.counted (clientOf b) :=
      counted_congr hthree
    rw [hgoto, htasks, List.countP_append, hrest, List.countP_singleton, hlast]
    exact hs.count
  · have hlen : b.sched.tasks.length + 1 + (m'.goto (.orphanEcho h)).closed.length =
        a.sched.tasks.length + 1 + m.closed.length + 1 := by
      rw [htasks, List.length_append, List.length_singleton]
      exact Nat.add_right_comm _ 1 _
    rw [hlen]
    exact hs.allocates hok'

/-- **`async_orphan` by `accept_loop`.** -/
theorem orphans (hs : Serving m a) {h : Handle} (hrun : m.lib.running = ⟨3⟩)
    (hcode : m.code ⟨3⟩ = .orphanEcho h) :
    ∃ m' b, m.orphan h = .ok m' ∧ Serving (m'.goto .accept) b ∧ Moved a b := by
  have hpend : m.pending = some h := by
    unfold pending
    rw [hcode]
  have hc : Cast a (some h) := by
    rw [← hpend]
    exact hs.cast
  have harun : a.running = ⟨3⟩ := hs.same.running.symm.trans hrun
  obtain ⟨b, hok, hb, hbrun, htasks, hstates, hclients⟩ := hc.orphan
  obtain ⟨s', hok', hsame'⟩ := libStep hs.same hok
  let m' : AsyncServer Graph := { m with lib := s' }
  have hupdate : (m'.goto .accept).code = Function.update m.code ⟨3⟩ .accept := by
    have hs' : s'.running = ⟨3⟩ := hsame'.running.trans (hbrun.trans harun)
    rw [← hs']
    rfl
  have hself : (m'.goto .accept).code ⟨3⟩ = .accept := by
    rw [hupdate, Function.update_self]
  have hthree : ∀ i fd', clientOf a i = some (fd', true) →
      (m'.goto .accept).code i = m.code i := by
    intro i fd' hi
    rw [hupdate, Function.update_of_ne (hc.clientOf_isSome.mp ⟨fd', true, hi⟩).2.2]
  refine ⟨m', b, ?_, ⟨hsame', ?_, fun h2 => ?_, fun _ => .accept hself, ?_, hs.closed, ?_, ?_⟩,
    .stays hbrun (by rw [htasks, List.append_nil])⟩
  · unfold AsyncServer.orphan
    rw [hok', ok_bind]
  · unfold pending
    rw [hself]
    exact hb
  · rw [hstates] at h2
    rw [hupdate, Function.update_of_ne (by simp)]
    exact hs.stats h2
  · rw [hclients]
    exact hs.clients.congr rfl hthree
  · rw [hclients, htasks, counted_congr hthree]
    exact hs.count
  · rw [htasks]
    exact hs.allocates hok'

/-- **A round of `echo_loop`** after which the task goes on. -/
theorem echoes (hs : Serving m a) {fd : Int} {e' : EchoTask} {c' : Conn}
    (hclient : clientOf a a.running = some (fd, true)) (hserved : EchoServed e' c')
    (hpoint : e'.point ≠ .start)
    (hsockets : m'.sockets = Function.update m.sockets fd (some c')) (hlib : m'.lib = m.lib)
    (hcode' : m'.code = Function.update m.code a.running (.echo fd e'))
    (hclosed : m'.closed = m.closed) (hcnt : m'.currentClientCnt = m.currentClientCnt +
      if m.counted (clientOf a) a.running then 0 else 1) : Serving m' a := by
  obtain ⟨-, h2, h3⟩ := hs.cast.clientOf_isSome.mp ⟨fd, true, hclient⟩
  have hother : ∀ i, i ≠ a.running → m'.code i = m.code i := by
    intro i hi
    rw [hcode', Function.update_of_ne hi]
  have hthree : m'.code ⟨3⟩ = m.code ⟨3⟩ := hother _ (Ne.symm h3)
  have hself : m'.counted (clientOf a) a.running = true :=
    (counted_eq hclient (by rw [hcode', Function.update_self])).mpr hpoint
  have hrest : ∀ i, i ≠ a.running → m'.counted (clientOf a) i = m.counted (clientOf a) i := by
    intro i hi
    unfold counted
    rw [hother i hi]
  have hnotthree : m.lib.running ≠ ⟨3⟩ := fun h => h3 (hs.same.running.symm.trans h)
  refine ⟨by rw [hlib]; exact hs.same, ?_, fun h => ?_, fun h => ?_, ?_, ?_, ?_,
    by rw [hlib, hclosed]; exact hs.nodes⟩
  · have hpending : m'.pending = m.pending := by
      unfold pending
      rw [hthree]
    rw [hpending]
    exact hs.cast
  · rw [hother _ (Ne.symm h2)]
    exact hs.stats h
  · refine .accept ?_
    rw [hthree]
    exact (hs.idle fun h => absurd h hnotthree).1 h
  · exact hs.clients.round hclient hserved hsockets hcode'
  · rw [hclosed]
    exact hs.closed
  · obtain ⟨rest, htasks⟩ := hs.cast.inv.exists_rest
    have hout : a.running ∉ rest := by
      have hnd := hs.cast.inv.graph.tasks_nodup
      rw [htasks] at hnd
      exact (List.nodup_cons.mp hnd).1
    have hsame : rest.countP (m'.counted (clientOf a)) = rest.countP (m.counted (clientOf a)) :=
      List.countP_congr fun i hi => by rw [hrest i fun heq => hout (heq ▸ hi)]
    rw [hcnt, hs.count, htasks, List.countP_cons, List.countP_cons, hself, hsame]
    cases m.counted (clientOf a) a.running with
    | false => simp
    | true => simp

/-- After a step: the server goes on, SIGPIPE has killed it, or `echo_loop` has faulted. -/
inductive Stepped (m : AsyncServer Graph) (a : Runtime TaskGraph ServerFn ServerArg) (r : OsReply) :
    Prop
  | next {m' : AsyncServer Graph} {b : Runtime TaskGraph ServerFn ServerArg} :
    m.step r = .ok (.next m') → Serving m' b → Moved a b → Stepped m a r
  | killed {fd : Int} {e : EchoTask} {c : Conn} : m.step r = .ok .killed →
    m.code m.lib.running = .echo fd e → m.sockets fd = some c →
    e.step c r.recv r.send = .ok .killed → Stepped m a r
  | fault {fd : Int} {e : EchoTask} {c : Conn} {f : Fault} : m.step r = .error f →
    m.code m.lib.running = .echo fd e → m.sockets fd = some c → EchoServed e c →
    e.point ≠ .fail → e.step c r.recv r.send = .error f → Stepped m a r

/-- **A round of `echo_loop`**, of whatever kind. -/
theorem echoRound (hs : Serving m a) {fd : Int} {e : EchoTask} {c : Conn}
    (hclient : clientOf a a.running = some (fd, true)) (hcode : m.code a.running = .echo fd e)
    (hfd : m.sockets fd = some c) (hserved : EchoServed e c) : Stepped m a r := by
  have h3 := (hs.cast.clientOf_isSome.mp ⟨fd, true, hclient⟩).2.2
  have hrunning : m.lib.running = a.running := hs.same.running
  have hnotthree : m.lib.running ≠ ⟨3⟩ := by rwa [hrunning]
  have hcode' : m.code m.lib.running = .echo fd e := by rwa [hrunning]
  have hstep : m.step r = m.echoRound fd e c r := by
    unfold AsyncServer.step
    rw [hcode']
    dsimp only
    rw [hfd]
  have hcounted := counted_eq hclient hcode
  have hkept : Function.update m.sockets fd (some c) = m.sockets := by
    rw [← hfd, Function.update_eq_self]
  unfold AsyncServer.echoRound at hstep
  split at hstep
  · -- `current_client_cnt++`
    rename_i hpoint
    have hnext : e.step c r.recv r.send = .ok (.next e.again c) := by
      unfold EchoTask.step
      rw [hpoint]
    have hfail : e.point ≠ .fail := by rw [hpoint]; nofun
    refine .next hstep (hs.echoes hclient (hserved.step hfail hnext) nofun ?_ rfl ?_ rfl ?_)
      (.refl a)
    · rw [hkept]
      rfl
    · unfold goto
      rw [← hrunning]
    · rw [if_neg (by rw [hcounted, hpoint]; simp)]
      rfl
  · rename_i hpoint
    obtain ⟨m', b, hleave, hm', hmoved⟩ := hs.leaves hclient hcode hserved hpoint
    exact .next (hstep.trans hleave) hm' hmoved
  · -- a round of a loop
    rename_i hstart hfail
    cases hnext : e.step c r.recv r.send with
    | error f =>
      rw [hnext] at hstep
      exact .fault hstep hcode' hfd hserved hfail hnext
    | ok next =>
      rw [hnext, ok_bind] at hstep
      cases next with
      | skip =>
        obtain ⟨m', b, hskip, hm', hmoved⟩ := hs.skip fun h => absurd h hnotthree
        exact .next (hstep.trans hskip) hm' hmoved
      | killed => exact .killed hstep hcode' hfd hnext
      | next e' c' =>
        refine .next hstep (hs.echoes hclient (hserved.step hfail hnext)
          (hserved.not_start hfail hnext) rfl rfl ?_ rfl ?_) (.refl a)
        · unfold goto
          rw [← hrunning]
          rfl
        · rw [if_pos (hcounted.mpr hstart), Int.add_zero]
          rfl

/-- **Every step.** -/
theorem step (hs : Serving m a) (hp : m.Possible r) : Stepped m a r := by
  have hrunning : m.lib.running = a.running := hs.same.running
  by_cases h2 : m.lib.running = ⟨2⟩
  · -- `server_stats`
    have hstate : a.pool.stateOf ⟨2⟩ = some .running := by
      rw [← h2, hrunning]
      exact hs.cast.inv.running
    have hcode := hs.stats hstate
    obtain ⟨m', b, hskip, hm', hmoved⟩ := hs.skip fun h => absurd (h2.symm.trans h) (by simp)
    refine .next ?_ hm' hmoved
    unfold AsyncServer.step
    rw [h2, hcode]
    exact hskip
  by_cases h3 : m.lib.running = ⟨3⟩
  · -- `accept_loop`
    have hstate : a.pool.stateOf ⟨3⟩ = some .running := by
      rw [← h3, hrunning]
      exact hs.cast.inv.running
    cases hs.accept hstate with
    | accept hcode =>
      obtain ⟨m', b, haccept, hm', hmoved⟩ := hs.acceptRound hp h3 hcode
      refine .next ?_ hm' hmoved
      unfold AsyncServer.step
      rw [h3, hcode]
      exact haccept
    | callEcho hcode _ hfd hfree =>
      obtain ⟨m', h, b, hcall, hm', hmoved⟩ := hs.calls h3 hcode hfd hfree
      refine .next ?_ hm' hmoved
      unfold AsyncServer.step
      rw [h3, hcode]
      dsimp only
      rw [hcall, ok_bind]
    | orphanEcho hcode _ =>
      obtain ⟨m', b, horphan, hm', hmoved⟩ := hs.orphans h3 hcode
      refine .next ?_ hm' hmoved
      unfold AsyncServer.step
      rw [h3, hcode]
      dsimp only
      rw [horphan, ok_bind]
  · -- an `echo_loop`
    rw [hrunning] at h2 h3
    obtain ⟨fd, b, hclient⟩ := hs.cast.clientOf_isSome.mpr ⟨hs.cast.inv.running_mem, h2, h3⟩
    have hb : b = true := by
      obtain ⟨u, hu, hrun⟩ := hs.cast.inv.running_task
      have hclient' := hclient
      unfold clientOf at hclient'
      rw [hu] at hclient'
      obtain ⟨-, -, hstate⟩ := Task.client_eq_some.mp hclient'
      rw [hrun] at hstate
      cases b with
      | false => cases hstate
      | true => rfl
    subst hb
    obtain ⟨c, e, hfd, hcode, hserved⟩ := hs.clients.started hclient
    exact hs.echoRound hclient hcode hfd hserved

end Serving

end AsyncServer
end CAsync
