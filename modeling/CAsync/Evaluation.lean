/-
# What a structured program does, and how long it takes

`Evaluates prog b v n`: the body `b` returns `v`, and `n` bounds the steps that it and the tasks
it creates take, polling apart.  `Does` says the same of a task in the middle of its body, given
the values of the tasks it has created.
-/
import CAsync.Programs

namespace CAsync

variable {F V : Type} {prog : F → V → Body F V}

/-! ## 1. Bodies -/

/-- One of the tasks of a fan-out: its call, its value and its cost. -/
structure Job (F V : Type) where
  call : F × V
  value : V
  cost : Nat

/-- The cost of the calls of a fan-out. -/
def Job.costs : List (Job F V) → Nat
  | [] => 0
  | j :: jobs => j.cost + 1 + costs jobs

/-- The value of a body and its cost. -/
inductive Evaluates (prog : F → V → Body F V) : Body F V → V → Nat → Prop
  | ret (data : V) : Evaluates prog (.ret data) data 1
  | skip {next : Body F V} {v : V} {n : Nat} (rest : Evaluates prog next v n) :
    Evaluates prog (.skip next) v (n + 1)
  | call {fn : F} {arg u v : V} {freed : Bool} {next : V → Body F V} {m n : Nat}
    (child : Evaluates prog (prog fn arg) u m) (rest : Evaluates prog (next u) v n) :
    Evaluates prog (.call fn arg freed next) v (m + n + 5)
  | fanOut {calls : List (F × V)} {freed : { l : List Nat // l.Nodup ∧ ∀ i ∈ l, i < calls.length }}
    {next : List V → Body F V} {v : V} {n : Nat} (jobs : List (Job F V))
    (hcalls : calls = jobs.map Job.call)
    (children : ∀ j ∈ jobs, Evaluates prog (prog j.call.1 j.call.2) j.value j.cost)
    (rest : Evaluates prog (next (jobs.map Job.value)) v n) :
    Evaluates prog (.fanOut calls freed next) v (Job.costs jobs + freed.1.length + n + 4)

/-- The jobs of a fan-out whose tasks all have values. -/
theorem exists_jobs {eval : F × V → Option V} {calls : List (F × V)} {vs : List V}
    (hvs : calls.mapM eval = some vs)
    (heval : ∀ c v, eval c = some v → ∃ n, Evaluates prog (prog c.1 c.2) v n) :
    ∃ jobs : List (Job F V), calls = jobs.map Job.call ∧ vs = jobs.map Job.value ∧
      ∀ j ∈ jobs, Evaluates prog (prog j.call.1 j.call.2) j.value j.cost := by
  induction calls generalizing vs with
  | nil =>
    cases hvs
    exact ⟨[], rfl, rfl, fun j hj => absurd hj List.not_mem_nil⟩
  | cons c calls ih =>
    rw [List.mapM_cons] at hvs
    obtain ⟨v, hv, hvs⟩ := Option.bind_eq_some_iff.mp hvs
    obtain ⟨us, hus, hvs⟩ := Option.bind_eq_some_iff.mp hvs
    cases hvs
    obtain ⟨n, hn⟩ := heval c v hv
    obtain ⟨jobs, rfl, rfl, hjobs⟩ := ih hus
    refine ⟨⟨c, v, n⟩ :: jobs, rfl, rfl, fun j hj => ?_⟩
    rcases List.mem_cons.mp hj with rfl | hj
    · exact hn
    · exact hjobs j hj

/-- **A body that has a value sequentially has a cost.** -/
theorem Body.eval_evaluates {fuel : Nat} {b : Body F V} {v : V}
    (h : Body.eval prog fuel b = some v) : ∃ n, Evaluates prog b v n := by
  induction fuel generalizing b v with
  | zero => cases h
  | succ fuel ih =>
    cases b with
    | ret data =>
      cases h
      exact ⟨1, .ret v⟩
    | skip next =>
      obtain ⟨n, hn⟩ := ih (b := next) h
      exact ⟨n + 1, .skip hn⟩
    | call fn arg freed next =>
      obtain ⟨u, hu, h⟩ := Option.bind_eq_some_iff.mp h
      obtain ⟨m, hm⟩ := ih hu
      obtain ⟨n, hn⟩ := ih h
      exact ⟨m + n + 5, .call hm hn⟩
    | fanOut calls freed next =>
      obtain ⟨vs, hvs, h⟩ := Option.bind_eq_some_iff.mp h
      obtain ⟨jobs, hcalls, rfl, hjobs⟩ := exists_jobs hvs fun c v hv => ih hv
      obtain ⟨n, hn⟩ := ih h
      exact ⟨_, .fanOut jobs hcalls hjobs hn⟩

/-! ## 2. Tasks in the middle of their bodies -/

/-- The tasks that a task has created and has not left behind yet. -/
def Code.children : Code F V → List Handle
  | .body _ => []
  | .called h _ _ => [h]
  | .awaiting h _ _ => [h]
  | .calling handles _ _ _ => handles
  | .awaitAll handles _ _ => handles
  | .freeing handles _ => handles

/-- The tasks that a task waits for, once it polls. -/
def Code.waitsFor : Code F V → List Handle
  | .awaiting h _ _ => [h]
  | .awaitAll handles _ _ => handles
  | _ => []

theorem Code.waitsFor_children {code : Code F V} {h : Handle} (hh : h ∈ code.waitsFor) :
    h ∈ code.children := by
  cases code with
  | awaiting k freed next => exact hh
  | awaitAll handles freed next => exact hh
  | body b => cases hh
  | called k freed next => cases hh
  | calling handles todo freed next => cases hh
  | freeing handles b => cases hh

/-- The value of a task at `code` and its cost, where `value` are the values of its children. -/
inductive Does (prog : F → V → Body F V) (value : Handle → V) : Code F V → V → Nat → Prop
  | body {b : Body F V} {v : V} {n : Nat} (rest : Evaluates prog b v n) :
    Does prog value (.body b) v n
  | called {h : Handle} {freed : Bool} {next : V → Body F V} {v : V} {n : Nat}
    (rest : Evaluates prog (next (value h)) v n) : Does prog value (.called h freed next) v (n + 4)
  | awaiting {h : Handle} {freed : Bool} {next : V → Body F V} {v : V} {n : Nat}
    (rest : Evaluates prog (next (value h)) v n) :
    Does prog value (.awaiting h freed next) v (n + 3)
  | calling {handles : List Handle} {todo : List (F × V)} {freed : List Nat}
    {next : List V → Body F V} {v : V} {n : Nat} (jobs : List (Job F V))
    (htodo : todo = jobs.map Job.call)
    (children : ∀ j ∈ jobs, Evaluates prog (prog j.call.1 j.call.2) j.value j.cost)
    (hfreed : freed.Nodup)
    (rest : Evaluates prog (next (handles.map value ++ jobs.map Job.value)) v n) :
    Does prog value (.calling handles todo freed next) v
      (Job.costs jobs + freed.length + n + 3)
  | awaitAll {handles : List Handle} {freed : List Nat} {next : List V → Body F V} {v : V}
    {n : Nat} (hfreed : freed.Nodup) (rest : Evaluates prog (next (handles.map value)) v n) :
    Does prog value (.awaitAll handles freed next) v (freed.length + n + 2)
  | freeing {handles : List Handle} {b : Body F V} {v : V} {n : Nat}
    (rest : Evaluates prog b v n) :
    Does prog value (.freeing handles b) v (handles.length + n + 1)

/-- Only the values of its children matter to a task. -/
theorem Does.congr {value value' : Handle → V} {code : Code F V} {v : V} {n : Nat}
    (h : Does prog value code v n) (hvalue : ∀ k ∈ code.children, value' k = value k) :
    Does prog value' code v n := by
  cases h with
  | body rest => exact .body rest
  | called rest => exact .called (by rwa [hvalue _ List.mem_cons_self])
  | awaiting rest => exact .awaiting (by rwa [hvalue _ List.mem_cons_self])
  | @calling handles _ _ _ _ _ jobs htodo children hfreed rest =>
    have hmap : handles.map value' = handles.map value := List.map_congr_left hvalue
    exact .calling jobs htodo children hfreed (by rwa [hmap])
  | @awaitAll handles _ _ _ _ hfreed rest =>
    have hmap : handles.map value' = handles.map value := List.map_congr_left hvalue
    exact .awaitAll hfreed (by rwa [hmap])
  | freeing rest => exact .freeing rest

/-- What is left to free after an `await` of `h`. -/
theorem mem_freed {freed : Bool} {h k : Handle} (hk : k ∈ if freed then [h] else []) : k = h := by
  split at hk
  · exact List.mem_singleton.mp hk
  · cases hk

theorem nodup_freed (freed : Bool) (h : Handle) : (if freed then [h] else []).Nodup := by
  split
  · exact List.nodup_singleton _
  · exact List.nodup_nil

theorem length_freed_le (freed : Bool) (h : Handle) : (if freed then [h] else []).length ≤ 1 := by
  split <;> simp

theorem Evaluates.pos {b : Body F V} {v : V} {n : Nat} (h : Evaluates prog b v n) : 0 < n := by
  cases h <;> omega

end CAsync
