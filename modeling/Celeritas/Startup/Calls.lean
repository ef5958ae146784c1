import Celeritas.Startup.Init

/-!
# The calls of `server_shutdown` while the server starts

`main` starts the signal thread first and fills `server` afterwards. Whoever calls
`server_shutdown` reads its fields:

* the signal thread, on SIGTERM or if `sigwait` fails, from the moment it exists;
* the wait-room thread, if `io_watcher_create` fails, from the moment it exists;
* `main`, if it cannot start the signal thread, or has no memory for a queue.

Nobody waits for the fields to be there. They are if and only if the call comes from the
signal thread, after `worker_init` has returned, with all its threads and queues made
(`ready_iff`). A run ends when the process exits, so it may end anywhere.
-/

set_option autoImplicit false

namespace Celeritas

open Lib

/-! ## The threads -/

inductive MainPc
  /-- before the `pthread_create` of the signal thread -/
  | createSignal
  /-- in `worker_init`, with these statements to do; with none, `main` waits for the end -/
  | init (todo : List InitOp)

inductive StartAction
  /-- the next statement of `main`, and whether the call in it succeeds -/
  | main (ok : Bool)
  | sigterm
  | sigwaitFailed
  /-- `io_watcher_create` in the wait-room thread, and whether its calls succeed -/
  | watcher (ok : Bool)

structure Startup where
  main : MainPc := .createSignal
  built : Built := {}
  /-- the wait-room thread has its watcher -/
  watching : Bool := false
  /-- the threads that have called `server_shutdown`, which does not return -/
  inShutdown : List ThreadName := []

/-- Whose step an action is. -/
def StartAction.thread : StartAction → ThreadName
  | .main _ => .main
  | .sigterm => .signal
  | .sigwaitFailed => .signal
  | .watcher _ => .waitRoom

namespace Startup

/-- The thread is there, and not in `server_shutdown`. -/
def running (s : Startup) (t : ThreadName) : Bool :=
  (t == .main || s.built.created.contains t) && !s.inShutdown.contains t

/-- The action is a call of `server_shutdown`. -/
def calls (s : Startup) : StartAction → Bool
  | .main ok =>
    match s.main with
    | .createSignal => !ok
    | .init (.mallocQueue _ :: _) => !ok
    | .init _ => false
  | .sigterm => true
  | .sigwaitFailed => true
  | .watcher ok => !s.watching && !ok

/-- Any other step. -/
def goOn (c : StartConfig) (s : Startup) : StartAction → Option Startup
  | .main ok =>
    match s.main with
    | .createSignal => some { s with
        main := .init (workerInit c.nWorkers)
        built := { s.built with created := started s.built.created .signal ok } }
    | .init (op :: todo) =>
      (s.built.exec c (op, ok)).map fun b => { s with main := .init todo, built := b }
    | .init [] => none
  | .watcher _ => if s.watching then none else some { s with watching := true }
  | _ => none

def step (c : StartConfig) (s : Startup) (a : StartAction) : Option Startup :=
  if s.running a.thread then
    if s.calls a then some { s with inShutdown := a.thread :: s.inShutdown } else s.goOn c a
  else none

/-- The server is as `server_shutdown` takes it to be, when thread `t` calls it. -/
structure Ready (c : StartConfig) (s : Startup) (t : ThreadName) : Prop where
  queue : ∀ q, s.built.server.queue q = some .initialised
  joined : ∀ h ∈ s.built.server.joined, ∃ u, h = some u ∧ u ∈ s.built.created ∧ u ≠ t
  fd : ∀ tls, s.built.server.fd tls = c.sock tls

/-- Every call finds it so. -/
def CalledReady (c : StartConfig) (s : Startup) (a : StartAction) (_ : Startup) : Prop :=
  s.calls a = true → s.Ready c a.thread

/-- Every call comes from the signal thread, after `worker_init`, of whose calls none failed. -/
def CalledLate (s : Startup) (a : StartAction) (_ : Startup) : Prop :=
  s.calls a = true → a.thread = .signal ∧ s.main = .init [] ∧ s.built.failed = []

end Startup

/-! ## The threads together -/

namespace Startup

variable {c : StartConfig}

/-- `main` has executed a first part of `worker_init`, and nobody else writes to `server`. -/
def Progress (c : StartConfig) (s : Startup) : Prop :=
  match s.main with
  | .createSignal => s.built = {}
  | .init todo => ∃ done ok, done ++ todo = workerInit c.nWorkers ∧
      ({ created := [.signal] } : Built).execAll c ok done = some s.built

theorem Progress.main {s s' : Startup} {ok : Bool} (h : s.Progress c)
    (hc : s.calls (.main ok) = false) (hs : s.goOn c (.main ok) = some s') : s'.Progress c := by
  cases hpc : s.main with
  | createSignal =>
    simp only [Progress, hpc] at h
    simp only [calls, hpc, Bool.not_eq_false'] at hc
    simp only [goOn, hpc, Option.some.injEq] at hs
    subst hs
    exact ⟨[], fun _ => true, rfl, by simp [Built.execAll, run, h, hc, started]⟩
  | init todo =>
    simp only [Progress, hpc] at h
    obtain ⟨done, ok', hscript, hbuilt⟩ := h
    cases todo with
    | nil => simp [goOn, hpc] at hs
    | cons op todo =>
      simp only [goOn, hpc, Option.map_eq_some_iff] at hs
      obtain ⟨b, hexec, rfl⟩ := hs
      -- the statement is new, so what the others came to is not touched
      have hnew := Built.not_mem_of_append hscript List.mem_cons_self
      refine ⟨done ++ [op], Function.update ok' op ok, by simp [hscript], ?_⟩
      have hsame : ∀ op' ∈ done, Function.update ok' op ok op' = ok' op' := fun op' hop' =>
        Function.update_of_ne (fun heq : op' = op => hnew (heq ▸ hop')) _ _
      rw [Built.execAll_append, Built.execAll_congr _ hsame, hbuilt]
      simp [Built.execAll, run, hexec]

theorem Progress.step {s s' : Startup} {a : StartAction} (h : s.Progress c)
    (hs : s.step c a = some s') : s'.Progress c := by
  unfold Startup.step at hs
  split at hs
  · split at hs
    · obtain rfl := Option.some.inj hs
      exact h
    · rename_i hc
      cases a with
      | main ok => exact h.main (Bool.eq_false_iff.mpr hc) hs
      | watcher ok =>
        simp only [goOn] at hs
        split at hs
        · exact absurd hs (by simp)
        · obtain rfl := Option.some.inj hs
          exact h
      | _ => exact absurd hs (by simp [goOn])
  · exact absurd hs (by simp)

/-- The handle of the HTTPS listener is stored last. -/
theorem Progress.todo_nil {s : Startup} (h : s.Progress c)
    (hl : s.built.server.listener true ≠ none) : s.main = .init [] := by
  cases hpc : s.main with
  | createSignal =>
    simp only [Progress, hpc] at h
    exact absurd (by rw [h]) hl
  | init todo =>
    simp only [Progress, hpc] at h
    obtain ⟨done, ok, hscript, hbuilt⟩ := h
    cases todo with
    | nil => rfl
    | cons op todo =>
      have hmem := Built.setListener_mem hscript (List.cons_ne_nil op todo)
      exact absurd (Built.execAll_listener hbuilt (Built.not_mem_of_append hscript hmem)) hl

theorem Progress.result {s : Startup} (h : s.Progress c) (hpc : s.main = .init []) :
    ∃ ok, Built.Result c ok s.built := by
  simp only [Progress, hpc] at h
  obtain ⟨done, ok, hscript, hbuilt⟩ := h
  rw [List.append_nil] at hscript
  exact ⟨ok, Built.result (hscript ▸ hbuilt)⟩

theorem handle_eq_some {t u : ThreadName} {r : Bool} : handle t r = some u ↔ u = t ∧ r = true := by
  cases r <;> simp [handle, eq_comm]

theorem mem_joined {v : Server} {h : Pthread} : h ∈ v.joined ↔
    (∃ tls, h = v.listener tls) ∨ h = v.waitRoomThread ∨
      ∃ i < v.nWorkers, h = v.workers.bind fun w => w i := by
  simp only [Server.joined, List.cons_append, List.nil_append, List.mem_cons, List.mem_map,
    List.mem_range, Bool.exists_bool, or_assoc, eq_comm]

/-- **One call.** -/
theorem ready_iff_late {s : Startup} {a : StartAction} (h : s.Progress c)
    (hc : s.calls a = true) : s.Ready c a.thread ↔
      a.thread = .signal ∧ s.main = .init [] ∧ s.built.failed = [] := by
  constructor
  · rintro ⟨hqueue, hjoined, _⟩
    -- a handle that is joined has been stored
    have hsome : ∀ {t : ThreadName} {r : Bool}, handle t r ∈ s.built.server.joined →
        r = true ∧ t ≠ a.thread := by
      intro t r hm
      obtain ⟨u, hu, _, hne⟩ := hjoined _ hm
      obtain ⟨rfl, hr⟩ := handle_eq_some.mp hu
      exact ⟨hr, hne⟩
    have hpc : s.main = .init [] := by
      apply h.todo_nil
      obtain ⟨u, hu, _⟩ := hjoined _ (mem_joined.mpr (.inl ⟨true, rfl⟩))
      simp [hu]
    obtain ⟨ok, hres⟩ := h.result hpc
    have hwr := hsome (hres.waitRoom ▸ mem_joined.mpr (.inr (.inl rfl)))
    refine ⟨?_, hpc, hres.failed.mpr ⟨⟨?_, hwr.1⟩, ?_, ?_⟩⟩
    · cases a with
      | main ok => simp [calls, hpc] at hc
      | watcher ok => exact absurd rfl hwr.2
      | _ => rfl
    · intro q
      have hq := hqueue q
      rw [hres.queue q] at hq
      by_contra hok
      simp [hok] at hq
    · intro i hi
      refine (hsome (hres.workers i hi ▸ mem_joined.mpr (.inr (.inr ⟨i, ?_, rfl⟩)))).1
      rw [hres.nWorkers]
      exact hi
    · intro tls
      exact (hsome (hres.listener tls ▸ mem_joined.mpr (.inl ⟨tls, rfl⟩))).1
  · rintro ⟨ha, hpc, hfailed⟩
    obtain ⟨ok, hres⟩ := h.result hpc
    obtain ⟨⟨hq, hwr⟩, hw, hl⟩ := hres.failed.mp hfailed
    refine ⟨fun q => ?_, fun g hg => ?_, hres.fd⟩
    · rw [hres.queue q, hq q]
      rfl
    · rw [ha]
      rcases mem_joined.mp hg with ⟨tls, rfl⟩ | rfl | ⟨i, hi, rfl⟩
      · rw [hres.listener tls, hl tls]
        exact ⟨_, rfl, hres.created_listener tls (hl tls), by simp⟩
      · rw [hres.waitRoom, hwr]
        exact ⟨_, rfl, hres.created_waitRoom hwr, by simp⟩
      · rw [hres.nWorkers] at hi
        rw [hres.workers i hi, hw i hi]
        exact ⟨_, rfl, hres.created_worker i hi (hw i hi), by simp⟩

/-- **`server_shutdown` finds the server initialised in exactly the runs in which only the
signal thread calls it, after `worker_init` has made everything.** -/
theorem ready_iff (c : StartConfig) (as : List StartAction) :
    EachStep (step c) (CalledReady c) {} as ↔ EachStep (step c) CalledLate {} as := by
  have h₀ : ({} : Startup).Progress c := rfl
  constructor
  · refine EachStep.imp (J := Progress c) (fun _ _ _ h hs _ => h.step hs) ?_ as h₀
    intro s a s' h _ hready hc
    exact (ready_iff_late h hc).mp (hready hc)
  · refine EachStep.imp (J := Progress c) (fun _ _ _ h hs _ => h.step hs) ?_ as h₀
    intro s a s' h _ hlate hc
    exact (ready_iff_late h hc).mpr (hlate hc)

/-! ## Two calls that find it otherwise -/

def oneWorker : StartConfig := ⟨fun tls => if tls then 4 else 3, 1⟩

/-- SIGTERM before the first statement of `worker_init`: the queues are null, and nothing
that is joined has been created. -/
theorem early_sigterm : ∃ s : Startup,
    run (step oneWorker) {} [.main true] = some s ∧ s.calls .sigterm = true ∧
      s.built.server.queue .work = none ∧ s.built.server.joined = [none, none, none] ∧
      ¬ EachStep (step oneWorker) (CalledReady oneWorker) {} [.main true, .sigterm] := by
  refine ⟨_, rfl, rfl, rfl, rfl, fun h => ?_⟩
  have hready := ((h _ rfl).2 _ rfl).1 rfl
  exact absurd (hready.queue .work) (by simp)

/-- Everything is there, and the wait-room thread cannot create its watcher: it joins
itself. -/
theorem watcher_joins_itself : ∃ s : Startup,
    run (step oneWorker) {} (List.replicate 18 (.main true)) = some s ∧ s.main = .init [] ∧
      s.built.failed = [] ∧ s.calls (.watcher false) = true ∧
      s.built.server.waitRoomThread = some (StartAction.watcher false).thread ∧
      ¬ s.Ready oneWorker .waitRoom := by
  refine ⟨_, rfl, rfl, rfl, rfl, rfl, fun h => ?_⟩
  obtain ⟨u, hu, _, hne⟩ := h.joined _ (mem_joined.mpr (.inr (.inl rfl)))
  exact hne (Option.some.inj hu).symm

end Startup

end Celeritas
