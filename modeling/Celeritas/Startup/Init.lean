import Celeritas.Queue
import Celeritas.Lib.Run
import Mathlib.Data.List.Nodup
import Mathlib.Data.List.Range

/-!
# `worker_init`

What `server_shutdown` reads is written by `main` alone, in `worker_init`: a straight line
of statements, with a loop over the workers in it. Here each is a step on `server`, on the
local variables and on what the calls have come to, so that other threads can be put in
between. Their failures are only logged, or not even that; only a missing queue is fatal.
-/

set_option autoImplicit false

namespace Celeritas

open Lib

inductive ThreadName
  | main
  | signal
  | waitRoom
  | worker (i : ℕ)
  | listener (tls : Bool)
  deriving DecidableEq

/-- `pthread_t`. `none` is what no `pthread_create` has stored. -/
abbrev Pthread := Option ThreadName

/-- What a `work_queue_t *` that is not null points to. -/
inductive QueueMem
  /-- from `malloc`, and `queue_init` was not called or has failed -/
  | raw
  | initialised
  deriving DecidableEq

/-- `server_t`; `true` is the HTTPS listener. -/
structure Server where
  fd : Bool → ℕ := fun _ => 0
  queue : QueueName → Option QueueMem := fun _ => none
  nWorkers : ℕ := 0
  workers : Option (ℕ → Pthread) := none
  listener : Bool → Pthread := fun _ => none
  waitRoomThread : Pthread := none

/-- What `server_shutdown` joins. -/
def Server.joined (v : Server) : List Pthread :=
  [v.listener false, v.listener true, v.waitRoomThread] ++
    (List.range v.nWorkers).map fun i => v.workers.bind fun w => w i

/-! ## `worker_init` -/

/-- Its statements that touch a queue, a thread or a field of `server`. -/
inductive InitOp
  | setFd (tls : Bool)
  | mallocQueue (q : QueueName)
  | initQueue (q : QueueName)
  | setQueue (q : QueueName)
  | createWaitRoom
  | setWaitRoom
  | setNWorkers
  | mallocWorkers
  | createWorker (i : ℕ)
  | createListener (tls : Bool)
  | setListener (tls : Bool)
  deriving DecidableEq

/-- `worker_init`, for `n` workers. -/
def workerInit (n : ℕ) : List InitOp :=
  [.setFd false, .setFd true,
    .mallocQueue .work, .initQueue .work, .mallocQueue .wait, .initQueue .wait,
    .setQueue .work, .setQueue .wait,
    .createWaitRoom, .setWaitRoom,
    .setNWorkers, .mallocWorkers] ++
  (List.range n).map .createWorker ++
  [.createListener false, .setListener false, .createListener true, .setListener true]

/-- What `worker_init` is called with, and `worker_threads`. -/
structure StartConfig where
  sock : Bool → ℕ
  nWorkers : ℕ

/-- `server`, the local variables of `worker_init`, and what its calls have come to. -/
structure Built where
  server : Server := {}
  /-- `work_queue` and `wait_queue` -/
  queue : QueueName → Option QueueMem := fun _ => none
  /-- `wr_thread` -/
  waitRoom : Pthread := none
  /-- `http_listener` and `https_listener` -/
  listener : Bool → Pthread := fun _ => none
  created : List ThreadName := []
  /-- the calls of `queue_init` and `pthread_create` that failed -/
  failed : List InitOp := []

/-- What a `pthread_create` leaves in its variable. -/
def handle (t : ThreadName) (ok : Bool) : Pthread := if ok then some t else none

def started (created : List ThreadName) (t : ThreadName) (ok : Bool) : List ThreadName :=
  if ok then t :: created else created

def noted (failed : List InitOp) (op : InitOp) (ok : Bool) : List InitOp :=
  if ok then failed else op :: failed

namespace Built

/-- One statement; `ok` is whether the call in it succeeds. The two `malloc`s of a queue
call `server_shutdown` if they fail, and a worker's handle is stored through a pointer. -/
def exec (c : StartConfig) (b : Built) : InitOp × Bool → Option Built
  | (.setFd tls, _) =>
    some { b with server := { b.server with
      fd := Function.update b.server.fd tls (c.sock tls) } }
  | (.mallocQueue q, ok) =>
    if ok then some { b with queue := Function.update b.queue q (some .raw) } else none
  | (.initQueue q, ok) =>
    some { b with
      queue := Function.update b.queue q (some (if ok then .initialised else .raw))
      failed := noted b.failed (.initQueue q) ok }
  | (.setQueue q, _) =>
    some { b with server := { b.server with
      queue := Function.update b.server.queue q (b.queue q) } }
  | (.createWaitRoom, ok) =>
    some { b with
      waitRoom := handle .waitRoom ok
      created := started b.created .waitRoom ok
      failed := noted b.failed .createWaitRoom ok }
  | (.setWaitRoom, _) => some { b with server := { b.server with waitRoomThread := b.waitRoom } }
  | (.setNWorkers, _) => some { b with server := { b.server with nWorkers := c.nWorkers } }
  | (.mallocWorkers, ok) =>
    some { b with server := { b.server with workers := if ok then some fun _ => none else none } }
  | (.createWorker i, ok) =>
    b.server.workers.map fun w => { b with
      server := { b.server with workers := some (Function.update w i (handle (.worker i) ok)) }
      created := started b.created (.worker i) ok
      failed := noted b.failed (.createWorker i) ok }
  | (.createListener tls, ok) =>
    some { b with
      listener := Function.update b.listener tls (handle (.listener tls) ok)
      created := started b.created (.listener tls) ok
      failed := noted b.failed (.createListener tls) ok }
  | (.setListener tls, _) =>
    some { b with server := { b.server with
      listener := Function.update b.server.listener tls (b.listener tls) } }

end Built

/-! ## What `worker_init` makes

`ok` tells of each statement whether the call in it succeeds. -/

namespace Built

variable {c : StartConfig} {ok : InitOp → Bool}

/-- A run of statements. -/
def execAll (c : StartConfig) (ok : InitOp → Bool) (b : Built) (ops : List InitOp) : Option Built :=
  run (exec c) b (ops.map fun op => (op, ok op))

theorem execAll_append (b : Built) (ops ops' : List InitOp) :
    b.execAll c ok (ops ++ ops') = (b.execAll c ok ops).bind fun b' => b'.execAll c ok ops' := by
  rw [execAll, List.map_append, run_append]
  rfl

theorem execAll_congr {ok' : InitOp → Bool} {ops : List InitOp} (b : Built)
    (h : ∀ op ∈ ops, ok op = ok' op) : b.execAll c ok ops = b.execAll c ok' ops := by
  rw [execAll, execAll, List.map_congr_left fun op hop => by rw [h op hop]]

/-- The handle of the HTTPS listener is stored by one statement only. -/
theorem exec_listener {b b' : Built} {x : InitOp × Bool} (h : b.exec c x = some b')
    (hx : x.1 ≠ .setListener true) : b'.server.listener true = b.server.listener true := by
  obtain ⟨op, r⟩ := x
  cases op <;> simp only [exec, Option.map_eq_some_iff, Option.some.injEq] at h
  case mallocQueue q =>
    split at h
    · rw [← Option.some.inj h]
    · exact absurd h (by simp)
  case createWorker i =>
    obtain ⟨w, _, rfl⟩ := h
    rfl
  case setListener tls =>
    cases tls with
    | true => exact absurd rfl hx
    | false =>
      subst h
      exact Function.update_of_ne (Ne.symm Bool.false_ne_true) (b.listener false) b.server.listener
  all_goals
    subst h
    rfl

theorem execAll_listener {ops : List InitOp} {b b' : Built} (h : b.execAll c ok ops = some b')
    (hops : .setListener true ∉ ops) : b'.server.listener true = b.server.listener true := by
  induction ops generalizing b with
  | nil =>
    rw [← Option.some.inj h]
  | cons op ops ih =>
    obtain ⟨b₁, h₁, h₂⟩ := Option.bind_eq_some_iff.mp h
    rw [List.mem_cons, not_or] at hops
    exact (ih h₂ hops.2).trans (exec_listener h₁ (Ne.symm hops.1))

theorem mem_started {l : List ThreadName} {t u : ThreadName} {r : Bool} :
    u ∈ started l t r ↔ (u = t ∧ r = true) ∨ u ∈ l := by
  cases r <;> simp [started]

theorem noted_eq_nil {l : List InitOp} {op : InitOp} {r : Bool} :
    noted l op r = [] ↔ l = [] ∧ r = true := by
  cases r <;> simp [noted]

/-- The loop over the workers. -/
structure Spawned (ok : InitOp → Bool) (n : ℕ) (b b' : Built) : Prop where
  fd : b'.server.fd = b.server.fd
  queue : b'.server.queue = b.server.queue
  nWorkers : b'.server.nWorkers = b.server.nWorkers
  waitRoom : b'.server.waitRoomThread = b.server.waitRoomThread
  workers : ∀ i < n, (b'.server.workers.bind fun w => w i) =
    handle (.worker i) (ok (.createWorker i))
  kept : ∀ t ∈ b.created, t ∈ b'.created
  created : ∀ i < n, ok (.createWorker i) = true → .worker i ∈ b'.created
  failed : b'.failed = [] ↔ b.failed = [] ∧ ∀ i < n, ok (.createWorker i) = true

theorem spawned {n : ℕ} {b b' : Built}
    (h : b.execAll c ok ((List.range n).map .createWorker) = some b') : Spawned ok n b b' := by
  induction n generalizing b' with
  | zero =>
    obtain rfl := Option.some.inj h
    exact ⟨rfl, rfl, rfl, rfl, by simp, fun _ => id, by simp, by simp⟩
  | succ n ih =>
    rw [List.range_succ, List.map_append, execAll_append] at h
    obtain ⟨b₁, h₁, hlast⟩ := Option.bind_eq_some_iff.mp h
    obtain ⟨hfd, hqueue, hn, hwr, hworkers, hkept, hcreated, hfailed⟩ := ih h₁
    obtain ⟨b₂, hexec, hend⟩ := Option.bind_eq_some_iff.mp hlast
    obtain rfl := Option.some.inj hend
    obtain ⟨w, hw, rfl⟩ := Option.map_eq_some_iff.mp hexec
    refine ⟨hfd, hqueue, hn, hwr, ?_, ?_, ?_, ?_⟩
    · intro i hi
      simp only [hw, Option.bind_some] at hworkers
      by_cases hin : i = n
      · subst hin
        simp
      · have hlt : i < n := by omega
        simp [Function.update_of_ne hin, hworkers i hlt]
    · intro t ht
      exact mem_started.mpr (.inr (hkept t ht))
    · intro i hi hok
      by_cases hin : i = n
      · subst hin
        exact mem_started.mpr (.inl ⟨rfl, hok⟩)
      · exact mem_started.mpr (.inr (hcreated i (by omega) hok))
    · rw [noted_eq_nil, hfailed, and_assoc]
      refine and_congr_right fun _ => ?_
      constructor
      · rintro ⟨hlt, hn⟩ i hi
        by_cases hin : i = n
        · exact hin ▸ hn
        · exact hlt i (by omega)
      · intro hall
        exact ⟨fun i hi => hall i (by omega), hall n (Nat.lt_succ_self n)⟩

/-- What comes before the loop. -/
structure Front (c : StartConfig) (ok : InitOp → Bool) (b : Built) : Prop where
  fd : ∀ tls, b.server.fd tls = c.sock tls
  queue : ∀ q, b.server.queue q = some (if ok (.initQueue q) then .initialised else .raw)
  nWorkers : b.server.nWorkers = c.nWorkers
  waitRoom : b.server.waitRoomThread = handle .waitRoom (ok .createWaitRoom)
  created : ok .createWaitRoom = true → .waitRoom ∈ b.created
  failed : b.failed = [] ↔ (∀ q, ok (.initQueue q) = true) ∧ ok .createWaitRoom = true

theorem front {b : Built}
    (h : ({ created := [.signal] } : Built).execAll c ok [.setFd false, .setFd true,
      .mallocQueue .work, .initQueue .work, .mallocQueue .wait, .initQueue .wait,
      .setQueue .work, .setQueue .wait, .createWaitRoom, .setWaitRoom, .setNWorkers,
      .mallocWorkers] = some b) : Front c ok b := by
  -- the `malloc`s of the queues have succeeded, or there would be no `b`
  cases hwork : ok (.mallocQueue .work) with
  | false => simp [execAll, run, exec, hwork] at h
  | true =>
    cases hwait : ok (.mallocQueue .wait) with
    | false => simp [execAll, run, exec, hwork, hwait] at h
    | true =>
      simp only [execAll, run, exec, hwork, hwait, if_true, List.map_cons, List.map_nil,
        Option.bind_some, Option.some.injEq] at h
      subst h
      constructor
      · intro tls
        cases tls <;> simp
      · intro q
        cases q <;> simp
      · rfl
      · rfl
      · intro hok
        simp [hok, started]
      · simp only [noted_eq_nil, true_and, and_congr_left_iff]
        intro _
        constructor
        · intro h q
          cases q with
          | work => exact h.1
          | wait => exact h.2
        · exact fun h => ⟨h .work, h .wait⟩

/-- What `main` has at the end of `worker_init`. -/
structure Result (c : StartConfig) (ok : InitOp → Bool) (b : Built) : Prop where
  fd : ∀ tls, b.server.fd tls = c.sock tls
  queue : ∀ q, b.server.queue q = some (if ok (.initQueue q) then .initialised else .raw)
  nWorkers : b.server.nWorkers = c.nWorkers
  workers : ∀ i < c.nWorkers, (b.server.workers.bind fun w => w i) =
    handle (.worker i) (ok (.createWorker i))
  listener : ∀ tls, b.server.listener tls = handle (.listener tls) (ok (.createListener tls))
  waitRoom : b.server.waitRoomThread = handle .waitRoom (ok .createWaitRoom)
  created_worker : ∀ i < c.nWorkers, ok (.createWorker i) = true → .worker i ∈ b.created
  created_listener : ∀ tls, ok (.createListener tls) = true → .listener tls ∈ b.created
  created_waitRoom : ok .createWaitRoom = true → .waitRoom ∈ b.created
  failed : b.failed = [] ↔ ((∀ q, ok (.initQueue q) = true) ∧ ok .createWaitRoom = true) ∧
    (∀ i < c.nWorkers, ok (.createWorker i) = true) ∧ ∀ tls, ok (.createListener tls) = true

theorem result {b : Built}
    (h : ({ created := [.signal] } : Built).execAll c ok (workerInit c.nWorkers) = some b) :
    Result c ok b := by
  rw [workerInit, execAll_append, execAll_append] at h
  obtain ⟨b₂, h₂, hback⟩ := Option.bind_eq_some_iff.mp h
  obtain ⟨b₁, h₁, hloop⟩ := Option.bind_eq_some_iff.mp h₂
  have hf := front h₁
  have hs := spawned hloop
  simp only [execAll, run, exec, List.map_cons, List.map_nil, Option.bind_some,
    Option.some.injEq] at hback
  subst hback
  constructor
  · exact fun tls => (congrFun hs.fd tls).trans (hf.fd tls)
  · exact fun q => (congrFun hs.queue q).trans (hf.queue q)
  · exact hs.nWorkers.trans hf.nWorkers
  · exact hs.workers
  · intro tls
    cases tls <;> simp
  · exact hs.waitRoom.trans hf.waitRoom
  · intro i hi hok
    exact mem_started.mpr (.inr (mem_started.mpr (.inr (hs.created i hi hok))))
  · intro tls hok
    cases tls <;> simp [mem_started, hok]
  · intro hok
    exact mem_started.mpr (.inr (mem_started.mpr (.inr (hs.kept _ (hf.created hok)))))
  · simp only [noted_eq_nil, hs.failed, hf.failed, and_assoc, Bool.forall_bool]

/-- Each statement of `worker_init` is executed once. -/
theorem workerInit_nodup (n : ℕ) : (workerInit n).Nodup := by
  have hworkers : ((List.range n).map InitOp.createWorker).Nodup :=
    List.Nodup.map (fun _ _ h => InitOp.createWorker.inj h) List.nodup_range
  simp [workerInit, List.nodup_append, hworkers]

theorem not_mem_of_append {n : ℕ} {done todo : List InitOp} {op : InitOp}
    (h : done ++ todo = workerInit n) (hop : op ∈ todo) : op ∉ done := by
  have hnodup := workerInit_nodup n
  rw [← h] at hnodup
  exact fun hd => (List.nodup_append.mp hnodup).2.2 op hd op hop rfl

/-- The last statement stores the handle of the HTTPS listener. -/
theorem setListener_mem {n : ℕ} {done todo : List InitOp} (h : done ++ todo = workerInit n)
    (hne : todo ≠ []) : .setListener true ∈ todo := by
  have hlast : (done ++ todo).getLast? = some (.setListener true) := by
    rw [h, workerInit, List.getLast?_append_of_ne_nil _ (List.cons_ne_nil _ _)]
    rfl
  rw [List.getLast?_append_of_ne_nil _ hne] at hlast
  exact List.mem_of_getLast? hlast

end Built

end Celeritas
