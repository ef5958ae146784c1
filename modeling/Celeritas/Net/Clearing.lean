import Celeritas.Net.Shutdown

/-!
# The thread pool: what the shutdown leaves in the work queue

`queue_pop` returns elements until the queue is empty, flag or no flag. The worker loop has
an exit of its own:

    if (shutting_down) { close_connection(&conn, ctx->log); break; }

so a worker that has answered a request leaves without another pop, and if it is the last
one, what is queued stays there. The other way to leave a connection open is to keep it
alive: it goes to the wait queue, and the wait-room thread closes nothing when it exits.

Whether a connection of the queue has been popped is not in the state, so a run carries the
list of those that have not (`Clearing`).
-/

set_option autoImplicit false

namespace Celeritas

open Lib

/-- The step of `server_shutdown` that comes next sets a flag. -/
def ServerPc.SetsFlag (pc : ServerPc) : Prop :=
  pc = .running ∨ pc = .wakeWaitRoom ∨ pc = .wakeWorkers

/-- The connection a worker is going to close, unless it keeps it alive. -/
def WorkerPc.serves : WorkerPc → Option Conn
  | .serving conn => some conn
  | .checkShutdown conn => some conn
  | .closing conn _ => some conn
  | _ => none

variable {p : Params}

namespace Net

def AllExited (s : Net p) : Prop := ∀ w, s.worker w = .exited

/-- A worker has it, and has not closed it yet. -/
def InService (s : Net p) (c : Conn) : Prop :=
  ∃ w conn, (s.worker w).serves = some conn ∧ conn.id = c.id ∧ conn.fd = c.fd

/-- `close_connection` has been called for it, and its descriptor is not open any more. -/
def Closed (s : Net p) (c : Conn) : Prop := c.id ∈ s.closeCalls ∧ (c.fd, c.id) ∉ s.fds

end Net

/-- The server, and those connections of a past work queue that have not been popped since. -/
structure Clearing (p : Params) where
  net : Net p
  left : List Conn

namespace Clearing

def start (s : Net p) : Clearing p := ⟨s, s.work.contents⟩

/-- A worker's pop takes the oldest. -/
def leftAfter (s : Clearing p) : NetAction p → List Conn
  | .work w => if s.net.worker w = .popping then s.left.tail else s.left
  | _ => s.left

def step (s : Clearing p) (a : NetAction p) : Option (Clearing p) :=
  (s.net.step a).map fun n => ⟨n, s.leftAfter a⟩

/-- Once all workers have exited, they have popped all of it. -/
def Emptied (s : Clearing p) : Prop := s.net.AllExited → s.left = []

/-- And closed what they have popped. -/
def Cleared (q : List Conn) (s : Clearing p) : Prop :=
  s.net.AllExited → s.left = [] ∧ ∀ c ∈ q, s.net.Closed c

/-- The last worker does not leave by the `break` while something is left. -/
def LastDrains (s : Clearing p) (a : NetAction p) (_ : Clearing p) : Prop :=
  ∀ w conn, a = .work w → s.net.worker w = .closed conn true →
    (∀ v, v ≠ w → s.net.worker v = .exited) → s.left = []

/-- No connection of `q` is kept alive. -/
def NotKept (q : List Conn) (s : Clearing p) (a : NetAction p) (_ : Clearing p) : Prop :=
  ∀ w conn sniffed deadline, a = .serve w (.keepAlive sniffed deadline) →
    s.net.worker w = .serving conn → ∀ c ∈ q, conn.id ≠ c.id

end Clearing

/-! ## The steps of a worker -/

namespace Net

/-- A worker that serves no connection can only go on by itself. -/
theorem eq_work {s s' : Net p} {a : NetAction p} {w : Fin p.nWorkers}
    (hs : s.step a = some s') (ha : a.thread = .worker w)
    (hpc : ∀ conn, s.worker w ≠ .serving conn) : a = .work w := by
  cases a <;> simp only [NetAction.thread, Thread.worker.injEq, reduceCtorEq] at ha <;> subst ha
  case io v viaTls => simp [step, ioStep] at hs
  case serve v o => simp [step, serveStep] at hs
  case work v => rfl

theorem serving_step {s s' : Net p} {a : NetAction p} {w : Fin p.nWorkers} {conn : Conn}
    (hs : s.step a = some s') (ha : a.thread = .worker w) (hpc : s.worker w = .serving conn) :
    s' = s ∨ ∃ o, a = .serve w o ∧ s' = s.setWorker w (o.next conn) := by
  cases a <;> simp only [NetAction.thread, Thread.worker.injEq, reduceCtorEq] at ha <;> subst ha
  case io v viaTls =>
    simp only [step, ioStep, hpc, Option.some.injEq] at hs
    exact .inl hs.symm
  case serve v o =>
    simp only [step, serveStep, hpc, Option.some.injEq] at hs
    exact .inr ⟨o, rfl, hs.symm⟩
  case work v => simp [step, workStep, hpc] at hs

/-- A worker exits by a pop that found the queue empty and closed, or by the `break`. -/
theorem exit_of_step {s s' : Net p} {a : NetAction p} {w : Fin p.nWorkers}
    (hs : s.step a = some s') (hw : s.worker w ≠ .exited) (hw' : s'.worker w = .exited) :
    a = .work w ∧ ((s.worker w = .popping ∧ s.work.contents = []) ∨
      ∃ conn, s.worker w = .closed conn true) := by
  have ha : a.thread = .worker w := by
    by_contra hne
    exact hw ((worker_of_step hs hne).symm.trans hw')
  cases step_cases hs with
  | worker v _ hv hm =>
    obtain rfl : v = w := Thread.worker.inj (hv.symm.trans ha)
    have hwork := eq_work hs ha
    cases hm with
    | io conn hpc => exact absurd hw' hw
    | served conn o hpc =>
      simp only [setWorker, Function.update_self] at hw'
      cases o <;> simp [ServeOutcome.next] at hw'
    | leave hpc hq =>
      have hempty := s.work.count_eq_zero_iff.mp (queuePop_eq_closed.mp hq).1
      exact ⟨hwork (by simp [hpc]), .inl ⟨hpc, hempty⟩⟩
    | resume conn last hpc =>
      simp only [setWorker, Function.update_self] at hw'
      cases last with
      | true => exact ⟨hwork (by simp [hpc]), .inr ⟨conn, hpc⟩⟩
      | false => simp at hw'
    | _ => simp [setWorker] at hw'
  | listener tls _ hl _ => exact absurd (hl.symm.trans ha) (by simp)
  | waitRoom _ hr _ => exact absurd (hr.symm.trans ha) (by simp)
  | server => exact absurd ha (by simp [NetAction.thread])

theorem exits_by_break {s s' : Net p} {w : Fin p.nWorkers} {conn : Conn}
    (hs : s.step (.work w) = some s') (hpc : s.worker w = .closed conn true) :
    s'.worker w = .exited := by
  simp only [step, workStep, hpc, Option.some.injEq] at hs
  rw [← hs]
  simp [setWorker]

/-- A step of another thread pushes to the work queue at its end, if at all. -/
theorem work_contents_other {s s' : Net p} {a : NetAction p} (hs : s.step a = some s')
    (ha : ∀ w, a.thread ≠ .worker w) : ∃ extra, s'.work.contents = s.work.contents ++ extra := by
  cases step_cases hs with
  | listener tls _ _ hm =>
    cases hm with
    | pushed conn q _ hq => exact ⟨[conn], (queuePush_some hq).2.1⟩
    | _ => exact ⟨[], (List.append_nil _).symm⟩
  | worker w _ hw _ => exact absurd hw (ha w)
  | waitRoom _ _ hm =>
    cases hm with
    | pushed conn evs q _ hq => exact ⟨[conn], (queuePush_some hq).2.1⟩
    | resume conn k => cases k <;> exact ⟨[], (List.append_nil _).symm⟩
    | _ => exact ⟨[], (List.append_nil _).symm⟩
  | server hm => exact ⟨[], (serverStep_frame hm).work.1.trans (List.append_nil _).symm⟩

/-- A worker's pop takes the oldest connection; none of its other steps touches the queue. -/
theorem work_contents_worker {s s' : Net p} {a : NetAction p} {w : Fin p.nWorkers}
    (hs : s.step a = some s') (ha : a.thread = .worker w) :
    (s'.work.contents = s.work.contents ∧
      (s.worker w = .popping → s.work.contents = [])) ∨
    ∃ conn, s.worker w = .popping ∧ s'.worker w = .serving conn ∧
      s.work.contents = conn :: s'.work.contents := by
  cases step_cases hs with
  | worker v _ hv hm =>
    obtain rfl : v = w := Thread.worker.inj (hv.symm.trans ha)
    cases hm with
    | popped conn q hpc hq =>
      exact .inr ⟨conn, hpc, Function.update_self _ _ _, (queuePop_item hq).1⟩
    | leave hpc hq =>
      have hempty := s.work.count_eq_zero_iff.mp (queuePop_eq_closed.mp hq).1
      exact .inl ⟨rfl, fun _ => hempty⟩
    | _ => exact .inl ⟨rfl, fun hpop => absurd hpop (by simp [*])⟩
  | listener tls _ hl _ => exact absurd (hl.symm.trans ha) (by simp)
  | waitRoom _ hr _ => exact absurd (hr.symm.trans ha) (by simp)
  | server => exact absurd ha (by simp [NetAction.thread])

/-! ## What has been closed stays closed -/

theorem nextId_le_step {s s' : Net p} {a : NetAction p} (hs : s.step a = some s') :
    s.nextId ≤ s'.nextId := by
  cases step_cases hs with
  | listener tls _ _ hm => exact hm.nextId_le
  | worker w _ _ hm => cases hm <;> exact le_rfl
  | waitRoom _ _ hm =>
    cases hm with
    | resume conn k => cases k <;> exact le_rfl
    | _ => exact le_rfl
  | server hm => exact (serverStep_frame hm).nextId.ge

theorem Closed.step {s s' : Net p} {a : NetAction p} {c : Conn} (h : s.Closed c)
    (hid : c.id < s.nextId) (hs : s.step a = some s') : s'.Closed c := by
  obtain ⟨hcalls, hfds⟩ := h
  have hfilter : ∀ fd, (c.fd, c.id) ∉ s.fds.filter fun x => x.1 != fd := fun _ hm =>
    hfds (List.mem_of_mem_filter hm)
  cases step_cases hs with
  | listener tls _ _ hm =>
    cases hm with
    | accepted rv conn remoteIp t =>
      -- a new entry has a new number
      refine ⟨hcalls, fun hm => ?_⟩
      rcases List.mem_cons.mp hm with heq | hm
      · exact absurd (congrArg Prod.snd heq) (Nat.ne_of_lt hid)
      · exact hfds hm
    | closed rv conn => exact ⟨hcalls, hfilter conn.fd⟩
    | _ => exact ⟨hcalls, hfds⟩
  | worker w _ _ hm =>
    cases hm with
    | close conn last => exact ⟨List.mem_append_left _ hcalls, hfilter conn.fd⟩
    | _ => exact ⟨hcalls, hfds⟩
  | waitRoom _ _ hm =>
    cases hm with
    | close conn k => exact ⟨List.mem_append_left _ hcalls, hfilter conn.fd⟩
    | resume conn k => cases k <;> exact ⟨hcalls, hfds⟩
    | _ => exact ⟨hcalls, hfds⟩
  | server hm =>
    have hf := serverStep_frame hm
    exact ⟨hf.closeCalls ▸ hcalls, hf.fds ▸ hfds⟩

/-- A worker keeps the connection alive, or has it until it has closed it. -/
theorem InService.step {s s' : Net p} {a : NetAction p} {c : Conn} (h : s.InService c)
    (hs : s.step a = some s')
    (hkept : ∀ w conn sniffed deadline, a = .serve w (.keepAlive sniffed deadline) →
      s.worker w = .serving conn → conn.id ≠ c.id) : s'.InService c ∨ s'.Closed c := by
  obtain ⟨w, conn, hserves, hid, hfd⟩ := h
  by_cases ha : a.thread = .worker w
  · cases hpc : s.worker w with
    | serving conn' =>
      obtain rfl : conn' = conn := by simpa [hpc, WorkerPc.serves] using hserves
      have hdemux : ∀ sniffed,
          (conn'.demux sniffed).id = c.id ∧ (conn'.demux sniffed).fd = c.fd := by
        intro sniffed
        have h := conn'.handle_demux sniffed
        exact ⟨(congrArg Handle.id h).trans hid, (congrArg Handle.fd h).trans hfd⟩
      rcases serving_step hs ha hpc with rfl | ⟨o, rfl, rfl⟩
      · exact .inl ⟨w, conn', hserves, hid, hfd⟩
      · cases o with
        | failed sniffed | answered sniffed =>
          exact .inl ⟨w, conn'.demux sniffed,
            by simp [setWorker, ServeOutcome.next, WorkerPc.serves], hdemux sniffed⟩
        | keepAlive sniffed deadline => exact absurd hid (hkept w conn' sniffed deadline rfl hpc)
    | checkShutdown conn' =>
      obtain rfl : conn' = conn := by simpa [hpc, WorkerPc.serves] using hserves
      obtain rfl := eq_work hs ha (by simp [hpc])
      simp only [Net.step, workStep, hpc, Option.some.injEq] at hs
      subst hs
      exact .inl ⟨w, conn', by simp [setWorker, WorkerPc.serves], hid, hfd⟩
    | closing conn' last =>
      obtain rfl : conn' = conn := by simpa [hpc, WorkerPc.serves] using hserves
      obtain rfl := eq_work hs ha (by simp [hpc])
      simp only [Net.step, workStep, hpc, Option.some.injEq] at hs
      subst hs
      refine .inr ⟨List.mem_append_right _ (by simp [hid]), fun hm => ?_⟩
      exact absurd (List.mem_filter.mp hm).2 (by simp [hfd])
    | _ => simp [hpc, WorkerPc.serves] at hserves
  · exact .inl ⟨w, conn, (worker_of_step hs ha).symm ▸ hserves, hid, hfd⟩

/-- The wait-room thread has exited before the work queue is told, and it does not after a
stale pass. -/
theorem owned_of_setsFlag {s : Net p} {mem : ℕ → Conn} {conn : Conn}
    (h : Reachable Net.step (Net.init p mem conn) s) (hf : s.server.SetsFlag) : s.Owned := by
  rcases owned_or_trapped_of_reach h with ho | ht
  · exact ho
  · have hflags := (wf_of_reach h).flags
    have hrank := hflags.wait_flag.mp ht.flag
    rcases hf with hf | hf | hf <;> rw [hf] at hrank
    · exact absurd hrank (by decide)
    · exact absurd hrank (by decide)
    · have hwr := hflags.waitRoom_exited (by rw [hf]; decide)
      exact absurd ht.draining (by simp [hwr])

end Net

/-! ## Runs -/

namespace Clearing

theorem step_some {s s' : Clearing p} {a : NetAction p} (h : s.step a = some s') :
    s.net.step a = some s'.net ∧ s'.left = s.leftAfter a := by
  obtain ⟨n, hn, rfl⟩ := Option.map_eq_some_iff.mp h
  exact ⟨hn, rfl⟩

theorem leftAfter_of_other {s : Clearing p} {a : NetAction p}
    (ha : ∀ w, a = .work w → s.net.worker w ≠ .popping) : s.leftAfter a = s.left := by
  cases a with
  | work w => exact if_neg (ha w rfl)
  | _ => rfl

theorem leftAfter_nil {s : Clearing p} (h : s.left = []) (a : NetAction p) :
    s.leftAfter a = [] := by
  cases a with
  | work w => simp [leftAfter, h]
  | _ => exact h

/-- Where the connections of the queue are: not popped yet, with a worker, or closed. -/
structure Tracks (q : List Conn) (s : Clearing p) : Prop where
  left : s.left <+: s.net.work.contents
  ids : ∀ c ∈ q, c.id < s.net.nextId
  place : ∀ c ∈ q, c ∈ s.left ∨ s.net.InService c ∨ s.net.Closed c

theorem left_step {s s' : Clearing p} {a : NetAction p} (h : s.left <+: s.net.work.contents)
    (hs : s.step a = some s') : s'.left <+: s'.net.work.contents ∧
      ∀ c ∈ s.left, c ∈ s'.left ∨ s'.net.InService c := by
  obtain ⟨hn, hleft⟩ := step_some hs
  by_cases ha : ∃ w, a.thread = .worker w
  · obtain ⟨w, ha⟩ := ha
    rcases Net.work_contents_worker hn ha with ⟨heq, hpop⟩ | ⟨conn, hpc, hpc', heq⟩
    · have hsame : s'.left = s.left := by
        rw [hleft]
        by_cases hpc : s.net.worker w = .popping
        · have hnil : s.left = [] := List.prefix_nil.mp (hpop hpc ▸ h)
          rw [leftAfter_nil hnil, hnil]
        · apply leftAfter_of_other
          rintro v rfl
          obtain rfl : v = w := Thread.worker.inj ha
          exact hpc
      rw [hsame, heq]
      exact ⟨h, fun c hc => .inl hc⟩
    · obtain rfl := Net.eq_work hn ha (by simp [hpc])
      rw [leftAfter, if_pos hpc] at hleft
      rw [hleft]
      rw [heq] at h
      cases hl : s.left with
      | nil => exact ⟨List.nil_prefix, fun c hc => absurd hc List.not_mem_nil⟩
      | cons c rest =>
        obtain ⟨rfl, hrest⟩ := List.cons_prefix_cons.mp (hl ▸ h)
        refine ⟨hrest, fun d hd => ?_⟩
        rcases List.mem_cons.mp hd with rfl | hd
        · exact .inr ⟨w, d, by rw [hpc']; rfl, rfl, rfl⟩
        · exact .inl hd
  · obtain ⟨extra, heq⟩ := Net.work_contents_other hn fun w hw => ha ⟨w, hw⟩
    have hsame : s'.left = s.left := by
      rw [hleft]
      apply leftAfter_of_other
      rintro w rfl
      exact absurd ⟨w, rfl⟩ ha
    rw [hsame, heq]
    exact ⟨h.trans (List.prefix_append _ _), fun c hc => .inl hc⟩

theorem Tracks.step {q : List Conn} {s s' : Clearing p} {a : NetAction p} (h : Tracks q s)
    (hs : s.step a = some s') (hk : NotKept q s a s') : Tracks q s' := by
  obtain ⟨hn, _⟩ := step_some hs
  obtain ⟨hpre, hpop⟩ := left_step h.left hs
  refine ⟨hpre, fun c hc => (h.ids c hc).trans_le (Net.nextId_le_step hn), fun c hc => ?_⟩
  rcases h.place c hc with hl | hin | hcl
  · rcases hpop c hl with hl | hin
    · exact .inl hl
    · exact .inr (.inl hin)
  · exact .inr (hin.step hn fun w conn sniffed deadline ha hpc =>
      hk w conn sniffed deadline ha hpc c hc)
  · exact .inr (.inr (hcl.step (h.ids c hc) hn))

theorem Tracks.start {s : Net p} (ho : s.Owned) : Tracks s.work.contents (start s) := by
  refine ⟨List.prefix_rfl, fun c hc => ?_, fun c hc => .inl hc⟩
  have hheld : c.handle ∈ s.held := by
    simp only [Net.held, Net.elsewhere, Multiset.mem_add]
    exact .inl (.inl (.inl (.inr (handle_mem hc))))
  exact ho.ids_lt _ (ho.held_open _ hheld)

/-- Nothing is left in any place but the closed ones. -/
theorem Tracks.cleared {q : List Conn} {s : Clearing p} (h : Tracks q s) (he : Emptied s) :
    Cleared q s := by
  intro hall
  have hnil := he hall
  refine ⟨hnil, fun c hc => ?_⟩
  rcases h.place c hc with hl | ⟨w, conn, hserves, _⟩ | hcl
  · exact absurd hl (by simp [hnil])
  · rw [hall w] at hserves
    exact absurd hserves (by simp [WorkerPc.serves])
  · exact hcl

/-- **One step**: the queue is emptied unless the last worker leaves by the `break`. -/
theorem emptied_step_iff {s s' : Clearing p} {a : NetAction p}
    (hl : s.left <+: s.net.work.contents) (he : Emptied s) (hs : s.step a = some s') :
    Emptied s' ↔ LastDrains s a s' := by
  obtain ⟨hn, hleft⟩ := step_some hs
  constructor
  · rintro h w conn rfl hpc hothers
    have hall : s'.net.AllExited := by
      intro v
      by_cases hv : v = w
      · rw [hv]
        exact Net.exits_by_break hn hpc
      · have hne : (NetAction.work w).thread ≠ .worker v := fun hw =>
          hv (Thread.worker.inj hw).symm
        exact (Net.worker_of_step hn hne).trans (hothers v hv)
    have hnil := h hall
    rwa [hleft, leftAfter, if_neg (by simp [hpc])] at hnil
  · intro hd hall
    rw [hleft]
    refine leftAfter_nil ?_ a
    by_cases hex : s.net.AllExited
    · exact he hex
    · obtain ⟨w, hw⟩ := not_forall.mp hex
      obtain ⟨rfl, ⟨_, hempty⟩ | ⟨conn, hpc⟩⟩ := Net.exit_of_step hn hw (hall w)
      · exact List.prefix_nil.mp (hempty ▸ hl)
      · apply hd w conn rfl hpc
        intro v hv
        have hne : (NetAction.work w).thread ≠ .worker v := fun h =>
          hv (Thread.worker.inj h).symm
        exact (Net.worker_of_step hn hne).symm.trans (hall v)

theorem emptied_iff (s : Net p) (as : List (NetAction p)) :
    Along step Emptied (start s) as ↔
      Emptied (start s) ∧ EachStep step LastDrains (start s) as := by
  have hrun : Emptied (start s) →
      (Along step Emptied (start s) as ↔ EachStep step LastDrains (start s) as) :=
    along_iff_eachStep (J := fun s => s.left <+: s.net.work.contents)
      (fun _ _ _ hl hs => (left_step hl hs).1)
      (fun _ _ _ hl he hs => emptied_step_iff hl he hs) as List.prefix_rfl
  exact ⟨fun h => ⟨h.head, (hrun h.head).mp h⟩, fun h => (hrun h.1).mpr h.2⟩

theorem cleared_of_notKept {s : Net p} (ho : s.Owned) (as : List (NetAction p))
    (he : Emptied (start s))
    (h : EachStep step (fun t a t' => LastDrains t a t' ∧ NotKept s.work.contents t a t')
      (start s) as) : Along step (Cleared s.work.contents) (start s) as := by
  have hinv : Along step (fun t => Tracks s.work.contents t ∧ Emptied t) (start s) as := by
    refine h.along ?_ ⟨.start ho, he⟩
    rintro t a t' ⟨htr, het⟩ hs ⟨hd, hk⟩
    exact ⟨htr.step hs hk, (emptied_step_iff htr.left het hs).mpr hd⟩
  exact hinv.mono fun t ht => ht.1.cleared ht.2

/-- **The shutdown and the work queue.** From any reachable state in which `server_shutdown`
sets a flag, in whatever order the threads go on: all that was queued is popped before the
workers are gone exactly if the last of them does not leave it behind by its `break`; and
it is also closed, if none of it is kept alive. -/
theorem cleared_when (mem : ℕ → Conn) (conn : Conn) (s : Net p)
    (h : Reachable Net.step (Net.init p mem conn) s) (hf : s.server.SetsFlag)
    (as : List (NetAction p)) :
    (Along step Emptied (start s) as ↔
      Emptied (start s) ∧ EachStep step LastDrains (start s) as) ∧
    (Emptied (start s) →
      EachStep step (fun t a t' => LastDrains t a t' ∧ NotKept s.work.contents t a t')
        (start s) as →
      Along step (Cleared s.work.contents) (start s) as) :=
  ⟨emptied_iff s as, cleared_of_notKept (Net.owned_of_setsFlag h hf) as⟩

/-! ## Exactness

Once the wait-room thread has exited, a connection that is kept alive is closed by nobody. -/

end Clearing

namespace Net

/-- A worker pushes connection number `id` to the wait queue, or has pushed it. -/
structure Parked (s : Net p) (id : ℕ) : Prop where
  waitRoom : s.waitRoom = .exited
  place : ∃ conn : Conn, conn.id = id ∧
    ((∃ w, s.worker w = .pushing conn) ∨ conn ∈ s.wait.contents)

theorem Parked.open {s : Net p} {id : ℕ} (h : s.Parked id) (ho : s.Owned) :
    id ∉ s.closeCalls := by
  obtain ⟨conn, rfl, hplace⟩ := h.place
  have hheld : conn.handle ∈ s.held := by
    rcases hplace with ⟨w, hpc⟩ | hm
    · apply mem_held_worker (w := w)
      rw [hpc]
      exact Multiset.mem_singleton_self _
    · simp only [held, elsewhere, Multiset.mem_add]
      exact .inl (.inr (handle_mem hm))
  intro hcalls
  exact (ho.calls_closed _ hcalls).2 (List.mem_map_of_mem (f := Prod.snd) (ho.held_open _ hheld))

/-- Nobody pops the wait queue but the wait-room thread. -/
theorem wait_contents_step {s s' : Net p} {a : NetAction p} (hs : s.step a = some s')
    (hwr : s.waitRoom = .exited) : ∀ conn ∈ s.wait.contents, conn ∈ s'.wait.contents := by
  intro conn hm
  cases step_cases hs with
  | listener tls _ _ hmove => cases hmove <;> exact hm
  | worker w _ _ hmove =>
    cases hmove with
    | pushed c q _ hq =>
      change conn ∈ q.contents
      rw [(queuePush_some hq).2.1]
      exact List.mem_append_left _ hm
    | _ => exact hm
  | waitRoom _ _ hmove => cases hmove <;> simp_all
  | server hmove =>
    rw [(serverStep_frame hmove).wait.1]
    exact hm

theorem waitRoom_exited_step {s s' : Net p} {a : NetAction p} (hs : s.step a = some s')
    (hwr : s.waitRoom = .exited) : s'.waitRoom = .exited := by
  cases step_cases hs with
  | listener tls _ _ hm => exact hm.frame.waitRoom hwr
  | worker w _ _ hm => exact hm.frame.waitRoom hwr
  | waitRoom _ _ hm => exact hm.frame.waitRoom hwr
  | server hm => exact (serverStep_frame hm).waitRoom.trans hwr

theorem Parked.step {s s' : Net p} {a : NetAction p} {id : ℕ} (h : s.Parked id)
    (hs : s.step a = some s') : s'.Parked id := by
  obtain ⟨hwr, conn, hid, hplace⟩ := h
  refine ⟨waitRoom_exited_step hs hwr, conn, hid, ?_⟩
  rcases hplace with ⟨w, hpc⟩ | hm
  · by_cases ha : a.thread = .worker w
    · obtain rfl := eq_work hs ha (by simp [hpc])
      simp only [Net.step, workStep, hpc, Option.map_eq_some_iff] at hs
      obtain ⟨q, hq, rfl⟩ := hs
      refine .inr ?_
      change conn ∈ q.contents
      rw [(queuePush_some hq).2.1]
      exact List.mem_append_right _ (List.mem_singleton_self _)
    · exact .inl ⟨w, (worker_of_step hs ha).trans hpc⟩
  · exact .inr (wait_contents_step hs hwr conn hm)

theorem parked_of_keepAlive {s s' : Net p} {w : Fin p.nWorkers} {conn : Conn}
    {sniffed : Protocol} {deadline : ℤ}
    (hs : s.step (.serve w (.keepAlive sniffed deadline)) = some s')
    (hpc : s.worker w = .serving conn) (hwr : s.waitRoom = .exited) : s'.Parked conn.id := by
  have hpc' : s'.worker w =
      .pushing { conn.demux sniffed with keepaliveDeadline := deadline } := by
    simp only [Net.step, serveStep, hpc, Option.some.injEq] at hs
    rw [← hs]
    exact Function.update_self _ _ _
  exact ⟨waitRoom_exited_step hs hwr, { conn.demux sniffed with keepaliveDeadline := deadline },
    congrArg Handle.id (conn.handle_demux sniffed), .inl ⟨w, hpc'⟩⟩

/-- The last part of the shutdown: the wait-room thread is gone, without a stale pass. -/
structure Late (s : Net p) : Prop where
  owned : s.Owned
  wf : s.Wf
  waitRoom : s.waitRoom = .exited

theorem Late.step {s s' : Net p} {a : NetAction p} (h : s.Late) (hs : s.step a = some s') :
    s'.Late := by
  have hclean : s.NotClosed a s' := fun _ hpc => absurd (h.waitRoom.symm.trans hpc) (by simp)
  exact ⟨h.owned.step h.wf hs hclean, h.wf.step hs, waitRoom_exited_step hs h.waitRoom⟩

end Net

namespace Clearing

variable {s t : Clearing p} {as : List (NetAction p)}

/-- After the last worker nobody pops. -/
theorem left_of_allExited (h : s.net.AllExited) (hr : run step s as = some t) :
    t.left = s.left := by
  have hinv : t.net.AllExited ∧ t.left = s.left := by
    refine (Reachable.of_run as hr).inv (I := fun u => u.net.AllExited ∧ u.left = s.left)
      ⟨h, rfl⟩ ?_
    rintro u a u' ⟨hall, hleft⟩ hs _
    obtain ⟨hn, hl⟩ := step_some hs
    have hother : ∀ w, a.thread ≠ .worker w := by
      intro w ha
      obtain rfl := Net.eq_work hn ha (by simp [hall w])
      simp [Net.step, Net.workStep, hall w] at hn
    refine ⟨fun w => (Net.worker_of_step hn (hother w)).trans (hall w), ?_⟩
    rw [hl, leftAfter_of_other fun w _ => by simp [hall w], hleft]
  exact hinv.2

theorem emptied_of_run (hr : run step s as = some t) (ht : t.left = []) : Emptied s :=
  fun hall => (left_of_allExited hall hr).symm.trans ht

theorem unclosed_of_parked (hl : s.net.Late) (hr : run step s as = some t) {id : ℕ}
    (hp : s.net.Parked id) : id ∉ t.net.closeCalls := by
  have hinv : t.net.Late ∧ t.net.Parked id := by
    apply (Reachable.of_run as hr).inv (I := fun u => u.net.Late ∧ u.net.Parked id) ⟨hl, hp⟩
    rintro u a u' ⟨hlu, hpu⟩ hs _
    have hn := (step_some hs).1
    exact ⟨hlu.step hn, hpu.step hn⟩
  exact hinv.2.open hinv.1.owned

theorem eachStep_of_cleared {q : List Conn} (hl : s.net.Late)
    (hpre : s.left <+: s.net.work.contents) (hr : run step s as = some t) (ht : t.left = [])
    (hc : ∀ c ∈ q, t.net.Closed c) :
    EachStep step (fun u a u' => LastDrains u a u' ∧ NotKept q u a u') s as := by
  induction as generalizing s with
  | nil => trivial
  | cons a as ih =>
    obtain ⟨s', hs, hr'⟩ := Option.bind_eq_some_iff.mp hr
    obtain ⟨hn, _⟩ := step_some hs
    rintro u hu
    obtain rfl : s' = u := Option.some.inj (hs.symm.trans hu)
    have hd : LastDrains s a s' :=
      (emptied_step_iff hpre (emptied_of_run hr ht) hs).mp (emptied_of_run hr' ht)
    refine ⟨⟨hd, ?_⟩, ih (hl.step hn) (left_step hpre hs).1 hr'⟩
    rintro w conn sniffed deadline rfl hpc c hcq hid
    have hparked := Net.parked_of_keepAlive hn hpc hl.waitRoom
    exact unclosed_of_parked (hl.step hn) hr' hparked (hid ▸ (hc c hcq).1)

/-- **From the moment the work queue is told, the condition is exact**: of a run after which
the workers have exited. -/
theorem cleared_iff_of_wakeWorkers (mem : ℕ → Conn) (conn : Conn) (s : Net p)
    (h : Reachable Net.step (Net.init p mem conn) s) (hpc : s.server = .wakeWorkers)
    (hr : run step (start s) as = some t) (hall : t.net.AllExited) :
    Cleared s.work.contents t ↔ Emptied (start s) ∧
      EachStep step (fun u a u' => LastDrains u a u' ∧ NotKept s.work.contents u a u')
        (start s) as := by
  have ho := Net.owned_of_setsFlag h (.inr (.inr hpc))
  have hw := Net.wf_of_reach h
  have hlate : s.Late := ⟨ho, hw, hw.flags.waitRoom_exited (by rw [hpc]; decide)⟩
  constructor
  · intro hc
    obtain ⟨ht, hclosed⟩ := hc hall
    exact ⟨emptied_of_run hr ht, eachStep_of_cleared hlate List.prefix_rfl hr ht hclosed⟩
  · rintro ⟨he, heach⟩
    exact (cleared_of_notKept ho as he heach).last hr

/-! ## A run that leaves one behind

Of two connections the only worker has one, and the other is queued, when the work queue is
told. The worker answers, sees `shutting_down`, and leaves. -/

def queuedRun : List (NetAction Net.smallest) :=
  [.waitRoom, .waitRoom] ++ Net.admitRun 1 ++ [.work Net.smallest.first] ++ Net.admitRun 2 ++
    Net.shutdownRun.dropLast

def breakRun : List (NetAction Net.smallest) :=
  [.server, .serve Net.smallest.first (.answered .http11), .work Net.smallest.first,
    .work Net.smallest.first, .work Net.smallest.first, .server, .server]

/-- The hypotheses of `cleared_when` hold of the state in which the work queue is told. -/
theorem cleared_when_breakRun : ∃ s : Net Net.smallest,
    run Net.step (Net.init Net.smallest (fun _ => {}) {}) queuedRun = some s ∧
      (Along step Emptied (start s) breakRun ↔
        Emptied (start s) ∧ EachStep step LastDrains (start s) breakRun) ∧
      (Emptied (start s) →
        EachStep step (fun t a t' => LastDrains t a t' ∧ NotKept s.work.contents t a t')
          (start s) breakRun →
        Along step (Cleared s.work.contents) (start s) breakRun) :=
  ⟨_, rfl, cleared_when (fun _ => {}) {} _ (Reachable.of_run queuedRun rfl) (.inr (.inr rfl))
    breakRun⟩

theorem left_in_queue : ∃ (s : Net Net.smallest) (t : Clearing Net.smallest),
    run Net.step (Net.init Net.smallest (fun _ => {}) {}) queuedRun = some s ∧
      s.server = .wakeWorkers ∧ run step (start s) breakRun = some t ∧ t.net.server = .joined ∧
      t.net.AllExited ∧ t.left.map Conn.id = [2] ∧ t.net.fds = [(2, 2)] ∧
      ¬ Cleared s.work.contents t := by
  have hall : ∀ w : Fin Net.smallest.nWorkers, w = Net.smallest.first := by decide
  refine ⟨_, _, rfl, rfl, rfl, rfl, fun w => by rw [hall w]; rfl, rfl, rfl, fun h => ?_⟩
  have hnil := (h fun w => by rw [hall w]; rfl).1
  exact absurd hnil (List.cons_ne_nil _ _)

end Clearing

end Celeritas
