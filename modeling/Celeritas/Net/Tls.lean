import Celeritas.Net.Owner

/-!
# The thread pool: where the TLS layer writes

`close_connection` closes the descriptor first and shuts the TLS object down afterwards:

    close(conn->fd);
    if (conn->ssl) { SSL_shutdown(conn->ssl); SSL_free(conn->ssl); }

The number is the kernel's to give away in between, so the `close_notify` goes to whoever
has been given it. Every other write of the TLS layer is made for a held connection and goes
where it should (`Owned.uses`), so a run is right exactly if it shuts no TLS object down
that has a descriptor (`tlsOwn_iff_plainClose`).
-/

set_option autoImplicit false

namespace Celeritas

open Lib

namespace Net

variable {p : Params}

/-- What the TLS layer writes in the step goes to the connection's own, open descriptor. -/
def TlsOwn (s : Net p) (a : NetAction p) (_ : Net p) : Prop :=
  ∀ u ∈ s.uses a, u.kind = .tlsIo ∨ u.kind = .closeNotify → Use.Own u s

/-- The step is not the `SSL_shutdown` of a connection whose TLS object has a descriptor. -/
structure PlainClose (s : Net p) (a : NetAction p) (_ : Net p) : Prop where
  worker : ∀ w conn last, a = .work w → s.worker w = .closed conn last → conn.tlsFd = none
  waitRoom : ∀ conn k, a = .waitRoom → s.waitRoom = .closed conn k → conn.tlsFd = none

/-- A thread between the two halves of `close_connection` has called it. -/
structure CloseOk (s : Net p) : Prop where
  worker : ∀ w conn last, s.worker w = .closed conn last → conn.id ∈ s.closeCalls
  waitRoom : ∀ conn k, s.waitRoom = .closed conn k → conn.id ∈ s.closeCalls

theorem CloseOk.init (mem : ℕ → Conn) (conn : Conn) : (Net.init p mem conn).CloseOk := by
  constructor <;> simp [Net.init]

theorem CloseOk.step {s s' : Net p} {a : NetAction p} (h : s.CloseOk)
    (hs : s.step a = some s') : s'.CloseOk := by
  obtain ⟨hwk, hwr⟩ := h
  cases step_cases hs with
  | listener tls _ _ hm => cases hm <;> exact ⟨hwk, hwr⟩
  | worker w _ _ hm =>
    have hcalls : ∀ i ∈ s.closeCalls, i ∈ s'.closeCalls := by
      cases hm with
      | close conn last => exact fun i hi => List.mem_append_left _ hi
      | _ => exact fun i hi => hi
    have hwr' : s'.waitRoom = s.waitRoom := by cases hm <;> rfl
    refine ⟨fun v conn last hpc => ?_, fun conn k hpc => hcalls _ (hwr conn k (hwr' ▸ hpc))⟩
    by_cases hv : v = w
    · subst hv
      cases hm with
      | io conn' hpc' => exact hwk _ _ _ hpc
      | close conn' last' hpc' =>
        simp only [setWorker, Function.update_self, WorkerPc.closed.injEq] at hpc
        obtain ⟨rfl, rfl⟩ := hpc
        exact List.mem_append_right _ (List.mem_singleton_self _)
      | served conn' o =>
        simp only [setWorker, Function.update_self] at hpc
        cases o <;> simp [ServeOutcome.next] at hpc
      | resume conn' last' =>
        simp only [setWorker, Function.update_self] at hpc
        cases last' <;> simp at hpc
      | _ => simp [setWorker] at hpc
    · exact hcalls _ (hwk v conn last ((hm.other hv).symm.trans hpc))
  | waitRoom _ _ hm =>
    cases hm with
    | close conn k =>
      refine ⟨fun w c last hpc => List.mem_append_left _ (hwk w c last hpc), fun c j hpc => ?_⟩
      simp only [WaitRoomPc.closed.injEq] at hpc
      obtain ⟨rfl, rfl⟩ := hpc
      exact List.mem_append_right _ (List.mem_singleton_self _)
    | resume conn k =>
      cases k <;> exact ⟨hwk, fun _ _ hpc => by simp [afterClose] at hpc⟩
    | _ => exact ⟨hwk, fun _ _ hpc => by simp at hpc⟩
  | server hm =>
    have hf := serverStep_frame hm
    exact ⟨by rw [hf.worker, hf.closeCalls]; exact hwk,
      by rw [hf.waitRoom, hf.closeCalls]; exact hwr⟩

/-- A `close_notify` is sent from the second half of `close_connection`. -/
theorem closeNotify_uses {s : Net p} {a : NetAction p} {u : Use} (hu : u ∈ s.uses a)
    (hk : u.kind = .closeNotify) :
    ∃ conn, conn.tlsFd = some u.fd ∧
      ((∃ w last, a = .work w ∧ s.worker w = .closed conn last) ∨
        ∃ k, a = .waitRoom ∧ s.waitRoom = .closed conn k) := by
  have hno : ∀ {c : Conn} {k : UseKind}, k ≠ .closeNotify → u ∉ c.use k := fun hne hm =>
    hne ((congrArg Use.kind (mem_use.mp hm)).symm.trans hk)
  cases a <;> simp only [uses, List.not_mem_nil] at hu
  case listen tls =>
    cases hpc : s.listener tls <;> simp only [hpc, List.not_mem_nil] at hu
    case checking rv conn =>
      split at hu
      · exact absurd hu (hno (by decide))
      · exact absurd hu List.not_mem_nil
    case pushing conn => exact absurd hu (hno (by decide))
  case io w viaTls =>
    cases hpc : s.worker w <;> simp only [hpc, List.not_mem_nil] at hu
    case serving conn =>
      cases viaTls
      · exact absurd hu (hno (by decide))
      · exact absurd (hk.symm.trans (mem_tlsUse.mp hu).2.1) (by decide)
  case work w =>
    cases hpc : s.worker w <;> simp only [hpc, List.not_mem_nil] at hu
    case closed conn last => exact ⟨conn, (mem_tlsUse.mp hu).1, .inl ⟨w, last, rfl, hpc⟩⟩
    all_goals exact absurd hu (hno (by decide))
  case register ok =>
    cases hpc : s.waitRoom <;> simp only [hpc, List.not_mem_nil] at hu
    case registering => exact absurd hu (hno (by decide))
  case waitRoom =>
    cases hpc : s.waitRoom <;> simp only [hpc, List.not_mem_nil] at hu
    case closed conn k => exact ⟨conn, (mem_tlsUse.mp hu).1, .inr ⟨k, rfl, rfl⟩⟩
    case sweeping i now =>
      split at hu
      · split at hu
        · exact absurd hu (hno (by decide))
        · exact absurd hu List.not_mem_nil
      · exact absurd hu List.not_mem_nil
    all_goals exact absurd hu (hno (by decide))

/-- **One step**, from a state in which the connections are owned. -/
theorem tlsOwn_step_iff {s s' : Net p} {a : NetAction p} (ho : s.Owned) (hw : s.Wf)
    (hc : s.CloseOk) : TlsOwn s a s' ↔ PlainClose s a s' := by
  constructor
  · -- a `close_notify` is for a connection that is not open
    intro h
    have hclosed : ∀ conn : Conn, conn.id ∈ s.closeCalls →
        (∀ u ∈ conn.tlsUse .closeNotify, u ∈ s.uses a) → conn.tlsFd = none := by
      intro conn hid hin
      by_contra hne
      obtain ⟨fd, hfd⟩ := Option.ne_none_iff_exists'.mp hne
      have hu : (⟨.closeNotify, fd, conn.id⟩ : Use) ∈ conn.tlsUse .closeNotify :=
        mem_tlsUse.mpr ⟨hfd, rfl, rfl⟩
      have hown : (fd, conn.id) ∈ s.fds := h _ (hin _ hu) (.inr rfl)
      exact (ho.calls_closed _ hid).2 (List.mem_map_of_mem (f := Prod.snd) hown)
    constructor
    · rintro w conn last rfl hpc
      apply hclosed conn (hc.worker w conn last hpc)
      intro u hu
      simp only [uses, hpc]
      exact hu
    · rintro conn k rfl hpc
      apply hclosed conn (hc.waitRoom conn k hpc)
      intro u hu
      simp only [uses, hpc]
      exact hu
  · intro h u hu _
    by_cases hk : u.kind = .closeNotify
    · obtain ⟨conn, hfd, ⟨w, last, rfl, hpc⟩ | ⟨k, rfl, hpc⟩⟩ := closeNotify_uses hu hk
      · exact absurd (h.worker w conn last rfl hpc) (by simp [hfd])
      · exact absurd (h.waitRoom conn k rfl hpc) (by simp [hfd])
    · exact ho.uses hw hu hk

/-- **The TLS layer keeps to its own descriptors in exactly the runs that send no
`close_notify`**: of every run in which the drain loop does not go wrong, and so of every
run up to the shutdown (`notClosed_of_no_server`). -/
theorem tlsOwn_iff_plainClose (mem : ℕ → Conn) (conn : Conn) (as : List (NetAction p))
    (hnc : EachStep Net.step NotClosed (Net.init p mem conn) as) :
    EachStep Net.step TlsOwn (Net.init p mem conn) as ↔
      EachStep Net.step PlainClose (Net.init p mem conn) as := by
  have h₀ : (Net.init p mem conn).Owned ∧ (Net.init p mem conn).Wf ∧
      (Net.init p mem conn).CloseOk := ⟨.init mem conn, .init mem conn, .init mem conn⟩
  have hJ : ∀ (s : Net p) a s', (s.Owned ∧ s.Wf ∧ s.CloseOk) → s.step a = some s' →
      NotClosed s a s' → s'.Owned ∧ s'.Wf ∧ s'.CloseOk :=
    fun s a s' ⟨ho, hw, hc⟩ hs hn => ⟨ho.step hw hs hn, hw.step hs, hc.step hs⟩
  constructor
  · intro h
    exact EachStep.imp (C := fun s a s' => NotClosed s a s' ∧ TlsOwn s a s')
      (fun s a s' hj hs hc => hJ s a s' hj hs hc.1)
      (fun s a s' hj _ hc => (tlsOwn_step_iff hj.1 hj.2.1 hj.2.2).mp hc.2) as h₀ (hnc.and h)
  · intro h
    exact EachStep.imp (C := fun s a s' => NotClosed s a s' ∧ PlainClose s a s')
      (fun s a s' hj hs hc => hJ s a s' hj hs hc.1)
      (fun s a s' hj _ hc => (tlsOwn_step_iff hj.1 hj.2.1 hj.2.2).mpr hc.2) as h₀ (hnc.and h)

/-- Without `server_shutdown` the drain loop never meets the flag. -/
theorem notClosed_of_no_server (as : List (NetAction p)) {s : Net p} (hw : s.Wf)
    (hsd : s.shuttingDown = false) (h : ∀ a ∈ as, a.thread ≠ .server) :
    EachStep Net.step NotClosed s as := by
  induction as generalizing s with
  | nil => trivial
  | cons a as ih =>
    intro s' hs
    have hsd' : s'.shuttingDown = false :=
      (frame_of_step hs (h a List.mem_cons_self)).shuttingDown.trans hsd
    exact ⟨hw.notClosed hsd a s',
      ih (hw.step hs) hsd' fun b hb => h b (List.mem_cons_of_mem _ hb)⟩

/-! ## The run that breaks it

A client of the HTTPS port that completes its handshake and sends what `process_ingress` does
not accept. Between the two halves of its `close_connection` the HTTP listener is given the same
descriptor for another client. -/

def reuseRun : List (NetAction smallest) :=
  [.listen true, .accept true (.accepted 5 [] .ok), .listen true, .listen true,
    .work smallest.first, .io smallest.first true, .serve smallest.first (.failed .http11),
    .work smallest.first, .listen false, .accept false (.accepted 5 [] .ok), .listen false]

theorem tlsOwn_iff_plainClose_reuseRun :
    EachStep Net.step TlsOwn (Net.init smallest (fun _ => {}) {}) reuseRun ↔
      EachStep Net.step PlainClose (Net.init smallest (fun _ => {}) {}) reuseRun :=
  tlsOwn_iff_plainClose (fun _ => {}) {} reuseRun
    (notClosed_of_no_server reuseRun (.init _ _) rfl (by decide))

/-- The `close_notify` of connection `1` is written to descriptor `5`, which is open and
belongs to connection `2`. -/
theorem close_notify_to_another_client : ∃ s s' : Net smallest,
    run Net.step (Net.init smallest (fun _ => {}) {}) reuseRun = some s ∧
      s.step (.work smallest.first) = some s' ∧ s.fds = [(5, 2)] ∧
      (⟨.closeNotify, 5, 1⟩ : Use) ∈ s.uses (.work smallest.first) ∧
      ¬ TlsOwn s (.work smallest.first) s' := by
  refine ⟨_, _, rfl, rfl, rfl, by decide, fun h => ?_⟩
  exact absurd (h ⟨.closeNotify, 5, 1⟩ (by decide) (.inr rfl)) (by unfold Use.Own; decide)

end Net

end Celeritas
