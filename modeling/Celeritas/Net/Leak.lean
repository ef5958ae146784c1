import Celeritas.Net.Owner
import Mathlib.Algebra.Order.BigOperators.Group.Finset
import Mathlib.Algebra.Order.Group.Multiset

/-!
# The thread pool: no accepted connection is lost

Whoever holds a connection goes on to push, store or close it, with one exception: a
listener whose `accept_connection` has failed goes back to its loop,

    if (rv != 0) { usleep(10000); continue; }

and the next pass begins with a zeroed `conn`. If `accept` had succeeded and only `SSL_new`
or `SSL_set_fd` failed, the descriptor is open and forgotten. So `kept` counts `held` without
that place, and a run loses no connection exactly if these two calls succeed in it
(`none_lost_iff`).
-/

set_option autoImplicit false

namespace Celeritas

open Lib

/-- The entry of the descriptor table a place stands for. -/
def Handle.entry (h : Handle) : ℕ × ℕ := (h.fd, h.id)

/-- What a listener is going to push. -/
def ListenerPc.keeps : ListenerPc → Multiset Handle
  | .checking rv conn => if rv = 0 then (ListenerPc.checking rv conn).held else 0
  | pc => pc.held

/-- What a listener is going to forget. -/
def ListenerPc.abandons : ListenerPc → Multiset Handle
  | .checking rv conn => if rv = 0 then 0 else (ListenerPc.checking rv conn).held
  | _ => 0

theorem ListenerPc.held_eq (pc : ListenerPc) : pc.held = pc.abandons + pc.keeps := by
  cases pc with
  | checking rv conn =>
    by_cases hrv : rv = 0
    · simp only [abandons, keeps, if_pos hrv, zero_add]
    · simp only [abandons, keeps, if_neg hrv, add_zero]
  | _ => exact (zero_add _).symm

theorem ListenerPc.abandons_eq_zero {pc : ListenerPc} (h : ∀ rv conn, pc ≠ .checking rv conn) :
    pc.abandons = 0 := by
  cases pc with
  | checking rv conn => exact absurd rfl (h rv conn)
  | _ => rfl

/-- `accept_connection` fails on an accepted connection in the TLS setup only. -/
theorem acceptConnection_fst (sd tls : Bool) (id fd : ℕ) (remoteIp : CLib.Bytes) (t : TlsSetup) :
    (acceptConnection sd tls id (.accepted fd remoteIp t)).1 = 0 ↔ (tls = true → t = .ok) := by
  cases tls <;> cases t <;> simp [acceptConnection]

namespace Net

variable {p : Params}

/-- The connections that will be served or closed, with their places. -/
def kept (s : Net p) : Multiset Handle :=
  (∑ tls, (s.listener tls).keeps) + handles s.work.contents + (∑ w, (s.worker w).held) +
    handles s.wait.contents + s.waitRoom.held s.wrConn s.pool

/-- Each open descriptor is kept for its connection, in one place. -/
def NoneLost (s : Net p) : Prop := ∀ x ∈ s.fds, (s.kept.map Handle.entry).count x = 1

instance (s : Net p) : Decidable s.NoneLost :=
  inferInstanceAs (Decidable (∀ x ∈ s.fds, (s.kept.map Handle.entry).count x = 1))

/-- The TLS setup of every connection accepted before the shutdown succeeds. -/
def TlsSetupOk (s : Net p) (a : NetAction p) (_ : Net p) : Prop :=
  s.shuttingDown = false → ∀ fd remoteIp t, a = .accept true (.accepted fd remoteIp t) → t = .ok

/-! ## What is held and not kept -/

def abandoned (s : Net p) : Multiset Handle := ∑ tls, (s.listener tls).abandons

theorem held_eq_abandoned_add (s : Net p) : s.held = s.abandoned + s.kept := by
  simp only [held, elsewhere, kept, abandoned, ListenerPc.held_eq, Finset.sum_add_distrib,
    add_assoc]

theorem abandoned_eq_zero {s : Net p} :
    s.abandoned = 0 ↔ ∀ tls, (s.listener tls).abandons = 0 := by
  rw [abandoned, Finset.sum_eq_zero_iff]
  exact forall_congr' fun tls => ⟨fun h => h (Finset.mem_univ tls), fun h _ => h⟩

/-- Every open descriptor is held. -/
def Covered (s : Net p) : Prop := ∀ x ∈ s.fds, x ∈ s.held.map Handle.entry

theorem Owned.entry_mem {s : Net p} (h : s.Owned) {g : Handle} (hg : g ∈ s.held) :
    g.entry ∈ s.fds := h.held_open g hg

theorem Owned.entries_nodup {s : Net p} (h : s.Owned) : (s.held.map Handle.entry).Nodup := by
  refine (Multiset.Nodup.of_map _ h.held_nodup).map_on ?_
  intro a ha b hb hab
  exact h.unique a ha b hb (congrArg Prod.fst hab)

theorem Owned.noneLost_iff {s : Net p} (h : s.Owned) :
    s.NoneLost ↔ s.Covered ∧ s.abandoned = 0 := by
  have hsplit : s.held.map Handle.entry =
      s.abandoned.map Handle.entry + s.kept.map Handle.entry := by
    rw [held_eq_abandoned_add, Multiset.map_add]
  constructor
  · intro hn
    refine ⟨?_, ?_⟩
    · intro x hx
      rw [hsplit]
      have hmem : 0 < (s.kept.map Handle.entry).count x := by rw [hn x hx]; exact Nat.one_pos
      exact Multiset.mem_add.mpr (.inr (Multiset.count_pos.mp hmem))
    · -- what is abandoned is kept as well, and so held twice
      apply Multiset.eq_zero_of_forall_notMem
      intro g hg
      have hopen : g.entry ∈ s.fds := h.entry_mem <| by
        rw [held_eq_abandoned_add]
        exact Multiset.mem_add.mpr (.inl hg)
      have hone := Multiset.nodup_iff_count_le_one.mp h.entries_nodup g.entry
      have hpos : 0 < (s.abandoned.map Handle.entry).count g.entry :=
        Multiset.count_pos.mpr (Multiset.mem_map_of_mem _ hg)
      rw [hsplit, Multiset.count_add, hn _ hopen] at hone
      omega
  · rintro ⟨hcov, hab⟩ x hx
    have hkept : s.held = s.kept := by rw [held_eq_abandoned_add, hab, zero_add]
    rw [← hkept]
    exact Multiset.count_eq_one_of_mem h.entries_nodup (hcov x hx)

/-! ## One step -/

theorem Covered.transfer {s s' : Net p} (h : s.Covered) (ht : Transfer 0 s s') : s'.Covered := by
  cases ht with
  | moves hheld hfds _ _ =>
    intro x hx
    have hs : s.held = s'.held := by rw [hheld, zero_add]
    rw [← hs]
    exact h x (hfds ▸ hx)
  | closes g _ hheld hfds _ _ =>
    intro x hx
    rw [hfds, List.mem_filter] at hx
    have hm := h x hx.1
    rw [hheld, Multiset.map_add, Multiset.mem_add, Multiset.map_singleton,
      Multiset.mem_singleton] at hm
    rcases hm with rfl | hm
    · exact absurd hx.2 (by simp [Handle.entry])
    · exact hm
  | accepts g _ hheld hfds _ hid _ _ _ =>
    intro x hx
    rw [hheld, Multiset.map_add, Multiset.mem_add, Multiset.map_singleton, Multiset.mem_singleton]
    rw [hfds, List.mem_cons] at hx
    rcases hx with rfl | hx
    · exact .inl rfl
    · exact .inr (h x hx)

/-- After `accept_connection` on an accepted connection. -/
theorem listener_accepted {s s' : Net p} {tls : Bool} {fd : ℕ} {remoteIp : CLib.Bytes}
    {t : TlsSetup} (hs : s.step (.accept tls (.accepted fd remoteIp t)) = some s') :
    ∃ rv conn, s'.listener tls = .checking rv conn ∧ conn.id = s.nextId ∧
      (rv = 0 ↔ (tls = true → t = .ok)) := by
  simp only [step, acceptStep] at hs
  split at hs
  · split at hs
    · obtain rfl := Option.some.inj hs
      exact ⟨_, _, Function.update_self _ _ _, (acceptConnection_accepted _ _ _ _ _ _).1,
        acceptConnection_fst _ _ _ _ _ _⟩
    · exact absurd hs (by simp)
  · exact absurd hs (by simp)

/-- Any other step of a listener leaves it with nothing to forget. -/
theorem abandons_of_step {s s' : Net p} {a : NetAction p} {tls : Bool}
    (hs : s.step a = some s') (hacc : ∀ fd remoteIp t, a ≠ .accept tls (.accepted fd remoteIp t))
    (h : (s.listener tls).abandons = 0) : (s'.listener tls).abandons = 0 := by
  by_cases ha : a.thread = .listener tls
  · cases step_cases hs with
    | listener u _ hu hm =>
      obtain rfl : u = tls := Thread.listener.inj (hu.symm.trans ha)
      cases hm with
      | failed rv =>
        simp only [setListener, Function.update_self]
        exact ite_self (0 : Multiset Handle)
      | accepted rv conn remoteIp t => exact absurd rfl (hacc conn.fd remoteIp t)
      | _ =>
        apply ListenerPc.abandons_eq_zero
        intro rv conn
        simp [setListener]
    | worker w _ hw _ => exact absurd (hw.symm.trans ha) (by simp)
    | waitRoom _ hw _ => exact absurd (hw.symm.trans ha) (by simp)
    | server => exact absurd ha (by simp [NetAction.thread])
  · rw [listener_of_step hs ha]
    exact h

/-- **One step** from a state in which nothing is abandoned. -/
theorem abandoned_step_iff {s s' : Net p} {a : NetAction p} (hok : s.ListenerOk)
    (hs : s.step a = some s') (h : s.abandoned = 0) :
    s'.abandoned = 0 ↔
      ∀ fd remoteIp t, a = .accept true (.accepted fd remoteIp t) → t = .ok := by
  rw [abandoned_eq_zero] at h ⊢
  constructor
  · rintro h' fd remoteIp t rfl
    obtain ⟨rv, conn, hpc, hid, hrv⟩ := listener_accepted hs
    have hne : conn.id ≠ 0 := by have := hok.nextId_pos; omega
    by_contra ht
    have hrv0 : rv ≠ 0 := fun h0 => ht (hrv.mp h0 rfl)
    have hz := h' true
    rw [hpc, ListenerPc.abandons, if_neg hrv0, ListenerPc.held_checking hne] at hz
    exact Multiset.singleton_ne_zero _ hz
  · intro hok tls
    by_cases hacc : ∃ fd remoteIp t, a = .accept tls (.accepted fd remoteIp t)
    · obtain ⟨fd, remoteIp, t, rfl⟩ := hacc
      obtain ⟨rv, conn, hpc, _, hrv⟩ := listener_accepted hs
      have hrv0 : rv = 0 := hrv.mpr fun htls => hok fd remoteIp t (by rw [htls])
      rw [hpc, ListenerPc.abandons, if_pos hrv0]
    · exact abandons_of_step hs (fun fd remoteIp t ha => hacc ⟨fd, remoteIp, t, ha⟩) (h tls)

/-- While the server runs and nothing is abandoned, nothing is forgotten. -/
theorem transfer_zero {s s' : Net p} {a : NetAction p} (ho : s.Owned) (hw : s.Wf)
    (hsd : s.shuttingDown = false) (hs : s.step a = some s') (h : s.abandoned = 0) :
    Transfer 0 s s' := by
  obtain ⟨lost, ht, hlost⟩ :=
    step_transfer hw.listeners hw.waitRoom ho.unique hs (hw.notClosed hsd a s')
  rcases hlost hsd with rfl | ⟨tls, rv, conn, hpc, hrv, rfl, _⟩
  · exact ht
  · have hz := abandoned_eq_zero.mp h tls
    rw [hpc, ListenerPc.abandons, if_neg hrv] at hz
    rwa [hz] at ht

theorem noneLost_step_iff {s s' : Net p} {a : NetAction p} (hw : s.Wf)
    (ho : s.shuttingDown = false → s.Owned) (hp : s.shuttingDown = false → s.NoneLost)
    (hs : s.step a = some s') :
    (s'.shuttingDown = false → s'.NoneLost) ↔ TlsSetupOk s a s' := by
  by_cases hsd : s.shuttingDown = false
  · obtain ⟨hcov, hab⟩ := (ho hsd).noneLost_iff.mp (hp hsd)
    have hstep := abandoned_step_iff hw.listeners hs hab
    have hnext := (ho hsd).step hw hs (hw.notClosed hsd a s')
    have hcov' := hcov.transfer (transfer_zero (ho hsd) hw hsd hs hab)
    constructor
    · intro h _ fd remoteIp t ha
      -- the step is a listener's, so the flag is still unset
      have hsd' : s'.shuttingDown = false := by
        have hthread : a.thread ≠ .server := by rw [ha]; simp [NetAction.thread]
        exact (frame_of_step hs hthread).shuttingDown.trans hsd
      exact hstep.mp (hnext.noneLost_iff.mp (h hsd')).2 fd remoteIp t ha
    · intro hc _
      exact hnext.noneLost_iff.mpr ⟨hcov', hstep.mpr (hc hsd)⟩
  · exact ⟨fun _ h => absurd h hsd, fun _ h => absurd (running_of_step hs h) hsd⟩

/-! ## Runs -/

/-- **No connection is lost, up to the shutdown, in exactly the runs in which the TLS setup
of the accepted connections succeeds.** -/
theorem none_lost_iff (mem : ℕ → Conn) (conn : Conn) (as : List (NetAction p)) :
    Along Net.step (fun s => s.shuttingDown = false → s.NoneLost) (Net.init p mem conn) as ↔
      EachStep Net.step TlsSetupOk (Net.init p mem conn) as := by
  refine along_iff_eachStep (J := fun s => s.Wf ∧ (s.shuttingDown = false → s.Owned))
    ?_ ?_ as ⟨.init mem conn, fun _ => .init mem conn⟩ ?_
  · rintro s a s' ⟨hw, ho⟩ hs
    refine ⟨hw.step hs, fun hsd' => ?_⟩
    have hsd := running_of_step hs hsd'
    exact (ho hsd).step hw hs (hw.notClosed hsd a s')
  · rintro s a s' ⟨hw, ho⟩ hp hs
    exact noneLost_step_iff hw ho hp hs
  · intro _ x hx
    exact absurd hx (by simp [Net.init])

/-! ## The run that loses one

An HTTPS client connects and `SSL_new` fails. The listener goes on, and descriptor `5` stays
open with nobody to close it. -/

def noSslRun : List (NetAction smallest) :=
  [.listen true, .accept true (.accepted 5 [] .noSsl), .listen true]

theorem descriptor_forgotten : ∃ s : Net smallest,
    run Net.step (Net.init smallest (fun _ => {}) {}) noSslRun = some s ∧
      s.shuttingDown = false ∧ s.fds = [(5, 1)] ∧ s.held = 0 ∧ ¬ s.NoneLost :=
  ⟨_, rfl, rfl, rfl, by decide, by decide⟩

end Net

end Celeritas
