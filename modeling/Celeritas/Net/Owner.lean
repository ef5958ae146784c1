import Celeritas.Net.Held
import Celeritas.Lib.Run

/-!
# The thread pool: every connection has one owner

The invariant `Owned` says that the held connections are different accepted connections and
that each still has its descriptor. It is kept by every step that satisfies `NotClosed`,
and every step does until `server_shutdown` sets the wait queue's flag. Every use of a
descriptor that is made for a held connection then goes where it should (`uses_owned`).

The places of the source hold one connection more often than `held` counts:
`pool_sweep_expired` closes a connection that lies in a slot of the pool and compacts the
slot afterwards, and in between the descriptor can be accepted again
(`sweep_slot_holds_closed`). No other thread sees the slot.
-/

set_option autoImplicit false

namespace Celeritas

open Lib

namespace Net

variable {p : Params}

structure Owned (s : Net p) : Prop where
  fds_nodup : (s.fds.map Prod.fst).Nodup
  ids_nodup : (s.fds.map Prod.snd).Nodup
  ids_lt : ∀ x ∈ s.fds, x.2 < s.nextId
  held_nodup : (s.held.map Handle.id).Nodup
  held_open : ∀ h ∈ s.held, (h.fd, h.id) ∈ s.fds
  held_tls : ∀ h ∈ s.held, ∀ t, h.tlsFd = some t → t = h.fd
  calls_nodup : s.closeCalls.Nodup
  calls_closed : ∀ i ∈ s.closeCalls, i < s.nextId ∧ i ∉ s.fds.map Prod.snd

theorem Owned.init (mem : ℕ → Conn) (conn : Conn) : (Net.init p mem conn).Owned := by
  have hheld : (Net.init p mem conn).held = 0 := by
    simp [held, elsewhere, Net.init, ListenerPc.held, WorkerPc.held, WaitRoomPc.held, poolInit]
  constructor <;> simp [hheld, show (Net.init p mem conn).fds = [] from rfl,
    show (Net.init p mem conn).closeCalls = [] from rfl]

/-- One open descriptor, one connection. -/
theorem fst_inj {s : Net p} (h : (s.fds.map Prod.fst).Nodup) {x y : ℕ × ℕ} (hx : x ∈ s.fds)
    (hy : y ∈ s.fds) (hxy : x.1 = y.1) : x = y :=
  List.inj_on_of_nodup_map h hx hy hxy

theorem snd_inj {s : Net p} (h : (s.fds.map Prod.snd).Nodup) {x y : ℕ × ℕ} (hx : x ∈ s.fds)
    (hy : y ∈ s.fds) (hxy : x.2 = y.2) : x = y :=
  List.inj_on_of_nodup_map h hx hy hxy

/-- Held connections with one descriptor are one connection. -/
theorem Owned.unique {s : Net p} (h : s.Owned) : ∀ a ∈ s.held, ∀ b ∈ s.held,
    a.fd = b.fd → a = b := by
  intro a ha b hb hfd
  have hid : a.id = b.id :=
    congrArg Prod.snd (fst_inj h.fds_nodup (h.held_open a ha) (h.held_open b hb) hfd)
  exact Multiset.inj_on_of_nodup_map h.held_nodup a ha b hb hid

/-- **No descriptor is held twice.** -/
theorem Owned.held_fds_nodup {s : Net p} (h : s.Owned) : (s.held.map Handle.fd).Nodup :=
  (Multiset.Nodup.of_map _ h.held_nodup).map_on h.unique

/-- Held connections are open ones, so there are no more of them. -/
theorem Owned.card_held_le {s : Net p} (h : s.Owned) : s.held.card ≤ s.fds.length := by
  have hsub : s.held.map Handle.id ≤ (s.fds.map Prod.snd : Multiset ℕ) := by
    apply (Multiset.le_iff_subset h.held_nodup).mpr
    intro i hi
    obtain ⟨a, ha, rfl⟩ := Multiset.mem_map.mp hi
    exact Multiset.mem_coe.mpr (List.mem_map_of_mem (f := Prod.snd) (h.held_open a ha))
  have := Multiset.card_le_card hsub
  simpa using this

theorem Owned.effect {s s' : Net p} (h : s.Owned) (he : Effect s s') : s'.Owned := by
  obtain ⟨hf, hi, hlt, hn, ho, ht, hcn, hcc⟩ := h
  cases he with
  | moves lost hheld hfds hnext hcalls =>
    have hsub : ∀ a ∈ s'.held, a ∈ s.held := by
      intro a ha
      rw [hheld]
      exact Multiset.mem_add.mpr (.inr ha)
    rw [hheld, Multiset.map_add] at hn
    exact ⟨hfds ▸ hf, hfds ▸ hi, by rw [hfds, hnext]; exact hlt, Multiset.nodup_of_le
      (Multiset.le_add_left _ _) hn, fun a ha => hfds ▸ ho a (hsub a ha),
      fun a ha => ht a (hsub a ha), hcalls ▸ hcn, by rw [hcalls, hfds, hnext]; exact hcc⟩
  | closes c hheld hfds hnext hcalls =>
    have hc : (c.fd, c.id) ∈ s.fds := ho c <| by
      rw [hheld]
      exact Multiset.mem_add.mpr (.inl (Multiset.mem_singleton_self c))
    have hsub : ∀ a ∈ s'.held, a ∈ s.held := by
      intro a ha
      rw [hheld]
      exact Multiset.mem_add.mpr (.inr ha)
    have hfil : ∀ x ∈ s'.fds, x ∈ s.fds ∧ x.1 ≠ c.fd := by
      intro x hx
      rw [hfds] at hx
      simpa using List.mem_filter.mp hx
    rw [hheld, Multiset.map_add, Multiset.map_singleton, Multiset.singleton_add,
      Multiset.nodup_cons] at hn
    -- what is still held has another descriptor: with this one it would be `c`
    have hother : ∀ a ∈ s'.held, a.fd ≠ c.fd := fun a ha hfd => hn.1 <| by
      have hid : a.id = c.id := congrArg Prod.snd (fst_inj hf (ho a (hsub a ha)) hc hfd)
      exact hid ▸ Multiset.mem_map_of_mem _ ha
    have hgone : c.id ∉ s'.fds.map Prod.snd := by
      intro hm
      obtain ⟨x, hx, hxid⟩ := List.mem_map.mp hm
      exact (hfil x hx).2 (congrArg Prod.fst (snd_inj hi (hfil x hx).1 hc hxid))
    have hold : ∀ i ∈ s.closeCalls, i < s'.nextId ∧ i ∉ s'.fds.map Prod.snd := fun i hic =>
      ⟨hnext ▸ (hcc i hic).1, fun hm => (hcc i hic).2 <| by
        obtain ⟨x, hx, hxid⟩ := List.mem_map.mp hm
        exact hxid ▸ List.mem_map_of_mem (hfil x hx).1⟩
    have hfresh : c.id ∉ s.closeCalls := fun hm =>
      (hcc c.id hm).2 (List.mem_map_of_mem (f := Prod.snd) hc)
    refine ⟨?_, ?_, fun x hx => hnext ▸ hlt x (hfil x hx).1, hn.2, fun a ha => ?_,
      fun a ha => ht a (hsub a ha), ?_, ?_⟩
    · rw [hfds]
      exact hf.sublist (List.filter_sublist.map _)
    · rw [hfds]
      exact hi.sublist (List.filter_sublist.map _)
    · rw [hfds]
      exact List.mem_filter.mpr ⟨ho a (hsub a ha), by simpa using hother a ha⟩
    · rcases hcalls with hcalls | hcalls <;> rw [hcalls]
      · exact hcn
      · rw [← List.concat_eq_append]
        exact hcn.concat hfresh
    · rcases hcalls with hcalls | hcalls <;> rw [hcalls]
      · exact hold
      · intro i hm
        rcases List.mem_append.mp hm with hm | hm
        · exact hold i hm
        · rw [List.mem_singleton.mp hm]
          exact ⟨hnext ▸ hlt _ hc, hgone⟩
  | accepts c hheld hfds hfresh hid htls hnext hcalls =>
    have hnew : c.id ∉ s.fds.map Prod.snd := by
      intro hm
      obtain ⟨x, hx, hxid⟩ := List.mem_map.mp hm
      have := hlt x hx
      omega
    have hmem : ∀ a ∈ s'.held, a = c ∨ a ∈ s.held := by
      intro a ha
      rw [hheld, Multiset.mem_add, Multiset.mem_singleton] at ha
      exact ha
    refine ⟨?_, ?_, fun x hx => ?_, ?_, fun a ha => ?_, fun a ha => ?_, hcalls ▸ hcn,
      fun i hm => ?_⟩
    · rw [hfds, List.map_cons, List.nodup_cons]
      exact ⟨hfresh, hf⟩
    · rw [hfds, List.map_cons, List.nodup_cons]
      exact ⟨hnew, hi⟩
    · rw [hfds, List.mem_cons] at hx
      rw [hnext]
      rcases hx with rfl | hx
      · exact Nat.lt_succ_of_le hid.le
      · exact Nat.lt_succ_of_lt (hlt x hx)
    · rw [hheld, Multiset.map_add, Multiset.map_singleton, Multiset.singleton_add,
        Multiset.nodup_cons]
      refine ⟨fun hm => ?_, hn⟩
      obtain ⟨a, ha, haid⟩ := Multiset.mem_map.mp hm
      exact hnew (haid ▸ List.mem_map_of_mem (f := Prod.snd) (ho a ha))
    · rw [hfds]
      rcases hmem a ha with rfl | ha
      · exact List.mem_cons_self
      · exact List.mem_cons_of_mem _ (ho a ha)
    · rcases hmem a ha with rfl | ha
      · exact htls
      · exact ht a ha
    · rw [hcalls] at hm
      rw [hfds, hnext, List.map_cons, List.mem_cons, not_or]
      have := (hcc i hm).1
      exact ⟨by omega, by omega, (hcc i hm).2⟩

theorem Owned.step {s s' : Net p} {a : NetAction p} (h : s.Owned) (hw : s.Wf)
    (hs : s.step a = some s') (hnc : s.NotClosed a s') : s'.Owned :=
  h.effect (step_effect hw.listeners hw.waitRoom h.unique hs hnc)

theorem Wf.notClosed {s : Net p} (h : s.Wf) (hsd : s.shuttingDown = false) (a : NetAction p)
    (s' : Net p) : s.NotClosed a s' := fun _ _ _ => h.flags.wait_running hsd

/-! ## Where the uses go -/

theorem mem_held_listener {s : Net p} (tls : Bool) {h : Handle} (hm : h ∈ (s.listener tls).held) :
    h ∈ s.held := by
  simp only [held, elsewhere, Multiset.mem_add]
  exact .inl (.inl (.inl (.inl (Multiset.mem_sum.mpr ⟨tls, Finset.mem_univ _, hm⟩))))

theorem mem_held_worker {s : Net p} {w : Fin p.nWorkers} {h : Handle}
    (hm : h ∈ (s.worker w).held) : h ∈ s.held := by
  simp only [held, elsewhere, Multiset.mem_add]
  exact .inl (.inl (.inr (Multiset.mem_sum.mpr ⟨w, Finset.mem_univ _, hm⟩)))

theorem mem_held_waitRoom {s : Net p} {h : Handle} (hm : h ∈ s.waitRoom.held s.wrConn s.pool) :
    h ∈ s.held := Multiset.mem_add.mpr (.inr hm)

theorem mem_use {c : Conn} {k : UseKind} {u : Use} :
    u ∈ c.use k ↔ u = ⟨k, c.fd, c.id⟩ := List.mem_singleton

theorem mem_tlsUse {c : Conn} {k : UseKind} {u : Use} :
    u ∈ c.tlsUse k ↔ c.tlsFd = some u.fd ∧ u.kind = k ∧ u.id = c.id := by
  obtain ⟨k', fd, id⟩ := u
  simp only [Conn.tlsUse, List.mem_map, Option.mem_toList, Use.mk.injEq]
  constructor
  · rintro ⟨fd', hfd, rfl, rfl, rfl⟩
    exact ⟨hfd, rfl, rfl⟩
  · rintro ⟨hfd, rfl, rfl⟩
    exact ⟨fd, hfd, rfl, rfl, rfl⟩

/-- The use of a descriptor for the connection it was accepted for, while that is open. -/
def Use.Own (u : Use) (s : Net p) : Prop := (u.fd, u.id) ∈ s.fds

theorem Owned.use {s : Net p} (h : s.Owned) {c : Conn} (hc : c.handle ∈ s.held) {k : UseKind}
    {u : Use} (hu : u ∈ c.use k) : Use.Own u s := by
  rw [mem_use.mp hu]
  exact h.held_open _ hc

theorem Owned.tlsUse {s : Net p} (h : s.Owned) {c : Conn} (hc : c.handle ∈ s.held) {k : UseKind}
    {u : Use} (hu : u ∈ c.tlsUse k) : Use.Own u s := by
  obtain ⟨hfd, _, hid⟩ := mem_tlsUse.mp hu
  rw [Use.Own, hid, h.held_tls _ hc _ hfd]
  exact h.held_open _ hc

/-- **Every use of a descriptor is for its own connection, which is open**, but for the
`close_notify` that `close_connection` sends after `close`. -/
theorem Owned.uses {s : Net p} (h : s.Owned) (hw : s.Wf) {a : NetAction p} {u : Use}
    (hu : u ∈ s.uses a) (hk : u.kind ≠ .closeNotify) : Use.Own u s := by
  cases a <;> simp only [Net.uses, List.not_mem_nil] at hu
  case listen tls =>
    cases hpc : s.listener tls <;> simp only [hpc, List.not_mem_nil] at hu
    case checking rv conn =>
      split at hu
      · rename_i hg
        have hne : conn.id ≠ 0 := by
          intro h0
          have := (hw.listeners.not_accepted tls rv conn hpc h0).1
          omega
        refine h.use (mem_held_listener tls ?_) hu
        rw [hpc, ListenerPc.held_checking hne]
        exact Multiset.mem_singleton_self _
      · exact absurd hu (by simp)
    case pushing conn =>
      refine h.use (mem_held_listener tls ?_) hu
      rw [hpc]
      exact Multiset.mem_singleton_self _
  case io w viaTls =>
    cases hpc : s.worker w <;> simp only [hpc, List.not_mem_nil] at hu
    case serving conn =>
      have hm : conn.handle ∈ s.held := mem_held_worker (w := w) <| by
        rw [hpc]
        exact Multiset.mem_singleton_self _
      cases viaTls
      · exact h.use hm hu
      · exact h.tlsUse hm hu
  case work w =>
    cases hpc : s.worker w <;> simp only [hpc, List.not_mem_nil] at hu
    case pushing conn =>
      refine h.use (mem_held_worker (w := w) ?_) hu
      rw [hpc]
      exact Multiset.mem_singleton_self _
    case closing conn last =>
      refine h.use (mem_held_worker (w := w) ?_) hu
      rw [hpc]
      exact Multiset.mem_singleton_self _
    case closed conn last => exact absurd (mem_tlsUse.mp hu).2.1 hk
  case register ok =>
    cases hpc : s.waitRoom <;> simp only [hpc, List.not_mem_nil] at hu
    case registering =>
      refine h.use (mem_held_waitRoom ?_) hu
      rw [hpc]
      exact handle_mem (hw.waitRoom.registering hpc)
  case waitRoom =>
    cases hpc : s.waitRoom <;> simp only [hpc, List.not_mem_nil] at hu
    case pushing conn evs =>
      refine h.use (mem_held_waitRoom ?_) hu
      rw [hpc]
      exact Multiset.mem_add.mpr (.inl (Multiset.mem_singleton_self _))
    case sweeping i now =>
      split at hu
      · rename_i conn hi
        split at hu
        · refine h.use (mem_held_waitRoom ?_) hu
          rw [hpc]
          exact handle_mem (List.mem_of_getElem? hi)
        · exact absurd hu (by simp)
      · exact absurd hu (by simp)
    case closing conn k =>
      refine h.use (mem_held_waitRoom ?_) hu
      rw [hpc]
      cases k with
      | sweep i now => exact handle_mem (List.mem_of_getElem? (hw.waitRoom.sweeping conn i now hpc))
      | drain => exact Multiset.mem_add.mpr (.inl (Multiset.mem_singleton_self _))
      | events evs => exact Multiset.mem_add.mpr (.inl (Multiset.mem_singleton_self _))
    case closed conn k => exact absurd (mem_tlsUse.mp hu).2.1 hk

/-! ## Runs without a shutdown -/

theorem wf_of_reach {s : Net p} {C : Net p → NetAction p → Net p → Prop} {mem : ℕ → Conn}
    {conn : Conn} (h : Reach Net.step C (Net.init p mem conn) s) : s.Wf :=
  h.inv (.init mem conn) fun _ _ _ hw hs _ => hw.step hs

/-- Until the shutdown flag is set, the connections are owned. -/
theorem owned_of_reach {s : Net p} {C : Net p → NetAction p → Net p → Prop} {mem : ℕ → Conn}
    {conn : Conn} (h : Reach Net.step C (Net.init p mem conn) s)
    (hsd : s.shuttingDown = false) : s.Owned := by
  have hinv : s.Wf ∧ (s.shuttingDown = false → s.Owned) := by
    refine h.inv (I := fun s => s.Wf ∧ (s.shuttingDown = false → s.Owned))
      ⟨.init mem conn, fun _ => .init mem conn⟩ ?_
    rintro t a u ⟨hw, ho⟩ hs _
    refine ⟨hw.step hs, fun hu => ?_⟩
    have ht := running_of_step hs hu
    exact (ho ht).step hw hs (hw.notClosed ht a u)
  exact hinv.2 hsd

/-- **Exclusive ownership.** In every state a run without shutdown reaches, no descriptor is
held twice, every held one is open and its connection's own, every step uses descriptors
that are open and its connection's own, and `close_connection` has been called at most once
for each connection. -/
theorem exclusive_ownership (mem : ℕ → Conn) (conn : Conn) (s : Net p)
    (h : Reachable Net.step (Net.init p mem conn) s) (hsd : s.shuttingDown = false) :
    (s.held.map Handle.fd).Nodup ∧ (∀ c ∈ s.held, (c.fd, c.id) ∈ s.fds) ∧
      (∀ a s', s.step a = some s' → ∀ u ∈ s.uses a, u.kind ≠ .closeNotify → Use.Own u s) ∧
      s.closeCalls.Nodup := by
  have ho := owned_of_reach h hsd
  exact ⟨ho.held_fds_nodup, ho.held_open,
    fun _ _ _ _ hu hk => ho.uses (wf_of_reach h) hu hk, ho.calls_nodup⟩

/-! ## Runs of a small server -/

/-- One worker, and room for one connection wherever they wait. -/
def smallest : Params := ⟨1, 1, 1, by decide, by decide, by decide⟩

/-- The first connection is answered and closed, and the second is given its descriptor and goes
to the wait room. Then there is one at the worker, one in its queue and one at a listener. -/
def busyRun : List (NetAction smallest) :=
  [.listen false, .accept false (.accepted 5 [] .ok), .listen false, .listen false,
    .work smallest.first, .serve smallest.first (.answered .http11), .work smallest.first,
    .work smallest.first, .work smallest.first,
    .listen true, .accept true (.accepted 5 [] .ok), .listen true, .listen true,
    .work smallest.first, .serve smallest.first (.keepAlive .http11 9), .work smallest.first,
    .waitRoom, .waitRoom, .waitRoom, .register true, .waitRoom,
    .listen true, .accept true (.accepted 6 [] .ok), .listen true, .listen true,
    .work smallest.first, .io smallest.first true,
    .listen false, .accept false (.accepted 7 [] .ok), .listen false, .listen false,
    .listen true, .accept true (.accepted 8 [] .ok), .listen true]

theorem exclusive_ownership_busyRun : ∃ s : Net smallest,
    run Net.step (Net.init smallest (fun _ => {}) {}) busyRun = some s ∧
      s.held.map Handle.fd = {5, 6, 7, 8} ∧ s.closeCalls = [1] ∧
      (s.held.map Handle.fd).Nodup ∧ (∀ c ∈ s.held, (c.fd, c.id) ∈ s.fds) ∧
      (∀ a s', s.step a = some s' → ∀ u ∈ s.uses a, u.kind ≠ .closeNotify → Use.Own u s) :=
  have h := exclusive_ownership (fun _ => {}) {} _ (Reachable.of_run busyRun rfl) rfl
  ⟨_, rfl, by decide, rfl, h.1, h.2.1, h.2.2.1⟩

/-- The connection is kept alive until time `0`, and the sweep closes it. -/
def sweepRun : List (NetAction smallest) :=
  [.listen false, .accept false (.accepted 5 [] .ok), .listen false, .listen false,
    .work smallest.first, .serve smallest.first (.keepAlive .http11 0), .work smallest.first,
    .waitRoom, .waitRoom, .waitRoom, .register true, .waitRoom, .poll [], .clock 0,
    .waitRoom, .waitRoom]

/-- Before the slot is compacted the other listener is given its descriptor. -/
theorem sweep_slot_holds_closed : ∃ s : Net smallest,
    run Net.step (Net.init smallest (fun _ => {}) {}) (sweepRun ++
      [.listen true, .accept true (.accepted 5 [] .ok)]) = some s ∧
      s.shuttingDown = false ∧ s.fds = [(5, 2)] ∧ ¬ (s.holders.map Handle.fd).Nodup :=
  ⟨_, rfl, rfl, rfl, by decide⟩

end Net

end Celeritas
