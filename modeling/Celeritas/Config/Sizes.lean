import Celeritas.Config.Parse
import Celeritas.Logger.Ring
import Celeritas.Queue

/-!
# The queue sizes

The sizes of the two queues are rounded up in 32 bits and stored in 16. One is the capacity
of the connection queues, the other the size of the log ring, whose indices are wrapped by a
mask. Not every size that is configured survives: `sizesUsable_iff` says which do.
-/

set_option autoImplicit false

namespace Celeritas

open CLib Lib

/-! ## Rounding up -/

/-- A number with a power of two above it in 32 bits. -/
def Roundable (v : UInt32) : Prop := 1 ≤ v.toNat ∧ v.toNat ≤ 2 ^ 31

/-- `f` gives the least power of two that is no smaller, and one where there is none or the
number is zero. -/
structure RoundsUp (f : UInt32 → UInt32) : Prop where
  pow : ∀ v, Roundable v → ∃ k, (f v).toNat = 2 ^ k
  ge : ∀ v, Roundable v → v ≤ f v
  least : ∀ v, Roundable v → ∀ k, v.toNat ≤ 2 ^ k → (f v).toNat ≤ 2 ^ k
  mono : ∀ v w, Roundable v → Roundable w → v ≤ w → f v ≤ f w
  idem : ∀ v, Roundable v → f (f v) = f v
  otherwise : ∀ v, ¬ Roundable v → f v = 1

theorem Roundable.toNat_nextPowerOf2 {v : UInt32} (h : Roundable v) :
    (nextPowerOf2 v).toNat = roundUp v.toNat := by
  have h0 : v ≠ 0 := by
    rintro rfl
    exact absurd h.1 (by decide)
  exact Celeritas.toNat_nextPowerOf2 h0 h.2

/-- The result can be rounded again. -/
theorem Roundable.nextPowerOf2 {v : UInt32} (h : Roundable v) : Roundable (nextPowerOf2 v) := by
  rw [Roundable, h.toNat_nextPowerOf2]
  exact ⟨roundUp_pos _, roundUp_le_iff.mpr h.2⟩

/-- **`next_power_of_2` rounds up**, and is one outside of its range. -/
theorem nextPowerOf2_roundsUp : RoundsUp nextPowerOf2 where
  pow := by
    intro v hv
    exact ⟨_, hv.toNat_nextPowerOf2⟩
  ge := by
    intro v hv
    rw [UInt32.le_iff_toNat_le, hv.toNat_nextPowerOf2]
    exact le_roundUp _
  least := by
    intro v hv k hk
    rw [hv.toNat_nextPowerOf2]
    exact roundUp_le_iff.mpr hk
  mono := by
    intro v w hv hw hle
    rw [UInt32.le_iff_toNat_le] at hle ⊢
    rw [hv.toNat_nextPowerOf2, hw.toNat_nextPowerOf2]
    exact roundUp_mono hle
  idem := by
    intro v hv
    rw [← UInt32.toNat_inj, hv.nextPowerOf2.toNat_nextPowerOf2, hv.toNat_nextPowerOf2,
      roundUp_roundUp]
  otherwise := by
    intro v hv
    apply nextPowerOf2_eq_one
    by_cases h0 : v = 0
    · exact Or.inl h0
    · have hpos : 1 ≤ v.toNat := Nat.one_le_iff_ne_zero.mpr fun h => h0 (UInt32.toNat_inj.mp h)
      exact Or.inr (Nat.lt_of_not_le fun hmax => hv ⟨hpos, hmax⟩)

/-! ## The sizes that are stored -/

/-- The sizes of `c` are those `configured`, rounded up, and the queues built with them
work. -/
structure SizesUsable (configured c : ConfigData) : Prop where
  connPow : ∃ k, c.connQueueSize.toNat = 2 ^ k
  connGe : configured.connQueueSize.toNat ≤ c.connQueueSize.toNat
  connPos : 1 ≤ c.connQueueSize.toNat
  logPow : ∃ k, c.logQueueSize.toNat = 2 ^ k
  logGe : configured.logQueueSize.toNat ≤ c.logQueueSize.toNat
  logTwo : 2 ≤ c.logQueueSize.toNat
  /-- the empty queue takes a connection -/
  push : ∀ (mem : ℕ → Conn) (x : Conn),
    (queuePush (queueInit mem c.connQueueSize.toNat connPos) x).isSome
  /-- the masks keep the indices of the ring inside its array -/
  ring : (Logger.init c.logQueueSize.toNat).Wf
  /-- the empty ring takes a message -/
  store : ∀ e, ((Logger.init c.logQueueSize.toNat).logWrite e).1 = .stored

theorem queuePush_queueInit {α : Type*} (mem : ℕ → α) {capacity : ℕ} (h : 0 < capacity) (x : α) :
    (queuePush (queueInit mem capacity h) x).isSome := by
  rw [Option.isSome_iff_ne_none, ne_eq, queuePush_eq_none]
  exact Nat.ne_of_lt h

/-- A ring of two slots or more has room for one message. -/
theorem logWrite_init {size : ℕ} (h : (Logger.init size).Wf) (e : LogEntry) :
    ((Logger.init size).logWrite e).1 = .stored := by
  obtain ⟨k, hk⟩ := h.size_pow
  have htail : (Logger.init size).nextTail ≠ (Logger.init size).ring.head := by
    have htwo : 1 < 2 ^ (k + 1) := Nat.one_lt_two_pow (Nat.succ_ne_zero k)
    show (Logger.init size).masked (0 + 1) ≠ 0
    rw [h.mask, hk, Nat.mod_eq_of_lt htwo]
    exact Nat.one_ne_zero
  rw [Logger.logWrite, if_neg htail]

/-- A rounded size is a power of two and no smaller, if it was not truncated. -/
theorem roundedQueueSize_pow {v : UInt16} (h : v.toNat ≤ 2 ^ 15) :
    (∃ k, (roundedQueueSize v).toNat = 2 ^ k) ∧ v.toNat ≤ (roundedQueueSize v).toNat := by
  rw [toNat_roundedQueueSize]
  by_cases h0 : v = 0
  · subst h0
    exact ⟨⟨0, rfl⟩, Nat.zero_le _⟩
  · rw [if_neg h0, if_pos h]
    exact ⟨⟨_, rfl⟩, le_roundUp _⟩

theorem one_le_roundedQueueSize {v : UInt16} :
    1 ≤ (roundedQueueSize v).toNat ↔ v.toNat ≤ 2 ^ 15 := by
  rw [toNat_roundedQueueSize]
  by_cases h0 : v = 0
  · subst h0
    exact iff_of_true le_rfl (Nat.zero_le _)
  · rw [if_neg h0]
    by_cases h : v.toNat ≤ 2 ^ 15
    · rw [if_pos h]
      exact iff_of_true (roundUp_pos v.toNat) h
    · rw [if_neg h]
      exact iff_of_false (by omega) h

theorem two_le_roundedQueueSize {v : UInt16} :
    2 ≤ (roundedQueueSize v).toNat ↔ 2 ≤ v.toNat ∧ v.toNat ≤ 2 ^ 15 := by
  constructor
  · intro h
    have hmax : v.toNat ≤ 2 ^ 15 := one_le_roundedQueueSize.mp (by omega)
    refine ⟨?_, hmax⟩
    by_contra hlt
    rw [toNat_roundedQueueSize, if_pos hmax] at h
    -- zero and one are rounded to one
    split at h
    · omega
    · have hone : roundUp v.toNat ≤ 2 ^ 0 := roundUp_le_iff.mpr (by omega)
      omega
  · rintro ⟨hmin, hmax⟩
    exact hmin.trans (roundedQueueSize_pow hmax).2

/-- **The queues of an accepted configuration work if and only if** neither size is beyond
`32768` and the log has two slots or more. -/
theorem sizesUsable_iff {ncpu : ℤ} {path content : Bytes} {c : ConfigData}
    (h : initConfig ncpu path (.ok content) = .ok c) :
    SizesUsable (readConf content (loadConfigDefaults ncpu .zeroed)) c ↔
      (readConf content (loadConfigDefaults ncpu .zeroed)).connQueueSize.toNat ≤ 2 ^ 15 ∧
        2 ≤ (readConf content (loadConfigDefaults ncpu .zeroed)).logQueueSize.toNat ∧
        (readConf content (loadConfigDefaults ncpu .zeroed)).logQueueSize.toNat ≤ 2 ^ 15 := by
  obtain ⟨-, rfl⟩ := initConfig_eq_ok.mp h
  generalize hconf : readConf content (loadConfigDefaults ncpu .zeroed) = conf
  rw [parsedConf, hconf]
  constructor
  · intro hu
    exact ⟨one_le_roundedQueueSize.mp hu.connPos, two_le_roundedQueueSize.mp hu.logTwo⟩
  · rintro ⟨hconn, hlog⟩
    have hpos : 1 ≤ (postProcess conf).connQueueSize.toNat := one_le_roundedQueueSize.mpr hconn
    have htwo : 2 ≤ (postProcess conf).logQueueSize.toNat := two_le_roundedQueueSize.mpr hlog
    obtain ⟨k, hk⟩ := (roundedQueueSize_pow hlog.2).1
    have hring : (Logger.init (postProcess conf).logQueueSize.toNat).Wf := by
      cases k with
      | zero => exact absurd htwo (by simp [postProcess, hk])
      | succ k =>
        show (Logger.init (roundedQueueSize conf.logQueueSize).toNat).Wf
        rw [hk]
        exact Logger.init_wf k
    exact {
      connPow := (roundedQueueSize_pow hconn).1
      connGe := (roundedQueueSize_pow hconn).2
      connPos := hpos
      logPow := ⟨k, hk⟩
      logGe := (roundedQueueSize_pow hlog.2).2
      logTwo := htwo
      push := fun mem x => queuePush_queueInit mem hpos x
      ring := hring
      store := logWrite_init hring }

/-! ## The extreme sizes -/

/-- Sizes that are accepted, and that the fields can hold. -/
def bigConn : Bytes := lit "conn_queue_size = 40000\n"

def tinyLog : Bytes := lit "log_queue_size = 1\n"

def fittingSizes : Bytes := lit "conn_queue_size = 32768\nlog_queue_size = 5\n"

theorem sizesUsable_fittingSizes :
    ∃ c, initConfig 4 [] (.ok fittingSizes) = .ok c ∧
      SizesUsable (readConf fittingSizes (loadConfigDefaults 4 .zeroed)) c := by
  have hok : initConfig 4 [] (.ok fittingSizes) =
      .ok (parsedConf fittingSizes (loadConfigDefaults 4 .zeroed)) :=
    initConfig_eq_ok.mpr ⟨by decide +kernel, rfl⟩
  exact ⟨_, hok, (sizesUsable_iff hok).mpr (by decide +kernel)⟩

/-- The server starts with queues that take no connection, or with a log that takes no
message. -/
theorem extreme_sizes_unusable :
    (∃ c, initConfig 4 [] (.ok bigConn) = .ok c ∧ c.connQueueSize = 0 ∧
      ¬ SizesUsable (readConf bigConn (loadConfigDefaults 4 .zeroed)) c) ∧
    ∃ c, initConfig 4 [] (.ok tinyLog) = .ok c ∧ c.logQueueSize = 1 ∧
      ¬ SizesUsable (readConf tinyLog (loadConfigDefaults 4 .zeroed)) c := by
  have hbig : (parsedConf bigConn (loadConfigDefaults 4 .zeroed)).connQueueSize = 0 := by
    decide +kernel
  have htiny : (parsedConf tinyLog (loadConfigDefaults 4 .zeroed)).logQueueSize = 1 := by
    decide +kernel
  constructor
  · refine ⟨_, initConfig_eq_ok.mpr ⟨by decide +kernel, rfl⟩, hbig, ?_⟩
    intro hu
    have := hu.connPos
    rw [hbig] at this
    exact absurd this (by decide)
  · refine ⟨_, initConfig_eq_ok.mpr ⟨by decide +kernel, rfl⟩, htiny, ?_⟩
    intro hu
    have := hu.logTwo
    rw [htiny] at this
    exact absurd this (by decide)

end Celeritas
