import Celeritas.Config.Parse
import Celeritas.Lib.History
import Celeritas.Lib.RwLock
import Celeritas.Lib.Run

/-!
# Configuration snapshots under reload

Readers copy what they need of `*conf_data` under the read lock; the signal thread builds a
new configuration beside it, swaps the pointer under the write lock and frees the old one
after that, under no lock. Every access of either kind to the pointer or to a configuration
is a step here, and what is finished, read and freed is recorded in the order in which it
happens. `malloc` never returns an address twice, so that a stale pointer is never taken for a new
one.

All of it rests on one fact: whoever holds the read lock has `conf_data` as its pointer
(`Inv.loaded`), because the swap needs the lock for itself. What is freed has been swapped
out or never was in, so it is nobody's pointer.
-/

set_option autoImplicit false

namespace Celeritas

open CLib Lib

/-! ## The threads -/

/-- The read-locked sections of the program. -/
inductive ReadSection
  | workerThread
  | waitRoomThread
  | loggerInit
  | workerInit
  | respAddCommonHeaders
  | handleGetHead

/-- The fields they read through `conf_data`, in order. -/
def ReadSection.fields : ReadSection → List Field
  | .workerThread => [.uint16 .keepaliveTimeout]
  | .waitRoomThread => [.uint16 .connQueueSize]
  | .loggerInit => [.uint16 .logQueueSize]
  | .workerInit => [.uint16 .connQueueSize, .uint16 .workerThreads]
  | .respAddCommonHeaders => [.string .serverTok]
  | .handleGetHead => [.string .docRoot]

/-- Where a reader is. `n` numbers the sections in the order in which they begin. -/
inductive ReaderPc
  | outside
  | inside (n : ℕ) (todo : List Field)
  /-- `conf_data` has been loaded, and is going to be dereferenced for `f` -/
  | loaded (n : ℕ) (f : Field) (todo : List Field) (p : ℕ)

/-- Where the signal thread is in `reload_configuration`. -/
inductive ReloaderPc
  | idle
  /-- before `load_config_defaults` -/
  | allocated (p : ℕ)
  /-- before `fopen` -/
  | defaulted (p : ℕ)
  /-- in the read loop over the file, with what is still to be read -/
  | parsing (p : ℕ) (content : Bytes) (todo : List Bytes)
  /-- before `return true` -/
  | processed (p : ℕ) (content : Bytes)
  /-- before `free(new_config)` -/
  | failed (p : ℕ)
  /-- before `pthread_rwlock_wrlock` -/
  | parsed (p : ℕ)
  | writeLocked (p : ℕ)
  /-- before `pthread_rwlock_unlock` -/
  | swapped (old : ℕ)
  /-- before `free(old_config)` -/
  | unlocked (old : ℕ)

/-- A read of a field: the section it is made in, the pointer it is made through, and what is
there. -/
structure ConfRead where
  sect : ℕ
  ptr : ℕ
  field : Field
  config : Option ConfigData
  deriving DecidableEq

inductive ConfEvent
  /-- the parser has returned `true`, for this file and with this in the memory -/
  | finished (p : ℕ) (content : Bytes) (config : Option ConfigData)
  | read (r : ConfRead)
  | freed (p : ℕ)
  deriving DecidableEq

/-- The shared state. -/
structure Snapshot (ι : Type*) where
  lock : RwLock ι
  heap : ℕ → Option ConfigData
  next : ℕ
  confData : ℕ
  reader : ι → ReaderPc
  reloader : ReloaderPc
  sections : ℕ
  replaced : List ℕ
  trace : List ConfEvent

/-- What a reader does next. -/
inductive ReaderAct
  | rdlock (k : ReadSection)
  | load
  | fetch
  | unlock

/-- What the signal thread does next: `malloc` with the memory it returns,
`load_config_defaults`, `fopen`, and `proceed` for the steps that depend on nothing else. -/
inductive ReloaderAct
  | malloc (mem : Option ConfigData)
  | defaults (ncpu : ℤ)
  | fopen (file : Except Bytes Bytes)
  | proceed

inductive SnapAction (ι : Type*)
  | reader (i : ι) (a : ReaderAct)
  | reloader (a : ReloaderAct)

/-- What the loop stores for a line. -/
def lineStore (conf : ConfigData) (line : Bytes) : ConfigData :=
  match configLine line with
  | .assign a => conf.assign a
  | _ => conf

namespace Snapshot

variable {ι : Type*}

/-- After `init_config`. -/
def init (content : Bytes) (c : ConfigData) : Snapshot ι where
  lock := .unlocked
  heap := Function.update (fun _ => none) 0 (some c)
  next := 1
  confData := 0
  reader := fun _ => .outside
  reloader := .idle
  sections := 0
  replaced := []
  trace := [.finished 0 content (some c)]

/-- A store to a configuration. -/
def build (s : Snapshot ι) (p : ℕ) (store : ConfigData → ConfigData) (pc : ReloaderPc) :
    Snapshot ι :=
  { s with heap := Function.update s.heap p ((s.heap p).map store), reloader := pc }

/-- `free(p)` -/
def free (s : Snapshot ι) (p : ℕ) : Snapshot ι :=
  { s with
    heap := Function.update s.heap p none
    reloader := .idle
    trace := s.trace ++ [.freed p] }

variable [DecidableEq ι]

def readerStep (s : Snapshot ι) (i : ι) : ReaderAct → Option (Snapshot ι)
  | .rdlock k =>
    match s.reader i with
    | .outside => (s.lock.rdlock i).map fun l =>
      { s with
        lock := l
        reader := Function.update s.reader i (.inside s.sections k.fields)
        sections := s.sections + 1 }
    | _ => none
  | .load =>
    match s.reader i with
    | .inside n (f :: todo) =>
      some { s with reader := Function.update s.reader i (.loaded n f todo s.confData) }
    | _ => none
  | .fetch =>
    match s.reader i with
    | .loaded n f todo p =>
      some { s with
        reader := Function.update s.reader i (.inside n todo)
        trace := s.trace ++ [.read ⟨n, p, f, s.heap p⟩] }
    | _ => none
  | .unlock =>
    match s.reader i with
    | .inside _ [] =>
      some { s with
        lock := s.lock.rdunlock i
        reader := Function.update s.reader i .outside }
    | _ => none

/-- The statements of `reload_configuration`, one at a time. -/
def reloaderStep (s : Snapshot ι) (a : ReloaderAct) : Option (Snapshot ι) :=
  match s.reloader, a with
  | .idle, .malloc none => some s
  | .idle, .malloc (some mem) =>
    some { s with
      heap := Function.update s.heap s.next (some mem)
      next := s.next + 1
      reloader := .allocated s.next }
  | .allocated p, .defaults ncpu => some (s.build p (loadConfigDefaults ncpu) (.defaulted p))
  | .defaulted p, .fopen (.error _) => some { s with reloader := .failed p }
  | .defaulted p, .fopen (.ok content) =>
    some { s with reloader := .parsing p content (fgetsAll lineSize lineSize content) }
  | .parsing p content (line :: todo), .proceed =>
    some (s.build p (fun conf => lineStore conf line) (.parsing p content todo))
  | .parsing p content [], .proceed => some (s.build p postProcess (.processed p content))
  | .processed p content, .proceed =>
    some { s with
      reloader := .parsed p
      trace := s.trace ++ [.finished p content (s.heap p)] }
  | .failed p, .proceed => some (s.free p)
  | .parsed p, .proceed =>
    s.lock.wrlock.map fun l => { s with lock := l, reloader := .writeLocked p }
  | .writeLocked p, .proceed =>
    some { s with
      confData := p
      reloader := .swapped s.confData
      replaced := s.replaced ++ [s.confData] }
  | .swapped old, .proceed =>
    some { s with lock := s.lock.wrunlock, reloader := .unlocked old }
  | .unlocked old, .proceed => some (s.free old)
  | _, _ => none

def step (s : Snapshot ι) : SnapAction ι → Option (Snapshot ι)
  | .reader i a => s.readerStep i a
  | .reloader a => s.reloaderStep a

end Snapshot

/-! ## What is to hold -/

/-- What the parser makes of a file. -/
def Complete (content : Bytes) (config : Option ConfigData) : Prop :=
  ∃ ncpu mem, config = some (parsedConf content (loadConfigDefaults ncpu mem))

/-- What may happen after `pre`: a configuration is finished when it is complete; what is
read is as it was finished, has not been freed and is what the section has read before; and
what is freed has not been freed. -/
def Allowed (pre : List ConfEvent) : ConfEvent → Prop
  | .finished _ content config => Complete content config
  | .read r => (∃ content, .finished r.ptr content r.config ∈ pre) ∧ .freed r.ptr ∉ pre ∧
      ∀ r', .read r' ∈ pre → r'.sect = r.sect → r'.ptr = r.ptr ∧ r'.config = r.config
  | .freed p => .freed p ∉ pre

/-- The replaced configuration that is still to be freed. -/
def ReloaderPc.old : ReloaderPc → Option ℕ
  | .swapped old | .unlocked old => some old
  | _ => none

/-- The block the signal thread is to free or to publish. -/
def ReloaderPc.own : ReloaderPc → Option ℕ
  | .idle => none
  | .allocated p | .defaulted p | .parsing p _ _ | .processed p _ | .failed p | .parsed p
  | .writeLocked p | .swapped p | .unlocked p => some p

namespace Snapshot

variable {ι : Type*} [DecidableEq ι]

/-- What is still to be freed is freed by the next two steps of the signal thread. Neither has to
wait, it cannot take any others, and no reader moves it on. -/
structure Frees (s : Snapshot ι) (old : ℕ) : Prop where
  unlocks : s.reloader = .swapped old → ∃ s', s.reloaderStep .proceed = some s' ∧
    s'.reloader = .unlocked old ∧ s'.trace = s.trace
  frees : s.reloader = .unlocked old → ∃ s', s.reloaderStep .proceed = some s' ∧
    s'.reloader = .idle ∧ s'.trace = s.trace ++ [.freed old] ∧
    s'.trace.count (.freed old) = 1 ∧ s'.heap old = none
  only : ∀ a, a ≠ .proceed → s.reloaderStep a = none
  readers : ∀ i a s', s.readerStep i a = some s' → s'.reloader = s.reloader

/-- Snapshots are safe: only what is allowed happens, each configuration that was replaced
is freed once, but for the one that is about to be, which is freed next, and there is no other
memory than what is in use. -/
structure Safe (s : Snapshot ι) : Prop where
  history : Historic Allowed s.trace
  freedOnce : ∀ p ∈ s.replaced,
    s.trace.count (.freed p) = if s.reloader.old = some p then 0 else 1
  frees : ∀ p, s.reloader.old = some p → s.Frees p
  noLeak : ∀ p, (s.heap p).isSome ↔ p = s.confData ∨ s.reloader.own = some p

end Snapshot

/-! ## The invariant -/

/-- The section a reader is in. -/
def ReaderPc.sect : ReaderPc → Option ℕ
  | .outside => none
  | .inside n _ | .loaded n _ _ _ => some n

/-- It has the write lock. -/
def ReloaderPc.writes : ReloaderPc → Bool
  | .writeLocked _ | .swapped _ => true
  | _ => false

namespace Snapshot

variable {ι : Type*}

/-- How far the new configuration is. -/
def Built (heap : ℕ → Option ConfigData) (trace : List ConfEvent) : ReloaderPc → Prop
  | .defaulted p => ∃ ncpu mem, heap p = some (loadConfigDefaults ncpu mem)
  | .parsing p content todo => ∃ ncpu mem done, fgetsAll lineSize lineSize content = done ++ todo ∧
      heap p = some (done.foldl lineStore (loadConfigDefaults ncpu mem))
  | .processed p content => Complete content (heap p)
  | .parsed p | .writeLocked p => ∃ content, .finished p content (heap p) ∈ trace
  | _ => True

theorem Built.mono {heap : ℕ → Option ConfigData} {trace trace' : List ConfEvent}
    {pc : ReloaderPc} (h : Built heap trace pc) (ht : ∀ e ∈ trace, e ∈ trace') :
    Built heap trace' pc := by
  cases pc with
  | parsed p =>
    obtain ⟨content, hfin⟩ := h
    exact ⟨content, ht _ hfin⟩
  | writeLocked p =>
    obtain ⟨content, hfin⟩ := h
    exact ⟨content, ht _ hfin⟩
  | _ => exact h

structure Inv (s : Snapshot ι) : Prop where
  holders : ∀ i, i ∈ s.lock.holders ↔ (s.reader i).sect.isSome
  writer : s.lock.writer = s.reloader.writes
  loaded : ∀ i n f todo p, s.reader i = .loaded n f todo p → p = s.confData
  conf : ∃ content, .finished s.confData content (s.heap s.confData) ∈ s.trace
  live : ∀ p, (s.heap p).isSome ↔ p = s.confData ∨ s.reloader.own = some p
  apart : s.reloader.own ≠ some s.confData
  heapLt : ∀ p, (s.heap p).isSome → p < s.next
  freed : ∀ p, .freed p ∈ s.trace → s.heap p = none ∧ p < s.next
  current : ∀ i n, (s.reader i).sect = some n → n < s.sections ∧
    ∀ r, .read r ∈ s.trace → r.sect = n → r.ptr = s.confData ∧ r.config = s.heap s.confData
  sects : ∀ r, .read r ∈ s.trace → r.sect < s.sections
  history : Historic Allowed s.trace
  built : Built s.heap s.trace s.reloader
  replaced : ∀ p ∈ s.replaced, .freed p ∈ s.trace ∨ s.reloader.old = some p

theorem own_of_old {pc : ReloaderPc} {p : ℕ} (h : pc.old = some p) : pc.own = some p := by
  cases pc <;> simp_all [ReloaderPc.old, ReloaderPc.own]

theorem Inv.confSome {s : Snapshot ι} (h : s.Inv) : (s.heap s.confData).isSome :=
  (h.live _).mpr (.inl rfl)

theorem Inv.not_freed {s : Snapshot ι} (h : s.Inv) {p : ℕ} (hp : (s.heap p).isSome) :
    .freed p ∉ s.trace := by
  intro hfreed
  rw [(h.freed p hfreed).1] at hp
  cases hp

theorem Inv.not_freed_old {s : Snapshot ι} (h : s.Inv) {p : ℕ} (hp : s.reloader.old = some p) :
    s.trace.count (.freed p) = 0 :=
  List.count_eq_zero.mpr (h.not_freed ((h.live p).mpr (.inr (own_of_old hp))))

/-! ### What the signal thread does -/

/-- Only the signal thread moves on, and with it the lock. -/
theorem Inv.goto {s : Snapshot ι} (h : s.Inv) {l : RwLock ι} {pc : ReloaderPc}
    (hholders : l.holders = s.lock.holders) (hw : l.writer = pc.writes)
    (hown : pc.own = s.reloader.own) (hold : pc.old = s.reloader.old)
    (hbuilt : Built s.heap s.trace pc) :
    ({ s with lock := l, reloader := pc } : Snapshot ι).Inv := by
  refine { h with holders := ?_, writer := hw, live := ?_, apart := ?_, built := hbuilt,
                  replaced := ?_ }
  · intro i
    show i ∈ l.holders ↔ _
    rw [hholders]
    exact h.holders i
  · intro p
    show _ ↔ p = s.confData ∨ pc.own = some p
    rw [hown]
    exact h.live p
  · show pc.own ≠ some s.confData
    rw [hown]
    exact h.apart
  · intro p hp
    show _ ∨ pc.old = some p
    rw [hold]
    exact h.replaced p hp

/-- What is in memory changes, but for the configuration in use and what has been freed, and
no replaced configuration is still to be freed. -/
theorem Inv.remake {s : Snapshot ι} (h : s.Inv) {heap : ℕ → Option ConfigData} {next : ℕ}
    {pc : ReloaderPc} (hconf : heap s.confData = s.heap s.confData)
    (hlive : ∀ p, (heap p).isSome ↔ p = s.confData ∨ pc.own = some p)
    (hlt : ∀ p, (heap p).isSome → p < next) (hnext : s.next ≤ next)
    (hfreed : ∀ p, .freed p ∈ s.trace → heap p = none) (hapart : pc.own ≠ some s.confData)
    (hw : pc.writes = s.reloader.writes) (hold : s.reloader.old = none)
    (hbuilt : Built heap s.trace pc) :
    ({ s with heap := heap, next := next, reloader := pc } : Snapshot ι).Inv := by
  refine { h with writer := h.writer.trans hw.symm, conf := ?_, live := hlive, apart := hapart,
                  heapLt := hlt, freed := ?_, current := ?_, built := hbuilt, replaced := ?_ }
  · obtain ⟨content, hfin⟩ := h.conf
    exact ⟨content, by rwa [← hconf] at hfin⟩
  · intro p hp
    exact ⟨hfreed p hp, Nat.lt_of_lt_of_le (h.freed p hp).2 hnext⟩
  · intro i n hi
    show n < s.sections ∧ ∀ r, .read r ∈ s.trace → r.sect = n → r.ptr = s.confData ∧
      r.config = heap s.confData
    rw [hconf]
    exact h.current i n hi
  · intro p hp
    have hfree := h.replaced p hp
    rw [hold] at hfree
    exact .inl (hfree.resolve_right fun hnone => nomatch hnone)

/-- Something happens that is allowed, and is no `free`. A read is made of the configuration
in use. -/
theorem Inv.record {s : Snapshot ι} (h : s.Inv) {e : ConfEvent} (hallowed : Allowed s.trace e)
    (hfree : ∀ p, e ≠ .freed p)
    (hread : ∀ r, e = .read r → r.sect < s.sections ∧ r.ptr = s.confData ∧
      r.config = s.heap s.confData) :
    ({ s with trace := s.trace ++ [e] } : Snapshot ι).Inv := by
  have hmem : ∀ e' ∈ s.trace, e' ∈ s.trace ++ [e] := fun _ he => List.mem_append_left _ he
  have hcases : ∀ r, .read r ∈ s.trace ++ [e] → .read r ∈ s.trace ∨ e = .read r := by
    intro r hr
    exact (List.mem_append.mp hr).imp_right fun hr => (List.mem_singleton.mp hr).symm
  refine { h with conf := ?_, freed := ?_, current := ?_, sects := ?_,
                  history := historic_concat.mpr ⟨h.history, hallowed⟩,
                  built := h.built.mono hmem, replaced := ?_ }
  · obtain ⟨content, hfin⟩ := h.conf
    exact ⟨content, hmem _ hfin⟩
  · intro p hp
    rcases List.mem_append.mp hp with hp | hp
    · exact h.freed p hp
    · exact absurd (List.mem_singleton.mp hp).symm (hfree p)
  · intro i n hi
    obtain ⟨hlt, hold⟩ := h.current i n hi
    refine ⟨hlt, ?_⟩
    intro r hr hrn
    rcases hcases r hr with hr | hr
    · exact hold r hr hrn
    · exact (hread r hr).2
  · intro r hr
    rcases hcases r hr with hr | hr
    · exact h.sects r hr
    · exact (hread r hr).1
  · intro p hp
    exact (h.replaced p hp).imp_left (hmem _)

/-- A store to a block that is not in use leaves the configuration in use alone. -/
theorem Inv.heap_ne {s : Snapshot ι} (h : s.Inv) {p : ℕ} (hown : s.reloader.own = some p)
    (x : Option ConfigData) : Function.update s.heap p x s.confData = s.heap s.confData := by
  apply Function.update_of_ne
  rintro rfl
  exact h.apart hown

theorem Inv.build {s : Snapshot ι} (h : s.Inv) {p : ℕ} {store : ConfigData → ConfigData}
    {pc : ReloaderPc} (hown : s.reloader.own = some p) (hown' : pc.own = some p)
    (hw : pc.writes = s.reloader.writes) (hold : s.reloader.old = none)
    (hbuilt : Built (Function.update s.heap p ((s.heap p).map store)) s.trace pc) :
    (s.build p store pc).Inv := by
  have hsome : ∀ q, (Function.update s.heap p ((s.heap p).map store) q).isSome =
      (s.heap q).isSome := by
    intro q
    by_cases hq : q = p
    · simp [hq]
    · rw [Function.update_of_ne hq]
  apply h.remake (h.heap_ne hown _) ?_ ?_ (Nat.le_refl _) ?_ ?_ hw hold hbuilt
  · intro q
    rw [hsome, h.live, hown, hown']
  · intro q hq
    exact h.heapLt q (hsome q ▸ hq)
  · intro q hq
    have hnone := hsome q
    rw [(h.freed q hq).1] at hnone
    simpa using hnone
  · rw [hown', ← hown]
    exact h.apart

/-- **A block is freed** that is not in use. -/
theorem Inv.free {s : Snapshot ι} (h : s.Inv) {p : ℕ} (hown : s.reloader.own = some p)
    (hw : s.reloader.writes = false) : (s.free p).Inv := by
  have hmem : ∀ {e}, e ∈ s.trace → e ∈ s.trace ++ [.freed p] :=
    fun he => List.mem_append_left _ he
  have hsome : (s.heap p).isSome := (h.live p).mpr (.inr hown)
  refine { h with writer := ?_, conf := ?_, live := ?_, apart := ?_, heapLt := ?_, freed := ?_,
                  current := ?_, sects := ?_, history := ?_, built := trivial, replaced := ?_ }
  · exact h.writer.trans hw
  · obtain ⟨content, hfin⟩ := h.conf
    refine ⟨content, hmem ?_⟩
    show ConfEvent.finished _ _ (Function.update s.heap p _ s.confData) ∈ s.trace
    rwa [h.heap_ne hown]
  · intro q
    show (Function.update s.heap p none q).isSome ↔ q = s.confData ∨ none = some q
    by_cases hq : q = p
    · subst hq
      have : q ≠ s.confData := by
        rintro rfl
        exact h.apart hown
      simp [this]
    · rw [Function.update_of_ne hq, h.live, hown]
      simp [Ne.symm hq]
  · exact fun hnone => nomatch hnone
  · intro q hq
    by_cases hqp : q = p
    · exact hqp ▸ h.heapLt p hsome
    · apply h.heapLt q
      rwa [← Function.update_of_ne hqp none s.heap]
  · intro q hq
    show Function.update s.heap p none q = none ∧ q < s.next
    by_cases hqp : q = p
    · subst hqp
      exact ⟨Function.update_self .., h.heapLt q hsome⟩
    · rw [Function.update_of_ne hqp]
      rcases List.mem_append.mp hq with hq | hq
      · exact h.freed q hq
      · exact absurd (ConfEvent.freed.inj (List.mem_singleton.mp hq)) hqp
  · intro i n hi
    obtain ⟨hlt, hreads⟩ := h.current i n hi
    refine ⟨hlt, ?_⟩
    intro r hr hrn
    show _ ∧ r.config = Function.update s.heap p none s.confData
    rw [h.heap_ne hown]
    rcases List.mem_append.mp hr with hr | hr
    · exact hreads r hr hrn
    · simp at hr
  · intro r hr
    rcases List.mem_append.mp hr with hr | hr
    · exact h.sects r hr
    · simp at hr
  · exact historic_concat.mpr ⟨h.history, h.not_freed hsome⟩
  · intro q hq
    rcases h.replaced q hq with hf | hf
    · exact .inl (hmem hf)
    · have hqp : some q = some p := (own_of_old hf).symm.trans hown
      obtain rfl := Option.some.inj hqp
      exact .inl (List.mem_append_right _ (List.mem_singleton_self _))

/-- `malloc` returns a block that is not in use. -/
theorem Inv.malloc {s : Snapshot ι} (h : s.Inv) (hidle : s.reloader = .idle) (mem : ConfigData) :
    ({ s with
      heap := Function.update s.heap s.next (some mem)
      next := s.next + 1
      reloader := .allocated s.next } : Snapshot ι).Inv := by
  have hne : s.confData ≠ s.next := Nat.ne_of_lt (h.heapLt _ h.confSome)
  have hlive := h.live
  rw [hidle] at hlive
  refine h.remake (Function.update_of_ne hne ..) ?_ ?_ (Nat.le_succ _) ?_ ?_ (by rw [hidle]; rfl)
    (by rw [hidle]; rfl) trivial
  · intro p
    by_cases hp : p = s.next
    · simp [hp, ReloaderPc.own]
    · rw [Function.update_of_ne hp, hlive]
      simp [ReloaderPc.own, Ne.symm hp]
  · intro p hp
    by_cases hpn : p = s.next
    · omega
    · have := h.heapLt p (Function.update_of_ne hpn (some mem) s.heap ▸ hp)
      omega
  · intro p hp
    obtain ⟨hnone, hlt⟩ := h.freed p hp
    rw [Function.update_of_ne (Nat.ne_of_lt hlt), hnone]
  · simpa [ReloaderPc.own] using hne.symm

/-- The parser returns. -/
theorem Inv.finish {s : Snapshot ι} (h : s.Inv) {p : ℕ} {content : Bytes}
    (hpc : s.reloader = .processed p content) :
    ({ s with
      reloader := .parsed p
      trace := s.trace ++ [.finished p content (s.heap p)] } : Snapshot ι).Inv := by
  have hbuilt := h.built
  rw [hpc] at hbuilt
  have hrec := h.record (e := .finished p content (s.heap p)) hbuilt (fun _ he => nomatch he)
    (fun _ he => nomatch he)
  exact hrec.goto rfl (h.writer.trans (by rw [hpc]; rfl)) (by rw [hpc]; rfl) (by rw [hpc]; rfl)
    ⟨content, List.mem_append_right _ (List.mem_singleton_self _)⟩

/-- **The swap**: the writer has the lock, so no reader is inside. -/
theorem Inv.swap {s : Snapshot ι} (h : s.Inv) {p : ℕ} (hpc : s.reloader = .writeLocked p) :
    ({ s with
      confData := p
      reloader := .swapped s.confData
      replaced := s.replaced ++ [s.confData] } : Snapshot ι).Inv := by
  have hwriter : s.lock.writer = true := h.writer.trans (by rw [hpc]; rfl)
  have hout : ∀ i, (s.reader i).sect = none := by
    intro i
    by_contra hin
    have hmem := (h.holders i).mpr (Option.isSome_iff_ne_none.mpr hin)
    rw [RwLock.not_writer hmem] at hwriter
    cases hwriter
  have hlive := h.live
  have hapart := h.apart
  have hbuilt := h.built
  rw [hpc] at hlive hapart hbuilt
  refine { h with writer := hwriter, loaded := ?_, conf := hbuilt, live := ?_, apart := ?_,
                  current := ?_, built := trivial, replaced := ?_ }
  · intro i n f todo q hi
    have := hout i
    rw [hi] at this
    cases this
  · intro q
    show (s.heap q).isSome ↔ q = p ∨ some s.confData = some q
    rw [hlive q]
    simp only [ReloaderPc.own, Option.some.injEq, eq_comm (a := q), or_comm]
  · show some s.confData ≠ some p
    exact fun heq => hapart heq.symm
  · intro i n hi
    rw [hout i] at hi
    cases hi
  · intro q hq
    rcases List.mem_append.mp hq with hq | hq
    · have := h.replaced q hq
      rw [hpc] at this
      exact .inl (this.resolve_right fun hnone => nomatch hnone)
    · exact .inr (congrArg some (List.mem_singleton.mp hq).symm)

theorem foldl_lineStore (lines : List Bytes) (conf : ConfigData) :
    lines.foldl lineStore conf = (assignments lines).foldl ConfigData.assign conf := by
  induction lines generalizing conf with
  | nil => rfl
  | cons line lines ih =>
    rw [List.foldl_cons, ih, assignments_cons, lineStore]
    cases configLine line <;> rfl

theorem inv_init {content : Bytes} {c : ConfigData} (hc : Complete content (some c)) :
    (init content c : Snapshot ι).Inv := by
  have hheap : ∀ p, (Function.update (fun _ => none) 0 (some c) p : Option ConfigData).isSome ↔
      p = 0 := by
    intro p
    by_cases hp : p = 0
    · simp [hp]
    · simp [hp]
  have hhist : Historic Allowed ([] ++ [.finished 0 content (some c)]) :=
    historic_concat.mpr ⟨Historic.nil, hc⟩
  exact { holders := fun i => by simp [init, RwLock.unlocked, ReaderPc.sect]
          writer := rfl
          loaded := fun i n f todo p hi => nomatch hi
          conf := ⟨content, by simp [init]⟩
          live := fun p => (hheap p).trans (by simp [init, ReloaderPc.own])
          apart := fun hnone => nomatch hnone
          heapLt := fun p hp => (hheap p).mp hp ▸ Nat.one_pos
          freed := fun p hp => absurd hp (by simp [init])
          current := fun i n hi => nomatch hi
          sects := fun r hr => absurd hr (by simp [init])
          history := hhist
          built := trivial
          replaced := fun p hp => nomatch hp }

variable [DecidableEq ι]

/-! ### The readers -/

theorem Inv.loaded_update {s : Snapshot ι} (h : s.Inv) {i : ι} {pc : ReaderPc}
    (hpc : ∀ n f todo p, pc = .loaded n f todo p → p = s.confData) (j : ι) (n : ℕ) (f : Field)
    (todo : List Field) (p : ℕ) (hj : Function.update s.reader i pc j = .loaded n f todo p) :
    p = s.confData := by
  by_cases hji : j = i
  · rw [hji, Function.update_self] at hj
    exact hpc n f todo p hj
  · rw [Function.update_of_ne hji] at hj
    exact h.loaded j n f todo p hj

/-- A reader that does not enter or leave keeps its section. -/
theorem Inv.readerGoto {s : Snapshot ι} (h : s.Inv) {i : ι} {pc : ReaderPc}
    (hsect : pc.sect = (s.reader i).sect)
    (hloaded : ∀ n f todo p, pc = .loaded n f todo p → p = s.confData) :
    ({ s with reader := Function.update s.reader i pc } : Snapshot ι).Inv := by
  have hsame : ∀ j, (Function.update s.reader i pc j).sect = (s.reader j).sect := by
    intro j
    by_cases hj : j = i
    · rw [hj, Function.update_self, hsect]
    · rw [Function.update_of_ne hj]
  refine { h with holders := ?_, loaded := h.loaded_update hloaded, current := ?_ }
  · intro j
    exact (h.holders j).trans (by rw [hsame])
  · intro j n hj
    exact h.current j n (hsame j ▸ hj)

theorem Inv.rdlock {s s' : Snapshot ι} {i : ι} {k : ReadSection} (h : s.Inv)
    (hs : s.readerStep i (.rdlock k) = some s') : s'.Inv := by
  unfold readerStep at hs
  cases hi : s.reader i with
  | inside n todo => simp [hi] at hs
  | loaded n f todo p => simp [hi] at hs
  | outside =>
    simp only [hi] at hs
    obtain ⟨l, hl, rfl⟩ := Option.map_eq_some_iff.mp hs
    obtain ⟨hholders, hfree, hwriter⟩ := RwLock.rdlock_some hl
    refine { h with holders := ?_, writer := ?_, loaded := ?_, current := ?_, sects := ?_ }
    · intro j
      show j ∈ l.holders ↔ _
      rw [hholders, Finset.mem_insert]
      by_cases hj : j = i
      · simp [hj, ReaderPc.sect]
      · simp [hj, h.holders j]
    · exact hwriter.trans (hfree.symm.trans h.writer)
    · exact h.loaded_update fun _ _ _ _ hpc => nomatch hpc
    · intro j n hj
      by_cases hji : j = i
      · -- the number is new
        simp only [hji, Function.update_self, ReaderPc.sect, Option.some.injEq] at hj
        subst hj
        refine ⟨Nat.lt_succ_self _, ?_⟩
        intro r hr hsect
        exact absurd (h.sects r hr) (by omega)
      · simp only [Function.update_of_ne hji] at hj
        obtain ⟨hlt, hreads⟩ := h.current j n hj
        exact ⟨Nat.lt_succ_of_lt hlt, hreads⟩
    · intro r hr
      exact Nat.lt_succ_of_lt (h.sects r hr)

theorem Inv.load {s s' : Snapshot ι} {i : ι} (h : s.Inv)
    (hs : s.readerStep i .load = some s') : s'.Inv := by
  unfold readerStep at hs
  cases hi : s.reader i with
  | outside => simp [hi] at hs
  | loaded n f todo p => simp [hi] at hs
  | inside n todo =>
    cases todo with
    | nil => simp [hi] at hs
    | cons f todo =>
      simp only [hi, Option.some.injEq] at hs
      subst hs
      exact h.readerGoto (by rw [hi]; rfl) fun _ _ _ _ hpc => (ReaderPc.loaded.inj hpc).2.2.2.symm

/-- **A read** is made through the pointer in use. -/
theorem Inv.fetch {s s' : Snapshot ι} {i : ι} (h : s.Inv)
    (hs : s.readerStep i .fetch = some s') : s'.Inv := by
  unfold readerStep at hs
  cases hi : s.reader i with
  | outside => simp [hi] at hs
  | inside n todo => simp [hi] at hs
  | loaded n f todo p =>
    simp only [hi, Option.some.injEq] at hs
    subst hs
    obtain rfl := h.loaded i n f todo p hi
    obtain ⟨hn, hreads⟩ := h.current i n (by rw [hi]; rfl)
    have hallowed : Allowed s.trace (.read ⟨n, s.confData, f, s.heap s.confData⟩) :=
      ⟨h.conf, h.not_freed h.confSome, hreads⟩
    have hrec := h.record hallowed (fun _ he => nomatch he) (by
      rintro r he
      obtain rfl := ConfEvent.read.inj he
      exact ⟨hn, rfl, rfl⟩)
    exact hrec.readerGoto (by rw [hi]; rfl) fun _ _ _ _ hpc => nomatch hpc

theorem Inv.unlock {s s' : Snapshot ι} {i : ι} (h : s.Inv)
    (hs : s.readerStep i .unlock = some s') : s'.Inv := by
  unfold readerStep at hs
  cases hi : s.reader i with
  | outside => simp [hi] at hs
  | loaded n f todo p => simp [hi] at hs
  | inside n todo =>
    cases todo with
    | cons f todo => simp [hi] at hs
    | nil =>
      simp only [hi, Option.some.injEq] at hs
      subst hs
      refine { h with holders := ?_, loaded := ?_, current := ?_ }
      · intro j
        show j ∈ s.lock.holders.erase i ↔ _
        rw [Finset.mem_erase]
        by_cases hj : j = i
        · simp [hj, ReaderPc.sect]
        · simp [hj, h.holders j]
      · exact h.loaded_update fun _ _ _ _ hpc => nomatch hpc
      · intro j n' hj
        by_cases hji : j = i
        · simp [hji, ReaderPc.sect] at hj
        · simp only [Function.update_of_ne hji] at hj
          exact h.current j n' hj

/-! ### All steps -/

theorem Inv.reloaderStep {s s' : Snapshot ι} {a : ReloaderAct} (h : s.Inv)
    (hs : s.reloaderStep a = some s') : s'.Inv := by
  unfold Snapshot.reloaderStep at hs
  have hbuilt := h.built
  split at hs
  · rename_i hpc
    exact Option.some.inj hs ▸ h
  · rename_i mem hpc
    exact Option.some.inj hs ▸ h.malloc hpc mem
  · rename_i p ncpu hpc
    obtain ⟨mem, hmem⟩ := Option.isSome_iff_exists.mp ((h.live p).mpr (.inr (by rw [hpc]; rfl)))
    obtain rfl := Option.some.inj hs
    apply h.build (by rw [hpc]; rfl) rfl (by rw [hpc]; rfl) (by rw [hpc]; rfl)
    exact ⟨ncpu, mem, by rw [Function.update_self, hmem]; rfl⟩
  · rename_i p e hpc
    obtain rfl := Option.some.inj hs
    exact h.goto rfl (h.writer.trans (by rw [hpc]; rfl)) (by rw [hpc]; rfl) (by rw [hpc]; rfl)
      trivial
  · rename_i p content hpc
    rw [hpc] at hbuilt
    obtain ⟨ncpu, mem, hheap⟩ := hbuilt
    obtain rfl := Option.some.inj hs
    apply h.goto rfl (h.writer.trans (by rw [hpc]; rfl)) (by rw [hpc]; rfl) (by rw [hpc]; rfl)
    exact ⟨ncpu, mem, [], rfl, hheap⟩
  · rename_i p content line todo hpc
    rw [hpc] at hbuilt
    obtain ⟨ncpu, mem, done, hlines, hheap⟩ := hbuilt
    obtain rfl := Option.some.inj hs
    apply h.build (by rw [hpc]; rfl) rfl (by rw [hpc]; rfl) (by rw [hpc]; rfl)
    refine ⟨ncpu, mem, done ++ [line], by simpa using hlines, ?_⟩
    rw [Function.update_self, hheap, Option.map_some, List.foldl_append]
    rfl
  · rename_i p content hpc
    rw [hpc] at hbuilt
    obtain ⟨ncpu, mem, done, hlines, hheap⟩ := hbuilt
    obtain rfl := Option.some.inj hs
    apply h.build (by rw [hpc]; rfl) rfl (by rw [hpc]; rfl) (by rw [hpc]; rfl)
    refine ⟨ncpu, mem, ?_⟩
    rw [List.append_nil] at hlines
    rw [Function.update_self, hheap, Option.map_some, ← hlines, foldl_lineStore]
    rfl
  · rename_i p content hpc
    exact Option.some.inj hs ▸ h.finish hpc
  · rename_i p hpc
    exact Option.some.inj hs ▸ h.free (by rw [hpc]; rfl) (by rw [hpc]; rfl)
  · rename_i p hpc
    rw [hpc] at hbuilt
    obtain ⟨l, hl, rfl⟩ := Option.map_eq_some_iff.mp hs
    obtain ⟨hholders, -, hwriter⟩ := RwLock.wrlock_some hl
    exact h.goto hholders hwriter (by rw [hpc]; rfl) (by rw [hpc]; rfl) hbuilt
  · rename_i p hpc
    exact Option.some.inj hs ▸ h.swap hpc
  · rename_i old hpc
    obtain rfl := Option.some.inj hs
    exact h.goto rfl rfl (by rw [hpc]; rfl) (by rw [hpc]; rfl) trivial
  · rename_i old hpc
    exact Option.some.inj hs ▸ h.free (by rw [hpc]; rfl) (by rw [hpc]; rfl)
  · cases hs

theorem Inv.step {s s' : Snapshot ι} {a : SnapAction ι} (h : s.Inv) (hs : s.step a = some s') :
    s'.Inv := by
  cases a with
  | reader i a =>
    cases a with
    | rdlock k => exact h.rdlock hs
    | load => exact h.load hs
    | fetch => exact h.fetch hs
    | unlock => exact h.unlock hs
  | reloader a => exact h.reloaderStep hs

theorem readerStep_reloader {s s' : Snapshot ι} {i : ι} {a : ReaderAct}
    (hs : s.readerStep i a = some s') : s'.reloader = s.reloader := by
  unfold readerStep at hs
  cases a with
  | rdlock k =>
    dsimp only at hs
    split at hs
    · obtain ⟨l, -, rfl⟩ := Option.map_eq_some_iff.mp hs
      rfl
    · cases hs
  | _ =>
    dsimp only at hs
    split at hs
    · obtain rfl := Option.some.inj hs
      rfl
    · cases hs

/-- **The replaced configuration is freed**, and nothing is in the way of that. -/
theorem Inv.frees {s : Snapshot ι} (h : s.Inv) {p : ℕ} (hp : s.reloader.old = some p) :
    s.Frees p where
  unlocks hpc := by
    refine ⟨{ s with lock := s.lock.wrunlock, reloader := .unlocked p }, ?_, rfl, rfl⟩
    simp only [Snapshot.reloaderStep, hpc]
  frees hpc := by
    refine ⟨s.free p, ?_, rfl, rfl, ?_, Function.update_self ..⟩
    · simp only [Snapshot.reloaderStep, hpc]
    · show (s.trace ++ [ConfEvent.freed p]).count (ConfEvent.freed p) = 1
      rw [List.count_append, h.not_freed_old hp, List.count_singleton_self]
  only a ha := by
    cases hpc : s.reloader with
    | swapped old => cases a <;> simp_all [Snapshot.reloaderStep]
    | unlocked old => cases a <;> simp_all [Snapshot.reloaderStep]
    | _ => simp [hpc, ReloaderPc.old] at hp
  readers _ _ _ hs := readerStep_reloader hs

theorem Inv.safe {s : Snapshot ι} (h : s.Inv) : s.Safe where
  history := h.history
  freedOnce p hp := by
    split
    · rename_i hold
      exact h.not_freed_old hold
    · rename_i hold
      have hle := h.history.count_le_one (e := .freed p) (fun _ h => h)
      have hpos := List.count_pos_iff.mpr ((h.replaced p hp).resolve_right hold)
      omega
  frees _ hp := h.frees hp
  noLeak := h.live

/-- **Snapshots are safe under reload**, with any readers, any reloads and in any order of
their steps. -/
theorem snapshots_safe {ncpu : ℤ} {path content : Bytes} {c : ConfigData}
    (hc : initConfig ncpu path (.ok content) = .ok c) {s : Snapshot ι}
    (h : Reachable step (init content c) s) : s.Safe := by
  obtain ⟨-, rfl⟩ := initConfig_eq_ok.mp hc
  have hinv : s.Inv := h.inv (inv_init ⟨ncpu, .zeroed, rfl⟩) fun _ _ _ hi hs _ => hi.step hs
  exact hinv.safe

/-! ## A reload between two readers

One is inside while the new configuration is built, the other enters before the old one is
freed. -/

def portFile : Bytes := lit "http_port = 81\n"

def reloadRun : List (SnapAction Bool) :=
  [.reader true (.rdlock .workerInit), .reader true .load, .reader true .fetch,
    .reloader (.malloc (some .zeroed)), .reloader (.defaults 4),
    .reloader (.fopen (.ok portFile)), .reloader .proceed, .reloader .proceed,
    .reader true .load, .reloader .proceed, .reader true .fetch, .reader true .unlock,
    .reloader .proceed, .reloader .proceed, .reloader .proceed,
    .reader false (.rdlock .handleGetHead), .reader false .load, .reloader .proceed,
    .reader false .fetch, .reader false .unlock]

theorem snapshots_safe_reloadRun : ∃ c, initConfig 4 [] (.ok portFile) = .ok c ∧
    ∃ s : Snapshot Bool, run step (init portFile c) reloadRun = some s ∧ s.Safe ∧
      s.replaced = [0] ∧ s.trace.count (.freed 0) = 1 := by
  have hok : initConfig 4 [] (.ok portFile) =
      .ok (parsedConf portFile (loadConfigDefaults 4 .zeroed)) :=
    initConfig_eq_ok.mpr ⟨by decide +kernel, rfl⟩
  have hrun : (run step (init portFile (parsedConf portFile (loadConfigDefaults 4 .zeroed)))
      reloadRun).map (fun s => (s.replaced, s.trace.count (.freed 0))) = some ([0], 1) := by
    decide +kernel
  obtain ⟨s, hs, hends⟩ := Option.map_eq_some_iff.mp hrun
  obtain ⟨hreplaced, hfreed⟩ := Prod.mk.inj hends
  exact ⟨_, hok, s, hs, snapshots_safe hok (.of_run _ hs), hreplaced, hfreed⟩

end Snapshot

end Celeritas
