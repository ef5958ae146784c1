import Celeritas.Config.Parse
import Celeritas.Lib.Run

/-!
# SIGHUP

`thr_sig_handler` waits for a signal and, for SIGHUP, reloads the configuration. All the while
the file may be written to, or another one get its name, and signals may come. A signal that
is pending is not pending twice: of many that come during one reload, one is left over.

Still none is lost (`reloaded_after_sighup`): what is in use when the handler has come to rest
is what the file leads to, if that has not changed since the last SIGHUP.
-/

set_option autoImplicit false

namespace Celeritas

open CLib Lib

/-- Where `thr_sig_handler` is, and with what. -/
inductive HandlerPc
  /-- in `sigwait` -/
  | sigwait
  /-- in `reload_configuration`: before `malloc`, before `fopen` and in the read loop; `i` is
  the open file and `got` what has been read of it -/
  | malloc
  | fopen (mem : ConfigData)
  | reading (mem : ConfigData) (i : ℕ) (got : Bytes)
  /-- in `server_shutdown` -/
  | shutdown
  deriving DecidableEq

structure SigState where
  /-- the signals that are pending -/
  hup : Bool
  term : Bool
  pc : HandlerPc
  confData : ConfigData
  /-- the content of each file there is, and which of them has the name -/
  content : ℕ → Bytes
  name : Option ℕ

inductive SigAction
  | sighup
  | sigterm
  /-- `sigwait` returns one of the pending signals, or fails -/
  | takeHup
  | takeTerm
  | sigwaitFailed
  /-- what `malloc` returns -/
  | malloc (mem : Option ConfigData)
  | fopen (ok : Bool)
  /-- `n` more bytes are read, or as many as there are -/
  | fread (n : ℕ)
  /-- the end of the file is met, and the new configuration published -/
  | publish
  /-- somebody writes to a file, or gives the name to another file, or to none -/
  | write (i : ℕ) (content : Bytes)
  | rename (name : Option ℕ)

namespace SigState

/-- The steps of the handler. -/
def handlerStep (ncpu : ℤ) (path : Bytes) (s : SigState) (a : SigAction) : Option SigState :=
  match s.pc, a with
  | .sigwait, .takeHup => if s.hup then some { s with hup := false, pc := .malloc } else none
  | .sigwait, .takeTerm => if s.term then some { s with term := false, pc := .shutdown } else none
  | .sigwait, .sigwaitFailed => some { s with pc := .shutdown }
  | .malloc, .malloc none => some { s with
      confData := (reloadConfiguration none ncpu path (.ok [])).running s.confData
      pc := .sigwait }
  | .malloc, .malloc (some mem) => some { s with pc := .fopen mem }
  | .fopen mem, .fopen ok =>
    match s.name.filter fun _ => ok with
    | some i => some { s with pc := .reading mem i [] }
    | none => some { s with
        confData := (reloadConfiguration (some mem) ncpu path (.error [])).running s.confData
        pc := .sigwait }
  | .reading mem i got, .fread n =>
    some { s with pc := .reading mem i (got ++ ((s.content i).drop got.length).take n) }
  | .reading mem i got, .publish =>
    if (s.content i).length ≤ got.length then
      some { s with
        confData := (reloadConfiguration (some mem) ncpu path (.ok got)).running s.confData
        pc := .sigwait }
    else none
  | _, _ => none

def step (ncpu : ℤ) (path : Bytes) (s : SigState) : SigAction → Option SigState
  | .sighup => some { s with hup := true }
  | .sigterm => some { s with term := true }
  | .write i content => some { s with content := Function.update s.content i content }
  | .rename name => some { s with name := name }
  | a => s.handlerStep ncpu path a

end SigState

/-- File `i` stays as it is and keeps the name, and the reload gets its memory and the file. Other
files may be written to, such as one that had the name before and is still being read. -/
def SigAction.Quiet (i : ℕ) : SigAction → Prop
  | .write j _ => j ≠ i
  | .rename name => name = some i
  | .malloc mem => mem ≠ none
  | .fopen ok => ok = true
  | _ => True

namespace SigState

/-! ## What has begun since the signal -/

/-- Of a reload that began when file `i` had the name and content `c`, what there is so far. -/
def Since (ncpu : ℤ) (i : ℕ) (c : Bytes) (s : SigState) : Prop :=
  match s.pc with
  | .sigwait => ∃ mem, s.confData = parsedConf c (loadConfigDefaults ncpu mem)
  | .reading _ j got => j = i ∧ got <+: c
  | _ => True

/-- The signal is pending, or what it was for has begun after it. -/
structure Caught (ncpu : ℤ) (i : ℕ) (c : Bytes) (s : SigState) : Prop where
  name : s.name = some i
  content : s.content i = c
  due : s.hup = true ∨ s.Since ncpu i c

variable {ncpu : ℤ} {path : Bytes} {i : ℕ} {c : Bytes}

/-- While nothing is edited, more of the file is read. -/
theorem prefix_fread {got : Bytes} (h : got <+: c) (n : ℕ) :
    got ++ (c.drop got.length).take n <+: c := by
  obtain ⟨rest, rfl⟩ := h
  rw [List.drop_left]
  exact List.prefix_append_right_inj got |>.mpr (List.take_prefix n rest)

theorem Since.handlerStep {s s' : SigState} {a : SigAction} (hname : s.name = some i)
    (hcontent : s.content i = c) (h : s.Since ncpu i c) (hq : a.Quiet i)
    (hs : s.handlerStep ncpu path a = some s') : s'.Since ncpu i c := by
  unfold SigState.handlerStep at hs
  split at hs
  · split at hs
    · obtain rfl := Option.some.inj hs
      trivial
    · exact absurd hs (by simp)
  · split at hs
    · obtain rfl := Option.some.inj hs
      trivial
    · exact absurd hs (by simp)
  · obtain rfl := Option.some.inj hs
    trivial
  · exact absurd rfl hq
  · obtain rfl := Option.some.inj hs
    trivial
  · rename_i mem ok hpc
    obtain rfl : ok = true := hq
    simp only [hname, Option.filter_some, if_true] at hs
    obtain rfl := Option.some.inj hs
    exact ⟨rfl, List.nil_prefix⟩
  · rename_i mem j got n hpc
    obtain rfl := Option.some.inj hs
    simp only [Since, hpc] at h
    obtain ⟨rfl, hgot⟩ := h
    exact ⟨rfl, hcontent ▸ prefix_fread (hcontent ▸ hgot) n⟩
  · rename_i mem j got hpc
    simp only [Since, hpc] at h
    obtain ⟨rfl, hgot⟩ := h
    split at hs
    · rename_i hend
      obtain rfl := Option.some.inj hs
      -- it has been read to the end, so all of it has been read
      obtain rfl : got = c := hgot.eq_of_length_le (hcontent ▸ hend)
      refine ⟨mem, ?_⟩
      rw [reloadConfiguration_ok]
      rfl
    · exact absurd hs (by simp)
  · exact absurd hs (by simp)

/-- No step of the handler touches a file, and one that takes the signal starts a reload. -/
theorem handlerStep_frame {s s' : SigState} {a : SigAction}
    (hs : s.handlerStep ncpu path a = some s') :
    s'.name = s.name ∧ s'.content = s.content ∧ (s'.hup = s.hup ∨ s'.pc = .malloc) := by
  unfold SigState.handlerStep at hs
  split at hs
  case h_6 =>
    split at hs <;> obtain rfl := Option.some.inj hs <;> exact ⟨rfl, rfl, .inl rfl⟩
  case h_9 => exact absurd hs (by simp)
  case h_1 =>
    split at hs
    · obtain rfl := Option.some.inj hs
      exact ⟨rfl, rfl, .inr rfl⟩
    · exact absurd hs (by simp)
  case h_2 | h_8 =>
    split at hs
    · obtain rfl := Option.some.inj hs
      exact ⟨rfl, rfl, .inl rfl⟩
    · exact absurd hs (by simp)
  all_goals
    obtain rfl := Option.some.inj hs
    exact ⟨rfl, rfl, .inl rfl⟩

/-- **One step**, of the handler or of others. -/
theorem Caught.step {s s' : SigState} {a : SigAction} (h : s.Caught ncpu i c) (hq : a.Quiet i)
    (hs : s.step ncpu path a = some s') : s'.Caught ncpu i c := by
  have hhandler : s.handlerStep ncpu path a = some s' → s'.Caught ncpu i c := by
    intro hs
    obtain ⟨hname, hcontent, hhup⟩ := handlerStep_frame hs
    refine ⟨hname.trans h.name, hcontent ▸ h.content, ?_⟩
    cases h.due with
    | inr hsince => exact .inr (hsince.handlerStep h.name h.content hq hs)
    | inl hpending =>
      cases hhup with
      | inl hsame => exact .inl (hsame.trans hpending)
      | inr htaken =>
        right
        simp only [Since, htaken]
  cases a with
  | sighup =>
    obtain rfl := Option.some.inj hs
    exact ⟨h.name, h.content, .inl rfl⟩
  | sigterm =>
    obtain rfl := Option.some.inj hs
    exact ⟨h.name, h.content, h.due⟩
  | write j content =>
    obtain rfl := Option.some.inj hs
    have hsame : Function.update s.content j content i = c :=
      (Function.update_of_ne (Ne.symm hq) ..).trans h.content
    exact ⟨h.name, hsame, h.due⟩
  | rename name =>
    obtain rfl := Option.some.inj hs
    exact ⟨hq, h.content, h.due⟩
  | _ => exact hhandler hs

/-- **No SIGHUP is lost.** Whatever the handler is doing when the signal comes, however often it
comes, and whatever was written to the file before: once the handler waits again and the signal
is not pending, what is in use is what the file leads to, if since the signal nobody has
changed the file or given its name to another, and no reload has failed to get its memory or to
open the file. -/
theorem reloaded_after_sighup {s s' t : SigState} (hname : s.name = some i)
    (hsig : s.step ncpu path .sighup = some s')
    (hrun : Reach (SigState.step ncpu path) (fun _ a _ => a.Quiet i) s' t)
    (hpc : t.pc = .sigwait) (hhup : t.hup = false) :
    ∃ mem, t.confData = parsedConf (s.content i) (loadConfigDefaults ncpu mem) := by
  obtain rfl := Option.some.inj hsig
  have hcaught : t.Caught ncpu i (s.content i) :=
    hrun.inv ⟨hname, rfl, .inl rfl⟩ fun _ _ _ hc hs hq => hc.step hq hs
  cases hcaught.due with
  | inl hpending => exact absurd (hpending.symm.trans hhup) (by simp)
  | inr hsince => simpa only [Since, hpc] using hsince

/-- A new file has been given the name while the old one was read, and then the signal comes. -/
def halfRead : SigState where
  hup := false
  term := false
  pc := .reading .zeroed 1 (lit "http_port = 80\n")
  confData := .zeroed
  content := fun i => if i = 0 then lit "http_port = 8080\n" else lit "http_port = 80\nhttp"
  name := some 0

/-- The old file is written to once more, and the first reload ends with what it comes to. -/
def halfReadRun : List SigAction :=
  [.fread 4, .write 1 (lit "http_port = 80\nhttp_port = 81\n"), .sighup, .fread 20, .publish,
    .takeHup, .malloc (some .zeroed), .fopen true, .fread 10, .fread 10, .publish]

theorem reloaded_after_sighup_halfRead :
    ∃ t, run (SigState.step 4 []) { halfRead with hup := true } halfReadRun = some t ∧
      ∃ mem, t.confData = parsedConf (lit "http_port = 8080\n") (loadConfigDefaults 4 mem) := by
  have hquiet : ∀ a ∈ halfReadRun, a.Quiet 0 := by
    simp [halfReadRun, SigAction.Quiet]
  exact ⟨_, rfl, reloaded_after_sighup (s := halfRead) rfl rfl
    (.of_run rfl (EachStep.of_forall_mem hquiet _)) rfl rfl⟩

end SigState

end Celeritas
