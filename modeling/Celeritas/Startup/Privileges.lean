import Celeritas.Config.Data
import Celeritas.Lib.Credentials

/-!
# `drop_privileges`

A server that root has started goes on as the user and the group of the configuration. Its
check at the end, that `setuid(0)` fails, is a check of one call at one moment; what it is
for is a property of all that the process can still do (`unprivileged_iff`).

`main` decides by the *real* user id whether there is anything to drop. A binary with the
set-user-ID bit that another user starts has only the effective one, and keeps it.
-/

set_option autoImplicit false

namespace Celeritas

open CLib Lib

/-- The system's users and groups. -/
structure UserDb where
  /-- `gr_gid` of `getgrnam` -/
  getgrnam : Bytes → Option ℕ
  /-- `pw_uid` of `getpwnam` -/
  getpwnam : Bytes → Option ℕ
  /-- the groups that name a user as a member -/
  memberOf : Bytes → List ℕ

/-- What the calls fail with, for other reasons than the rights of the process. -/
structure CallFaults where
  initgroups : Option Bytes
  setgid : Option Bytes
  setuid : Option Bytes

def EPERM : Bytes := lit "Operation not permitted"

inductive DropError
  | group (groupname : Bytes)
  | user (username : Bytes)
  | initgroups (strerror : Bytes)
  | setgid (strerror : Bytes)
  | setuid (strerror : Bytes)
  | regained
  deriving DecidableEq

/-- The line in the event log. -/
def DropError.text : DropError → Bytes
  | .group groupname => lit "Fatal: Group '" ++ groupname ++ lit "' not found.\n"
  | .user username => lit "Fatal: User '" ++ username ++ lit "' not found.\n"
  | .initgroups strerror =>
    lit "Fatal: Failed to clear supplementary groups: " ++ strerror ++ lit "\n"
  | .setgid strerror => lit "Fatal: Failed to drop group privileges: " ++ strerror ++ lit "\n"
  | .setuid strerror => lit "Fatal: Failed to drop user privileges: " ++ strerror ++ lit "\n"
  | .regained => lit "Fatal: Privilege drop failed. Successfully regained root!\n"

section

variable (os : CallFaults)

/-- A call that may also fail for another reason. -/
def attempt (fault : Option Bytes) (call : CredCall) (c : Credentials) :
    Except Bytes Credentials :=
  match fault with
  | some strerror => .error strerror
  | none => match c.exec call with
    | some c' => .ok c'
    | none => .error EPERM

/-- `initgroups`: the groups of the user, and one more. -/
def initgroups (db : UserDb) (username : Bytes) (gid : ℕ) : Credentials → Except Bytes Credentials :=
  attempt os.initgroups (.groups (gid :: db.memberOf username))

def setgid (gid : ℕ) : Credentials → Except Bytes Credentials :=
  attempt os.setgid (.group (.set gid))

/-- The kernel may run out of something only where the real user id changes. -/
def setuid (uid : ℕ) (c : Credentials) : Except Bytes Credentials :=
  attempt (if uid = c.user.real then none else os.setuid) (.user (.set uid)) c

end

section

variable (db : UserDb) (os : CallFaults)

/-- The check at the end, that root cannot be had back. -/
def securityCheck (c : Credentials) : Except DropError Credentials :=
  match setuid os 0 c with
  | .ok _ => .error .regained
  | .error _ => .ok c

/-- `drop_privileges` -/
def dropPrivileges (username groupname : Bytes) (c : Credentials) :
    Except DropError Credentials := do
  let some gid := db.getgrnam groupname | .error (.group groupname)
  let some uid := db.getpwnam username | .error (.user username)
  let c ← (initgroups os db username gid c).mapError .initgroups
  let c ← (setgid os gid c).mapError .setgid
  let c ← (setuid os uid c).mapError .setuid
  securityCheck os c

/-- What `main` makes of it. An error is the text in the event log; the process ends. -/
def dropIfRoot (conf : ConfigData) (c : Credentials) : Except Bytes Credentials :=
  if c.user.real = 0 then
    (dropPrivileges db os conf.serverUser conf.serverGroup c).mapError fun e =>
      e.text ++ lit "failed to drop privileges\n"
  else .ok c

end

/-! ## When it succeeds -/

theorem Except.mapError_eq_ok {ε ε' α : Type} {x : Except ε α} {f : ε → ε'} {a : α} :
    x.mapError f = .ok a ↔ x = .ok a := by
  cases x <;> simp [Except.mapError]

theorem Except.bind_eq_ok {ε α β : Type} {x : Except ε α} {f : α → Except ε β} {b : β} :
    x >>= f = .ok b ↔ ∃ a, x = .ok a ∧ f a = .ok b := by
  cases x <;> simp [bind, Except.bind]

theorem attempt_eq_ok {c c' : Credentials} {fault : Option Bytes} {call : CredCall} :
    attempt fault call c = .ok c' ↔ fault = none ∧ c.exec call = some c' := by
  cases fault with
  | some e => simp [attempt]
  | none =>
    cases h : c.exec call with
    | none => simp [attempt, h]
    | some d => simp [attempt, h]

theorem initgroups_eq_ok {c c' : Credentials} {db : UserDb} {os : CallFaults} {name : Bytes}
    {gid : ℕ} : initgroups os db name gid c = .ok c' ↔ os.initgroups = none ∧ c.Privileged ∧
      { c with groups := gid :: db.memberOf name } = c' := by
  simp [initgroups, attempt_eq_ok, Credentials.exec]

theorem setgid_eq_ok {c c' : Credentials} {os : CallFaults} {gid : ℕ} (hp : c.Privileged) :
    setgid os gid c = .ok c' ↔ os.setgid = none ∧ { c with group := .all gid } = c' := by
  simp [setgid, attempt_eq_ok, Credentials.exec, Ids.exec, Ids.set, hp]

theorem setuid_eq_ok {c c' : Credentials} {os : CallFaults} {uid : ℕ} (hp : c.Privileged) :
    setuid os uid c = .ok c' ↔ (uid ≠ c.user.real → os.setuid = none) ∧
      { c with user := .all uid } = c' := by
  simp [setuid, attempt_eq_ok, Credentials.exec, Ids.exec, Ids.set, hp]

/-- **The check** passes if the three ids are the same and not zero. -/
theorem securityCheck_eq_ok {c c' : Credentials} {os : CallFaults} {uid : ℕ}
    (h : c.user = .all uid) : securityCheck os c = .ok c' ↔ uid ≠ 0 ∧ c = c' := by
  by_cases huid : uid = 0
  · have hp : c.Privileged := by simp [Credentials.Privileged, h, Ids.all, huid]
    have hroot : setuid os 0 c = .ok { c with user := .all 0 } :=
      (setuid_eq_ok hp).mpr ⟨fun hne => absurd (by simp [h, Ids.all, huid]) hne, rfl⟩
    simp [securityCheck, hroot, huid]
  · have hp : ¬ c.Privileged := by simp [Credentials.Privileged, h, Ids.all, huid]
    have hexec : c.exec (.user (.set 0)) = none := by
      simp [Credentials.exec, Ids.exec, Ids.set, hp, h, Ids.all, Ne.symm huid]
    cases hs : setuid os 0 c with
    | ok d => exact absurd (attempt_eq_ok.mp hs).2 (by simp [hexec])
    | error e => simp [securityCheck, hs, huid]

/-- Nothing but the rights of the process stands in the way. -/
structure Droppable (db : UserDb) (os : CallFaults) (username groupname : Bytes) (real : ℕ)
    (uid gid : ℕ) : Prop where
  group : db.getgrnam groupname = some gid
  user : db.getpwnam username = some uid
  notRoot : uid ≠ 0
  initgroups : os.initgroups = none
  setgid : os.setgid = none
  setuid : uid ≠ real → os.setuid = none

/-- The user and the groups of the configuration, and nothing else. -/
def UserDb.credentials (db : UserDb) (username : Bytes) (uid gid : ℕ) : Credentials :=
  ⟨.all uid, .all gid, gid :: db.memberOf username⟩

theorem dropPrivileges_eq_ok {db : UserDb} {os : CallFaults} {username groupname : Bytes}
    {c c' : Credentials} : dropPrivileges db os username groupname c = .ok c' ↔ c.Privileged ∧
      ∃ uid gid, Droppable db os username groupname c.user.real uid gid ∧
        c' = db.credentials username uid gid := by
  unfold dropPrivileges
  cases hg : db.getgrnam groupname with
  | none =>
    refine iff_of_false (by simp) ?_
    rintro ⟨-, uid, gid, hd, -⟩
    simp [hd.group] at hg
  | some gid =>
    cases hu : db.getpwnam username with
    | none =>
      refine iff_of_false (by simp) ?_
      rintro ⟨-, uid, gid', hd, -⟩
      simp [hd.user] at hu
    | some uid =>
      simp only [Except.bind_eq_ok, Except.mapError_eq_ok, initgroups_eq_ok]
      constructor
      · rintro ⟨_, ⟨hig, hp, rfl⟩, _, hset, _, hsetu, hcheck⟩
        obtain ⟨hsg, rfl⟩ := (setgid_eq_ok (by exact hp)).mp hset
        obtain ⟨hsu, rfl⟩ := (setuid_eq_ok (by exact hp)).mp hsetu
        obtain ⟨h0, rfl⟩ := (securityCheck_eq_ok (by rfl)).mp hcheck
        exact ⟨hp, uid, gid, ⟨hg, hu, h0, hig, hsg, hsu⟩, rfl⟩
      · rintro ⟨hp, uid', gid', hd, rfl⟩
        obtain rfl : gid = gid' := Option.some.inj (hg.symm.trans hd.group)
        obtain rfl : uid = uid' := Option.some.inj (hu.symm.trans hd.user)
        exact ⟨_, ⟨hd.initgroups, hp, rfl⟩, _, (setgid_eq_ok (by exact hp)).mpr ⟨hd.setgid, rfl⟩,
          _, (setuid_eq_ok (by exact hp)).mpr ⟨hd.setuid, rfl⟩,
          (securityCheck_eq_ok (by rfl)).mpr ⟨hd.notRoot, rfl⟩⟩

/-! ## What the server can still become -/

/-- It was started by another user, with the rights of root to use or to take back. -/
def KeepsRoot (c : Credentials) : Prop :=
  c.user.real ≠ 0 ∧ (c.user.effective = 0 ∨ c.user.saved = 0)

theorem nonRoot_iff {c : Credentials} : c.NonRoot ↔ c.user.real ≠ 0 ∧ ¬ KeepsRoot c := by
  simp only [Credentials.NonRoot, Ids.toList, KeepsRoot, List.mem_cons, List.not_mem_nil, or_false]
  tauto

/-- What `main` goes on with. -/
theorem dropIfRoot_eq_ok {db : UserDb} {os : CallFaults} {conf : ConfigData} {c c' : Credentials} :
    dropIfRoot db os conf c = .ok c' ↔ (c.user.real ≠ 0 ∧ c' = c) ∨
      (c.user.real = 0 ∧ c.Privileged ∧ ∃ uid gid,
        Droppable db os conf.serverUser conf.serverGroup 0 uid gid ∧
          c' = db.credentials conf.serverUser uid gid) := by
  unfold dropIfRoot
  by_cases hr : c.user.real = 0
  · simp [hr, Except.mapError_eq_ok, dropPrivileges_eq_ok]
  · simp [hr, eq_comm]

/-- No id is that of root exactly where none was kept. -/
theorem dropIfRoot_nonRoot {db : UserDb} {os : CallFaults} {conf : ConfigData}
    {c c' : Credentials} (h : dropIfRoot db os conf c = .ok c') : c'.NonRoot ↔ ¬ KeepsRoot c := by
  rcases dropIfRoot_eq_ok.mp h with ⟨hr, rfl⟩ | ⟨hr, -, uid, gid, hd, rfl⟩
  · simp [nonRoot_iff, hr]
  · refine iff_of_true ?_ fun hk => hk.1 hr
    simp [Credentials.NonRoot, UserDb.credentials, Ids.toList, Ids.all, Ne.symm hd.notRoot]

/-- **A server that has passed the step never has the rights of root again**, whatever calls it
makes, except where it was started with rights that are not those of the one who started it; and
then it keeps to the ids and the groups it has. If root has started it these are those of the
configuration. -/
theorem unprivileged_iff {db : UserDb} {os : CallFaults} {conf : ConfigData} {c c' : Credentials}
    (h : dropIfRoot db os conf c = .ok c') :
    (c.user.real = 0 → ∃ uid gid, db.getpwnam conf.serverUser = some uid ∧
      db.getgrnam conf.serverGroup = some gid ∧ c' = db.credentials conf.serverUser uid gid) ∧
    ((∀ d, Reachable Credentials.exec c' d → ¬ d.Privileged) ↔ ¬ KeepsRoot c) ∧
    (¬ KeepsRoot c → ∀ d, Reachable Credentials.exec c' d → Confined c' d) := by
  have hconf : ¬ KeepsRoot c → ∀ d, Reachable Credentials.exec c' d → Confined c' d :=
    fun hk d hd => confined_of_reachable ((dropIfRoot_nonRoot h).mpr hk) hd
  refine ⟨?_, ⟨?_, ?_⟩, hconf⟩
  · intro hr
    rcases dropIfRoot_eq_ok.mp h with ⟨hne, -⟩ | ⟨-, -, uid, gid, hd, hc'⟩
    · exact absurd hr hne
    · exact ⟨uid, gid, hd.user, hd.group, hc'⟩
  · intro hall
    rw [← dropIfRoot_nonRoot h]
    by_contra hroot
    obtain ⟨d, hd, hp⟩ := reachable_root hroot
    exact hall d hd hp
  · intro hk d hd
    exact ((hconf hk d hd).nonRoot ((dropIfRoot_nonRoot h).mpr hk)).not_privileged

/-- User `www` is number 80. -/
def wwwDb : UserDb where
  getgrnam name := if name = lit "www" then some 80 else none
  getpwnam name := if name = lit "www" then some 80 else none
  memberOf _ := [8]

theorem unprivileged_www :
    dropIfRoot wwwDb ⟨none, none, none⟩
        { ConfigData.zeroed with serverUser := lit "www", serverGroup := lit "www" }
        ⟨.all 0, .all 0, [0]⟩ = .ok (wwwDb.credentials (lit "www") 80 80) ∧
      ∀ d, Reachable Credentials.exec (wwwDb.credentials (lit "www") 80 80) d →
        ¬ d.Privileged ∧ Confined (wwwDb.credentials (lit "www") 80 80) d := by
  have hdrop : dropIfRoot wwwDb ⟨none, none, none⟩
      { ConfigData.zeroed with serverUser := lit "www", serverGroup := lit "www" }
      ⟨.all 0, .all 0, [0]⟩ = .ok (wwwDb.credentials (lit "www") 80 80) := by
    refine dropIfRoot_eq_ok.mpr (.inr ⟨rfl, rfl, 80, 80, ?_, rfl⟩)
    exact ⟨rfl, rfl, by decide, rfl, rfl, fun _ => rfl⟩
  have hkeeps : ¬ KeepsRoot ⟨.all 0, .all 0, [0]⟩ := fun hk => hk.1 rfl
  obtain ⟨-, hnever, hconf⟩ := unprivileged_iff hdrop
  exact ⟨hdrop, fun d hd => ⟨hnever.mpr hkeeps d hd, hconf hkeeps d hd⟩⟩

end Celeritas
