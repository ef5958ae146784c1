import Celeritas.Http.Framing
import Celeritas.Lib.Run

/-!
# Responses built side by side

    const char* int_to_string(const int i)
    { static char buf[32]; snprintf(buf, 32, "%d", i); return buf; }

The buffer is one for the whole process, and `resp_add_header` copies from it later. Any
number of workers build responses here, one atomic step at a time: the `snprintf`, or the
`strncpy` that stores a header. A worker stores the length it asked for exactly if nobody
has called `int_to_string` with another one in between (`rendered_iff_ownLength`).
-/

set_option autoImplicit false

namespace Celeritas

open CLib Lib

/-- A worker's response under construction: the calls of `resp_add_header` to come, whether
`int_to_string` has run for the first of them, the headers stored, and the calls that stored
them. The last is not in the source. -/
structure Building where
  todo : List HeaderOp := []
  formatted : Bool := false
  headers : List Header := []
  stored : List HeaderOp := []
  deriving DecidableEq

/-- The buffer of `int_to_string`, and the workers. `last` is the integer of the latest call,
which is not in the source either. -/
structure Builders (ι : Type*) where
  buf : Bytes
  last : Option ℤ
  worker : ι → Building

def Builders.init (ι : Type*) : Builders ι := ⟨[], none, fun _ => {}⟩

inductive BuildAction (ι : Type*)
  /-- a worker that has built its response begins the next one -/
  | respond (i : ι) (env : Env) (protocol : Protocol) (r : Http1Req)
  | step (i : ι)

namespace Builders

variable {ι : Type*} [DecidableEq ι]

def setWorker (s : Builders ι) (i : ι) (b : Building) : Builders ι :=
  { s with worker := Function.update s.worker i b }

def step (s : Builders ι) : BuildAction ι → Option (Builders ι)
  | .respond i env protocol r =>
    if (s.worker i).todo = [] then
      some (s.setWorker i { todo := (Celeritas.respond env protocol r).2.ops })
    else none
  | .step i =>
    let b := s.worker i
    match b.todo with
    | [] => none
    | .add name value :: ops =>
      some (s.setWorker i { b with
        todo := ops
        headers := b.headers ++ [respAddHeader name value]
        stored := b.stored ++ [.add name value] })
    | .addInt name k :: ops =>
      if b.formatted then
        some (s.setWorker i
          { todo := ops
            headers := b.headers ++ [respAddHeader name s.buf]
            stored := b.stored ++ [.addInt name k] })
      else
        some (({ s with buf := intToString k, last := some k } : Builders ι).setWorker i
          { b with formatted := true })

end Builders

/-- The entry a call should make: for an integer, its decimal rendering. -/
def HeaderOp.rendered : HeaderOp → Header
  | .add name value => respAddHeader name value
  | .addInt name i => ⟨strncpy name 128, decimal i⟩

namespace Builders

variable {ι : Type*} [DecidableEq ι]

/-- Every worker's headers are those its own handler asked for. -/
def Rendered (s : Builders ι) : Prop :=
  ∀ i, (s.worker i).headers = (s.worker i).stored.map HeaderOp.rendered

/-- The step is no `strncpy` of an integer's text, or the latest call of `int_to_string` was
made for the same integer. -/
def OwnLength (s : Builders ι) (a : BuildAction ι) (_ : Builders ι) : Prop :=
  ∀ i name k ops, a = .step i → (s.worker i).todo = .addInt name k :: ops →
    (s.worker i).formatted = true → s.last = some k

/-- `k` is an `int`. -/
def IsInt (k : ℤ) : Prop := -2 ^ 31 ≤ k ∧ k < 2 ^ 31

/-- What the buffer holds, and that the handlers pass an `int`. -/
structure Wf (s : Builders ι) : Prop where
  buf : ∀ k, s.last = some k → IsInt k ∧ s.buf = intToString k
  formatted : ∀ i, (s.worker i).formatted = true → s.last ≠ none
  todo : ∀ i name k, HeaderOp.addInt name k ∈ (s.worker i).todo → IsInt k

/-! ## The steps -/

inductive BuildMove (s : Builders ι) : BuildAction ι → Builders ι → Prop
  | respond (i : ι) (env : Env) (protocol : Protocol) (r : Http1Req) :
      BuildMove s (.respond i env protocol r)
        (s.setWorker i { todo := (Celeritas.respond env protocol r).2.ops })
  | add (i : ι) (name value : Bytes) (ops : List HeaderOp)
      (htodo : (s.worker i).todo = .add name value :: ops) :
      BuildMove s (.step i) (s.setWorker i { s.worker i with
        todo := ops
        headers := (s.worker i).headers ++ [respAddHeader name value]
        stored := (s.worker i).stored ++ [.add name value] })
  | format (i : ι) (name : Bytes) (k : ℤ) (ops : List HeaderOp)
      (htodo : (s.worker i).todo = .addInt name k :: ops) (hf : (s.worker i).formatted = false) :
      BuildMove s (.step i) (({ s with buf := intToString k, last := some k } :
        Builders ι).setWorker i
          { todo := .addInt name k :: ops
            formatted := true
            headers := (s.worker i).headers
            stored := (s.worker i).stored })
  | copy (i : ι) (name : Bytes) (k : ℤ) (ops : List HeaderOp)
      (htodo : (s.worker i).todo = .addInt name k :: ops) (hf : (s.worker i).formatted = true) :
      BuildMove s (.step i) (s.setWorker i
        { todo := ops
          headers := (s.worker i).headers ++ [respAddHeader name s.buf]
          stored := (s.worker i).stored ++ [.addInt name k] })

theorem step_cases {s s' : Builders ι} {a : BuildAction ι} (h : s.step a = some s') :
    BuildMove s a s' := by
  cases a with
  | respond i env protocol r =>
    simp only [step] at h
    split at h
    · obtain rfl := Option.some.inj h
      exact .respond i env protocol r
    · exact absurd h (by simp)
  | step i =>
    simp only [step] at h
    cases htodo : (s.worker i).todo with
    | nil => simp only [htodo, reduceCtorEq] at h
    | cons op ops =>
      cases op with
      | add name value =>
        simp only [htodo] at h
        obtain rfl := Option.some.inj h
        exact .add i name value ops htodo
      | addInt name k =>
        simp only [htodo] at h
        split at h <;> rename_i hf <;> obtain rfl := Option.some.inj h
        · exact .copy i name k ops htodo hf
        · exact .format i name k ops htodo (Bool.eq_false_iff.mpr hf)

/-! ## The invariant -/

omit [DecidableEq ι] in
theorem init_wf : (Builders.init ι).Wf := by
  constructor <;> simp [Builders.init]

theorem isInt_snprintfRet (text : Bytes) : IsInt (snprintfRet text) := by
  unfold IsInt snprintfRet intMax
  split <;> omega

/-- The integers the handlers pass. -/
theorem isInt_of_respond {env : Env} {protocol : Protocol} {r : Http1Req} {name : Bytes} {k : ℤ}
    (h : HeaderOp.addInt name k ∈ (Celeritas.respond env protocol r).2.ops) : IsInt k := by
  have herror : ∀ st, HeaderOp.addInt name k ∈ (handleError env st).ops → IsInt k := by
    intro st hm
    have hk : k = snprintfRet (errorBody st) := by
      simp only [handleError, commonHeaders] at hm
      split at hm <;> simp at hm <;> exact hm.2
    exact hk ▸ isInt_snprintfRet _
  refine respond_cases (P := fun resp => HeaderOp.addInt name k ∈ resp.ops → IsInt k) env protocol r
    ?_ ?_ ?_ ?_ h
  · intro st _
    exact herror st
  · intro method hm
    simp only [handleGetHead] at hm
    split at hm
    · exact herror 404 hm
    · simp only [commonHeaders, List.cons_append, List.nil_append, List.mem_cons, reduceCtorEq,
        HeaderOp.addInt.injEq, false_or, List.not_mem_nil, or_false] at hm
      exact hm.2 ▸ intOfSize_bounds _
  · intro hm
    simp only [handleOptions, commonHeaders, List.cons_append, List.nil_append, List.mem_cons,
      reduceCtorEq, HeaderOp.addInt.injEq, false_or, List.not_mem_nil, or_false] at hm
    rw [hm.2]
    exact ⟨by decide, by decide⟩
  · exact fun hm => absurd hm List.not_mem_nil

theorem worker_setWorker (s : Builders ι) (i j : ι) (b : Building) :
    (s.setWorker i b).worker j = if j = i then b else s.worker j := by
  simp only [setWorker, Function.update_apply]

/-- A property of every worker's response, after one of them has changed. -/
theorem forall_setWorker {s : Builders ι} {i : ι} {b : Building} {P : Building → Prop}
    (h : ∀ j, P (s.worker j)) (hb : P b) : ∀ j, P ((s.setWorker i b).worker j) := by
  intro j
  rw [worker_setWorker]
  split
  · exact hb
  · exact h j

theorem Wf.step {s s' : Builders ι} {a : BuildAction ι} (h : s.Wf) (hs : s.step a = some s') :
    s'.Wf := by
  obtain ⟨hbuf, hf, ht⟩ := h
  cases step_cases hs with
  | respond i env protocol r =>
    exact ⟨hbuf, forall_setWorker (P := fun b => b.formatted = true → s.last ≠ none) hf
        fun hb => absurd hb (by simp),
      forall_setWorker (P := fun b => ∀ name k, HeaderOp.addInt name k ∈ b.todo → IsInt k) ht
        fun _ _ => isInt_of_respond⟩
  | add i name value ops htodo =>
    refine ⟨hbuf, forall_setWorker (P := fun b => b.formatted = true → s.last ≠ none) hf (hf i),
      forall_setWorker (P := fun b => ∀ name k, HeaderOp.addInt name k ∈ b.todo → IsInt k) ht
        fun n k hm => ht i n k ?_⟩
    rw [htodo]
    exact List.mem_cons_of_mem _ hm
  | format i name k ops htodo =>
    have hk : IsInt k := ht i name k (by rw [htodo]; exact List.mem_cons_self)
    refine ⟨fun m hm => ?_, fun _ _ => Option.some_ne_none k,
      forall_setWorker (s := { s with buf := intToString k, last := some k })
        (P := fun b => ∀ name k, HeaderOp.addInt name k ∈ b.todo → IsInt k) ht
        fun n m hm => ht i n m (by rw [htodo]; exact hm)⟩
    obtain rfl : k = m := Option.some.inj hm
    exact ⟨hk, rfl⟩
  | copy i name k ops htodo =>
    refine ⟨hbuf, forall_setWorker (P := fun b => b.formatted = true → s.last ≠ none) hf (by simp),
      forall_setWorker (P := fun b => ∀ name k, HeaderOp.addInt name k ∈ b.todo → IsInt k) ht
        fun n m hm => ht i n m ?_⟩
    rw [htodo]
    exact List.mem_cons_of_mem _ hm

/-! ## Whose length is stored -/

omit [DecidableEq ι] in
/-- What `strncpy` takes from the buffer. -/
theorem Wf.copied {s : Builders ι} (h : s.Wf) {m : ℤ} (hm : s.last = some m) :
    strncpy s.buf 4096 = decimal m := by
  obtain ⟨⟨hlo, hhi⟩, hbuf⟩ := h.buf m hm
  rw [hbuf]
  exact strncpy_intToString hlo hhi

/-- **One step**, from a state in which every header is right. -/
theorem rendered_step_iff {s s' : Builders ι} {a : BuildAction ι} (hw : s.Wf) (hr : s.Rendered)
    (hs : s.step a = some s') : s'.Rendered ↔ s.OwnLength a s' := by
  have hkeep : ∀ {i : ι} {b : Building}, b.headers = b.stored.map HeaderOp.rendered →
      (s.setWorker i b).Rendered := fun hb =>
    forall_setWorker (P := fun b => b.headers = b.stored.map HeaderOp.rendered) hr hb
  cases step_cases hs with
  | respond i env protocol r =>
    exact iff_of_true (hkeep rfl) fun _ _ _ _ ha => absurd ha (by simp)
  | add i name value ops htodo =>
    refine iff_of_true (hkeep ?_) fun j n k ops' ha hj => ?_
    · rw [List.map_append, ← hr i]
      rfl
    · obtain rfl := BuildAction.step.inj ha
      exact absurd (htodo.symm.trans hj) (by simp)
  | format i name k ops htodo hf =>
    refine iff_of_true (fun j => ?_) fun j n m ops' ha _ hj => ?_
    · refine forall_setWorker (s := { s with buf := intToString k, last := some k })
        (P := fun b => b.headers = b.stored.map HeaderOp.rendered) hr ?_ j
      exact hr i
    · obtain rfl := BuildAction.step.inj ha
      exact absurd (hf.symm.trans hj) (by simp)
  | copy i name k ops htodo hf =>
    obtain ⟨m, hm⟩ := Option.ne_none_iff_exists'.mp (hw.formatted i hf)
    constructor
    · -- the header just stored shows what was in the buffer
      intro h j n k' ops' ha hj _
      obtain rfl := BuildAction.step.inj ha
      rw [htodo, List.cons.injEq, HeaderOp.addInt.injEq] at hj
      have hi := h i
      rw [worker_setWorker, if_pos rfl, List.map_append, ← hr i, List.append_cancel_left_eq] at hi
      have hdec : strncpy s.buf 4096 = decimal k :=
        congrArg Header.value (List.cons.inj hi).1
      rw [hw.copied hm] at hdec
      rw [hm, decimal_injective hdec, hj.1.2]
    · intro h
      have hk : s.last = some k := h i name k ops rfl htodo hf
      apply hkeep
      rw [List.map_append, ← hr i]
      simp only [respAddHeader, hw.copied hk, List.map_cons, List.map_nil, HeaderOp.rendered]

/-- **Every stored length is the handler's own if and only if, whenever a length is copied,
the latest call of `int_to_string` was made for the same integer**: for any number of
workers, any requests and any interleaving. -/
theorem rendered_iff_ownLength (as : List (BuildAction ι)) :
    Along Builders.step Rendered (Builders.init ι) as ↔
      EachStep Builders.step OwnLength (Builders.init ι) as :=
  along_iff_eachStep (J := Wf) (fun _ _ _ hw hs => hw.step hs)
    (fun _ _ _ hw hr hs => rendered_step_iff hw hr hs) as init_wf (fun _ => rfl)

/-! ## Two lengths mixed up

One worker answers `GET` for a file of twelve bytes, another one `OPTIONS`. Both have
called `int_to_string` before the first one stores its header. -/

def fileEnv : Env where
  docRoot := lit "/srv"
  serverTok := lit "celeritas"
  dateNow := lit "Thu, 01 Jan 1970 00:00:00 GMT"
  files _ := ⟨some (12, lit "Thu, 01 Jan 1970 00:00:00 GMT"), true, true⟩

def mixedRun : List (BuildAction Bool) :=
  .respond false fileEnv .http11 (parseFields (lit "GET /a HTTP/1.1\r\nHost: h\r\n\r\n")) ::
    List.replicate 5 (.step false) ++
  .respond true fileEnv .http11 (parseFields (lit "OPTIONS * HTTP/1.1\r\nHost: h\r\n\r\n")) ::
    List.replicate 5 (.step true) ++ [.step false]

theorem mixedRun_mixes : ∃ s : Builders Bool,
    run Builders.step (Builders.init Bool) mixedRun = some s ∧
      (s.worker false).stored.getLast? = some (.addInt (lit "Content-Length") 12) ∧
      contentLengths (s.worker false).headers = [decimalNat 0] ∧ ¬ s.Rendered := by
  refine ⟨_, rfl, by decide, by decide, fun h => ?_⟩
  exact absurd (h false) (by decide)

end Builders

end Celeritas
