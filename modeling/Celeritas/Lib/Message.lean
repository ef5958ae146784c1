import Mathlib.Data.List.Basic

/-!
# Messages with a header

A start line, fields of a name and a value, an empty line, and a body whose length the reader
gets from what comes before it. The reader knows nothing of who wrote the bytes. What it gives
for the bytes of a message is that message, whatever follows (`readMessage_append`), and so a
sequence of messages is read back one by one (`readAll_flatMap`): no part of a message is ever
taken for a part of another.
-/

set_option autoImplicit false

namespace Celeritas.Lib

structure Message where
  start : List UInt8
  fields : List (List UInt8 × List UInt8)
  deriving DecidableEq

def crLf : List UInt8 := [13, 10]

/-- `name: value` -/
def fieldLine (f : List UInt8 × List UInt8) : List UInt8 := f.1 ++ 58 :: 32 :: (f.2 ++ crLf)

def Message.bytes (m : Message) : List UInt8 :=
  m.start ++ (crLf ++ (m.fields.flatMap fieldLine ++ crLf))

/-- No line ends within one, and no name within one. -/
structure Message.Wf (m : Message) : Prop where
  start : 13 ∉ m.start
  name : ∀ f ∈ m.fields, 13 ∉ f.1 ∧ 58 ∉ f.1
  value : ∀ f ∈ m.fields, 13 ∉ f.2

/-! ## The reader -/

/-- The first line, and what follows it. -/
def readLine : List UInt8 → Option (List UInt8 × List UInt8)
  | 13 :: 10 :: rest => some ([], rest)
  | c :: cs => (readLine cs).map fun (line, rest) => (c :: line, rest)
  | [] => none

/-- A blank behind the colon is not part of the value. -/
def readField (line : List UInt8) : Option (List UInt8 × List UInt8) :=
  match line.dropWhile (· != 58) with
  | 58 :: 32 :: value => some (line.takeWhile (· != 58), value)
  | 58 :: value => some (line.takeWhile (· != 58), value)
  | _ => none

/-- The fields up to the empty line; there are fewer than `fuel`. -/
def readFields : ℕ → List UInt8 → Option (List (List UInt8 × List UInt8) × List UInt8)
  | 0, _ => none
  | fuel + 1, bytes => do
    let (line, rest) ← readLine bytes
    if line = [] then some ([], rest)
    else
      let f ← readField line
      let (fs, rest) ← readFields fuel rest
      some (f :: fs, rest)

def readMessage (bytes : List UInt8) : Option (Message × List UInt8) := do
  let (start, rest) ← readLine bytes
  let (fields, rest) ← readFields rest.length rest
  some (⟨start, fields⟩, rest)

/-- A message and its body, of the length that `len` finds in it. -/
def readWhole (len : Message → Option ℕ) (bytes : List UInt8) :
    Option ((Message × List UInt8) × List UInt8) := do
  let (m, rest) ← readMessage bytes
  let n ← len m
  if n ≤ rest.length then some ((m, rest.take n), rest.drop n) else none

/-- One message after the other. -/
def readAll : List (Message → Option ℕ) → List UInt8 →
    Option (List (Message × List UInt8) × List UInt8)
  | [], bytes => some ([], bytes)
  | len :: lens, bytes => do
    let (m, rest) ← readWhole len bytes
    let (ms, rest) ← readAll lens rest
    some (m :: ms, rest)

/-! ## What has been written -/

theorem readLine_append {line : List UInt8} (h : 13 ∉ line) (rest : List UInt8) :
    readLine (line ++ (crLf ++ rest)) = some (line, rest) := by
  induction line with
  | nil => rfl
  | cons c cs ih =>
    rw [List.mem_cons, not_or] at h
    have hc : c ≠ 13 := Ne.symm h.1
    rw [List.cons_append, readLine, ih h.2]
    · rfl
    · exact fun _ hcr _ => hc hcr

theorem readField_line {f : List UInt8 × List UInt8} (h : 58 ∉ f.1) :
    readField (f.1 ++ 58 :: 32 :: f.2) = some f := by
  have hall : ∀ c ∈ f.1, (c != 58) = true := fun c hc => bne_iff_ne.mpr (ne_of_mem_of_not_mem hc h)
  rw [readField, List.dropWhile_append_of_pos hall, List.takeWhile_append_of_pos hall]
  simp

theorem readFields_append {fs : List (List UInt8 × List UInt8)}
    (hname : ∀ f ∈ fs, 13 ∉ f.1 ∧ 58 ∉ f.1) (hvalue : ∀ f ∈ fs, 13 ∉ f.2) (rest : List UInt8)
    {fuel : ℕ} (hfuel : fs.length < fuel) :
    readFields fuel (fs.flatMap fieldLine ++ (crLf ++ rest)) = some (fs, rest) := by
  induction fs generalizing fuel with
  | nil =>
    obtain ⟨fuel, rfl⟩ := Nat.exists_eq_succ_of_ne_zero (Nat.ne_of_gt hfuel)
    rfl
  | cons f fs ih =>
    obtain ⟨fuel, rfl⟩ := Nat.exists_eq_succ_of_ne_zero (Nat.ne_of_gt (Nat.zero_lt_of_lt hfuel))
    obtain ⟨hf, hfs⟩ := List.forall_mem_cons.mp hname
    obtain ⟨hv, hvs⟩ := List.forall_mem_cons.mp hvalue
    have hline : 13 ∉ f.1 ++ 58 :: 32 :: f.2 := by simp [hf.1, hv]
    have hsplit : (f :: fs).flatMap fieldLine ++ (crLf ++ rest) =
        (f.1 ++ 58 :: 32 :: f.2) ++ (crLf ++ (fs.flatMap fieldLine ++ (crLf ++ rest))) := by
      simp [fieldLine]
    rw [hsplit, readFields, readLine_append hline]
    simp [readField_line hf.2, ih hfs hvs (Nat.lt_of_succ_lt_succ hfuel)]

theorem length_le_flatMap_fieldLine (fs : List (List UInt8 × List UInt8)) :
    fs.length ≤ (fs.flatMap fieldLine).length := by
  induction fs with
  | nil => exact Nat.le_refl 0
  | cons f fs ih =>
    simp only [List.flatMap_cons, List.length_append, List.length_cons, fieldLine, crLf]
    omega

/-- **A message is read back**, whatever follows it. -/
theorem readMessage_append {m : Message} (h : m.Wf) (rest : List UInt8) :
    readMessage (m.bytes ++ rest) = some (m, rest) := by
  have hfuel : m.fields.length <
      (m.fields.flatMap fieldLine ++ (crLf ++ rest)).length := by
    have := length_le_flatMap_fieldLine m.fields
    simp only [List.length_append, crLf, List.length_cons, List.length_nil]
    omega
  simp only [readMessage, Message.bytes, List.append_assoc, readLine_append h.start,
    readFields_append h.name h.value rest hfuel, Option.bind_eq_bind, Option.bind_some]

theorem readWhole_append {m : Message} (h : m.Wf) {len : Message → Option ℕ} {body : List UInt8}
    (hlen : len m = some body.length) (rest : List UInt8) :
    readWhole len (m.bytes ++ (body ++ rest)) = some ((m, body), rest) := by
  simp [readWhole, readMessage_append h, hlen]

/-- What is written for a message and its body, with the length that the reader will find. -/
structure Written where
  message : Message
  body : List UInt8
  len : Message → Option ℕ

def Written.bytes (w : Written) : List UInt8 := w.message.bytes ++ w.body

structure Written.Ok (w : Written) : Prop where
  wf : w.message.Wf
  len : w.len w.message = some w.body.length

/-- **A sequence of messages** is read back one by one. -/
theorem readAll_flatMap {ws : List Written} (h : ∀ w ∈ ws, w.Ok) (rest : List UInt8) :
    readAll (ws.map Written.len) (ws.flatMap Written.bytes ++ rest) =
      some (ws.map fun w => (w.message, w.body), rest) := by
  induction ws with
  | nil => rfl
  | cons w ws ih =>
    obtain ⟨hw, hws⟩ := List.forall_mem_cons.mp h
    simp [readAll, Written.bytes, readWhole_append hw.wf hw.len, ih hws]

end Celeritas.Lib
