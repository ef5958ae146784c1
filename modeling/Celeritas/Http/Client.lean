import Celeritas.Config.Settings
import Celeritas.Http.Date
import Celeritas.Http.Framing
import Celeritas.Http.Pipeline
import Celeritas.Http.Send
import Celeritas.Lib.Message

/-!
# What the client reads

The other end of a connection that is kept open: a reader that knows the methods of its
requests and takes the answers apart by their lines, their colons and their `Content-Length`.
It gets the answers as the server has meant them, one for each request, whatever bytes the
requests were made of (`readAll_answers`): nothing of a request comes into a header, and the
strings that do, of the configuration and of the clock, stay within a line.

The bytes are those of responses that were built one at a time and sent whole; for the two
conditions see `Http/Lengths.lean` and `Http/Send.lean`.
-/

set_option autoImplicit false

namespace Celeritas

open CLib Lib

/-! ## The reader -/

/-- The value of the only `Content-Length`, if it is a number. -/
def contentLengthOf (m : Message) : Option ℕ :=
  match m.fields.filter fun f => strcasecmpEq f.1 (lit "Content-Length") with
  | [(_, value)] => if value ≠ [] ∧ value.all isDigit then some (digitsVal value) else none
  | _ => none

/-- The answer to `HEAD` has the header only. -/
def bodyLength (method : HttpMethod) (m : Message) : Option ℕ :=
  if method = .head then some 0 else contentLengthOf m

/-! ## The server -/

/-- What `stat`, `open` and `mmap` do with a path that exists. -/
structure StoredFile where
  size : ℕ
  mtime : ℤ
  opens : Bool
  maps : Bool
  content : Bytes
  length_content : opens = true → maps = true → content.length = size

/-- What the server finds when it answers: a configuration it has read, the time, and the
files. -/
structure Site where
  conf : ConfigData
  read : ∃ (content : Bytes) (ncpu : ℤ) (mem : ConfigData),
    conf = parsedConf content (loadConfigDefaults ncpu mem)
  now : ℤ
  files : Bytes → Option StoredFile

/-- The text in the 30 bytes, if it is determined. -/
def headerDate (t : ℤ) : Bytes := (getHttpDateTimeT 30 t).getD []

def Site.env (s : Site) : Env where
  docRoot := s.conf.docRoot
  serverTok := s.conf.serverTok
  dateNow := headerDate s.now
  files path := match s.files path with
    | none => ⟨none, false, false⟩
    | some file => ⟨some (file.size, headerDate file.mtime), file.opens, file.maps⟩

/-- A request as the server has parsed it, and what the server finds. -/
structure Exchange where
  site : Site
  protocol : Protocol
  request : Http1Req

namespace Exchange

variable (e : Exchange)

def method : HttpMethod := (respond e.site.env e.protocol e.request).1

def response : Response := (respond e.site.env e.protocol e.request).2

/-- The file the request is about. -/
def file : Option StoredFile :=
  e.site.files (resolvePath (strncpy e.site.conf.docRoot PATH_MAX) e.request.uri)

/-- `body_data`: the mapped file, or the text of `handle_error` in its 512 bytes. -/
def bodyData : Option Bytes :=
  if ¬ e.response.hasBody then none
  else if e.response.isMmap then some ((e.file.map StoredFile.content).getD [])
  else some (snprintfStored 512 (errorBody e.response.statusCode))

/-- What is sent. -/
def bytes : Bytes := offered e.response.statusCode e.response.headers e.method e.bodyData

/-- What is meant. -/
def message : Message where
  start := lit "HTTP/1.1 " ++ decimalNat e.response.statusCode ++ lit " " ++
    httpStatusToString e.response.statusCode
  fields := e.response.headers.map fun h => (h.key, h.value)

def body : Bytes := (bodyToSend e.method e.bodyData).getD []

/-- The dates of the answer are among those that are written. -/
structure Dated : Prop where
  now : (getHttpDateTimeT 30 e.site.now).isSome
  mtime : ∀ file ∈ e.file, (getHttpDateTimeT 30 file.mtime).isSome

/-- The file system's answers suit the method, see `framed_iff_sized`. -/
def Sized : Prop := Celeritas.Sized e.method (requestedFile e.site.env e.request)

end Exchange

/-- The answers on a connection, up to the last one after which it is kept open. -/
def answers : Protocol → List Site → List SockEvent → List Exchange
  | _, [], _ => []
  | protocol, site :: sites, evs =>
    let (i, rest) := processIngress protocol evs
    if i.keptOpen ⟨site.env, true⟩ then
      ⟨site, i.protocol, i.req⟩ :: answers i.protocol sites rest
    else []

/-! ## The lines -/

theorem configLine_field {line : Bytes} {a : Assignment} (h : configLine line = .assign a) :
    ∃ m ∈ cfgMap, a.field = m.field := by
  unfold configLine at h
  split at h
  · cases h
  split at h
  · cases h
  unfold settingLine at h
  split at h
  · cases h
  split at h
  · cases h
  · rename_i m hm
    exact ⟨m, List.mem_of_find?_eq_some hm, field_of_parseValue h⟩

/-- `server_tok` is not in the table of settings. -/
theorem serverTok_parsedConf (content : Bytes) (ncpu : ℤ) (mem : ConfigData) :
    (parsedConf content (loadConfigDefaults ncpu mem)).serverTok = lit "Celeritas/0.10.2" := by
  have hnone : lastFor (.string .serverTok)
      (assignments (fgetsAll lineSize lineSize content)) = none := by
    refine lastFor_eq_none.mpr fun a ha => ?_
    obtain ⟨line, -, hline⟩ := List.mem_filterMap.mp ha
    have hassign : configLine line = .assign a := by
      cases hl : configLine line <;> simp_all [LineAct.assignment]
    obtain ⟨m, hm, hfield⟩ := configLine_field hassign
    have htable : ∀ m ∈ cfgMap, m.field ≠ .string .serverTok := by decide
    exact fun h => htable m hm (hfield.symm.trans h)
  have hcur := current_parsedConf content (loadConfigDefaults ncpu mem) (.string .serverTok)
  rw [hnone] at hcur
  have htok : strncpy (lit "Celeritas/0.10.2") 20 = lit "Celeritas/0.10.2" := by decide
  exact (Assignment.string.inj hcur).2.trans htok

/-- The call makes a header of one line. -/
def HeaderOp.Plain : HeaderOp → Prop
  | .add name value => (13 ∉ name ∧ 58 ∉ name) ∧ 13 ∉ value
  | .addInt name _ => 13 ∉ name ∧ 58 ∉ name

theorem not_mem_strncpy {c : UInt8} {m : Bytes} (h : c ∉ m) (n : ℕ) : c ∉ strncpy m n :=
  fun hc => h ((cstr_sublist m).subset (List.mem_of_mem_take hc))

theorem HeaderOp.Plain.header {op : HeaderOp} (h : op.Plain) :
    (13 ∉ op.header.key ∧ 58 ∉ op.header.key) ∧ 13 ∉ op.header.value := by
  cases op with
  | add name value =>
    exact ⟨⟨not_mem_strncpy h.1.1 _, not_mem_strncpy h.1.2 _⟩, not_mem_strncpy h.2 _⟩
  | addInt name i =>
    refine ⟨⟨not_mem_strncpy h.1 _, not_mem_strncpy h.2 _⟩, not_mem_strncpy ?_ _⟩
    exact fun hc => (oneLine_decimal i).1 (List.mem_of_mem_take hc)

theorem plain_getMimeType (path : Bytes) : 13 ∉ getMimeType path := by
  have htable : ∀ e ∈ mimeTable, 13 ∉ e.2 := by decide
  unfold getMimeType
  dsimp only
  split
  · split
    · rename_i e he
      exact htable e (List.mem_of_find?_eq_some he)
    · decide
  · decide

theorem not_mem_httpStatusToString (n : ℕ) : 13 ∉ httpStatusToString n := by
  unfold httpStatusToString
  split <;> decide

theorem headerDate_spec {t : ℤ} (h : (getHttpDateTimeT 30 t).isSome) :
    13 ∉ headerDate t ∧ readHttpDate (headerDate t) = t := by
  obtain ⟨text, htext⟩ := Option.isSome_iff_exists.mp h
  obtain ⟨tm, htm, -, rfl⟩ := getHttpDateTimeT_eq_some.mp htext
  rw [headerDate, htext, Option.getD_some]
  exact ⟨(oneLine_imfFixdate (gmtime_spec htm)).1.1, readHttpDate_imfFixdate (gmtime_spec htm)⟩

section

variable {env : Env} (hserver : 13 ∉ env.serverTok) (hdate : 13 ∉ env.dateNow)
include hserver hdate

theorem plain_commonHeaders : ∀ op ∈ commonHeaders env, op.Plain := by
  simp only [commonHeaders, List.forall_mem_cons]
  exact ⟨⟨by decide, hserver⟩, ⟨by decide, hdate⟩, List.forall_mem_nil _⟩

theorem plain_handleError (st : ℕ) : ∀ op ∈ (handleError env st).ops, op.Plain := by
  simp only [handleError, List.forall_mem_append, List.forall_mem_cons]
  refine ⟨⟨⟨plain_commonHeaders hserver hdate, ?_⟩, ?_⟩, ?_⟩
  · exact ⟨⟨by decide, by decide⟩, ⟨by decide, by decide⟩, List.forall_mem_nil _⟩
  · split
    · exact List.forall_mem_cons.mpr ⟨⟨by decide, by decide⟩, List.forall_mem_nil _⟩
    · exact List.forall_mem_nil _
  · exact ⟨⟨by decide, by decide⟩, List.forall_mem_nil _⟩

theorem plain_handleOptions (st : ℕ) : ∀ op ∈ (handleOptions env st).ops, op.Plain := by
  simp only [handleOptions, List.forall_mem_append, List.forall_mem_cons]
  exact ⟨plain_commonHeaders hserver hdate, ⟨by decide, by decide⟩, ⟨by decide, by decide⟩,
    ⟨by decide, by decide⟩, ⟨by decide, by decide⟩, List.forall_mem_nil _⟩

theorem plain_handleGetHead (st : ℕ) (method : HttpMethod) {uri : Bytes}
    (hmod : ∀ size lastMod, (env.files (resolvePath (strncpy env.docRoot PATH_MAX) uri)).stat =
      some (size, lastMod) → 13 ∉ lastMod) :
    ∀ op ∈ (handleGetHead env st method uri).ops, op.Plain := by
  unfold handleGetHead
  dsimp only
  split
  · exact plain_handleError hserver hdate 404
  · rename_i size lastMod hstat
    simp only [List.forall_mem_append, List.forall_mem_cons]
    exact ⟨plain_commonHeaders hserver hdate, ⟨by decide, plain_getMimeType _⟩,
      ⟨by decide, hmod size lastMod hstat⟩, ⟨by decide, by decide⟩, ⟨by decide, by decide⟩,
      ⟨by decide, by decide⟩, List.forall_mem_nil _⟩

theorem plain_respond (protocol : Protocol) (r : Http1Req)
    (hmod : ∀ size lastMod, (requestedFile env r).stat = some (size, lastMod) → 13 ∉ lastMod) :
    ∀ op ∈ (respond env protocol r).2.ops, op.Plain := by
  refine respond_cases (P := fun resp => ∀ op ∈ resp.ops, op.Plain) env protocol r ?_ ?_ ?_ ?_
  · exact fun st _ => plain_handleError hserver hdate st
  · exact fun method => plain_handleGetHead hserver hdate 200 method hmod
  · exact plain_handleOptions hserver hdate 200
  · exact List.forall_mem_nil _

end

namespace Exchange

variable {e : Exchange}

theorem requestedFile_eq (e : Exchange) : requestedFile e.site.env e.request =
    match e.file with
    | none => ⟨none, false, false⟩
    | some file => ⟨some (file.size, headerDate file.mtime), file.opens, file.maps⟩ := rfl

/-- **No line of an answer** is broken. -/
theorem wf_message (h : e.Dated) : e.message.Wf := by
  have hserver : 13 ∉ e.site.env.serverTok := by
    obtain ⟨content, ncpu, mem, hconf⟩ := e.site.read
    have htok : e.site.env.serverTok = lit "Celeritas/0.10.2" :=
      (congrArg ConfigData.serverTok hconf).trans (serverTok_parsedConf content ncpu mem)
    rw [htok]
    decide
  have hmod : ∀ size lastMod, (requestedFile e.site.env e.request).stat = some (size, lastMod) →
      13 ∉ lastMod := by
    intro size lastMod hstat
    rw [requestedFile_eq] at hstat
    cases hf : e.file with
    | none => simp [hf] at hstat
    | some file =>
      simp only [hf, Option.some.injEq, Prod.mk.injEq] at hstat
      exact hstat.2 ▸ (headerDate_spec (h.mtime file hf)).1
  have hops := plain_respond hserver (headerDate_spec h.now).1 e.protocol e.request hmod
  have hheaders : ∀ f ∈ e.message.fields, (13 ∉ f.1 ∧ 58 ∉ f.1) ∧ 13 ∉ f.2 := by
    intro f hf
    obtain ⟨hd, hhd, rfl⟩ := List.mem_map.mp hf
    obtain ⟨op, hop, rfl⟩ := List.mem_map.mp hhd
    exact (hops op hop).header
  refine ⟨?_, fun f hf => (hheaders f hf).1, fun f hf => (hheaders f hf).2⟩
  have hstatus := not_mem_httpStatusToString e.response.statusCode
  have hcode : (13 : UInt8) ∉ decimalNat e.response.statusCode :=
    (oneLine_decimalNat e.response.statusCode).1
  have hlit : (13 : UInt8) ∉ lit "HTTP/1.1 " ∧ (13 : UInt8) ∉ lit " " := by decide
  simp only [message, List.mem_append, hstatus, hcode, hlit, or_self, not_false_eq_true]

theorem bytes_eq (e : Exchange) : e.bytes = e.message.bytes ++ e.body := by
  have hcrlf : lit "\r\n" = crLf := by decide
  have hcolon : lit ": " = [58, 32] := by decide
  simp only [bytes, offered, respBuildResponse, message, Message.bytes, body, hcrlf, hcolon,
    List.flatMap_map, fieldLine, List.append_assoc, List.cons_append, List.nil_append]

/-! ## The length -/

theorem contentLengthOf_message (e : Exchange) {n : ℕ}
    (h : contentLengths e.response.headers = [decimalNat n]) :
    contentLengthOf e.message = some n := by
  have hfilter : (e.message.fields.filter fun f => strcasecmpEq f.1 (lit "Content-Length")) =
      (e.response.headers.filter fun hd => strcasecmpEq hd.key (lit "Content-Length")).map
        fun hd => (hd.key, hd.value) := by
    rw [message, List.filter_map]
    rfl
  rw [contentLengths, List.map_eq_singleton_iff] at h
  obtain ⟨hd, hhd, hvalue⟩ := h
  have hdigits : decimalNat n ≠ [] ∧ (decimalNat n).all isDigit = true :=
    ⟨decimalNat_ne_nil n, List.all_eq_true.mpr fun c hc => isDigit_decimalNat hc⟩
  rw [contentLengthOf, hfilter, hhd]
  simp only [List.map_cons, List.map_nil, hvalue, digitsVal_decimalNat, if_pos hdigits]

/-- After an error the connection is not kept open. -/
structure Answered (e : Exchange) : Prop where
  response : e.response = handleStatic e.site.env 200 e.method e.request.uri
  supported : e.method.supported = true
  file : e.method = .get ∨ e.method = .head → e.file ≠ none

theorem answered_of_kept
    (hkept : shouldKeepAlive e.protocol e.request e.response.headers = true) : e.Answered := by
  have hclose : ∀ st, e.response ≠ handleError e.site.env st := by
    intro st he
    rw [he, shouldKeepAlive_handleError] at hkept
    cases hkept
  have hmethod : e.method = (validateRequest e.protocol e.request).1 := rfl
  rcases validateRequest_cases e.protocol e.request with hbad | ⟨hok, hsupported⟩
  · refine absurd ?_ (hclose (validateRequest e.protocol e.request).2)
    simp only [response, respond, ge_iff_le, if_pos hbad]
  have hresponse : e.response = handleStatic e.site.env 200 e.method e.request.uri := by
    simp only [response, respond, hok, hmethod]
    rfl
  refine ⟨hresponse, hmethod ▸ hsupported, ?_⟩
  intro hm hnone
  apply hclose 404
  have hfile : (requestedFile e.site.env e.request).stat = none := by
    rw [requestedFile_eq, hnone]
  rw [hresponse]
  unfold requestedFile at hfile
  rcases hm with hm | hm <;> simp only [hm, handleStatic, handleGetHead, hfile]

theorem response_get (h : e.Answered) (hget : e.method = .get) {file : StoredFile}
    (hfile : e.file = some file) :
    e.response.hasBody = (decide (file.size > 0) && (file.opens && file.maps)) ∧
      e.response.isMmap = decide (file.size > 0) := by
  have hf : requestedFile e.site.env e.request =
      ⟨some (file.size, headerDate file.mtime), file.opens, file.maps⟩ := by
    rw [requestedFile_eq, hfile]
  unfold requestedFile at hf
  rw [h.response, hget, handleStatic, handleGetHead]
  simp only [hf]
  by_cases hsize : file.size > 0
  · cases ho : file.opens <;> cases hm : file.maps <;> simp [hsize, respMapFileToCtx]
  · simp [hsize]

/-- The answer to a `GET` has the file for its body, where it could be mapped, and otherwise
none. -/
theorem body_get (h : e.Answered) (hget : e.method = .get) {file : StoredFile}
    (hfile : e.file = some file) :
    e.body = if file.opens ∧ file.maps then file.content else [] := by
  obtain ⟨hhas, hmmap⟩ := response_get h hget hfile
  rw [body, bodyToSend, if_pos hget, bodyData, hhas, hmmap, hfile]
  by_cases hmap : file.opens = true ∧ file.maps = true
  · have hlen := file.length_content hmap.1 hmap.2
    rw [if_pos hmap]
    by_cases hsize : file.size > 0
    · simp [hmap.1, hmap.2, hsize, hlen, Option.filter]
    · have hnil : file.content = [] := List.length_eq_zero_iff.mp (by omega)
      simp [hsize, hnil]
  · rw [if_neg hmap]
    have hnone : (file.opens && file.maps) = false := by simpa using hmap
    simp [hnone]

theorem length_body (h : e.Answered) (hget : e.method = .get) :
    e.body.length = bodyOffered .get e.response := by
  obtain ⟨file, hfile⟩ := Option.ne_none_iff_exists'.mp (h.file (.inl hget))
  have hf : requestedFile e.site.env e.request =
      ⟨some (file.size, headerDate file.mtime), file.opens, file.maps⟩ := by
    rw [requestedFile_eq, hfile]
  unfold requestedFile at hf
  have hoffered : bodyOffered .get (handleGetHead e.site.env 200 .get e.request.uri) = _ :=
    bodyOffered_handleGetHead (congrArg FileOutcome.stat hf)
  rw [body_get h hget hfile, h.response, hget, handleStatic, hoffered, hf]
  by_cases hmap : file.opens = true ∧ file.maps = true
  · rw [if_pos hmap, if_pos (.inr hmap), file.length_content hmap.1 hmap.2]
  · rw [if_neg hmap]
    split
    · rename_i hsize
      exact (hsize.resolve_right hmap).symm
    · rfl

/-- **The header has the length of the body.** -/
theorem bodyLength_message (hkept : shouldKeepAlive e.protocol e.request e.response.headers = true)
    (h : e.Sized) : bodyLength e.method e.message = some e.body.length := by
  have hans := answered_of_kept hkept
  obtain ⟨n, hn, hget⟩ := (framed_iff_sized e.site.env e.protocol e.request hkept).mpr h
  have hlen := contentLengthOf_message e hn
  cases hm : e.method with
  | get =>
    have hmethod : (respond e.site.env e.protocol e.request).1 = .get := hm
    rw [bodyLength, if_neg (by simp), hlen, hget hmethod, length_body hans hm, hmethod]
    rfl
  | head => simp [bodyLength, body, bodyToSend, hm]
  | options =>
    have hzero : contentLengths e.response.headers = [decimalNat 0] := by
      rw [hans.response, hm]
      exact contentLengths_handleOptions e.site.env 200
    simp [bodyLength, body, bodyToSend, hm, contentLengthOf_message e hzero]
  | put =>
    unfold Sized at h
    rw [hm] at h
    exact absurd h id
  | _ =>
    have hsupported := hans.supported
    rw [hm] at hsupported
    cases hsupported

end Exchange

/-! ## A connection -/

/-- The answer as it was meant. -/
def Exchange.reply (e : Exchange) : Message × Bytes := (e.message, e.body)

theorem kept_of_mem_answers {protocol : Protocol} {sites : List Site} {evs : List SockEvent}
    {e : Exchange} (h : e ∈ answers protocol sites evs) :
    shouldKeepAlive e.protocol e.request e.response.headers = true := by
  induction sites generalizing protocol evs with
  | nil => cases h
  | cons site sites ih =>
    simp only [answers] at h
    split at h
    · rename_i hkept
      rcases List.mem_cons.mp h with rfl | hmem
      · simp only [Ingress.keptOpen, Bool.and_eq_true] at hkept
        exact hkept.2
      · exact ih hmem
    · cases h

/-- **Whatever bytes the requests are made of**, the client reads from what it is sent exactly
the answers that were meant, each of them with the file for its body if it is one to a `GET`
of a file that could be mapped, as long as the dates can be written and the file system's
answers suit the methods. -/
theorem readAll_answers (protocol : Protocol) (sites : List Site) (evs : List SockEvent)
    (rest : Bytes) (hdated : ∀ e ∈ answers protocol sites evs, e.Dated)
    (hsized : ∀ e ∈ answers protocol sites evs, e.Sized) :
    readAll ((answers protocol sites evs).map fun e => bodyLength e.method)
        ((answers protocol sites evs).flatMap Exchange.bytes ++ rest) =
      some ((answers protocol sites evs).map Exchange.reply, rest) ∧
    ∀ e ∈ answers protocol sites evs, ∀ file ∈ e.file, e.method = .get → file.opens = true →
      file.maps = true → e.reply.2 = file.content := by
  have hkept : ∀ e ∈ answers protocol sites evs,
      shouldKeepAlive e.protocol e.request e.response.headers = true :=
    fun e he => kept_of_mem_answers he
  generalize answers protocol sites evs = es at *
  constructor
  · have hok : ∀ w ∈ es.map fun e => (⟨e.message, e.body, bodyLength e.method⟩ : Written), w.Ok := by
      intro w hw
      obtain ⟨e, he, rfl⟩ := List.mem_map.mp hw
      exact ⟨Exchange.wf_message (hdated e he), Exchange.bodyLength_message (hkept e he) (hsized e he)⟩
    have hread := readAll_flatMap hok rest
    simp only [List.map_map, List.flatMap_map] at hread
    have hbytes : (fun e : Exchange =>
        (⟨e.message, e.body, bodyLength e.method⟩ : Written).bytes) = Exchange.bytes :=
      funext fun e => (Exchange.bytes_eq e).symm
    rw [hbytes] at hread
    exact hread
  · intro e he file hfile hget ho hm
    have hbody := Exchange.body_get (Exchange.answered_of_kept (hkept e he)) hget hfile
    rw [if_pos ⟨ho, hm⟩] at hbody
    exact hbody

/-! ## Two requests -/

/-- Every path is a file of twelve bytes. -/
def plainSite : Site where
  conf := parsedConf [] (loadConfigDefaults 4 .zeroed)
  read := ⟨[], 4, .zeroed, rfl⟩
  now := 784111777
  files _ := some ⟨12, 0, true, true, lit "Hello, world", fun _ _ => by decide⟩

def twoRequests : List Exchange :=
  answers .http11 [plainSite, plainSite] [.data getA.block, .data getB.block]

theorem site_of_mem_answers {protocol : Protocol} {sites : List Site} {evs : List SockEvent}
    {e : Exchange} (h : e ∈ answers protocol sites evs) : e.site ∈ sites := by
  induction sites generalizing protocol evs with
  | nil => cases h
  | cons site sites ih =>
    simp only [answers] at h
    split at h
    · rcases List.mem_cons.mp h with rfl | hmem
      · exact List.mem_cons_self
      · exact List.mem_cons_of_mem site (ih hmem)
    · cases h

theorem readAll_twoRequests : twoRequests.length = 2 ∧
    readAll (twoRequests.map fun e => bodyLength e.method) (twoRequests.flatMap Exchange.bytes) =
      some (twoRequests.map Exchange.reply, []) := by
  have hsite : ∀ e ∈ twoRequests, e.site = plainSite := by
    intro e he
    simpa using site_of_mem_answers he
  have hget : ∀ e ∈ twoRequests, e.method = .get := by decide
  have hdated : ∀ e ∈ twoRequests, e.Dated := by
    intro e he
    refine ⟨?_, ?_⟩
    · rw [hsite e he]
      decide
    · intro file hfile
      rw [Exchange.file, hsite e he] at hfile
      obtain rfl := Option.some.inj hfile
      decide
  have hsized : ∀ e ∈ twoRequests, e.Sized := by
    intro e he
    rw [Exchange.Sized, hget e he, hsite e he]
    exact ⟨fun _ => by decide, fun h => absurd (.inr ⟨rfl, rfl⟩) h⟩
  have hread := (readAll_answers .http11 [plainSite, plainSite] _ [] hdated hsized).1
  rw [List.append_nil] at hread
  exact ⟨by decide, hread⟩

end Celeritas
