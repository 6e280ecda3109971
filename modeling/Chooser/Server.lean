import Chooser.UploadFile
import Chooser.Download
import Chooser.FileIdx
import Chooser.Delete

/-!
# Several connections at once

The web server calls the handlers of its open connections one at a time, in any order.  `Server`
is the device with all its connections, and `serverStep` one handler call: a post buffer for an
upload, the next call of a download or of an index, a delete, an aborted connection.

The last fields are not the device's but the observer's: which connection created the file behind
a handle (a connection creates one file at most, so this tells two files with the same handle
apart), which rows the indexes have shown, and which calls the last step made.
-/

namespace Chooser

open CStr

/-- Connections are numbered and never reused. -/
abbrev ConnId := ℕ

/-- A download: the request, what the handler keeps, what has been sent, and the handle and the
state of the device at the time of the headers. -/
structure DownloadConn (σ : Type) where
  getArgs : Args
  cgiData : Option DownloadState
  sent : List HttpCall
  closed : Bool
  headers : Option (Handle × σ)

structure IndexConn where
  cgiData : Option ℤ
  sent : List HttpCall
  closed : Bool

inductive Session (σ : Type) where
  | upload (u : UploadConn)
  | download (d : DownloadConn σ)
  | index (i : IndexConn)

/-- A row that an index has shown, and who had created the file it is about. -/
abbrev ShownRow := FileRow × Option ConnId

/-- Whether a row has been shown can be computed. -/
instance : LawfulBEq ShownRow := inferInstance

structure Server (σ ν : Type) where
  fs : σ
  nvs : ν
  conns : ConnId → Option (Session σ)
  creator : Handle → Option ConnId
  rows : List ShownRow
  log : List (AppfsEvent σ)
  nvsLog : List NvsCall

/-- A device without connections, and nothing observed. -/
def Server.initial {σ ν : Type} (fs : σ) (nvs : ν) : Server σ ν where
  fs := fs
  nvs := nvs
  conns _ := none
  creator _ := none
  rows := []
  log := []
  nvsLog := []

inductive ServerEvent where
  | openUpload (c : ConnId) (args : Args) (len : ℕ)
  | openDownload (c : ConnId) (args : Args)
  | openIndex (c : ConnId)
  | post (c : ConnId) (chunk : Bytes)
  | call (c : ConnId) (stack : DownloadStack)
  | abort (c : ConnId) (stack : DownloadStack)
  | delete (args : Args) (fdText : Bytes)
  | deleteRow (row : ShownRow) (fdText : Bytes)

/-- Who created the files, after the calls of the connection `c`. -/
def createdBy {σ : Type} (c : ConnId) (log : List (AppfsEvent σ))
    (creator : Handle → Option ConnId) : Handle → Option ConnId :=
  log.foldl (fun cr ev => match ev.call with
    | .createFile _ _ => if ev.answer.err = espOk then Function.update cr ev.answer.fd (some c) else cr
    | _ => cr) creator

/-- The link that main.js makes of a row: `'delete.cgi?idx=' + obj.files[x].index`. -/
def rowArgs (row : FileRow) : Args := fun key => if key = "idx" then some (sprintfD row.fd) else none

namespace Server

variable {σ ν : Type}

/-- A step that calls nothing. -/
def quiet (s : Server σ ν) : Server σ ν := { s with log := [], nvsLog := [] }

def withConn (s : Server σ ν) (c : ConnId) (sess : Session σ) : Server σ ν :=
  { s with conns := Function.update s.conns c (some sess) }

/-- A new connection, under a number that has not been used. -/
def openConn (s : Server σ ν) (c : ConnId) (sess : Session σ) : Server σ ν :=
  if s.conns c = none then s.quiet.withConn c sess else s.quiet

end Server

section Step

variable {σ ν : Type} (A : Appfs σ) (nvs : NvsExec ν) (s : Server σ ν)

/-- The next post buffer. The server hands over no more than was announced. -/
def postStep (c : ConnId) (u : UploadConn) (chunk : Bytes) : Server σ ν :=
  if u.closed ∨ u.len < u.received.length + chunk.length then s.quiet
  else
    let r := UploadConn.post (record A.exec) (u, s.fs, []) chunk
    { s.quiet.withConn c (.upload r.1) with
      fs := r.2.1
      creator := createdBy c r.2.2 s.creator
      log := r.2.2 }

/-- The next call of a download. -/
def downloadStep (c : ConnId) (d : DownloadConn σ) (stack : DownloadStack) : Server σ ν :=
  if d.closed then s.quiet
  else
    let o := cgiDownloadFile A stack ⟨true, true, d.cgiData, d.getArgs, ⟨[], 0, 0⟩⟩ s.fs
    s.quiet.withConn c (.download { d with
      cgiData := o.cgiData
      sent := d.sent ++ o.out
      closed := o.ret = .done
      headers := match d.cgiData with
        | some _ => d.headers
        | none => (downloadLookup A d.getArgs stack.sidx s.fs).map fun r => (r.1, s.fs) })

/-- The next call of an index, and the row it shows. -/
def indexStep (c : ConnId) (i : IndexConn) : Server σ ν :=
  if i.closed then s.quiet
  else
    let o := cgiFileIdx A ⟨true, true, i.cgiData, fun _ => none, ⟨[], 0, 0⟩⟩ s.fs
    let row := fileIdxRow A (i.cgiData.getD 0) s.fs
    { s.quiet.withConn c (.index ⟨o.cgiData, i.sent ++ o.out, o.ret = .done⟩) with
      rows := s.rows ++ row.toList.map fun r => (r, s.creator r.fd) }

/-- The connection is gone: its handler is called once more, without a connection. -/
def abortStep (c : ConnId) (stack : DownloadStack) : Session σ → Server σ ν
  | .upload u =>
      if u.closed then s.quiet
      else
        let r := cgiUploadFile (record A.exec)
          ⟨false, true, u.cgiData, u.getArgs, ⟨[], u.len, u.received.length⟩⟩ (s.fs, [])
        { s.quiet.withConn c (.upload { u with cgiData := r.1.cgiData, closed := true }) with
          fs := r.2.1
          log := r.2.2 }
  | .download d =>
      if d.closed then s.quiet
      else
        let o := cgiDownloadFile A stack ⟨false, true, d.cgiData, d.getArgs, ⟨[], 0, 0⟩⟩ s.fs
        s.quiet.withConn c (.download { d with cgiData := o.cgiData, closed := true })
  | .index i => s.quiet.withConn c (.index { i with closed := true })

/-- A delete request, which is answered in one call. -/
def deleteStep (args : Args) (fdText : Bytes) : Server σ ν :=
  let r := cgiDelete A.recorded (nvsRecord nvs) fdText ⟨true, true, none, args, ⟨[], 0, 0⟩⟩
    ((s.fs, []), (s.nvs, []))
  { s with fs := r.2.1.1, nvs := r.2.2.1, log := r.2.1.2, nvsLog := r.2.2.2 }

def serverStep : ServerEvent → Server σ ν
  | .openUpload c args len => s.openConn c (.upload (.opened args len))
  | .openDownload c args => s.openConn c (.download ⟨args, none, [], false, none⟩)
  | .openIndex c => s.openConn c (.index ⟨none, [], false⟩)
  | .post c chunk =>
      match s.conns c with
      | some (.upload u) => postStep A s c u chunk
      | _ => s.quiet
  | .call c stack =>
      match s.conns c with
      | some (.download d) => downloadStep A s c d stack
      | some (.index i) => indexStep A s c i
      | _ => s.quiet
  | .abort c stack =>
      match s.conns c with
      | some sess => abortStep A s c stack sess
      | none => s.quiet
  | .delete args fdText => deleteStep A nvs s args fdText
  | .deleteRow row fdText =>
      if row ∈ s.rows then deleteStep A nvs s (rowArgs row.1) fdText else s.quiet

end Step

/-! ## What a step can be -/

section Cases

variable {σ ν : Type} (A : Appfs σ) (nvs : NvsExec ν) (s : Server σ ν)

/-- A step in one of its forms.  Where the event finds no open connection, or no row, nothing is
called; a closed connection calls nothing either. -/
inductive StepTo : ServerEvent → Server σ ν → Prop
  | quiet {e : ServerEvent} (hdelete : ∀ args fdText, e ≠ .delete args fdText)
      (hrow : ∀ row fdText, e = .deleteRow row fdText → row ∉ s.rows) : StepTo e s.quiet
  | openUpload {c : ConnId} {args : Args} {len : ℕ} (hfree : s.conns c = none) :
      StepTo (.openUpload c args len) (s.quiet.withConn c (.upload (.opened args len)))
  | openDownload {c : ConnId} {args : Args} (hfree : s.conns c = none) :
      StepTo (.openDownload c args) (s.quiet.withConn c (.download ⟨args, none, [], false, none⟩))
  | openIndex {c : ConnId} (hfree : s.conns c = none) :
      StepTo (.openIndex c) (s.quiet.withConn c (.index ⟨none, [], false⟩))
  | post {c : ConnId} {chunk : Bytes} {u u' : UploadConn} {w : σ × List (AppfsEvent σ)}
      (hconn : s.conns c = some (.upload u)) (hopen : u.closed = false)
      (hfit : u.received.length + chunk.length ≤ u.len)
      (hpost : UploadConn.post (record A.exec) (u, s.fs, []) chunk = (u', w)) :
      StepTo (.post c chunk) { s.quiet.withConn c (.upload u') with
        fs := w.1
        creator := createdBy c w.2 s.creator
        log := w.2 }
  | download {c : ConnId} {stack : DownloadStack} {d d' : DownloadConn σ}
      (hconn : s.conns c = some (.download d)) (hopen : d.closed = false)
      (hstep : downloadStep A s c d stack = s.quiet.withConn c (.download d')) :
      StepTo (.call c stack) (s.quiet.withConn c (.download d'))
  | index {c : ConnId} {stack : DownloadStack} {i i' : IndexConn} {rows : List ShownRow}
      (hconn : s.conns c = some (.index i)) (hopen : i.closed = false)
      (hstep : indexStep A s c i = { s.quiet.withConn c (.index i') with rows := rows }) :
      StepTo (.call c stack) { s.quiet.withConn c (.index i') with rows := rows }
  | abortUpload {c : ConnId} {stack : DownloadStack} {u : UploadConn}
      (hconn : s.conns c = some (.upload u)) (hopen : u.closed = false) :
      StepTo (.abort c stack) (s.quiet.withConn c (.upload { u with closed := true }))
  | abortDownload {c : ConnId} {stack : DownloadStack} {d : DownloadConn σ}
      (hconn : s.conns c = some (.download d)) (hopen : d.closed = false) :
      StepTo (.abort c stack) (s.quiet.withConn c (.download { d with closed := true }))
  | abortIndex {c : ConnId} {stack : DownloadStack} {i : IndexConn}
      (hconn : s.conns c = some (.index i)) :
      StepTo (.abort c stack) (s.quiet.withConn c (.index { i with closed := true }))
  | delete {args : Args} {fdText : Bytes} :
      StepTo (.delete args fdText) (deleteStep A nvs s args fdText)
  | deleteRow {row : ShownRow} {fdText : Bytes} (hrow : row ∈ s.rows) :
      StepTo (.deleteRow row fdText) (deleteStep A nvs s (rowArgs row.1) fdText)

variable {A nvs s}

/-- An event that is no delete may call nothing. -/
lemma StepTo.quiet_of {e : ServerEvent} (hdelete : ∀ args fdText, e ≠ .delete args fdText)
    (hrow : ∀ row fdText, e ≠ .deleteRow row fdText) : StepTo A nvs s e s.quiet :=
  .quiet hdelete fun row fdText he => absurd he (hrow row fdText)

variable (A nvs s)

/-- **Every step has one of the forms.** -/
theorem serverStep_to (e : ServerEvent) : StepTo A nvs s e (serverStep A nvs s e) := by
  have hquiet : ∀ {e : ServerEvent}, (∀ args fdText, e ≠ .delete args fdText) →
      (∀ row fdText, e ≠ .deleteRow row fdText) → StepTo A nvs s e s.quiet := StepTo.quiet_of
  cases e with
  | openUpload c args len =>
      rw [serverStep, Server.openConn]
      split_ifs with hfree
      · exact .openUpload hfree
      · exact hquiet nofun nofun
  | openDownload c args =>
      rw [serverStep, Server.openConn]
      split_ifs with hfree
      · exact .openDownload hfree
      · exact hquiet nofun nofun
  | openIndex c =>
      rw [serverStep, Server.openConn]
      split_ifs with hfree
      · exact .openIndex hfree
      · exact hquiet nofun nofun
  | post c chunk =>
      rw [serverStep]
      split
      · rename_i u hconn
        rw [postStep]
        split_ifs with hguard
        · exact hquiet nofun nofun
        · rw [not_or, Bool.not_eq_true, not_lt] at hguard
          exact .post hconn hguard.1 hguard.2 rfl
      · exact hquiet nofun nofun
  | call c stack =>
      rw [serverStep]
      split
      · rename_i d hconn
        rcases eq_or_ne d.closed true with hclosed | hopen
        · rw [downloadStep, if_pos hclosed]
          exact hquiet nofun nofun
        · obtain ⟨d', hstep⟩ : ∃ d', downloadStep A s c d stack
              = s.quiet.withConn c (.download d') := ⟨_, if_neg hopen⟩
          rw [hstep]
          exact .download hconn (Bool.not_eq_true _ ▸ hopen) hstep
      · rename_i i hconn
        rcases eq_or_ne i.closed true with hclosed | hopen
        · rw [indexStep, if_pos hclosed]
          exact hquiet nofun nofun
        · obtain ⟨i', rows, hstep⟩ : ∃ i' rows, indexStep A s c i
              = { s.quiet.withConn c (.index i') with rows := rows } := ⟨_, _, if_neg hopen⟩
          rw [hstep]
          exact .index hconn (Bool.not_eq_true _ ▸ hopen) hstep
      · exact hquiet nofun nofun
  | abort c stack =>
      rw [serverStep]
      cases hconn : s.conns c with
      | none => exact hquiet nofun nofun
      | some sess =>
          cases sess with
          | upload u =>
              simp only [abortStep]
              split_ifs with hclosed
              · exact hquiet nofun nofun
              · exact .abortUpload hconn (Bool.not_eq_true _ ▸ hclosed)
          | download d =>
              simp only [abortStep]
              split_ifs with hclosed
              · exact hquiet nofun nofun
              · exact .abortDownload hconn (Bool.not_eq_true _ ▸ hclosed)
          | index i => exact .abortIndex hconn
  | delete args fdText => exact .delete
  | deleteRow row fdText =>
      rw [serverStep]
      split_ifs with hrow
      · exact .deleteRow hrow
      · exact .quiet nofun fun row' _ he => (ServerEvent.deleteRow.inj he).1 ▸ hrow

end Cases

/-- A post buffer for an open upload. -/
lemma serverStep_post {σ ν : Type} {A : Appfs σ} (nvs : NvsExec ν) {s : Server σ ν} {c : ConnId}
    {u u' : UploadConn} (chunk : Bytes) {w : σ × List (AppfsEvent σ)}
    (hconn : s.conns c = some (.upload u)) (hopen : u.closed = false)
    (hfit : u.received.length + chunk.length ≤ u.len)
    (hpost : UploadConn.post (record A.exec) (u, s.fs, []) chunk = (u', w)) :
    (serverStep A nvs s (.post c chunk)).fs = w.1 ∧
    (serverStep A nvs s (.post c chunk)).log = w.2 ∧
    (serverStep A nvs s (.post c chunk)).creator = createdBy c w.2 s.creator ∧
    (serverStep A nvs s (.post c chunk)).conns
      = Function.update s.conns c (some (.upload u')) := by
  have hguard : ¬ (u.closed = true ∨ u.len < u.received.length + chunk.length) := by
    rw [hopen]
    simp only [Bool.false_eq_true, false_or, not_lt]
    exact hfit
  have hstep : serverStep A nvs s (.post c chunk) = postStep A s c u chunk := by
    simp [serverStep, hconn]
  rw [hstep, postStep, if_neg hguard, hpost]
  exact ⟨rfl, rfl, rfl, rfl⟩

/-- A call of an open download. -/
lemma serverStep_call {σ ν : Type} {A : Appfs σ} {nvs : NvsExec ν} {s : Server σ ν} {c : ConnId}
    {d : DownloadConn σ} {stack : DownloadStack} (hconn : s.conns c = some (.download d))
    (hopen : d.closed = false) :
    serverStep A nvs s (.call c stack) = downloadStep A s c d stack ∧
    downloadStep A s c d stack = s.quiet.withConn c (.download { d with
      cgiData := (cgiDownloadFile A stack ⟨true, true, d.cgiData, d.getArgs, ⟨[], 0, 0⟩⟩ s.fs).cgiData
      sent := d.sent ++
        (cgiDownloadFile A stack ⟨true, true, d.cgiData, d.getArgs, ⟨[], 0, 0⟩⟩ s.fs).out
      closed :=
        (cgiDownloadFile A stack ⟨true, true, d.cgiData, d.getArgs, ⟨[], 0, 0⟩⟩ s.fs).ret = .done
      headers := match d.cgiData with
        | some _ => d.headers
        | none => (downloadLookup A d.getArgs stack.sidx s.fs).map fun r => (r.1, s.fs) }) := by
  simp [serverStep, hconn, downloadStep, hopen]

/-- The connection that an event is about. -/
def ServerEvent.conn : ServerEvent → Option ConnId
  | .openUpload c _ _ => some c
  | .openDownload c _ => some c
  | .openIndex c => some c
  | .post c _ => some c
  | .call c _ => some c
  | .abort c _ => some c
  | .delete _ _ => none
  | .deleteRow _ _ => none

/-- **The other connections are left alone.** -/
lemma serverStep_conns {σ ν : Type} {A : Appfs σ} {nvs : NvsExec ν} (s : Server σ ν)
    {e : ServerEvent} {c : ConnId} (h : e.conn ≠ some c) :
    (serverStep A nvs s e).conns c = s.conns c := by
  have hother : ∀ c' sess, e.conn = some c' →
      Function.update s.conns c' (some sess) c = s.conns c :=
    fun c' sess hc =>
      Function.update_of_ne (fun heq => h (hc.trans (congrArg some heq.symm))) _ _
  have hto := serverStep_to A nvs s e
  generalize serverStep A nvs s e = s' at hto ⊢
  cases hto with
  | quiet | delete | deleteRow => rfl
  | openUpload | openDownload | openIndex => exact hother _ _ rfl
  | post | download | index => exact hother _ _ rfl
  | abortUpload | abortDownload | abortIndex => exact hother _ _ rfl

/-! ## Who created what -/

section Creator

variable {σ : Type} {c : ConnId} {creator : Handle → Option ConnId}

lemma createdBy_append (log log' : List (AppfsEvent σ)) :
    createdBy c (log ++ log') creator = createdBy c log' (createdBy c log creator) := by
  simp [createdBy]

/-- Calls that create nothing change nothing. -/
lemma createdBy_of_no_create {log : List (AppfsEvent σ)}
    (h : ∀ ev ∈ log, ∀ n size, ev.call ≠ .createFile n size) :
    createdBy c log creator = creator := by
  induction log generalizing creator with
  | nil => rfl
  | cons ev log ih =>
      have hev := h ev (by simp)
      rw [← List.singleton_append, createdBy_append, ih fun e he => h e (by simp [he])]
      obtain ⟨call, answer, before, after⟩ := ev
      cases call with
      | createFile n size => exact absurd rfl (hev n size)
      | erase fd adr len => rfl
      | write fd adr data => rfl
      | rename old new => rfl
      | deleteFile n => rfl

lemma createdBy_create_ok {exec : Exec σ} {n : Bytes} {size : ℕ} {s : σ}
    (h : (exec (.createFile n size) s).1.err = espOk) :
    createdBy c [callEvent exec (.createFile n size) s] creator
      = Function.update creator (exec (.createFile n size) s).1.fd (some c) := by
  simp [createdBy, callEvent, h]

lemma createdBy_create_fail {exec : Exec σ} {n : Bytes} {size : ℕ} {s : σ}
    (h : (exec (.createFile n size) s).1.err ≠ espOk) :
    createdBy c [callEvent exec (.createFile n size) s] creator = creator := by
  simp [createdBy, callEvent, h]

end Creator

end Chooser
