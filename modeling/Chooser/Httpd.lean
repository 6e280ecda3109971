import Chooser.Lib.CStr

/-!
# The web server as the handlers see it

A CGI handler of the server is a function that is called again and again with the connection's
data until it answers `HTTPD_CGI_DONE` (`CgiRun`).  Between two calls it keeps one pointer
(`cgiData`).  What it does to the connection is a list of calls (`HttpCall`); what it returns is a
`CgiOutcome`.
The server itself is not part of the repository: only what the handlers rely on is here.
-/

namespace Chooser

open CStr

/-- The calls with which a handler answers. `httpdSend` keeps its length argument: a negative one
stands for a C string. -/
inductive HttpCall where
  | startResponse (code : ℕ)
  | header (field value : Bytes)
  | endHeaders
  | send (data : Bytes) (len : ℤ)
deriving DecidableEq, Repr

/-- The body bytes a call puts on the wire. -/
def HttpCall.payload : HttpCall → Bytes
  | .send data len => if len < 0 then cString data else data.take len.toNat
  | _ => []

/-- The response body made by a sequence of calls. -/
def bodySent (out : List HttpCall) : Bytes := out.flatMap HttpCall.payload

@[simp] lemma bodySent_nil : bodySent [] = [] := rfl

@[simp] lemma bodySent_append (out out' : List HttpCall) :
    bodySent (out ++ out') = bodySent out ++ bodySent out' := by
  simp [bodySent]

@[simp] lemma bodySent_cons (c : HttpCall) (out : List HttpCall) :
    bodySent (c :: out) = c.payload ++ bodySent out := by
  simp [bodySent]

@[simp] lemma payload_startResponse (code : ℕ) : (HttpCall.startResponse code).payload = [] := rfl

@[simp] lemma payload_header (f v : Bytes) : (HttpCall.header f v).payload = [] := rfl

@[simp] lemma payload_endHeaders : HttpCall.endHeaders.payload = [] := rfl

@[simp] lemma payload_send_string (b : Bytes) : (HttpCall.send b (-1)).payload = cString b := rfl

lemma payload_send_full (b : Bytes) : (HttpCall.send b b.length).payload = b := by
  have h : ¬ ((b.length : ℤ) < 0) := by omega
  simp [HttpCall.payload, h]

/-- `HTTPD_CGI_DONE` and `HTTPD_CGI_MORE`. -/
inductive HttpdCgi where
  | done
  | more
deriving DecidableEq, Repr

/-- The arguments of a request, URL-decoded. -/
abbrev Args := String → Option Bytes

/-- `httpdFindArg(args, key, buff, buffLen)`: the length of the value, or -1 and an untouched
buffer when the argument is absent. -/
def httpdFindArg (args : Args) (key : String) (buff : Bytes) (buffLen : ℕ) : ℤ × Bytes :=
  match args key with
  | none => (-1, buff)
  | some v => ((v.take buffLen).length, v.take buffLen)

/-- The post data of a connection: the buffer of this call, the announced `Content-Length`, and
the number of body bytes received so far, this buffer included. -/
structure HttpdPostData where
  buff : Bytes
  len : ℕ
  received : ℕ

/-- What a handler is called with. `conn` is false when the connection was aborted (a NULL
pointer in C), `heap` says whether `calloc` finds memory during this call. -/
structure HttpdConnData (δ : Type) where
  conn : Bool
  heap : Bool
  cgiData : Option δ
  getArgs : Args
  post : HttpdPostData

/-- What a call of a handler leaves behind. `freed` says that the record in `cgiData` was
released; its last contents stay visible here, as they do behind the dangling pointer. -/
structure CgiOutcome (δ : Type) where
  ret : HttpdCgi
  cgiData : Option δ
  freed : Bool
  out : List HttpCall

/-! ## Whole runs

The server calls a handler again and again, with the pointer it left behind, until it answers
`HTTPD_CGI_DONE`.  `call k data w` is the `k`-th call: it may depend on `k`, as what lies on the
stack does.
-/

section Runs

variable {δ ω : Type} (call : ℕ → Option δ → ω → CgiOutcome δ × ω)

/-- `CgiRun call k data w out w'`: from the `k`-th call on the handler sends `out`, finishes, and
leaves the world `w'`. -/
inductive CgiRun : ℕ → Option δ → ω → List HttpCall → ω → Prop
  | done {k : ℕ} {data : Option δ} {w : ω} (h : (call k data w).1.ret = .done) :
      CgiRun k data w (call k data w).1.out (call k data w).2
  | more {k : ℕ} {data : Option δ} {w : ω} {out : List HttpCall} {w' : ω}
      (h : (call k data w).1.ret = .more)
      (rest : CgiRun (k + 1) (call k data w).1.cgiData (call k data w).2 out w') :
      CgiRun k data w ((call k data w).1.out ++ out) w'

variable {call}

/-- There is one run only. -/
theorem CgiRun.unique {k : ℕ} {data : Option δ} {w : ω} {out out' : List HttpCall} {w₁ w₂ : ω}
    (h : CgiRun call k data w out w₁) (h' : CgiRun call k data w out' w₂) :
    out = out' ∧ w₁ = w₂ := by
  induction h generalizing out' w₂ with
  | done hd =>
      cases h' with
      | done _ => exact ⟨rfl, rfl⟩
      | more hm _ => exact absurd (hd.symm.trans hm) (by simp)
  | more hm _ ih =>
      cases h' with
      | done hd => exact absurd (hd.symm.trans hm) (by simp)
      | more _ rest =>
          obtain ⟨rfl, rfl⟩ := ih rest
          exact ⟨rfl, rfl⟩

lemma CgiRun.of_done {k : ℕ} {data data' : Option δ} {w w' : ω} {freed : Bool}
    {out : List HttpCall} (h : call k data w = (⟨.done, data', freed, out⟩, w')) :
    CgiRun call k data w out w' := by
  have hd : (call k data w).1.ret = .done := by rw [h]
  have hrun := CgiRun.done hd
  rwa [h] at hrun

lemma CgiRun.of_more {k : ℕ} {data data' : Option δ} {w w₁ w' : ω} {freed : Bool}
    {out out' : List HttpCall} (h : call k data w = (⟨.more, data', freed, out⟩, w₁))
    (rest : CgiRun call (k + 1) data' w₁ out' w') : CgiRun call k data w (out ++ out') w' := by
  have hm : (call k data w).1.ret = .more := by rw [h]
  have hrest : CgiRun call (k + 1) (call k data w).1.cgiData (call k data w).2 out' w' := by
    rw [h]
    exact rest
  have hrun := CgiRun.more hm hrest
  rwa [h] at hrun

/-- **The rule for a handler that answers piece by piece.**  `piece x k head w` is what the `k`-th
call does from the record `x`, after it has sent `head`.  If every piece ends the response, or leads
to a record of smaller measure that the next call goes on from, then the response ends. -/
theorem CgiRun.of_pieces {ξ : Type} (piece : ξ → ℕ → List HttpCall → ω → CgiOutcome δ × ω)
    (Inv : ξ → ω → Prop) (μ : ξ → ℕ) (Post : ξ → List HttpCall → ω → ω → Prop)
    (hpiece : ∀ x k head w, Inv x w →
      (∃ data freed sent w', piece x k head w = (⟨.done, data, freed, head ++ sent⟩, w') ∧
        Post x sent w w') ∨
      ∃ y data sent w', Inv y w' ∧ μ y < μ x ∧
        piece x k head w = (⟨.more, data, false, head ++ sent⟩, w') ∧
        call (k + 1) data w' = piece y (k + 1) [] w' ∧
        ∀ out w'', Post y out w' w'' → Post x (sent ++ out) w w'')
    {x : ξ} {k : ℕ} {data : Option δ} {head : List HttpCall} {w : ω} (hx : Inv x w)
    (hcall : call k data w = piece x k head w) :
    ∃ out w', CgiRun call k data w (head ++ out) w' ∧ Post x out w w' := by
  induction hμ : μ x using Nat.strong_induction_on generalizing x k data head w with
  | _ n ih =>
      rcases hpiece x k head w hx with ⟨_, _, sent, w', hdone, hpost⟩ |
        ⟨y, data', sent, w', hy, hlt, hmore, hnext, hpost⟩
      · exact ⟨sent, w', .of_done (hcall.trans hdone), hpost⟩
      · obtain ⟨out, w'', hrun, hrest⟩ := ih (μ y) (hμ ▸ hlt) hy hnext rfl
        refine ⟨sent ++ out, w'', ?_, hpost out w'' hrest⟩
        have hall := CgiRun.of_more (hcall.trans hmore) hrun
        rwa [List.nil_append, List.append_assoc] at hall

end Runs

end Chooser
