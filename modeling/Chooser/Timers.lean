import Chooser.Lib.DeltaList

/-!
# The timeouts of the TCP/IP thread

The TCP/IP thread waits for messages, and between them it calls the handlers whose time has come.
The timeouts stand in a list, each with its time from the one before it (`sys_timeout`,
`sys_untimeout`, `sys_timeouts_mbox_fetch`).  The clock of this module is the time that the thread
has waited, as it counts it: not how long handlers and messages take, nor what a wait reports beyond
the first timeout, which the thread cuts off there (`slack`).

The times are unsigned 32-bit numbers that are added and subtracted.  They never wrap around, so the
list is a delta list (`step_schedule`), and whatever is set, cancelled and waited for, in any order,
every timeout comes due exactly at its time, once, in order (`timers_on_time`).

Some handlers set themselves again.  These are called in their fixed rhythm for as long as there is
memory (`cyclic_on_schedule`).  The one of TCP does so only while there are connections, and a flag
says whether it is set; the flag is right, always (`tcp_timer_right`).
-/

namespace Chooser

open DeltaList Machine

/-! ## The list -/

/-- `struct sys_timeo`; a handler stands for the function together with its argument. -/
structure SysTimeo (η : Type*) where
  time : UInt32
  h : η

/-- `SYS_ARCH_TIMEOUT` -/
def sysArchTimeout : UInt32 := 0xffffffff

/-- `LwipTimOutLim`, which nothing changes. -/
def lwipTimOutLim : UInt32 := 0

section List

variable {η : Type*}

/-- The loop of `sys_timeout`, from the timeout `t` on; `time` is what is left for the new one. -/
def sysTimeoutLoop (h : η) : UInt32 → SysTimeo η → List (SysTimeo η) → List (SysTimeo η)
  | time, t, [] => [t, ⟨time - t.time, h⟩]
  | time, t, next :: rest =>
      if next.time > time - t.time then
        t :: ⟨time - t.time, h⟩ :: { next with time := next.time - (time - t.time) } :: rest
      else t :: sysTimeoutLoop h (time - t.time) next rest

/-- `sys_timeout`; `memp` is whether there is memory for the timeout. -/
def sysTimeout (memp : Bool) (msecs : UInt32) (h : η) (nextTimeout : List (SysTimeo η)) :
    List (SysTimeo η) :=
  if memp then
    let msecs := if msecs < lwipTimOutLim then lwipTimOutLim else msecs
    match nextTimeout with
    | [] => [⟨msecs, h⟩]
    | t :: rest =>
        if t.time > msecs then ⟨msecs, h⟩ :: { t with time := t.time - msecs } :: rest
        else sysTimeoutLoop h msecs t rest
  else nextTimeout

/-- `sys_untimeout` -/
def sysUntimeout [DecidableEq η] (h : η) : List (SysTimeo η) → List (SysTimeo η)
  | [] => []
  | t :: rest =>
      if t.h = h then
        match rest with
        | [] => []
        | next :: rest => { next with time := next.time + t.time } :: rest
      else t :: sysUntimeout h rest

/-- One round of `sys_timeouts_mbox_fetch`, from `again` on, with the answer of
`sys_arch_mbox_fetch`: the handler that is to be called, or none if there is a message. -/
def sysTimeoutsMboxFetch (timeNeeded : UInt32) :
    List (SysTimeo η) → List (SysTimeo η) × Option η
  | [] => ([], none)
  | t :: rest =>
      let timeNeeded := if t.time > 0 then timeNeeded else sysArchTimeout
      if timeNeeded = sysArchTimeout then (rest, some t.h)
      else if timeNeeded < t.time then ({ t with time := t.time - timeNeeded } :: rest, none)
      else ({ t with time := 0 } :: rest, none)

/-! ## It is a delta list -/

def SysTimeo.timed (t : SysTimeo η) : Timed η := ⟨t.time.toNat, t.h⟩

/-- The delta list that the timeouts are. -/
def deltas (l : List (SysTimeo η)) : List (Timed η) := l.map SysTimeo.timed

/-- The last timeout is due within the range of the counters. -/
def InRange (l : List (SysTimeo η)) : Prop := total (deltas l) < 2 ^ 32

variable {t : SysTimeo η} {h : η} {msecs : UInt32} {l : List (SysTimeo η)}

@[simp] lemma deltas_nil : deltas ([] : List (SysTimeo η)) = [] := rfl

@[simp] lemma deltas_cons (t : SysTimeo η) (l : List (SysTimeo η)) :
    deltas (t :: l) = t.timed :: deltas l := rfl

/-- The loop goes on as long as the new timeout is not due earlier. -/
lemma deltas_sysTimeoutLoop {time : UInt32} (hle : t.time ≤ time) :
    deltas (sysTimeoutLoop h time t l)
      = t.timed :: add (time.toNat - t.time.toNat) h (deltas l) := by
  induction l generalizing t time with
  | nil => simp [sysTimeoutLoop, SysTimeo.timed, add, UInt32.toNat_sub_of_le _ _ hle]
  | cons next l ih =>
      have hleft : (time - t.time).toNat = time.toNat - t.time.toNat := UInt32.toNat_sub_of_le _ _ hle
      rw [sysTimeoutLoop, deltas_cons, add]
      by_cases hlt : time - t.time < next.time
      · have hnext := UInt32.toNat_sub_of_le _ _ (UInt32.le_of_lt hlt)
        have hbefore : time.toNat - t.time.toNat < next.timed.time :=
          hleft ▸ UInt32.lt_iff_toNat_lt.mp hlt
        rw [if_pos hlt, if_pos hbefore]
        simp [SysTimeo.timed, hleft, hnext]
      · have hbehind : ¬ time.toNat - t.time.toNat < next.timed.time := by
          rw [← hleft]
          exact fun h => hlt (UInt32.lt_iff_toNat_lt.mpr h)
        rw [if_neg hlt, if_neg hbehind, deltas_cons, ih (UInt32.not_lt.mp hlt), hleft]
        rfl

/-- **`sys_timeout`** adds to the delta list. -/
lemma deltas_sysTimeout (h : η) (msecs : UInt32) (l : List (SysTimeo η)) :
    deltas (sysTimeout true msecs h l) = add msecs.toNat h (deltas l) := by
  have hlim : (if msecs < lwipTimOutLim then lwipTimOutLim else msecs) = msecs :=
    if_neg (by simp [lwipTimOutLim])
  rw [sysTimeout, if_pos rfl]
  simp only [hlim]
  cases l with
  | nil => rfl
  | cons t l =>
      rw [deltas_cons, add]
      by_cases hlt : msecs < t.time
      · have hleft := UInt32.toNat_sub_of_le _ _ (UInt32.le_of_lt hlt)
        have hbefore : msecs.toNat < t.timed.time := UInt32.lt_iff_toNat_lt.mp hlt
        simp only [gt_iff_lt, hlt, if_true, hbefore]
        simp [SysTimeo.timed, hleft]
      · have hbehind : ¬ msecs.toNat < t.timed.time :=
          fun h => hlt (UInt32.lt_iff_toNat_lt.mpr h)
        simp only [gt_iff_lt, hlt, if_false, hbehind]
        exact deltas_sysTimeoutLoop (UInt32.not_lt.mp hlt)

lemma InRange.sysTimeout (hl : InRange l) (memp : Bool) (msecs : UInt32) (h : η) :
    InRange (sysTimeout memp msecs h l) := by
  cases memp with
  | false => exact hl
  | true =>
      rw [InRange, deltas_sysTimeout, total_add]
      exact max_lt msecs.toNat_lt hl

/-- **`sys_untimeout`** cancels in the delta list. -/
lemma deltas_sysUntimeout [DecidableEq η] (hl : InRange l) (h : η) :
    deltas (sysUntimeout h l) = cancel (fun x => x = h) (deltas l) := by
  induction l with
  | nil => rfl
  | cons t l ih =>
      have htotal : t.time.toNat + total (deltas l) < 2 ^ 32 := hl
      have hcancel : t.timed.item = t.h := rfl
      rw [deltas_cons, cancel, hcancel, sysUntimeout.eq_def]
      dsimp only
      by_cases ht : t.h = h
      · rw [if_pos ht, if_pos (by simpa using ht)]
        cases l with
        | nil => rfl
        | cons next l =>
            have hsum : (next.time + t.time).toNat = next.time.toNat + t.time.toNat := by
              rw [deltas_cons, total_cons, SysTimeo.timed] at htotal
              rw [UInt32.toNat_add, Nat.mod_eq_of_lt]
              simp only at htotal
              omega
            simp [SysTimeo.timed, delay, hsum]
      · have hrest : InRange l := lt_of_le_of_lt (Nat.le_add_left _ _) htotal
        rw [if_neg ht, if_neg (by simpa using ht), deltas_cons, ih hrest]

/-- **A round** calls the first handler, if its time is over when no message has come, or else lets
time pass. -/
lemma sysTimeoutsMboxFetch_cases (timeNeeded : UInt32) (l : List (SysTimeo η)) :
    (∃ t rest, l = t :: rest ∧ t.time ≤ timeNeeded ∧
      sysTimeoutsMboxFetch timeNeeded l = (rest, some t.h)) ∨
    ((sysTimeoutsMboxFetch timeNeeded l).2 = none ∧
      deltas (sysTimeoutsMboxFetch timeNeeded l).1
        = elapse (slack timeNeeded.toNat (deltas l)) (deltas l)) := by
  cases l with
  | nil => exact Or.inr ⟨rfl, rfl⟩
  | cons t rest =>
      simp only [sysTimeoutsMboxFetch]
      by_cases hpos : t.time > 0
      · rw [if_pos hpos]
        by_cases hout : timeNeeded = sysArchTimeout
        · left
          rw [if_pos hout]
          refine ⟨t, rest, rfl, ?_, rfl⟩
          rw [hout, UInt32.le_iff_toNat_le]
          have hlt := t.time.toNat_lt
          have hmax : sysArchTimeout.toNat = 2 ^ 32 - 1 := rfl
          omega
        · right
          rw [if_neg hout]
          by_cases hlt : timeNeeded < t.time
          · have hleft := UInt32.toNat_sub_of_le _ _ (UInt32.le_of_lt hlt)
            have hle := UInt32.le_iff_toNat_le.mp (UInt32.le_of_lt hlt)
            rw [if_pos hlt]
            simp [SysTimeo.timed, elapse, slack, hleft, hle]
          · have hle := UInt32.le_iff_toNat_le.mp (UInt32.not_lt.mp hlt)
            rw [if_neg hlt]
            simp [SysTimeo.timed, elapse, slack, hle]
      · left
        rw [if_neg hpos, if_pos rfl]
        exact ⟨t, rest, rfl, UInt32.le_trans (UInt32.not_lt.mp hpos) UInt32.zero_le, rfl⟩

end List

/-! ## All calls -/

/-- The timeouts, and what an observer sees: the time that the thread has waited, and which timeouts
have been set, called and cancelled, with the times at which they were due. -/
structure Timers (η : Type*) where
  nextTimeout : List (SysTimeo η)
  clock : ℕ
  set : List (Timed η)
  called : List (Timed η)
  cancelled : List (Timed η)

inductive TimerCall (η : Type*) where
  | sysTimeout (memp : Bool) (msecs : UInt32) (h : η)
  | sysUntimeout (h : η)
  | sysTimeoutsMboxFetch (timeNeeded : UInt32)

namespace Timers

variable {η : Type*}

def initial : Timers η := ⟨[], 0, [], [], []⟩

/-- The timeouts that are set, with the times at which they are due. -/
def pending (s : Timers η) : List (Timed η) := due s.clock (deltas s.nextTimeout)

/-- The handler that a round calls. -/
def fired (s : Timers η) (timeNeeded : UInt32) : Option η :=
  (Chooser.sysTimeoutsMboxFetch timeNeeded s.nextTimeout).2

/-- A round; a handler is called at the time that the clock shows. -/
def fetch (s : Timers η) (timeNeeded : UInt32) : Timers η :=
  let clock := s.clock + slack timeNeeded.toNat (deltas s.nextTimeout)
  { s with
    nextTimeout := (Chooser.sysTimeoutsMboxFetch timeNeeded s.nextTimeout).1
    clock := clock
    called := s.called ++ ((s.fired timeNeeded).map fun h => ⟨clock, h⟩).toList }

variable [DecidableEq η]

def step (s : Timers η) : TimerCall η → Timers η
  | .sysTimeout memp msecs h =>
      { s with
        nextTimeout := Chooser.sysTimeout memp msecs h s.nextTimeout
        set := s.set ++ if memp then [⟨s.clock + msecs.toNat, h⟩] else [] }
  | .sysUntimeout h =>
      { s with
        nextTimeout := Chooser.sysUntimeout h s.nextTimeout
        cancelled := s.cancelled ++ (s.pending.find? fun x => x.item = h).toList }
  | .sysTimeoutsMboxFetch timeNeeded => s.fetch timeNeeded

/-! ## They are a schedule -/

def schedule (s : Timers η) : Schedule η :=
  ⟨s.clock, deltas s.nextTimeout, s.set, s.called, s.cancelled⟩

/-- What a call does to the schedule. -/
def acts (s : Timers η) : TimerCall η → List (Act η)
  | .sysTimeout memp msecs h => if memp then [.add msecs.toNat h] else []
  | .sysUntimeout h => [.cancel fun x => x = h]
  | .sysTimeoutsMboxFetch timeNeeded =>
      [if (s.fired timeNeeded).isSome then .fire else .wait timeNeeded.toNat]

variable {s : Timers η}

omit [DecidableEq η] in
/-- **A round** lets the first timeout come due, or lets time pass. -/
lemma fetch_cases (s : Timers η) (timeNeeded : UInt32) :
    (∃ t rest, s.nextTimeout = t :: rest ∧ s.fired timeNeeded = some t.h ∧
      (s.fetch timeNeeded).schedule = s.schedule.step .fire) ∨
    (s.fired timeNeeded = none ∧
      (s.fetch timeNeeded).schedule = s.schedule.step (.wait timeNeeded.toNat)) := by
  rcases sysTimeoutsMboxFetch_cases timeNeeded s.nextTimeout with
    ⟨t, rest, hl, hle, hround⟩ | ⟨hnone, hround⟩
  · left
    have hfired : s.fired timeNeeded = some t.h := by rw [fired, hround]
    have hslack : slack timeNeeded.toNat (deltas s.nextTimeout) = t.time.toNat := by
      rw [hl]
      exact min_eq_right (UInt32.le_iff_toNat_le.mp hle)
    refine ⟨t, rest, hl, hfired, ?_⟩
    simp only [schedule, fetch, hfired, hround, hslack]
    simp [Schedule.step, Schedule.fire, hl, SysTimeo.timed]
  · right
    have hfired : s.fired timeNeeded = none := hnone
    refine ⟨hfired, ?_⟩
    simp only [schedule, fetch, hfired, hround]
    simp [Schedule.step]

/-- **Every call** does to the delta list what it should. -/
lemma step_schedule (hs : InRange s.nextTimeout) (c : TimerCall η) :
    (s.step c).schedule = run Schedule.step s.schedule (s.acts c) := by
  cases c with
  | sysTimeout memp msecs h =>
      cases memp with
      | false => simp [step, acts, schedule, sysTimeout]
      | true => simp [step, acts, schedule, Schedule.step, deltas_sysTimeout]
  | sysUntimeout h =>
      simp only [step, acts, schedule, run_cons, run_nil, Schedule.step, deltas_sysUntimeout hs]
      rfl
  | sysTimeoutsMboxFetch timeNeeded =>
      rcases s.fetch_cases timeNeeded with ⟨t, rest, _, hfired, hstep⟩ | ⟨hfired, hstep⟩
      · simp only [acts, hfired]
        exact hstep
      · simp only [acts, hfired]
        exact hstep

/-- **No call** leaves the range. -/
lemma inRange_step (hs : InRange s.nextTimeout) (c : TimerCall η) :
    InRange (s.step c).nextTimeout := by
  cases c with
  | sysTimeout memp msecs h => exact hs.sysTimeout memp msecs h
  | sysUntimeout h =>
      rw [step, InRange, deltas_sysUntimeout hs]
      exact (total_cancel_le _ _).trans_lt hs
  | sysTimeoutsMboxFetch timeNeeded =>
      rcases sysTimeoutsMboxFetch_cases timeNeeded s.nextTimeout with
        ⟨t, rest, hl, _, hround⟩ | ⟨_, hround⟩
      · rw [hl] at hs
        simp only [step, fetch, hround]
        exact (Nat.le_add_left _ _).trans_lt hs
      · simp only [step, fetch, InRange, hround]
        exact (total_elapse_le _ _).trans_lt hs

/-- What is always true of the timeouts. -/
structure Ok (s : Timers η) : Prop where
  inRange : InRange s.nextTimeout
  balanced : s.schedule.Balanced

omit [DecidableEq η] in
lemma initial_ok : (initial : Timers η).Ok := ⟨Nat.two_pow_pos 32, Schedule.balanced_empty⟩

lemma Ok.step (hs : s.Ok) (c : TimerCall η) : (s.step c).Ok where
  inRange := inRange_step hs.inRange c
  balanced := by
    rw [step_schedule hs.inRange]
    exact hs.balanced.run (s.acts c)

/-- **Every timeout comes due at its time.**  Whatever is set, cancelled and waited for: what has
been set has been called when the clock showed its time, or was cancelled, or is still set and not
overdue.  The handlers are called in the order of the times. -/
theorem timers_on_time (cs : List (TimerCall η)) :
    let s := run Timers.step initial cs
    s.set.Perm (s.called ++ s.cancelled ++ s.pending) ∧
      s.called.Pairwise (fun x y => x.time ≤ y.time) ∧ (∀ x ∈ s.called, x.time ≤ s.clock) ∧
      s.pending.Pairwise (fun x y => x.time ≤ y.time) ∧ ∀ x ∈ s.pending, s.clock ≤ x.time := by
  have hok : (run Timers.step initial cs).Ok :=
    run_invariant_of_step (fun _ c h => h.step c) initial_ok cs
  exact ⟨hok.balanced.account, hok.balanced.ordered, hok.balanced.past, pairwise_due _ _,
    fun x hx => le_of_mem_due _ _ hx⟩

end Timers

/-! ## The thread -/

/-- The handlers of `timers.c`, with those of all other files. -/
inductive Handler (η : Type*) where
  | arpTimer
  | dhcpTimerCoarse
  | dhcpTimerFine
  | igmpTimer
  | dnsTimer
  | tcpipTcpTimer
  | other (h : η)
deriving DecidableEq

def arpTmrInterval : UInt32 := 1000
def dhcpCoarseTimerMsecs : UInt32 := 1000
def dhcpFineTimerMsecs : UInt32 := 500
def igmpTmrInterval : UInt32 := 100
def dnsTmrInterval : UInt32 := 1000
def tcpTmrInterval : UInt32 := 250

/-- What messages and handlers ask for.  The handlers of `timers.c` are `static`, so nothing else
names them.  `TCP_REG` is for `tcp_active_pcbs` and `tcp_tw_pcbs` if `alive`, or else for the other
lists; `TCP_RMV` is for those two. -/
inductive WorkCall (η : Type*) where
  | sysTimeout (memp : Bool) (msecs : UInt32) (h : η)
  | sysUntimeout (h : η)
  | tcpReg (memp alive : Bool)
  | tcpRmv

/-- The thread: its timeouts, `tcpip_tcp_timer_active`, the number of entries of `tcp_active_pcbs`
and `tcp_tw_pcbs`, and what the messages are about. -/
structure Tcpip (η ω : Type*) where
  timers : Timers (Handler η)
  tcpTimerActive : Bool
  pcbs : ℕ
  world : ω

/-- One round of the thread: the answer of `sys_arch_mbox_fetch`; the message, if there is one; what
is asked for while it or the handler runs; and whether there is memory for the handler to set itself
again. -/
structure Round (η μ : Type*) where
  timeNeeded : UInt32
  msg : μ
  work : List (WorkCall η)
  memp : Bool

namespace Tcpip

variable {η ω μ : Type*} [DecidableEq η]

/-- `sys_timeout` -/
def timeout (memp : Bool) (msecs : UInt32) (h : Handler η) (s : Tcpip η ω) : Tcpip η ω :=
  { s with timers := s.timers.step (.sysTimeout memp msecs h) }

@[simp] lemma timers_timeout (memp : Bool) (msecs : UInt32) (h : Handler η) (s : Tcpip η ω) :
    (s.timeout memp msecs h).timers = s.timers.step (.sysTimeout memp msecs h) := rfl

/-- `tcp_timer_needed` -/
def tcpTimerNeeded (memp : Bool) (s : Tcpip η ω) : Tcpip η ω :=
  if s.tcpTimerActive = false ∧ s.pcbs ≠ 0 then
    timeout memp tcpTmrInterval .tcpipTcpTimer { s with tcpTimerActive := true }
  else s

def call (s : Tcpip η ω) : WorkCall η → Tcpip η ω
  | .sysTimeout memp msecs h => s.timeout memp msecs (.other h)
  | .sysUntimeout h => { s with timers := s.timers.step (.sysUntimeout (.other h)) }
  | .tcpReg memp alive =>
      tcpTimerNeeded memp { s with pcbs := if alive then s.pcbs + 1 else s.pcbs }
  | .tcpRmv => { s with pcbs := s.pcbs - 1 }

def calls (s : Tcpip η ω) (work : List (WorkCall η)) : Tcpip η ω := work.foldl call s

/-- A handler that does its work and sets itself again. -/
def cyclicTimer (interval : UInt32) (self : Handler η) (r : Round η μ) (s : Tcpip η ω) : Tcpip η ω :=
  (s.calls r.work).timeout r.memp interval self

def arpTimer (r : Round η μ) (s : Tcpip η ω) : Tcpip η ω :=
  cyclicTimer arpTmrInterval .arpTimer r s

/-- `dhcp_timer_coarse`; `coarse` is `dhcps_coarse_tmr`. -/
def dhcpTimerCoarse (coarse : ω → ω) (r : Round η μ) (s : Tcpip η ω) : Tcpip η ω :=
  cyclicTimer dhcpCoarseTimerMsecs .dhcpTimerCoarse r { s with world := coarse s.world }

def dhcpTimerFine (r : Round η μ) (s : Tcpip η ω) : Tcpip η ω :=
  cyclicTimer dhcpFineTimerMsecs .dhcpTimerFine r s

def igmpTimer (r : Round η μ) (s : Tcpip η ω) : Tcpip η ω :=
  cyclicTimer igmpTmrInterval .igmpTimer r s

def dnsTimer (r : Round η μ) (s : Tcpip η ω) : Tcpip η ω :=
  cyclicTimer dnsTmrInterval .dnsTimer r s

/-- `tcpip_tcp_timer` -/
def tcpipTcpTimer (r : Round η μ) (s : Tcpip η ω) : Tcpip η ω :=
  let s := s.calls r.work
  if s.pcbs ≠ 0 then s.timeout r.memp tcpTmrInterval .tcpipTcpTimer
  else { s with tcpTimerActive := false }

/-- `sys_timeouts_init`; `memp` is whether there is memory for each. -/
def sysTimeoutsInit (memp : Handler η → Bool) (world : ω) : Tcpip η ω :=
  let s : Tcpip η ω := ⟨.initial, false, 0, world⟩
  let s := s.timeout (memp .arpTimer) arpTmrInterval .arpTimer
  let s := s.timeout (memp .dhcpTimerCoarse) dhcpCoarseTimerMsecs .dhcpTimerCoarse
  let s := s.timeout (memp .dhcpTimerFine) dhcpFineTimerMsecs .dhcpTimerFine
  let s := s.timeout (memp .igmpTimer) igmpTmrInterval .igmpTimer
  s.timeout (memp .dnsTimer) dnsTmrInterval .dnsTimer

section Round

variable (coarse : ω → ω) (input : ω → μ → ω)

/-- The handler is called. -/
def handle (s : Tcpip η ω) (r : Round η μ) : Handler η → Tcpip η ω
  | .arpTimer => s.arpTimer r
  | .dhcpTimerCoarse => s.dhcpTimerCoarse coarse r
  | .dhcpTimerFine => s.dhcpTimerFine r
  | .igmpTimer => s.igmpTimer r
  | .dnsTimer => s.dnsTimer r
  | .tcpipTcpTimer => s.tcpipTcpTimer r
  | .other _ => s.calls r.work

/-- A message is handled, in `tcpip_thread`. -/
def message (s : Tcpip η ω) (r : Round η μ) : Tcpip η ω :=
  { s with world := input s.world r.msg }.calls r.work

/-- **One round**: time passes, and then a handler is called, or a message is handled. -/
def round (s : Tcpip η ω) (r : Round η μ) : Tcpip η ω :=
  let waited : Tcpip η ω := { s with timers := s.timers.fetch r.timeNeeded }
  match s.timers.fired r.timeNeeded with
  | some h => waited.handle coarse r h
  | none => waited.message input r

end Round

end Tcpip

/-! ## Calls about other handlers -/

/-- The interval of a handler that sets itself again. -/
def Handler.interval {η : Type*} : Handler η → Option UInt32
  | .arpTimer => some arpTmrInterval
  | .dhcpTimerCoarse => some dhcpCoarseTimerMsecs
  | .dhcpTimerFine => some dhcpFineTimerMsecs
  | .igmpTimer => some igmpTmrInterval
  | .dnsTimer => some dnsTmrInterval
  | .tcpipTcpTimer => none
  | .other _ => none

/-- The call sets or cancels another handler. -/
def TimerCall.Spares {η : Type*} (c : η) : TimerCall η → Prop
  | .sysTimeout _ _ h => h ≠ c
  | .sysUntimeout h => h ≠ c
  | .sysTimeoutsMboxFetch _ => False

/-- A property of the timeouts that the calls about other handlers keep. -/
def KeptFor {η : Type*} [DecidableEq η] (c : η) (P : Timers η → Prop) : Prop :=
  ∀ s tc, tc.Spares c → P s → P (s.step tc)

lemma KeptFor.timeout {η : Type*} [DecidableEq η] {c h : η} {P : Timers η → Prop}
    (hP : KeptFor c P) (hh : h ≠ c) {s : Timers η} (hs : P s) (memp : Bool) (msecs : UInt32) :
    P (s.step (.sysTimeout memp msecs h)) := hP s (.sysTimeout memp msecs h) hh hs

lemma KeptFor.untimeout {η : Type*} [DecidableEq η] {c h : η} {P : Timers η → Prop}
    (hP : KeptFor c P) (hh : h ≠ c) {s : Timers η} (hs : P s) :
    P (s.step (.sysUntimeout h)) := hP s (.sysUntimeout h) hh hs

namespace Timers

variable {η : Type*} [DecidableEq η] {s : Timers η} {c : η} {i k : ℕ}

/-- Such a call spares the handler on the schedule, and takes no time. -/
lemma acts_spare {tc : TimerCall η} (htc : tc.Spares c) :
    ∀ x ∈ s.acts tc, x.Spares c ∧ ∀ d, x ≠ .wait d := by
  intro x hx
  cases tc with
  | sysTimeout memp msecs h =>
      cases memp with
      | false => cases hx
      | true =>
          rw [List.mem_singleton.mp hx]
          exact ⟨htc, fun d hd => by cases hd⟩
  | sysUntimeout h =>
      rw [List.mem_singleton.mp hx]
      exact ⟨decide_eq_false (Ne.symm htc), fun d hd => by cases hd⟩
  | sysTimeoutsMboxFetch timeNeeded => exact htc.elim

/-- What the acts about other items keep is kept. -/
lemma keptFor_of_acts {P : Schedule η → Prop}
    (hP : ∀ (s : Schedule η) x, x.Spares c → (∀ d, x ≠ .wait d) → P s → P (s.step x)) :
    KeptFor c fun s => s.Ok ∧ P s.schedule := by
  rintro s tc htc ⟨hs, h⟩
  refine ⟨hs.step tc, ?_⟩
  rw [step_schedule hs.inRange]
  have hspare := s.acts_spare htc
  generalize s.acts tc = xs at hspare
  generalize s.schedule = t at h
  induction xs generalizing t with
  | nil => exact h
  | cons x xs ih =>
      obtain ⟨hx, hwait⟩ := hspare x List.mem_cons_self
      exact ih (fun y hy => hspare y (List.mem_cons_of_mem x hy)) (t.step x) (hP t x hx hwait h)

/-- The due times of the handler, and the clock. -/
lemma keptFor_pending (l : List (Timed η)) (n : ℕ) :
    KeptFor c fun s : Timers η => s.Ok ∧ only c s.pending = l ∧ s.clock = n :=
  keptFor_of_acts (P := fun t => only c t.pending = l ∧ t.now = n) fun _ _ hx hwait h =>
    ⟨(only_pending_step hx).1.trans h.1, (now_step hx hwait).trans h.2⟩

lemma keptFor_inRhythm : KeptFor c fun s : Timers η => s.Ok ∧ InRhythm i c s.schedule k :=
  keptFor_of_acts (P := fun t => InRhythm i c t k) fun _ _ hx _ h => h.step hx

lemma keptFor_onBeat : KeptFor c fun s : Timers η => s.Ok ∧ OnBeat i c s.schedule k :=
  keptFor_of_acts (P := fun t => OnBeat i c t k) fun _ _ hx hwait h => h.step hx hwait

end Timers

/-! ## The rhythm of the thread -/

namespace Tcpip

variable {η ω μ : Type*} [DecidableEq η] {coarse : ω → ω} {input : ω → μ → ω}
  {s : Tcpip η ω} {c : Handler η} {P : Timers (Handler η) → Prop}

/-- What a message or a handler asks for is not about the handlers of `timers.c`, or it is about the
one of TCP. -/
lemma calls_kept (hP : KeptFor c P) (htcp : c ≠ .tcpipTcpTimer) (hother : ∀ h, c ≠ .other h)
    (work : List (WorkCall η)) (hs : P s.timers) : P (s.calls work).timers := by
  induction work generalizing s with
  | nil => exact hs
  | cons w work ih =>
      refine ih (s := s.call w) ?_
      cases w with
      | sysTimeout memp msecs h => exact hP.timeout (hother h).symm hs _ _
      | sysUntimeout h => exact hP.untimeout (hother h).symm hs
      | tcpReg memp alive =>
          have hneeded : ∀ s : Tcpip η ω, P s.timers → P (s.tcpTimerNeeded memp).timers := by
            intro s hs
            rw [tcpTimerNeeded]
            split_ifs
            · exact hP.timeout htcp.symm hs _ _
            · exact hs
          exact hneeded { s with pcbs := if alive then s.pcbs + 1 else s.pcbs } hs
      | tcpRmv => exact hs

/-- **Other handlers** keep it. -/
lemma handle_kept (hP : KeptFor c P) (htcp : c ≠ .tcpipTcpTimer) (hother : ∀ h, c ≠ .other h)
    (r : Round η μ) {h : Handler η} (hh : h ≠ c) (hs : P s.timers) :
    P (s.handle coarse r h).timers := by
  have hcalls : ∀ s : Tcpip η ω, P s.timers → P (s.calls r.work).timers :=
    fun s hs => calls_kept hP htcp hother r.work hs
  have hcyclic : ∀ (interval : UInt32) (s : Tcpip η ω), P s.timers →
      P (cyclicTimer interval h r s).timers :=
    fun interval s hs => hP.timeout hh (hcalls s hs) _ _
  cases h with
  | arpTimer => exact hcyclic _ s hs
  | dhcpTimerCoarse => exact hcyclic _ { s with world := coarse s.world } hs
  | dhcpTimerFine => exact hcyclic _ s hs
  | igmpTimer => exact hcyclic _ s hs
  | dnsTimer => exact hcyclic _ s hs
  | tcpipTcpTimer =>
      simp only [handle, tcpipTcpTimer]
      split_ifs
      · exact hP.timeout hh (hcalls s hs) _ _
      · exact hcalls s hs
  | other h => exact hcalls s hs

/-- There is memory for the handler to set itself again, whenever it is called. -/
def Remembers (c : Handler η) (s : Tcpip η ω) (r : Round η μ) : Prop :=
  s.timers.fired r.timeNeeded = some c → r.memp = true

omit [DecidableEq η] in
lemma interval_ne {i : UInt32} (hc : c.interval = some i) :
    c ≠ .tcpipTcpTimer ∧ ∀ h, c ≠ .other h := by
  constructor
  · rintro rfl
    cases hc
  · rintro h rfl
    cases hc

/-- **A handler that sets itself again** does its work first. -/
lemma handle_self {i : UInt32} (hc : c.interval = some i) {r : Round η μ} (hr : r.memp = true)
    {k : ℕ} (hs : s.timers.Ok ∧ OnBeat i.toNat c s.timers.schedule k) :
    (s.handle coarse r c).timers.Ok ∧ InRhythm i.toNat c (s.handle coarse r c).timers.schedule k := by
  obtain ⟨htcp, hother⟩ := interval_ne hc
  have hcyclic : ∀ s : Tcpip η ω, s.timers.Ok ∧ OnBeat i.toNat c s.timers.schedule k →
      (cyclicTimer i c r s).timers.Ok ∧
        InRhythm i.toNat c (cyclicTimer i c r s).timers.schedule k := by
    intro s hs
    obtain ⟨hok, hbeat⟩ := calls_kept Timers.keptFor_onBeat htcp hother r.work hs
    have hstep : (cyclicTimer i c r s).timers
        = (s.calls r.work).timers.step (.sysTimeout true i c) := by rw [cyclicTimer, timeout, hr]
    rw [hstep]
    refine ⟨hok.step _, ?_⟩
    rw [Timers.step_schedule hok.inRange]
    exact hbeat.again
  cases c with
  | arpTimer =>
      obtain rfl := Option.some.inj hc
      exact hcyclic s hs
  | dhcpTimerCoarse =>
      obtain rfl := Option.some.inj hc
      exact hcyclic { s with world := coarse s.world } hs
  | dhcpTimerFine =>
      obtain rfl := Option.some.inj hc
      exact hcyclic s hs
  | igmpTimer =>
      obtain rfl := Option.some.inj hc
      exact hcyclic s hs
  | dnsTimer =>
      obtain rfl := Option.some.inj hc
      exact hcyclic s hs
  | tcpipTcpTimer => cases hc
  | other h => cases hc

/-- **One round** is a beat of the handler, or keeps the rhythm. -/
lemma round_inRhythm {i : UInt32} (hc : c.interval = some i) {r : Round η μ}
    (hr : Remembers c s r) {k : ℕ} (hok : s.timers.Ok)
    (hs : InRhythm i.toNat c s.timers.schedule k) :
    (s.round coarse input r).timers.Ok ∧
      InRhythm i.toNat c (s.round coarse input r).timers.schedule
        (k + if s.timers.fired r.timeNeeded = some c then 1 else 0) := by
  obtain ⟨htcp, hother⟩ := interval_ne hc
  have hwaited : (s.timers.fetch r.timeNeeded).Ok := hok.step (.sysTimeoutsMboxFetch r.timeNeeded)
  rcases s.timers.fetch_cases r.timeNeeded with ⟨t, rest, hl, hfired, hfetch⟩ | ⟨hfired, hfetch⟩
  · have hqueue : s.timers.schedule.queue = t.timed :: deltas rest := by
      simp [Timers.schedule, hl]
    simp only [round, hfired, Option.some.injEq]
    by_cases hself : t.h = c
    · rw [if_pos hself, hself]
      refine handle_self hc (hr (hself ▸ hfired)) ⟨hwaited, ?_⟩
      rw [SysTimeo.timed, hself] at hqueue
      rw [hfetch]
      exact hs.fire_self hqueue
    · rw [if_neg hself]
      refine handle_kept Timers.keptFor_inRhythm htcp hother r hself ⟨hwaited, ?_⟩
      rw [hfetch]
      exact hs.fire_other hqueue hself
  · simp only [round, hfired, reduceCtorEq, if_false]
    refine calls_kept Timers.keptFor_inRhythm htcp hother r.work ⟨hwaited, ?_⟩
    rw [hfetch]
    exact hs.step trivial

/-! ### Runs -/

section Runs

variable (coarse : ω → ω) (input : ω → μ → ω)

/-- How often the handler is called in a run. -/
def timesFired (c : Handler η) : Tcpip η ω → List (Round η μ) → ℕ
  | _, [] => 0
  | s, r :: rs =>
      (if s.timers.fired r.timeNeeded = some c then 1 else 0) +
        timesFired c (s.round coarse input r) rs

end Runs

/-- **A run** keeps the rhythm. -/
lemma run_inRhythm {i : UInt32} (hc : c.interval = some i) {rs : List (Round η μ)}
    (hrs : AllSteps (round coarse input) (Remembers c) s rs) {k : ℕ} (hok : s.timers.Ok)
    (hs : InRhythm i.toNat c s.timers.schedule k) :
    (run (round coarse input) s rs).timers.Ok ∧
      InRhythm i.toNat c (run (round coarse input) s rs).timers.schedule
        (k + timesFired coarse input c s rs) := by
  induction rs generalizing s k with
  | nil => exact ⟨hok, hs⟩
  | cons r rs ih =>
      obtain ⟨hok₁, hs₁⟩ := round_inRhythm hc hrs.1 hok hs
      rw [run_cons, timesFired, ← Nat.add_assoc]
      exact ih hrs.2 hok₁ hs₁

/-- **The calls of a handler count the time**, give or take one. -/
lemma timesFired_bounds {i : UInt32} (hc : c.interval = some i) {rs : List (Round η μ)}
    (hrs : AllSteps (round coarse input) (Remembers c) s rs) {k : ℕ} (hok : s.timers.Ok)
    (hs : InRhythm i.toNat c s.timers.schedule k) :
    let n := timesFired coarse input c s rs
    let clock := (run (round coarse input) s rs).timers.clock
    s.timers.clock + n * i.toNat ≤ clock + i.toNat ∧
      clock ≤ s.timers.clock + n * i.toNat + i.toNat := by
  intro n clock
  obtain ⟨hok', hs'⟩ := run_inRhythm hc hrs hok hs
  obtain ⟨hlo, hhi⟩ := hs.now_bounds hok.balanced
  obtain ⟨hlo', hhi'⟩ := hs'.now_bounds hok'.balanced
  have hlo : k * i.toNat ≤ s.timers.clock := hlo
  have hhi : s.timers.clock ≤ (k + 1) * i.toNat := hhi
  have hlo' : (k + n) * i.toNat ≤ clock := hlo'
  have hhi' : clock ≤ (k + n + 1) * i.toNat := hhi'
  simp only [Nat.add_mul, Nat.one_mul] at hhi hlo' hhi'
  constructor
  · omega
  · omega

lemma timeout_spares {h : Handler η} (hP : KeptFor c P) (hh : h ≠ c) (memp : Bool)
    (msecs : UInt32) (hs : P s.timers) : P (s.timeout memp msecs h).timers :=
  hP.timeout hh hs memp msecs

lemma timeout_self {i : UInt32} {memp : Bool} (hmemp : memp = true) {k : ℕ}
    (hs : s.timers.Ok ∧ OnBeat i.toNat c s.timers.schedule k) :
    (s.timeout memp i c).timers.Ok ∧ InRhythm i.toNat c (s.timeout memp i c).timers.schedule k := by
  have hstep : (s.timeout memp i c).timers = s.timers.step (.sysTimeout true i c) := by
    rw [timeout, hmemp]
  rw [hstep]
  refine ⟨hs.1.step _, ?_⟩
  rw [Timers.step_schedule hs.1.inRange]
  exact hs.2.again

/-- The first beat of every handler is set at the start. -/
lemma sysTimeoutsInit_inRhythm {i : UInt32} (hc : c.interval = some i) {memp : Handler η → Bool}
    (hmemp : memp c = true) (world : ω) :
    (sysTimeoutsInit memp world).timers.Ok ∧
      InRhythm i.toNat c (sysTimeoutsInit memp world).timers.schedule 0 := by
  have hstart : (Timers.initial : Timers (Handler η)).Ok ∧
      OnBeat i.toNat c (Timers.initial : Timers (Handler η)).schedule 0 :=
    ⟨Timers.initial_ok, rfl, rfl, (Nat.zero_mul _).symm⟩
  have hbefore : ∀ {s : Tcpip η ω} {h : Handler η} (memp : Bool) (msecs : UInt32), h ≠ c →
      s.timers.Ok ∧ OnBeat i.toNat c s.timers.schedule 0 →
      (s.timeout memp msecs h).timers.Ok ∧
        OnBeat i.toNat c (s.timeout memp msecs h).timers.schedule 0 :=
    fun memp msecs hh hs => timeout_spares Timers.keptFor_onBeat hh memp msecs hs
  have hbehind : ∀ {s : Tcpip η ω} {h : Handler η} (memp : Bool) (msecs : UInt32), h ≠ c →
      s.timers.Ok ∧ InRhythm i.toNat c s.timers.schedule 0 →
      (s.timeout memp msecs h).timers.Ok ∧
        InRhythm i.toNat c (s.timeout memp msecs h).timers.schedule 0 :=
    fun memp msecs hh hs => timeout_spares Timers.keptFor_inRhythm hh memp msecs hs
  have hself : ∀ {s : Tcpip η ω}, s.timers.Ok ∧ OnBeat i.toNat c s.timers.schedule 0 →
      (s.timeout (memp c) i c).timers.Ok ∧
        InRhythm i.toNat c (s.timeout (memp c) i c).timers.schedule 0 :=
    fun hs => timeout_self hmemp hs
  cases c with
  | arpTimer =>
      obtain rfl := Option.some.inj hc
      exact hbehind _ _ nofun (hbehind _ _ nofun (hbehind _ _ nofun (hbehind _ _ nofun
        (hself hstart))))
  | dhcpTimerCoarse =>
      obtain rfl := Option.some.inj hc
      exact hbehind _ _ nofun (hbehind _ _ nofun (hbehind _ _ nofun (hself
        (hbefore _ _ nofun hstart))))
  | dhcpTimerFine =>
      obtain rfl := Option.some.inj hc
      exact hbehind _ _ nofun (hbehind _ _ nofun (hself (hbefore _ _ nofun
        (hbefore _ _ nofun hstart))))
  | igmpTimer =>
      obtain rfl := Option.some.inj hc
      exact hbehind _ _ nofun (hself (hbefore _ _ nofun (hbefore _ _ nofun
        (hbefore _ _ nofun hstart))))
  | dnsTimer =>
      obtain rfl := Option.some.inj hc
      exact hself (hbefore _ _ nofun (hbefore _ _ nofun (hbefore _ _ nofun
        (hbefore _ _ nofun hstart))))
  | tcpipTcpTimer => cases hc
  | other h => cases hc

/-- **The rhythm of the thread.**  Whatever else is set, cancelled and waited for, a handler that
sets itself again is called each time its interval is over, exactly then and only then, for as long
as there is memory for it. -/
theorem cyclic_on_schedule {i : UInt32} (hc : c.interval = some i) {memp : Handler η → Bool}
    (hmemp : memp c = true) (world : ω) {rs : List (Round η μ)}
    (hrs : AllSteps (round coarse input) (Remembers c) (sysTimeoutsInit memp world) rs) :
    let s := run (round coarse input) (sysTimeoutsInit memp world) rs
    ∃ k, only c s.timers.called = (List.range k).map (fun j => ⟨(j + 1) * i.toNat, c⟩) ∧
      k * i.toNat ≤ s.timers.clock ∧ s.timers.clock ≤ (k + 1) * i.toNat := by
  obtain ⟨hok₀, hs₀⟩ := sysTimeoutsInit_inRhythm hc hmemp world
  obtain ⟨hok, hs⟩ := run_inRhythm hc hrs hok₀ hs₀
  exact ⟨_, hs.fired, hs.now_bounds hok.balanced⟩

/-- There always is memory. -/
lemma allSteps_remembers {rs : List (Round η μ)} (h : ∀ r ∈ rs, r.memp = true) (s : Tcpip η ω) :
    AllSteps (round coarse input) (Remembers c) s rs := by
  induction rs generalizing s with
  | nil => trivial
  | cons r rs ih =>
      exact ⟨fun _ => h r List.mem_cons_self, ih (fun r' hr => h r' (List.mem_cons_of_mem r hr)) _⟩

/-- The coarse timer of DHCP, while the thread waits for messages in vain. -/
theorem cyclic_on_schedule_waiting :
    let rs : List (Round Unit Unit) := List.replicate 40 ⟨sysArchTimeout, (), [], true⟩
    let s := run (round id fun w _ => w) (sysTimeoutsInit (fun _ => true) ()) rs
    ∃ k, only .dhcpTimerCoarse s.timers.called
        = (List.range k).map (fun j => ⟨(j + 1) * dhcpCoarseTimerMsecs.toNat, .dhcpTimerCoarse⟩) ∧
      k * dhcpCoarseTimerMsecs.toNat ≤ s.timers.clock ∧
      s.timers.clock ≤ (k + 1) * dhcpCoarseTimerMsecs.toNat :=
  cyclic_on_schedule (c := .dhcpTimerCoarse) rfl rfl ()
    (allSteps_remembers (fun r hr => by rw [List.eq_of_mem_replicate hr]) _)

/-! ### The timer of TCP -/

/-- The handler of TCP is to be called within its interval. -/
def TcpSet (s : Tcpip η ω) : Prop :=
  ∃ d, only .tcpipTcpTimer s.timers.pending = [⟨d, .tcpipTcpTimer⟩] ∧
    d ≤ s.timers.clock + tcpTmrInterval.toNat

/-- It is not to be called. -/
def TcpUnset (s : Tcpip η ω) : Prop := only .tcpipTcpTimer s.timers.pending = []

/-- **The flag is right**, and it is set while there are connections. -/
structure TcpRight (s : Tcpip η ω) : Prop where
  ok : s.timers.Ok
  active : s.tcpTimerActive = true → s.TcpSet
  inactive : s.tcpTimerActive = false → s.TcpUnset
  needed : s.pcbs ≠ 0 → s.tcpTimerActive = true

/-- While its handler runs, the flag is set, but the timeout is not. -/
structure TcpRunning (s : Tcpip η ω) : Prop where
  ok : s.timers.Ok
  active : s.tcpTimerActive = true
  unset : s.TcpUnset

/-- There is memory for the timer of TCP. -/
def TcpRemembers (s : Tcpip η ω) (r : Round η μ) : Prop :=
  (∀ memp alive, .tcpReg memp alive ∈ r.work → memp = true) ∧
    (s.timers.fired r.timeNeeded = some .tcpipTcpTimer → r.memp = true)

variable {r : Round η μ}

/-- The due time of the handler is the same, and no time is lost. -/
lemma TcpSet.congr {s' : Tcpip η ω} (hs : s.TcpSet)
    (h : only .tcpipTcpTimer s'.timers.pending = only .tcpipTcpTimer s.timers.pending)
    (hclock : s.timers.clock ≤ s'.timers.clock) : s'.TcpSet := by
  obtain ⟨d, hd, hle⟩ := hs
  exact ⟨d, h.trans hd, hle.trans (Nat.add_le_add_right hclock _)⟩

/-- **The handler is set.** -/
lemma tcpSet_timeout (hs : s.timers.Ok) (h : s.TcpUnset) :
    (s.timeout true tcpTmrInterval .tcpipTcpTimer).TcpSet := by
  refine ⟨s.timers.clock + tcpTmrInterval.toNat, ?_, le_rfl⟩
  have hschedule : (s.timeout true tcpTmrInterval .tcpipTcpTimer).timers.schedule
      = s.timers.schedule.step (.add tcpTmrInterval.toNat .tcpipTcpTimer) := by
    rw [timers_timeout, Timers.step_schedule hs.inRange]
    rfl
  have hpending : (s.timeout true tcpTmrInterval .tcpipTcpTimer).timers.schedule.pending
      = s.timers.schedule.pending.orderedInsert StrictlyBefore
          ⟨s.timers.clock + tcpTmrInterval.toNat, .tcpipTcpTimer⟩ := by
    rw [hschedule]
    exact due_add _ _ _ _
  show only _ (s.timeout true tcpTmrInterval .tcpipTcpTimer).timers.schedule.pending = _
  rw [hpending]
  exact only_orderedInsert_self _ h

lemma ok_timeout (hs : s.timers.Ok) (memp : Bool) (msecs : UInt32) (h : Handler η) :
    (s.timeout memp msecs h).timers.Ok := by
  rw [timers_timeout]
  exact hs.step _

/-- Calls about other handlers do not touch it. -/
lemma step_spares (hs : s.timers.Ok) (tc : TimerCall (Handler η))
    (htc : tc.Spares .tcpipTcpTimer) :
    (s.timers.step tc).Ok ∧
      only .tcpipTcpTimer (s.timers.step tc).pending = only .tcpipTcpTimer s.timers.pending ∧
      (s.timers.step tc).clock = s.timers.clock :=
  Timers.keptFor_pending _ _ s.timers tc htc ⟨hs, rfl, rfl⟩

lemma TcpRight.step (h : s.TcpRight) (tc : TimerCall (Handler η))
    (htc : tc.Spares .tcpipTcpTimer) : ({ s with timers := s.timers.step tc }).TcpRight := by
  obtain ⟨hok, hpending, hclock⟩ := step_spares h.ok tc htc
  exact ⟨hok, fun hactive => (h.active hactive).congr hpending hclock.ge,
    fun hinactive => hpending.trans (h.inactive hinactive), h.needed⟩

/-- **`tcp_timer_needed`** sets the flag together with the timeout. -/
lemma tcpTimerNeeded_right (hok : s.timers.Ok) (hactive : s.tcpTimerActive = true → s.TcpSet)
    (hinactive : s.tcpTimerActive = false → s.TcpUnset) : (s.tcpTimerNeeded true).TcpRight := by
  rw [tcpTimerNeeded]
  split_ifs with hneeded
  · have hunset : ({ s with tcpTimerActive := true } : Tcpip η ω).TcpUnset := hinactive hneeded.1
    exact ⟨ok_timeout hok _ _ _, fun _ => tcpSet_timeout hok hunset, nofun, fun _ => rfl⟩
  · refine ⟨hok, hactive, hinactive, fun hpcbs => ?_⟩
    cases hflag : s.tcpTimerActive with
    | true => rfl
    | false => exact absurd ⟨hflag, hpcbs⟩ hneeded

/-- **One call** keeps the flag right. -/
lemma TcpRight.call (h : s.TcpRight) {w : WorkCall η}
    (hw : ∀ memp alive, w = .tcpReg memp alive → memp = true) : (s.call w).TcpRight := by
  cases w with
  | sysTimeout memp msecs h' =>
      exact h.step (.sysTimeout memp msecs (.other h')) nofun
  | sysUntimeout h' =>
      exact h.step (.sysUntimeout (.other h')) nofun
  | tcpReg memp alive =>
      obtain rfl := hw memp alive rfl
      exact tcpTimerNeeded_right h.ok h.active h.inactive
  | tcpRmv =>
      refine ⟨h.ok, h.active, h.inactive, fun hpcbs => h.needed fun hzero => hpcbs ?_⟩
      simp [Tcpip.call, hzero]

lemma TcpRight.calls (h : s.TcpRight) {work : List (WorkCall η)}
    (hwork : ∀ memp alive, .tcpReg memp alive ∈ work → memp = true) :
    (s.calls work).TcpRight := by
  induction work generalizing s with
  | nil => exact h
  | cons w work ih =>
      refine ih (h.call fun memp alive hw => hwork memp alive (hw ▸ List.mem_cons_self))
        fun memp alive hw => hwork memp alive (List.mem_cons_of_mem w hw)

/-- **While the handler runs** nothing sets it. -/
lemma TcpRunning.calls (h : s.TcpRunning) (work : List (WorkCall η)) :
    (s.calls work).TcpRunning := by
  induction work generalizing s with
  | nil => exact h
  | cons w work ih =>
      refine ih (s := s.call w) ?_
      cases w with
      | sysTimeout memp msecs h' =>
          obtain ⟨hok, hpending, _⟩ :=
            step_spares h.ok (.sysTimeout memp msecs (.other h')) nofun
          exact ⟨hok, h.active, hpending.trans h.unset⟩
      | sysUntimeout h' =>
          obtain ⟨hok, hpending, _⟩ := step_spares h.ok (.sysUntimeout (.other h')) nofun
          exact ⟨hok, h.active, hpending.trans h.unset⟩
      | tcpReg memp alive =>
          rw [call, tcpTimerNeeded, if_neg (by simp [h.active])]
          exact ⟨h.ok, h.active, h.unset⟩
      | tcpRmv => exact ⟨h.ok, h.active, h.unset⟩

/-- **The handler of TCP** sets itself again, if there are connections. -/
lemma TcpRunning.tcpipTcpTimer (h : s.TcpRunning) (hmemp : r.memp = true) :
    (s.tcpipTcpTimer r).TcpRight := by
  have hrun := h.calls r.work
  simp only [Tcpip.tcpipTcpTimer, hmemp]
  split_ifs with hpcbs
  · exact ⟨ok_timeout hrun.ok _ _ _, fun _ => tcpSet_timeout hrun.ok hrun.unset,
      fun hinactive => absurd (hrun.active.symm.trans hinactive) (by decide), fun _ => hrun.active⟩
  · exact ⟨hrun.ok, nofun, fun _ => hrun.unset, fun h => absurd h hpcbs⟩

/-- **Other handlers** keep the flag right. -/
lemma TcpRight.handle (h : s.TcpRight) {h' : Handler η} (hh : h' ≠ .tcpipTcpTimer)
    (hwork : ∀ memp alive, .tcpReg memp alive ∈ r.work → memp = true) :
    (s.handle coarse r h').TcpRight := by
  have hcyclic : ∀ (interval : UInt32) (s : Tcpip η ω), s.TcpRight →
      (cyclicTimer interval h' r s).TcpRight :=
    fun interval s hs => (hs.calls hwork).step (.sysTimeout r.memp interval h') hh
  cases h' with
  | arpTimer => exact hcyclic _ s h
  | dhcpTimerCoarse =>
      exact hcyclic _ { s with world := coarse s.world } ⟨h.ok, h.active, h.inactive, h.needed⟩
  | dhcpTimerFine => exact hcyclic _ s h
  | igmpTimer => exact hcyclic _ s h
  | dnsTimer => exact hcyclic _ s h
  | tcpipTcpTimer => exact absurd rfl hh
  | other h' => exact h.calls hwork

/-- **One round** keeps the flag right. -/
lemma TcpRight.round (h : s.TcpRight) (hr : TcpRemembers s r) :
    (s.round coarse input r).TcpRight := by
  obtain ⟨hwork, hmemp⟩ := hr
  have hwaited : (s.timers.fetch r.timeNeeded).Ok := h.ok.step (.sysTimeoutsMboxFetch r.timeNeeded)
  have hclock : s.timers.clock ≤ (s.timers.fetch r.timeNeeded).clock := Nat.le_add_right _ _
  have hkept : only .tcpipTcpTimer (s.timers.fetch r.timeNeeded).pending
      = only .tcpipTcpTimer s.timers.pending →
      ({ s with timers := s.timers.fetch r.timeNeeded }).TcpRight := fun hsame =>
    ⟨hwaited, fun hactive => (h.active hactive).congr hsame hclock,
      fun hinactive => hsame.trans (h.inactive hinactive), h.needed⟩
  rcases s.timers.fetch_cases r.timeNeeded with ⟨t, rest, hl, hfired, hfetch⟩ | ⟨hfired, hfetch⟩
  · have hqueue : s.timers.schedule.queue = t.timed :: deltas rest := by
      simp [Timers.schedule, hl]
    have hpending : (s.timers.fetch r.timeNeeded).pending = s.timers.schedule.fire.pending :=
      congrArg Schedule.pending hfetch
    simp only [Tcpip.round, hfired]
    by_cases hself : t.h = .tcpipTcpTimer
    · -- the flag is set, or the timeout would not be in the list
      rw [SysTimeo.timed, hself] at hqueue
      obtain ⟨hfirst, _⟩ := only_fire_self hqueue
      have hactive : s.tcpTimerActive = true := by
        by_contra hinactive
        have hunset : only .tcpipTcpTimer s.timers.schedule.pending = [] :=
          h.inactive (Bool.eq_false_iff.mpr hinactive)
        rw [hunset] at hfirst
        cases hfirst
      obtain ⟨d, hd, _⟩ := h.active hactive
      have hone : only .tcpipTcpTimer s.timers.schedule.pending = [⟨d, .tcpipTcpTimer⟩] := hd
      rw [hone] at hfirst
      have hrun : ({ s with timers := s.timers.fetch r.timeNeeded }).TcpRunning :=
        ⟨hwaited, hactive, by
          rw [TcpUnset, hpending]
          exact (List.cons.inj hfirst).2.symm⟩
      rw [hself] at hfired ⊢
      exact hrun.tcpipTcpTimer (hmemp hfired)
    · refine (hkept ?_).handle hself hwork
      rw [hpending]
      exact (only_fire_of_ne hqueue hself).1
  · simp only [Tcpip.round, hfired]
    have hwait : only .tcpipTcpTimer (s.timers.fetch r.timeNeeded).pending
        = only .tcpipTcpTimer s.timers.pending := by
      have hpending := congrArg Schedule.pending hfetch
      exact congrArg (only _) (hpending.trans (due_elapse _ _ _))
    have hright := hkept hwait
    have hmessage : ({ s with
        timers := s.timers.fetch r.timeNeeded
        world := input s.world r.msg } : Tcpip η ω).TcpRight :=
      ⟨hright.ok, hright.active, hright.inactive, hright.needed⟩
    exact hmessage.calls hwork

/-- **The timer of TCP runs while it is needed.**  Whatever happens, the flag says whether the
handler of TCP is set; if it is, then once, and to be called within its interval; and it is set
whenever there are connections, as long as there is memory for it. -/
theorem tcp_timer_right (memp : Handler η → Bool) (world : ω) {rs : List (Round η μ)}
    (hrs : AllSteps (round coarse input) TcpRemembers (sysTimeoutsInit memp world) rs) :
    let s := run (round coarse input) (sysTimeoutsInit memp world) rs
    (s.tcpTimerActive = true → ∃ d, only .tcpipTcpTimer s.timers.pending = [⟨d, .tcpipTcpTimer⟩] ∧
      s.timers.clock ≤ d ∧ d ≤ s.timers.clock + 250) ∧
    (s.tcpTimerActive = false → only .tcpipTcpTimer s.timers.pending = []) ∧
    (s.pcbs ≠ 0 → s.tcpTimerActive = true) := by
  have hstart : (⟨.initial, false, 0, world⟩ : Tcpip η ω).TcpRight :=
    ⟨Timers.initial_ok, nofun, fun _ => rfl, fun h => absurd rfl h⟩
  have htimeout : ∀ {s : Tcpip η ω} {h : Handler η} (memp : Bool) (msecs : UInt32),
      h ≠ .tcpipTcpTimer → s.TcpRight → (s.timeout memp msecs h).TcpRight :=
    fun memp msecs hh hs => hs.step (.sysTimeout memp msecs _) hh
  have hinit : (sysTimeoutsInit memp world).TcpRight :=
    htimeout _ _ nofun (htimeout _ _ nofun (htimeout _ _ nofun (htimeout _ _ nofun
      (htimeout _ _ nofun hstart))))
  have hround : ∀ (s : Tcpip η ω) (r : Round η μ), s.TcpRight → TcpRemembers s r →
      (round coarse input s r).TcpRight := fun s r hs hr => hs.round hr
  have hright := run_invariant hround hinit hrs
  refine ⟨fun hactive => ?_, hright.inactive, hright.needed⟩
  obtain ⟨d, hd, hle⟩ := hright.active hactive
  have hmem : (⟨d, .tcpipTcpTimer⟩ : Timed (Handler η)) ∈ only .tcpipTcpTimer
      (run (round coarse input) (sysTimeoutsInit memp world) rs).timers.pending := by
    rw [hd]
    exact List.mem_cons_self
  exact ⟨d, hd, le_of_mem_due _ _ (List.mem_of_mem_filter hmem), hle⟩

/-- A connection is made, and the thread waits once. -/
theorem tcp_timer_right_connected :
    let rs : List (Round Unit Unit) :=
      [⟨10, (), [.tcpReg true true], true⟩, ⟨sysArchTimeout, (), [], true⟩]
    let s := run (round id fun w _ => w) (sysTimeoutsInit (fun _ => true) ()) rs
    (s.tcpTimerActive = true → ∃ d, only .tcpipTcpTimer s.timers.pending = [⟨d, .tcpipTcpTimer⟩] ∧
      s.timers.clock ≤ d ∧ d ≤ s.timers.clock + 250) ∧
    (s.tcpTimerActive = false → only .tcpipTcpTimer s.timers.pending = []) ∧
    (s.pcbs ≠ 0 → s.tcpTimerActive = true) := by
  refine tcp_timer_right (fun _ => true) () ⟨⟨fun memp alive hreg => ?_, fun _ => rfl⟩,
    ⟨fun memp alive hreg => ?_, fun _ => rfl⟩, trivial⟩
  · cases List.mem_singleton.mp hreg
    rfl
  · cases hreg

end Tcpip

end Chooser
