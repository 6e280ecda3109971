import Chooser.Dhcps.Protocol
import Chooser.Timers

/-!
# Leases by the clock

The access point counts its leases down in `dhcps_coarse_tmr`, which the TCP/IP thread calls from
one of its timeouts, once a second.  The messages for the access point come to the same thread.

So a lease that was granted for some seconds lasts as long by the clock of the thread, give or take
one second (`lease_lasts`, `lease_ends`), whatever else the thread has to do, and as long as there
is memory for the timeout.
-/

namespace Chooser

open CStr Ip4 Machine DeltaList

/-! ## The thread of the access point -/

/-- A message for the access point. -/
abbrev ApMessage := {e : ApEvent // e ≠ .coarseTmr}

/-- A round of the thread; `none` is a message that is not about the access point. -/
abbrev ApRound (η : Type*) := Round η (Option ApMessage)

def apInput (s : TcpipAdapter) (m : Option ApMessage) : TcpipAdapter :=
  match m with
  | some e => s.step e.1
  | none => s

namespace Tcpip

variable {η : Type*} [DecidableEq η]

def apRound (s : Tcpip η TcpipAdapter) (r : ApRound η) : Tcpip η TcpipAdapter :=
  s.round TcpipAdapter.coarseTmr apInput r

/-- What the access point is told in a round. -/
def told (s : Tcpip η TcpipAdapter) (r : ApRound η) : List ApEvent :=
  match s.timers.fired r.timeNeeded with
  | some .dhcpTimerCoarse => [.coarseTmr]
  | some _ => []
  | none => (r.msg.map Subtype.val).toList

/-- What it is told in a run. -/
def heard : Tcpip η TcpipAdapter → List (ApRound η) → List ApEvent
  | _, [] => []
  | s, r :: rs => s.told r ++ heard (s.apRound r) rs

/-- **A state that the thread reaches**, from its start on, if there always was memory for the
timeout, and the addresses that were configured leave out the last one of the network. -/
def Reached (s : Tcpip η TcpipAdapter) : Prop :=
  ∃ (memp : Handler η → Bool) (rs : List (ApRound η)),
    let start := sysTimeoutsInit memp TcpipAdapter.initial
    memp .dhcpTimerCoarse = true ∧ AllSteps apRound (Remembers .dhcpTimerCoarse) start rs ∧
      (∀ e ∈ heard start rs, e.Proper) ∧ s = run apRound start rs

variable {s : Tcpip η TcpipAdapter} {r : ApRound η} {rs : List (ApRound η)}

/-! ### What the access point does -/

lemma world_calls {ω : Type*} (s : Tcpip η ω) (work : List (WorkCall η)) :
    (s.calls work).world = s.world := by
  induction work generalizing s with
  | nil => rfl
  | cons w work ih =>
      refine (ih (s.call w)).trans ?_
      cases w with
      | sysTimeout memp msecs h => rfl
      | sysUntimeout h => rfl
      | tcpReg memp alive =>
          simp only [call, tcpTimerNeeded]
          split_ifs <;> rfl
      | tcpRmv => rfl

lemma world_cyclicTimer {ω μ : Type*} (interval : UInt32) (h : Handler η) (r : Round η μ)
    (s : Tcpip η ω) : (cyclicTimer interval h r s).world = s.world := world_calls s r.work

/-- **One round** of the thread is what the access point is told. -/
lemma world_apRound (s : Tcpip η TcpipAdapter) (r : ApRound η) :
    (s.apRound r).world = s.world.run (s.told r) := by
  rw [apRound, round, told]
  cases s.timers.fired r.timeNeeded with
  | none =>
      refine (world_calls _ r.work).trans ?_
      cases r.msg with
      | none => rfl
      | some e => rfl
  | some h =>
      cases h with
      | arpTimer => exact world_cyclicTimer _ _ _ _
      | dhcpTimerCoarse => exact world_cyclicTimer _ _ _ _
      | dhcpTimerFine => exact world_cyclicTimer _ _ _ _
      | igmpTimer => exact world_cyclicTimer _ _ _ _
      | dnsTimer => exact world_cyclicTimer _ _ _ _
      | tcpipTcpTimer =>
          simp only [handle, tcpipTcpTimer]
          split_ifs
          · exact world_calls _ r.work
          · exact world_calls _ r.work
      | other h => exact world_calls _ r.work

/-- **A run** of the thread is what the access point hears. -/
lemma world_run (s : Tcpip η TcpipAdapter) (rs : List (ApRound η)) :
    (run apRound s rs).world = s.world.run (heard s rs) := by
  induction rs generalizing s with
  | nil => rfl
  | cons r rs ih =>
      rw [run_cons, ih, world_apRound, heard, TcpipAdapter.run, TcpipAdapter.run,
        TcpipAdapter.run, List.foldl_append]

lemma ApMessage.seconds_eq (e : ApMessage) : e.1.seconds = 0 := by
  obtain ⟨e, he⟩ := e
  cases e with
  | coarseTmr => exact absurd rfl he
  | _ => rfl

/-- A round tells a second if the handler is called. -/
lemma seconds_told (s : Tcpip η TcpipAdapter) (r : ApRound η) :
    seconds (s.told r) = if s.timers.fired r.timeNeeded = some .dhcpTimerCoarse then 1 else 0 := by
  rw [told]
  cases s.timers.fired r.timeNeeded with
  | none =>
      rw [if_neg nofun]
      cases r.msg with
      | none => rfl
      | some e => exact ApMessage.seconds_eq e
  | some h =>
      cases h with
      | dhcpTimerCoarse => rfl
      | _ => exact (if_neg nofun).symm

/-- The seconds that the access point hears are the calls of the handler. -/
lemma seconds_heard (s : Tcpip η TcpipAdapter) (rs : List (ApRound η)) :
    seconds (heard s rs)
      = timesFired TcpipAdapter.coarseTmr apInput .dhcpTimerCoarse s rs := by
  induction rs generalizing s with
  | nil => rfl
  | cons r rs ih =>
      have hsum : seconds (s.told r ++ heard (s.apRound r) rs)
          = seconds (s.told r) + seconds (heard (s.apRound r) rs) := by
        simp [seconds]
      rw [heard, hsum, ih, seconds_told]
      rfl

/-! ### The clock -/

/-- What is true of a state that the thread reaches. -/
structure Ticking (s : Tcpip η TcpipAdapter) : Prop where
  world : s.world.Ok
  below : s.world.dhcps.dhcpsPoll.Below
  timers : s.timers.Ok
  inRhythm : ∃ k, InRhythm dhcpCoarseTimerMsecs.toNat .dhcpTimerCoarse s.timers.schedule k

lemma Reached.ticking (hs : s.Reached) : s.Ticking := by
  obtain ⟨memp, rs, hmemp, hrs, hproper, rfl⟩ := hs
  obtain ⟨hok₀, hs₀⟩ := sysTimeoutsInit_inRhythm (i := dhcpCoarseTimerMsecs) rfl hmemp
    TcpipAdapter.initial
  obtain ⟨hok, hk⟩ := run_inRhythm rfl hrs hok₀ hs₀
  refine ⟨?_, ?_, hok, _, hk⟩ <;> rw [world_run]
  · exact TcpipAdapter.initial_run_ok hproper
  · exact TcpipAdapter.below_run TcpipAdapter.initial_below hproper

/-- A round with a message. -/
lemma Ticking.message (hs : s.Ticking) (hr : s.timers.fired r.timeNeeded = none)
    {e : ApMessage} (he : r.msg = some e) (hproper : e.1.Proper) :
    (s.apRound r).Ticking ∧ (s.apRound r).world = s.world.step e.1 := by
  have hworld : (s.apRound r).world = s.world.step e.1 := by
    rw [world_apRound, told, hr, he]
    rfl
  have hremembers : Remembers .dhcpTimerCoarse s r := fun h => by
    rw [hr] at h
    cases h
  obtain ⟨k, hk⟩ := hs.inRhythm
  obtain ⟨hok', hk'⟩ := round_inRhythm rfl hremembers hs.timers hk
  refine ⟨⟨?_, ?_, hok', _, hk'⟩, hworld⟩ <;> rw [hworld]
  · exact hs.world.step hs.below e.1
  · exact TcpipAdapter.below_step hs.below hproper

/-- **The seconds that the access point hears are those of the clock**, give or take one. -/
lemma Ticking.seconds_bounds (hs : s.Ticking)
    (hrs : AllSteps apRound (Remembers .dhcpTimerCoarse) s rs) :
    s.timers.clock + seconds (heard s rs) * 1000 ≤ (run apRound s rs).timers.clock + 1000 ∧
      (run apRound s rs).timers.clock ≤ s.timers.clock + seconds (heard s rs) * 1000 + 1000 := by
  obtain ⟨k, hk⟩ := hs.inRhythm
  rw [seconds_heard]
  exact timesFired_bounds rfl hrs hs.timers hk

/-! ## Leases -/

variable {p : Datagram} {reply : Reply} {a : Ip4}

/-- The thread gets this datagram, which is for the access point. -/
def Gets (s : Tcpip η TcpipAdapter) (r : ApRound η) (p : Datagram) : Prop :=
  s.timers.fired r.timeNeeded = none ∧ r.msg = some ⟨.udpInput p, nofun⟩

/-- **A lease lasts.**  A station is granted an address.  Up to a second before its time is over, by
the clock of the thread, the address is its own, whatever else happens except what ends leases. The
addresses that were configured before (`Reached`) leave out the last one of the network. -/
theorem lease_lasts (hs : s.Reached) (hr : s.Gets r p)
    (hreply : (s.world.udpInput p).2 = some reply) (hgrants : reply.Grants a)
    (hrs : AllSteps apRound (Remembers .dhcpTimerCoarse) (s.apRound r) rs)
    (hspared : TcpipAdapter.Spared p.message.mac (s.apRound r).world (heard (s.apRound r) rs))
    (htime : (run apRound (s.apRound r) rs).timers.clock + 1000
      < (s.apRound r).timers.clock + reply.leaseSeconds * 1000) :
    dhcpSearchIpOnMac (run apRound (s.apRound r) rs).world.dhcps p.message.mac = some a := by
  obtain ⟨hticking, hworld⟩ := hs.ticking.message hr.1 hr.2 trivial
  obtain ⟨hseconds, _⟩ := hticking.seconds_bounds hrs
  have hgranted := hs.ticking.world.granted hreply hgrants
  have hworld : (s.apRound r).world = (s.world.udpInput p).1 := hworld
  rw [hworld] at hspared
  obtain ⟨_, _, l, hl, rfl⟩ := hs.ticking.world.kept_from_grant hgranted hspared (by omega)
  have hentry : (run apRound (s.apRound r) rs).world.dhcps.table p.message.mac = some l := by
    rw [world_run, hworld]
    exact hl
  rw [TcpipAdapter.dhcpSearchIpOnMac_eq, hentry]
  rfl

/-! ### The first station -/

/-- The thread of the first start, with one timeout. -/
def firstThread : Tcpip Unit TcpipAdapter :=
  run apRound (sysTimeoutsInit (fun h => h = .dhcpTimerCoarse) TcpipAdapter.initial)
    [⟨1, some ⟨.start true (some TcpipAdapter.initial.espIp) true, nofun⟩, [], true⟩]

/-- The first station looks for an address. -/
def firstRound : ApRound Unit := ⟨1, some ⟨.udpInput (stationDiscover 1), nofun⟩, [], true⟩

/-- No message comes until the timeout. -/
def tick : ApRound Unit := ⟨sysArchTimeout, none, [], true⟩

lemma firstThread_reached : firstThread.Reached :=
  ⟨fun h => h = .dhcpTimerCoarse, _, rfl, allSteps_remembers (fun r hr => by
    rw [List.mem_singleton.mp hr]) _, fun e he => by
    rw [List.mem_singleton.mp he]
    trivial, rfl⟩

lemma firstThread_world : firstThread.world = accessPoint := world_run _ _

lemma firstRound_gets : firstThread.Gets firstRound (stationDiscover 1) := ⟨rfl, rfl⟩

lemma firstRound_world :
    (firstThread.apRound firstRound).world = (accessPoint.udpInput (stationDiscover 1)).1 := by
  rw [world_apRound, firstThread_world]
  rfl

lemma remembers_ticks (s : Tcpip Unit TcpipAdapter) (n : ℕ) :
    AllSteps apRound (Remembers .dhcpTimerCoarse) s (List.replicate n tick) :=
  allSteps_remembers (fun r hr => by
    rw [List.eq_of_mem_replicate hr]
    rfl) s

/-- One tick. -/
lemma apRound_tick {s : Tcpip Unit TcpipAdapter} {d : UInt32}
    (h : s.timers.nextTimeout = [⟨d, .dhcpTimerCoarse⟩]) :
    s.told tick = [.coarseTmr] ∧ (s.apRound tick).timers.clock = s.timers.clock + d.toNat ∧
      (s.apRound tick).timers.nextTimeout = [⟨1000, .dhcpTimerCoarse⟩] := by
  have hfetch : sysTimeoutsMboxFetch sysArchTimeout s.timers.nextTimeout
      = ([], some .dhcpTimerCoarse) := by
    rw [h]
    simp [sysTimeoutsMboxFetch]
  have hfired : s.timers.fired tick.timeNeeded = some .dhcpTimerCoarse := congrArg Prod.snd hfetch
  have hslack : slack sysArchTimeout.toNat (deltas s.timers.nextTimeout) = d.toNat := by
    have hmax : sysArchTimeout.toNat = 2 ^ 32 - 1 := rfl
    have hlt := d.toNat_lt
    rw [h, deltas_cons, slack, SysTimeo.timed, hmax]
    dsimp only
    omega
  refine ⟨by rw [told, hfired], ?_, ?_⟩
  · simp only [apRound, round, hfired]
    exact congrArg (s.timers.clock + ·) hslack
  · have hnext : (s.timers.fetch tick.timeNeeded).nextTimeout = [] := congrArg Prod.fst hfetch
    simp only [apRound, round, hfired]
    show sysTimeout true 1000 .dhcpTimerCoarse (s.timers.fetch tick.timeNeeded).nextTimeout = _
    rw [hnext]
    rfl

/-- Many of them. -/
lemma run_ticks (n : ℕ) {s : Tcpip Unit TcpipAdapter}
    (h : s.timers.nextTimeout = [⟨1000, .dhcpTimerCoarse⟩]) :
    heard s (List.replicate n tick) = List.replicate n .coarseTmr ∧
      (run apRound s (List.replicate n tick)).timers.clock = s.timers.clock + n * 1000 := by
  induction n generalizing s with
  | zero => exact ⟨rfl, rfl⟩
  | succ n ih =>
      obtain ⟨htold, hclock, hnext⟩ := apRound_tick h
      obtain ⟨hheard, hrun⟩ := ih hnext
      refine ⟨?_, ?_⟩
      · rw [List.replicate_succ, heard, htold, hheard]
        rfl
      · rw [List.replicate_succ, run_cons, hrun, hclock, Nat.succ_mul]
        have hms : (1000 : UInt32).toNat = 1000 := rfl
        omega

/-- A second later the first station has its address. -/
theorem lease_lasts_second :
    dhcpSearchIpOnMac (run apRound (firstThread.apRound firstRound) [tick]).world.dhcps
      (stationDiscover 1).message.mac = some (.ofBytes 192 168 4 2) := by
  obtain ⟨r, hr, hgrants, htime⟩ := accessPoint_offers
  have hclock : (firstThread.apRound firstRound).timers.clock = 2 := rfl
  obtain ⟨htold, hnext, _⟩ := apRound_tick (s := firstThread.apRound firstRound) (d := 998) rfl
  have hheard : heard (firstThread.apRound firstRound) [tick] = [.coarseTmr] := by
    rw [heard, htold]
    rfl
  refine lease_lasts firstThread_reached firstRound_gets (firstThread_world ▸ hr) hgrants
    (remembers_ticks _ 1) ?_ ?_
  · rw [hheard, firstRound_world]
    exact accessPoint_spared
  · rw [run_cons, run_nil, hnext, hclock, htime]
    decide

/-- **A lease ends.**  A station is granted an address and falls silent.  From a second after the
time that the access point has for leases, by the clock of the thread, the station has no address.
The addresses that are configured, before (`Reached`) or after, leave out the last one of the
network. -/
theorem lease_ends (hs : s.Reached) (hr : s.Gets r p)
    (hreply : (s.world.udpInput p).2 = some reply) (hgrants : reply.Grants a)
    (hrs : AllSteps apRound (Remembers .dhcpTimerCoarse) (s.apRound r) rs)
    (hproper : ∀ e ∈ heard (s.apRound r) rs, e.Proper)
    (hsilent : ∀ e ∈ heard (s.apRound r) rs, ¬ e.IsFrom p.message.mac)
    (htime : (s.apRound r).timers.clock + s.world.dhcps.duration * 1000 + 1000
      ≤ (run apRound (s.apRound r) rs).timers.clock) :
    dhcpSearchIpOnMac (run apRound (s.apRound r) rs).world.dhcps p.message.mac = none := by
  obtain ⟨hticking, hworld⟩ := hs.ticking.message hr.1 hr.2 trivial
  obtain ⟨_, hseconds⟩ := hticking.seconds_bounds hrs
  have hgranted := hs.ticking.world.granted hreply hgrants
  have hworld : (s.apRound r).world = (s.world.udpInput p).1 := hworld
  have hnone : (run apRound (s.apRound r) rs).world.dhcps.table p.message.mac = none := by
    rw [world_run, hworld]
    exact hs.ticking.world.expired_from_grant hs.ticking.below hgranted hproper hsilent (by omega)
  rw [TcpipAdapter.dhcpSearchIpOnMac_eq, hnone]
  rfl

/-- After two hours and two seconds the first station has none. -/
theorem lease_ends_two_hours :
    dhcpSearchIpOnMac (run apRound (firstThread.apRound firstRound)
      (List.replicate 7202 tick)).world.dhcps (stationDiscover 1).message.mac = none := by
  obtain ⟨r, hr, hgrants, _⟩ := accessPoint_offers
  have hclock : (firstThread.apRound firstRound).timers.clock = 2 := rfl
  obtain ⟨htold, hfirst, hnext⟩ :=
    apRound_tick (s := firstThread.apRound firstRound) (d := 998) rfl
  obtain ⟨hheard, hrun⟩ := run_ticks 7201 hnext
  have hall : ∀ e ∈ heard (firstThread.apRound firstRound) (List.replicate 7202 tick),
      e = .coarseTmr := by
    intro e he
    rw [List.replicate_succ, heard, htold, hheard] at he
    rcases List.mem_append.mp he with he | he
    · exact List.mem_singleton.mp he
    · exact List.eq_of_mem_replicate he
  refine lease_ends firstThread_reached firstRound_gets (firstThread_world ▸ hr) hgrants
    (remembers_ticks _ 7202) (fun e he => ?_) (fun e he => ?_) ?_
  · rw [hall e he]
    trivial
  · rw [hall e he]
    rintro ⟨p, hp, _⟩
    cases hp
  · have hduration : firstThread.world.dhcps.duration = 7200 := by
      rw [firstThread_world]
      decide
    rw [List.replicate_succ, run_cons, hrun, hfirst, hclock, hduration]
    decide

end Tcpip

end Chooser
