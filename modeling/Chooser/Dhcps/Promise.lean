import Chooser.Dhcps.Invariant

/-!
# The promise of a lease

An offer and an acknowledgement say for how many seconds the address belongs to the station.  The
access point keeps this promise whatever happens meanwhile: other stations come and go, the
configuration is changed as far as that is possible while the server runs, and time passes.  Only
three things end a lease early: the station releases it, the server is stopped, or there are as many
leases as stations may join.

The access point refines the table of leases (`step_refines`, `run_refines`), and the promise is
that of the table, for one step (`step_kept`) and for a run (`run_kept`).
-/

namespace Chooser

open CStr Ip4 LeaseTable

def TcpipAdapter.table (s : TcpipAdapter) : Table Mac Ip4 := s.dhcps.table

def ApEvent.seconds : ApEvent → ℕ
  | .coarseTmr => 1
  | _ => 0

/-- The seconds that pass in a run. -/
def seconds (es : List ApEvent) : ℕ := (es.map ApEvent.seconds).sum

/-- The event is a message of this station. -/
def ApEvent.IsFrom (e : ApEvent) (mac : Mac) : Prop := ∃ p, e = .udpInput p ∧ p.message.mac = mac

/-! ## The access point refines the table of leases -/

/-- Only a station itself is given a lease. -/
def Caused (e : ApEvent) : Act Mac Ip4 → Prop
  | .hold mac _ _ => e.IsFrom mac
  | .drop _ => True
  | .tick => True

namespace TcpipAdapter

variable {s : TcpipAdapter}

/-- The calls leave the leases alone, or take all of them. -/
lemma step_plist (s : TcpipAdapter) {e : ApEvent} (hudp : ∀ p, e ≠ .udpInput p)
    (htmr : e ≠ .coarseTmr) :
    (s.step e).dhcps.plist = s.dhcps.plist ∨
      (s.step e).dhcps.plist = [] ∧ (e = .stop ∨ e = .dhcpsStop) := by
  have hturn := s.turn_step e
  generalize s.step e = s' at hturn ⊢
  cases hturn with
  | goesOn server status =>
      generalize s'.dhcps = d at server ⊢
      cases server with
      | same => exact Or.inl rfl
      | setDns ip => exact Or.inl rfl
      | served p gw => exact absurd rfl (hudp p)
      | second => exact absurd rfl htmr
  | configured idle status plist poll => exact Or.inl plist
  | starts ip idle server =>
      rw [server]
      exact Or.inl rfl
  | stops call status server =>
      rw [server]
      exact Or.inr ⟨rfl, call⟩

/-- Without a server there are no leases. -/
lemma Stands.table_of_idle (hs : s.Stands) (h : s.dhcpsStatus ≠ .started) :
    s.table = fun _ => none := by
  rw [table, Dhcps.table, (hs.idle h).1]
  rfl

/-- What a datagram does to the table. -/
lemma Ok.udpInput_refines (hs : s.Ok) (p : Datagram) :
    ∃ xs, Legal s.table xs ∧ (s.udpInput p).1.table = LeaseTable.run s.table xs ∧ ticks xs = 0 ∧
      ∀ x ∈ xs, Caused (.udpInput p) x := by
  by_cases hstarted : s.dhcpsStatus = .started
  · rw [hs.udpInput_eq hstarted]
    have hok := hs.leases hstarted
    by_cases hp : p.Reaches
    · obtain ⟨_, hserved⟩ := Dhcps.parseMsg_spec hok p.behind (p.totLen - 240) hp.2.2
      have hcaused : ∀ a n, Caused (.udpInput p) (.hold p.message.mac a n) :=
        fun a n => ⟨p, rfl, rfl⟩
      rw [Dhcps.handleDhcp_of_reaches _ _ hp]
      generalize s.dhcps.parseMsg p.message p.behind (p.totLen - 240) = o at hserved
      obtain ⟨d, ret⟩ := o
      cases hserved with
      | leased a renew contains ne allows renew_iff wish kept client htable =>
          refine ⟨[.hold p.message.mac a s.dhcps.duration], ⟨allows, trivial⟩, htable, rfl,
            fun x hx => ?_⟩
          rw [List.mem_singleton.mp hx]
          exact hcaused _ _
      | dropped a contains allows htable answer =>
          refine ⟨[.hold p.message.mac a s.dhcps.duration, .drop p.message.mac],
            ⟨allows, trivial, trivial⟩, htable, rfl, fun x hx => ?_⟩
          rcases List.mem_cons.mp hx with rfl | hx
          · exact hcaused _ _
          · rw [List.mem_singleton.mp hx]
            trivial
      | full unknown all refused htable => exact ⟨[], trivial, htable, rfl, by simp⟩
    · rw [Dhcps.handleDhcp_of_not_reaches _ _ hp]
      exact ⟨[], trivial, rfl, rfl, by simp⟩
  · rw [hs.udpInput_idle hstarted]
    exact ⟨[], trivial, rfl, rfl, by simp⟩

/-- What a second does to the table. -/
lemma Ok.coarseTmr_refines (hs : s.Ok) :
    ∃ xs, Legal s.table xs ∧ s.coarseTmr.table = LeaseTable.run s.table xs ∧ ticks xs = 1 ∧
      ∀ x ∈ xs, Caused .coarseTmr x := by
  by_cases hstarted : s.dhcpsStatus = .started
  · obtain ⟨_, ⟨_, htable⟩ | ⟨pre, before, q, after, _, _, _, _, htable⟩⟩ :=
      Dhcps.dhcpsCoarseTmr_spec (hs.leases hstarted)
    · exact ⟨[.tick], ⟨trivial, trivial⟩, htable, rfl, fun x hx => by
        rw [List.mem_singleton.mp hx]
        trivial⟩
    · refine ⟨[.tick, .drop q.mac], ⟨trivial, trivial, trivial⟩, htable, rfl, fun x hx => ?_⟩
      rcases List.mem_cons.mp hx with rfl | hx
      · trivial
      · rw [List.mem_singleton.mp hx]
        trivial
  · refine ⟨[.tick], ⟨trivial, trivial⟩, ?_, rfl, fun x hx => by
      rw [List.mem_singleton.mp hx]
      trivial⟩
    rw [hs.coarseTmr_idle hstarted, hs.table_of_idle hstarted]
    rfl

/-- **Every step is a legal run of the table of leases.** -/
theorem Ok.step_refines (hs : s.Ok) (e : ApEvent) :
    ∃ xs, Legal s.table xs ∧ (s.step e).table = LeaseTable.run s.table xs ∧ ticks xs = e.seconds ∧
      ∀ x ∈ xs, Caused e x := by
  by_cases hudp : ∃ p, e = .udpInput p
  · obtain ⟨p, rfl⟩ := hudp
    exact hs.udpInput_refines p
  · by_cases htmr : e = .coarseTmr
    · subst htmr
      exact hs.coarseTmr_refines
    · have hseconds : e.seconds = 0 := by
        cases e <;> first | rfl | exact absurd rfl htmr
      rw [hseconds]
      rcases step_plist s (fun p h => hudp ⟨p, h⟩) htmr with hsame | ⟨hnone, _⟩
      · refine ⟨[], trivial, ?_, rfl, by simp⟩
        rw [table, Dhcps.table, hsame]
        rfl
      · -- all leases are dropped
        refine ⟨(s.dhcps.plist.map DhcpsPool.mac).map .drop, legal_drops _ _, ?_, ticks_drops _,
          fun x hx => ?_⟩
        · refine funext fun mac => ?_
          rw [run_drops, table, Dhcps.table, hnone]
          split_ifs with hmem
          · rfl
          · refine (tableOf_eq_none_iff.mpr fun p hp heq => hmem ?_).symm
            exact List.mem_map.mpr ⟨p, hp, heq⟩
        · obtain ⟨mac, _, rfl⟩ := List.mem_map.mp hx
          trivial

/-- **Every run is a legal run of the table of leases**, with as many ticks as seconds. -/
theorem Ok.run_refines (hs : s.Ok) (hbelow : s.dhcps.dhcpsPoll.Below) {es : List ApEvent}
    (hes : ∀ e ∈ es, e.Proper) :
    ∃ xs, Legal s.table xs ∧ (s.run es).table = LeaseTable.run s.table xs ∧
      ticks xs = seconds es ∧ ∀ x ∈ xs, ∃ e ∈ es, Caused e x := by
  induction es generalizing s with
  | nil => exact ⟨[], trivial, rfl, rfl, by simp⟩
  | cons e es ih =>
      obtain ⟨xs, hlegal, htable, hticks, hcaused⟩ := hs.step_refines e
      obtain ⟨ys, hlegal', htable', hticks', hcaused'⟩ :=
        ih (hs.step hbelow e) (below_step hbelow (hes e List.mem_cons_self)) fun x hx =>
          hes x (List.mem_cons_of_mem e hx)
      refine ⟨xs ++ ys, legal_append.mpr ⟨hlegal, htable ▸ hlegal'⟩, ?_, ?_, fun x hx => ?_⟩
      · rw [run_append, ← htable]
        exact htable'
      · rw [ticks_append, hticks, hticks']
        rfl
      · rcases List.mem_append.mp hx with hx | hx
        · exact ⟨e, List.mem_cons_self, hcaused x hx⟩
        · obtain ⟨e', he', hx⟩ := hcaused' x hx
          exact ⟨e', List.mem_cons_of_mem e he', hx⟩

/-! ## While the server runs -/

/-- What a step may not do, if the lease of the station is to be kept. -/
def Spares (mac : Mac) (s : TcpipAdapter) : ApEvent → Prop
  | .stop => False
  | .dhcpsStop => False
  | .udpInput p => p.message.mac = mac → p.msgType ≠ dhcpRelease
  | .coarseTmr => (decrementTimers s.dhcps.plist).length < maxStationNum
  | _ => True

/-- A run of such steps. -/
def Spared (mac : Mac) : TcpipAdapter → List ApEvent → Prop
  | _, [] => True
  | s, e :: es => s.Spares mac e ∧ Spared mac (s.step e) es

lemma Spares.ne_stop {mac : Mac} {e : ApEvent} (h : s.Spares mac e) : e ≠ .stop := by
  rintro rfl
  exact h

lemma Spares.ne_dhcpsStop {mac : Mac} {e : ApEvent} (h : s.Spares mac e) : e ≠ .dhcpsStop := by
  rintro rfl
  exact h

/-- **The server goes on**, with the same lease time, unless it is stopped. -/
lemma Ok.step_running (hs : s.Ok) (h : s.dhcpsStatus = .started) {mac : Mac} {e : ApEvent}
    (he : s.Spares mac e) :
    (s.step e).Ok ∧ (s.step e).dhcpsStatus = .started ∧
      (s.step e).dhcps.duration = s.dhcps.duration := by
  obtain ⟨hok, hstarted⟩ := hs.step_of_started h he.ne_stop he.ne_dhcpsStop
  obtain ⟨d, heq, hgoes⟩ := hs.toStands.step_of_started h he.ne_stop he.ne_dhcpsStop
  refine ⟨hok, hstarted, ?_⟩
  rw [heq]
  exact hgoes.duration

/-! ## A lease is kept -/

/-- A datagram spares a lease that the station does not release. -/
lemma Ok.udpInput_kept (hs : s.Ok) {mac : Mac} {p : Datagram}
    (hrelease : p.message.mac = mac → p.msgType ≠ dhcpRelease) {l : Lease Ip4}
    (hl : s.table mac = some l) (hne : l.item ≠ 0) {N : ℕ} (hN : N ≤ l.left)
    (hduration : N ≤ s.dhcps.duration) (hpos : 0 < N) :
    ∃ l', (s.udpInput p).1.table mac = some l' ∧ l'.item = l.item ∧ N ≤ l'.left := by
  have hsame : ∃ l', s.table mac = some l' ∧ l'.item = l.item ∧ N ≤ l'.left := ⟨l, hl, rfl, hN⟩
  by_cases hstarted : s.dhcpsStatus = .started
  · rw [hs.udpInput_eq hstarted]
    have hok := hs.leases hstarted
    by_cases hp : p.Reaches
    · obtain ⟨_, hserved⟩ := Dhcps.parseMsg_spec hok p.behind (p.totLen - 240) hp.2.2
      rw [Dhcps.handleDhcp_of_reaches _ _ hp]
      generalize s.dhcps.parseMsg p.message p.behind (p.totLen - 240) = o at hserved
      obtain ⟨d, ret⟩ := o
      show ∃ l', d.table mac = some l' ∧ l'.item = l.item ∧ N ≤ l'.left
      dsimp only at hserved
      cases hserved with
      | leased a renew contains ne allows renew_iff wish kept client htable =>
          have hspares : ∀ x ∈ [Act.hold p.message.mac a s.dhcps.duration],
              LeaseTable.Spares mac N x := by
            intro x hx
            rw [List.mem_singleton.mp hx]
            exact fun _ => hduration
          have hlegal : Legal s.table [.hold p.message.mac a s.dhcps.duration] := ⟨allows, trivial⟩
          rw [htable]
          exact kept_run hl hlegal hspares hN hpos
      | dropped a contains allows htable answer =>
          -- the lease of another station: that of this one is not of the address 0
          have hother : p.message.mac ≠ mac := by
            intro hmac
            rcases answer with ⟨renew, _, hwish⟩ | ⟨_, hzero⟩
            · exact hrelease hmac (Datagram.wish_eq_release_iff.mp hwish)
            · exact hne ((allows.1 l (hmac ▸ hl)).trans hzero)
          have hspares : ∀ x ∈ [Act.hold p.message.mac a s.dhcps.duration, .drop p.message.mac],
              LeaseTable.Spares mac N x := by
            intro x hx
            rcases List.mem_cons.mp hx with rfl | hx
            · exact fun h => absurd h hother
            · rw [List.mem_singleton.mp hx]
              exact hother
          have hlegal : Legal s.table
              [.hold p.message.mac a s.dhcps.duration, .drop p.message.mac] :=
            ⟨allows, trivial, trivial⟩
          rw [htable]
          exact kept_run hl hlegal hspares hN hpos
      | full unknown all refused htable =>
          rw [htable]
          exact hsame
    · rw [Dhcps.handleDhcp_of_not_reaches _ _ hp]
      exact hsame
  · rw [hs.udpInput_idle hstarted]
    exact hsame

/-- **One step keeps a lease.** -/
theorem Ok.step_kept (hs : s.Ok) (h : s.dhcpsStatus = .started) {mac : Mac} {e : ApEvent}
    (he : s.Spares mac e) {l : Lease Ip4} (hl : s.table mac = some l) (hne : l.item ≠ 0) {N : ℕ}
    (hN : N ≤ l.left) (hduration : N ≤ s.dhcps.duration) (htime : e.seconds < N) :
    ∃ l', (s.step e).table mac = some l' ∧ l'.item = l.item ∧ N - e.seconds ≤ l'.left := by
  by_cases hudp : ∃ p, e = .udpInput p
  · obtain ⟨p, rfl⟩ := hudp
    exact hs.udpInput_kept he hl hne hN hduration htime
  · by_cases htmr : e = .coarseTmr
    · subst htmr
      obtain ⟨_, ⟨_, htable⟩ | ⟨_, _, _, _, hmany, _⟩⟩ :=
        Dhcps.dhcpsCoarseTmr_spec (hs.leases h)
      · have hlegal : Legal s.table [.tick] := ⟨trivial, trivial⟩
        have hspares : ∀ x ∈ [(.tick : Act Mac Ip4)], LeaseTable.Spares mac N x := by
          intro x hx
          rw [List.mem_singleton.mp hx]
          trivial
        show ∃ l', s.dhcps.dhcpsCoarseTmr.table mac = some l' ∧ _
        rw [htable]
        exact kept_run hl hlegal hspares hN htime
      · exact absurd he (not_lt.mpr hmany)
    · refine ⟨l, ?_, rfl, (Nat.sub_le _ _).trans hN⟩
      rcases step_plist s (fun p h => hudp ⟨p, h⟩) htmr with hsame | ⟨_, rfl | rfl⟩
      · rw [table, Dhcps.table, hsame]
        exact hl
      · exact he.elim
      · exact he.elim

/-- **A run keeps a lease** until its time is over. -/
theorem Ok.run_kept (hs : s.Ok) (h : s.dhcpsStatus = .started) {mac : Mac} {es : List ApEvent}
    (hes : Spared mac s es) {l : Lease Ip4} (hl : s.table mac = some l) (hne : l.item ≠ 0) {N : ℕ}
    (hN : N ≤ l.left) (hduration : N ≤ s.dhcps.duration) (htime : seconds es < N) :
    (s.run es).Ok ∧ (s.run es).dhcpsStatus = .started ∧ ∃ l', (s.run es).table mac = some l' ∧
      l'.item = l.item ∧ N - seconds es ≤ l'.left := by
  induction es generalizing s l N with
  | nil => exact ⟨hs, h, l, hl, rfl, (Nat.sub_le _ _).trans hN⟩
  | cons e es ih =>
      have hsum : seconds (e :: es) = e.seconds + seconds es := rfl
      rw [hsum] at htime
      obtain ⟨hs₁, hstarted, hsame⟩ := hs.step_running h hes.1
      obtain ⟨l₁, hl₁, hitem₁, hleft₁⟩ := hs.step_kept h hes.1 hl hne hN hduration (by omega)
      obtain ⟨hok, hrunning, l₂, hl₂, hitem₂, hleft₂⟩ :=
        ih hs₁ hstarted hes.2 hl₁ (hitem₁ ▸ hne) hleft₁ (hsame ▸ (Nat.sub_le _ _).trans hduration)
          (by omega)
      refine ⟨hok, hrunning, l₂, hl₂, hitem₂.trans hitem₁, ?_⟩
      omega

end TcpipAdapter

end Chooser
