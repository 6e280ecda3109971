import Chooser.Boot
import Chooser.Charging
import Chooser.Recovery
import Chooser.TempFiles

/-!
# Power-on

`app_main` first finds out why the device has been switched on.  With Start and Select held it is to
be recovered; on the charger it only shows its battery; and if the keys are locked it may have been
switched on by accident, so it is switched off again unless A is pressed.  Only behind all that come
the files, the settings, the access point and the menu.

What has to be known from one boot to the next is in a register of the real-time clock: in bit 8
that the charger is to be ignored, and in the highest byte whether the keys are locked.  Between two
boots it is in the hands of the HAL and the bootloader, of which only what they do to it matters
here (`PowerOn.restart`).  If they keep it (`PowerOn.Keeps`), the lock holds over any number of
boots, whatever is pressed and wherever the device is charged, until A is pressed anew while the
lock is shown (`key_lock_holds`).
-/

namespace Chooser

open CStr

/-! ## The key lock -/

/-- `kchal_get_keys()`: the buttons that are down. -/
abbrev Keys := Finset Button

inductive LockCall where
  | kchalSetRtcReg (v : UInt32)
  | kchalBootIntoNewApp
  | kchalPowerDown
  | vTaskDelay (ms : ℕ)
deriving DecidableEq

/-- A has just been pressed, and the power button is up. -/
def PressedAnew (oldbtn btn : Keys) : Prop := .power ∉ btn ∧ .a ∉ oldbtn ∧ .a ∈ btn

instance (oldbtn btn : Keys) : Decidable (PressedAnew oldbtn btn) := instDecidableAnd

/-- `for (int i=0; i<15; i++)`, with the number of passes that are left, and the reading that is
next. -/
def keyLockLoop (v : UInt32) (keys : ℕ → Keys) : ℕ → ℕ → Keys → List LockCall
  | 0, _, _ => [.kchalPowerDown]
  | passes + 1, i, oldbtn =>
      let btn := keys i
      if PressedAnew oldbtn btn then
        [.kchalSetRtcReg ((v &&& 0xffffff) ||| 0xa5000000), .kchalBootIntoNewApp]
      else .vTaskDelay 100 :: keyLockLoop v keys passes (i + 1) btn

/-- `handleKeyLock`, for these readings of the buttons; `v` is `kchal_rtc_reg_bootup_val()`. -/
def handleKeyLock (v : UInt32) (keys : ℕ → Keys) : List LockCall :=
  keyLockLoop v keys 15 1 (keys 0)

/-- A is pressed anew while the lock is shown. -/
def Unlocks (keys : ℕ → Keys) : Prop := ∃ n < 15, PressedAnew (keys n) (keys (n + 1))

/-! ## The boot -/

/-- What a boot finds besides the register: the buttons at first, what is chosen in recovery mode,
the charger and its later readings, the buttons while the lock is shown, the settings, and the
driver; and what becomes of the register from its end to the next boot. -/
structure PowerOn where
  keys : Keys
  choice : ℤ
  chg : ChgStatus
  charging : List ChargingSample
  lockKeys : ℕ → Keys
  nvs : NvsKeys
  drv : WifiCall → EspErr
  restart : UInt32 → UInt32

inductive Stage where
  | recovery (log : Option RecoveryLog)
  | charging (r : ChargingRun)
  | keyLock (calls : List LockCall)
  | deleteTempFiles
  | wifi (calls : List WifiCall)
  | httpdInit
  | guiSplash (texts : List (ℕ × ℕ × Bytes))
  | guiMenu

section Device

variable (orc : ℕ → EspErr) (appfsSize nvsSize : ℕ) (missing : Bool)

/-- `app_main`, with the value of the register, on a device with partitions of these sizes, whose
erases are answered by `orc`.  Neither `handleCharging` nor `handleKeyLock` returns, as the HAL
powers the device down or restarts it. -/
def appMain (r : UInt32) (p : PowerOn) : List Stage :=
  (if p.keys = {.start, .select} then
    [.recovery (doRecoveryMode orc appfsSize nvsSize p.choice)] else []) ++
  if p.chg ≠ .noCharger ∧ r &&& 0x100 = 0 then [.charging (handleCharging missing p.charging)]
  else if r &&& 0xff000000 = 0xA6000000 then [.keyLock (handleKeyLock r p.lockKeys)]
  else
    let wifi := appMainWifi p.drv p.nvs
    [.deleteTempFiles, .wifi wifi.1] ++
      if wifi.2 then [.httpdInit, .guiSplash (guiSplash p.nvs), .guiMenu] else []

/-- The values that a stage writes to the register. -/
def Stage.writes : Stage → List UInt32
  | .charging r => r.loop.iters.flatten.filterMap fun
      | .regWriteStore0 v => some v
      | _ => none
  | .keyLock calls => calls.filterMap fun
      | .kchalSetRtcReg v => some v
      | _ => none
  | _ => []

/-- What a boot leaves in the register: what was written last, or else what was there. -/
def leftStore0 (r : UInt32) (p : PowerOn) : UInt32 :=
  ((appMain orc appfsSize nvsSize missing r p).flatMap Stage.writes).getLast?.getD r

/-- What the next boot finds in it. -/
def nextStore0 (r : UInt32) (p : PowerOn) : UInt32 :=
  p.restart (leftStore0 orc appfsSize nvsSize missing r p)

end Device

/-! ## What the lock is about -/

/-- What a locked device can get to: its battery, the lock, and before that, with Start and Select
held, recovery mode, which erases nothing unless one of its three entries for that is chosen. -/
def Stage.Closed (p : PowerOn) : Stage → Prop
  | .recovery log =>
      p.keys = {.start, .select} ∧ (p.choice ∉ [1, 2, 3] → log.map RecoveryLog.erased = some [])
  | .charging _ => True
  | .keyLock _ => True
  | _ => False

def KeysLocked (r : UInt32) : Prop := r &&& 0xff000000 = 0xA6000000

/-- What is neither about the lock nor about the charger. -/
def otherBits (r : UInt32) : UInt32 := r &&& 0xfffeff

/-- Between two boots the register is kept, apart from bit 8 maybe. -/
def PowerOn.Keeps (p : PowerOn) : Prop := ∀ v, p.restart v &&& 0xfffffeff = v &&& 0xfffffeff

/-- While the device is charged, the register can be read. -/
def PowerOn.Reads (r : UInt32) (p : PowerOn) : Prop := ∀ s ∈ p.charging, s.store0 = r

/-- The lock is shown, and A is pressed anew. -/
def PowerOn.Unlocks (r : UInt32) (p : PowerOn) : Prop :=
  ¬ (p.chg ≠ .noCharger ∧ r &&& 0x100 = 0) ∧ Chooser.Unlocks p.lockKeys

/-! ### The key lock -/

/-- **The loop ends with the first press**, or with the last pass. -/
lemma keyLockLoop_cases (v : UInt32) (keys : ℕ → Keys) (passes i : ℕ) :
    (∃ n < passes, PressedAnew (keys (i + n)) (keys (i + n + 1)) ∧
      keyLockLoop v keys passes (i + 1) (keys i) = List.replicate n (.vTaskDelay 100) ++
        [.kchalSetRtcReg ((v &&& 0xffffff) ||| 0xa5000000), .kchalBootIntoNewApp]) ∨
    ((∀ n < passes, ¬ PressedAnew (keys (i + n)) (keys (i + n + 1))) ∧
      keyLockLoop v keys passes (i + 1) (keys i)
        = List.replicate passes (.vTaskDelay 100) ++ [.kchalPowerDown]) := by
  induction passes generalizing i with
  | zero => exact Or.inr ⟨fun n hn => absurd hn (Nat.not_lt_zero n), rfl⟩
  | succ passes ih =>
      by_cases hpress : PressedAnew (keys i) (keys (i + 1))
      · exact Or.inl ⟨0, Nat.succ_pos passes, hpress, if_pos hpress⟩
      · have hloop : keyLockLoop v keys (passes + 1) (i + 1) (keys i)
            = .vTaskDelay 100 :: keyLockLoop v keys passes (i + 1 + 1) (keys (i + 1)) :=
          if_neg hpress
        have hshift : ∀ n, i + 1 + n = i + (n + 1) := fun n => by omega
        rcases ih (i + 1) with ⟨n, hn, hfirst, hcalls⟩ | ⟨hnone, hcalls⟩
        · left
          rw [hshift] at hfirst
          refine ⟨n + 1, Nat.succ_lt_succ hn, hfirst, ?_⟩
          rw [hloop, hcalls, List.replicate_succ, List.cons_append]
        · right
          refine ⟨fun n hn => ?_, ?_⟩
          · cases n with
            | zero => exact hpress
            | succ n =>
                rw [← hshift]
                exact hnone n (Nat.lt_of_succ_lt_succ hn)
          · rw [hloop, hcalls, List.replicate_succ, List.cons_append]

lemma filterMap_delays (n : ℕ) (calls : List LockCall) :
    Stage.writes (.keyLock (List.replicate n (.vTaskDelay 100) ++ calls))
      = Stage.writes (.keyLock calls) := by
  induction n with
  | zero => rfl
  | succ n ih => exact ih

/-- **What the key lock writes.** -/
lemma writes_handleKeyLock (v : UInt32) (keys : ℕ → Keys) :
    (Unlocks keys ∧
      Stage.writes (.keyLock (handleKeyLock v keys)) = [(v &&& 0xffffff) ||| 0xa5000000]) ∨
    (¬ Unlocks keys ∧ Stage.writes (.keyLock (handleKeyLock v keys)) = []) := by
  have hzero : ∀ n, 0 + n = n := Nat.zero_add
  rcases keyLockLoop_cases v keys 15 0 with ⟨n, hn, hpress, hcalls⟩ | ⟨hnone, hcalls⟩
  · left
    rw [hzero] at hpress
    refine ⟨⟨n, hn, hpress⟩, ?_⟩
    rw [handleKeyLock, hcalls, filterMap_delays]
    rfl
  · right
    refine ⟨fun ⟨n, hn, hpress⟩ => hnone n hn (by rwa [hzero]), ?_⟩
    rw [handleKeyLock, hcalls, filterMap_delays]
    rfl

/-! ### Charging -/

lemma regWriteStore0_mem {v : ChargingVars} {s : ChargingSample} {w : UInt32}
    (h : .regWriteStore0 w ∈ (chargingIter v s).calls) : w = s.store0 ||| 0x100 := by
  have hshow : .regWriteStore0 w ∉ (chargingShow v s).2 := by
    unfold chargingShow guiFull guiCharging
    split_ifs <;> simp
  have hlatch : ∀ v, .regWriteStore0 w ∉ (chargingLatch v).2 := by
    intro v
    unfold chargingLatch
    split_ifs <;> simp
  cases hkey : s.powerKey with
  | true => simpa [chargingIter, hkey, hshow] using h
  | false => simp [chargingIter, hkey, hshow, hlatch] at h

/-- **What is written while charging** is what was read, with bit 8 set. -/
lemma chargingLoop_writes (v : ChargingVars) (samples : List ChargingSample) {w : UInt32}
    (h : .regWriteStore0 w ∈ (chargingLoop v samples).iters.flatten) :
    ∃ s ∈ samples, w = s.store0 ||| 0x100 := by
  induction samples generalizing v with
  | nil => cases h
  | cons s samples ih =>
      rw [chargingLoop] at h
      split at h
      · rw [List.flatten_cons] at h
        rcases List.mem_append.mp h with h | h
        · exact ⟨s, List.mem_cons_self, regWriteStore0_mem h⟩
        · obtain ⟨t, ht, hw⟩ := ih _ h
          exact ⟨t, List.mem_cons_of_mem s ht, hw⟩
      · rw [List.flatten_singleton] at h
        exact ⟨s, List.mem_cons_self, regWriteStore0_mem h⟩

lemma writes_handleCharging {missing : Bool} {samples : List ChargingSample} {w : UInt32}
    (h : w ∈ Stage.writes (.charging (handleCharging missing samples))) :
    ∃ s ∈ samples, w = s.store0 ||| 0x100 := by
  obtain ⟨call, hcall, hvalue⟩ := List.mem_filterMap.mp h
  cases call with
  | regWriteStore0 v =>
      obtain rfl := Option.some.inj hvalue
      exact chargingLoop_writes _ _ hcall
  | _ => cases hvalue

/-! ### The bits of the register -/

lemma or_and_right (a b c : UInt32) : (a ||| b) &&& c = a &&& c ||| b &&& c :=
  UInt32.toBitVec_inj.1 BitVec.and_or_distrib_right

/-- Bit 8 is not about the lock. -/
lemma keysLocked_or (r : UInt32) : KeysLocked (r ||| 0x100) ↔ KeysLocked r := by
  have hbit : (0x100 : UInt32) &&& 0xff000000 = 0 := by decide
  rw [KeysLocked, KeysLocked, or_and_right, hbit, UInt32.or_zero]

lemma otherBits_or (r : UInt32) : otherBits (r ||| 0x100) = otherBits r := by
  have hbit : (0x100 : UInt32) &&& 0xfffeff = 0 := by decide
  rw [otherBits, otherBits, or_and_right, hbit, UInt32.or_zero]

/-- Unlocking changes the highest byte only. -/
lemma not_keysLocked_unlocked (r : UInt32) : ¬ KeysLocked (r &&& 0xffffff ||| 0xa5000000) := by
  have hlow : (0xffffff : UInt32) &&& 0xff000000 = 0 := by decide
  have hhigh : (0xa5000000 : UInt32) &&& 0xff000000 = 0xa5000000 := by decide
  rw [KeysLocked, or_and_right, UInt32.and_assoc, hlow, UInt32.and_zero, UInt32.zero_or, hhigh]
  decide

lemma otherBits_unlocked (r : UInt32) :
    otherBits (r &&& 0xffffff ||| 0xa5000000) = otherBits r := by
  have hlow : (0xffffff : UInt32) &&& 0xfffeff = 0xfffeff := by decide
  have hhigh : (0xa5000000 : UInt32) &&& 0xfffeff = 0 := by decide
  rw [otherBits, otherBits, or_and_right, UInt32.and_assoc, hlow, hhigh, UInt32.or_zero]

/-- What a restart keeps. -/
lemma PowerOn.Keeps.restart {p : PowerOn} (hp : p.Keeps) (v : UInt32) :
    (KeysLocked (p.restart v) ↔ KeysLocked v) ∧ otherBits (p.restart v) = otherBits v := by
  have hkept : ∀ mask : UInt32, 0xfffffeff &&& mask = mask → p.restart v &&& mask = v &&& mask := by
    intro mask hmask
    rw [← hmask, ← UInt32.and_assoc, ← UInt32.and_assoc, hp v]
  exact ⟨by rw [KeysLocked, KeysLocked, hkept _ (by decide)], hkept _ (by decide)⟩

/-! ## Boots -/

section Boots

variable (orc : ℕ → EspErr) (appfsSize nvsSize : ℕ) (missing : Bool) {r : UInt32} {p : PowerOn}

/-- What is written last is one of the values written. -/
lemma getLast?_getD_cases (l : List UInt32) (r : UInt32) :
    l.getLast?.getD r = r ∨ l.getLast?.getD r ∈ l := by
  cases h : l.getLast? with
  | none => exact Or.inl rfl
  | some w => exact Or.inr (List.mem_of_getLast? h)

/-- An entry that is not for erasing erases nothing. -/
lemma erased_of_choice {choice : ℤ} (h : choice ∉ [1, 2, 3]) :
    (doRecoveryMode orc appfsSize nvsSize choice).map RecoveryLog.erased = some [] := by
  simp only [List.mem_cons, List.not_mem_nil, or_false, not_or] at h
  obtain ⟨h1, h2, h3⟩ := h
  rw [doRecoveryMode, if_neg (by simp [h1, h3]), if_neg (by simp [h2, h3])]
  rfl

/-- **One boot while the keys are locked.** -/
lemma appMain_locked (hlocked : KeysLocked r) (hreads : p.Reads r) :
    (∀ st ∈ appMain orc appfsSize nvsSize missing r p, st.Closed p) ∧
    ((p.Unlocks r ∧ leftStore0 orc appfsSize nvsSize missing r p
        = (r &&& 0xffffff ||| 0xa5000000)) ∨
      (¬ p.Unlocks r ∧ (leftStore0 orc appfsSize nvsSize missing r p = r ∨
        leftStore0 orc appfsSize nvsSize missing r p = r ||| 0x100))) := by
  obtain ⟨recovery, hrecovery⟩ : ∃ l, l = if p.keys = {.start, .select} then
    [Stage.recovery (doRecoveryMode orc appfsSize nvsSize p.choice)] else [] := ⟨_, rfl⟩
  have hclosed : ∀ st ∈ recovery, st.Closed p ∧ st.writes = [] := by
    intro st hst
    rw [hrecovery] at hst
    split_ifs at hst with hkeys
    · rw [List.mem_singleton.mp hst]
      exact ⟨⟨hkeys, fun hchoice => erased_of_choice orc appfsSize nvsSize hchoice⟩, rfl⟩
    · cases hst
  have hwrites : recovery.flatMap Stage.writes = [] :=
    List.flatMap_eq_nil_iff.mpr fun st hst => (hclosed st hst).2
  by_cases hcharging : p.chg ≠ .noCharger ∧ r &&& 0x100 = 0
  · have hmain : appMain orc appfsSize nvsSize missing r p
        = recovery ++ [.charging (handleCharging missing p.charging)] := by
      rw [appMain, if_pos hcharging, hrecovery]
    refine ⟨fun st hst => ?_, Or.inr ⟨fun h => h.1 hcharging, ?_⟩⟩
    · rw [hmain] at hst
      rcases List.mem_append.mp hst with hst | hst
      · exact (hclosed st hst).1
      · rw [List.mem_singleton.mp hst]
        trivial
    · rw [leftStore0, hmain, List.flatMap_append, hwrites, List.nil_append, List.flatMap_singleton]
      refine (getLast?_getD_cases _ r).imp_right fun hmem => ?_
      obtain ⟨s, hs, hw⟩ := writes_handleCharging hmem
      rw [hw, hreads s hs]
  · have hmask : r &&& 0xff000000 = 0xA6000000 := hlocked
    have hmain : appMain orc appfsSize nvsSize missing r p
        = recovery ++ [.keyLock (handleKeyLock r p.lockKeys)] := by
      rw [appMain, if_neg hcharging, if_pos hmask, hrecovery]
    refine ⟨fun st hst => ?_, ?_⟩
    · rw [hmain] at hst
      rcases List.mem_append.mp hst with hst | hst
      · exact (hclosed st hst).1
      · rw [List.mem_singleton.mp hst]
        trivial
    · rw [leftStore0, hmain, List.flatMap_append, hwrites, List.nil_append, List.flatMap_singleton]
      rcases writes_handleKeyLock r p.lockKeys with ⟨hunlocks, hw⟩ | ⟨hkeeps, hw⟩
      · rw [hw]
        exact Or.inl ⟨⟨hcharging, hunlocks⟩, rfl⟩
      · rw [hw]
        exact Or.inr ⟨fun h => hkeeps h.2, Or.inl rfl⟩

/-- **The key lock holds.**  The keys are locked, and the device is switched on and off, charged and
reset any number of times, without A being pressed anew while the lock is shown.  Then no boot gets
to the files, the access point or the menu, the rest of the register is kept, apart from bit 8, and
the next boot opens the lock if and only if A is pressed anew while it is shown. -/
theorem key_lock_holds (hlocked : KeysLocked r) {ps : List PowerOn}
    (hps : Machine.AllSteps (nextStore0 orc appfsSize nvsSize missing)
      (fun r p => p.Reads r ∧ p.Keeps ∧ ¬ p.Unlocks r) r ps)
    (hreads : p.Reads (Machine.run (nextStore0 orc appfsSize nvsSize missing) r ps))
    (hkeeps : p.Keeps) :
    let r' := Machine.run (nextStore0 orc appfsSize nvsSize missing) r ps
    otherBits r' = otherBits r ∧ (∀ st ∈ appMain orc appfsSize nvsSize missing r' p, st.Closed p) ∧
      otherBits (nextStore0 orc appfsSize nvsSize missing r' p) = otherBits r ∧
      (KeysLocked (nextStore0 orc appfsSize nvsSize missing r' p) ↔ ¬ p.Unlocks r') := by
  intro r'
  have hinv : KeysLocked r' ∧ otherBits r' = otherBits r := by
    have hstep : ∀ s q, (KeysLocked s ∧ otherBits s = otherBits r) →
        (PowerOn.Reads s q ∧ q.Keeps ∧ ¬ PowerOn.Unlocks s q) →
        KeysLocked (nextStore0 orc appfsSize nvsSize missing s q) ∧
          otherBits (nextStore0 orc appfsSize nvsSize missing s q) = otherBits r := by
      intro s q hs hq
      obtain ⟨hsame, hbits⟩ := hq.2.1.restart (leftStore0 orc appfsSize nvsSize missing s q)
      rw [nextStore0, hsame, hbits]
      obtain ⟨-, ⟨hunlocks, -⟩ | ⟨-, hleft | hleft⟩⟩ :=
        appMain_locked orc appfsSize nvsSize missing hs.1 hq.1
      · exact absurd hunlocks hq.2.2
      · rw [hleft]
        exact hs
      · rw [hleft, keysLocked_or, otherBits_or]
        exact hs
    exact Machine.run_invariant hstep ⟨hlocked, rfl⟩ hps
  obtain ⟨hstays, hother⟩ := hinv
  obtain ⟨hsame, hbits⟩ := hkeeps.restart (leftStore0 orc appfsSize nvsSize missing r' p)
  rw [nextStore0, hsame, hbits]
  obtain ⟨hclosed, ⟨hunlocks, hleft⟩ | ⟨hlock, hleft | hleft⟩⟩ :=
    appMain_locked orc appfsSize nvsSize missing hstays hreads
  · refine ⟨hother, hclosed, ?_, ?_⟩
    · rw [hleft, otherBits_unlocked, hother]
    · rw [hleft]
      exact iff_of_false (not_keysLocked_unlocked r') (not_not.mpr hunlocks)
  · refine ⟨hother, hclosed, by rw [hleft, hother], ?_⟩
    rw [hleft]
    exact iff_of_true hstays hlock
  · refine ⟨hother, hclosed, by rw [hleft, otherBits_or, hother], ?_⟩
    rw [hleft, keysLocked_or]
    exact iff_of_true hstays hlock

end Boots

/-! ### Three boots

On the charger the power button is pressed.  Then A is held already when the lock is shown, and only
at the third boot it is pressed anew. -/

/-- A locked register. -/
def lockedReg : UInt32 := 0xA6000003

def onCharger : PowerOn where
  keys := ∅
  choice := 0
  chg := .charging
  charging := [⟨.charging, 3900, true, lockedReg⟩]
  lockKeys := fun _ => ∅
  nvs := NvsKeys.empty
  drv := fun _ => espOk
  restart := id

def aHeld : PowerOn := { onCharger with
  chg := .noCharger
  charging := []
  lockKeys := fun _ => {.a} }

def aPressed : PowerOn := { aHeld with
  lockKeys := fun n => if n = 0 then ∅ else {.a} }

lemma aHeld_not_unlocks (r : UInt32) : ¬ aHeld.Unlocks r :=
  fun ⟨_, _, _, hpress⟩ => hpress.2.1 (Finset.mem_singleton_self _)

/-- The lock survives the first two boots, and the third opens it. -/
theorem key_lock_holds_charged :
    let next := nextStore0 (fun _ => espOk) 0 0 false
    let r := Machine.run next lockedReg [onCharger, aHeld]
    r = 0xA6000103 ∧ KeysLocked r ∧ ¬ KeysLocked (next r aPressed) := by
  intro next r
  have hreg : r = 0xA6000103 := by decide
  have hfirst : ¬ onCharger.Unlocks lockedReg := fun h => h.1 (by decide)
  have hopens : aPressed.Unlocks r := ⟨by rw [hreg]; decide, 0, by decide⟩
  have hps : Machine.AllSteps next (fun r p => p.Reads r ∧ p.Keeps ∧ ¬ p.Unlocks r) lockedReg
      [onCharger, aHeld] :=
    ⟨⟨fun s hs => by rw [List.mem_singleton.mp hs], fun _ => rfl, hfirst⟩,
      ⟨fun s hs => (List.not_mem_nil hs).elim, fun _ => rfl, aHeld_not_unlocks _⟩, trivial⟩
  have hboots := key_lock_holds (fun _ => espOk) 0 0 false (r := lockedReg) (p := aPressed) rfl hps
    (fun s hs => (List.not_mem_nil hs).elim) (fun _ => rfl)
  exact ⟨hreg, by rw [hreg]; rfl, fun hstays => hboots.2.2.2.mp hstays hopens⟩

end Chooser
