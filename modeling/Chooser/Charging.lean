import Chooser.Lib.Machine
import Chooser.Lib.Streak

/-!
# Charging

`handleCharging` shows the state of the battery until the charger is taken away.  The charger goes
back from 'full' to 'charging' now and then, so the loop counts the full readings and, at the 32nd
in a row, calibrates the ADC and sticks to the full icon from then on.

The counter keeps counting after that, in an `int`.  `chargingVars_inv` is what it means: up to the
latch it is the counter of `Streak`, and behind it only goes up.
-/

namespace Chooser

open Machine Streak

/-- `kchal_get_chg_status()`: `KC_CHG_NOCHARGER`, `KC_CHG_CHARGING` and `KC_CHG_FULL`. -/
inductive ChgStatus where
  | noCharger
  | charging
  | full
deriving DecidableEq, Repr

/-- `GFX_O_FULL`, `GFX_O_CHG` and `GFX_O_CHGNEARFULL`. -/
inductive Icon where
  | full
  | chg
  | chgNearFull
deriving DecidableEq, Repr

/-- The calls that are made, in the source's words. The CPU frequency is in MHz. -/
inductive ChargingCall where
  | ssd1331SetBrightness (ctr : ℕ)
  | guiInit
  | kcuguiCls
  | drawIcon (x y : ℕ) (icon : Icon)
  | kcuguiFlush
  | disableAppCpu
  | rtcClkCpuFreqSet (mhz : ℕ)
  | regWriteStore0 (v : UInt32)
  | kchalBootIntoNewApp
  | kchalCalAdc
  | vTaskDelay (ticks : ℕ)
  | kchalPowerDown
deriving DecidableEq, Repr

/-- What one pass through the loop finds: the answers of the charger, of the battery and of the
power button, and the register that it may have to change. -/
structure ChargingSample where
  chg : ChgStatus
  batMv : ℤ
  powerKey : Bool
  store0 : UInt32

/-- The variables of the loop. -/
structure ChargingVars where
  fullCtr : Int32
  fixFull : Bool

def ChargingVars.initial : ChargingVars := ⟨0, false⟩

def guiCharging (almostFull : Bool) : List ChargingCall :=
  [.kcuguiCls, .drawIcon 20 26 (if almostFull then .chgNearFull else .chg), .kcuguiFlush]

def guiFull : List ChargingCall := [.kcuguiCls, .drawIcon 20 26 .full, .kcuguiFlush]

/-! ## The loop -/

/-- The first `if` of the loop: the icon and the counter. -/
def chargingShow (v : ChargingVars) (s : ChargingSample) : ChargingVars × List ChargingCall :=
  if s.chg = .full ∨ v.fixFull then ({ v with fullCtr := v.fullCtr + 1 }, guiFull)
  else if s.chg = .charging then ({ v with fullCtr := 0 }, guiCharging (s.batMv > 4100))
  else (v, [])

/-- `if (fullCtr==32)` -/
def chargingLatch (v : ChargingVars) : ChargingVars × List ChargingCall :=
  if v.fullCtr = 32 then ({ v with fixFull := true }, [.kchalCalAdc]) else (v, [])

/-- How a run of the loop ends, if it does. -/
inductive ChargingEnd where
  | running
  | poweredDown
  | newApp
deriving DecidableEq, Repr

/-- One pass through the loop: the variables, the calls, and where it leads. -/
structure ChargingIter where
  vars : ChargingVars
  calls : List ChargingCall
  next : ChargingEnd

/-- `kchal_boot_into_new_app` does not return. -/
def chargingIter (v : ChargingVars) (s : ChargingSample) : ChargingIter :=
  let shown := chargingShow v s
  if s.powerKey then
    ⟨shown.1, shown.2 ++
      [.rtcClkCpuFreqSet 80, .regWriteStore0 (s.store0 ||| 0x100), .kchalBootIntoNewApp], .newApp⟩
  else
    let latched := chargingLatch shown.1
    ⟨latched.1, shown.2 ++ latched.2 ++ [.vTaskDelay 1],
      if s.chg ≠ .noCharger then .running else .poweredDown⟩

/-- The calls of each pass, and the end. -/
structure ChargingLoop where
  iters : List (List ChargingCall)
  ending : ChargingEnd

/-- `do { .. } while (r!=KC_CHG_NOCHARGER)`, as far as the samples go. -/
def chargingLoop : ChargingVars → List ChargingSample → ChargingLoop
  | _, [] => ⟨[], .running⟩
  | v, s :: samples =>
      let it := chargingIter v s
      match it.next with
      | .running =>
          let r := chargingLoop it.vars samples
          ⟨it.calls :: r.iters, r.ending⟩
      | e => ⟨[it.calls], e⟩

/-- A run of `handleCharging`: the calls before the loop, the loop, and the calls behind it. -/
structure ChargingRun where
  setup : List ChargingCall
  loop : ChargingLoop
  leave : List ChargingCall

/-- The first `guiCharging()` is called without its argument; `missing` is what the callee takes for
it. -/
def handleCharging (missing : Bool) (samples : List ChargingSample) : ChargingRun :=
  let loop := chargingLoop .initial samples
  ⟨[.ssd1331SetBrightness 32, .guiInit] ++ guiCharging missing ++
      [.disableAppCpu, .rtcClkCpuFreqSet 2],
    loop, if loop.ending = .poweredDown then [.rtcClkCpuFreqSet 80, .kchalPowerDown] else []⟩

/-! ## The passes of a run -/

/-- The variables after a number of passes. -/
def chargingVars (samples : List ChargingSample) : ChargingVars :=
  run (fun v s => (chargingIter v s).vars) .initial samples

/-- The calls of each pass, for samples with which the loop goes on. -/
def chargingCalls : ChargingVars → List ChargingSample → List (List ChargingCall)
  | _, [] => []
  | v, s :: samples =>
      (chargingIter v s).calls :: chargingCalls (chargingIter v s).vars samples

lemma chargingIter_next {v : ChargingVars} {s : ChargingSample} (h : s.powerKey = false) :
    (chargingIter v s).next = if s.chg ≠ .noCharger then .running else .poweredDown := by
  simp [chargingIter, h]

/-- The loop ends at the first sample without a charger. -/
lemma chargingLoop_gone {before : List ChargingSample} {last : ChargingSample}
    (rest : List ChargingSample) (hcharger : ∀ s ∈ before, s.chg ≠ .noCharger)
    (hgone : last.chg = .noCharger) (hkeys : ∀ s ∈ before ++ [last], s.powerKey = false)
    (v : ChargingVars) :
    chargingLoop v (before ++ last :: rest)
      = ⟨chargingCalls v (before ++ [last]), .poweredDown⟩ := by
  induction before generalizing v with
  | nil =>
      have hnext := chargingIter_next (v := v) (hkeys last (by simp))
      rw [hgone] at hnext
      simp [chargingLoop, chargingCalls, hnext]
  | cons s before ih =>
      have hnext := chargingIter_next (v := v) (hkeys s (by simp))
      rw [if_pos (hcharger s (by simp))] at hnext
      have hrest := ih (fun t ht => hcharger t (by simp [ht]))
        (fun t ht => hkeys t (List.mem_cons_of_mem s ht)) (chargingIter v s).vars
      simp [chargingLoop, chargingCalls, hnext, hrest]

/-- Before that it goes on. -/
lemma chargingLoop_running {samples : List ChargingSample}
    (hcharger : ∀ s ∈ samples, s.chg ≠ .noCharger) (hkeys : ∀ s ∈ samples, s.powerKey = false)
    (v : ChargingVars) : chargingLoop v samples = ⟨chargingCalls v samples, .running⟩ := by
  induction samples generalizing v with
  | nil => rfl
  | cons s samples ih =>
      have hnext := chargingIter_next (v := v) (hkeys s (by simp))
      rw [if_pos (hcharger s (by simp))] at hnext
      have hrest := ih (fun t ht => hcharger t (by simp [ht])) (fun t ht => hkeys t (by simp [ht]))
        (chargingIter v s).vars
      simp [chargingLoop, chargingCalls, hnext, hrest]

lemma chargingCalls_getElem? (samples : List ChargingSample) (v : ChargingVars) (n : ℕ) :
    (chargingCalls v samples)[n]? = samples[n]?.map fun s =>
      (chargingIter (run (fun v s => (chargingIter v s).vars) v (samples.take n)) s).calls := by
  induction samples generalizing v n with
  | nil => simp [chargingCalls]
  | cons s samples ih =>
      cases n with
      | zero => simp [chargingCalls]
      | succ n => simp [chargingCalls, ih]

/-! ## The counter -/

/-- The readings that count, and those that reset the counter. -/
def isFull (s : ChargingSample) : Bool := s.chg = .full

def isCharging (s : ChargingSample) : Bool := s.chg = .charging

lemma isFull_not_isCharging (s : ChargingSample) (h : isFull s = true) : isCharging s = false := by
  simp only [isFull, isCharging, decide_eq_true_eq, decide_eq_false_iff_not] at h ⊢
  rw [h]
  decide

/-- **The latch**: 32 full readings have been seen, with no charging reading between them. -/
abbrev LatchSeen (samples : List ChargingSample) : Prop := Seen isFull isCharging 32 samples

/-- The pass `n` is the first at which they have. -/
abbrev FirstLatch (n : ℕ) (samples : List ChargingSample) : Prop :=
  FirstSeen isFull isCharging 32 n samples

/-- **The variables of the loop**, after these samples. -/
structure LatchInv (samples : List ChargingSample) (v : ChargingVars) : Prop where
  fixed : v.fixFull = true ↔ LatchSeen samples
  counting : v.fixFull = false → v.fullCtr.toInt = count isFull isCharging samples
  beyond : v.fixFull = true → 32 ≤ v.fullCtr.toInt ∧ v.fullCtr.toInt ≤ samples.length

lemma toInt_succ {i : Int32} (hlo : 0 ≤ i.toInt) (hhi : i.toInt + 1 < 2 ^ 31) :
    (i + 1).toInt = i.toInt + 1 := by
  have hone : (1 : Int32).toInt = 1 := by decide
  rw [Int32.toInt_add, hone]
  exact Int.bmod_eq_of_le (by omega) (by omega)

lemma LatchInv.initial : LatchInv [] .initial where
  fixed := by simpa [ChargingVars.initial] using not_seen_nil (by decide)
  counting := by
    intro _
    decide
  beyond := by simp [ChargingVars.initial]

/-- Up to the latch there are less than 32 in a row. -/
lemma LatchInv.count_lt {samples : List ChargingSample} {v : ChargingVars} (h : LatchInv samples v)
    (hv : v.fixFull = false) : count isFull isCharging samples < 32 := by
  by_contra hge
  have hseen : LatchSeen samples := seen_of_le_count isFull_not_isCharging (not_lt.mp hge)
  rw [← h.fixed, hv] at hseen
  simp at hseen

lemma chargingShow_fixFull (v : ChargingVars) (s : ChargingSample) :
    (chargingShow v s).1.fixFull = v.fixFull := by
  unfold chargingShow
  split_ifs <;> rfl

/-- Before the latch the counter follows the streak. -/
lemma chargingShow_counting {samples : List ChargingSample} {v : ChargingVars}
    (h : LatchInv samples v) (hv : v.fixFull = false) (s : ChargingSample) :
    (chargingShow v s).1.fullCtr.toInt = count isFull isCharging (samples ++ [s]) := by
  have hctr := h.counting hv
  have hlt := h.count_lt hv
  rw [count_concat, chargingShow]
  cases hchg : s.chg with
  | noCharger => simp [hv, next, isFull, isCharging, hchg, hctr]
  | charging => simp [hv, next, isFull, isCharging, hchg]
  | full =>
      have hsucc := toInt_succ (i := v.fullCtr) (by omega) (by omega)
      simp [next, isFull, hchg, hsucc, hctr]

/-- Behind the latch it goes up. -/
lemma chargingShow_beyond {samples : List ChargingSample} {v : ChargingVars}
    (h : LatchInv samples v) (hv : v.fixFull = true) (s : ChargingSample)
    (hlen : samples.length + 1 < 2 ^ 31) :
    (chargingShow v s).1.fullCtr.toInt = v.fullCtr.toInt + 1 := by
  have hbeyond := h.beyond hv
  have hsucc := toInt_succ (i := v.fullCtr) (by omega) (by omega)
  simp [chargingShow, hv, hsucc]

lemma chargingIter_vars {v : ChargingVars} {s : ChargingSample} (h : s.powerKey = false) :
    (chargingIter v s).vars = (chargingLatch (chargingShow v s).1).1 := by
  simp [chargingIter, h]

lemma chargingIter_calls {v : ChargingVars} {s : ChargingSample} (h : s.powerKey = false) :
    (chargingIter v s).calls
      = (chargingShow v s).2 ++ (chargingLatch (chargingShow v s).1).2 ++ [.vTaskDelay 1] := by
  simp [chargingIter, h]

lemma fullCtr_eq_iff (v : ChargingVars) : v.fullCtr = 32 ↔ v.fullCtr.toInt = 32 := by
  rw [← Int32.toInt_inj]
  rfl

lemma chargingLatch_of_ne {v : ChargingVars} (h : v.fullCtr.toInt ≠ 32) :
    chargingLatch v = (v, []) := by
  rw [chargingLatch, if_neg (mt (fullCtr_eq_iff v).mp h)]

lemma chargingLatch_of_eq {v : ChargingVars} (h : v.fullCtr.toInt = 32) :
    chargingLatch v = ({ v with fixFull := true }, [.kchalCalAdc]) := by
  rw [chargingLatch, if_pos ((fullCtr_eq_iff v).mpr h)]

/-- The pass calibrates if its counter is 32. -/
lemma calAdc_mem_iff {v : ChargingVars} {s : ChargingSample} (h : s.powerKey = false) :
    .kchalCalAdc ∈ (chargingIter v s).calls ↔ (chargingShow v s).1.fullCtr.toInt = 32 := by
  have hshown : ChargingCall.kchalCalAdc ∉ (chargingShow v s).2 := by
    unfold chargingShow guiFull guiCharging
    split_ifs <;> simp
  rw [chargingIter_calls h]
  by_cases hctr : (chargingShow v s).1.fullCtr.toInt = 32
  · simp [chargingLatch_of_eq hctr, hctr]
  · simp [chargingLatch_of_ne hctr, hctr, hshown]

/-- **What one pass does to the counter and the latch.** -/
theorem chargingIter_inv {samples : List ChargingSample} {v : ChargingVars}
    (h : LatchInv samples v) {s : ChargingSample} (hkey : s.powerKey = false)
    (hlen : samples.length + 1 < 2 ^ 31) :
    LatchInv (samples ++ [s]) (chargingIter v s).vars ∧
      (.kchalCalAdc ∈ (chargingIter v s).calls ↔
        LatchSeen (samples ++ [s]) ∧ ¬ LatchSeen samples) := by
  have hfix := chargingShow_fixFull v s
  rw [calAdc_mem_iff hkey, chargingIter_vars hkey]
  cases hv : v.fixFull with
  | true =>
      have hseen : LatchSeen samples := h.fixed.mp hv
      have hseen' : LatchSeen (samples ++ [s]) :=
        hseen.mono (List.prefix_append samples [s]).isInfix
      have hbeyond := h.beyond hv
      have hctr := chargingShow_beyond h hv s hlen
      have hne : (chargingShow v s).1.fullCtr.toInt ≠ 32 := by omega
      rw [chargingLatch_of_ne hne]
      refine ⟨⟨?_, ?_, ?_⟩, ?_⟩
      · simp [hfix, hv, hseen']
      · simp [hfix, hv]
      · intro _
        simp only [List.length_append, List.length_singleton]
        omega
      · simp [hne, hseen]
  | false =>
      have hunseen : ¬ LatchSeen samples := by simp [← h.fixed, hv]
      have hctr := chargingShow_counting h hv s
      have hlt := h.count_lt hv
      have hle : count isFull isCharging (samples ++ [s]) ≤ 32 := by
        rw [count_concat]
        exact (next_le _ s).trans hlt
      have hiff : LatchSeen (samples ++ [s]) ↔ count isFull isCharging (samples ++ [s]) = 32 := by
        rw [LatchSeen, seen_concat isFull_not_isCharging, or_iff_right hunseen]
        omega
      by_cases hfire : count isFull isCharging (samples ++ [s]) = 32
      · -- 32 readings need 32 samples, so the counter is not past them
        have heq : (chargingShow v s).1.fullCtr.toInt = 32 := by rw [hctr, hfire]; rfl
        have hlength : count isFull isCharging (samples ++ [s]) ≤ (samples ++ [s]).length :=
          count_le_length _
        rw [chargingLatch_of_eq heq]
        refine ⟨⟨?_, ?_, ?_⟩, ?_⟩
        · simp [hiff, hfire]
        · simp
        · intro _
          simp only
          omega
        · simp [heq, hiff, hfire, hunseen]
      · have hne : (chargingShow v s).1.fullCtr.toInt ≠ 32 := by omega
        rw [chargingLatch_of_ne hne]
        refine ⟨⟨?_, fun _ => hctr, ?_⟩, ?_⟩
        · simp [hfix, hv, hiff, hfire]
        · simp [hfix, hv]
        · simp [hne, hiff, hfire]

/-! ## A whole run -/

lemma chargingVars_concat (samples : List ChargingSample) (s : ChargingSample) :
    chargingVars (samples ++ [s]) = (chargingIter (chargingVars samples) s).vars := by
  simp [chargingVars, run]

/-- **The variables of a run mean what they should**, as long as the counter is an `int`. -/
theorem chargingVars_inv {samples : List ChargingSample} (hkeys : ∀ s ∈ samples, s.powerKey = false)
    (hlen : samples.length < 2 ^ 31) : LatchInv samples (chargingVars samples) := by
  induction samples using List.reverseRecOn with
  | nil => exact .initial
  | append_singleton samples s ih =>
      rw [List.length_append, List.length_singleton] at hlen
      have hinv := ih (fun t ht => hkeys t (by simp [ht])) (by omega)
      rw [chargingVars_concat]
      exact (chargingIter_inv hinv (hkeys s (by simp)) hlen).1

/-- The icons that a sequence of calls draws. -/
def drawnIcons (calls : List ChargingCall) : List Icon :=
  calls.filterMap fun c => match c with
    | .drawIcon _ _ icon => some icon
    | _ => none

/-- The icon of a reading while the latch is open. -/
def ChargingSample.icons (s : ChargingSample) : List Icon :=
  match s.chg with
  | .full => [.full]
  | .charging => [if s.batMv > 4100 then .chgNearFull else .chg]
  | .noCharger => []

/-- **The charge-full latch**, in the passes of a run: pass `n` calibrates the ADC if and only if it
is the first at which 32 full readings have been seen, which can be one pass at most; up to there
the icon follows the readings, and from there on it is the full icon. -/
structure FullLatch (samples : List ChargingSample) (iters : List (List ChargingCall)) : Prop where
  passes : iters.length = samples.length
  once : iters.flatten.count .kchalCalAdc ≤ 1
  calibrates : ∀ n calls, iters[n]? = some calls →
    (.kchalCalAdc ∈ calls ↔ FirstLatch n samples)
  latched : ∀ m n calls, FirstLatch m samples → m ≤ n → iters[n]? = some calls →
    drawnIcons calls = [.full]
  unlatched : ∀ n s calls, (∀ m ≤ n, ¬ FirstLatch m samples) → samples[n]? = some s →
    iters[n]? = some calls → drawnIcons calls = s.icons

lemma length_chargingCalls (v : ChargingVars) (samples : List ChargingSample) :
    (chargingCalls v samples).length = samples.length := by
  induction samples generalizing v with
  | nil => rfl
  | cons s samples ih => rw [chargingCalls, List.length_cons, ih, List.length_cons]

lemma chargingCalls_concat (v : ChargingVars) (samples : List ChargingSample) (s : ChargingSample) :
    chargingCalls v (samples ++ [s]) = chargingCalls v samples ++
      [(chargingIter (run (fun v s => (chargingIter v s).vars) v samples) s).calls] := by
  induction samples generalizing v with
  | nil => rfl
  | cons t samples ih => simp [chargingCalls, ih]

/-- What a pass draws. -/
lemma drawnIcons_chargingIter {v : ChargingVars} {s : ChargingSample} (h : s.powerKey = false) :
    drawnIcons (chargingIter v s).calls = if v.fixFull then [.full] else s.icons := by
  have hlatch : drawnIcons (chargingLatch (chargingShow v s).1).2 = [] := by
    unfold chargingLatch
    split_ifs <;> rfl
  have happ : ∀ a b, drawnIcons (a ++ b) = drawnIcons a ++ drawnIcons b :=
    fun a b => List.filterMap_append
  have hdelay : drawnIcons [.vTaskDelay 1] = [] := rfl
  rw [chargingIter_calls h, happ, happ, hlatch, hdelay, List.append_nil, List.append_nil,
    chargingShow, ChargingSample.icons]
  cases v.fixFull <;> cases s.chg <;> simp [guiFull, guiCharging, drawnIcons]

/-- A pass calibrates once at most. -/
lemma count_calAdc_le {v : ChargingVars} {s : ChargingSample} (h : s.powerKey = false) :
    (chargingIter v s).calls.count .kchalCalAdc ≤ 1 := by
  rw [chargingIter_calls h]
  unfold chargingShow chargingLatch guiFull guiCharging
  split_ifs <;> simp

/-- **The number of calibrations so far** is whether the latch has closed. -/
lemma count_calAdc {samples : List ChargingSample} (hkeys : ∀ s ∈ samples, s.powerKey = false)
    (hlen : samples.length < 2 ^ 31) :
    (LatchSeen samples → (chargingCalls .initial samples).flatten.count .kchalCalAdc = 1) ∧
      (¬ LatchSeen samples → (chargingCalls .initial samples).flatten.count .kchalCalAdc = 0) := by
  induction samples using List.reverseRecOn with
  | nil => simp [chargingCalls, not_seen_nil]
  | append_singleton samples s ih =>
      rw [List.length_append, List.length_singleton] at hlen
      have hkeys' : ∀ t ∈ samples, t.powerKey = false := fun t ht => hkeys t (by simp [ht])
      obtain ⟨hseen, hunseen⟩ := ih hkeys' (by omega)
      have hkey : s.powerKey = false := hkeys s (by simp)
      have hiff := (chargingIter_inv (chargingVars_inv hkeys' (by omega)) hkey hlen).2
      have hone := count_calAdc_le (v := chargingVars samples) hkey
      have hmono : LatchSeen samples → LatchSeen (samples ++ [s]) := fun h =>
        h.mono (List.prefix_append samples [s]).isInfix
      rw [← List.count_pos_iff] at hiff
      rw [chargingCalls_concat, List.flatten_append, List.count_append, List.flatten_singleton,
        ← chargingVars]
      by_cases hbefore : LatchSeen samples
      · have hzero : ¬ 0 < (chargingIter (chargingVars samples) s).calls.count .kchalCalAdc := by
          rw [hiff]
          exact fun h => h.2 hbefore
        have hsum := hseen hbefore
        exact ⟨fun _ => by omega, fun h => absurd (hmono hbefore) h⟩
      · have hsum := hunseen hbefore
        constructor
        · intro h
          have hpos := hiff.mpr ⟨h, hbefore⟩
          omega
        · intro h
          have hzero : ¬ 0 < (chargingIter (chargingVars samples) s).calls.count .kchalCalAdc := by
            rw [hiff]
            exact fun h' => h h'.1
          omega

/-- Pass `n`: its sample, its calls, and the variables that it starts with. -/
lemma chargingCalls_pass {samples : List ChargingSample}
    (hkeys : ∀ s ∈ samples, s.powerKey = false) (hlen : samples.length < 2 ^ 31) {n : ℕ}
    {calls : List ChargingCall} (hcalls : (chargingCalls .initial samples)[n]? = some calls) :
    ∃ s, samples[n]? = some s ∧ samples.take (n + 1) = samples.take n ++ [s] ∧
      LatchInv (samples.take n) (chargingVars (samples.take n)) ∧
      drawnIcons calls = (if (chargingVars (samples.take n)).fixFull then [.full] else s.icons) ∧
      (.kchalCalAdc ∈ calls ↔ FirstLatch n samples) := by
  rw [chargingCalls_getElem?] at hcalls
  obtain ⟨s, hs, rfl⟩ := Option.map_eq_some_iff.mp hcalls
  have hkey : s.powerKey = false := hkeys s (List.mem_of_getElem? hs)
  have htake : samples.take (n + 1) = samples.take n ++ [s] := by
    rw [List.take_add_one, hs]
    rfl
  have hn : n < samples.length := (List.getElem?_eq_some_iff.mp hs).1
  have hlen' : (samples.take n).length + 1 < 2 ^ 31 := by
    rw [List.length_take_of_le hn.le]
    omega
  have hinv : LatchInv (samples.take n) (chargingVars (samples.take n)) :=
    chargingVars_inv (fun t ht => hkeys t (List.mem_of_mem_take ht)) (by omega)
  refine ⟨s, hs, htake, hinv, drawnIcons_chargingIter hkey, ?_⟩
  have hcal := (chargingIter_inv hinv hkey hlen').2
  rw [← htake] at hcal
  exact hcal

/-- The passes of a run with the power button left alone. -/
lemma chargingCalls_fullLatch {samples : List ChargingSample}
    (hkeys : ∀ s ∈ samples, s.powerKey = false) (hlen : samples.length < 2 ^ 31) :
    FullLatch samples (chargingCalls .initial samples) where
  passes := length_chargingCalls _ _
  once := by
    obtain ⟨hseen, hunseen⟩ := count_calAdc hkeys hlen
    by_cases h : LatchSeen samples
    · exact (hseen h).le
    · exact (hunseen h).le.trans (by omega)
  calibrates := by
    intro n calls hcalls
    obtain ⟨_, _, _, _, _, hcal⟩ := chargingCalls_pass hkeys hlen hcalls
    exact hcal
  latched := by
    intro m n calls hfirst hle hcalls
    obtain ⟨s, _, htake, hinv, hdraw, _⟩ := chargingCalls_pass hkeys hlen hcalls
    rw [hdraw]
    by_cases hbefore : LatchSeen (samples.take n)
    · rw [if_pos (hinv.fixed.mpr hbefore)]
    · -- the pass that closes the latch is a full reading
      have hseen : LatchSeen (samples.take n ++ [s]) := by
        rw [← htake]
        exact (seen_take_iff (by decide) (n + 1)).mpr ⟨m, by omega, hfirst⟩
      have hfull := hit_of_seen_concat isFull_not_isCharging hseen hbefore
      have hchg : s.chg = .full := by simpa [isFull] using hfull
      split_ifs
      · rfl
      · rw [ChargingSample.icons, hchg]
  unlatched := by
    intro n s calls hnone hs hcalls
    obtain ⟨s', hs', _, hinv, hdraw, _⟩ := chargingCalls_pass hkeys hlen hcalls
    obtain rfl : s = s' := Option.some.inj (hs.symm.trans hs')
    have hunseen : ¬ LatchSeen (samples.take n) := by
      rw [LatchSeen, seen_take_iff (by decide)]
      rintro ⟨m, hm, hfirst⟩
      exact hnone m hm.le hfirst
    rw [hdraw, if_neg (mt hinv.fixed.mp hunseen)]

/-- **Charging.**  While the power button is left alone, and for less than `2^31` samples: the loop
goes on as long as there is a charger, powers the device down at the first reading without one,
whatever the charger would have said later, and its passes are the charge-full latch. -/
theorem handleCharging_fullLatch (missing : Bool) {before : List ChargingSample}
    {last : ChargingSample} (rest : List ChargingSample)
    (hcharger : ∀ s ∈ before, s.chg ≠ .noCharger) (hgone : last.chg = .noCharger)
    (hkeys : ∀ s ∈ before ++ [last], s.powerKey = false)
    (hlen : (before ++ [last]).length < 2 ^ 31) :
    (handleCharging missing before).loop.ending = .running ∧
      (handleCharging missing (before ++ last :: rest)).loop.ending = .poweredDown ∧
      (handleCharging missing (before ++ last :: rest)).leave
        = [.rtcClkCpuFreqSet 80, .kchalPowerDown] ∧
      FullLatch (before ++ [last])
        (handleCharging missing (before ++ last :: rest)).loop.iters := by
  have hkeys' : ∀ s ∈ before, s.powerKey = false := fun s hs => hkeys s (by simp [hs])
  have hrun := chargingLoop_running hcharger hkeys' .initial
  have hend := chargingLoop_gone rest hcharger hgone hkeys .initial
  simp only [handleCharging, hrun, hend]
  exact ⟨trivial, trivial, rfl, chargingCalls_fullLatch hkeys hlen⟩

/-- A charger that is full for 33 readings, then charges again, and is taken away. -/
theorem handleCharging_fullLatch_flapping :
    FullLatch (List.replicate 33 ⟨.full, 4150, false, 0⟩ ++ [⟨.charging, 4150, false, 0⟩] ++
        [⟨.noCharger, 4150, false, 0⟩])
      (handleCharging false (List.replicate 33 ⟨.full, 4150, false, 0⟩ ++
        [⟨.charging, 4150, false, 0⟩] ++ [⟨.noCharger, 4150, false, 0⟩])).loop.iters := by
  refine (handleCharging_fullLatch false [] ?_ rfl ?_ ?_).2.2.2
  · intro s hs
    rcases List.mem_append.mp hs with hs | hs
    · simp [List.eq_of_mem_replicate hs]
    · simp [List.mem_singleton.mp hs]
  · intro s hs
    rcases List.mem_append.mp hs with hs | hs
    · rcases List.mem_append.mp hs with hs | hs
      · simp [List.eq_of_mem_replicate hs]
      · simp [List.mem_singleton.mp hs]
    · simp [List.mem_singleton.mp hs]
  · simp

end Chooser
