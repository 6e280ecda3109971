import Chooser.Options

/-!
# The settings at boot

Three functions read the settings: `app_main` sets up the access point, `guiSplash` tells the user
about it, and `show_options` edits them.  Each has its own defaults and checks.  The WiFi driver is
not part of the repository: its answers are a parameter, and a failing call stops the boot, as
`ESP_ERROR_CHECK` does.  The boots here are those that come so far; charging and the key lock are
dealt with before.

The access point is started although the splash screen says that WiFi is off, and a channel that was
never stored by the options menu is taken unchecked.  So the boots agree with what the user sees
exactly as long as WiFi is on and the channel is one, which it always is after a session of the menu
(`boots_agree`).
-/

namespace Chooser

open CStr Machine

/-! ## The functions -/

/-- `wifi_config_t`, the part for the access point; the mode 0 is `WIFI_AUTH_OPEN`. -/
structure ApConfig where
  ssid : Bytes
  authmode : ℕ
  maxConnection : ℕ
  beaconInterval : ℕ
  channel : UInt8

/-- The calls to the WiFi driver whose answers are checked. -/
inductive WifiCall where
  | eventLoopInit
  | wifiInit
  | setStorageRam
  | setModeAp
  | setConfig (ap : ApConfig)
  | start

/-- The channel that `app_main` takes. -/
def bootChannel (keys : NvsKeys) : UInt8 := (nvsByte keys (ascii "channel")).getD 5

/-- The calls of `app_main`, in their order. -/
def wifiCalls (keys : NvsKeys) : List WifiCall :=
  [.eventLoopInit, .wifiInit, .setStorageRam, .setModeAp,
    .setConfig ⟨ascii "pkspr", 0, 2, 200, bootChannel keys⟩, .start]

/-- `ESP_ERROR_CHECK`, call by call: the calls that are made, and whether the last one has been
answered well. -/
def espErrorCheck (drv : WifiCall → EspErr) : List WifiCall → List WifiCall × Bool
  | [] => ([], true)
  | c :: cs =>
      if drv c = espOk then
        let r := espErrorCheck drv cs
        (c :: r.1, r.2)
      else ([c], false)

/-- The WiFi set-up of `app_main`: the calls, and whether the access point is started. -/
def appMainWifi (drv : WifiCall → EspErr) (keys : NvsKeys) : List WifiCall × Bool :=
  espErrorCheck drv (wifiCalls keys)

/-- The WiFi setting that `guiSplash` reads. -/
def splashWifi (keys : NvsKeys) : UInt8 := (nvsByte keys (ascii "wifi")).getD 1

/-- `guiSplash`: the texts that are put on the screen, with their places. -/
def guiSplash (keys : NvsKeys) : List (ℕ × ℕ × Bytes) :=
  (if splashWifi keys ≠ 0 then
    [(0, 0, ascii "WIFI AP"), (0, 8, ascii " pkspr"), (0, 16, ascii "GO TO:"),
      (0, 24, ascii "HTTP://192.168.4.1/")]
  else
    [(0, 0, ascii "   NOTE:"), (0, 8, ascii "WiFi is off"), (0, 16, ascii "and can be "),
      (0, 24, ascii "enabled in "), (0, 32, ascii "the options"), (0, 40, ascii "menu.      ")]) ++
  [(30, 56, ascii "MENU")]

/-! ## Sessions and boots -/

/-- What is known about the device: the settings, the number of boots, and, for an observer, whether
a session of the options menu has come to its end. -/
structure Sprite where
  keys : NvsKeys
  boots : ℕ
  edited : Bool

inductive SpriteEvent where
  /-- A session of the options menu, with the volume and the brightness at its beginning. -/
  | options (volume brightness : UInt8) (presses : List Press)
  | reboot

/-- A session may reboot the device at its end, and a fault does.  One that is not left stores
nothing. -/
def spriteStep (d : Sprite) : SpriteEvent → Sprite
  | .options volume brightness presses =>
      match run (optionsStep d.keys) (optionsStart d.keys volume brightness) presses with
      | .inMenu _ => d
      | .left _ keys reboot => ⟨keys, if reboot then d.boots + 1 else d.boots, true⟩
      | .fault => { d with boots := d.boots + 1 }
  | .reboot => { d with boots := d.boots + 1 }

/-- The channels that are handed to the driver. -/
def handedChannels (calls : List WifiCall) : List UInt8 :=
  calls.filterMap fun c => match c with
    | .setConfig ap => some ap.channel
    | _ => none

/-- The menu has rows, so that a row can be written as a number. -/
instance menuRows : NeZero 7 := ⟨by decide⟩

/-- `show_options` would display this channel, in the third row. -/
def DisplaysChannel (keys : NvsKeys) (c : UInt8) : Prop :=
  ∀ volume brightness, ∃ s, optionsStart keys volume brightness = .inMenu s ∧
    rowText s 2 = ascii "Channel " ++ sprintfD c.toNat

/-- **A boot agrees with what the user is shown.** -/
def BootAgrees (drv : WifiCall → EspErr) (keys : NvsKeys) : Prop :=
  ((appMainWifi drv keys).2 ↔ (0, 0, ascii "WIFI AP") ∈ guiSplash keys) ∧
    ((appMainWifi drv keys).2 → ∃ c, handedChannels (appMainWifi drv keys).1 = [c] ∧
      (1 ≤ c.toNat ∧ c.toNat ≤ 13) ∧ DisplaysChannel keys c)

/-- The channel is one. -/
def ChannelOk (keys : NvsKeys) : Prop :=
  1 ≤ (bootChannel keys).toNat ∧ (bootChannel keys).toNat ≤ 13

/-- **The condition of a boot**: WiFi is on, and the channel is one.  Where it is none, the boot
agrees only if WiFi is off and the driver does not take the channel either. -/
def BootMeets (drv : WifiCall → EspErr) (d : Sprite) : Prop :=
  (ChannelOk d.keys ∧ splashWifi d.keys ≠ 0) ∨
    (¬ ChannelOk d.keys ∧ splashWifi d.keys = 0 ∧
      drv (.setConfig ⟨ascii "pkspr", 0, 2, 200, bootChannel d.keys⟩) ≠ espOk)

/-- The step brings a boot with this property. -/
def AtBoot (P : (WifiCall → EspErr) → Sprite → Prop) (drv : ℕ → WifiCall → EspErr) (d : Sprite)
    (e : SpriteEvent) : Prop :=
  d.boots < (spriteStep d e).boots → P (drv d.boots) (spriteStep d e)

/-- What is relied on: the driver takes a channel that is one, and its other calls succeed. -/
structure WifiLaws (drv : WifiCall → EspErr) : Prop where
  eventLoopInit : drv .eventLoopInit = espOk
  wifiInit : drv .wifiInit = espOk
  setStorageRam : drv .setStorageRam = espOk
  setModeAp : drv .setModeAp = espOk
  setConfig : ∀ ap, 1 ≤ ap.channel.toNat → ap.channel.toNat ≤ 13 → drv (.setConfig ap) = espOk
  start : drv .start = espOk

/-! ## One boot -/

section Boot

variable {drv : WifiCall → EspErr}

/-- The access point is started as soon as the driver takes the channel. -/
lemma appMainWifi_started (hdrv : WifiLaws drv) (keys : NvsKeys) :
    (appMainWifi drv keys).2 ↔
      drv (.setConfig ⟨ascii "pkspr", 0, 2, 200, bootChannel keys⟩) = espOk := by
  simp only [appMainWifi, wifiCalls, espErrorCheck, hdrv.eventLoopInit, hdrv.wifiInit,
    hdrv.setStorageRam, hdrv.setModeAp, hdrv.start, if_true]
  split_ifs with htaken
  · exact iff_of_true rfl htaken
  · exact iff_of_false not_false htaken

/-- The channel is handed over as it was read. -/
lemma handedChannels_appMainWifi (hdrv : WifiLaws drv) (keys : NvsKeys) :
    handedChannels (appMainWifi drv keys).1 = [bootChannel keys] := by
  simp only [appMainWifi, wifiCalls, espErrorCheck, hdrv.eventLoopInit, hdrv.wifiInit,
    hdrv.setStorageRam, hdrv.setModeAp, hdrv.start, if_true]
  split_ifs <;> rfl

lemma mem_guiSplash (keys : NvsKeys) :
    (0, 0, ascii "WIFI AP") ∈ guiSplash keys ↔ splashWifi keys ≠ 0 := by
  unfold guiSplash
  split_ifs with h
  · exact iff_of_true (by decide) h
  · exact iff_of_false (by decide) h

/-- `app_main` and `show_options` read the same channel, as long as it is one. -/
lemma displaysChannel_bootChannel {keys : NvsKeys} (h : ChannelOk keys) :
    DisplaysChannel keys (bootChannel keys) := by
  intro volume brightness
  obtain ⟨s, hs, hinv, hchannel⟩ := optionsStart_inv keys volume brightness
  refine ⟨s, hs, ?_⟩
  have hread : nvsGetU8 keys (ascii "channel") 5 = (bootChannel keys).toNat := by
    rw [nvsGetU8, bootChannel]
    cases nvsByte keys (ascii "channel") with
    | none => rfl
    | some b =>
        dsimp only [Option.getD_some]
        omega
  have hshown : s.channel = (bootChannel keys).toNat := by
    obtain ⟨hlo, hhi⟩ := h
    rw [hchannel]
    simp only [optionsRead, hread]
    rw [if_neg (by omega)]
  rw [← hshown]
  exact hinv.labels.rows 2

/-- **One boot** agrees with what is shown exactly when it meets the condition. -/
lemma bootAgrees_iff (hdrv : WifiLaws drv) (d : Sprite) :
    BootAgrees drv d.keys ↔ BootMeets drv d := by
  rw [BootAgrees, appMainWifi_started hdrv, handedChannels_appMainWifi hdrv, mem_guiSplash]
  rcases em (ChannelOk d.keys) with hok | hbad
  · have htaken := hdrv.setConfig ⟨ascii "pkspr", 0, 2, 200, bootChannel d.keys⟩ hok.1 hok.2
    refine ⟨fun h => Or.inl ⟨hok, h.1.1 htaken⟩, ?_⟩
    rintro (⟨-, hon⟩ | ⟨hbad, -⟩)
    · exact ⟨iff_of_true htaken hon, fun _ => ⟨_, rfl, hok, displaysChannel_bootChannel hok⟩⟩
    · exact absurd hok hbad
  · refine ⟨fun h => Or.inr ⟨hbad, ?_⟩, ?_⟩
    · have hrefused : drv (.setConfig ⟨ascii "pkspr", 0, 2, 200, bootChannel d.keys⟩)
          ≠ espOk := by
        intro htaken
        obtain ⟨c, hc, hrange, -⟩ := h.2 htaken
        rw [← (List.cons.inj hc).1] at hrange
        exact hbad hrange
      exact ⟨not_not.1 (mt h.1.2 hrefused), hrefused⟩
    · rintro (⟨hok, -⟩ | ⟨-, hoff, hrefused⟩)
      · exact absurd hok hbad
      · exact ⟨iff_of_false hrefused (not_not.2 hoff), fun htaken => absurd htaken hrefused⟩

end Boot

/-! ## Runs -/

/-- A session that is left has stored a channel. -/
lemma channelOk_of_left {keys keys' : NvsKeys} {s : OptionsState} {reboot : Bool}
    (h : PhaseInv keys (.left s keys' reboot)) : ChannelOk keys' := by
  obtain ⟨hinv, rfl⟩ := h
  obtain ⟨-, -, b, hb, hchannel⟩ := optionsStore_holds keys hinv.values
  have hrange := hinv.values.channel
  rw [ChannelOk, bootChannel, hb, Option.getD_some]
  omega

/-- **What the menu has stored is a channel**, whatever comes then. -/
lemma spriteStep_edited (d : Sprite) (e : SpriteEvent) (h : d.edited → ChannelOk d.keys) :
    (spriteStep d e).edited → ChannelOk (spriteStep d e).keys := by
  cases e with
  | options volume brightness presses =>
      have hsession := session_inv d.keys volume brightness presses
      rw [spriteStep]
      cases hphase : run (optionsStep d.keys) (optionsStart d.keys volume brightness) presses with
      | inMenu s => exact h
      | left s keys reboot =>
          rw [hphase] at hsession
          exact fun _ => channelOk_of_left hsession
      | fault => exact h
  | reboot => exact h

/-- **The boots agree with what the user is shown exactly as long as they meet the condition.**
From any contents of the settings, over any sequence of sessions and reboots: the access point is
started if and only if the splash screen says so, on the channel that the menu displays, if and only
if at each boot WiFi is on and the channel is one — or neither is so, and the driver refuses the
channel.  Once a session of the menu has been left the channel is one. -/
theorem boots_agree {drv : ℕ → WifiCall → EspErr} (hdrv : ∀ n, WifiLaws (drv n)) (keys : NvsKeys)
    (es : List SpriteEvent) :
    (AllSteps spriteStep (AtBoot (fun drv d => BootAgrees drv d.keys) drv) ⟨keys, 0, false⟩ es ↔
      AllSteps spriteStep (AtBoot BootMeets drv) ⟨keys, 0, false⟩ es) ∧
    ((run spriteStep ⟨keys, 0, false⟩ es).edited →
      ChannelOk (run spriteStep ⟨keys, 0, false⟩ es).keys) := by
  refine ⟨AllSteps.congr (fun d e => ?_) es,
    run_invariant_of_step (fun d e h => spriteStep_edited d e h) (fun hedited => ?_) es⟩
  · exact imp_congr_right fun _ => bootAgrees_iff (hdrv _) (spriteStep d e)
  · cases hedited

/-- A driver that takes the channels 1 to 13, and answers `ESP_ERR_INVALID_ARG` to any other. -/
def strictWifi : WifiCall → EspErr
  | .setConfig ap => if 1 ≤ ap.channel.toNat ∧ ap.channel.toNat ≤ 13 then espOk else 0x102
  | _ => espOk

lemma strictWifi_laws : WifiLaws strictWifi where
  eventLoopInit := rfl
  wifiInit := rfl
  setStorageRam := rfl
  setModeAp := rfl
  setConfig _ hlo hhi := if_pos ⟨hlo, hhi⟩
  start := rfl

/-- The settings with a channel that there is not. -/
def keysNoChannel : NvsKeys := nvsSetU8 NvsKeys.empty (ascii "channel") 200

/-- The menu is opened and left, which stores the channel 5 and reboots the device. -/
theorem boots_agree_left :
    AllSteps spriteStep (AtBoot (fun drv d => BootAgrees drv d.keys) fun _ => strictWifi)
      ⟨keysNoChannel, 0, false⟩ [.options 128 128 [⟨.b, 1⟩], .reboot] := by
  have hmeets : ∀ drv, BootMeets drv
      (spriteStep ⟨keysNoChannel, 0, false⟩ (.options 128 128 [⟨.b, 1⟩])) := by
    intro drv
    refine Or.inl ⟨?_, by decide⟩
    unfold ChannelOk
    decide
  exact (boots_agree (fun _ => strictWifi_laws) keysNoChannel
    [.options 128 128 [⟨.b, 1⟩], .reboot]).1.2 ⟨fun _ => hmeets _, fun _ => hmeets _, trivial⟩

/-- The settings with WiFi off. -/
def keysWifiOff : NvsKeys := nvsSetU8 NvsKeys.empty (ascii "wifi") 0

/-- **With WiFi off the access point is started**, behind a splash screen that says it is off. -/
theorem boots_not_agree :
    ¬ AllSteps spriteStep (AtBoot (fun drv d => BootAgrees drv d.keys) fun _ => strictWifi)
      ⟨keysWifiOff, 0, false⟩ [.reboot] := by
  intro h
  have hagrees : BootAgrees strictWifi keysWifiOff := h.1 (Nat.lt_succ_self 0)
  have hstarted : (appMainWifi strictWifi keysWifiOff).2 :=
    (appMainWifi_started strictWifi_laws keysWifiOff).2 rfl
  have hoff : splashWifi keysWifiOff = 0 := by
    rw [splashWifi, keysWifiOff, nvsByte_set_self]
    rfl
  exact (mem_guiSplash keysWifiOff).1 (hagrees.1.1 hstarted) hoff

end Chooser
