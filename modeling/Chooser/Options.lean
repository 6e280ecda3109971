import Chooser.Lib.Machine
import Chooser.Nvs

/-!
# The options menu

`show_options` reads three settings, shows a menu of five options, `Debug info` and `Exit`, and
stores the settings when the menu is left.  An option is known under four numbers: its id, its place
in `odata`, its text slot and its row.  Values change on two paths: `option_menu_cb` is called for
every button, with the row that is selected, and the loop in `show_options` acts on the row that is
chosen with A.  The menu itself (`kcugui_menu`) is not part of the repository; here a session is
the list of the buttons pressed, each with its row.

The callback follows the `user` pointer of the row, and the last two rows have none.  As long as
Left and Right are not pressed there, a session is safe, however long it is: the labels show the
values, the values are in range, and what is stored in the end is what was shown
(`options_safe`).
-/

namespace Chooser

open CStr Machine

/-! ## The tables -/

inductive Button where
  | power
  | a
  | b
  | select
  | start
  | up
  | down
  | left
  | right
deriving DecidableEq, Repr

/-- `OPT_KEYLOCK` to `OPT_CHANNEL` -/
inductive OptId where
  | keylock
  | wifi
  | vol
  | bright
  | channel
deriving DecidableEq, Repr

/-- The local variables that an `opt_val` points to. -/
inductive OptVar where
  | keylock
  | wifiEn
  | channel
deriving DecidableEq, Repr

/-- `opt_data_t`; the name is a slot of `text`, and the pointer may be `NULL`. -/
structure OptData where
  optId : OptId
  optName : Fin 5
  optVal : Option OptVar

/-- `odata` -/
def odata : Fin 5 → OptData :=
  ![⟨.keylock, 0, some .keylock⟩, ⟨.wifi, 1, some .wifiEn⟩, ⟨.vol, 2, none⟩, ⟨.bright, 3, none⟩,
    ⟨.channel, 4, some .channel⟩]

/-- The text of a row: a slot of `text`, or a literal. -/
inductive RowName where
  | slot (i : Fin 5)
  | literal (text : Bytes)

/-- A row of the menu; `user` is a place in `odata`, or `NULL`. -/
structure MenuItem where
  name : RowName
  user : Option (Fin 5)

/-- `menu`, up to the item that ends it. -/
def optionsMenu : Fin 7 → MenuItem :=
  ![⟨.slot 0, some 0⟩, ⟨.slot 1, some 1⟩, ⟨.slot 4, some 4⟩, ⟨.slot 2, some 2⟩, ⟨.slot 3, some 3⟩,
    ⟨.literal (ascii "Debug info"), none⟩, ⟨.literal (ascii "Exit"), none⟩]

/-! ## The functions -/

/-- The volume and the brightness, which the HAL keeps, and the values it has been given. -/
structure Hal where
  volume : UInt8
  brightness : UInt8
  volumeSet : List ℤ
  brightnessSet : List ℤ

/-- `kchal_set_volume(n)` -/
def Hal.setVolume (h : Hal) (n : ℤ) : Hal :=
  { h with volume := UInt8.ofInt n, volumeSet := h.volumeSet ++ [n] }

/-- `kchal_set_brightness(n)` -/
def Hal.setBrightness (h : Hal) (n : ℤ) : Hal :=
  { h with brightness := UInt8.ofInt n, brightnessSet := h.brightnessSet ++ [n] }

/-- The local variables of `show_options`, and the HAL. -/
structure OptionsState where
  keylock : ℤ
  wifiEn : ℤ
  channel : ℤ
  wifiOld : ℤ
  channelOld : ℤ
  text : Fin 5 → Bytes
  hal : Hal

namespace OptionsState

/-- `*opt_val` -/
def get (s : OptionsState) : OptVar → ℤ
  | .keylock => s.keylock
  | .wifiEn => s.wifiEn
  | .channel => s.channel

/-- `*opt_val=n` -/
def set (s : OptionsState) (n : ℤ) : OptVar → OptionsState
  | .keylock => { s with keylock := n }
  | .wifiEn => { s with wifiEn := n }
  | .channel => { s with channel := n }

/-- `sprintf(opt_name, ...)` -/
def setText (s : OptionsState) (i : Fin 5) (text : Bytes) : OptionsState :=
  { s with text := Function.update s.text i text }

end OptionsState

/-- `!n` -/
def cNot (n : ℤ) : ℤ := if n = 0 then 1 else 0

/-- `n?"ON":"OFF"` -/
def onOff (n : ℤ) : Bytes := if n ≠ 0 then ascii "ON" else ascii "OFF"

/-- `option_set_text`; `none` is a `NULL` that is dereferenced. -/
def optionSetText (t : OptData) (s : OptionsState) : Option OptionsState :=
  match t.optId with
  | .keylock => t.optVal.map fun v => s.setText t.optName (ascii "Keylock " ++ onOff (s.get v))
  | .wifi => t.optVal.map fun v => s.setText t.optName (ascii "WiFi    " ++ onOff (s.get v))
  | .channel => t.optVal.map fun v => s.setText t.optName (ascii "Channel " ++ sprintfD (s.get v))
  | .vol => some (s.setText t.optName (ascii "Volume " ++ sprintfD s.hal.volume.toNat))
  | .bright => some (s.setText t.optName (ascii "Bright " ++ sprintfD s.hal.brightness.toNat))

/-- One step down on Left and up on any other button, kept between two bounds. -/
def nudge (button : Button) (k lo hi n : ℤ) : ℤ :=
  let n := if button = .left then n - k else n + k
  let n := if n < lo then lo else n
  if n > hi then hi else n

/-- What Left and Right do to the option, before its text is set. -/
def optionPress (button : Button) (t : OptData) (s : OptionsState) : Option OptionsState :=
  match t.optId with
  | .keylock | .wifi => t.optVal.map fun v => s.set (cNot (s.get v)) v
  | .vol => some { s with hal := s.hal.setVolume (nudge button 10 0 255 s.hal.volume.toNat) }
  | .bright =>
      some { s with hal := s.hal.setBrightness (nudge button 10 0 255 s.hal.brightness.toNat) }
  | .channel => t.optVal.map fun v => s.set (nudge button 1 1 13 (s.get v)) v

/-- What the callback tells the menu. -/
inductive CbAnswer where
  | nothing
  | cancel
  | refresh
deriving DecidableEq, Repr

/-- `option_menu_cb` -/
def optionMenuCb (button : Button) (item : Fin 7) (s : OptionsState) :
    Option (CbAnswer × OptionsState) := do
  if button = .b then return (.cancel, s)
  if button ≠ .left ∧ button ≠ .right then return (.nothing, s)
  let t ← (optionsMenu item).user.map odata
  let s ← optionPress button t s
  let s ← optionSetText t s
  return (.refresh, s)

/-- The local variables of `show_options` once the settings are read; the slots of `text` are not
filled yet. -/
def optionsRead (keys : NvsKeys) (volume brightness : UInt8) : OptionsState :=
  let keylock := nvsGetU8 keys (ascii "kl") 0 % 256
  let wifiEn := nvsGetU8 keys (ascii "wifi") 1 % 256
  let channelOld := nvsGetU8 keys (ascii "channel") 5
  let channel := if channelOld < 1 ∨ channelOld > 13 then 5 else channelOld
  ⟨keylock, wifiEn, channel, wifiEn, channelOld, fun _ => [], ⟨volume, brightness, [], []⟩⟩

/-- `show_options` up to the loop. -/
def optionsEntry (keys : NvsKeys) (volume brightness : UInt8) : Option OptionsState :=
  (List.finRange 5).foldlM (fun s i => optionSetText (odata i) s)
    (optionsRead keys volume brightness)

/-- The body of the loop, behind `kcugui_menu`; the debug screen (`ch==5`) changes nothing. -/
def optionsChosen (ch : ℤ) (s : OptionsState) : Option OptionsState := do
  let s ← if ch = 0 then optionSetText (odata 0) { s with keylock := cNot s.keylock } else some s
  if ch = 1 then optionSetText (odata 1) { s with wifiEn := cNot s.wifiEn } else some s

/-- Behind the loop: the settings are stored. -/
def optionsStore (keys : NvsKeys) (s : OptionsState) : NvsKeys :=
  let keys := nvsSetU8 keys (ascii "kl") s.keylock
  let keys := nvsSetU8 keys (ascii "wifi") s.wifiEn
  nvsSetU8 keys (ascii "channel") s.channel

/-- Is the device rebooted then? -/
def optionsReboot (s : OptionsState) : Bool := s.wifiOld ≠ s.wifiEn || s.channel ≠ s.channelOld

/-! ## A session -/

/-- A button that is pressed, and the row that is selected. -/
structure Press where
  button : Button
  row : Fin 7
deriving DecidableEq, Repr

/-- Where a session is: in the menu, left with these settings stored, or gone with a `NULL`. -/
inductive OptionsPhase where
  | inMenu (s : OptionsState)
  | left (s : OptionsState) (keys : NvsKeys) (reboot : Bool)
  | fault

/-- `kcugui_menu` has returned `ch`. -/
def menuReturned (keys : NvsKeys) (ch : ℤ) (s : OptionsState) : OptionsPhase :=
  match optionsChosen ch s with
  | none => .fault
  | some s =>
      if ch ≠ 6 ∧ ch ≠ -1 then .inMenu s else .left s (optionsStore keys s) (optionsReboot s)

/-- A button is pressed in the menu: the callback is called, and the menu returns -1 when it says
so, and the row on A. -/
def optionsStep (keys : NvsKeys) : OptionsPhase → Press → OptionsPhase
  | .inMenu s, e =>
      match optionMenuCb e.button e.row s with
      | none => .fault
      | some (answer, s) =>
          if answer = .cancel then menuReturned keys (-1) s
          else if e.button = .a then menuReturned keys e.row s
          else .inMenu s
  | phase, _ => phase

/-- The session begins. -/
def optionsStart (keys : NvsKeys) (volume brightness : UInt8) : OptionsPhase :=
  match optionsEntry keys volume brightness with
  | none => .fault
  | some s => .inMenu s

/-! ## A safe session -/

/-- The label of an option, with its value. -/
def optionLabel (s : OptionsState) : OptId → Bytes
  | .keylock => ascii "Keylock " ++ onOff s.keylock
  | .wifi => ascii "WiFi    " ++ onOff s.wifiEn
  | .vol => ascii "Volume " ++ sprintfD s.hal.volume.toNat
  | .bright => ascii "Bright " ++ sprintfD s.hal.brightness.toNat
  | .channel => ascii "Channel " ++ sprintfD s.channel

/-- The options, in the order in which they are shown. -/
def shownOptions : Fin 5 → OptId := ![.keylock, .wifi, .channel, .vol, .bright]

/-- What a row shows. -/
def rowText (s : OptionsState) (row : Fin 7) : Bytes :=
  match (optionsMenu row).name with
  | .slot i => s.text i
  | .literal text => text

/-- The values are in range. -/
structure ValuesOk (s : OptionsState) : Prop where
  keylock : 0 ≤ s.keylock ∧ s.keylock ≤ 255
  wifiEn : 0 ≤ s.wifiEn ∧ s.wifiEn ≤ 255
  channel : 1 ≤ s.channel ∧ s.channel ≤ 13
  volume : ∀ n ∈ s.hal.volumeSet, 0 ≤ n ∧ n ≤ 255
  brightness : ∀ n ∈ s.hal.brightnessSet, 0 ≤ n ∧ n ≤ 255

/-- The menu is as it should be: values in range, and the five labels show them, in 32 bytes. -/
structure OptionsShown (s : OptionsState) : Prop where
  values : ValuesOk s
  rows : ∀ row : Fin 5, rowText s (row.castLE (by decide)) = optionLabel s (shownOptions row)
  fits : ∀ i, (s.text i).length < 32

/-- A key holds this value. -/
def Holds (keys : NvsKeys) (key : Bytes) (n : ℤ) : Prop :=
  ∃ b, nvsByte keys key = some b ∧ (b.toNat : ℤ) = n

/-- **The session is as it should be**, with these settings at its beginning. -/
def SessionOk (keys : NvsKeys) : OptionsPhase → Prop
  | .inMenu s => OptionsShown s
  | .left s keys' reboot => OptionsShown s ∧
      Holds keys' (ascii "kl") s.keylock ∧ Holds keys' (ascii "wifi") s.wifiEn ∧
      Holds keys' (ascii "channel") s.channel ∧
      (reboot ↔ nvsGetU8 keys' (ascii "wifi") 1 ≠ nvsGetU8 keys (ascii "wifi") 1 ∨
        nvsGetU8 keys' (ascii "channel") 5 ≠ nvsGetU8 keys (ascii "channel") 5)
  | .fault => False

/-- The press ends the session. -/
def Press.leaves (e : Press) : Bool := e.button = .b || (e.button = .a && e.row = 6)

/-- The press is Left or Right on `Debug info` or `Exit`. -/
def Press.offOptions (e : Press) : Bool :=
  (e.button = .left || e.button = .right) && (e.row = 5 || e.row = 6)

/-- **The condition**: up to the press that ends the session, none is Left or Right on a row without
an option. -/
def OnOptions (es : List Press) : Prop :=
  ∀ e ∈ es.takeWhile fun e => !e.leaves, ¬ e.offOptions

/-! ## The tables fit together -/

/-- Every text slot shows the option of its place in `odata`. -/
def LabelsOk (s : OptionsState) : Prop := ∀ i, s.text i = optionLabel s (odata i).optId

/-- **Setting the text** of an option never follows a `NULL`: it puts the label in its slot. -/
lemma optionSetText_odata (i : Fin 5) (s : OptionsState) :
    optionSetText (odata i) s = some (s.setText i (optionLabel s (odata i).optId)) := by
  fin_cases i <;> rfl

/-- A label does not depend on the texts. -/
@[simp] lemma optionLabel_text (s : OptionsState) (text : Fin 5 → Bytes) (o : OptId) :
    optionLabel { s with text := text } o = optionLabel s o := by
  cases o <;> rfl

@[simp] lemma optionLabel_setText (s : OptionsState) (i : Fin 5) (text : Bytes) (o : OptId) :
    optionLabel (s.setText i text) o = optionLabel s o := optionLabel_text s _ o

/-- The rows show the slots of their own options. -/
lemma LabelsOk.rows {s : OptionsState} (h : LabelsOk s) (row : Fin 5) :
    rowText s (row.castLE (by decide)) = optionLabel s (shownOptions row) := by
  fin_cases row
  · exact h 0
  · exact h 1
  · exact h 4
  · exact h 2
  · exact h 3

lemma length_sprintfD_byte {n : ℤ} (h : 0 ≤ n ∧ n ≤ 255) : (sprintfD n).length ≤ 3 := by
  rw [sprintfD_of_nonneg h.1]
  exact length_decimal_le (by decide) (by omega)

lemma length_onOff (n : ℤ) : (onOff n).length ≤ 3 := by
  unfold onOff
  split_ifs <;> decide

/-- A label fits in its buffer. -/
lemma length_optionLabel {s : OptionsState} (h : ValuesOk s) (o : OptId) :
    (optionLabel s o).length < 32 := by
  have hbyte : ∀ b : UInt8, 0 ≤ (b.toNat : ℤ) ∧ (b.toNat : ℤ) ≤ 255 := fun b => by
    have hb := b.toNat_lt
    omega
  have hchannel : 0 ≤ s.channel ∧ s.channel ≤ 255 := by
    have hc := h.channel
    omega
  have hhead : ∀ head tail : Bytes, head.length ≤ 8 → tail.length ≤ 3 →
      (head ++ tail).length < 32 := fun head tail hhead htail => by
    rw [List.length_append]
    omega
  cases o with
  | keylock => exact hhead _ _ (by decide) (length_onOff _)
  | wifi => exact hhead _ _ (by decide) (length_onOff _)
  | vol => exact hhead _ _ (by decide) (length_sprintfD_byte (hbyte _))
  | bright => exact hhead _ _ (by decide) (length_sprintfD_byte (hbyte _))
  | channel => exact hhead _ _ (by decide) (length_sprintfD_byte hchannel)

lemma LabelsOk.shown {s : OptionsState} (h : LabelsOk s) (hv : ValuesOk s) : OptionsShown s where
  values := hv
  rows := h.rows
  fits i := by
    rw [h i]
    exact length_optionLabel hv _

/-! ## Changing one option -/

/-- Only the option of this place has changed, and its text is not set yet. -/
structure OptionChange (i : Fin 5) (s s' : OptionsState) : Prop where
  values : ValuesOk s → ValuesOk s'
  text : s'.text = s.text
  others : ∀ j, j ≠ i → optionLabel s' (odata j).optId = optionLabel s (odata j).optId
  wifiOld : s'.wifiOld = s.wifiOld
  channelOld : s'.channelOld = s.channelOld

/-- Once its text is set, the labels are right again. -/
lemma OptionChange.labels {i : Fin 5} {s s' : OptionsState} (h : OptionChange i s s')
    (hs : LabelsOk s) : LabelsOk (s'.setText i (optionLabel s' (odata i).optId)) := by
  intro j
  rw [optionLabel_setText, OptionsState.setText]
  rcases eq_or_ne j i with rfl | hj
  · exact Function.update_self ..
  · calc Function.update s'.text i _ j = s'.text j := Function.update_of_ne hj ..
      _ = s.text j := by rw [h.text]
      _ = optionLabel s (odata j).optId := hs j
      _ = optionLabel s' (odata j).optId := (h.others j hj).symm

lemma nudge_range (button : Button) (k n : ℤ) {lo hi : ℤ} (h : lo ≤ hi) :
    lo ≤ nudge button k lo hi n ∧ nudge button k lo hi n ≤ hi := by
  unfold nudge
  dsimp only
  split_ifs <;> omega

lemma cNot_range (n : ℤ) : 0 ≤ cNot n ∧ cNot n ≤ 255 := by
  unfold cNot
  split_ifs <;> decide

/-- A toggle, on either of the two paths. -/
lemma optionChange_keylock (s : OptionsState) :
    OptionChange 0 s { s with keylock := cNot s.keylock } where
  values h := { h with keylock := cNot_range _ }
  text := rfl
  others j hj := by fin_cases j <;> first | rfl | exact absurd rfl hj
  wifiOld := rfl
  channelOld := rfl

lemma optionChange_wifi (s : OptionsState) :
    OptionChange 1 s { s with wifiEn := cNot s.wifiEn } where
  values h := { h with wifiEn := cNot_range _ }
  text := rfl
  others j hj := by fin_cases j <;> first | rfl | exact absurd rfl hj
  wifiOld := rfl
  channelOld := rfl

/-- What a value is set to is remembered, and in range as all before it. -/
lemma forall_mem_concat {l : List ℤ} {n : ℤ} (h : ∀ m ∈ l, 0 ≤ m ∧ m ≤ 255)
    (hn : 0 ≤ n ∧ n ≤ 255) : ∀ m ∈ l ++ [n], 0 ≤ m ∧ m ≤ 255 := by
  intro m hm
  rcases List.mem_append.1 hm with hm | hm
  · exact h m hm
  · exact List.mem_singleton.1 hm ▸ hn

/-- **Left and Right change one option**, the one of the row, and keep it in range. -/
lemma optionPress_odata (button : Button) (i : Fin 5) (s : OptionsState) :
    ∃ s', optionPress button (odata i) s = some s' ∧ OptionChange i s s' := by
  fin_cases i
  · exact ⟨_, rfl, optionChange_keylock s⟩
  · exact ⟨_, rfl, optionChange_wifi s⟩
  · refine ⟨_, rfl, fun h => ?_, rfl, fun j hj => ?_, rfl, rfl⟩
    · exact { h with volume := forall_mem_concat h.volume (nudge_range _ _ _ (by decide)) }
    · fin_cases j <;> first | rfl | exact absurd rfl hj
  · refine ⟨_, rfl, fun h => ?_, rfl, fun j hj => ?_, rfl, rfl⟩
    · exact { h with brightness := forall_mem_concat h.brightness (nudge_range _ _ _ (by decide)) }
    · fin_cases j <;> first | rfl | exact absurd rfl hj
  · refine ⟨_, rfl, fun h => ?_, rfl, fun j hj => ?_, rfl, rfl⟩
    · exact { h with channel := nudge_range _ _ _ (by decide) }
    · fin_cases j <;> first | rfl | exact absurd rfl hj

/-! ## What a press does -/

/-- In the menu: labels and values are right, and the settings as they were read are remembered. -/
structure MenuInv (keys : NvsKeys) (s : OptionsState) : Prop where
  labels : LabelsOk s
  values : ValuesOk s
  wifiOld : s.wifiOld = nvsGetU8 keys (ascii "wifi") 1
  channelOld : s.channelOld = nvsGetU8 keys (ascii "channel") 5

section Session

variable {keys : NvsKeys} {s : OptionsState}

/-- A change of one option, with its text, keeps the invariant. -/
lemma MenuInv.change (h : MenuInv keys s) {i : Fin 5} {s' : OptionsState}
    (hc : OptionChange i s s') :
    MenuInv keys (s'.setText i (optionLabel s' (odata i).optId)) where
  labels := hc.labels h.labels
  values := { hc.values h.values with }
  wifiOld := hc.wifiOld.trans h.wifiOld
  channelOld := hc.channelOld.trans h.channelOld

/-- Setting the texts of several options, one after the other. -/
lemma optionSetText_fold (l : List (Fin 5)) (s : OptionsState) :
    l.foldlM (fun s i => optionSetText (odata i) s) s = some { s with
      text := fun j => if j ∈ l then optionLabel s (odata j).optId else s.text j } := by
  induction l generalizing s with
  | nil => simp
  | cons i l ih =>
      rw [List.foldlM_cons, optionSetText_odata, Option.bind_eq_bind, Option.bind_some, ih]
      congr 2
      funext j
      rcases eq_or_ne j i with rfl | hj
      · simp [OptionsState.setText]
      · simp [OptionsState.setText, hj]

/-- **Setting all texts.** -/
lemma optionSetText_all (s : OptionsState) :
    (List.finRange 5).foldlM (fun s i => optionSetText (odata i) s) s
      = some { s with text := fun j => optionLabel s (odata j).optId } := by
  simp [optionSetText_fold]

/-- What is read is in range, the channel by the check behind the reads. -/
lemma optionsRead_values (keys : NvsKeys) (volume brightness : UInt8) :
    ValuesOk (optionsRead keys volume brightness) where
  keylock := by
    simp only [optionsRead]
    omega
  wifiEn := by
    simp only [optionsRead]
    omega
  channel := by
    simp only [optionsRead]
    split_ifs <;> omega
  volume n hn := by cases hn
  brightness n hn := by cases hn

/-- **The session begins** in the menu, whatever is stored. -/
lemma optionsStart_inv (keys : NvsKeys) (volume brightness : UInt8) :
    ∃ s, optionsStart keys volume brightness = .inMenu s ∧ MenuInv keys s ∧
      s.channel = (optionsRead keys volume brightness).channel := by
  have hwifi := nvsGetU8_byte keys (ascii "wifi") (n := 1) (by decide)
  obtain ⟨s, hs⟩ : ∃ s, s = optionsRead keys volume brightness := ⟨_, rfl⟩
  have hvalues := optionsRead_values keys volume brightness
  have hwifiOld : s.wifiOld = nvsGetU8 keys (ascii "wifi") 1 := by
    rw [hs]
    exact Int.emod_eq_of_lt hwifi.1 (by omega)
  have hchannelOld : s.channelOld = nvsGetU8 keys (ascii "channel") 5 := by
    rw [hs]
    rfl
  rw [optionsStart, optionsEntry, optionSetText_all, ← hs]
  rw [← hs] at hvalues
  exact ⟨_, rfl, ⟨fun i => (optionLabel_text s _ _).symm, { hvalues with }, hwifiOld, hchannelOld⟩,
    rfl⟩

/-- The loop toggles the options of the first two rows. -/
lemma optionsChosen_inv (h : MenuInv keys s) (ch : ℤ) :
    ∃ s', optionsChosen ch s = some s' ∧ MenuInv keys s' := by
  rcases eq_or_ne ch 0 with rfl | h0
  · refine ⟨_, ?_, h.change (optionChange_keylock s)⟩
    rw [optionsChosen, if_pos rfl, optionSetText_odata]
    rfl
  rcases eq_or_ne ch 1 with rfl | h1
  · refine ⟨_, ?_, h.change (optionChange_wifi s)⟩
    rw [optionsChosen, if_neg h0]
    exact optionSetText_odata 1 _
  · refine ⟨s, ?_, h⟩
    rw [optionsChosen, if_neg h0]
    exact if_neg h1

/-- The row that the menu has returned is not `Exit`. -/
lemma menuReturned_stays (h : MenuInv keys s) {ch : ℤ} (hch : ch ≠ 6 ∧ ch ≠ -1) :
    ∃ s', menuReturned keys ch s = .inMenu s' ∧ MenuInv keys s' := by
  obtain ⟨s', hs', hinv⟩ := optionsChosen_inv h ch
  refine ⟨s', ?_, hinv⟩
  rw [menuReturned, hs']
  exact if_pos hch

/-- It is `Exit`, or the menu was cancelled. -/
lemma menuReturned_leaves (h : MenuInv keys s) (ch : ℤ) (hch : ¬ (ch ≠ 6 ∧ ch ≠ -1)) :
    ∃ s', menuReturned keys ch s = .left s' (optionsStore keys s') (optionsReboot s') ∧
      MenuInv keys s' := by
  obtain ⟨s', hs', hinv⟩ := optionsChosen_inv h ch
  refine ⟨s', ?_, hinv⟩
  rw [menuReturned, hs']
  exact if_neg hch

/-! ### The callback -/

lemma optionMenuCb_other {button : Button} (hb : button ≠ .b)
    (hlr : button ≠ .left ∧ button ≠ .right) (row : Fin 7) :
    optionMenuCb button row s = some (.nothing, s) := by
  rw [optionMenuCb, if_neg hb, if_pos hlr]
  rfl

/-- **A row without an option**: the `NULL` is followed. -/
lemma optionMenuCb_none {button : Button} (hlr : button = .left ∨ button = .right) {row : Fin 7}
    (hrow : (optionsMenu row).user = none) : optionMenuCb button row s = none := by
  rcases hlr with rfl | rfl
  · simp [optionMenuCb, hrow]
  · simp [optionMenuCb, hrow]

/-- **A row with an option.** -/
lemma optionMenuCb_some (h : MenuInv keys s) {button : Button}
    (hlr : button = .left ∨ button = .right) {row : Fin 7} {i : Fin 5}
    (hrow : (optionsMenu row).user = some i) :
    ∃ s', optionMenuCb button row s = some (.refresh, s') ∧ MenuInv keys s' := by
  obtain ⟨s', hs', hc⟩ := optionPress_odata button i s
  refine ⟨_, ?_, h.change hc⟩
  rcases hlr with rfl | rfl
  · simp [optionMenuCb, hrow, hs', optionSetText_odata]
  · simp [optionMenuCb, hrow, hs', optionSetText_odata]

/-! ### The step -/

/-- A press off the options ends in a fault. -/
lemma optionsStep_offOptions {e : Press} (he : e.offOptions) :
    optionsStep keys (.inMenu s) e = .fault := by
  simp only [Press.offOptions, Bool.and_eq_true, Bool.or_eq_true, decide_eq_true_eq] at he
  have hrow : (optionsMenu e.row).user = none := by
    rcases he.2 with hrow | hrow
    · rw [hrow]
      rfl
    · rw [hrow]
      rfl
  rw [optionsStep, optionMenuCb_none he.1 hrow]

/-- B, and A on `Exit`, end the session. -/
lemma optionsStep_leaves (h : MenuInv keys s) {e : Press} (he : e.leaves) :
    ∃ s', optionsStep keys (.inMenu s) e = .left s' (optionsStore keys s') (optionsReboot s') ∧
      MenuInv keys s' := by
  simp only [Press.leaves, Bool.and_eq_true, Bool.or_eq_true, decide_eq_true_eq] at he
  obtain ⟨button, row⟩ := e
  rcases he with hb | ⟨ha, hrow⟩
  · obtain ⟨s', hs', hinv⟩ := menuReturned_leaves h (-1) (by decide)
    refine ⟨s', ?_, hinv⟩
    cases hb
    exact hs'
  · obtain ⟨s', hs', hinv⟩ := menuReturned_leaves h 6 (by decide)
    refine ⟨s', ?_, hinv⟩
    cases ha
    cases hrow
    exact hs'

/-- Every other press leads back to the menu. -/
lemma optionsStep_stays (h : MenuInv keys s) {e : Press} (hoff : ¬ e.offOptions)
    (hleaves : ¬ e.leaves) :
    ∃ s', optionsStep keys (.inMenu s) e = .inMenu s' ∧ MenuInv keys s' := by
  simp only [Press.leaves, Press.offOptions, Bool.and_eq_true, Bool.or_eq_true,
    decide_eq_true_eq, not_or, not_and] at hoff hleaves
  rcases em (e.button = .left ∨ e.button = .right) with hlr | hlr
  · have hrow : ∃ i, (optionsMenu e.row).user = some i := by
      have hrows : ∀ row : Fin 7, row ≠ 5 → row ≠ 6 → ∃ i, (optionsMenu row).user = some i := by
        decide
      exact hrows e.row (hoff hlr).1 (hoff hlr).2
    obtain ⟨i, hi⟩ := hrow
    obtain ⟨s', hs', hinv⟩ := optionMenuCb_some h hlr hi
    refine ⟨s', ?_, hinv⟩
    have ha : e.button ≠ .a := by
      rcases hlr with hb | hb <;> rw [hb] <;> decide
    rw [optionsStep, hs']
    simp only [reduceCtorEq, if_false, if_neg ha]
  · have hcb := optionMenuCb_other (s := s) hleaves.1 (not_or.1 hlr) e.row
    rw [optionsStep, hcb]
    simp only [reduceCtorEq, if_false]
    split_ifs with ha
    · refine menuReturned_stays h ⟨?_, ?_⟩
      · intro hexit
        exact hleaves.2 ha (Fin.ext (by exact_mod_cast hexit))
      · omega
    · exact ⟨s, rfl, h⟩

/-! ## Whole sessions -/

/-- A stored value that is a byte is there. -/
lemma holds_of_byte {keys : NvsKeys} {key : Bytes} {n : ℤ} (h : 0 ≤ n ∧ n ≤ 255)
    (hkey : nvsByte keys key = some (UInt8.ofInt n)) : Holds keys key n :=
  ⟨_, hkey, toNat_ofInt_byte h⟩

/-- Reading it back gives the value. -/
lemma Holds.nvsGetU8 {keys : NvsKeys} {key : Bytes} {n dflt : ℤ} (h : Holds keys key n)
    (hdflt : 0 ≤ dflt ∧ dflt ≤ 255) : Chooser.nvsGetU8 keys key dflt = n := by
  obtain ⟨b, hb, hn⟩ := h
  rw [Chooser.nvsGetU8, hb]
  dsimp only
  omega

/-- **What is stored** in the end: the three values, under three keys. -/
lemma optionsStore_holds (keys : NvsKeys) (h : ValuesOk s) :
    Holds (optionsStore keys s) (ascii "kl") s.keylock ∧
      Holds (optionsStore keys s) (ascii "wifi") s.wifiEn ∧
      Holds (optionsStore keys s) (ascii "channel") s.channel := by
  have hchannel : 0 ≤ s.channel ∧ s.channel ≤ 255 := by
    have hc := h.channel
    omega
  refine ⟨holds_of_byte h.keylock ?_, holds_of_byte h.wifiEn ?_, holds_of_byte hchannel ?_⟩
  · rw [optionsStore, nvsByte_set_of_ne _ _ (by decide), nvsByte_set_of_ne _ _ (by decide)]
    exact nvsByte_set_self ..
  · rw [optionsStore, nvsByte_set_of_ne _ _ (by decide)]
    exact nvsByte_set_self ..
  · exact nvsByte_set_self ..

/-- A session that is left is as it should be. -/
lemma MenuInv.left_ok (h : MenuInv keys s) :
    SessionOk keys (.left s (optionsStore keys s) (optionsReboot s)) := by
  obtain ⟨hkl, hwifi, hchannel⟩ := optionsStore_holds keys h.values
  refine ⟨h.labels.shown h.values, hkl, hwifi, hchannel, ?_⟩
  rw [hwifi.nvsGetU8 (by decide), hchannel.nvsGetU8 (by decide), ← h.wifiOld, ← h.channelOld]
  simp only [optionsReboot, Bool.or_eq_true, decide_eq_true_eq]
  exact or_congr ne_comm Iff.rfl

/-- What holds of a session at any time, also behind a fault. -/
def PhaseInv (keys : NvsKeys) : OptionsPhase → Prop
  | .inMenu s => MenuInv keys s
  | .left s keys' _ => MenuInv keys s ∧ keys' = optionsStore keys s
  | .fault => True

/-- **Any press** keeps it. -/
lemma optionsStep_inv (phase : OptionsPhase) (e : Press) (h : PhaseInv keys phase) :
    PhaseInv keys (optionsStep keys phase e) := by
  cases phase with
  | inMenu s =>
      rcases em e.offOptions with hoff | hoff
      · rw [optionsStep_offOptions hoff]
        trivial
      rcases em e.leaves with hleaves | hleaves
      · obtain ⟨s', hs', hinv⟩ := optionsStep_leaves h hleaves
        rw [hs']
        exact ⟨hinv, rfl⟩
      · obtain ⟨s', hs', hinv⟩ := optionsStep_stays h hoff hleaves
        rw [hs']
        exact hinv
  | left s keys' reboot => exact h
  | fault => exact h

/-- Whatever is pressed, a session that is left has stored its values. -/
lemma session_inv (keys : NvsKeys) (volume brightness : UInt8) (es : List Press) :
    PhaseInv keys (run (optionsStep keys) (optionsStart keys volume brightness) es) := by
  obtain ⟨s, hs, hinv, -⟩ := optionsStart_inv keys volume brightness
  rw [hs]
  exact run_invariant_of_step optionsStep_inv (s := .inMenu s) hinv es

/-- Behind the end of a session nothing happens. -/
lemma run_left (keys keys' : NvsKeys) (s : OptionsState) (reboot : Bool) (es : List Press) :
    run (optionsStep keys) (.left s keys' reboot) es = .left s keys' reboot := by
  induction es with
  | nil => rfl
  | cons e es ih => exact ih

/-- From the menu, a session stays as it should be as long as the presses are on options. -/
lemma options_safe_from (es : List Press) : ∀ {s : OptionsState}, MenuInv keys s →
    ((∀ pre, pre <+: es → SessionOk keys (run (optionsStep keys) (.inMenu s) pre)) ↔
      OnOptions es) := by
  induction es with
  | nil =>
      intro s h
      refine iff_of_true (fun pre hpre => ?_) fun e he => by cases he
      rw [List.prefix_nil.1 hpre]
      exact h.labels.shown h.values
  | cons e es ih =>
      intro s h
      have hhere : SessionOk keys (.inMenu s) := h.labels.shown h.values
      rcases em e.offOptions with hoff | hoff
      · refine iff_of_false (fun hall => ?_) fun hon => ?_
        · have hfault := hall [e] (by simp)
          rw [run_cons, optionsStep_offOptions hoff] at hfault
          exact hfault
        · have hstays : (!e.leaves) = true := by
            revert hoff
            simp only [Press.offOptions, Press.leaves]
            cases e.button <;> simp
          exact hon e (by simp [hstays]) hoff
      rcases em e.leaves with hleaves | hleaves
      · obtain ⟨s', hs', hinv⟩ := optionsStep_leaves h hleaves
        refine iff_of_true (fun pre hpre => ?_) fun e' he' => ?_
        · rcases List.prefix_cons_iff.1 hpre with rfl | ⟨pre', rfl, -⟩
          · exact hhere
          · rw [run_cons, hs', run_left]
            exact hinv.left_ok
        · simp [hleaves] at he'
      · obtain ⟨s', hs', hinv⟩ := optionsStep_stays h hoff hleaves
        have htake : OnOptions (e :: es) ↔ OnOptions es := by
          simp [OnOptions, hleaves, hoff]
        rw [htake, ← ih hinv]
        refine ⟨fun hall pre hpre => ?_, fun hall pre hpre => ?_⟩
        · have hnext := hall (e :: pre) (List.cons_prefix_cons.2 ⟨rfl, hpre⟩)
          rwa [run_cons, hs'] at hnext
        · rcases List.prefix_cons_iff.1 hpre with rfl | ⟨pre', rfl, hpre'⟩
          · exact hhere
          · rw [run_cons, hs']
            exact hall pre' hpre'

end Session

/-- **A session is safe if and only if Left and Right stay on the options.**  Whatever is stored at
the beginning, and whatever the volume and the brightness are: after each of the presses the session
is as it should be, if and only if up to its end none is Left or Right on `Debug info` or `Exit`. -/
theorem options_safe (keys : NvsKeys) (volume brightness : UInt8) (es : List Press) :
    (∀ pre, pre <+: es →
      SessionOk keys (run (optionsStep keys) (optionsStart keys volume brightness) pre)) ↔
      OnOptions es := by
  obtain ⟨s, hs, hinv, -⟩ := optionsStart_inv keys volume brightness
  rw [hs]
  exact options_safe_from es hinv

/-- **Right on `Exit`** follows a `NULL`: nothing stored, and that is the first press. -/
theorem options_not_safe :
    run (optionsStep NvsKeys.empty) (optionsStart NvsKeys.empty 128 128) [⟨.right, 6⟩] = .fault ∧
      ¬ SessionOk NvsKeys.empty
        (run (optionsStep NvsKeys.empty) (optionsStart NvsKeys.empty 128 128) [⟨.right, 6⟩]) := by
  obtain ⟨s, hs, -, -⟩ := optionsStart_inv NvsKeys.empty 128 128
  have hfault : run (optionsStep NvsKeys.empty) (optionsStart NvsKeys.empty 128 128)
      [⟨.right, 6⟩] = .fault := by
    rw [hs, run_cons, optionsStep_offOptions rfl]
    rfl
  refine ⟨hfault, ?_⟩
  rw [hfault]
  exact id

end Chooser
