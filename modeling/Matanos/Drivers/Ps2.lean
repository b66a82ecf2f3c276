import Matanos.Lib.Ports

/-!
The initialization of the PS/2 controller, in `drivers/keyboard.c`.

The driver is run against every controller: any byte may be the answer to any read. Two of its loops wait
for an answer; they are cut after `fuel` turns.

* `disableDevices`, `i8042SelfTest`, `isChannel2Present`, `testPorts`, `enablePorts`, `sendPort`,
  `resetDevices`, `setKeyboardScancode`, `initKeyboard`: the functions;
* `Monitor`, `Monitor.see`: what a history says about the tests and about the interrupts of the devices;
* `init_keyboard_safe`: the interrupts are never enabled before the tests have succeeded;
* `send_port_retries`: when a byte is sent to the first device.
-/

namespace Matanos

open Lib Driver

/-- The variables, and whether the handler of the keyboard is registered. -/
structure Ps2 where
  isDualChannel : Bool
  shouldProbeSecondChannel : Bool
  registered : Bool
deriving DecidableEq

namespace Ps2

/-- `enum ps2_port`. -/
inductive Port where
  | port1
  | port2
deriving DecidableEq

/-- `REG_DATA`. -/
def regData : UInt16 := 0x60

/-- `REG_CMD` and `REG_STATUS`. -/
def regCmd : UInt16 := 0x64

/-- `io_wait`. -/
def ioWait : Driver Ps2 Unit := outb 0x80 0

variable (dev : Device)

/-- `read_status`. -/
def readStatus : Driver Ps2 UInt8 := inb dev regCmd

/-- `read_config`. -/
def readConfig : Driver Ps2 UInt8 := do
  outb regCmd 0x20
  inb dev regData

/-- `write_config`. -/
def writeConfig (config : UInt8) : Driver Ps2 Unit := do
  outb regCmd 0x60
  outb regData config

/-- The loop of `i8042_self_test`. -/
def selfTestLoop : ℕ → UInt8 → Driver Ps2 UInt8
  | 0, response => if response ≠ 0x55 ∧ response ≠ 0xFC then cut else pure response
  | fuel + 1, response =>
      if response ≠ 0x55 ∧ response ≠ 0xFC then do
        let response ← inb dev regData
        selfTestLoop fuel response
      else pure response

/-- `i8042_self_test`. -/
def i8042SelfTest (fuel : ℕ) : Driver Ps2 Bool := do
  outb regCmd 0xAA
  let response ← inb dev regData
  let response ← selfTestLoop dev fuel response
  pure (response = 0x55)

/-- The loop of `disable_devices` that flushes the output buffer. -/
def flushLoop : ℕ → UInt8 → Driver Ps2 Unit
  | 0, status => if status &&& 1 ≠ 0 then cut else pure ()
  | fuel + 1, status =>
      if status &&& 1 ≠ 0 then do
        ioWait
        let _ ← inb dev regData
        let status ← readStatus dev
        flushLoop fuel status
      else pure ()

/-- `disable_devices`. -/
def disableDevices (fuel : ℕ) : Driver Ps2 Unit := do
  outb regCmd 0xAD
  outb regCmd 0xA7
  let status ← readStatus dev
  flushLoop dev fuel status
  let config ← readConfig dev
  let config := config &&& ~~~1
  let config := config &&& ~~~2
  let config := config &&& ~~~0x40
  if config &&& 0x20 = 0 then
    modify fun s => { s with isDualChannel := false, shouldProbeSecondChannel := false }
  writeConfig config

/-- `is_channel2_present`. -/
def isChannel2Present : Driver Ps2 Bool := do
  outb regCmd 0xA8
  let config ← readConfig dev
  outb regCmd 0xA7
  pure (config &&& 0x20 = 0)

/-- `test_ports`. -/
def testPorts : Driver Ps2 Bool := do
  outb regCmd 0xAB
  let response ← inb dev regData
  if response ≠ 0 then pure false
  else do
    let s ← get
    if s.isDualChannel then do
      outb regCmd 0xA9
      let response ← inb dev regData
      if response ≠ 0 then pure false else pure true
    else pure true

/-- `enable_ports`. -/
def enablePorts : Driver Ps2 Unit := do
  outb regCmd 0xAE
  outb regCmd 0xA8
  let config ← readConfig dev
  let config := config ||| 1
  let config := config ||| 2
  writeConfig config

/-- The loop of `send_port`: the number of retries that are left. -/
def sendLoop : ℕ → UInt8 → Driver Ps2 ℕ
  | 0, _ => pure 0
  | retries + 1, status =>
      if status &&& 2 ≠ 0 then do
        ioWait
        let status ← readStatus dev
        sendLoop retries status
      else pure (retries + 1)

/-- `send_port`. -/
def sendPort (port : Port) (data : UInt8) : Driver Ps2 Bool := do
  let status ← readStatus dev
  let s ← get
  if port = .port2 ∧ s.isDualChannel = false then pure false
  else do
    if port = .port2 then outb regCmd 0xD4
    let retries ← sendLoop dev 1000 status
    if retries = 0 then pure false
    else do
      outb regData data
      pure true

/-- `reset_devices`. -/
def resetDevices : Driver Ps2 Bool := do
  let ret ← sendPort dev .port1 0xFF
  if ret = false then pure ret
  else do
    let s ← get
    if s.isDualChannel then sendPort dev .port2 0xFF else pure ret

/-- `set_keyboard_scancode`. -/
def setKeyboardScancode : Driver Ps2 Bool := do
  let ret ← sendPort dev .port1 0xF0
  if ret = false then pure false
  else do
    let ret ← sendPort dev .port1 0x01
    if ret = false then pure false
    else do
      ioWait
      let status ← inb dev regData
      if status ≠ 0xFA then pure false else pure true

/-- `init_keyboard`. -/
def initKeyboard (fuel : ℕ) : Driver Ps2 Bool := do
  disableDevices dev fuel
  let ok ← i8042SelfTest dev fuel
  if ok = false then pure false
  else do
    let s ← get
    if s.shouldProbeSecondChannel then do
      let present ← isChannel2Present dev
      modify fun s => { s with isDualChannel := present }
    let ok ← testPorts dev
    if ok = false then pure false
    else do
      enablePorts dev
      modify fun s => { s with registered := true }
      let ok ← resetDevices dev
      if ok = false then pure false
      else do
        let _ ← setKeyboardScancode dev
        pure true

/-! ### What a history says -/

/-- The last command, the last answers to the tests, whether the interrupts of the devices are enabled, and
whether they have been enabled when a test had not succeeded. -/
structure Monitor where
  command : UInt8
  selfTest : Bool
  port1 : Bool
  port2 : Bool
  irqs : Bool
  violated : Bool
deriving DecidableEq

/-- An access is seen. -/
def Monitor.see (m : Monitor) : PortEvent → Monitor
  | .write port v =>
      if port = regCmd then { m with command := v }
      else if port = regData ∧ m.command = 0x60 then
        { m with
          command := 0
          irqs := v &&& 3 ≠ 0
          violated := m.violated || (v &&& 3 ≠ 0 && !(m.selfTest && m.port1)) }
      else m
  | .read port v =>
      if port = regData then
        if m.command = 0xAA then { m with selfTest := v = 0x55 }
        else if m.command = 0xAB then { m with port1 := v = 0 }
        else if m.command = 0xA9 then { m with port2 := v = 0 }
        else m
      else m

/-- Nothing is known of the interrupts, and no test has been made. -/
def Monitor.start : Monitor := ⟨0, false, false, false, true, false⟩

/-- What a history says. -/
def monitor (h : List PortEvent) : Monitor := h.foldl Monitor.see .start

variable {dev} {fuel : ℕ} {s : Ps2} {h : List PortEvent} {E : Ps2 → List PortEvent → Prop} {m : Monitor} {v : UInt8}

@[simp] lemma monitor_snoc (h : List PortEvent) (e : PortEvent) :
    monitor (h ++ [e]) = (monitor h).see e := by
  rw [monitor, List.foldl_append]
  rfl

@[simp] lemma see_command : m.see (.write regCmd v) = { m with command := v } := rfl

@[simp] lemma see_status : m.see (.read regCmd v) = m := rfl

@[simp] lemma see_wait : m.see (.write 0x80 v) = m := rfl

lemma see_data (h : m.command ≠ 0x60) : m.see (.write regData v) = m := by
  simp only [Monitor.see, h, and_false, if_false]
  exact if_neg (by decide)

lemma see_config (h : m.command = 0x60) : m.see (.write regData v) =
    { m with
      command := 0
      irqs := v &&& 3 ≠ 0
      violated := m.violated || (v &&& 3 ≠ 0 && !(m.selfTest && m.port1)) } := by
  simp only [Monitor.see, h, and_true]
  exact if_neg (by decide)

lemma see_answer (h : m.command ≠ 0xAA) (h' : m.command ≠ 0xAB) (h'' : m.command ≠ 0xA9) :
    m.see (.read regData v) = m := by
  simp only [Monitor.see, h, h', h'', if_false, if_true]

lemma monitor_readConfig (h : List PortEvent) (a : UInt8) :
    monitor (h ++ [.write regCmd 0x20] ++ [.read regData a]) = { monitor h with command := 0x20 } := by
  rw [monitor_snoc, monitor_snoc, see_command]
  exact see_answer (show (0x20 : UInt8) ≠ 0xAA by decide) (show (0x20 : UInt8) ≠ 0xAB by decide)
    (show (0x20 : UInt8) ≠ 0xA9 by decide)

lemma monitor_writeConfig (h : List PortEvent) (b : UInt8) :
    monitor (h ++ [.write regCmd 0x60] ++ [.write regData b]) =
      { monitor h with
        command := 0
        irqs := b &&& 3 ≠ 0
        violated := (monitor h).violated || (b &&& 3 ≠ 0 && !((monitor h).selfTest && (monitor h).port1)) } := by
  rw [monitor_snoc, monitor_snoc, see_command, see_config rfl]

/-- The loop of `disable_devices` changes nothing but the history. -/
lemma wp_flushLoop {Q : Unit → Ps2 → List PortEvent → Prop} (status : UInt8) (hc : (monitor h).command = 0xA7)
    (hQ : ∀ h', monitor h' = monitor h → Q () s h') (hE : ∀ h', monitor h' = monitor h → E s h') :
    wp (flushLoop dev fuel status) Q E s h := by
  induction fuel generalizing h status with
  | zero =>
      rw [flushLoop, wp_ite]
      split_ifs
      · exact hE h rfl
      · exact hQ h rfl
  | succ fuel ih =>
      rw [flushLoop, wp_ite]
      split_ifs
      · simp only [wp_bind, ioWait, readStatus, wp_outb, wp_inb]
        have hmon : ∀ a b : UInt8, monitor (h ++ [.write 0x80 0] ++ [.read regData a] ++ [.read regCmd b])
            = monitor h := by
          intro a b
          simp only [monitor_snoc, see_wait, see_status]
          exact see_answer (by rw [hc]; decide) (by rw [hc]; decide) (by rw [hc]; decide)
        exact ih _ (by rw [hmon, hc]) (fun h' hh => hQ h' (hh.trans (hmon _ _)))
          fun h' hh => hE h' (hh.trans (hmon _ _))
      · exact hQ h rfl

/-- **`disable_devices`** disables the interrupts of the devices. -/
lemma wp_disableDevices {Q : Unit → Ps2 → List PortEvent → Prop}
    (hQ : ∀ s' h', s'.registered = s.registered → monitor h' = { monitor h with command := 0, irqs := false } →
      Q () s' h')
    (hE : ∀ h', monitor h' = { monitor h with command := 0xA7 } → E s h') :
    wp (disableDevices dev fuel) Q E s h := by
  simp only [disableDevices, wp_bind, wp_outb, readStatus, wp_inb]
  have hmon : ∀ a : UInt8, monitor (h ++ [.write regCmd 0xAD] ++ [.write regCmd 0xA7] ++ [.read regCmd a])
      = { monitor h with command := 0xA7 } := by
    intro a
    simp only [monitor_snoc, see_command, see_status]
  refine wp_flushLoop _ (by rw [hmon]) (fun h' hh => ?_) fun h' hh => hE h' (hh.trans (hmon _))
  simp only [readConfig, writeConfig, wp_bind, wp_outb, wp_inb, wp_ite, wp_modify]
  have hquiet : ∀ c : UInt8, (c &&& ~~~1 &&& ~~~2 &&& ~~~0x40) &&& 3 = 0 := by
    intro c
    rw [UInt8.and_assoc, UInt8.and_assoc, UInt8.and_assoc]
    exact UInt8.and_zero
  have hend : ∀ a b : UInt8, b &&& 3 = 0 → monitor (h' ++ [.write regCmd 0x20] ++ [.read regData a]
      ++ [.write regCmd 0x60] ++ [.write regData b]) = { monitor h with command := 0, irqs := false } := by
    intro a b hb
    rw [monitor_writeConfig, monitor_readConfig, hh, hmon]
    simp [hb]
  split_ifs
  · exact hQ _ _ rfl (hend _ _ (hquiet _))
  · exact hQ _ _ rfl (hend _ _ (hquiet _))

/-- The loop of `i8042_self_test` ends with the answer that the history shows. -/
lemma wp_selfTestLoop {Q : UInt8 → Ps2 → List PortEvent → Prop} (response : UInt8)
    (hm : monitor h = { m with command := 0xAA, selfTest := response = 0x55 })
    (hQ : ∀ (r : UInt8) h', monitor h' = { m with command := 0xAA, selfTest := r = 0x55 } → Q r s h')
    (hE : ∀ h', monitor h' = { m with command := 0xAA, selfTest := false } → E s h') :
    wp (selfTestLoop dev fuel response) Q E s h := by
  induction fuel generalizing h response with
  | zero =>
      rw [selfTestLoop, wp_ite]
      split_ifs with hwait
      · refine hE h (hm.trans ?_)
        rw [decide_eq_false hwait.1]
      · exact hQ response h hm
  | succ fuel ih =>
      rw [selfTestLoop, wp_ite]
      split_ifs with hwait
      · simp only [wp_bind, wp_inb]
        refine ih _ ?_
        rw [monitor_snoc, hm]
        rfl
      · exact hQ response h hm

/-- **`i8042_self_test`** says whether the test has succeeded. -/
lemma wp_i8042SelfTest {Q : Bool → Ps2 → List PortEvent → Prop}
    (hQ : ∀ ok h', monitor h' = { monitor h with command := 0xAA, selfTest := ok } → Q ok s h')
    (hE : ∀ h', monitor h' = { monitor h with command := 0xAA, selfTest := false } → E s h') :
    wp (i8042SelfTest dev fuel) Q E s h := by
  simp only [i8042SelfTest, wp_bind, wp_outb, wp_inb]
  refine wp_selfTestLoop _ ?_ (fun r h' hh => hQ _ h' hh) hE
  rw [monitor_snoc, monitor_snoc, see_command]
  rfl

/-- `is_channel2_present` has no say in the interrupts. -/
lemma wp_isChannel2Present {Q : Bool → Ps2 → List PortEvent → Prop}
    (hQ : ∀ r h', monitor h' = { monitor h with command := 0xA7 } → Q r s h') :
    wp (isChannel2Present dev) Q E s h := by
  simp only [isChannel2Present, readConfig, wp_bind, wp_outb, wp_inb, wp_pure]
  refine hQ _ _ ?_
  rw [monitor_snoc, monitor_readConfig, monitor_snoc, see_command, see_command]

/-- **`test_ports`** says whether the tests of the ports have succeeded. -/
lemma wp_testPorts {Q : Bool → Ps2 → List PortEvent → Prop}
    (hQ : ∀ ok h', (monitor h').violated = (monitor h).violated → (monitor h').irqs = (monitor h).irqs →
      (monitor h').selfTest = (monitor h).selfTest →
      (ok = true ↔ (monitor h').port1 = true ∧ (s.isDualChannel = true → (monitor h').port2 = true)) →
      Q ok s h') :
    wp (testPorts dev) Q E s h := by
  have hfirst : ∀ a : UInt8, monitor (h ++ [.write regCmd 0xAB] ++ [.read regData a]) =
      { monitor h with command := 0xAB, port1 := a = 0 } := by
    intro a
    rw [monitor_snoc, monitor_snoc, see_command]
    rfl
  have hsecond : ∀ a b : UInt8, monitor (h ++ [.write regCmd 0xAB] ++ [.read regData a] ++ [.write regCmd 0xA9]
      ++ [.read regData b]) = { monitor h with command := 0xA9, port1 := a = 0, port2 := b = 0 } := by
    intro a b
    rw [monitor_snoc, monitor_snoc, see_command, hfirst]
    rfl
  simp only [testPorts, wp_bind, wp_outb, wp_inb, wp_ite, wp_pure, wp_get]
  generalize dev (h ++ [.write regCmd 0xAB]) regData = a
  generalize dev (h ++ [.write regCmd 0xAB] ++ [.read regData a] ++ [.write regCmd 0xA9]) regData = b
  split_ifs with hone hdual htwo
  · exact hQ _ _ (by rw [hfirst]) (by rw [hfirst]) (by rw [hfirst]) (by rw [hfirst]; simp [hone])
  · exact hQ _ _ (by rw [hsecond]) (by rw [hsecond]) (by rw [hsecond])
      (by rw [hsecond]; simp [htwo, hdual])
  · exact hQ _ _ (by rw [hsecond]) (by rw [hsecond]) (by rw [hsecond])
      (by rw [hsecond]; simp [not_not.mp hone, not_not.mp htwo])
  · exact hQ _ _ (by rw [hfirst]) (by rw [hfirst]) (by rw [hfirst])
      (by rw [hfirst]; simp [not_not.mp hone, hdual])

/-- **`enable_ports`** enables the interrupts of the devices. -/
lemma wp_enablePorts {Q : Unit → Ps2 → List PortEvent → Prop}
    (htests : (monitor h).selfTest = true ∧ (monitor h).port1 = true)
    (hQ : ∀ h', monitor h' = { monitor h with command := 0, irqs := true } → Q () s h') :
    wp (enablePorts dev) Q E s h := by
  have hon : ∀ c : UInt8, (c ||| 1 ||| 2) &&& 3 ≠ 0 := by
    have hall : ∀ k < 256, (UInt8.ofNat k ||| 1 ||| 2) &&& 3 ≠ 0 := by decide +kernel
    intro c
    have hc := hall c.toNat c.toNat_lt
    rwa [UInt8.ofNat_toNat] at hc
  simp only [enablePorts, readConfig, writeConfig, wp_bind, wp_outb, wp_inb]
  refine hQ _ ?_
  rw [monitor_writeConfig, monitor_readConfig, monitor_snoc, monitor_snoc, see_command, see_command]
  simp [hon, htests]

/-- What is sent to a device is no command for the controller. -/
lemma wp_sendLoop {Q : ℕ → Ps2 → List PortEvent → Prop} (retries : ℕ) (status : UInt8)
    (hQ : ∀ r h', monitor h' = monitor h → Q r s h') : wp (sendLoop dev retries status) Q E s h := by
  induction retries generalizing h status with
  | zero => exact hQ 0 h rfl
  | succ retries ih =>
      rw [sendLoop, wp_ite]
      split_ifs
      · simp only [wp_bind, ioWait, readStatus, wp_outb, wp_inb]
        have hmon : ∀ a : UInt8, monitor (h ++ [.write 0x80 0] ++ [.read regCmd a]) = monitor h := by
          intro a
          simp only [monitor_snoc, see_wait, see_status]
        exact ih _ fun r h' hh => hQ r h' (hh.trans (hmon _))
      · exact hQ _ h rfl

/-- Two histories say the same of the tests and of the interrupts. -/
def Monitor.Same (m m' : Monitor) : Prop :=
  m'.selfTest = m.selfTest ∧ m'.port1 = m.port1 ∧ m'.port2 = m.port2 ∧ m'.irqs = m.irqs ∧
    m'.violated = m.violated

/-- The last command is none that a byte for the data port belongs to. -/
def Monitor.Idle (m : Monitor) : Prop := m.command = 0 ∨ m.command = 0xD4

lemma Monitor.Idle.data (h : m.Idle) : m.see (.write regData v) = m ∧ m.see (.read regData v) = m := by
  rcases h with h | h
  · exact ⟨see_data (by rw [h]; decide), see_answer (by rw [h]; decide) (by rw [h]; decide) (by rw [h]; decide)⟩
  · exact ⟨see_data (by rw [h]; decide), see_answer (by rw [h]; decide) (by rw [h]; decide) (by rw [h]; decide)⟩

lemma Monitor.Same.trans {m' m'' : Monitor} (h : m.Same m') (h' : m'.Same m'') : m.Same m'' := by
  obtain ⟨h₁, h₂, h₃, h₄, h₅⟩ := h
  obtain ⟨h₁', h₂', h₃', h₄', h₅'⟩ := h'
  exact ⟨h₁'.trans h₁, h₂'.trans h₂, h₃'.trans h₃, h₄'.trans h₄, h₅'.trans h₅⟩

/-- What is known when a byte has been sent, or not. -/
def Undisturbed (h h' : List PortEvent) : Prop := (monitor h').Idle ∧ (monitor h).Same (monitor h')

lemma wp_sendPort {Q : Bool → Ps2 → List PortEvent → Prop} (port : Port) (data : UInt8)
    (hidle : (monitor h).Idle) (hQ : ∀ r h', Undisturbed h h' → Q r s h') :
    wp (sendPort dev port data) Q E s h := by
  -- from the loop on
  have hrest : ∀ h₁ status, Undisturbed h h₁ → wp (sendLoop dev 1000 status)
      (fun a => wp (if a = 0 then pure false else do
        outb regData data
        pure true) Q E) E s h₁ := by
    intro h₁ status hund
    refine wp_sendLoop 1000 status fun a h₂ hh => ?_
    rw [Undisturbed, ← hh] at hund
    simp only [wp_ite, wp_pure, wp_bind, wp_outb]
    split_ifs
    · exact hQ _ _ hund
    · refine hQ _ _ ?_
      rw [Undisturbed, monitor_snoc, hund.1.data.1]
      exact hund
  have hsame : (monitor h).Same (monitor h) := ⟨rfl, rfl, rfl, rfl, rfl⟩
  simp only [sendPort, readStatus, wp_bind, wp_inb, wp_get, wp_ite, wp_pure, wp_outb]
  split_ifs
  · exact hQ _ _ (by rw [Undisturbed, monitor_snoc, see_status]; exact ⟨hidle, hsame⟩)
  · refine hrest _ _ ?_
    rw [Undisturbed, monitor_snoc, monitor_snoc, see_status, see_command]
    exact ⟨Or.inr rfl, rfl, rfl, rfl, rfl, rfl⟩
  · exact hrest _ _ (by rw [Undisturbed, monitor_snoc, see_status]; exact ⟨hidle, hsame⟩)

lemma Undisturbed.trans {h' h'' : List PortEvent} (hu : Undisturbed h h') (hu' : Undisturbed h' h'') :
    Undisturbed h h'' :=
  ⟨hu'.1, hu.2.trans hu'.2⟩

lemma wp_resetDevices {Q : Bool → Ps2 → List PortEvent → Prop} (hidle : (monitor h).Idle)
    (hQ : ∀ r h', Undisturbed h h' → Q r s h') : wp (resetDevices dev) Q E s h := by
  simp only [resetDevices, wp_bind]
  refine wp_sendPort _ _ hidle fun r h₁ h₁u => ?_
  simp only [wp_ite, wp_pure, wp_bind, wp_get]
  split_ifs
  · exact hQ _ _ h₁u
  · exact wp_sendPort _ _ h₁u.1 fun r h₂ h₂u => hQ _ _ (h₁u.trans h₂u)
  · exact hQ _ _ h₁u

lemma wp_setKeyboardScancode {Q : Bool → Ps2 → List PortEvent → Prop} (hidle : (monitor h).Idle)
    (hQ : ∀ r h', Undisturbed h h' → Q r s h') : wp (setKeyboardScancode dev) Q E s h := by
  simp only [setKeyboardScancode, wp_bind]
  refine wp_sendPort _ _ hidle fun r h₁ h₁u => ?_
  simp only [wp_ite, wp_pure, wp_bind]
  split_ifs
  · exact hQ _ _ h₁u
  · refine wp_sendPort _ _ h₁u.1 fun r h₂ h₂u => ?_
    simp only [wp_ite, wp_pure, wp_bind, ioWait, wp_outb, wp_inb]
    have hend : ∀ a : UInt8, Undisturbed h₂ (h₂ ++ [.write 0x80 0] ++ [.read regData a]) := by
      intro a
      rw [Undisturbed, monitor_snoc, monitor_snoc, see_wait, h₂u.1.data.2]
      exact ⟨h₂u.1, rfl, rfl, rfl, rfl, rfl⟩
    split_ifs
    · exact hQ _ _ (h₁u.trans h₂u)
    · exact hQ _ _ ((h₁u.trans h₂u).trans (hend _))
    · exact hQ _ _ ((h₁u.trans h₂u).trans (hend _))

/-- The tests have succeeded, as far as they are made. -/
def Tested (s : Ps2) (m : Monitor) : Prop :=
  m.selfTest = true ∧ m.port1 = true ∧ (s.isDualChannel = true → m.port2 = true)

/-- What holds where the initialization ends, and where it is cut. -/
structure Safe (s : Ps2) (h : List PortEvent) : Prop where
  violated : (monitor h).violated = false
  registered : s.registered = true ↔ Tested s (monitor h)

/-- From the tests of the ports on. -/
lemma wp_ports (hself : (monitor h).selfTest = true) (hirqs : (monitor h).irqs = false)
    (hviolated : (monitor h).violated = false) (hreg : s.registered = false) :
    wp (do
      let ok ← testPorts dev
      if ok = false then pure false
      else do
        enablePorts dev
        modify fun s => { s with registered := true }
        let ok ← resetDevices dev
        if ok = false then pure false
        else do
          let _ ← setKeyboardScancode dev
          pure true)
      (fun ok s h => Safe s h ∧ (ok = true → s.registered = true) ∧ (monitor h).irqs = s.registered)
      (fun s h => Safe s h) s h := by
  rw [wp_bind]
  refine wp_testPorts fun ok h₁ hv hi hs hok => ?_
  rw [wp_ite]
  split_ifs with hfail
  · have hnot : ¬ Tested s (monitor h₁) := fun h => by simp [hok.mpr h.2] at hfail
    exact ⟨⟨hv.trans hviolated, ⟨fun h => by simp [hreg] at h, fun h => absurd h hnot⟩⟩,
      fun h => by simp at h, by rw [hi, hirqs, hreg]⟩
  · have htested := hok.mp (by simpa using hfail)
    rw [wp_bind]
    refine wp_enablePorts ⟨hs.trans hself, htested.1⟩ fun h₂ hh₂ => ?_
    have hidle : (monitor h₂).Idle := Or.inl (by rw [hh₂])
    have hdone : ∀ h', Undisturbed h₂ h' → Safe { s with registered := true } h' ∧ (monitor h').irqs = true := by
      rintro h' ⟨-, hs', h1', h2', hi', hv'⟩
      rw [hh₂] at hs' h1' h2' hi' hv'
      exact ⟨⟨hv'.trans (hv.trans hviolated), ⟨fun _ => ⟨hs'.trans (hs.trans hself), h1'.trans htested.1,
        fun h => h2'.trans (htested.2 h)⟩, fun _ => rfl⟩⟩, hi'⟩
    rw [wp_bind, wp_modify, wp_bind]
    refine wp_resetDevices hidle fun r h₃ h₃u => ?_
    rw [wp_ite, wp_bind]
    split_ifs
    · exact ⟨(hdone _ h₃u).1, fun _ => rfl, (hdone _ h₃u).2⟩
    · refine wp_setKeyboardScancode h₃u.1 fun r' h₄ h₄u => ?_
      exact ⟨(hdone _ (h₃u.trans h₄u)).1, fun _ => rfl, (hdone _ (h₃u.trans h₄u)).2⟩

lemma wp_initKeyboard (dev : Device) (fuel : ℕ) : wp (initKeyboard dev fuel)
    (fun ok s h => Safe s h ∧ (ok = true → s.registered = true) ∧ (monitor h).irqs = s.registered)
    (fun s h => Safe s h) ⟨false, true, false⟩ [] := by
  rw [initKeyboard, wp_bind]
  refine wp_disableDevices (fun s₁ h₁ hreg hh₁ => ?_) fun h₁ hh₁ => ?_
  · rw [wp_bind]
    refine wp_i8042SelfTest (fun ok h₂ hh₂ => ?_) fun h₂ hh₂ => ?_
    · rw [wp_ite]
      split_ifs with hfail
      · refine ⟨⟨by rw [hh₂, hh₁]; rfl, ?_⟩, fun h => by simp at h, by rw [hh₂, hh₁, hreg]⟩
        rw [hreg, Tested, hh₂, hfail]
        simp
      · have hok : ok = true := by simpa using hfail
        have hself : (monitor h₂).selfTest = true := by rw [hh₂, hok]
        have hirqs : (monitor h₂).irqs = false := by rw [hh₂, hh₁]
        have hviolated : (monitor h₂).violated = false := by
          rw [hh₂, hh₁]
          rfl
        rw [wp_bind, wp_get, wp_ite]
        split_ifs
        · rw [wp_bind]
          refine wp_isChannel2Present fun present h₃ hh₃ => ?_
          rw [wp_bind, wp_modify]
          exact wp_ports (by rw [hh₃]; exact hself) (by rw [hh₃]; exact hirqs) (by rw [hh₃]; exact hviolated) hreg
        · exact wp_ports hself hirqs hviolated hreg
    · refine ⟨by rw [hh₂, hh₁]; rfl, ?_⟩
      rw [hreg, Tested, hh₂]
      simp
  · refine ⟨by rw [hh₁]; rfl, ?_⟩
    rw [Tested, hh₁]
    simp [monitor, Monitor.start]

lemma see_violated {m : Monitor} (e : PortEvent) (h : (m.see e).violated = false) : m.violated = false := by
  cases e with
  | read port v =>
      simp only [Monitor.see] at h
      split_ifs at h <;> exact h
  | write port v =>
      simp only [Monitor.see] at h
      split_ifs at h
      · exact h
      · exact (Bool.or_eq_false_iff.mp h).1
      · exact h

/-- A violation stays in the history. -/
lemma violated_append (l : List PortEvent) (hv : (monitor (h ++ l)).violated = false) :
    (monitor h).violated = false := by
  induction l generalizing h with
  | nil => rwa [List.append_nil] at hv
  | cons e l ih =>
      have hsnoc : h ++ e :: l = h ++ [e] ++ l := by rw [List.append_assoc, List.singleton_append]
      rw [hsnoc] at hv
      exact see_violated e (monitor_snoc h e ▸ ih hv)

/-- **The interrupts of the devices are never enabled before the tests have succeeded**, whatever the
controller answers and however long it takes to answer: at no point of the history, also where a loop of the
driver never ends. The handler is registered if and only if the self test and the tests of the ports have
succeeded; and when the initialization returns, the interrupts are enabled if and only if the handler is
registered, which it is when the initialization returns `true`. -/
theorem init_keyboard_safe (dev : Device) (fuel : ℕ) :
    ∃ ret s h, initKeyboard dev fuel ⟨false, true, false⟩ [] = (ret, s, h) ∧
      (∀ h', h' <+: h → (monitor h').violated = false) ∧ (s.registered = true ↔ Tested s (monitor h)) ∧
      (ret = some true → s.registered = true) ∧ (ret ≠ none → (monitor h).irqs = s.registered) := by
  have hwp := wp_initKeyboard dev fuel
  rw [wp] at hwp
  rcases hrun : initKeyboard dev fuel ⟨false, true, false⟩ [] with ⟨ret, s, h⟩
  rw [hrun] at hwp
  have hbefore : (monitor h).violated = false → ∀ h', h' <+: h → (monitor h').violated = false := by
    rintro hv h' ⟨l, rfl⟩
    exact violated_append l hv
  cases ret with
  | none => exact ⟨none, s, h, rfl, hbefore hwp.violated, hwp.registered,
      fun h => absurd h.symm (Option.some_ne_none true), fun h => absurd rfl h⟩
  | some ok =>
      obtain ⟨hsafe, hok, hirqs⟩ := hwp
      exact ⟨some ok, s, h, rfl, hbefore hsafe.violated, hsafe.registered,
        fun h => hok (Option.some.inj h), fun _ => hirqs⟩

/-! ### The retries -/

/-- The history behind `k` turns of the loop of `send_port`. -/
def polls (dev : Device) (h : List PortEvent) : ℕ → List PortEvent
  | 0 => h
  | k + 1 =>
      polls dev h k ++ [.write 0x80 0] ++ [.read regCmd (dev (polls dev h k ++ [.write 0x80 0]) regCmd)]

/-- The status in front of a turn; the first one is that from which the loop starts. -/
def polled (dev : Device) (h : List PortEvent) (status : UInt8) : ℕ → UInt8
  | 0 => status
  | k + 1 => dev (polls dev h k ++ [.write 0x80 0]) regCmd

/-- The loop with its first turn taken off. -/
lemma polls_succ (dev : Device) (h : List PortEvent) (k : ℕ) :
    polls dev (h ++ [.write 0x80 0] ++ [.read regCmd (dev (h ++ [.write 0x80 0]) regCmd)]) k
      = polls dev h (k + 1) := by
  induction k with
  | zero => rfl
  | succ k ih =>
      rw [polls, ih]
      rfl

lemma polled_succ (dev : Device) (h : List PortEvent) (status : UInt8) (k : ℕ) :
    polled dev (h ++ [.write 0x80 0] ++ [.read regCmd (dev (h ++ [.write 0x80 0]) regCmd)])
      (dev (h ++ [.write 0x80 0]) regCmd) k = polled dev h status (k + 1) := by
  cases k with
  | zero => rfl
  | succ k => rw [polled, polls_succ, polled]

/-- **The loop ends at the first status that is clear**, or without retries left. -/
lemma sendLoop_eq (dev : Device) (s : Ps2) (h : List PortEvent) (status : UInt8) (retries : ℕ) :
    (∀ k < retries, (∀ i < k, polled dev h status i &&& 2 ≠ 0) → polled dev h status k &&& 2 = 0 →
      sendLoop dev retries status s h = (some (retries - k), s, polls dev h k)) ∧
    ((∀ i < retries, polled dev h status i &&& 2 ≠ 0) →
      sendLoop dev retries status s h = (some 0, s, polls dev h retries)) := by
  induction retries generalizing h status with
  | zero => exact ⟨fun k hk => absurd hk (Nat.not_lt_zero k), fun _ => rfl⟩
  | succ retries ih =>
      obtain ⟨hsome, hnone⟩ := ih (h ++ [.write 0x80 0] ++ [.read regCmd (dev (h ++ [.write 0x80 0]) regCmd)])
        (dev (h ++ [.write 0x80 0]) regCmd)
      simp only [polled_succ dev h status, polls_succ] at hsome hnone
      have hturn : status &&& 2 ≠ 0 → sendLoop dev (retries + 1) status s h =
          sendLoop dev retries (dev (h ++ [.write 0x80 0]) regCmd) s
            (h ++ [.write 0x80 0] ++ [.read regCmd (dev (h ++ [.write 0x80 0]) regCmd)]) := by
        intro hfull
        rw [sendLoop, if_pos hfull]
        rfl
      refine ⟨fun k hk hfull hclear => ?_, fun hfull => ?_⟩
      · cases k with
        | zero =>
            have hdone : status &&& 2 = 0 := hclear
            rw [sendLoop, if_neg (not_not.mpr hdone)]
            rfl
        | succ k =>
            rw [hturn (hfull 0 (Nat.succ_pos k)),
              hsome k (Nat.lt_of_succ_lt_succ hk) (fun i hi => hfull (i + 1) (Nat.succ_lt_succ hi)) hclear,
              Nat.succ_sub_succ]
      · rw [hturn (hfull 0 (Nat.succ_pos retries)),
          hnone fun i hi => hfull (i + 1) (Nat.succ_lt_succ hi)]

/-- The history in front of the loop of `send_port`. -/
def beforeLoop (dev : Device) (port : Port) (h : List PortEvent) : List PortEvent :=
  h ++ [.read regCmd (dev h regCmd)] ++ if port = .port2 then [.write regCmd 0xD4] else []

lemma sendPort_of_loop {dev : Device} {port : Port} {data : UInt8} {s : Ps2} {h h' : List PortEvent} {r : ℕ}
    (hport : ¬ (port = .port2 ∧ s.isDualChannel = false))
    (hloop : sendLoop dev 1000 (dev h regCmd) s (beforeLoop dev port h) = (some r, s, h')) :
    sendPort dev port data s h =
      if r = 0 then (some false, s, h') else (some true, s, h' ++ [.write regData data]) := by
  have hrest : ∀ g, sendLoop dev 1000 (dev h regCmd) s g = (some r, s, h') →
      (sendLoop dev 1000 (dev h regCmd) >>= fun retries => if retries = 0 then pure false else do
        outb regData data
        pure true : Driver Ps2 Bool) s g =
      if r = 0 then (some false, s, h') else (some true, s, h' ++ [.write regData data]) := by
    intro g hg
    rw [bind_of_some hg]
    split_ifs <;> rfl
  rw [sendPort, bind_of_some (a := dev h regCmd) rfl, bind_of_some (a := s) rfl, if_neg hport]
  cases port with
  | port1 =>
      rw [if_neg (by decide)]
      exact hrest _ (by rw [← hloop, beforeLoop, if_neg (by decide), List.append_nil])
  | port2 =>
      rw [if_pos rfl, bind_of_some (a := ()) rfl]
      exact hrest _ hloop

/-- **A byte is sent when one of the first thousand states is clear**, and not otherwise: with the first
clear state as the last access in front of the byte, but for the second device, whose command is between the
first state and the byte. Without a second device nothing is sent to it. -/
theorem send_port_retries (dev : Device) (port : Port) (data : UInt8) (s : Ps2) (h : List PortEvent) :
    (port = .port2 ∧ s.isDualChannel = false →
      sendPort dev port data s h = (some false, s, h ++ [.read regCmd (dev h regCmd)])) ∧
    (¬ (port = .port2 ∧ s.isDualChannel = false) →
      (∀ k < 1000, (∀ i < k, polled dev (beforeLoop dev port h) (dev h regCmd) i &&& 2 ≠ 0) →
        polled dev (beforeLoop dev port h) (dev h regCmd) k &&& 2 = 0 →
        sendPort dev port data s h =
          (some true, s, polls dev (beforeLoop dev port h) k ++ [.write regData data])) ∧
      ((∀ i < 1000, polled dev (beforeLoop dev port h) (dev h regCmd) i &&& 2 ≠ 0) →
        sendPort dev port data s h = (some false, s, polls dev (beforeLoop dev port h) 1000))) := by
  refine ⟨fun hport => ?_, fun hport => ?_⟩
  · rw [sendPort, bind_of_some (a := dev h regCmd) rfl, bind_of_some (a := s) rfl, if_pos hport]
    rfl
  · obtain ⟨hsome, hnone⟩ := sendLoop_eq dev s (beforeLoop dev port h) (dev h regCmd) 1000
    refine ⟨fun k hk hfull hclear => ?_, fun hfull => ?_⟩
    · rw [sendPort_of_loop hport (hsome k hk hfull hclear), if_neg (by omega)]
    · rw [sendPort_of_loop hport (hnone hfull), if_pos rfl]

end Ps2

end Matanos
