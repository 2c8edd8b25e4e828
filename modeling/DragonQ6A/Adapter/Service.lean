import DragonQ6A.Adapter.Device

/-!
# The adapter monitor service

`AdapterMonitorService` and `ActivateReceiver`, method by method, as programs over the calls of
`Device`.  Logging is left out, and so are the notification's icon, title and channel and the toast,
which no other code reads.
-/

open Calls Java

namespace DragonQ6A.Adapter

abbrev Prog := CallTree Op.Ret

/-- A call into the device. -/
def call (o : Op) : Prog o.Ret := CallTree.request o

def NOTIF_ID_BASE : BitVec 32 := 0x77A10000
def POLL_MS : ℕ := 3000
def WIFI_CYCLE_MS : ℕ := 2500
def ONBOARD_IFACE : String := "wlan0"
def ACTION_SWITCH : String := "com.dragonq6a.wifiadapter.action.SWITCH"
def ACTION_ACTIVATE : String := "com.dragonq6a.wifiadapter.ACTIVATE"

/-! ## Switching the station -/

/-- `setWifiEnabled(false) -> gap -> setWifiEnabled(true)`. -/
def cycleWifi : Prog Unit := do
  let wm ← call .getWifiManager
  if !wm then
    pure ()
  else do
    call (.setWifiEnabled false)
    (call (.sleep WIFI_CYCLE_MS)).tryCatch (pure ())
    call (.setWifiEnabled true)

/-- Point the station at `iface` and cycle Wi-Fi so that it rebinds. -/
def switchStaTo (iface : Option String) : Prog Unit :=
  match iface with
  | none => pure ()
  | some iface =>
    if iface = "" then pure ()
    else do
      call (.setProp "wifi.interface" iface)
      call (.setProp "sys.wifidongle.result" ("switching STA to " ++ iface))
      cycleWifi
      call (.setProp "sys.wifidongle.result" ("done: STA -> " ++ iface))

def revertStaToOnboard : Prog Unit := do
  call (.setProp "wifi.interface" ONBOARD_IFACE)
  cycleWifi
  call (.setProp "sys.wifidongle.result" ("reverted: STA -> " ++ ONBOARD_IFACE))

/-- If `wifi.interface` names an interface that is gone, put the station back on the onboard one;
`mRevertPending` makes it a one-shot. -/
def maybeRevertStaleInterface : Prog Unit := do
  let wi ← call (.getProp "wifi.interface" ONBOARD_IFACE)
  let stale ←
    if startsWith wi "wlan" && wi != ONBOARD_IFACE then do
      let there ← call (.ifaceExists wi)
      pure (!there)
    else pure false
  let pending ← call .getRevertPending
  if stale && !pending then do
    call (.setRevertPending true)
    revertStaToOnboard
  else if !stale then
    call (.setRevertPending false)
  else
    pure ()

/-! ## Finding the dongles -/

/-- The USB dongle drivers with bundled firmware. -/
def isDongleDriver : Option String → Bool
  | none => false
  | some d =>
    let d := toLowerCase d
    d == "rtl8xxxu"
      || startsWith d "rtw88"
      || startsWith d "rtl81" || startsWith d "rtl87" || startsWith d "rtl88"
      || startsWith d "mt76"
      || startsWith d "mt79"
      || startsWith d "brcmfmac"

def driverOf (iface : String) : Prog (Option String) :=
  CallTree.tryCatch
    (do
      let there ← call (.driverLinkExists iface)
      if !there then pure none
      else do
        let name ← call (.driverLinkName iface)
        pure (some name))
    (pure none)

/-- `wlan*` interfaces whose kernel driver is a known USB dongle driver. -/
def findDongleIfaces : Prog (HashSet String) := do
  match ← call .listFiles with
  | none => pure HashSet.empty
  | some ifaces =>
    ifaces.foldlM
      (fun out name => do
        if !startsWith name "wlan" then pure out
        else do
          let d ← driverOf name
          if isDongleDriver d then pure (out.add name) else pure out)
      HashSet.empty

/-! ## Notifications -/

def notifId (iface : String) : BitVec 32 := NOTIF_ID_BASE + (hashCode iface &&& 0xFFFF)

/-- `R.string.notif_text`. -/
def notifText (iface : String) : String :=
  "USB adapter detected (" ++ iface ++ "). Tap \"Activate\" to use it."

/-- The intent behind the "Activate" action. -/
def activateIntent (iface : String) : Intent :=
  ⟨.activateReceiver, some ACTION_ACTIVATE, some iface⟩

def showNotification (iface : String) : Prog Unit := do
  let pi ← call (.getBroadcast (hashCode iface) (activateIntent iface) true)
  call (.notify (notifId iface) ⟨notifText iface, pi⟩ iface)

def cancelNotification (iface : String) : Prog Unit := call (.cancel (notifId iface) iface)

/-! ## The poll -/

/-- The two loops of the poll and the refresh of `mPresent`. -/
def updateNotifications (dongles : HashSet String) : Prog Unit := do
  (← call (.visit dongles)).forM fun iface => do
    if iface ∉ (← call .getPresent) then showNotification iface
  (← call (.visit (← call .getPresent))).forM fun iface => do
    if iface ∉ dongles then cancelNotification iface
  call (.setPresent HashSet.empty)
  let added ← call (.visit dongles)
  call (.setPresent ((← call .getPresent).addAll added))

/-- The `try` block of `mPoll`. -/
def pollBody : Prog Unit := do
  let dongles ← findDongleIfaces
  updateNotifications dongles
  maybeRevertStaleInterface

/-- `mPoll.run()`. -/
def mPoll : Prog Unit :=
  (pollBody.tryCatch (pure ())).tryFinally (call (.postDelayed .mPoll POLL_MS))

/-- What the worker thread runs for a message. -/
def Message.run : Message → Prog Unit
  | .mPoll => Adapter.mPoll
  | .switchStaTo iface => Adapter.switchStaTo iface

/-! ## The main thread -/

/-- `onStartCommand`, on the main thread. -/
def onStartCommand (intent : Option Intent) : Prog Unit :=
  let plain : Prog Unit := do
    call (.removeCallbacks .mPoll)
    call (.post .mPoll)
  match intent with
  | some i =>
    if i.action = some ACTION_SWITCH then call (.post (.switchStaTo i.extraIface)) else plain
  | none => plain

/-- `ActivateReceiver.onReceive`: the intent it starts the service with. -/
def ActivateReceiver.onReceive (intent : Intent) : Option Intent :=
  if intent.action = some ACTION_ACTIVATE then
    let iface := match intent.extraIface with
      | some iface => if iface = "" then "wlan1" else iface
      | none => "wlan1"
    some ⟨.adapterMonitorService, some ACTION_SWITCH, some iface⟩
  else none

end DragonQ6A.Adapter
