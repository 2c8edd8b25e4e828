import Mathlib.Logic.Function.Basic
import DragonQ6A.Calls.Wp
import DragonQ6A.Java.HashSet
import DragonQ6A.Java.Str

/-!
# The device around the adapter monitor

`Device` is what `AdapterMonitorService` and `ActivateReceiver` read and write: system properties,
`/sys/class/net`, the Wi-Fi framework, the notification tray with its pending intents, the message
queue of the worker thread, and the two private fields of the service.  `Op` lists the calls the
service makes into it, `Op.effect` what a call does, `Op.Answers` what it may return.
-/

open Calls Java

namespace DragonQ6A.Adapter

/-- An entry of `/sys/class/net`, with the name its `device/driver` link resolves to. -/
structure NetIface where
  name : String
  driver : Option String
deriving DecidableEq

/-- The components of the application an intent can name. -/
inductive Component
  | adapterMonitorService
  | activateReceiver
deriving DecidableEq

/-- An intent, with its `EXTRA_IFACE` string extra. -/
structure Intent where
  component : Component
  action : Option String
  extraIface : Option String
deriving DecidableEq

/-- The identity of a broadcast pending intent: its extras are not part of it. -/
structure PendingIntent where
  requestCode : BitVec 32
  component : Component
  action : Option String
deriving DecidableEq

structure Notification where
  contentText : String
  activate : PendingIntent
deriving DecidableEq

/-- The Wi-Fi framework: whether Wi-Fi is enabled, and the interface its station is bound to. -/
structure Wifi where
  enabled : Bool
  sta : String
deriving DecidableEq

/-- What the worker thread is asked to run. -/
inductive Message
  | mPoll
  | switchStaTo (iface : Option String)
deriving DecidableEq

structure Device where
  /-- System properties; an unset one is empty. -/
  props : String → String
  net : List NetIface
  /-- Whether `getSystemService(WifiManager.class)` is there. -/
  wifiManager : Bool
  wifi : Wifi
  intents : PendingIntent → Option Intent
  tray : BitVec 32 → Option Notification
  now : ℕ
  queue : List (ℕ × Message)
  mPresent : HashSet String
  mRevertPending : Bool

namespace Device

/-- A device on which nothing has happened: Wi-Fi on `wlan0`, the onboard radio. -/
def boot : Device where
  props := Function.update (fun _ => "") "wifi.interface" "wlan0"
  net := [⟨"wlan0", some "usb"⟩]
  wifiManager := true
  wifi := ⟨true, "wlan0"⟩
  intents := fun _ => none
  tray := fun _ => none
  now := 0
  queue := []
  mPresent := HashSet.empty
  mRevertPending := false

variable (d : Device)

/-- The interface names under `/sys/class/net`. -/
def ifaces : List String := d.net.map NetIface.name

/-- The station reads `wifi.interface` when Wi-Fi goes from disabled to enabled, and only then. -/
def setWifiEnabled (on : Bool) : Device :=
  if d.wifi.enabled = on then d
  else if on then { d with wifi := ⟨true, d.props "wifi.interface"⟩ }
  else { d with wifi := ⟨false, d.wifi.sta⟩ }

/-- `MessageQueue.enqueueMessage`: after every message due no later. -/
def enqueueMessage (due : ℕ) (m : Message) : Device :=
  { d with queue := d.queue.takeWhile (·.1 ≤ due) ++ (due, m) :: d.queue.dropWhile (·.1 ≤ due) }

/-- `PendingIntent.getBroadcast`: without `FLAG_UPDATE_CURRENT` a stored intent is kept. -/
def getBroadcast (pi : PendingIntent) (intent : Intent) (updateCurrent : Bool) : Device :=
  if updateCurrent || (d.intents pi).isNone then
    { d with intents := Function.update d.intents pi (some intent) }
  else d

theorem setWifiEnabled_eq (on : Bool) :
    d.setWifiEnabled on = { d with wifi := (d.setWifiEnabled on).wifi } := by
  unfold setWifiEnabled
  split_ifs <;> rfl

theorem getBroadcast_eq (pi : PendingIntent) (intent : Intent) (upd : Bool) :
    d.getBroadcast pi intent upd =
      { d with intents := (d.getBroadcast pi intent upd).intents } := by
  unfold getBroadcast
  split_ifs <;> rfl

end Device

/-- The calls of the service into the device. -/
inductive Op
  /-- `SystemProperties.get` -/
  | getProp (key dflt : String)
  /-- `SystemProperties.set` -/
  | setProp (key val : String)
  /-- `new File("/sys/class/net").listFiles()` -/
  | listFiles
  /-- `new File("/sys/class/net/" + iface).exists()` -/
  | ifaceExists (iface : String)
  /-- `exists()` of `/sys/class/net/<iface>/device/driver` -/
  | driverLinkExists (iface : String)
  /-- `getCanonicalFile().getName()` of `/sys/class/net/<iface>/device/driver` -/
  | driverLinkName (iface : String)
  /-- the order in which a loop visits a hash set -/
  | visit (s : HashSet String)
  | getPresent
  | setPresent (s : HashSet String)
  | getRevertPending
  | setRevertPending (b : Bool)
  /-- `getSystemService(WifiManager.class) != null` -/
  | getWifiManager
  | setWifiEnabled (on : Bool)
  /-- `Thread.sleep` -/
  | sleep (ms : ℕ)
  | getBroadcast (requestCode : BitVec 32) (intent : Intent) (updateCurrent : Bool)
  /-- `NotificationManager.notify`; `iface` only labels the call in a history -/
  | notify (id : BitVec 32) (n : Notification) (iface : String)
  /-- `NotificationManager.cancel`, labelled in the same way -/
  | cancel (id : BitVec 32) (iface : String)
  | removeCallbacks (m : Message)
  | post (m : Message)
  | postDelayed (m : Message) (ms : ℕ)

namespace Op

/-- The type of the answer to a call. -/
@[reducible] def Ret : Op → Type
  | getProp _ _ => String
  | listFiles => Option (List String)
  | ifaceExists _ => Bool
  | driverLinkExists _ => Bool
  | driverLinkName _ => String
  | visit _ => List String
  | getPresent => HashSet String
  | getRevertPending => Bool
  | getWifiManager => Bool
  | getBroadcast _ _ _ => PendingIntent
  | _ => Unit

/-- What a call does to the device. -/
def effect (d : Device) : Op → Device
  | setProp key val => { d with props := Function.update d.props key val }
  | setPresent s => { d with mPresent := s }
  | setRevertPending b => { d with mRevertPending := b }
  | setWifiEnabled on => d.setWifiEnabled on
  | sleep ms => { d with now := d.now + ms }
  | getBroadcast code intent upd =>
    d.getBroadcast ⟨code, intent.component, intent.action⟩ intent upd
  | notify id n _ => { d with tray := Function.update d.tray id (some n) }
  | cancel id _ => { d with tray := Function.update d.tray id none }
  | removeCallbacks m => { d with queue := d.queue.filter (·.2 ≠ m) }
  | post m => d.enqueueMessage d.now m
  | postDelayed m ms => d.enqueueMessage (d.now + ms) m
  | _ => d

/-- The answers a call may get. -/
def Answers (d : Device) : (o : Op) → o.Ret → Prop
  | getProp key dflt, r => r = if d.props key = "" then dflt else d.props key
  -- an I/O error is reported as null
  | listFiles, r => r = none ∨ r = some d.ifaces
  | ifaceExists iface, r => r = decide (iface ∈ d.ifaces)
  | driverLinkExists iface, r => r = d.net.any fun n => n.name == iface && n.driver.isSome
  -- the canonical form of a link that is gone is its own path
  | driverLinkName iface, r =>
    r = ((d.net.find? (·.name == iface)).bind NetIface.driver).getD "driver"
  | visit s, r => s.Visits r
  | getPresent, r => r = d.mPresent
  | getRevertPending, r => r = d.mRevertPending
  | getWifiManager, r => r = d.wifiManager
  | getBroadcast code intent _, r => r = ⟨code, intent.component, intent.action⟩
  | _, _ => True

/-- The answer of a device on which nothing goes wrong, with sets visited in the order stored. -/
def reply (d : Device) : (o : Op) → o.Ret
  | getProp key dflt => if d.props key = "" then dflt else d.props key
  | setProp _ _ => ()
  | listFiles => some d.ifaces
  | ifaceExists iface => decide (iface ∈ d.ifaces)
  | driverLinkExists iface => d.net.any fun n => n.name == iface && n.driver.isSome
  | driverLinkName iface => ((d.net.find? (·.name == iface)).bind NetIface.driver).getD "driver"
  | visit s => s.elems
  | getPresent => d.mPresent
  | setPresent _ => ()
  | getRevertPending => d.mRevertPending
  | setRevertPending _ => ()
  | getWifiManager => d.wifiManager
  | setWifiEnabled _ => ()
  | sleep _ => ()
  | getBroadcast code intent _ => ⟨code, intent.component, intent.action⟩
  | notify _ _ _ => ()
  | cancel _ _ => ()
  | removeCallbacks _ => ()
  | post _ => ()
  | postDelayed _ _ => ()

theorem answers_reply (d : Device) (o : Op) : o.Answers d (o.reply d) := by
  cases o with
  | listFiles => exact Or.inr rfl
  | visit s => exact s.visits_elems
  | _ => first | rfl | trivial

/-- The calls into the framework; the others are field accesses and queue operations. -/
def isFramework : Op → Bool
  | visit _ | getPresent | setPresent _ | getRevertPending | setRevertPending _ => false
  | removeCallbacks _ | post _ | postDelayed _ _ => false
  | _ => true

end Op

/-- The device as the surroundings of a program: calls in `F` may throw, `R` moves it. -/
def system (F : Op → Prop) (R : Device → Device → Prop) : System Op.Ret Device where
  answers d o r d' := o.Answers d r ∧ d' = o.effect d
  fails _ o := F o
  env := R

/-- The choices of a device on which nothing goes wrong. -/
def smooth (d : Device) (o : Op) : Option (o.Ret × Device) := some (o.reply d, o.effect d)

theorem resolves_smooth (F : Op → Prop) (R : Device → Device → Prop) :
    Resolves (system F R) smooth := by
  refine fun d o => ⟨?_, fun h => by cases h⟩
  intro r d' h
  obtain ⟨rfl, rfl⟩ := Prod.mk.inj (Option.some.inj h)
  exact ⟨o.answers_reply d, rfl⟩

/-- What happens around a method of the worker thread: interfaces come and go, the user switches
Wi-Fi on and off and dismisses notifications, messages enter and leave the queue, time passes. -/
inductive Env : Device → Device → Prop
  | net (d : Device) (net : List NetIface) : Env d { d with net := net }
  | userWifi (d : Device) (on : Bool) : Env d (d.setWifiEnabled on)
  | dismiss (d : Device) (id : BitVec 32) :
      Env d { d with tray := Function.update d.tray id none }
  | queue (d : Device) (queue : List (ℕ × Message)) : Env d { d with queue := queue }
  | time (d : Device) (ms : ℕ) : Env d { d with now := d.now + ms }

end DragonQ6A.Adapter
