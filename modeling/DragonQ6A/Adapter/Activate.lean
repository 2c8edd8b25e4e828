import DragonQ6A.Adapter.Tray

/-!
# The Activate action

The intent behind a notification is stored under the whole hash of the interface name, the
notification under its last 16 bits.  Two names may therefore share a notification without sharing
the intent, but never the other way round: whoever overwrites the intent of a notification replaces
that notification as well.
-/

open Calls Java Relation

namespace DragonQ6A.Adapter

/-- The pending intent of an interface. -/
def activation (iface : String) : PendingIntent :=
  ⟨hashCode iface, .activateReceiver, some ACTION_ACTIVATE⟩

/-- The entry under `id` is the notification of an interface, and its intent carries that name. -/
def Device.WiredAt (d : Device) (id : BitVec 32) : Prop :=
  ∀ n, d.tray id = some n → ∃ iface, iface ≠ "" ∧ id = notifId iface ∧
    n = ⟨notifText iface, activation iface⟩ ∧
    d.intents (activation iface) = some (activateIntent iface)

theorem Device.WiredAt.of_eq {d d' : Device} {id : BitVec 32} (h : d.WiredAt id)
    (htray : d'.tray id = d.tray id) (hintents : d'.intents = d.intents) : d'.WiredAt id := by
  intro n hn
  rw [hintents]
  exact h n (htray ▸ hn)

theorem Device.WiredAt.env {d d' : Device} {id : BitVec 32} (he : ReflTransGen Env d d')
    (h : d.WiredAt id) : d'.WiredAt id := by
  induction he with
  | refl => exact h
  | @tail d₁ d₂ _ hs ih =>
    cases hs with
    | dismiss id' =>
      by_cases hid : id = id'
      · intro n hn
        rw [hid] at hn
        simp at hn
      · exact ih.of_eq (Function.update_of_ne hid _ _) rfl
    | userWifi on =>
      rw [d₁.setWifiEnabled_eq]
      exact ih.of_eq rfl rfl
    | _ => exact ih.of_eq rfl rfl

/-- Equal hashes have equal ids: storing the intent of `iface` leaves the others' entries wired. -/
theorem Device.WiredAt.getBroadcast {d : Device} {iface : String} {id : BitVec 32}
    (h : d.WiredAt id) (hid : id ≠ notifId iface) :
    (d.getBroadcast (activation iface) (activateIntent iface) true).WiredAt id := by
  intro n hn
  obtain ⟨iface', hne, hid', hn', hintent⟩ := h n hn
  refine ⟨iface', hne, hid', hn', ?_⟩
  have hother : activation iface' ≠ activation iface := by
    intro heq
    have hhash : hashCode iface' = hashCode iface := congrArg PendingIntent.requestCode heq
    rw [hid', notifId, notifId, hhash] at hid
    exact hid rfl
  show Function.update d.intents (activation iface) (some (activateIntent iface)) _ = _
  rw [Function.update_of_ne hother, hintent]

theorem wp_showNotification_wired {iface : String} (hne : iface ≠ "") {d : Device}
    (hd : ∀ id, d.WiredAt id) :
    Wp settled (showNotification iface) (fun _ _ d' => ∀ id, d'.WiredAt id) (fun _ _ => False)
      d := by
  refine wp_bind.2 (wp_deviceCall.2 fun d₁ he₁ => ⟨?_, False.elim⟩)
  rintro pi (rfl : pi = activation iface)
  refine wp_deviceCall.2 fun d₂ he₂ => ⟨fun _ _ id => ?_, False.elim⟩
  by_cases hid : id = notifId iface
  · -- the entry is the new notification, and its intent is the one just stored
    intro n hn
    rw [hid] at hn ⊢
    change Function.update d₂.tray (notifId iface) (some ⟨notifText iface, activation iface⟩)
      (notifId iface) = some n at hn
    rw [Function.update_self] at hn
    refine ⟨iface, hne, rfl, (Option.some.inj hn).symm, ?_⟩
    show d₂.intents (activation iface) = _
    rw [(Env.sameService he₂).intents]
    exact Function.update_self _ _ _
  · have h₂ := (((hd id).env he₁).getBroadcast hid).env he₂
    exact h₂.of_eq (Function.update_of_ne hid _ _) rfl

theorem wp_cancelNotification_wired (iface : String) {d : Device} (hd : ∀ id, d.WiredAt id) :
    Wp settled (cancelNotification iface) (fun _ _ d' => ∀ id, d'.WiredAt id) (fun _ _ => False)
      d := by
  refine wp_deviceCall.2 fun d₁ he => ⟨fun _ _ id => ?_, False.elim⟩
  by_cases hid : id = notifId iface
  · intro n hn
    rw [hid] at hn
    change Function.update d₁.tray (notifId iface) none (notifId iface) = some n at hn
    rw [Function.update_self] at hn
    cases hn
  · exact ((hd id).env he).of_eq (Function.update_of_ne hid _ _) rfl

/-! ## Histories of notifications -/

/-- The devices reached from `d₀` by calls that show and cancel notifications of non-empty names. -/
inductive Shown (d₀ : Device) : Device → Prop
  | start : Shown d₀ d₀
  | env {d d' : Device} : Shown d₀ d → Env d d' → Shown d₀ d'
  | «show» {d d' : Device} {iface : String} {tr : List Ev} {res : Option Unit} : Shown d₀ d →
      iface ≠ "" → Exec settled (showNotification iface) d tr res d' → Shown d₀ d'
  | cancel {d d' : Device} {iface : String} {tr : List Ev} {res : Option Unit} : Shown d₀ d →
      iface ≠ "" → Exec settled (cancelNotification iface) d tr res d' → Shown d₀ d'

theorem Shown.wiredAt {d₀ d : Device} (h : Shown d₀ d) (ht : d₀.tray = fun _ => none)
    (id : BitVec 32) : d.WiredAt id := by
  induction h generalizing id with
  | start =>
    intro n hn
    rw [ht] at hn
    cases hn
  | env _ he ih => exact (ih id).env (.single he)
  | @«show» d d' iface tr res _ hne hx ih =>
    cases res with
    | none => exact ((wp_showNotification_wired hne ih).throws hx).elim
    | some => exact (wp_showNotification_wired hne ih).returns hx id
  | @cancel d d' iface tr res _ _ hx ih =>
    cases res with
    | none => exact ((wp_cancelNotification_wired iface ih).throws hx).elim
    | some => exact (wp_cancelNotification_wired iface ih).returns hx id

/-! ## From the tap to `wifi.interface` -/

/-- Tapping the action of `n` sends its stored intent to `ActivateReceiver`: the intent with which
that starts the service. -/
def Device.tap (d : Device) (n : Notification) : Option Intent :=
  (d.intents n.activate).bind ActivateReceiver.onReceive

/-- The message a call posts. -/
def Op.posted : Op → Option Message
  | post m => some m
  | _ => none

/-- The value a call writes to `wifi.interface`. -/
def Op.written : Op → Option String
  | setProp key val => if key = "wifi.interface" then some val else none
  | _ => none

theorem tap_activation {d : Device} {iface : String} (hne : iface ≠ "")
    (hd : d.intents (activation iface) = some (activateIntent iface)) :
    d.tap ⟨notifText iface, activation iface⟩ =
      some ⟨.adapterMonitorService, some ACTION_SWITCH, some iface⟩ := by
  simp [Device.tap, hd, ActivateReceiver.onReceive, activateIntent, hne]

theorem wp_onStartCommand_switch {intent : Intent} (ha : intent.action = some ACTION_SWITCH)
    (d : Device) :
    Wp settled (onStartCommand (some intent))
      (fun tr _ _ => tr.filterMap (fun e => e.op.posted) = [.switchStaTo intent.extraIface])
      (fun _ _ => False) d := by
  unfold onStartCommand
  dsimp only
  rw [if_pos ha]
  exact wp_deviceCall.2 fun d₁ _ => ⟨fun _ _ => rfl, False.elim⟩

theorem Op.rebinds.written {o : Op} (h : o.rebinds) : o.written = none := by
  cases o with
  | setProp key val =>
    obtain rfl : key = "sys.wifidongle.result" := h
    rfl
  | _ => rfl

theorem wp_switchStaTo_writes {iface : String} (hne : iface ≠ "") (d : Device) :
    Wp settled (switchStaTo (some iface))
      (fun tr _ _ => tr.filterMap (fun e => e.op.written) = [iface]) (fun _ _ => False) d := by
  rw [switchStaTo_eq hne]
  refine wp_bind.2 (wp_deviceCall.2 fun d₁ _ => ⟨fun _ _ => ?_, False.elim⟩)
  -- nothing after the first write touches the property, and nothing throws
  refine fun tr d' => ⟨fun _ hx => ?_, fun hx => ?_⟩
  · have hrest : tr.filterMap (fun e => e.op.written) = [] :=
      List.filterMap_eq_nil_iff.2 fun e he =>
        ((hx.of_mem_trace (rebind_safe iface).calls) e he).1.written
    show iface :: tr.filterMap (fun e => e.op.written) = [iface]
    rw [hrest]
  · exact (rebind_safe iface).not_exec_throw (fun _ _ _ => id) hx

/-- Whatever names were shown and cancelled before: a visible notification names one interface, and
tapping it makes the receiver forward that name, the service post a switch to it, and the switch
write it to `wifi.interface`. -/
theorem Shown.activates_named {d₀ d : Device} (hs : Shown d₀ d) (ht : d₀.tray = fun _ => none)
    {id : BitVec 32} {n : Notification} (hn : d.tray id = some n) :
    ∃ iface fwd, (∀ other, n.contentText = notifText other ↔ other = iface) ∧
      d.tap n = some fwd ∧ fwd.extraIface = some iface ∧
      (∀ d₁ tr res d₂, Exec settled (onStartCommand (some fwd)) d₁ tr res d₂ →
        res = some () ∧ tr.filterMap (fun e => e.op.posted) = [.switchStaTo (some iface)]) ∧
      (∀ d₁ tr res d₂, Exec settled (switchStaTo (some iface)) d₁ tr res d₂ →
        res = some () ∧ tr.filterMap (fun e => e.op.written) = [iface]) := by
  obtain ⟨iface, hne, -, rfl, hintent⟩ := hs.wiredAt ht id n hn
  refine ⟨iface, _, fun other => notifText_inj.trans eq_comm, tap_activation hne hintent, rfl,
    fun d₁ tr res d₂ hx => ?_, fun d₁ tr res d₂ hx => ?_⟩
  · cases res with
    | none => exact ((wp_onStartCommand_switch rfl d₁).throws hx).elim
    | some => exact ⟨rfl, (wp_onStartCommand_switch rfl d₁).returns hx⟩
  · cases res with
    | none => exact ((wp_switchStaTo_writes hne d₁).throws hx).elim
    | some => exact ⟨rfl, (wp_switchStaTo_writes hne d₁).returns hx⟩

/-- The moments of a history: between its calls, and inside one before and after each of its calls
into the device. -/
inductive Shown.At (d₀ d : Device) : Prop
  | between : Shown d₀ d → At d₀ d
  | inside {d₁ d₂ : Device} {iface : String} {tr : List Ev} {res : Option Unit} {e : Ev} :
      Shown d₀ d₁ → iface ≠ "" →
      Exec settled (showNotification iface) d₁ tr res d₂ ∨
        Exec settled (cancelNotification iface) d₁ tr res d₂ →
      e ∈ tr → d = e.before ∨ d = e.after → At d₀ d

/-- The intent of `wlanBB` is stored and its notification is not there yet, so that of `wlanAa`, of
the same hash, still is: its action switches to `wlanBB`. -/
theorem not_forall_at_activates_named : ¬ ∀ d₀ d : Device, Shown.At d₀ d →
    (d₀.tray = fun _ => none) → ∀ id n, d.tray id = some n →
    ∃ iface fwd, n.contentText = notifText iface ∧ d.tap n = some fwd ∧
      fwd.extraIface = some iface := by
  intro hall
  have hx := exec_run (resolves_smooth (fun _ => False) Env) (showNotification "wlanAa") Device.boot
  have hy := exec_run (resolves_smooth (fun _ => False) Env) (showNotification "wlanBB")
    (run smooth (showNotification "wlanAa") Device.boot).2.2
  have hvisible : ((run smooth (showNotification "wlanAa") Device.boot).2.2.getBroadcast
      (activation "wlanBB") (activateIntent "wlanBB") true).tray (notifId "wlanAa") =
      some ⟨notifText "wlanAa", activation "wlanAa"⟩ := by decide
  obtain ⟨iface, fwd, hnames, htap, hextra⟩ := hall Device.boot _
    (.inside (Shown.start.show (by decide) hx) (by decide) (Or.inl hy) List.mem_cons_self
      (Or.inr rfl)) rfl _ _ hvisible
  obtain rfl := notifText_inj.1 hnames
  have hforwarded : ((run smooth (showNotification "wlanAa") Device.boot).2.2.getBroadcast
      (activation "wlanBB") (activateIntent "wlanBB") true).tap
        ⟨notifText "wlanAa", activation "wlanAa"⟩ =
      some ⟨.adapterMonitorService, some ACTION_SWITCH, some "wlanBB"⟩ := by decide
  have hfwd := Option.some.inj (hforwarded.symm.trans htap)
  rw [← hfwd] at hextra
  exact absurd hextra (by decide)

/-- Two names of one hash: the second notification replaces the first, and its action is its own. -/
def bothShown : Device :=
  (run smooth (showNotification "wlanBB") (run smooth (showNotification "wlanAa")
    Device.boot).2.2).2.2

theorem activates_named_wlanBB : ∃ fwd,
    bothShown.tap ⟨notifText "wlanBB", activation "wlanBB"⟩ = some fwd ∧
      fwd.extraIface = some "wlanBB" := by
  have hx := exec_run (resolves_smooth (fun _ => False) Env) (showNotification "wlanAa") Device.boot
  have hy := exec_run (resolves_smooth (fun _ => False) Env) (showNotification "wlanBB")
    (run smooth (showNotification "wlanAa") Device.boot).2.2
  have hvisible : bothShown.tray (notifId "wlanBB") =
      some ⟨notifText "wlanBB", activation "wlanBB"⟩ := by decide
  obtain ⟨iface, fwd, hnames, htap, hextra, -⟩ := Shown.activates_named
    ((Shown.start.show (by decide) hx).show (by decide) hy) rfl hvisible
  obtain rfl : "wlanBB" = iface := (hnames "wlanBB").1 rfl
  exact ⟨fwd, htap, hextra⟩

end DragonQ6A.Adapter
