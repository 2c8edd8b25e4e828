import DragonQ6A.Adapter.Service

/-!
# What the methods leave alone

`Op.keepsSta` marks the calls that touch neither `wifi.interface` nor `mRevertPending`, the two
things a stale-interface revert depends on.  All of `findDongleIfaces`, `updateNotifications` and
`cycleWifi` is made of such calls, and the environment keeps both as well.
-/

open Calls Java Relation

namespace DragonQ6A.Adapter

abbrev Ev := Event Op.Ret Device

/-- No call throws. -/
abbrev settled : System Op.Ret Device := system (fun _ => False) Env

/-- The rule of a single call: the environment moves, then the call takes effect or throws. -/
theorem wp_deviceCall {F : Op → Prop} {R : Device → Device → Prop} {o : Op}
    {Q : List Ev → o.Ret → Device → Prop} {E : List Ev → Device → Prop} {d : Device} :
    Wp (system F R) (call o) Q E d ↔ ∀ d₁, ReflTransGen R d d₁ →
      (∀ r, o.Answers d₁ r → Q [⟨o, r, d₁, o.effect d₁⟩] r (o.effect d₁)) ∧ (F o → E [] d₁) := by
  refine wp_request.trans (forall₂_congr fun d₁ _ => and_congr_left' ⟨?_, ?_⟩)
  · exact fun h r ha => h r _ ⟨ha, rfl⟩
  · rintro h r d₂ ⟨ha, rfl⟩
    exact h r ha

/-- The property `wifi.interface`. -/
def Device.iface (d : Device) : String := d.props "wifi.interface"

/-- What the environment leaves to the service. -/
structure Device.SameService (d d' : Device) : Prop where
  props : d'.props = d.props
  wifiManager : d'.wifiManager = d.wifiManager
  intents : d'.intents = d.intents
  mPresent : d'.mPresent = d.mPresent
  mRevertPending : d'.mRevertPending = d.mRevertPending

theorem Device.SameService.trans {d₁ d₂ d₃ : Device} (h : d₁.SameService d₂)
    (h' : d₂.SameService d₃) : d₁.SameService d₃ :=
  ⟨h'.props.trans h.props, h'.wifiManager.trans h.wifiManager, h'.intents.trans h.intents,
    h'.mPresent.trans h.mPresent, h'.mRevertPending.trans h.mRevertPending⟩

theorem Device.SameService.iface {d₁ d₂ : Device} (h : d₁.SameService d₂) : d₂.iface = d₁.iface :=
  congrFun h.props _

theorem setWifiEnabled_sameService (d : Device) (on : Bool) :
    d.SameService (d.setWifiEnabled on) := by
  rw [d.setWifiEnabled_eq]
  exact ⟨rfl, rfl, rfl, rfl, rfl⟩

theorem Env.sameService {d d' : Device} (h : ReflTransGen Env d d') : d.SameService d' := by
  induction h with
  | refl => exact ⟨rfl, rfl, rfl, rfl, rfl⟩
  | tail _ hs ih =>
    cases hs with
    | userWifi on => exact ih.trans (setWifiEnabled_sameService _ on)
    | _ => exact ⟨ih.props, ih.wifiManager, ih.intents, ih.mPresent, ih.mRevertPending⟩

theorem iface_setProp (d : Device) (val : String) :
    (Op.effect d (.setProp "wifi.interface" val)).iface = val := by
  simp [Device.iface, Op.effect]

/-- The calls that touch neither `wifi.interface` nor `mRevertPending`. -/
def Op.keepsSta : Op → Prop
  | setProp key _ => key ≠ "wifi.interface"
  | setRevertPending _ => False
  | _ => True

theorem Op.keepsSta.effect {o : Op} (h : o.keepsSta) (d : Device) :
    (o.effect d).iface = d.iface ∧ (o.effect d).mRevertPending = d.mRevertPending := by
  cases o with
  | setProp key val =>
    exact ⟨Function.update_of_ne (Ne.symm h) _ _, rfl⟩
  | setRevertPending b => exact absurd h id
  | setWifiEnabled on =>
    have := setWifiEnabled_sameService d on
    exact ⟨this.iface, this.mRevertPending⟩
  | getBroadcast code intent upd =>
    rw [Op.effect, d.getBroadcast_eq]
    exact ⟨rfl, rfl⟩
  | _ => exact ⟨rfl, rfl⟩

theorem wp_keepsSta {F : Op → Prop} {α : Type} {p : Prog α} (hp : p.AllCalls Op.keepsSta)
    (d : Device) :
    Wp (system F Env) p
      (fun _ _ d' => d'.iface = d.iface ∧ d'.mRevertPending = d.mRevertPending)
      (fun _ d' => d'.iface = d.iface ∧ d'.mRevertPending = d.mRevertPending) d := by
  refine wp_invariant
    (I := fun d' : Device => d'.iface = d.iface ∧ d'.mRevertPending = d.mRevertPending)
    hp ?_ ?_ ⟨rfl, rfl⟩
  · rintro d₁ d₂ he ⟨h₁, h₂⟩
    have := Env.sameService (.single he)
    exact ⟨this.iface.trans h₁, this.mRevertPending.trans h₂⟩
  · rintro d₁ o r d₂ ho ⟨-, rfl⟩ ⟨h₁, h₂⟩
    exact ⟨(ho.effect d₁).1.trans h₁, (ho.effect d₁).2.trans h₂⟩

/-- The message `mPoll` runs the `try` block and then, whatever came of it, posts the next poll; it
never throws. -/
theorem exec_mPoll {F : Op → Prop} {R : Device → Device → Prop}
    (hF : ∀ o, F o → o.isFramework = true) {d d' : Device} {tr : List Ev} {res : Option Unit}
    (h : Exec (system F R) mPoll d tr res d') :
    res = some () ∧ ∃ tr₁ res₁ d₁ d₂, Exec (system F R) pollBody d tr₁ res₁ d₁ ∧
      ReflTransGen R d₁ d₂ ∧ d' = d₂.enqueueMessage (d₂.now + POLL_MS) .mPoll := by
  obtain ⟨r₁, d₁, tr₁, tr₂, htry, hfin, -⟩ := exec_tryFinally.1 h
  have hbody : r₁ = some () ∧ ∃ tr₁ res₁, Exec (system F R) pollBody d tr₁ res₁ d₁ := by
    rcases exec_tryCatch.1 htry with ⟨⟨⟩, hbody, rfl⟩ | ⟨d₀, tr₀, _, hbody, ⟨-, rfl, rfl⟩, -⟩
    · exact ⟨rfl, _, _, hbody⟩
    · exact ⟨rfl, _, _, hbody⟩
  obtain ⟨rfl, tr₁, res₁, hbody⟩ := hbody
  have hpost : Wp (system F R) (call (.postDelayed .mPoll POLL_MS))
      (fun _ _ d' => ∃ d₂, ReflTransGen R d₁ d₂ ∧
        d' = d₂.enqueueMessage (d₂.now + POLL_MS) .mPoll) (fun _ _ => False) d₁ :=
    wp_deviceCall.2 fun d₂ he => ⟨fun _ _ => ⟨d₂, he, rfl⟩, fun hf => by cases hF _ hf⟩
  rcases hfin with ⟨hfin, rfl⟩ | ⟨hfin, -⟩
  · obtain ⟨d₂, he, rfl⟩ := hpost.returns hfin
    exact ⟨rfl, tr₁, res₁, d₁, d₂, hbody, he, rfl⟩
  · exact (hpost.throws hfin).elim

/-! ## The calls of the methods -/

/-- The calls of `findDongleIfaces`. -/
def Op.scans : Op → Prop
  | listFiles | driverLinkExists _ | driverLinkName _ => True
  | _ => False

/-- The calls of `updateNotifications`: a notification has the id and the text of its interface. -/
def Op.notifies : Op → Prop
  | visit _ | getPresent | setPresent _ | getBroadcast _ _ _ => True
  | notify id n iface => id = notifId iface ∧ n.contentText = notifText iface
  | cancel id iface => id = notifId iface
  | _ => False

/-- The calls of `cycleWifi`. -/
def Op.cycles : Op → Prop
  | getWifiManager | setWifiEnabled _ | sleep _ => True
  | _ => False

/-- The calls of `rebind`. -/
def Op.rebinds : Op → Prop
  | setProp key _ => key = "sys.wifidongle.result"
  | getWifiManager | setWifiEnabled _ | sleep _ => True
  | _ => False

/-- The calls of `guardedRevert`. -/
def Op.settles : Op → Prop
  | setProp _ _ | getRevertPending | setRevertPending _ => True
  | getWifiManager | setWifiEnabled _ | sleep _ => True
  | _ => False

/-- The calls of `maybeRevertStaleInterface`. -/
def Op.reverts : Op → Prop
  | getProp _ _ | setProp _ _ | ifaceExists _ | getRevertPending | setRevertPending _ => True
  | getWifiManager | setWifiEnabled _ | sleep _ => True
  | _ => False

theorem Op.cycles.rebinds {o : Op} (h : o.cycles) : o.rebinds := by
  cases o <;> trivial

theorem Op.rebinds.keepsSta {o : Op} (h : o.rebinds) : o.keepsSta := by
  cases o with
  | setProp key val =>
    obtain rfl : key = "sys.wifidongle.result" := h
    simp [Op.keepsSta]
  | _ => trivial

theorem Op.cycles.settles {o : Op} (h : o.cycles) : o.settles := by
  cases o <;> trivial

theorem Op.settles.reverts {o : Op} (h : o.settles) : o.reverts := by
  cases o <;> trivial

theorem Op.scans.keepsSta {o : Op} (h : o.scans) : o.keepsSta := by
  cases o <;> trivial

theorem Op.notifies.keepsSta {o : Op} (h : o.notifies) : o.keepsSta := by
  cases o <;> trivial

theorem Op.cycles.keepsSta {o : Op} (h : o.cycles) : o.keepsSta := by
  cases o <;> trivial

/-! ## The methods

Each throws only when one of its calls does. -/

theorem safe_call {A : Op → Prop} {o : Op} (ho : A o) : (call o).Safe A :=
  CallTree.safe_request ho

theorem cycleWifi_safe : cycleWifi.Safe Op.cycles := by
  refine CallTree.Safe.bind (safe_call trivial) fun wm => ?_
  cases wm with
  | false => exact CallTree.safe_pure ()
  | true =>
    refine CallTree.Safe.bind (safe_call trivial) fun _ => ?_
    refine CallTree.Safe.bind ?_ fun _ => safe_call trivial
    exact CallTree.Safe.tryCatch (safe_call trivial) (CallTree.allCalls_pure ())

/-- What `switchStaTo` does once `wifi.interface` is written. -/
def rebind (iface : String) : Prog Unit := do
  call (.setProp "sys.wifidongle.result" ("switching STA to " ++ iface))
  cycleWifi
  call (.setProp "sys.wifidongle.result" ("done: STA -> " ++ iface))

theorem switchStaTo_eq {iface : String} (hne : iface ≠ "") :
    switchStaTo (some iface) =
      (call (.setProp "wifi.interface" iface)).bind fun _ => rebind iface :=
  if_neg hne

theorem rebind_safe (iface : String) : (rebind iface).Safe Op.rebinds :=
  CallTree.Safe.bind (safe_call rfl) fun _ =>
    (cycleWifi_safe.mono fun _ h => h.rebinds).bind fun _ => safe_call rfl

theorem driverOf_safe (iface : String) : (driverOf iface).Safe Op.scans := by
  refine CallTree.Safe.tryCatch ?_ (CallTree.allCalls_pure none)
  refine CallTree.Safe.bind (safe_call trivial) fun there => ?_
  cases there with
  | false => exact CallTree.safe_pure none
  | true => exact CallTree.Safe.bind (safe_call trivial) fun _ => CallTree.safe_pure _

theorem findDongleIfaces_safe : findDongleIfaces.Safe Op.scans := by
  refine CallTree.Safe.bind (safe_call trivial) fun ifaces => ?_
  cases ifaces with
  | none => exact CallTree.safe_pure _
  | some l =>
    refine CallTree.Safe.foldlM (fun out name => ?_) l
    split_ifs
    · exact CallTree.safe_pure _
    · refine CallTree.Safe.bind (driverOf_safe name) fun d => ?_
      split_ifs <;> exact CallTree.safe_pure _

/-- `wi.startsWith("wlan") && !wi.equals(ONBOARD_IFACE)`. -/
def pointsAway (wi : String) : Bool := startsWith wi "wlan" && wi != ONBOARD_IFACE

/-- The guarded revert, once `stale` is known. -/
def guardedRevert (stale : Bool) : Prog Unit := do
  let pending ← call .getRevertPending
  if stale && !pending then do
    call (.setRevertPending true)
    revertStaToOnboard
  else if !stale then
    call (.setRevertPending false)
  else
    pure ()

theorem maybeRevertStaleInterface_eq : maybeRevertStaleInterface =
    (call (.getProp "wifi.interface" ONBOARD_IFACE)).bind fun wi =>
      if pointsAway wi then (call (.ifaceExists wi)).bind fun there => guardedRevert (!there)
      else guardedRevert false := rfl

theorem revertStaToOnboard_safe : revertStaToOnboard.Safe Op.settles :=
  CallTree.Safe.bind (safe_call trivial) fun _ =>
    (cycleWifi_safe.mono fun _ h => h.settles).bind fun _ => safe_call trivial

theorem guardedRevert_safe (stale : Bool) : (guardedRevert stale).Safe Op.settles := by
  refine CallTree.Safe.bind (safe_call trivial) fun pending => ?_
  split_ifs
  · exact CallTree.Safe.bind (safe_call trivial) fun _ => revertStaToOnboard_safe
  · exact safe_call trivial
  · exact CallTree.safe_pure ()

theorem maybeRevertStaleInterface_safe : maybeRevertStaleInterface.Safe Op.reverts := by
  rw [maybeRevertStaleInterface_eq]
  refine CallTree.Safe.bind (safe_call trivial) fun wi => ?_
  split_ifs
  · exact CallTree.Safe.bind (safe_call trivial) fun there =>
      (guardedRevert_safe _).mono fun _ h => h.reverts
  · exact (guardedRevert_safe false).mono fun _ h => h.reverts

theorem showNotification_safe (iface : String) : (showNotification iface).Safe Op.notifies :=
  CallTree.Safe.bind (safe_call trivial) fun _ => safe_call ⟨rfl, rfl⟩

theorem updateNotifications_safe (dongles : HashSet String) :
    (updateNotifications dongles).Safe Op.notifies := by
  refine CallTree.Safe.bind (safe_call trivial) fun l => ?_
  refine CallTree.Safe.bind (CallTree.Safe.forM (fun iface => ?_) l) fun _ => ?_
  · refine CallTree.Safe.bind (safe_call trivial) fun present => ?_
    split_ifs
    · exact CallTree.safe_pure ()
    · exact showNotification_safe iface
  refine CallTree.Safe.bind (safe_call trivial) fun present => ?_
  refine CallTree.Safe.bind (safe_call trivial) fun l' => ?_
  refine CallTree.Safe.bind (CallTree.Safe.forM (fun iface => ?_) l') fun _ => ?_
  · split_ifs
    · exact CallTree.safe_pure ()
    · exact safe_call rfl
  refine CallTree.Safe.bind (safe_call trivial) fun _ => ?_
  refine CallTree.Safe.bind (safe_call trivial) fun added => ?_
  exact CallTree.Safe.bind (safe_call trivial) fun _ => safe_call trivial

end DragonQ6A.Adapter
