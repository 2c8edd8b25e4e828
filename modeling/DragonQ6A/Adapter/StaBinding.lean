import DragonQ6A.Adapter.Specs

/-!
# The station follows `wifi.interface`

`switchStaTo` and `revertStaToOnboard` write `wifi.interface`, disable Wi-Fi, wait and enable it
again, while the user may toggle Wi-Fi at any instant.  From the write on, whoever enables Wi-Fi
binds the station to the new interface; only a station that stayed up since before the write is
bound elsewhere, and the disable takes that one down.
-/

open Calls Java Relation

namespace DragonQ6A.Adapter

/-- If Wi-Fi is enabled, its station is bound to `wifi.interface`. -/
def Device.Bound (d : Device) : Prop := d.wifi.enabled = true → d.wifi.sta = d.iface

theorem Device.Bound.setWifiEnabled {d : Device} (h : d.Bound) (on : Bool) :
    (d.setWifiEnabled on).Bound := by
  unfold Device.setWifiEnabled
  split_ifs
  · exact h
  · exact fun _ => rfl
  · exact fun h => by cases h

theorem setWifiEnabled_false_bound (d : Device) : (d.setWifiEnabled false).Bound := by
  cases hon : d.wifi.enabled <;> simp [Device.setWifiEnabled, Device.Bound, hon]

/-- Enabling Wi-Fi on a bound device leaves it enabled, with the station on `wifi.interface`. -/
theorem Device.Bound.setWifiEnabled_true {d : Device} (h : d.Bound) :
    (d.setWifiEnabled true).wifi = ⟨true, d.iface⟩ := by
  cases hon : d.wifi.enabled with
  | false => simp [Device.setWifiEnabled, hon, Device.iface]
  | true =>
    rw [Device.setWifiEnabled, if_pos hon]
    exact congrArg₂ Wifi.mk hon (h hon)

theorem Env.bound {d d' : Device} (he : ReflTransGen Env d d') (h : d.Bound) : d'.Bound := by
  induction he with
  | refl => exact h
  | tail _ hs ih =>
    cases hs with
    | userWifi on => exact ih.setWifiEnabled on
    | _ => exact ih

/-- A `setWifiEnabled(true)` that left the station up on `wi`, with `wifi.interface` at `wi`. -/
def BindsTo (wi : String) (e : Ev) : Prop :=
  e.op = .setWifiEnabled true ∧ e.after.wifi = ⟨true, wi⟩ ∧ e.after.iface = wi

/-- The only time the program enables Wi-Fi it binds the station to `wi`, and it does so once at
least. -/
def EndsBoundTo (wi : String) (tr : List Ev) : Prop :=
  (∃ e ∈ tr, BindsTo wi e) ∧ ∀ e ∈ tr, e.op = .setWifiEnabled true → BindsTo wi e

theorem EndsBoundTo.prepend {wi : String} {tr : List Ev} (h : EndsBoundTo wi tr) {e : Ev}
    (he : e.op ≠ .setWifiEnabled true) : EndsBoundTo wi (e :: tr) := by
  obtain ⟨⟨e', he', hb⟩, hall⟩ := h
  refine ⟨⟨e', List.mem_cons_of_mem _ he', hb⟩, fun e₁ he₁ hop => ?_⟩
  rcases List.mem_cons.1 he₁ with rfl | he₁
  · exact absurd hop he
  · exact hall e₁ he₁ hop

theorem EndsBoundTo.append {wi : String} {tr₁ tr₂ : List Ev} (h : EndsBoundTo wi tr₁)
    (h₂ : ∀ e ∈ tr₂, e.op ≠ .setWifiEnabled true) : EndsBoundTo wi (tr₁ ++ tr₂) := by
  obtain ⟨⟨e', he', hb⟩, hall⟩ := h
  refine ⟨⟨e', List.mem_append_left _ he', hb⟩, fun e₁ he₁ hop => ?_⟩
  rcases List.mem_append.1 he₁ with he₁ | he₁
  · exact hall e₁ he₁ hop
  · exact absurd hop (h₂ e₁ he₁)

/-- Cycling Wi-Fi needs no assumption on where the station was bound before. -/
theorem wp_cycleWifi {d : Device} (hwm : d.wifiManager = true) :
    Wp settled cycleWifi
      (fun tr _ d' => d'.Bound ∧ d'.iface = d.iface ∧ d'.wifiManager = true ∧
        EndsBoundTo d.iface tr)
      (fun _ _ => False) d := by
  refine wp_bind.2 (wp_deviceCall.2 fun d₁ he₁ => ⟨?_, False.elim⟩)
  have hs₁ := Env.sameService he₁
  rintro wm (rfl : wm = d₁.wifiManager)
  rw [hs₁.wifiManager, hwm]
  refine wp_bind.2 (wp_deviceCall.2 fun d₂ he₂ => ⟨fun _ _ => ?_, False.elim⟩)
  have hs₂ := (hs₁.trans (Env.sameService he₂)).trans (setWifiEnabled_sameService d₂ false)
  have hb₂ := setWifiEnabled_false_bound d₂
  refine wp_bind.2 (wp_tryCatch.2 (wp_deviceCall.2 fun d₃ he₃ => ⟨fun _ _ => ?_, False.elim⟩))
  have hs₃ := hs₂.trans (Env.sameService he₃)
  have hb₃ : d₃.Bound := Env.bound he₃ hb₂
  refine wp_deviceCall.2 fun d₄ he₄ => ⟨fun _ _ => ?_, False.elim⟩
  -- the user may have toggled Wi-Fi in the gap, but the station reads the new interface
  have hb₄ : d₄.Bound := Env.bound he₄ hb₃
  have hsleep : d₃.SameService (Op.effect d₃ (.sleep WIFI_CYCLE_MS)) := ⟨rfl, rfl, rfl, rfl, rfl⟩
  have hs₄ : d.SameService d₄ := (hs₃.trans hsleep).trans (Env.sameService he₄)
  have hs₅ := hs₄.trans (setWifiEnabled_sameService d₄ true)
  refine ⟨hb₄.setWifiEnabled true, hs₅.iface, hs₅.wifiManager.trans hwm, ?_⟩
  have hb : BindsTo d.iface ⟨.setWifiEnabled true, (), d₄, d₄.setWifiEnabled true⟩ :=
    ⟨rfl, hs₄.iface ▸ hb₄.setWifiEnabled_true, hs₅.iface⟩
  have hlast : EndsBoundTo d.iface [⟨.setWifiEnabled true, (), d₄, d₄.setWifiEnabled true⟩] :=
    ⟨⟨_, List.mem_cons_self, hb⟩, fun e he _ => (List.mem_singleton.1 he) ▸ hb⟩
  exact ((hlast.prepend (by simp)).prepend (by simp)).prepend (by simp)

theorem iface_setResult (d : Device) (val : String) :
    (Op.effect d (.setProp "sys.wifidongle.result" val)).iface = d.iface := by
  simp [Device.iface, Op.effect]

theorem Device.Bound.setResult {d : Device} (h : d.Bound) (val : String) :
    (Op.effect d (.setProp "sys.wifidongle.result" val)).Bound := by
  intro hon
  rw [iface_setResult]
  exact h hon

/-- The end of a switch or revert, once `wifi.interface` is written. -/
theorem wp_cycleAndReport {d : Device} (hwm : d.wifiManager = true) (val : String) :
    Wp settled (cycleWifi.bind fun _ => call (.setProp "sys.wifidongle.result" val))
      (fun tr _ d' => d'.Bound ∧ d'.iface = d.iface ∧ d'.wifiManager = true ∧
        EndsBoundTo d.iface tr)
      (fun _ _ => False) d := by
  refine wp_bind.2 ((wp_cycleWifi hwm).mono ?_ fun _ _ => False.elim)
  rintro tr - d₁ ⟨hb, hi, hw, hends⟩
  refine wp_deviceCall.2 fun d₂ he => ⟨fun _ _ => ?_, False.elim⟩
  have hs := Env.sameService he
  refine ⟨(Env.bound he hb).setResult val, ?_, hs.wifiManager.trans hw, hends.append (by simp)⟩
  exact (iface_setResult _ _).trans (hs.iface.trans hi)

theorem wp_switchStaTo_binds {iface : String} (hne : iface ≠ "") {d : Device}
    (hwm : d.wifiManager = true) :
    Wp settled (switchStaTo (some iface))
      (fun tr _ d' => d'.Bound ∧ d'.iface = iface ∧ d'.wifiManager = true ∧ EndsBoundTo iface tr)
      (fun _ _ => False) d := by
  simp only [switchStaTo, if_neg hne]
  refine wp_bind.2 (wp_deviceCall.2 fun d₁ he₁ => ⟨fun _ _ => ?_, False.elim⟩)
  refine wp_bind.2 (wp_deviceCall.2 fun d₂ he₂ => ⟨fun _ _ => ?_, False.elim⟩)
  have hw₁ : d₁.wifiManager = true := (Env.sameService he₁).wifiManager.trans hwm
  have hw₂ : (Op.effect d₂ (.setProp "sys.wifidongle.result"
      ("switching STA to " ++ iface))).wifiManager = true :=
    (Env.sameService he₂).wifiManager.trans hw₁
  have hi₂ : d₂.iface = iface := (Env.sameService he₂).iface.trans (iface_setProp d₁ iface)
  refine (wp_cycleAndReport hw₂ _).mono ?_ fun _ _ => False.elim
  rintro tr - d' ⟨hb, hi, hw, hends⟩
  rw [iface_setResult, hi₂] at hi hends
  exact ⟨hb, hi, hw, (hends.prepend (by simp)).prepend (by simp)⟩

theorem wp_revertStaToOnboard_binds {d : Device} (hwm : d.wifiManager = true) :
    Wp settled revertStaToOnboard
      (fun tr _ d' => d'.Bound ∧ d'.iface = ONBOARD_IFACE ∧ d'.wifiManager = true ∧
        EndsBoundTo ONBOARD_IFACE tr)
      (fun _ _ => False) d := by
  refine wp_bind.2 (wp_deviceCall.2 fun d₁ he₁ => ⟨fun _ _ => ?_, False.elim⟩)
  have hw₁ : (Op.effect d₁ (.setProp "wifi.interface" ONBOARD_IFACE)).wifiManager = true :=
    (Env.sameService he₁).wifiManager.trans hwm
  refine (wp_cycleAndReport hw₁ _).mono ?_ fun _ _ => False.elim
  rintro tr - d' ⟨hb, hi, hw, hends⟩
  rw [iface_setProp] at hi hends
  exact ⟨hb, hi, hw, hends.prepend (by simp)⟩

/-! ## Switches, reverts and toggles in any order -/

/-- A switch or a revert. -/
inductive StaChange
  | switchStaTo (iface : String) (hne : iface ≠ "")
  | revertStaToOnboard

namespace StaChange

def run : StaChange → Prog Unit
  | switchStaTo iface _ => Adapter.switchStaTo (some iface)
  | revertStaToOnboard => Adapter.revertStaToOnboard

/-- The interface a change points the station at. -/
def target : StaChange → String
  | switchStaTo iface _ => iface
  | revertStaToOnboard => ONBOARD_IFACE

end StaChange

theorem wp_staChange (c : StaChange) {d : Device} (hwm : d.wifiManager = true) :
    Wp settled c.run
      (fun tr _ d' => d'.Bound ∧ d'.iface = c.target ∧ d'.wifiManager = true ∧
        EndsBoundTo c.target tr)
      (fun _ _ => False) d := by
  cases c with
  | switchStaTo iface hne => exact wp_switchStaTo_binds hne hwm
  | revertStaToOnboard => exact wp_revertStaToOnboard_binds hwm

/-- The states from `d₀` in which no change is in progress, with the changes completed so far; the
environment moves between the changes and before each of their calls. -/
inductive Idle (d₀ : Device) : List StaChange → Device → Prop
  | start : Idle d₀ [] d₀
  | env {cs : List StaChange} {d d' : Device} : Idle d₀ cs d → Env d d' → Idle d₀ cs d'
  | change {cs : List StaChange} {d d' : Device} {tr : List Ev} (c : StaChange) :
      Idle d₀ cs d → Exec settled c.run d tr (some ()) d' → Idle d₀ (cs ++ [c]) d'

/-- Whenever no change is in progress, an enabled Wi-Fi has its station on `wifi.interface`, which
is the target of the last change; and every change brings the station up on its target. -/
theorem Idle.station_follows {d₀ d : Device} {cs : List StaChange} (h : Idle d₀ cs d)
    (hwm : d₀.wifiManager = true) (hb : d₀.Bound) :
    d.Bound ∧ d.iface = (cs.getLast?.map StaChange.target).getD d₀.iface ∧
      ∀ (c : StaChange) (tr : List Ev) (res : Option Unit) (d' : Device),
        Exec settled c.run d tr res d' → res = some () ∧ EndsBoundTo c.target tr := by
  have key : d.Bound ∧ d.iface = (cs.getLast?.map StaChange.target).getD d₀.iface ∧
      d.wifiManager = true := by
    induction h with
    | start => exact ⟨hb, rfl, hwm⟩
    | env _ he ih =>
      have hs := Env.sameService (.single he)
      exact ⟨Env.bound (.single he) ih.1, hs.iface.trans ih.2.1, hs.wifiManager.trans ih.2.2⟩
    | change c _ hx ih =>
      obtain ⟨hb', hi', hw', -⟩ := (wp_staChange c ih.2.2).returns hx
      exact ⟨hb', by simp [hi'], hw'⟩
  refine ⟨key.1, key.2.1, fun c tr res d' hx => ?_⟩
  cases res with
  | none => exact ((wp_staChange c key.2.2).throws hx).elim
  | some => exact ⟨rfl, ((wp_staChange c key.2.2).returns hx).2.2.2⟩

/-- Activating `wlan1` on a fresh device, after which the user switches Wi-Fi off and on again. -/
theorem station_follows_wlan1 :
    ((run smooth (switchStaTo (some "wlan1")) Device.boot).2.2.setWifiEnabled false
      |>.setWifiEnabled true).Bound := by
  have hx := exec_run (resolves_smooth (fun _ => False) Env)
    (StaChange.switchStaTo "wlan1" (by decide)).run Device.boot
  have hret : (run smooth (StaChange.switchStaTo "wlan1" (by decide)).run Device.boot).2.1 =
      some () := by decide
  rw [hret] at hx
  exact (Idle.station_follows (((Idle.start.change _ hx).env (Env.userWifi _ false)).env
    (Env.userWifi _ true)) rfl fun _ => rfl).1

end DragonQ6A.Adapter
