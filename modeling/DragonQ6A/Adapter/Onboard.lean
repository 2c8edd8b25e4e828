import DragonQ6A.Adapter.Revert

/-!
# Restoring the onboard radio

An `Adapters` value names the onboard radio and the dongles; which `wlan*` name each of them gets is
open.  `findDongleIfaces` tells them apart by their drivers, but `maybeRevertStaleInterface` by the
name `wlan0`, so a poll that finds the active dongle gone restores the onboard radio exactly when
that is the radio's name.
-/

open Calls Java Relation

namespace DragonQ6A.Adapter

/-- The onboard radio and the dongles, under distinct `wlan*` names. -/
structure Adapters where
  onboard : NetIface
  dongles : List NetIface
  names_nodup : ((onboard :: dongles).map NetIface.name).Nodup
  wlan : ∀ n ∈ onboard :: dongles, startsWith n.name "wlan" = true
  onboard_driver : isDongleDriver onboard.driver = false
  dongle_driver : ∀ n ∈ dongles, isDongleDriver n.driver = true

namespace Adapters

variable (a : Adapters)

/-- The onboard radio is there, and every `wlan*` interface is one of the adapters. -/
def Plugged (d : Device) : Prop :=
  a.onboard ∈ d.net ∧ ∀ n ∈ d.net, startsWith n.name "wlan" = true → n ∈ a.onboard :: a.dongles

/-- Dongles are plugged in and unplugged in any order. -/
abbrev surroundings : System Op.Ret Device :=
  system (fun o => o.isFramework = true) fun d d' => Env d d' ∧ (a.Plugged d → a.Plugged d')

/-- The runs of the worker thread in which only dongles that are plugged in are activated and no
poll throws. -/
inductive Run (d₀ : Device) : List Poll → Device → Prop
  | start : a.Plugged d₀ → d₀.mRevertPending = false → Run d₀ [] d₀
  | env {h : List Poll} {d d' : Device} : Run d₀ h d → Env d d' → a.Plugged d' → Run d₀ h d'
  | switch {h : List Poll} {d d' : Device} {tr : List Ev} {n : NetIface} :
      Run d₀ h d → n ∈ a.dongles → n ∈ d.net →
      Exec a.surroundings (switchStaTo (some n.name)) d tr (some ()) d' → Run d₀ h d'
  | poll {h : List Poll} {d d' : Device} {tr : List Ev} :
      Run d₀ h d → Exec a.surroundings pollBody d tr (some ()) d' →
      Run d₀ (h ++ [⟨d, tr, some (), d'⟩]) d'

variable {a}

theorem exec_monitor {α : Type} {p : Prog α} {d d' : Device} {tr : List Ev} {res : Option α}
    (h : Exec a.surroundings p d tr res d') : Exec monitor p d tr res d' := by
  refine Exec.mono ?_ ?_ ?_ h
  · exact fun _ _ _ _ h => h
  · exact fun _ _ h => h
  · exact fun _ _ h => h.1

theorem Run.staleHandled {d₀ d : Device} {h : List Poll} (hr : a.Run d₀ h d) :
    ∀ p ∈ h, p.outcome = some () ∧ StaleHandled p.start p.trace p.outcome p.finish := by
  induction hr with
  | start => simp
  | env _ _ _ ih => exact ih
  | switch _ _ _ _ ih => exact ih
  | poll _ hx ih =>
    intro p hp
    rcases List.mem_append.1 hp with hp | hp
    · exact ih p hp
    · obtain rfl := List.mem_singleton.1 hp
      exact ⟨rfl, staleHandled_of_exec (exec_monitor hx)⟩

/-- A poll that finds the active dongle gone restores the onboard radio if and only if the radio is
called `wlan0`. -/
theorem Run.restores_onboard_iff {d₀ d : Device} {h : List Poll} (hr : a.Run d₀ h d) {p : Poll}
    (hp : p ∈ h) {n : NetIface} (hn : n ∈ a.dongles) (hactive : p.start.iface = n.name)
    (hgone : ∀ e ∈ p.trace, n.name ∉ e.before.ifaces) (hguard : p.start.mRevertPending = false) :
    p.finish.iface = a.onboard.name ↔ a.onboard.name = "wlan0" := by
  obtain ⟨hout, hstale⟩ := hr.staleHandled p hp
  have hne : n.name ≠ a.onboard.name := by
    have := (List.nodup_cons.1 a.names_nodup).1
    exact fun h => this (h ▸ List.mem_map_of_mem hn)
  rcases hstale with ⟨-, hthrow, -⟩ | ⟨v, -, -, hvan, hret, -, hcheck⟩
  · rw [hout] at hthrow
    cases hthrow
  have hfin := hret hout
  rw [hguard, hactive, Bool.not_false, Bool.and_true] at hfin
  rw [hactive] at hvan hcheck
  constructor
  · intro h
    rw [hfin] at h
    split_ifs at h
    · exact h.symm
    · exact absurd h hne
  · -- the dongle is not called `wlan0`, so it was looked up, and found gone
    intro hwlan0
    have haway : pointsAway n.name = true := by
      have hw := a.wlan n (List.mem_cons_of_mem _ hn)
      rw [hwlan0] at hne
      simp [pointsAway, hw, ONBOARD_IFACE, hne]
    obtain ⟨e, he, hop⟩ := hcheck haway
    rw [hfin, if_pos (hvan.2 ⟨haway, e, he, hop, hgone e he⟩), hwlan0]
    rfl

/-! ## An assignment in which the dongle is `wlan0` -/

/-- The onboard radio came up after the dongle. -/
def swapped : Adapters where
  onboard := ⟨"wlan1", some "usb"⟩
  dongles := [⟨"wlan0", some "rtl8xxxu"⟩]
  names_nodup := by decide
  wlan := by decide
  onboard_driver := by decide
  dongle_driver := by decide

/-- The usual assignment. -/
def usual : Adapters where
  onboard := ⟨"wlan0", some "usb"⟩
  dongles := [⟨"wlan1", some "rtl8xxxu"⟩]
  names_nodup := by decide
  wlan := by decide
  onboard_driver := by decide
  dongle_driver := by decide

/-- All adapters plugged in, the station on the onboard radio. -/
def booted (a : Adapters) : Device :=
  { Device.boot with
    props := Function.update (fun _ => "") "wifi.interface" a.onboard.name
    net := a.onboard :: a.dongles
    wifi := ⟨true, a.onboard.name⟩ }

/-- The dongle called `name` is activated and then unplugged. -/
def activatedAndLost (a : Adapters) (name : String) : Device :=
  { switched name (booted a) with net := [a.onboard] }

theorem run_activatedAndLost (a : Adapters) {n : NetIface} (hn : n ∈ a.dongles)
    (hswitch : (run smooth (switchStaTo (some n.name)) (booted a)).2.1 = some ())
    (hpoll : (smoothPoll (activatedAndLost a n.name)).outcome = some ()) :
    a.Run (booted a) [smoothPoll (activatedAndLost a n.name)]
      (smoothPoll (activatedAndLost a n.name)).finish := by
  have hbooted : a.Plugged (booted a) := ⟨List.mem_cons_self, fun n hn _ => hn⟩
  have hx := exec_run (M := a.surroundings) (resolves_smooth _ _) (switchStaTo (some n.name))
    (booted a)
  rw [hswitch] at hx
  have hlost := ((Run.start hbooted rfl).switch hn (List.mem_cons_of_mem _ hn) hx).env
    (Env.net _ [a.onboard]) ⟨List.mem_cons_self,
      fun m hm _ => List.mem_cons.2 (Or.inl (List.mem_singleton.1 hm))⟩
  have hp := exec_run (M := a.surroundings) (resolves_smooth _ _) pollBody
    (activatedAndLost a n.name)
  have hp' : Exec a.surroundings pollBody (activatedAndLost a n.name)
      (smoothPoll (activatedAndLost a n.name)).trace (some ())
      (smoothPoll (activatedAndLost a n.name)).finish := hpoll ▸ hp
  have := hlost.poll hp'
  rwa [← hpoll] at this

theorem run_swapped : swapped.Run (booted swapped) [smoothPoll (activatedAndLost swapped "wlan0")]
    (smoothPoll (activatedAndLost swapped "wlan0")).finish :=
  run_activatedAndLost swapped (n := ⟨"wlan0", some "rtl8xxxu"⟩) (by decide) (by decide) (by decide)

/-- With the dongle on `wlan0` its removal goes unnoticed. -/
theorem not_forall_restores_onboard :
    ¬ ∀ (a : Adapters) (d₀ d : Device) (h : List Poll), a.Run d₀ h d →
      ((verdicts h).IsChain fun v v' => ¬ (v = true ∧ v' = true)) → ∀ p ∈ h, ∀ n ∈ a.dongles,
        p.start.iface = n.name → (∀ e ∈ p.trace, n.name ∉ e.before.ifaces) →
        p.start.mRevertPending = false → p.finish.iface = a.onboard.name := by
  intro hall
  have := hall swapped _ _ _ run_swapped (by decide) _ List.mem_cons_self ⟨"wlan0", some "rtl8xxxu"⟩
    (by decide) (by decide) (by decide) (by decide)
  exact absurd this (by decide)

/-- With the usual names the removal of the dongle restores the onboard radio. -/
theorem restores_onboard_iff_usual :
    (smoothPoll (activatedAndLost usual "wlan1")).finish.iface = "wlan0" :=
  (Run.restores_onboard_iff (run_activatedAndLost usual (n := ⟨"wlan1", some "rtl8xxxu"⟩)
    (by decide) (by decide) (by decide)) List.mem_cons_self (n := ⟨"wlan1", some "rtl8xxxu"⟩)
    (by decide) (by decide) (by decide) (by decide)).2 rfl

end Adapters

end DragonQ6A.Adapter
