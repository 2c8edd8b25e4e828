import Mathlib.Data.List.Chain
import DragonQ6A.Adapter.Specs

/-!
# Reverting a stale station

Runs of the worker thread in which polls, switches and moves of the environment follow each other
in any order and any framework call may throw.  A poll that gets as far as testing `wifi.interface`
reaches a `verdict`: whether the adapter it points at is gone.  `mRevertPending` is always the last
verdict of the run, so a second `true` in a row finds the guard set and reverts nothing.
-/

open Calls Java Relation

namespace DragonQ6A.Adapter

/-- Any framework call may throw; the environment is unrestricted. -/
abbrev monitor : System Op.Ret Device := system (fun o => o.isFramework = true) Env

/-! ## The verdict of a poll -/

/-- The value of `wifi.interface` a call read. -/
def readIface (e : Ev) : Option String :=
  match e with
  | ⟨.getProp key _, wi, _, _⟩ => if key = "wifi.interface" then some wi else none
  | _ => none

/-- The answer of an `exists()` on an interface. -/
def existsAnswer (e : Ev) : Option Bool :=
  match e with
  | ⟨.ifaceExists _, there, _, _⟩ => some there
  | _ => none

/-- What the lookups of a poll said, if it got that far: whether `wifi.interface` points away from
the onboard interface, at one that is gone. -/
def verdict (tr : List Ev) : Option Bool :=
  (tr.findSome? readIface).bind fun wi =>
    if pointsAway wi then (tr.findSome? existsAnswer).map (!·) else some false

/-- `wi` names a `wlan` interface other than the onboard one, and a check of the poll found no
entry for it in `/sys/class/net`. -/
def Vanished (tr : List Ev) (wi : String) : Prop :=
  pointsAway wi = true ∧ ∃ e ∈ tr, e.op = .ifaceExists wi ∧ wi ∉ e.before.ifaces

/-- What a poll from `d` to `d'` did about a stale interface. -/
def StaleHandled (d : Device) (tr : List Ev) (res : Option Unit) (d' : Device) : Prop :=
  (verdict tr = none ∧ res = none ∧ d'.mRevertPending = d.mRevertPending) ∨
  ∃ v, verdict tr = some v ∧ d'.mRevertPending = v ∧ (v = true ↔ Vanished tr d.iface) ∧
    (res = some () → d'.iface = if v && !d.mRevertPending then ONBOARD_IFACE else d.iface) ∧
    (res = none → v = true ∧ d.mRevertPending = false) ∧
    (pointsAway d.iface = true → ∃ e ∈ tr, e.op = .ifaceExists d.iface)

theorem pointsAway_onboard : pointsAway ONBOARD_IFACE = false := by decide

theorem pointsAway_empty : pointsAway "" = false := by decide

/-! ## Specifications -/

/-- A write of `wifi.interface` followed by calls that leave it alone. -/
theorem wp_setIface {rest : Prog Unit} (hrest : rest.AllCalls Op.keepsSta) (iface : String)
    (d : Device) :
    Wp monitor ((call (.setProp "wifi.interface" iface)).bind fun _ => rest)
      (fun _ _ d' => d'.iface = iface ∧ d'.mRevertPending = d.mRevertPending)
      (fun _ d' => d'.mRevertPending = d.mRevertPending) d := by
  refine wp_bind.2 (wp_deviceCall.2 fun d₁ he => ?_)
  have hp := (Env.sameService he).mRevertPending
  refine ⟨fun _ _ => ?_, fun _ => hp⟩
  refine (wp_keepsSta hrest _).mono (fun _ _ d' h => ?_) fun _ d' h => ?_
  · exact ⟨h.1.trans (iface_setProp _ _), h.2.trans hp⟩
  · exact h.2.trans hp

theorem wp_revertStaToOnboard (d : Device) :
    Wp monitor revertStaToOnboard
      (fun _ _ d' => d'.iface = ONBOARD_IFACE ∧ d'.mRevertPending = d.mRevertPending)
      (fun _ d' => d'.mRevertPending = d.mRevertPending) d := by
  apply wp_setIface
  refine (cycleWifi_safe.calls.mono fun _ h => h.keepsSta).bind fun _ => ?_
  exact (safe_call (by simp [Op.keepsSta])).calls

/-- The calls after the test of `wifi.interface`: no further check of an interface. -/
def Op.isCheck : Op → Bool
  | getProp _ _ | ifaceExists _ => true
  | _ => false

theorem Op.settles.isCheck {o : Op} (h : o.settles) : o.isCheck = false := by
  cases o <;> trivial

theorem wp_guardedRevert (stale : Bool) (d : Device) :
    Wp monitor (guardedRevert stale)
      (fun _ _ d' => d'.mRevertPending = stale ∧
        d'.iface = if stale && !d.mRevertPending then ONBOARD_IFACE else d.iface)
      (fun _ d' => d'.mRevertPending = stale ∧ stale = true ∧ d.mRevertPending = false) d := by
  refine wp_bind.2 (wp_deviceCall.2 fun d₁ he => ⟨?_, fun hf => absurd hf (by decide)⟩)
  rintro pending (rfl : pending = d₁.mRevertPending)
  have hs := Env.sameService he
  have hi : d₁.iface = d.iface := hs.iface
  rw [← hs.mRevertPending, ← hi]
  cases stale with
  | false =>
    refine wp_deviceCall.2 fun d₂ he₂ => ⟨fun _ _ => ?_, fun hf => absurd hf (by decide)⟩
    exact ⟨rfl, (Env.sameService he₂).iface⟩
  | true =>
    cases hp : d₁.mRevertPending with
    | true => exact (wp_pure ()).2 ⟨hp, rfl⟩
    | false =>
      refine wp_bind.2 (wp_deviceCall.2 fun d₂ he₂ =>
        ⟨fun _ _ => ?_, fun hf => absurd hf (by decide)⟩)
      exact (wp_revertStaToOnboard _).mono (fun _ _ d' h => ⟨h.2, h.1⟩) fun _ d' h => ⟨h, rfl, rfl⟩

/-- The verdict of a poll that looked `wi` up. -/
theorem verdict_checked {wi dflt : String} {there : Bool} {d₁ d₂ d₃ d₄ : Device} {tr : List Ev}
    (haway : pointsAway wi = true) :
    verdict (⟨.getProp "wifi.interface" dflt, wi, d₁, d₃⟩ ::
      ⟨.ifaceExists wi, there, d₂, d₄⟩ :: tr) = some (!there) := by
  simp only [verdict, List.findSome?_cons, readIface, existsAnswer, if_true, Option.bind_some,
    haway, Option.map_some]

/-- The verdict of a poll that had no reason to look `wi` up. -/
theorem verdict_unchecked {wi dflt : String} {d₁ d₃ : Device} {tr : List Ev}
    (haway : pointsAway wi = false) :
    verdict (⟨.getProp "wifi.interface" dflt, wi, d₁, d₃⟩ :: tr) = some false := by
  simp [verdict, readIface, haway]

/-- The lookup decides whether `wi` has vanished. -/
theorem vanished_checked {wi dflt : String} {there : Bool} {d₁ d₂ d₃ d₄ : Device} {tr : List Ev}
    (haway : pointsAway wi = true) (htr : ∀ e ∈ tr, e.op.isCheck = false) :
    (!decide (wi ∈ d₂.ifaces)) = true ↔
      Vanished (⟨.getProp "wifi.interface" dflt, wi, d₁, d₃⟩ ::
        ⟨.ifaceExists wi, there, d₂, d₄⟩ :: tr) wi := by
  rw [Bool.not_eq_true', decide_eq_false_iff_not]
  refine ⟨fun h => ⟨haway, _, List.mem_cons_of_mem _ List.mem_cons_self, rfl, h⟩, ?_⟩
  rintro ⟨-, e, he, hop, hgone⟩
  rcases List.mem_cons.1 he with rfl | he
  · cases hop
  rcases List.mem_cons.1 he with rfl | he
  · exact hgone
  · have := htr e he
    rw [hop] at this
    cases this

/-- The rest of the method when it looks `wi` up. -/
theorem wp_lookup {wi : String} (haway : pointsAway wi = true) {d d₁ b a : Device}
    (hs : d.SameService d₁) (hwd : d.iface = wi) :
    Wp monitor ((call (.ifaceExists wi)).bind fun there => guardedRevert (!there))
      (fun tr _ d' => StaleHandled d
        (⟨.getProp "wifi.interface" ONBOARD_IFACE, wi, b, a⟩ :: tr) (some ()) d')
      (fun tr d' => StaleHandled d
        (⟨.getProp "wifi.interface" ONBOARD_IFACE, wi, b, a⟩ :: tr) none d') d₁ := by
  refine wp_bind.2 (wp_deviceCall.2 fun d₂ he₂ => ?_)
  have hs₂ := hs.trans (Env.sameService he₂)
  have hp : d₂.mRevertPending = d.mRevertPending := hs₂.mRevertPending
  refine ⟨?_, fun _ => Or.inl ⟨?_, rfl, hp⟩⟩
  · rintro there (rfl : there = decide (wi ∈ d₂.ifaces))
    have hcalls := (guardedRevert_safe (!decide (wi ∈ d₂.ifaces))).calls.mono
      fun _ h => h.isCheck
    refine ((wp_guardedRevert _ d₂).with_trace hcalls).mono ?_ ?_
    · rintro tr - d' ⟨htr, hpend, hiface⟩
      refine Or.inr ⟨_, verdict_checked haway, hpend, ?_, fun _ => ?_, fun h => (by cases h),
        fun _ => ⟨_, List.mem_cons_of_mem _ List.mem_cons_self, congrArg _ hwd.symm⟩⟩
      · rw [hwd]
        exact vanished_checked haway fun e he => (htr e he).1
      · rw [hiface, hp, hs₂.iface]
    · rintro tr d' ⟨htr, hpend, hstale, hguard⟩
      refine Or.inr ⟨_, verdict_checked haway, hpend, ?_, fun h => (by cases h),
        fun _ => ⟨hstale, hp ▸ hguard⟩,
        fun _ => ⟨_, List.mem_cons_of_mem _ List.mem_cons_self, congrArg _ hwd.symm⟩⟩
      rw [hwd]
      exact vanished_checked haway fun e he => (htr e he).1
  · simp [verdict, readIface, existsAnswer, haway]

/-- The rest of the method when there is nothing to look up: not stale. -/
theorem wp_noLookup {wi : String} (haway : pointsAway wi = false) {d d₁ b a : Device}
    (hs : d.SameService d₁) (hhome : pointsAway d.iface = false) :
    Wp monitor (guardedRevert false)
      (fun tr _ d' => StaleHandled d
        (⟨.getProp "wifi.interface" ONBOARD_IFACE, wi, b, a⟩ :: tr) (some ()) d')
      (fun tr d' => StaleHandled d
        (⟨.getProp "wifi.interface" ONBOARD_IFACE, wi, b, a⟩ :: tr) none d') d₁ := by
  have hnot : ∀ tr, ¬ Vanished tr d.iface := by
    rintro tr ⟨h, -⟩
    rw [hhome] at h
    cases h
  refine (wp_guardedRevert false d₁).mono ?_ ?_
  · rintro tr - d' ⟨hpend, hiface⟩
    refine Or.inr ⟨false, verdict_unchecked haway, hpend, by simp [hnot], fun _ => ?_,
      fun h => (by cases h), fun h => absurd h (by simp [hhome])⟩
    simpa [hs.iface] using hiface
  · rintro tr d' ⟨-, hstale, -⟩
    cases hstale

theorem wp_maybeRevertStaleInterface (d : Device) :
    Wp monitor maybeRevertStaleInterface (fun tr _ d' => StaleHandled d tr (some ()) d')
      (fun tr d' => StaleHandled d tr none d') d := by
  rw [maybeRevertStaleInterface_eq]
  refine wp_bind.2 (wp_deviceCall.2 fun d₁ he => ?_)
  have hs := Env.sameService he
  have hi : d₁.iface = d.iface := hs.iface
  refine ⟨?_, fun _ => Or.inl ⟨rfl, rfl, hs.mRevertPending⟩⟩
  rintro wi (hwi : wi = if d₁.iface = "" then ONBOARD_IFACE else d₁.iface)
  by_cases haway : pointsAway wi = true
  · have hwd : d.iface = wi := by
      split_ifs at hwi
      · rw [hwi, pointsAway_onboard] at haway
        cases haway
      · rw [hwi, hi]
    rw [if_pos haway]
    exact wp_lookup haway hs hwd
  · have haway' : pointsAway wi = false := Bool.eq_false_of_not_eq_true haway
    have hhome : pointsAway d.iface = false := by
      split_ifs at hwi with hempty
      · rw [← hi, hempty, pointsAway_empty]
      · rw [← hi, ← hwi, haway']
    rw [if_neg haway]
    exact wp_noLookup haway' hs hhome

/-! ## A whole poll -/

theorem readIface_eq_none {e : Ev} (h : e.op.isCheck = false) : readIface e = none := by
  obtain ⟨o, r, b, a⟩ := e
  cases o <;> first | rfl | cases h

theorem existsAnswer_eq_none {e : Ev} (h : e.op.isCheck = false) : existsAnswer e = none := by
  obtain ⟨o, r, b, a⟩ := e
  cases o <;> first | rfl | cases h

theorem verdict_append {tr₁ : List Ev} (h : ∀ e ∈ tr₁, e.op.isCheck = false) (tr₂ : List Ev) :
    verdict (tr₁ ++ tr₂) = verdict tr₂ := by
  have h₁ : tr₁.findSome? readIface = none :=
    List.findSome?_eq_none_iff.2 fun e he => readIface_eq_none (h e he)
  have h₂ : tr₁.findSome? existsAnswer = none :=
    List.findSome?_eq_none_iff.2 fun e he => existsAnswer_eq_none (h e he)
  simp only [verdict, List.findSome?_append, h₁, h₂, Option.none_or]

theorem vanished_append {tr₁ : List Ev} (h : ∀ e ∈ tr₁, e.op.isCheck = false) (tr₂ : List Ev)
    (wi : String) : Vanished (tr₁ ++ tr₂) wi ↔ Vanished tr₂ wi := by
  constructor
  · rintro ⟨ha, e, he, hop, hgone⟩
    rcases List.mem_append.1 he with he | he
    · have := h e he
      rw [hop] at this
      cases this
    · exact ⟨ha, e, he, hop, hgone⟩
  · rintro ⟨ha, e, he, hop, hgone⟩
    exact ⟨ha, e, List.mem_append_right _ he, hop, hgone⟩

theorem StaleHandled.prepend {d d₁ d' : Device} {tr₁ tr₂ : List Ev} {res : Option Unit}
    (h : StaleHandled d₁ tr₂ res d') (htr : ∀ e ∈ tr₁, e.op.isCheck = false)
    (hi : d₁.iface = d.iface) (hp : d₁.mRevertPending = d.mRevertPending) :
    StaleHandled d (tr₁ ++ tr₂) res d' := by
  unfold StaleHandled at h ⊢
  rw [verdict_append htr, ← hi, vanished_append htr, ← hp]
  rcases h with h | ⟨v, h₁, h₂, h₃, h₄, h₅, h₆⟩
  · exact Or.inl h
  · refine Or.inr ⟨v, h₁, h₂, h₃, h₄, h₅, fun ha => ?_⟩
    obtain ⟨e, he, hop⟩ := h₆ ha
    exact ⟨e, List.mem_append_right _ he, hop⟩

theorem Op.scans.isCheck {o : Op} (h : o.scans) : o.isCheck = false := by
  cases o <;> trivial

theorem Op.notifies.isCheck {o : Op} (h : o.notifies) : o.isCheck = false := by
  cases o <;> trivial

theorem wp_pollBody (d : Device) :
    Wp monitor pollBody (fun tr _ d' => StaleHandled d tr (some ()) d')
      (fun tr d' => StaleHandled d tr none d') d := by
  have hfind : findDongleIfaces.AllCalls fun o => o.keepsSta ∧ o.isCheck = false :=
    findDongleIfaces_safe.calls.mono fun _ h => ⟨h.keepsSta, h.isCheck⟩
  have hupdate : ∀ D, (updateNotifications D).AllCalls fun o => o.keepsSta ∧ o.isCheck = false :=
    fun D => (updateNotifications_safe D).calls.mono fun _ h => ⟨h.keepsSta, h.isCheck⟩
  have hkeep : ∀ {α : Type} {p : Prog α}, p.AllCalls (fun o => o.keepsSta ∧ o.isCheck = false) →
      ∀ d₁, Wp monitor p
        (fun tr _ d' => (∀ e ∈ tr, e.op.isCheck = false) ∧ d'.iface = d₁.iface ∧
          d'.mRevertPending = d₁.mRevertPending)
        (fun tr d' => (∀ e ∈ tr, e.op.isCheck = false) ∧ d'.iface = d₁.iface ∧
          d'.mRevertPending = d₁.mRevertPending) d₁ := fun hp d₁ =>
    ((wp_keepsSta (hp.mono fun _ h => h.1) d₁).with_trace hp).mono
      (fun _ _ _ h => ⟨fun e he => (h.1 e he).1.2, h.2⟩)
      fun _ _ h => ⟨fun e he => (h.1 e he).1.2, h.2⟩
  have hthrow : ∀ {tr : List Ev} {d' : Device}, (∀ e ∈ tr, e.op.isCheck = false) →
      d'.iface = d.iface → d'.mRevertPending = d.mRevertPending → StaleHandled d tr none d' := by
    intro tr d' htr hi hp
    have := verdict_append htr []
    rw [List.append_nil] at this
    exact Or.inl ⟨this, rfl, hp⟩
  refine wp_bind.2 ((hkeep hfind d).mono ?_ fun tr d' h => hthrow h.1 h.2.1 h.2.2)
  rintro tr₁ dongles d₁ ⟨htr₁, hi₁, hp₁⟩
  refine wp_bind.2 ((hkeep (hupdate dongles) d₁).mono ?_ ?_)
  · rintro tr₂ - d₂ ⟨htr₂, hi₂, hp₂⟩
    refine (wp_maybeRevertStaleInterface d₂).mono (fun tr₃ _ d₃ h => ?_) fun tr₃ d₃ h => ?_
    · exact (h.prepend htr₂ hi₂ hp₂).prepend htr₁ hi₁ hp₁
    · exact (h.prepend htr₂ hi₂ hp₂).prepend htr₁ hi₁ hp₁
  · rintro tr₂ d₂ ⟨htr₂, hi₂, hp₂⟩
    refine hthrow ?_ (hi₂.trans hi₁) (hp₂.trans hp₁)
    intro e he
    exact (List.mem_append.1 he).elim (htr₁ e) (htr₂ e)

theorem staleHandled_of_exec {d d' : Device} {tr : List Ev} {res : Option Unit}
    (h : Exec monitor pollBody d tr res d') : StaleHandled d tr res d' := by
  cases res with
  | none => exact (wp_pollBody d).throws h
  | some => exact (wp_pollBody d).returns h

/-! ## Runs of the worker thread -/

/-- A poll of a run. -/
structure Poll where
  start : Device
  trace : List Ev
  outcome : Option Unit
  finish : Device

/-- The runs of the worker thread from `d₀`, with the polls they made.  The `finally` block of a
poll only posts a message, which is a move of the environment. -/
inductive WorkerRun (d₀ : Device) : List Poll → Device → Prop
  | start : WorkerRun d₀ [] d₀
  | env {h : List Poll} {d d' : Device} : WorkerRun d₀ h d → Env d d' → WorkerRun d₀ h d'
  | switch {h : List Poll} {d d' : Device} {tr : List Ev} (iface : Option String) :
      WorkerRun d₀ h d → Exec monitor (switchStaTo iface) d tr (some ()) d' → WorkerRun d₀ h d'
  | poll {h : List Poll} {d d' : Device} {tr : List Ev} {res : Option Unit} :
      WorkerRun d₀ h d → Exec monitor pollBody d tr res d' →
      WorkerRun d₀ (h ++ [⟨d, tr, res, d'⟩]) d'

/-- The message `mPoll` extends a run by one poll. -/
theorem WorkerRun.mPoll {d₀ d d' : Device} {h : List Poll} {tr : List Ev} {res : Option Unit}
    (hr : WorkerRun d₀ h d) (hx : Exec monitor mPoll d tr res d') :
    ∃ p, p.start = d ∧ WorkerRun d₀ (h ++ [p]) d' := by
  obtain ⟨-, tr₁, res₁, d₁, d₂, hbody, he, rfl⟩ := exec_mPoll (fun _ h => h) hx
  refine ⟨⟨d, tr₁, res₁, d₁⟩, rfl, WorkerRun.env ?_ (Env.queue d₂ _)⟩
  exact keeps_steps (fun _ _ hs h => h.env hs) he (hr.poll hbody)

/-- The poll returned from its `try` block with `wifi.interface` on an adapter it found gone. -/
def Poll.LeftOnVanished (p : Poll) : Prop :=
  p.outcome = some () ∧ Vanished p.trace p.finish.iface

/-- The verdicts the polls of a run reached, in order. -/
def verdicts (h : List Poll) : List Bool := h.filterMap fun p => verdict p.trace

theorem verdicts_concat (h : List Poll) (p : Poll) :
    verdicts (h ++ [p]) = verdicts h ++ (verdict p.trace).toList := by
  unfold verdicts
  rw [List.filterMap_append]
  cases hv : verdict p.trace <;> simp [hv]

theorem wp_switchStaTo {iface : String} (hne : iface ≠ "") (d : Device) :
    Wp monitor (switchStaTo (some iface))
      (fun _ _ d' => d'.iface = iface ∧ d'.mRevertPending = d.mRevertPending)
      (fun _ d' => d'.mRevertPending = d.mRevertPending) d := by
  rw [switchStaTo_eq hne]
  exact wp_setIface ((rebind_safe iface).calls.mono fun _ h => h.keepsSta) iface d

theorem switchStaTo_keepsGuard {iface : Option String} {d d' : Device} {tr : List Ev}
    (h : Exec monitor (switchStaTo iface) d tr (some ()) d') :
    d'.mRevertPending = d.mRevertPending := by
  cases iface with
  | none =>
    obtain ⟨-, -, rfl⟩ := h
    rfl
  | some iface =>
    by_cases hne : iface = ""
    · subst hne
      obtain ⟨-, -, rfl⟩ := h
      rfl
    · exact ((wp_switchStaTo hne d).returns h).2

/-- The guard is the last verdict of the run. -/
theorem WorkerRun.mRevertPending_eq {d₀ d : Device} {h : List Poll} (hr : WorkerRun d₀ h d)
    (h₀ : d₀.mRevertPending = false) : d.mRevertPending = (verdicts h).getLast?.getD false := by
  induction hr with
  | start => exact h₀
  | env _ he ih => exact (Env.sameService (.single he)).mRevertPending.trans ih
  | switch iface _ hx ih => exact (switchStaTo_keepsGuard hx).trans ih
  | poll _ hx ih =>
    rw [verdicts_concat]
    rcases staleHandled_of_exec hx with ⟨hv, -, hp⟩ | ⟨v, hv, hp, -⟩
    · rw [hv, hp, ih]
      simp
    · rw [hv, hp]
      simp

/-- A poll that returns leaves the station on a vanished adapter exactly when its lookups find one
while the guard is set. -/
theorem StaleHandled.leaves_iff {d d' : Device} {tr : List Ev} {res : Option Unit}
    (h : StaleHandled d tr res d') :
    Poll.LeftOnVanished ⟨d, tr, res, d'⟩ ↔ verdict tr = some true ∧ d.mRevertPending = true := by
  rcases h with ⟨hv, rfl, -⟩ | ⟨v, hv, -, hvan, hret, hthrow, -⟩
  · rw [hv]
    exact iff_of_false (fun h => by cases h.1) fun h => by cases h.1
  rw [hv, Option.some.injEq]
  constructor
  · rintro ⟨hres, hgone⟩
    have hi := hret hres
    dsimp only at hgone
    by_cases hrevert : (v && !d.mRevertPending) = true
    · rw [hi, if_pos hrevert] at hgone
      have := hgone.1
      rw [pointsAway_onboard] at this
      cases this
    · rw [hi, if_neg hrevert] at hgone
      have hv := hvan.2 hgone
      exact ⟨hv, by simpa [hv] using hrevert⟩
  · rintro ⟨rfl, hguard⟩
    cases res with
    | none => exact absurd (hthrow rfl).2 (by simp [hguard])
    | some =>
      have hi := hret rfl
      rw [hguard] at hi
      refine ⟨rfl, ?_⟩
      show Vanished tr d'.iface
      rw [hi]
      exact hvan.1 rfl

/-- No poll that returns leaves `wifi.interface` on an adapter it found gone if and only if no two
successive verdicts of the run find one gone. -/
theorem WorkerRun.leftOnVanished_iff {d₀ d : Device} {h : List Poll} (hr : WorkerRun d₀ h d)
    (h₀ : d₀.mRevertPending = false) :
    (∀ p ∈ h, ¬ p.LeftOnVanished) ↔ (verdicts h).IsChain fun v v' => ¬ (v = true ∧ v' = true) := by
  induction hr with
  | start => simp [verdicts]
  | env _ _ ih => exact ih
  | switch _ _ _ ih => exact ih
  | @poll h d d' tr res hr hx ih =>
    have hlast := hr.mRevertPending_eq h₀
    rw [verdicts_concat, List.isChain_append, ← ih]
    simp only [List.mem_append, List.mem_singleton, or_imp, forall_and, forall_eq]
    refine and_congr_right fun _ => ?_
    rw [(staleHandled_of_exec hx).leaves_iff, hlast]
    cases hv : verdict tr with
    | none => simp
    | some v => cases hl : (verdicts h).getLast? <;> simp [and_comm]

/-! ## The adapter that is activated once more on its way out -/

/-- The onboard radio is the only interface left; `wlan1` is active and has been unplugged. -/
def unplugged : Device :=
  { Device.boot with props := Function.update (fun _ => "") "wifi.interface" "wlan1" }

/-- The poll of a device on which nothing goes wrong. -/
def smoothPoll (d : Device) : Poll :=
  ⟨d, (run smooth pollBody d).1, (run smooth pollBody d).2.1, (run smooth pollBody d).2.2⟩

theorem exec_smoothPoll (d : Device) :
    Exec monitor pollBody d (smoothPoll d).trace (smoothPoll d).outcome (smoothPoll d).finish :=
  exec_run (resolves_smooth _ _) _ _

/-- After a run of `switchStaTo`. -/
def switched (iface : String) (d : Device) : Device := (run smooth (switchStaTo (some iface)) d).2.2

/-- The revert of a first poll, and a message to switch to `wlan1` that waited behind it. -/
def reactivated : Device := switched "wlan1" (smoothPoll unplugged).finish

theorem exec_switched (iface : String) (d : Device)
    (h : (run smooth (switchStaTo (some iface)) d).2.1 = some ()) :
    ∃ tr, Exec monitor (switchStaTo (some iface)) d tr (some ()) (switched iface d) := by
  have := exec_run (resolves_smooth (fun o => o.isFramework = true) Env)
    (switchStaTo (some iface)) d
  rw [h] at this
  exact ⟨_, this⟩

theorem unplugged_run : WorkerRun unplugged [smoothPoll unplugged, smoothPoll reactivated]
    (smoothPoll reactivated).finish := by
  obtain ⟨tr, hx⟩ := exec_switched "wlan1" (smoothPoll unplugged).finish (by decide)
  exact ((WorkerRun.start.poll (exec_smoothPoll unplugged)).switch _ hx).poll
    (exec_smoothPoll reactivated)

/-- The second poll finds the guard set and leaves `wifi.interface` on `wlan1`. -/
theorem not_forall_not_leftOnVanished :
    ¬ ∀ (d₀ d : Device) (h : List Poll), d₀.mRevertPending = false → WorkerRun d₀ h d →
      ∀ p ∈ h, ¬ p.LeftOnVanished := by
  intro hall
  refine hall _ _ _ rfl unplugged_run (smoothPoll reactivated) (by simp) ?_
  exact (staleHandled_of_exec (exec_smoothPoll reactivated)).leaves_iff.2
    ⟨by decide, by decide⟩

/-- After the revert `wlan1` is plugged in again and chosen. -/
def replugged : Device :=
  switched "wlan1" { (smoothPoll unplugged).finish with
    net := ⟨"wlan1", some "rtl8xxxu"⟩ :: unplugged.net }

/-- `wlan1` is unplugged a second time. -/
def unpluggedAgain : Device := { (smoothPoll replugged).finish with net := unplugged.net }

theorem replugged_run : WorkerRun unplugged
    [smoothPoll unplugged, smoothPoll replugged, smoothPoll unpluggedAgain]
    (smoothPoll unpluggedAgain).finish := by
  obtain ⟨tr, hx⟩ := exec_switched "wlan1" { (smoothPoll unplugged).finish with
    net := ⟨"wlan1", some "rtl8xxxu"⟩ :: unplugged.net } (by decide)
  exact (((((WorkerRun.start.poll (exec_smoothPoll unplugged)).env (Env.net _ _)).switch _ hx).poll
    (exec_smoothPoll replugged)).env (Env.net _ unplugged.net)).poll
    (exec_smoothPoll unpluggedAgain)

/-- Two unpluggings are handled where a poll between them finds the adapter there. -/
theorem leftOnVanished_iff_unplugged :
    ¬ (smoothPoll unplugged).LeftOnVanished ∧ ¬ (smoothPoll replugged).LeftOnVanished ∧
      ¬ (smoothPoll unpluggedAgain).LeftOnVanished := by
  have hall := (WorkerRun.leftOnVanished_iff replugged_run rfl).2 (by decide)
  exact ⟨hall _ (by simp), hall _ (by simp), hall _ (by simp)⟩

end DragonQ6A.Adapter
