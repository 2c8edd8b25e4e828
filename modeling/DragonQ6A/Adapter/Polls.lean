import DragonQ6A.Adapter.Notifications

/-!
# Runs of polls

A run of polls in which only the calls behind `showNotification` and `cancelNotification` may
throw.  Each poll of the run is recorded with the snapshot `findDongleIfaces()` gave it, so that the
run is a list of `Rounds` of the notifications.
-/

open Calls Java Mirror Relation

namespace DragonQ6A.Adapter

/-- The calls of `showNotification` and `cancelNotification`. -/
def Op.isNotification : Op → Bool
  | getBroadcast _ _ _ | notify _ _ _ | cancel _ _ => true
  | _ => false

theorem isFramework_of_isNotification {o : Op} (h : o.isNotification = true) :
    o.isFramework = true := by
  cases o <;> first | rfl | cases h

/-- The calls that neither change a notification nor write `mPresent`. -/
def Op.quiet : Op → Prop
  | getBroadcast _ _ _ | notify _ _ _ | cancel _ _ | setPresent _ => False
  | _ => True

theorem Op.scans.quiet {o : Op} (h : o.scans) : o.quiet := by
  cases o <;> trivial

theorem Op.reverts.quiet {o : Op} (h : o.reverts) : o.quiet := by
  cases o <;> trivial

theorem Op.quiet.change {o : Op} (h : o.quiet) : o.change = none := by
  cases o <;> first | rfl | exact h.elim

theorem Op.quiet.isNotification {o : Op} (h : o.quiet) : ¬ o.isNotification = true := by
  cases o <;> first | exact h.elim | exact Bool.false_ne_true

theorem Op.quiet.mPresent {o : Op} (h : o.quiet) (d : Device) :
    (o.effect d).mPresent = d.mPresent := by
  cases o with
  | setPresent s => exact h.elim
  | setWifiEnabled on => exact (setWifiEnabled_sameService d on).mPresent
  | getBroadcast code intent upd => exact h.elim
  | _ => rfl

/-! ## One poll -/

/-- A poll in which `findDongleIfaces()` returned `D`. -/
def PollOf (M : System Op.Ret Device) (d : Device) (D : HashSet String) (tr : List Ev)
    (res : Option Unit) (d' : Device) : Prop :=
  ∃ tr₁ d₁ tr₂, Exec M findDongleIfaces d tr₁ (some D) d₁ ∧
    Exec M ((updateNotifications D).bind fun _ => maybeRevertStaleInterface) d₁ tr₂ res d' ∧
    tr = tr₁ ++ tr₂

section Polls

variable {F : Op → Prop} {R : Device → Device → Prop}

/-- A method all of whose calls are quiet leaves the notifications and `mPresent` alone. -/
theorem exec_keeps (hR : ∀ d d', R d d' → Env d d') {α : Type} {p : Prog α}
    (hp : p.AllCalls Op.quiet) {d d' : Device} {tr : List Ev} {res : Option α}
    (h : Exec (system F R) p d tr res d') : changes tr = [] ∧ d'.mPresent = d.mPresent := by
  refine ⟨changes_eq_nil fun e he => (h.of_mem_trace hp e he).1.change, ?_⟩
  have hinv : Wp (system F R) p (fun _ _ d' => d'.mPresent = d.mPresent)
      (fun _ d' => d'.mPresent = d.mPresent) d := by
    refine wp_invariant (I := fun d' : Device => d'.mPresent = d.mPresent) hp ?_ ?_ rfl
    · exact fun d₁ d₂ he h₁ => (Env.sameService (.single (hR _ _ he))).mPresent.trans h₁
    · rintro d₁ o r d₂ ho ⟨-, rfl⟩ h₁
      exact (ho.mPresent d₁).trans h₁
  cases res with
  | none => exact hinv.throws h
  | some a => exact hinv.returns h

theorem findDongleIfaces_quiet : findDongleIfaces.Safe Op.quiet :=
  findDongleIfaces_safe.mono fun _ h => h.quiet

theorem maybeRevertStaleInterface_quiet : maybeRevertStaleInterface.Safe Op.quiet :=
  maybeRevertStaleInterface_safe.mono fun _ h => h.quiet

/-- A quiet method does not throw. -/
theorem exec_quiet (hF : ∀ o, F o → o.isNotification = true) {α : Type} {p : Prog α}
    (hp : p.Safe Op.quiet) {d d' : Device} {tr : List Ev} {res : Option α}
    (h : Exec (system F R) p d tr res d') : res.isSome := by
  cases res with
  | none => exact (hp.not_exec_throw (fun _ o ho hf => ho.isNotification (hF o hf)) h).elim
  | some a => rfl

/-- A poll makes every change to its snapshot, unless a change throws: then it has made some of them
and kept `mPresent`. -/
theorem PollOf.update (hF : ∀ o, F o → o.isFramework = true) (hR : ∀ d d', R d d' → Env d d')
    {d d' : Device} {D : HashSet String} {tr : List Ev} {res : Option Unit}
    (h : PollOf (system F R) d D tr res d') :
    (Diff d.mPresent.toSet D.toSet (changes tr) ∧ d'.mPresent.toSet = D.toSet ∧
        ∃ d₁ tr₁, Exec (system F R) maybeRevertStaleInterface d₁ tr₁ res d') ∨
      (res = none ∧ (∃ rest, Diff d.mPresent.toSet D.toSet (changes tr ++ rest)) ∧
        d'.mPresent = d.mPresent ∧
        ∃ d₁ tr₁, Exec (system F R) (updateNotifications D) d₁ tr₁ none d') := by
  obtain ⟨tr₁, d₁, tr₂, hfind, hrest, rfl⟩ := h
  obtain ⟨htr₁, h₁⟩ := exec_keeps hR findDongleIfaces_quiet.calls hfind
  have hupdate := wp_updateNotifications hF hR D d₁
  rw [h₁] at hupdate
  rcases exec_bind.1 hrest with ⟨⟨⟩, d₂, tr₃, tr₄, h₃, h₄, rfl⟩ | ⟨h₃, rfl⟩
  · obtain ⟨hdiff, h₂⟩ := hupdate.returns h₃
    obtain ⟨htr₄, hd'⟩ := exec_keeps hR maybeRevertStaleInterface_quiet.calls h₄
    refine Or.inl ⟨?_, by rw [hd', h₂], d₂, tr₄, h₄⟩
    simpa [htr₁, htr₄] using hdiff
  · obtain ⟨⟨rest, hdiff⟩, hd'⟩ := hupdate.throws h₃
    exact Or.inr ⟨rfl, ⟨rest, by simpa [htr₁] using hdiff⟩, hd', d₁, tr₂, h₃⟩

/-- When nothing but the notifications fails, every poll gets a snapshot. -/
theorem exists_pollOf (hF : ∀ o, F o → o.isNotification = true) {d d' : Device} {tr : List Ev}
    {res : Option Unit} (h : Exec (system F R) pollBody d tr res d') :
    ∃ D, PollOf (system F R) d D tr res d' := by
  rcases exec_bind.1 h with ⟨D, d₁, tr₁, tr₂, h₁, h₂, rfl⟩ | ⟨h₁, -⟩
  · exact ⟨D, tr₁, d₁, tr₂, h₁, h₂, rfl⟩
  · have := exec_quiet hF findDongleIfaces_quiet h₁
    cases this

/-- A poll that returns has made every change to its snapshot; one that throws has made some of
them and kept `mPresent`. -/
theorem PollOf.changes (hF : ∀ o, F o → o.isNotification = true)
    (hR : ∀ d d', R d d' → Env d d') {d d' : Device} {D : HashSet String} {tr : List Ev}
    {res : Option Unit} (h : PollOf (system F R) d D tr res d') :
    (res = some () ∧ Diff d.mPresent.toSet D.toSet (changes tr) ∧
        d'.mPresent.toSet = D.toSet) ∨
      (res = none ∧ (∃ rest, Diff d.mPresent.toSet D.toSet (Adapter.changes tr ++ rest)) ∧
        d'.mPresent = d.mPresent) := by
  rcases h.update (fun o hf => isFramework_of_isNotification (hF o hf)) hR with
    ⟨hdiff, hd', d₁, tr₁, hrevert⟩ | ⟨hres, hdiff, hd', -⟩
  · have hres := exec_quiet hF maybeRevertStaleInterface_quiet hrevert
    exact Or.inl ⟨Option.eq_some_of_isSome hres, hdiff, hd'⟩
  · exact Or.inr ⟨hres, hdiff, hd'⟩

/-! ## Runs -/

/-- A poll of a run, with its snapshot. -/
structure Turn where
  snapshot : HashSet String
  trace : List Ev
  outcome : Option Unit
  finish : Device

/-- The runs of polls from `d₀`, with the environment moving in between. -/
inductive PollRun (M : System Op.Ret Device) (d₀ : Device) : List Turn → Device → Prop
  | start : PollRun M d₀ [] d₀
  | env {h : List Turn} {d d' : Device} : PollRun M d₀ h d → M.env d d' → PollRun M d₀ h d'
  | poll {h : List Turn} {d d' : Device} {D : HashSet String} {tr : List Ev}
      {res : Option Unit} : PollRun M d₀ h d → PollOf M d D tr res d' →
      PollRun M d₀ (h ++ [⟨D, tr, res, d'⟩]) d'

/-- What a poll did to the notifications, as a round. -/
def Turn.round (t : Turn) : Round String :=
  ⟨t.snapshot.toSet, Adapter.changes t.trace, t.outcome.isSome⟩

/-- The message `mPoll` extends a run by one poll, if posting the next one is a move of the
environment. -/
theorem PollRun.mPoll (hF : ∀ o, F o → o.isNotification = true)
    (hpost : ∀ d queue, R d { d with queue := queue }) {d₀ d d' : Device} {h : List Turn}
    {tr : List Ev} {res : Option Unit} (hr : PollRun (system F R) d₀ h d)
    (hx : Exec (system F R) mPoll d tr res d') : ∃ t, PollRun (system F R) d₀ (h ++ [t]) d' := by
  obtain ⟨-, tr₁, res₁, d₁, d₂, hbody, he, rfl⟩ :=
    exec_mPoll (fun o hf => isFramework_of_isNotification (hF o hf)) hx
  obtain ⟨D, hpoll⟩ := exists_pollOf hF hbody
  refine ⟨⟨D, tr₁, res₁, d₁⟩, PollRun.env ?_ (hpost d₂ _)⟩
  exact keeps_steps (fun _ _ hs h => h.env hs) he (hr.poll hpoll)

theorem PollRun.rounds (hF : ∀ o, F o → o.isNotification = true)
    (hR : ∀ d d', R d d' → Env d d') {d₀ d : Device} {h : List Turn}
    (hr : PollRun (system F R) d₀ h d) (h₀ : d₀.mPresent = HashSet.empty) :
    Rounds (h.map Turn.round) d.mPresent.toSet := by
  induction hr with
  | start =>
    rw [h₀, HashSet.toSet_empty]
    exact Rounds.nil
  | env _ he ih =>
    rw [(Env.sameService (.single (hR _ _ he))).mPresent]
    exact ih
  | poll _ hp ih =>
    rw [List.map_append]
    rcases hp.changes hF hR with ⟨rfl, hdiff, hD⟩ | ⟨rfl, ⟨rest, hdiff⟩, hD⟩
    · rw [hD]
      exact ih.done hdiff
    · rw [hD]
      exact ih.failed hdiff

end Polls

/-- One poll from `d`, with `A` choosing the answers to its calls. -/
def turn (A : Device → (o : Op) → Option (o.Ret × Device)) (d : Device) : Turn :=
  let found := run A findDongleIfaces d
  let D := found.2.1.getD HashSet.empty
  let rest := run A ((updateNotifications D).bind fun _ => maybeRevertStaleInterface) found.2.2
  ⟨D, found.1 ++ rest.1, rest.2.1, rest.2.2⟩

theorem pollOf_turn {M : System Op.Ret Device} {A : Device → (o : Op) → Option (o.Ret × Device)}
    (hA : Resolves M A) {d : Device} (hD : (run A findDongleIfaces d).2.1.isSome = true) :
    PollOf M d (turn A d).snapshot (turn A d).trace (turn A d).outcome (turn A d).finish := by
  obtain ⟨D, hD⟩ := Option.isSome_iff_exists.1 hD
  have hfind := exec_run hA findDongleIfaces d
  rw [hD] at hfind
  have hget : (turn A d).snapshot = D := by simp [turn, hD]
  rw [hget]
  refine ⟨_, _, _, hfind, ?_, rfl⟩
  rw [← hget]
  exact exec_run hA _ _

/-! ## No leaked notifications -/

/-- `showNotification` and `cancelNotification` may throw. -/
abbrev faulty : System Op.Ret Device := system (fun o => o.isNotification = true) Env

/-- Every poll that returns leaves no notification outstanding beyond its snapshot if and only if
every adapter that polls which threw have shown is in the snapshot of the next poll that returns. -/
theorem PollRun.clean_iff {d₀ d : Device} {h : List Turn} (hr : PollRun faulty d₀ h d)
    (h₀ : d₀.mPresent = HashSet.empty) :
    Clean (h.map Turn.round) ↔ Confirmed (h.map Turn.round) :=
  (hr.rounds (fun _ h => h) (fun _ _ h => h) h₀).clean_iff_confirmed

/-- Two dongles are plugged in at boot. -/
def twoDongles : Device :=
  { Device.boot with
    net := [⟨"wlan0", some "usb"⟩, ⟨"wlan2", some "rtl8xxxu"⟩, ⟨"wlan1", some "rtl8xxxu"⟩] }

/-- The notification of `wlan2` cannot be posted. -/
def refuseWlan2 (d : Device) (o : Op) : Option (o.Ret × Device) :=
  if o.change = some (.add "wlan2") then none else smooth d o

theorem resolves_refuseWlan2 : Resolves faulty refuseWlan2 := by
  intro d o
  unfold refuseWlan2
  split_ifs with h
  · refine ⟨fun _ _ h => (by cases h), fun _ => ?_⟩
    cases o <;> first | rfl | cases h
  · exact resolves_smooth _ _ d o

/-- The first poll shows `wlan1` and throws at `wlan2`; both are unplugged before the next one. -/
def shownAndLost : Device :=
  { (turn refuseWlan2 twoDongles).finish with net := [⟨"wlan0", some "usb"⟩] }

theorem shownAndLost_run : PollRun faulty twoDongles
    [turn refuseWlan2 twoDongles, turn smooth shownAndLost] (turn smooth shownAndLost).finish :=
  ((PollRun.start.poll (pollOf_turn resolves_refuseWlan2 (by decide))).env
    (Env.net _ [⟨"wlan0", some "usb"⟩])).poll (pollOf_turn (resolves_smooth _ _) (by decide))

/-- The second poll returns without cancelling `wlan1`. -/
theorem not_forall_clean : ¬ ∀ (d₀ d : Device) (h : List Turn), d₀.mPresent = HashSet.empty →
    PollRun faulty d₀ h d → Clean (h.map Turn.round) := by
  intro hall
  have hconf := (shownAndLost_run.rounds (fun _ h => h) (fun _ _ h => h) rfl).clean_iff_confirmed.1
    (hall _ _ _ rfl shownAndLost_run)
  have hpending : Pending [(turn refuseWlan2 twoDongles).round] "wlan1" :=
    ⟨[], _, [], rfl, by decide, by decide, by simp⟩
  have := hconf [(turn refuseWlan2 twoDongles).round] _ [] rfl (by decide) "wlan1" hpending
  exact absurd (HashSet.mem_toSet.1 this) (by decide)

/-- Where both stay plugged in, the next poll takes over what the first has shown. -/
theorem clean_iff_twoDongles : Clean
    [(turn refuseWlan2 twoDongles).round,
      (turn smooth (turn refuseWlan2 twoDongles).finish).round] := by
  refine (PollRun.clean_iff ((PollRun.start.poll (pollOf_turn resolves_refuseWlan2
    (by decide : (run refuseWlan2 findDongleIfaces twoDongles).2.1.isSome = true))).poll
    (pollOf_turn (resolves_smooth _ _) (by decide))) rfl).2 ?_
  rintro pre r post heq - a hpending
  rcases concat_eq_split (l := [(turn refuseWlan2 twoDongles).round]) heq with
    ⟨rfl, rfl, -⟩ | ⟨post', heq', -⟩
  · have hchanges : (turn refuseWlan2 twoDongles).round.changes = [.add "wlan1"] := by decide
    rw [← List.nil_append [_], pending_concat] at hpending
    rcases hpending.2 with hnil | hadd
    · exact absurd hnil (not_pending_nil a)
    · rw [hchanges, List.mem_singleton] at hadd
      cases hadd
      exact HashSet.mem_toSet.2 (by decide)
  · rcases concat_eq_split (l := []) heq' with ⟨rfl, -, -⟩ | ⟨post'', heq'', -⟩
    · exact absurd hpending (not_pending_nil a)
    · simp at heq''

end DragonQ6A.Adapter
