import DragonQ6A.Adapter.Polls
import DragonQ6A.Mirror.Stretches

/-!
# One notification for each insertion

Runs of polls in which everything may throw but `showNotification` and `cancelNotification`.  A poll
whose scan throws has no snapshot and changes nothing; one whose revert throws has refreshed
`mPresent` before.  Either way the next poll starts from the last snapshot there was.
-/

open Calls Java Mirror Relation

namespace DragonQ6A.Adapter

/-! ## One poll -/

/-- A poll, with what `findDongleIfaces()` returned, if it did. -/
def PassOf (M : System Op.Ret Device) (d : Device) (snapshot : Option (HashSet String))
    (tr : List Ev) (res : Option Unit) (d' : Device) : Prop :=
  match snapshot with
  | none => Exec M findDongleIfaces d tr none d' ∧ res = none
  | some D => PollOf M d D tr res d'

theorem exec_pollBody {M : System Op.Ret Device} {d d' : Device} {tr : List Ev}
    {res : Option Unit} :
    Exec M pollBody d tr res d' ↔ ∃ snapshot, PassOf M d snapshot tr res d' := by
  constructor
  · intro h
    rcases exec_bind.1 h with ⟨D, d₁, tr₁, tr₂, h₁, h₂, rfl⟩ | hthrow
    · exact ⟨some D, tr₁, d₁, tr₂, h₁, h₂, rfl⟩
    · exact ⟨none, hthrow⟩
  · rintro ⟨snapshot, h⟩
    cases snapshot with
    | none => exact exec_bind.2 (.inr h)
    | some D =>
      obtain ⟨tr₁, d₁, tr₂, h₁, h₂, rfl⟩ := h
      exact exec_bind.2 (.inl ⟨D, d₁, tr₁, tr₂, h₁, h₂, rfl⟩)

/-- None of the calls of `updateNotifications` throws when the notifications do not. -/
theorem Op.notifies.not_fails {o : Op} (h : o.notifies) :
    ¬ (o.isFramework = true ∧ o.isNotification = false) := by
  cases o <;> first | exact h.elim | simp [Op.isFramework, Op.isNotification]

section Passes

variable {F : Op → Prop} {R : Device → Device → Prop}

/-- As long as no change throws, a poll with a snapshot makes all of them, whatever comes after. -/
theorem PollOf.diff (hF : ∀ o, F o → o.isFramework = true ∧ o.isNotification = false)
    (hR : ∀ d d', R d d' → Env d d') {d d' : Device} {D : HashSet String} {tr : List Ev}
    {res : Option Unit} (h : PollOf (system F R) d D tr res d') :
    Diff d.mPresent.toSet D.toSet (Adapter.changes tr) ∧ d'.mPresent.toSet = D.toSet := by
  rcases h.update (fun o hf => (hF o hf).1) hR with ⟨hdiff, hd', -⟩ | ⟨-, -, -, d₁, tr₁, hthrow⟩
  · exact ⟨hdiff, hd'⟩
  · have hsafe := updateNotifications_safe D
    exact absurd hthrow (hsafe.not_exec_throw fun _ o ho hf => ho.not_fails (hF o hf))

/-! ## Runs -/

/-- A poll of a run, with its snapshot if it has one. -/
structure Pass where
  snapshot : Option (HashSet String)
  trace : List Ev
  outcome : Option Unit
  finish : Device

/-- The runs of polls from `d₀`, with the environment moving in between. -/
inductive PassRun (M : System Op.Ret Device) (d₀ : Device) : List Pass → Device → Prop
  | start : PassRun M d₀ [] d₀
  | env {h : List Pass} {d d' : Device} : PassRun M d₀ h d → M.env d d' → PassRun M d₀ h d'
  | poll {h : List Pass} {d : Device} {p : Pass} : PassRun M d₀ h d →
      PassOf M d p.snapshot p.trace p.outcome p.finish → PassRun M d₀ (h ++ [p]) p.finish

/-- What a poll did to the notifications, as a round, which gets through if it has a snapshot. -/
def Pass.round (p : Pass) : Round String :=
  ⟨(p.snapshot.getD HashSet.empty).toSet, Adapter.changes p.trace, p.snapshot.isSome⟩

/-- The message `mPoll` extends a run by one poll, if posting the next one is a move of the
environment. -/
theorem PassRun.mPoll (hF : ∀ o, F o → o.isFramework = true)
    (hpost : ∀ d queue, R d { d with queue := queue }) {d₀ d d' : Device} {h : List Pass}
    {tr : List Ev} {res : Option Unit} (hr : PassRun (system F R) d₀ h d)
    (hx : Exec (system F R) mPoll d tr res d') : ∃ p, PassRun (system F R) d₀ (h ++ [p]) d' := by
  obtain ⟨-, tr₁, res₁, d₁, d₂, hbody, he, rfl⟩ := exec_mPoll hF hx
  obtain ⟨snapshot, hpass⟩ := exec_pollBody.1 hbody
  refine ⟨⟨snapshot, tr₁, res₁, d₁⟩, PassRun.env ?_ (hpost d₂ _)⟩
  exact keeps_steps (fun _ _ hs h => h.env hs) he (hr.poll hpass)

/-- A poll without a snapshot is a failed round without changes. -/
theorem PassOf.round (hF : ∀ o, F o → o.isFramework = true ∧ o.isNotification = false)
    (hR : ∀ d d', R d d' → Env d d') {d : Device} {p : Pass}
    (h : PassOf (system F R) d p.snapshot p.trace p.outcome p.finish) {rs : List (Round String)}
    (hrs : Rounds rs d.mPresent.toSet) : Rounds (rs ++ [p.round]) p.finish.mPresent.toSet ∧
      (p.round.done = false → p.round.changes = []) := by
  obtain ⟨snapshot, tr, res, d'⟩ := p
  cases snapshot with
  | none =>
    obtain ⟨htr, hd'⟩ := exec_keeps hR findDongleIfaces_quiet.calls h.1
    have hnone : Diff d.mPresent.toSet HashSet.empty.toSet
        (Adapter.changes tr ++ d.mPresent.elems.map .remove) := by
      refine ⟨[], d.mPresent.elems, by simp, ⟨d.mPresent.nodup, fun a => ?_⟩, by simp [htr]⟩
      simpa using d.mPresent.visits_elems.mem_iff
    rw [hd']
    exact ⟨hrs.failed hnone, fun _ => htr⟩
  | some D =>
    obtain ⟨hdiff, hd'⟩ := PollOf.diff hF hR h
    rw [hd']
    exact ⟨hrs.done hdiff, fun h => by cases h⟩

theorem PassRun.rounds (hF : ∀ o, F o → o.isFramework = true ∧ o.isNotification = false)
    (hR : ∀ d d', R d d' → Env d d') {d₀ d : Device} {h : List Pass}
    (hr : PassRun (system F R) d₀ h d) (h₀ : d₀.mPresent = HashSet.empty) :
    Rounds (h.map Pass.round) d.mPresent.toSet ∧ Silent (h.map Pass.round) := by
  induction hr with
  | start =>
    rw [h₀, HashSet.toSet_empty]
    exact ⟨Rounds.nil, fun r hr => by cases hr⟩
  | env _ he ih =>
    rw [(Env.sameService (.single (hR _ _ he))).mPresent]
    exact ih
  | @poll h d p _ hp ih =>
    obtain ⟨hrounds, hsilent⟩ := ih
    obtain ⟨hrounds', hlast⟩ := hp.round hF hR hrounds
    rw [List.map_append]
    exact ⟨hrounds', List.forall_mem_append.2 ⟨hsilent, List.forall_mem_singleton.2 hlast⟩⟩

end Passes

/-- One poll from `d`, with `A` choosing the answers to its calls. -/
def pass (A : Device → (o : Op) → Option (o.Ret × Device)) (d : Device) : Pass :=
  let found := run A findDongleIfaces d
  match found.2.1 with
  | none => ⟨none, found.1, none, found.2.2⟩
  | some D =>
    let rest := run A ((updateNotifications D).bind fun _ => maybeRevertStaleInterface) found.2.2
    ⟨some D, found.1 ++ rest.1, rest.2.1, rest.2.2⟩

theorem passOf_pass {M : System Op.Ret Device} {A : Device → (o : Op) → Option (o.Ret × Device)}
    (hA : Resolves M A) (d : Device) :
    PassOf M d (pass A d).snapshot (pass A d).trace (pass A d).outcome (pass A d).finish := by
  have hfind := exec_run hA findDongleIfaces d
  unfold pass
  dsimp only
  split
  · next hnone =>
    rw [hnone] at hfind
    exact ⟨hfind, rfl⟩
  · next D hD =>
    rw [hD] at hfind
    exact ⟨_, _, _, hfind, exec_run hA _ _, rfl⟩

/-! ## Shown once -/

/-- Anything may throw but the calls of `showNotification` and `cancelNotification`. -/
abbrev steady : System Op.Ret Device :=
  system (fun o => o.isFramework = true ∧ o.isNotification = false) Env

/-- Every adapter is shown once for each stretch of polls that find it, and cancelled once when the
stretch is over. -/
theorem PassRun.shown_once {d₀ d : Device} {h : List Pass} (hr : PassRun steady d₀ h d)
    (h₀ : d₀.mPresent = HashSet.empty) (iface : String) :
    OncePerStretch iface (h.map Pass.round) := by
  obtain ⟨hrounds, hsilent⟩ := hr.rounds (fun _ h => h) (fun _ _ h => h) h₀
  exact hrounds.oncePerStretch iface hsilent

/-- The interfaces cannot be listed. -/
def refuseScan (d : Device) (o : Op) : Option (o.Ret × Device) :=
  match o with
  | .listFiles => none
  | o => smooth d o

theorem resolves_refuseScan : Resolves steady refuseScan := by
  intro d o
  cases o with
  | listFiles => exact ⟨fun _ _ h => (by cases h), fun _ => ⟨rfl, rfl⟩⟩
  | _ => exact resolves_smooth _ _ d _

/-- Two adapters are found, then a poll fails, then both are gone. -/
def pluggedOnce : List Pass :=
  let first := pass smooth twoDongles
  let second := pass refuseScan first.finish
  let third := pass smooth { second.finish with net := [⟨"wlan0", some "usb"⟩] }
  [first, second, third]

theorem pluggedOnce_run : ∃ d, PassRun steady twoDongles pluggedOnce d :=
  ⟨_, (((PassRun.start.poll (passOf_pass (resolves_smooth _ _) _)).poll
    (passOf_pass resolves_refuseScan _)).env (Env.net _ _)).poll
      (passOf_pass (resolves_smooth _ _) _)⟩

/-- One of them is shown and then cancelled, once each. -/
theorem shown_once_pluggedOnce : OncePerStretch "wlan1" (pluggedOnce.map Pass.round) ∧
    changesOf "wlan1" (log (pluggedOnce.map Pass.round)) = [.add "wlan1", .remove "wlan1"] := by
  obtain ⟨d, hr⟩ := pluggedOnce_run
  exact ⟨hr.shown_once rfl "wlan1", by decide⟩

end DragonQ6A.Adapter
