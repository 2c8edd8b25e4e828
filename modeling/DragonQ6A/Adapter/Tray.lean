import DragonQ6A.Adapter.Polls
import DragonQ6A.Mirror.Keyed

/-!
# The tray mirrors the dongles

`notifId` keeps 16 bits of the hash of a name, so two dongles may share a notification.  On a device
on which no call throws and only the service touches the tray, every poll leaves exactly one entry
for each dongle it found if and only if no two names of successive snapshots share an id.
-/

open Calls Java Mirror Relation

namespace DragonQ6A.Adapter

/-- No call throws and nobody but the service touches the tray. -/
abbrev calm : System Op.Ret Device :=
  system (fun _ => False) fun d d' => Env d d' ∧ d'.tray = d.tray

/-- The tray has exactly one entry for each interface of `D`, whose text names it, and no other
entry. -/
def TrayMirrors (d : Device) (D : HashSet String) : Prop :=
  (∀ iface ∈ D, ∃! id, ∃ n, d.tray id = some n ∧ n.contentText = notifText iface) ∧
    ∀ id n, d.tray id = some n → ∃ iface ∈ D, n.contentText = notifText iface

theorem notifText_inj {iface iface' : String} :
    notifText iface = notifText iface' ↔ iface = iface' := by
  unfold notifText
  rw [String.append_left_inj, String.append_right_inj]

/-! ## The tray as a store of interface names -/

/-- The entries of the tray are those of `s`: under every id, the text names the interface. -/
def Names (d : Device) (s : BitVec 32 → Option String) : Prop :=
  ∀ id, (d.tray id).map Notification.contentText = (s id).map notifText

theorem Names.some_iff {d : Device} {s : BitVec 32 → Option String} (h : Names d s)
    {id : BitVec 32} {iface : String} :
    s id = some iface ↔ ∃ n, d.tray id = some n ∧ n.contentText = notifText iface := by
  have hid := h id
  cases ht : d.tray id with
  | none =>
    rw [ht] at hid
    have hs : s id = none := Option.map_eq_none_iff.1 hid.symm
    simp [hs]
  | some n =>
    rw [ht] at hid
    obtain ⟨iface', hs, htext⟩ := Option.map_eq_some_iff.1 hid.symm
    rw [hs, Option.some.injEq]
    constructor
    · rintro rfl
      exact ⟨n, rfl, htext.symm⟩
    · rintro ⟨m, hm, hmtext⟩
      obtain rfl := Option.some.inj hm
      exact notifText_inj.1 (htext.trans hmtext)

theorem Names.mirrors_iff {d : Device} {s : BitVec 32 → Option String} (h : Names d s)
    (hf : Filed notifId s) {D : HashSet String} :
    TrayMirrors d D ↔ Mirrors notifId s D.toSet := by
  unfold TrayMirrors
  simp only [← h.some_iff]
  constructor
  · rintro ⟨hone, hno⟩ id iface
    constructor
    · intro hs
      obtain ⟨n, hn, htext⟩ := h.some_iff.1 hs
      obtain ⟨iface', hD, htext'⟩ := hno id n hn
      obtain rfl := notifText_inj.1 (htext.symm.trans htext')
      exact ⟨hD, hf id iface hs⟩
    · rintro ⟨hD, rfl⟩
      obtain ⟨id, hs, -⟩ := hone iface hD
      rw [hf id iface hs]
      exact hs
  · intro hm
    refine ⟨fun iface hD => ⟨notifId iface, (hm _ _).2 ⟨hD, rfl⟩, ?_⟩, fun id n hn => ?_⟩
    · exact fun id hs => (hf id iface hs).symm
    · have hid := h id
      rw [hn] at hid
      obtain ⟨iface, hs, htext⟩ := Option.map_eq_some_iff.1 hid.symm
      exact ⟨iface, ((hm id iface).1 hs).1, htext.symm⟩

/-! ## What a poll does to the store -/

/-- A notification is posted and cancelled under the id of its interface. -/
def Op.labelled : Op → Prop
  | notify id n iface => id = notifId iface ∧ n.contentText = notifText iface
  | cancel id iface => id = notifId iface
  | _ => True

theorem Op.scans.labelled {o : Op} (h : o.scans) : o.labelled := by
  cases o <;> trivial

theorem Op.reverts.labelled {o : Op} (h : o.reverts) : o.labelled := by
  cases o <;> trivial

theorem Op.notifies.labelled {o : Op} (h : o.notifies) : o.labelled := by
  cases o <;> trivial

theorem Names.effect {d : Device} {s : BitVec 32 → Option String} (h : Names d s) {o : Op}
    (ho : o.labelled) :
    Names (o.effect d) (applyAll notifId s o.change.toList) := by
  cases o with
  | notify id n iface =>
    obtain ⟨rfl, htext⟩ := ho
    intro id'
    show (Function.update d.tray (notifId iface) (some n) id').map Notification.contentText =
      (Function.update s (notifId iface) (some iface) id').map notifText
    by_cases hid : id' = notifId iface
    · rw [hid, Function.update_self, Function.update_self, Option.map_some, Option.map_some, htext]
    · rw [Function.update_of_ne hid, Function.update_of_ne hid]
      exact h id'
  | cancel id iface =>
    obtain rfl : id = notifId iface := ho
    intro id'
    show (Function.update d.tray (notifId iface) none id').map Notification.contentText =
      (Function.update s (notifId iface) none id').map notifText
    by_cases hid : id' = notifId iface
    · rw [hid, Function.update_self, Function.update_self, Option.map_none, Option.map_none]
    · rw [Function.update_of_ne hid, Function.update_of_ne hid]
      exact h id'
  | setWifiEnabled on =>
    rw [Op.effect, d.setWifiEnabled_eq]
    exact h
  | getBroadcast code intent upd =>
    rw [Op.effect, d.getBroadcast_eq]
    exact h
  | _ => exact h

/-- The changes a program made are the changes of the tray. -/
theorem Names.exec {α : Type} {p : Prog α} (hp : p.AllCalls Op.labelled) {d d' : Device}
    {tr : List Ev} {res : Option α} (hx : Exec calm p d tr res d')
    {s : BitVec 32 → Option String} (h : Names d s) :
    Names d' (applyAll notifId s (changes tr)) := by
  unfold applyAll changes
  rw [List.foldl_filterMap]
  refine Exec.foldl (V := Names) hp ?_ ?_ hx h
  · rintro d₁ d₂ s ⟨-, htray⟩ hs id
    rw [htray]
    exact hs id
  · rintro d₁ o r d₂ s ho ⟨-, rfl⟩ hs
    have hnext := hs.effect ho
    cases hc : o.change with
    | none => rwa [hc] at hnext
    | some c => rwa [hc] at hnext

theorem PollOf.names {d d' : Device} {D : HashSet String} {tr : List Ev} {res : Option Unit}
    (hp : PollOf calm d D tr res d') {s : BitVec 32 → Option String} (h : Names d s) :
    Names d' (applyAll notifId s (Adapter.changes tr)) := by
  obtain ⟨tr₁, d₁, tr₂, hfind, hrest, rfl⟩ := hp
  have h₁ := h.exec (findDongleIfaces_safe.calls.mono fun _ h => h.labelled) hfind
  rw [changes_append, applyAll_append]
  refine h₁.exec ?_ hrest
  exact ((updateNotifications_safe D).calls.mono fun _ h => h.labelled).bind fun _ =>
    maybeRevertStaleInterface_safe.calls.mono fun _ h => h.labelled

/-- No poll of a calm device throws. -/
theorem PollOf.returns {d d' : Device} {D : HashSet String} {tr : List Ev} {res : Option Unit}
    (h : PollOf calm d D tr res d') : res.isSome = true := by
  obtain ⟨tr₁, d₁, tr₂, -, hrest, -⟩ := h
  cases res with
  | some => rfl
  | none =>
    have hsafe : ((updateNotifications D).bind fun _ => maybeRevertStaleInterface).Safe
        fun _ => True :=
      ((updateNotifications_safe D).mono fun _ _ => trivial).bind fun _ =>
        maybeRevertStaleInterface_safe.mono fun _ _ => trivial
    exact (hsafe.not_exec_throw (fun _ _ _ => id) hrest).elim

theorem PollRun.names {d₀ d : Device} {h : List Turn} (hr : PollRun calm d₀ h d)
    (ht : d₀.tray = fun _ => none) :
    Names d (applyAll notifId (fun _ => none) (log (h.map Turn.round))) ∧
      (∀ r ∈ h.map Turn.round, r.done = true) ∧
      ∀ pre t post, h = pre ++ t :: post →
        Names t.finish (applyAll notifId (fun _ => none) (log ((pre ++ [t]).map Turn.round))) := by
  induction hr with
  | start =>
    refine ⟨fun id => ?_, by simp, by simp⟩
    rw [ht]
    rfl
  | env _ he ih =>
    refine ⟨fun id => ?_, ih.2⟩
    rw [he.2]
    exact ih.1 id
  | poll _ hp ih =>
    obtain ⟨hnow, hdone, hall⟩ := ih
    have hnext := hp.names hnow
    rw [← applyAll_append] at hnext
    have hlog : ∀ (h : List Turn) (t : Turn), log ((h ++ [t]).map Turn.round) =
        log (h.map Turn.round) ++ Adapter.changes t.trace := fun h t => by
      rw [List.map_append, List.map_singleton, log_concat]
      rfl
    rw [hlog]
    refine ⟨hnext, ?_, forall_split_concat.2 ⟨hall, ?_⟩⟩
    · rw [List.map_append]
      exact List.forall_mem_append.2 ⟨hdone, List.forall_mem_singleton.2 hp.returns⟩
    · rw [hlog]
      exact hnext

/-- From an empty tray, every poll leaves the tray a mirror of its snapshot if and only if `notifId`
tells apart the names of any two successive snapshots. -/
theorem PollRun.trayMirrors_iff {d₀ d : Device} {h : List Turn} (hr : PollRun calm d₀ h d)
    (h₀ : d₀.mPresent = HashSet.empty) (ht : d₀.tray = fun _ => none) :
    (∀ t ∈ h, TrayMirrors t.finish t.snapshot) ↔
      (∅ :: h.map fun t => t.snapshot.toSet).IsChain fun P D => Set.InjOn notifId (P ∪ D) := by
  obtain ⟨-, hdone, hnames⟩ := hr.names ht
  have hrounds := hr.rounds (fun _ h => h.elim) (fun _ _ h => h.1) h₀
  have hmap : h.map (fun t => t.snapshot.toSet) = (h.map Turn.round).map Round.snapshot := by
    rw [List.map_map]
    rfl
  rw [hmap, ← hrounds.allMirror_iff hdone]
  have hiff : ∀ pre t post, h = pre ++ t :: post → (TrayMirrors t.finish t.snapshot ↔
      Mirrors notifId (applyAll notifId (fun _ => none) (log ((pre ++ [t]).map Turn.round)))
        t.snapshot.toSet) :=
    fun pre t post heq => (hnames pre t post heq).mirrors_iff (filed_empty.applyAll _)
  constructor
  · intro hall pre r post heq
    obtain ⟨pre, post', rfl, rfl, hpost⟩ := List.map_eq_append_iff.1 heq
    obtain ⟨t, post, rfl, rfl, rfl⟩ := List.map_eq_cons_iff.1 hpost
    have := (hiff pre t post rfl).1 (hall t (by simp))
    rwa [List.map_append, List.map_singleton] at this
  · intro hall t hmem
    obtain ⟨pre, post, rfl⟩ := List.append_of_mem hmem
    refine (hiff pre t post rfl).2 ?_
    have := hall (pre.map Turn.round) t.round (post.map Turn.round) (by simp)
    rwa [List.map_append, List.map_singleton]

/-! ## Two dongles whose names have one hash -/

/-- `"wlanAa".hashCode() == "wlanBB".hashCode()`. -/
def sameHash : Device :=
  { Device.boot with
    net := [⟨"wlan0", some "usb"⟩, ⟨"wlanAa", some "rtl8xxxu"⟩, ⟨"wlanBB", some "rtl8xxxu"⟩] }

theorem resolves_smooth_calm : Resolves calm smooth := resolves_smooth _ _

theorem sameHash_run : PollRun calm sameHash [turn smooth sameHash] (turn smooth sameHash).finish :=
  PollRun.start.poll (pollOf_turn resolves_smooth_calm (by decide))

/-- Only one of the two has an entry. -/
theorem not_forall_trayMirrors : ¬ ∀ (d₀ d : Device) (h : List Turn),
    d₀.mPresent = HashSet.empty → (d₀.tray = fun _ => none) → PollRun calm d₀ h d →
    (∀ t ∈ h, ∀ iface ∈ t.snapshot, startsWith iface "wlan" = true ∧ iface.toList.length ≤ 15) →
    ∀ t ∈ h, TrayMirrors t.finish t.snapshot := by
  intro hall
  have hlegal : ∀ iface ∈ (turn smooth sameHash).snapshot.elems,
      startsWith iface "wlan" = true ∧ iface.toList.length ≤ 15 := by decide
  have hmirrors := hall _ _ _ rfl rfl sameHash_run
    (List.forall_mem_singleton.2 hlegal) _ List.mem_cons_self
  have hnames := (sameHash_run.names rfl).2.2 [] _ [] rfl
  have hinj := ((hnames.mirrors_iff (filed_empty.applyAll _)).1 hmirrors).injOn
  have hAa : "wlanAa" ∈ (turn smooth sameHash).snapshot := by decide
  have hBB : "wlanBB" ∈ (turn smooth sameHash).snapshot := by decide
  exact absurd (hinj hAa hBB (by decide)) (by decide)

/-- The names of the two dongles have ids of their own. -/
theorem trayMirrors_twoDongles :
    TrayMirrors (turn smooth twoDongles).finish (turn smooth twoDongles).snapshot := by
  have hrun : PollRun calm twoDongles [turn smooth twoDongles] (turn smooth twoDongles).finish :=
    PollRun.start.poll (pollOf_turn resolves_smooth_calm (by decide))
  refine (PollRun.trayMirrors_iff hrun rfl rfl).2 ?_ _ List.mem_cons_self
  have hids : ∀ a ∈ (turn smooth twoDongles).snapshot.elems,
      ∀ b ∈ (turn smooth twoDongles).snapshot.elems, notifId a = notifId b → a = b := by decide
  rw [List.map_singleton, List.isChain_pair, Set.empty_union]
  exact fun a ha b hb hab => hids a ha b hb hab

end DragonQ6A.Adapter
