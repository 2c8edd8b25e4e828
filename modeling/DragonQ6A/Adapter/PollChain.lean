import Mathlib.Data.List.Count
import DragonQ6A.Adapter.Specs

/-!
# The poll chain

The main thread runs `onStartCommand` and the worker thread runs the messages of the handler, call
by call and interleaved in any order, over one message queue.  A poll posts the next one as its last
call, so it hands the chain on; a plain start command removes the queued polls and posts a new one,
which does not reach a poll that is running.
-/

open Calls Java Relation

namespace DragonQ6A.Adapter

/-! ## The two threads -/

/-- What is left to run of a program: nothing once it has returned. -/
def residual : Prog Unit → Option (Prog Unit)
  | .pure _ => none
  | p => some p

/-- The two threads: the `onStartCommand` and the message that are being run, if any. -/
structure Threads where
  device : Device
  main : Option (Prog Unit)
  worker : Option (Message × Prog Unit)

/-- A step of the worker thread. -/
inductive Work : Device → Option (Message × Prog Unit) → Device → Option (Message × Prog Unit) →
    Prop
  /-- `Looper.loop` takes the first message that is due -/
  | dequeue {d : Device} {due : ℕ} {m : Message} {rest : List (ℕ × Message)} :
      d.queue = (due, m) :: rest → due ≤ d.now →
      Work d none { d with queue := rest } ((residual m.run).map fun p => (m, p))
  | call {d : Device} {m : Message} {o : Op} {k : Option o.Ret → Prog Unit} {r : o.Ret} :
      o.Answers d r →
      Work d (some (m, .call o k)) (o.effect d) ((residual (k (some r))).map fun p => (m, p))
  | throw {d : Device} {m : Message} {o : Op} {k : Option o.Ret → Prog Unit} :
      o.isFramework = true →
      Work d (some (m, .call o k)) d ((residual (k none)).map fun p => (m, p))

/-- The worker thread is running a poll. -/
def polling : Option (Message × Prog Unit) → Bool
  | some (.mPoll, _) => true
  | _ => false

/-- The call `removeCallbacks(mPoll)`. -/
def Op.removesPolls : Op → Bool
  | removeCallbacks .mPoll => true
  | _ => false

theorem removesPolls_post (m : Message) : (Op.post m).removesPolls = false := rfl

/-- A step of the device.  A `removeCallbacks(mPoll)` is labelled with whether the worker thread was
running a poll at that instant. -/
inductive Step : Threads → Option Bool → Threads → Prop
  | env {d d' : Device} {main : Option (Prog Unit)} {worker : Option (Message × Prog Unit)} :
      Env d d' → d'.queue = d.queue → Step ⟨d, main, worker⟩ none ⟨d', main, worker⟩
  | start {d : Device} {worker : Option (Message × Prog Unit)} (intent : Option Intent) :
      Step ⟨d, none, worker⟩ none ⟨d, some (onStartCommand intent), worker⟩
  | main {d : Device} {worker : Option (Message × Prog Unit)} {o : Op}
      {k : Option o.Ret → Prog Unit} {r : o.Ret} : o.Answers d r →
      Step ⟨d, some (.call o k), worker⟩ (if o.removesPolls then some (polling worker) else none)
        ⟨o.effect d, residual (k (some r)), worker⟩
  | work {d d' : Device} {main : Option (Prog Unit)} {w w' : Option (Message × Prog Unit)} :
      Work d w d' w' → Step ⟨d, main, w⟩ none ⟨d', main, w'⟩

/-- The runs from an empty queue, with the labels of the plain start commands so far. -/
inductive ThreadRun : Threads → List Bool → Prop
  | init {d : Device} : d.queue = [] → ThreadRun ⟨d, none, none⟩ []
  | step {s s' : Threads} {starts : List Bool} {l : Option Bool} :
      ThreadRun s starts → Step s l s' → ThreadRun s' (starts ++ l.toList)

/-- The queued polls. -/
def queued (d : Device) : ℕ := d.queue.countP (·.2 = .mPoll)

/-- The polls queued and in progress. -/
def Threads.polls (s : Threads) : ℕ := queued s.device + (polling s.worker).toNat

/-! ## The queue operations -/

theorem queued_enqueue (d : Device) (due : ℕ) (m : Message) :
    queued (d.enqueueMessage due m) = queued d + if m = .mPoll then 1 else 0 := by
  unfold queued Device.enqueueMessage
  conv_rhs => rw [← List.takeWhile_append_dropWhile (p := (·.1 ≤ due)) (l := d.queue)]
  rw [List.countP_append, List.countP_cons, List.countP_append, ← Nat.add_assoc]
  simp

theorem queued_removeCallbacks (d : Device) :
    queued (Op.effect d (.removeCallbacks .mPoll)) = 0 := by
  simp [queued, Op.effect, List.countP_filter]

/-- The calls that leave the message queue alone. -/
def Op.keepsQueue : Op → Prop
  | removeCallbacks _ | post _ | postDelayed _ _ => False
  | _ => True

theorem Op.keepsQueue.queued_eq {o : Op} (h : o.keepsQueue) (d : Device) :
    queued (o.effect d) = queued d := by
  have hqueue : (o.effect d).queue = d.queue := by
    cases o with
    | removeCallbacks m => exact h.elim
    | post m => exact h.elim
    | postDelayed m ms => exact h.elim
    | setWifiEnabled on => rw [Op.effect, d.setWifiEnabled_eq]
    | getBroadcast code intent upd => rw [Op.effect, d.getBroadcast_eq]
    | _ => rfl
  unfold queued
  rw [hqueue]

theorem Op.keepsQueue.removesPolls {o : Op} (h : o.keepsQueue) : o.removesPolls = false := by
  cases o <;> first | rfl | exact h.elim

/-! ## What the messages do to the queue -/

/-- Whatever happens, the program posts the next poll with its very last call, and makes no other
change to the queue. -/
def Reposts : Prog Unit → Prop
  | .pure _ => False
  | .throw => False
  | .call o k => (o = .postDelayed .mPoll POLL_MS ∧ ∀ r, k (some r) = .pure ()) ∨
      (o.keepsQueue ∧ ∀ r, Reposts (k r))

theorem reposts_tryFinally {p : Prog Unit} (hp : p.AllCalls Op.keepsQueue) :
    Reposts ((p.tryCatch (pure ())).tryFinally (call (.postDelayed .mPoll POLL_MS))) := by
  induction p with
  | pure a => exact Or.inl ⟨rfl, fun _ => rfl⟩
  | throw => exact Or.inl ⟨rfl, fun _ => rfl⟩
  | call o k ih => exact Or.inr ⟨hp.1, fun r => ih r (hp.2 r)⟩

theorem Op.scans.keepsQueue {o : Op} (h : o.scans) : o.keepsQueue := by
  cases o <;> trivial

theorem Op.notifies.keepsQueue {o : Op} (h : o.notifies) : o.keepsQueue := by
  cases o <;> trivial

theorem Op.reverts.keepsQueue {o : Op} (h : o.reverts) : o.keepsQueue := by
  cases o <;> trivial

theorem Op.rebinds.keepsQueue {o : Op} (h : o.rebinds) : o.keepsQueue := by
  cases o <;> trivial

theorem reposts_mPoll : Reposts mPoll := by
  refine reposts_tryFinally ?_
  refine (findDongleIfaces_safe.calls.mono fun _ h => h.keepsQueue).bind fun D => ?_
  refine ((updateNotifications_safe D).calls.mono fun _ h => h.keepsQueue).bind fun _ => ?_
  exact maybeRevertStaleInterface_safe.calls.mono fun _ h => h.keepsQueue

theorem switchStaTo_keepsQueue (iface : Option String) :
    (switchStaTo iface).AllCalls Op.keepsQueue := by
  cases iface with
  | none => trivial
  | some iface =>
    by_cases hne : iface = ""
    · subst hne
      trivial
    · rw [switchStaTo_eq hne]
      exact (safe_call trivial).calls.bind fun _ =>
        (rebind_safe iface).calls.mono fun _ h => h.keepsQueue

/-- What a message being run does to the queue from here on. -/
def WorkerOk : Option (Message × Prog Unit) → Prop
  | none => True
  | some (.mPoll, p) => Reposts p
  | some (.switchStaTo _, p) => p.AllCalls Op.keepsQueue

theorem workerOk_run (m : Message) : WorkerOk (some (m, m.run)) := by
  cases m with
  | mPoll => exact reposts_mPoll
  | switchStaTo iface => exact switchStaTo_keepsQueue iface

theorem polling_some (m : Message) (p : Prog Unit) :
    (polling (some (m, p))).toNat = if m = .mPoll then 1 else 0 := by
  cases m <;> rfl

/-- A poll is not over before its last call. -/
theorem WorkerOk.residual {m : Message} {p : Prog Unit} (h : WorkerOk (some (m, p))) :
    WorkerOk ((residual p).map fun p => (m, p)) ∧
      polling ((residual p).map fun p => (m, p)) = polling (some (m, p)) := by
  cases p with
  | pure a =>
    cases m with
    | mPoll => exact h.elim
    | switchStaTo iface => exact ⟨trivial, rfl⟩
  | throw => exact ⟨h, rfl⟩
  | call o k => exact ⟨h, rfl⟩

/-- The call a message comes to next: the last one of a poll, or one that leaves the queue alone. -/
theorem WorkerOk.call {m : Message} {o : Op} {k : Option o.Ret → Prog Unit}
    (h : WorkerOk (some (m, .call o k))) :
    (m = .mPoll ∧ o = .postDelayed .mPoll POLL_MS ∧ ∀ r, k (some r) = .pure ()) ∨
      (o.keepsQueue ∧ ∀ r, WorkerOk (some (m, k r))) := by
  cases m with
  | mPoll =>
    rcases h with hlast | hrest
    · exact Or.inl ⟨rfl, hlast⟩
    · exact Or.inr hrest
  | switchStaTo iface => exact Or.inr h

/-- The worker thread hands the polls on: it neither drops nor adds one. -/
theorem Work.polls_eq {d d' : Device} {w w' : Option (Message × Prog Unit)} (h : Work d w d' w')
    (hw : WorkerOk w) :
    WorkerOk w' ∧ queued d' + (polling w').toNat = queued d + (polling w).toNat := by
  cases h with
  | @dequeue due m rest hq _ =>
    obtain ⟨hok, hpolling⟩ := (workerOk_run m).residual
    refine ⟨hok, ?_⟩
    rw [hpolling, polling_some]
    show queued { d with queue := rest } + _ = queued d
    unfold queued
    rw [hq, List.countP_cons]
    simp
  | @call m o k r _ =>
    rcases hw.call with ⟨rfl, rfl, hend⟩ | ⟨ho, hrest⟩
    · -- the poll posts the next one and is over
      rw [hend]
      refine ⟨trivial, ?_⟩
      show queued (d.enqueueMessage _ .mPoll) + 0 = queued d + 1
      rw [queued_enqueue]
      rfl
    · obtain ⟨hok, hpolling⟩ := (hrest (some r)).residual
      refine ⟨hok, ?_⟩
      rw [hpolling, polling_some, polling_some, ho.queued_eq]
  | @throw m o k ho =>
    rcases hw.call with ⟨rfl, rfl, -⟩ | ⟨-, hrest⟩
    · cases ho
    · obtain ⟨hok, hpolling⟩ := (hrest none).residual
      refine ⟨hok, ?_⟩
      rw [hpolling, polling_some, polling_some]

/-! ## The chains -/

/-- The chains the plain start commands of a run leave: one, or two when the last of them came while
a poll was running. -/
def chains (starts : List Bool) : ℕ := (starts.getLast?.map fun b => 1 + b.toNat).getD 0

theorem chains_concat (starts : List Bool) (b : Bool) : chains (starts ++ [b]) = 1 + b.toNat := by
  simp [chains]

/-- The invariant of a run: between its two calls a plain start command has taken the polls off the
queue and still owes one. -/
def ChainInv (s : Threads) (starts : List Bool) : Prop :=
  WorkerOk s.worker ∧
    (((s.main = none ∨ ∃ intent, s.main = some (onStartCommand intent)) ∧
        s.polls = chains starts) ∨
      (s.main = some (call (.post .mPoll)) ∧ s.polls + 1 = chains starts))

theorem onStartCommand_cases (intent : Option Intent) :
    (∃ iface, onStartCommand intent = call (.post (.switchStaTo iface))) ∨
      onStartCommand intent =
        (call (.removeCallbacks .mPoll)).bind fun _ => call (.post .mPoll) := by
  cases intent with
  | none => exact Or.inr rfl
  | some i =>
    by_cases ha : i.action = some ACTION_SWITCH
    · exact Or.inl ⟨i.extraIface, if_pos ha⟩
    · exact Or.inr (if_neg ha)

/-- A call of the main thread keeps the invariant. -/
theorem ChainInv.main {d : Device} {w : Option (Message × Prog Unit)} {o : Op}
    {k : Option o.Ret → Prog Unit} {r : o.Ret} {starts : List Bool}
    (h : ChainInv ⟨d, some (.call o k), w⟩ starts) :
    ChainInv ⟨o.effect d, residual (k (some r)), w⟩
      (starts ++ (if o.removesPolls then some (polling w) else none).toList) := by
  obtain ⟨hw, ⟨hmain, hpolls⟩ | ⟨hmain, hpolls⟩⟩ := h
  · rcases hmain with hmain | ⟨intent, hmain⟩
    · cases hmain
    replace hmain := Option.some.inj hmain
    rcases onStartCommand_cases intent with ⟨iface, hstart⟩ | hstart
    · -- a switch is posted: no poll, no label
      rw [hstart] at hmain
      cases hmain
      refine ⟨hw, Or.inl ⟨Or.inl rfl, ?_⟩⟩
      rw [removesPolls_post, if_neg Bool.false_ne_true, Option.toList_none, List.append_nil,
        ← hpolls]
      show queued (d.enqueueMessage _ _) + _ = queued d + _
      rw [queued_enqueue, if_neg (by simp), Nat.add_zero]
    · -- the queued polls are removed, a running one is not
      rw [hstart] at hmain
      cases hmain
      refine ⟨hw, Or.inr ⟨rfl, ?_⟩⟩
      rw [Op.removesPolls, if_pos rfl, Option.toList_some, chains_concat]
      show queued (Op.effect d (.removeCallbacks .mPoll)) + (polling w).toNat + 1 = _
      rw [queued_removeCallbacks]
      omega
  · replace hmain := Option.some.inj hmain
    cases hmain
    refine ⟨hw, Or.inl ⟨Or.inl rfl, ?_⟩⟩
    rw [removesPolls_post, if_neg Bool.false_ne_true, Option.toList_none, List.append_nil,
      ← hpolls]
    show queued (d.enqueueMessage _ _) + (polling w).toNat = queued d + (polling w).toNat + 1
    rw [queued_enqueue, if_pos rfl]
    omega

theorem ChainInv.step {s s' : Threads} {starts : List Bool} {l : Option Bool}
    (h : ChainInv s starts) (hs : Step s l s') : ChainInv s' (starts ++ l.toList) := by
  cases hs with
  | env _ hqueue =>
    obtain ⟨hw, hmain⟩ := h
    refine ⟨hw, ?_⟩
    rw [Option.toList_none, List.append_nil]
    simpa [Threads.polls, queued, hqueue] using hmain
  | start intent =>
    obtain ⟨hw, ⟨-, hpolls⟩ | ⟨hmain, -⟩⟩ := h
    · refine ⟨hw, Or.inl ⟨Or.inr ⟨intent, rfl⟩, ?_⟩⟩
      rw [Option.toList_none, List.append_nil]
      exact hpolls
    · cases hmain
  | main _ => exact h.main
  | work hwork =>
    obtain ⟨hw, hmain⟩ := h
    obtain ⟨hw', hpolls⟩ := hwork.polls_eq hw
    refine ⟨hw', ?_⟩
    rw [Option.toList_none, List.append_nil]
    simpa only [Threads.polls, hpolls] using hmain

theorem ThreadRun.chainInv {s : Threads} {starts : List Bool} (h : ThreadRun s starts) :
    ChainInv s starts := by
  induction h with
  | init hqueue =>
    refine ⟨trivial, Or.inl ⟨Or.inl rfl, ?_⟩⟩
    simp [Threads.polls, queued, hqueue, polling, chains]
  | step _ hs ih => exact ih.step hs

/-- Once the first plain start command has returned, and whenever none is half-way through, there is
exactly one poll queued or in progress if and only if no poll was running when the last plain start
command removed the queued ones. -/
theorem ThreadRun.polls_eq_one_iff {s : Threads} {starts : List Bool} (h : ThreadRun s starts)
    (hidle : s.main = none) (hfirst : starts ≠ []) :
    s.polls = 1 ↔ starts.getLast? = some false := by
  obtain ⟨-, ⟨-, hpolls⟩ | ⟨hmain, -⟩⟩ := h.chainInv
  · obtain ⟨starts, b, rfl⟩ := List.eq_nil_or_concat' starts |>.resolve_left hfirst
    rw [hpolls, chains_concat, List.getLast?_concat]
    cases b <;> simp
  · rw [hidle] at hmain
    cases hmain

/-! ## A start command during a poll -/

/-- The first poll of a booted device has begun. -/
def firstPoll : Threads := ⟨Device.boot, none, (residual mPoll).map fun p => (.mPoll, p)⟩

/-- A start command, from where its two calls are left to where it returns. -/
theorem ThreadRun.startCommand {d : Device} {w : Option (Message × Prog Unit)}
    {starts : List Bool} (h : ThreadRun ⟨d, none, w⟩ starts) :
    ThreadRun ⟨(Op.effect (Op.effect d (.removeCallbacks .mPoll)) (.post .mPoll)), none, w⟩
      (starts ++ [polling w]) := by
  have hstarted : ThreadRun ⟨d, some (onStartCommand none), w⟩ (starts ++ []) :=
    h.step (Step.start none)
  rw [List.append_nil] at hstarted
  have hremoved : ThreadRun ⟨Op.effect d (.removeCallbacks .mPoll), some (call (.post .mPoll)), w⟩
      (starts ++ [polling w]) := hstarted.step (Step.main (r := ()) trivial)
  have hposted : ThreadRun ⟨Op.effect (Op.effect d (.removeCallbacks .mPoll)) (.post .mPoll), none,
      w⟩ (starts ++ [polling w] ++ []) := hremoved.step (Step.main (r := ()) trivial)
  rwa [List.append_nil] at hposted

theorem firstPoll_run : ThreadRun firstPoll [false] := by
  have hstart : ThreadRun ⟨Device.boot, none, none⟩ [] := ThreadRun.init rfl
  have hqueue : (Op.effect (Op.effect Device.boot (.removeCallbacks .mPoll)) (.post .mPoll)).queue =
      (0, .mPoll) :: [] := rfl
  exact hstart.startCommand.step (Step.work (Work.dequeue hqueue (Nat.le_refl 0)))

/-- A second start command during the first poll leaves two chains. -/
theorem not_forall_polls_eq_one : ¬ ∀ (s : Threads) (starts : List Bool), ThreadRun s starts →
    s.main = none → starts ≠ [] → s.polls = 1 := by
  intro hall
  have := hall _ _ firstPoll_run.startCommand rfl (by simp)
  exact absurd this (by decide)

/-- A start command on an idle worker thread leaves one. -/
theorem polls_eq_one_iff_firstPoll : firstPoll.polls = 1 :=
  (ThreadRun.polls_eq_one_iff firstPoll_run rfl (by simp)).2 rfl

end DragonQ6A.Adapter
