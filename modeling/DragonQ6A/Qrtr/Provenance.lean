import DragonQ6A.Qrtr.Turns

/-!
# Where the servers and lookups come from

In every run, whatever the memory and the sends answer: each server listed was announced by its own
node, each lookup was asked for by its own socket, and what a node or a socket has listed does not
depend on the packets of others.
-/

open Calls Probe

namespace DragonQ6A.Qrtr

open Context

variable {ctx ctx' : Context} {d : Datagram} {rc : Int} {out : List (Sq × List UInt8)}

/-! ## Where servers come from -/

theorem mem_entries_clearLoop {n : ℕ} {me : Option ℕ} {m : Map Server} {e : UInt32 × Server}
    (h : e ∈ (clearLoop n me m).2.entries) : e ∈ m.entries := by
  induction n generalizing me m with
  | zero =>
    rw [clearLoop] at h
    · exact h
    · simp
  | succ n ih =>
    cases me with
    | none =>
      rw [clearLoop] at h
      · exact h
      · simp
    | some me =>
      unfold clearLoop at h
      split at h
      · exact RawMap.mem_entries_remove (ih h)
      · exact h

/-- The packet registers a server on `node`. -/
structure Datagram.Registers (localNode : UInt32) (d : Datagram) (node : UInt32) : Prop where
  len : 4 ≤ d.len
  cmd : d.msg.cmd = QRTR_TYPE_NEW_SERVER
  src : d.src.node = node
  claim : node ≠ localNode → d.msg.node = node
  service : d.msg.service ≠ 0
  port : d.port localNode ≠ 0

/-- After a turn a node has the servers it had, or the one its packet registers. -/
theorem Effect.entries (h : Effect ctx d rc out ctx') {node : UInt32} {e : UInt32 × Server}
    (he : e ∈ (ctx'.services node).entries) : e ∈ (ctx.services node).entries ∨
      (d.Registers ctx.localNode node ∧ rc ≠ -EINVAL ∧
        e = (hashU32 (d.port ctx.localNode), d.server ctx.localNode)) := by
  have hupdate : ∀ {S : UInt32 → Map Server} {n : UInt32} {m : Map Server} {L : List Lookup},
      S = Function.update ctx.services n m → Becomes ctx S L ctx' →
      (n = node ∧ e ∈ m.entries) ∨ e ∈ (ctx.services node).entries := by
    intro S n m L hS hbec
    rw [hbec.services, hS] at he
    by_cases hn : node = n
    · rw [hn, Function.update_self] at he
      exact Or.inl ⟨hn.symm, he⟩
    · rw [Function.update_of_ne hn] at he
      exact Or.inr he
  cases h with
  | closed _ => exact Or.inl he
  | ignored _ _ => exact Or.inl he
  | refused _ _ hbec => exact Or.inl (hbec.services ▸ he)
  | hello _ _ _ _ hbec => exact Or.inl (hbec.services ▸ he)
  | noNode _ _ _ hbec => exact Or.inl (hbec.services ▸ he)
  | bye _ _ hS hbec =>
    rcases hupdate hS hbec with ⟨rfl, he'⟩ | he'
    · exact Or.inl (mem_entries_clearLoop he')
    · exact Or.inl he'
  | delClient _ _ _ _ hS _ hbec =>
    rcases hupdate hS hbec with ⟨rfl, he'⟩ | he'
    · exact Or.inl (RawMap.mem_entries_remove he')
    · exact Or.inl he'
  | @newServer _ _ mem _ m hlen hcmd hrc hclaim hservice hport hput hbec =>
    rcases hupdate rfl hbec with ⟨rfl, he'⟩ | he'
    · have hm : m = ((ctx.services d.src.node).reput mem (hashU32 (d.port ctx.localNode))
          (d.server ctx.localNode)).2.2 := by rw [hput]
      rw [hm] at he'
      rcases Map.mem_entries_reput he' with he' | he'
      · exact Or.inr ⟨⟨hlen, hcmd, rfl, fun hn => (hclaim hn).symm, hservice, hport⟩,
          ne_einval_of_neg_one_le hrc, he'⟩
      · exact Or.inl he'
    · exact Or.inl he'
  | delServer _ _ _ _ hbec =>
    rcases hupdate rfl hbec with ⟨rfl, he'⟩ | he'
    · exact Or.inl (RawMap.mem_entries_remove he')
    · exact Or.inl he'
  | newLookup _ _ _ _ hbec => exact Or.inl (hbec.services ▸ he)
  | delLookup _ _ hbec => exact Or.inl (hbec.services ▸ he)

/-- After a turn there are the lookups there were, or the one its packet asks for. -/
theorem Effect.lookups (h : Effect ctx d rc out ctx') {l : Lookup} (hl : l ∈ ctx'.lookups) :
    l ∈ ctx.lookups ∨ (4 ≤ d.len ∧ d.msg.cmd = QRTR_TYPE_NEW_LOOKUP ∧
      d.src.node = ctx.localNode ∧ l = ⟨d.msg.service, d.msg.inst, d.src⟩) := by
  cases h with
  | closed _ => exact Or.inl hl
  | ignored _ _ => exact Or.inl hl
  | refused _ _ hbec => exact Or.inl (hbec.lookups ▸ hl)
  | hello _ _ _ _ hbec => exact Or.inl (hbec.lookups ▸ hl)
  | noNode _ _ _ hbec => exact Or.inl (hbec.lookups ▸ hl)
  | bye _ _ _ hbec => exact Or.inl (hbec.lookups ▸ hl)
  | delClient _ _ _ _ _ hL hbec =>
    rw [hbec.lookups, hL] at hl
    exact Or.inl (List.mem_of_mem_filter hl)
  | newServer _ _ _ _ _ _ _ hbec => exact Or.inl (hbec.lookups ▸ hl)
  | delServer _ _ _ _ hbec => exact Or.inl (hbec.lookups ▸ hl)
  | newLookup hlen hcmd hsrc hl' hbec =>
    rw [hbec.lookups, List.mem_append, List.mem_singleton] at hl
    rcases hl with hl | hl
    · exact Or.inl hl
    · exact Or.inr ⟨hlen, hcmd, hsrc, hl.trans hl'⟩
  | delLookup _ _ hbec =>
    rw [hbec.lookups] at hl
    exact Or.inl (List.mem_of_mem_filter hl)

/-- Only local sockets have lookups. -/
theorem Loop.lookups_local {localNode : UInt32} {ts : List Turn}
    (h : Loop (.start localNode) ts ctx) : ∀ l ∈ ctx.lookups, l.sq.node = ctx.localNode := by
  refine h.induct (ok_start localNode)
    (P := fun _ ctx => ∀ l ∈ ctx.lookups, l.sq.node = ctx.localNode) (fun l hl => by cases hl) ?_
  intro ts ctx ctx' d calls rc hok _ ih heff l hl
  rw [(heff.keeps hok).2]
  rcases heff.lookups hl with hl | ⟨-, -, hsrc, rfl⟩
  · exact ih l hl
  · exact hsrc

/-- Every server listed was announced by its own node: a local one by the socket it runs on, a
remote one under the node it comes from.  Every lookup was asked for by its local socket. -/
theorem Loop.provenance {localNode : UInt32} {ts : List Turn}
    (h : Loop (.start localNode) ts ctx) :
    (∀ node, ∀ e ∈ (ctx.services node).entries, ∃ t ∈ ts, t.d.Registers localNode node ∧
      t.rc ≠ -EINVAL ∧ e = (hashU32 (t.d.port localNode), t.d.server localNode)) ∧
    ∀ l ∈ ctx.lookups, ∃ t ∈ ts, 4 ≤ t.d.len ∧ t.d.msg.cmd = QRTR_TYPE_NEW_LOOKUP ∧
      t.d.src.node = localNode ∧ l = ⟨t.d.msg.service, t.d.msg.inst, t.d.src⟩ := by
  refine h.induct (ok_start localNode) (P := fun ts ctx =>
    (∀ node, ∀ e ∈ (ctx.services node).entries, ∃ t ∈ ts, t.d.Registers localNode node ∧
      t.rc ≠ -EINVAL ∧ e = (hashU32 (t.d.port localNode), t.d.server localNode)) ∧
    ∀ l ∈ ctx.lookups, ∃ t ∈ ts, 4 ≤ t.d.len ∧ t.d.msg.cmd = QRTR_TYPE_NEW_LOOKUP ∧
      t.d.src.node = localNode ∧ l = ⟨t.d.msg.service, t.d.msg.inst, t.d.src⟩) ?_ ?_
  · refine ⟨fun node e he => ?_, fun l hl => by cases hl⟩
    rw [services_start] at he
    cases he
  · rintro ts ctx ctx' d calls rc - hlocal ⟨hservers, hlookups⟩ heff
    rw [show (Context.start localNode).localNode = localNode from rfl] at hlocal
    refine ⟨fun node e he => ?_, fun l hl => ?_⟩
    · rcases heff.entries he with he | hnew
      · obtain ⟨t, ht, hreg⟩ := hservers node e he
        exact ⟨t, List.mem_append_left _ ht, hreg⟩
      · rw [hlocal] at hnew
        exact ⟨_, List.mem_append_right _ List.mem_cons_self, hnew⟩
    · rcases heff.lookups hl with hl | hnew
      · obtain ⟨t, ht, hask⟩ := hlookups l hl
        exact ⟨t, List.mem_append_left _ ht, hask⟩
      · rw [hlocal] at hnew
        exact ⟨_, List.mem_append_right _ List.mem_cons_self, hnew⟩

/-- On node 2 a server is published, a client looks it up, and node 1 says hello. -/
def published : List Datagram :=
  [.ofBytes ⟨2, 9⟩ (qrtrNewServer 4097 1 2).bytes, .ofBytes ⟨2, 8⟩ (qrtrNewLookup 4097 0 0).bytes,
    .ofBytes ⟨1, QRTR_PORT_CTRL⟩ (CtrlPkt.bytes ⟨QRTR_TYPE_HELLO, 0, 0, 0, 0⟩)]

def publishedRun : List Turn × Context := turnsOf (.start 2) published

theorem loop_published : Loop (.start 2) publishedRun.1 publishedRun.2 := loop_turnsOf _ _

theorem provenance_published : (publishedRun.2.services 2).entries.length = 1 ∧
    ∀ e ∈ (publishedRun.2.services 2).entries, ∃ t ∈ publishedRun.1, t.d.Registers 2 2 := by
  refine ⟨by decide +kernel, fun e he => ?_⟩
  obtain ⟨t, ht, hreg, -⟩ := loop_published.provenance.1 2 e he
  exact ⟨t, ht, hreg⟩

/-! ## What the packets of others cannot do -/

theorem Effect.services_of_ne (h : Effect ctx d rc out ctx') {node : UInt32}
    (hn : d.src.node ≠ node) : ctx'.services node = ctx.services node := by
  cases h with
  | closed _ => rfl
  | ignored _ _ => rfl
  | refused _ _ hbec => rw [hbec.services]
  | hello _ _ _ _ hbec => rw [hbec.services]
  | noNode _ _ _ hbec => rw [hbec.services]
  | bye _ _ hS hbec => rw [hbec.services, hS, Function.update_of_ne hn.symm]
  | delClient _ _ _ _ hS _ hbec => rw [hbec.services, hS, Function.update_of_ne hn.symm]
  | newServer _ _ _ _ _ _ _ hbec => rw [hbec.services, Function.update_of_ne hn.symm]
  | delServer _ _ _ _ hbec => rw [hbec.services, Function.update_of_ne hn.symm]
  | newLookup _ _ _ _ hbec => rw [hbec.services]
  | delLookup _ _ hbec => rw [hbec.services]

/-- The lookups of a local socket change only by its own packets. -/
theorem Effect.lookups_of_ne (h : Effect ctx d rc out ctx') {q : Sq} (hq : q.node = ctx.localNode)
    (hsrc : d.src ≠ q) :
    ctx'.lookups.filter (fun l => l.sq = q) = ctx.lookups.filter fun l => l.sq = q := by
  have hfilter : ∀ p : Lookup → Bool, (∀ l, l.sq = q → p l = true) →
      (ctx.lookups.filter p).filter (fun l => l.sq = q) =
        ctx.lookups.filter fun l => l.sq = q := by
    intro p hp
    rw [List.filter_filter]
    apply List.filter_congr
    intro l _
    by_cases hl : l.sq = q
    · simp [hl, hp l hl]
    · simp [hl]
  cases h with
  | closed _ => rfl
  | ignored _ _ => rfl
  | refused _ _ hbec => rw [hbec.lookups]
  | hello _ _ _ _ hbec => rw [hbec.lookups]
  | noNode _ _ _ hbec => rw [hbec.lookups]
  | bye _ _ _ hbec => rw [hbec.lookups]
  | delClient _ _ _ hown _ hL hbec =>
    rw [hbec.lookups, hL]
    refine hfilter _ fun l hl => decide_eq_true fun heq => hsrc ?_
    have hnode : d.src.node = q.node := by rw [← hl, heq]
    have hport := hown (hnode.trans hq)
    rw [← hl, heq, ← hport]
  | newServer _ _ _ _ _ _ _ hbec => rw [hbec.lookups]
  | delServer _ _ _ _ hbec => rw [hbec.lookups]
  | newLookup _ _ _ hl' hbec =>
    rw [hbec.lookups, hl', List.filter_append]
    simp [hsrc]
  | delLookup _ _ hbec =>
    rw [hbec.lookups]
    refine hfilter _ fun l hl => decide_eq_true ?_
    rw [hl]
    exact fun heq => hsrc heq.1.symm

/-- In any run, what a node has listed is as it was if no packet came from that node, slot for slot,
and so are the lookups of a local socket if no packet came from that socket. -/
theorem Loop.isolation {ctx₀ : Context} {ts : List Turn} (h : Loop ctx₀ ts ctx) (hok : ctx₀.Ok) :
    (∀ node, (∀ t ∈ ts, t.d.src.node ≠ node) → ctx.services node = ctx₀.services node) ∧
      ∀ q : Sq, q.node = ctx₀.localNode → (∀ t ∈ ts, t.d.src ≠ q) →
        ctx.lookups.filter (fun l => l.sq = q) = ctx₀.lookups.filter fun l => l.sq = q := by
  refine h.induct hok (P := fun ts ctx =>
    (∀ node, (∀ t ∈ ts, t.d.src.node ≠ node) → ctx.services node = ctx₀.services node) ∧
      ∀ q : Sq, q.node = ctx₀.localNode → (∀ t ∈ ts, t.d.src ≠ q) →
        ctx.lookups.filter (fun l => l.sq = q) = ctx₀.lookups.filter fun l => l.sq = q)
    ⟨fun _ _ => rfl, fun _ _ _ => rfl⟩ ?_
  rintro ts ctx ctx' d calls rc - hlocal ⟨hservices, hlookups⟩ heff
  refine ⟨fun node hts => ?_, fun q hq hts => ?_⟩
  · rw [List.forall_mem_append, List.forall_mem_singleton] at hts
    exact (heff.services_of_ne hts.2).trans (hservices node hts.1)
  · rw [List.forall_mem_append, List.forall_mem_singleton] at hts
    exact (heff.lookups_of_ne (hq.trans hlocal.symm) hts.2).trans (hlookups q hq hts.1)

/-- From node 3, a goodbye in the name of node 2 and the withdrawal of its server. -/
def intrusion : List Datagram :=
  [.ofBytes ⟨3, QRTR_PORT_CTRL⟩ (CtrlPkt.bytes ⟨QRTR_TYPE_BYE, 2, 0, 0, 0⟩),
    .ofBytes ⟨3, 9⟩ (CtrlPkt.bytes ⟨QRTR_TYPE_DEL_SERVER, 4097, 513, 2, 9⟩)]

def intrudedRun : List Turn × Context := turnsOf publishedRun.2 intrusion

theorem loop_intruded : Loop publishedRun.2 intrudedRun.1 intrudedRun.2 := loop_turnsOf _ _

theorem others_intruded : intrudedRun.1.length = 2 ∧ ∀ t ∈ intrudedRun.1, t.d.src.node ≠ 2 := by
  decide +kernel

theorem isolation_intruded : intrudedRun.2.services 2 = publishedRun.2.services 2 := by
  have hok := (loop_published.keeps (ok_start 2)).1
  exact (loop_intruded.isolation hok).1 2 others_intruded.2

end DragonQ6A.Qrtr
