import DragonQ6A.Qrtr.Provenance

/-!
# The registry

What the name server is for: a registry of servers by node and port, changed by the packets it does
not refuse.  The maps of the name server hold the registry in every state of a run if and only if
the run never puts a server under a key that stands behind a tombstone (`Loop.holds_iff`).
-/

open Calls Probe

namespace DragonQ6A.Qrtr

open Context

/-! ## Emptying a map -/

/-- Every server is under the hash of its port. -/
def Filed (m : Map Server) : Prop := ∀ e ∈ m.entries, e.1 = hashU32 e.2.port

theorem RawMap.is_of_entries_nil {α : Type} {m : RawMap α} {f : UInt32 → Option α} (h : m.Is f)
    (hnil : m.entries = []) : m.Is fun _ => none := by
  have hf : f = fun _ => none := by
    funext key
    rw [Option.eq_none_iff_forall_ne_some]
    intro a ha
    rw [← h.mem_entries, hnil] at ha
    cases ha
  exact hf ▸ h

/-- The loop of `ctrl_cmd_bye` from slot `i` on, over a map that is a finite map. -/
theorem clearLoop_eq {m : Map Server} {f : UInt32 → Option Server} (h : m.Is f) (hfiled : Filed m)
    (d : ℕ) {n i : ℕ} (hd : m.size - i = d) (hn : d ≤ n) :
    (clearLoop n (m.iterFrom i) m).1 = (live (m.data.drop i)).map Prod.snd ∧
      (clearLoop n (m.iterFrom i) m).2.entries = live (m.data.take i) ∧
      ∃ f', (clearLoop n (m.iterFrom i) m).2.Is f' := by
  induction d generalizing m f n i with
  | zero =>
    have hi : m.data.length ≤ i := by
      have := hd
      unfold RawMap.size at this
      omega
    have hnone : clearLoop n (m.iterFrom i) m = ([], m) := by
      rw [RawMap.iterFrom_of_le hi]
      cases n <;> rfl
    rw [hnone, List.drop_eq_nil_of_le hi, List.take_of_length_le hi]
    exact ⟨rfl, rfl, f, h⟩
  | succ d ih =>
    have hi : i < m.data.length := by
      have := hd
      unfold RawMap.size at this
      omega
    rw [List.drop_eq_getElem_cons hi, live_cons, List.map_append]
    cases hs : Slot.entry m.data[i] with
    | none =>
      rw [RawMap.iterFrom_of_entry_none hi hs]
      obtain ⟨hout, hentries, his⟩ := ih h hfiled (n := n) (i := i + 1) (by omega) (by omega)
      refine ⟨hout, ?_, his⟩
      rw [hentries, List.take_succ_eq_append_getElem hi, live_append, live_cons, hs]
      simp
    | some e =>
      obtain ⟨key, srv⟩ := e
      obtain ⟨n, rfl⟩ := Nat.exists_eq_add_one_of_ne_zero (show n ≠ 0 by omega)
      have hitem : m.data[i]? = some (.item key srv) := by
        rw [List.getElem?_eq_getElem hi, Slot.entry_eq_some.1 hs]
      obtain rfl : key = hashU32 srv.port := hfiled (key, srv) (mem_live.2 ⟨i, hitem⟩)
      have hsearch : m.find (hashU32 srv.port) = some i := by
        rw [RawMap.find_eq]
        exact h.search_item hitem
      have hget : m.get (hashU32 srv.port) = some srv := by
        rw [h.get_eq]
        exact h.mem_entries.1 (mem_live.2 ⟨i, hitem⟩)
      have hdata : (m.remove (hashU32 srv.port)).2.data = m.data.set i .deleted := by
        show (m.toRawMap.remove (hashU32 srv.port)).2.data = _
        unfold RawMap.remove
        rw [hsearch]
      have hsize : (m.remove (hashU32 srv.port)).2.size = m.size := by
        unfold RawMap.size
        rw [hdata, List.length_set]
      have hitemi : m.iterItem i = some srv := by
        rw [RawMap.iterItem, hitem]
        rfl
      obtain ⟨hout, hentries, his⟩ := ih (m := (m.remove (hashU32 srv.port)).2)
        (h.remove (hashU32 srv.port)).2
        (fun e he => hfiled e (RawMap.mem_entries_remove he)) (n := n) (i := i + 1)
        (by rw [hsize]; omega) (by omega)
      rw [RawMap.iterFrom_of_item hitem]
      unfold clearLoop
      rw [hitemi]
      dsimp only
      refine ⟨?_, ?_, his⟩
      · rw [hout, hget, hdata, List.drop_set_of_lt (by omega)]
        rfl
      · rw [hentries, hdata, List.take_succ_eq_append_getElem (by rwa [List.length_set]),
          live_append, List.take_set_of_le le_rfl, List.getElem_set_self]
        simp [live_cons]

/-- `ctrl_cmd_bye` empties a map that is a finite map, each server once. -/
theorem clearAll_eq {m : Map Server} {f : UInt32 → Option Server} (h : m.Is f) (hfiled : Filed m) :
    (clearAll m).1 = m.forEach ∧ (clearAll m).2.Is fun _ => none := by
  obtain ⟨hout, hentries, f', his⟩ := clearLoop_eq h hfiled m.size (n := m.size) (i := 0) rfl le_rfl
  refine ⟨?_, RawMap.is_of_entries_nil his hentries⟩
  rw [clearAll, hout, RawMap.forEach_eq]
  rfl

/-! ## The registry and its turns -/

/-- The servers by node and port. -/
abbrev Registry : Type := UInt32 → UInt32 → Option Server

namespace Registry

def set (R : Registry) (node port : UInt32) (srv : Option Server) : Registry :=
  Function.update R node (Function.update (R node) port srv)

/-- What a packet does to the registry, given what `ctrl_port_fn` made of it. -/
def step (localNode : UInt32) (R : Registry) (d : Datagram) (rc : Int) : Registry :=
  if d.len < 4 ∨ rc = -EINVAL then R
  else if d.msg.cmd = QRTR_TYPE_NEW_SERVER then
    R.set d.src.node (d.port localNode) (some (d.server localNode))
  else if d.msg.cmd = QRTR_TYPE_DEL_SERVER then R.set d.src.node (d.port localNode) none
  else if d.msg.cmd = QRTR_TYPE_DEL_CLIENT then R.set d.src.node d.msg.clientPort none
  else if d.msg.cmd = QRTR_TYPE_BYE then Function.update R d.src.node fun _ => none
  else R

/-- Every server is under its own node and port, and has a service. -/
def Filed (R : Registry) : Prop :=
  ∀ node port srv, R node port = some srv →
    srv.node = node ∧ srv.port = port ∧ srv.service ≠ 0 ∧ port ≠ 0

variable {R : Registry}

theorem set_apply (R : Registry) (node port : UInt32) (srv : Option Server) (n p : UInt32) :
    R.set node port srv n p = if n = node ∧ p = port then srv else R n p := by
  unfold set
  by_cases hn : n = node
  · by_cases hp : p = port
    · simp [hn, hp]
    · simp [hn, hp]
  · simp [hn]

theorem Filed.set (h : R.Filed) {node port : UInt32} {srv : Option Server}
    (hsrv : ∀ s, srv = some s → s.node = node ∧ s.port = port ∧ s.service ≠ 0 ∧ port ≠ 0) :
    (R.set node port srv).Filed := by
  intro n p s hs
  rw [set_apply] at hs
  split_ifs at hs with hnp
  · obtain ⟨rfl, rfl⟩ := hnp
    exact hsrv s hs
  · exact h n p s hs

theorem filed_empty : Filed fun _ _ => none := fun _ _ _ h => by cases h

section

variable {localNode : UInt32} {d : Datagram} {rc : Int}

theorem step_of_notMem (hcmd : d.msg.cmd ∉ [QRTR_TYPE_NEW_SERVER, QRTR_TYPE_DEL_SERVER,
    QRTR_TYPE_DEL_CLIENT, QRTR_TYPE_BYE]) : R.step localNode d rc = R := by
  simp only [List.mem_cons, List.not_mem_nil, or_false, not_or] at hcmd
  rw [step, if_neg hcmd.1, if_neg hcmd.2.1, if_neg hcmd.2.2.1, if_neg hcmd.2.2.2, ite_self]

theorem step_ignored (h : d.len < 4 ∨ d.msg.cmd ∉ [QRTR_TYPE_HELLO, QRTR_TYPE_BYE,
    QRTR_TYPE_DEL_CLIENT, QRTR_TYPE_NEW_SERVER, QRTR_TYPE_DEL_SERVER, QRTR_TYPE_NEW_LOOKUP,
    QRTR_TYPE_DEL_LOOKUP]) : R.step localNode d rc = R := by
  rcases h with hlen | hcmd
  · rw [step, if_pos (Or.inl hlen)]
  · simp only [List.mem_cons, List.not_mem_nil, or_false, not_or] at hcmd
    refine step_of_notMem ?_
    simp only [List.mem_cons, List.not_mem_nil, or_false, not_or]
    exact ⟨hcmd.2.2.2.1, hcmd.2.2.2.2.1, hcmd.2.2.1, hcmd.2.1⟩

theorem step_newServer (hlen : 4 ≤ d.len) (hcmd : d.msg.cmd = QRTR_TYPE_NEW_SERVER)
    (hrc : rc ≠ -EINVAL) : R.step localNode d rc =
      R.set d.src.node (d.port localNode) (some (d.server localNode)) := by
  rw [step, if_neg (not_or.2 ⟨not_lt.2 hlen, hrc⟩), if_pos hcmd]

theorem step_delServer (hlen : 4 ≤ d.len) (hcmd : d.msg.cmd = QRTR_TYPE_DEL_SERVER)
    (hrc : rc ≠ -EINVAL) :
    R.step localNode d rc = R.set d.src.node (d.port localNode) none := by
  rw [step, if_neg (not_or.2 ⟨not_lt.2 hlen, hrc⟩), hcmd]
  rfl

theorem step_delClient (hlen : 4 ≤ d.len) (hcmd : d.msg.cmd = QRTR_TYPE_DEL_CLIENT)
    (hrc : rc ≠ -EINVAL) :
    R.step localNode d rc = R.set d.src.node d.msg.clientPort none := by
  rw [step, if_neg (not_or.2 ⟨not_lt.2 hlen, hrc⟩), hcmd]
  rfl

theorem step_bye (hlen : 4 ≤ d.len) (hcmd : d.msg.cmd = QRTR_TYPE_BYE) (hrc : rc ≠ -EINVAL) :
    R.step localNode d rc = Function.update R d.src.node fun _ => none := by
  rw [step, if_neg (not_or.2 ⟨not_lt.2 hlen, hrc⟩), hcmd]
  rfl

end

end Registry

/-- The registry that a run makes. -/
def registry (localNode : UInt32) (ts : List Turn) : Registry :=
  ts.foldl (fun R t => R.step localNode t.d t.rc) fun _ _ => none

theorem registry_concat (localNode : UInt32) (ts : List Turn) (t : Turn) :
    registry localNode (ts ++ [t]) = (registry localNode ts).step localNode t.d t.rc :=
  List.foldl_concat ..

/-- The services of every node are the registry's, each in one slot. -/
def Context.Holds (ctx : Context) (R : Registry) : Prop :=
  ∀ node, (ctx.services node).Is fun key => R node (unhashU32 key)

/-- The turn does not put a server under a key that is buried. -/
def Turn.Unburied (t : Turn) : Prop :=
  4 ≤ t.d.len → t.d.msg.cmd = QRTR_TYPE_NEW_SERVER → t.rc ≠ -EINVAL →
    ¬ (t.before.services t.d.src.node).Buried (hashU32 (t.d.port t.before.localNode))

instance (t : Turn) : Decidable t.Unburied :=
  inferInstanceAs (Decidable (_ → _ → _ → ¬ _))

namespace Context.Holds

variable {ctx ctx' : Context} {R : Registry}

theorem get_eq (h : ctx.Holds R) (node port : UInt32) :
    (ctx.services node).get (hashU32 port) = R node port := by
  rw [(h node).get_eq, unhashU32_hashU32]

/-- A node that is created when it is asked for has no services. -/
theorem update_none (h : ctx.Holds R) {node : UInt32} (hcreate : ctx.services node = .create) :
    Function.update R node (fun _ => none) = R := by
  have hempty : R node = fun _ => none := by
    funext port
    rw [← h.get_eq, hcreate]
    exact RawMap.is_create.get_eq _
  rw [← hempty, Function.update_eq_self]

theorem mem_forEach (h : ctx.Holds R) (hR : R.Filed) {node : UInt32} {srv : Server} :
    srv ∈ (ctx.services node).forEach ↔ R node srv.port = some srv := by
  rw [RawMap.forEach_eq, List.mem_map]
  constructor
  · rintro ⟨e, he, rfl⟩
    have hsome := (h node).mem_entries.1 he
    rwa [(hR _ _ _ hsome).2.1]
  · intro hsrv
    refine ⟨(hashU32 srv.port, srv), (h node).mem_entries.2 ?_, rfl⟩
    rwa [unhashU32_hashU32]

theorem filed (h : ctx.Holds R) (hR : R.Filed) (node : UInt32) : Filed (ctx.services node) := by
  intro e he
  have hsome := (h node).mem_entries.1 he
  rw [(hR _ _ _ hsome).2.1, hashU32_unhashU32]

/-- An iteration over the services of a node gives each once. -/
theorem nodup_forEach (h : ctx.Holds R) (hR : R.Filed) (node : UInt32) :
    (ctx.services node).forEach.Nodup := by
  have hkeys : ((ctx.services node).entries.map fun e => hashU32 e.2.port).Nodup := by
    have hnodup : ((ctx.services node).entries.map Prod.fst).Nodup := (h node).nodup
    rwa [List.map_congr_left fun e he => h.filed hR node e he] at hnodup
  rw [RawMap.forEach_eq]
  refine List.Nodup.of_map (fun srv => hashU32 srv.port) ?_
  rwa [List.map_map]

theorem start (localNode : UInt32) : (Context.start localNode).Holds fun _ _ => none := by
  intro node
  rw [services_start]
  exact RawMap.is_create

/-- The services of one node are others. -/
theorem update (h : ctx.Holds R) {node : UInt32} {m : Map Server} {g : UInt32 → Option Server}
    {L : List Lookup} (hm : m.Is fun key => g (unhashU32 key))
    (hbec : Becomes ctx (Function.update ctx.services node m) L ctx') :
    ctx'.Holds (Function.update R node g) := by
  intro n
  rw [hbec.services]
  by_cases hn : n = node
  · rw [hn, Function.update_self, Function.update_self]
    exact hm
  · rw [Function.update_of_ne hn, Function.update_of_ne hn]
    exact h n

theorem becomes (h : ctx.Holds R) {L : List Lookup} (hbec : Becomes ctx ctx.services L ctx') :
    ctx'.Holds R := by
  intro node
  rw [hbec.services]
  exact h node

theorem update_hash (g : UInt32 → Option Server) (port : UInt32) (v : Option Server) :
    Function.update (fun key => g (unhashU32 key)) (hashU32 port) v =
      fun key => Function.update g port v (unhashU32 key) := by
  funext key
  by_cases hk : key = hashU32 port
  · rw [hk, Function.update_self, unhashU32_hashU32, Function.update_self]
  · have hport : unhashU32 key ≠ port := fun hp => hk (by rw [← hp, hashU32_unhashU32])
    rw [Function.update_of_ne hk, Function.update_of_ne hport]

theorem remove (h : ctx.Holds R) {node port : UInt32} {L : List Lookup}
    (hbec : Becomes ctx (Function.update ctx.services node
      ((ctx.services node).remove (hashU32 port)).2) L ctx') :
    ctx'.Holds (R.set node port none) := by
  refine h.update ?_ hbec
  rw [← update_hash]
  exact ((h node).remove (hashU32 port)).2

end Context.Holds

/-- The other half of `RawMap.Is.reput`: a map that is a finite map after a key was put was not put
a buried one. -/
theorem Map.not_buried_of_reput {m m' : Map Server} {mem : ℕ → Bool} {key : UInt32} {srv : Server}
    {old : Option Server} (hput : m.reput mem key srv = (0, old, m')) {g : UInt32 → Option Server}
    (his : m'.Is g) : ¬ m.Buried key := by
  intro hb
  have hraw := m.reput_eq mem key srv
  rw [m.wf.reput_of_buried hb mem 0, hput, Option.some.injEq] at hraw
  have hm' := (Prod.mk.inj (Prod.mk.inj hraw).2).2
  rw [← hm'] at his
  exact RawMap.not_is_insert hb srv g his

/-! ## A turn -/

section

variable {ctx ctx' : Context} {d : Datagram} {rc : Int} {out : List (Sq × List UInt8)}
  {R : Registry}

theorem Registry.Filed.step (hR : R.Filed) (h : Effect ctx d rc out ctx') :
    (R.step ctx.localNode d rc).Filed := by
  have hnone : ∀ node port, (R.set node port none).Filed := fun node port =>
    hR.set fun s hs => by cases hs
  unfold Registry.step
  split
  · exact hR
  · next hacc =>
    split
    · next hnew =>
      refine hR.set fun s hs => ?_
      obtain rfl := Option.some.inj hs
      rw [not_or, not_lt] at hacc
      obtain ⟨-, hservice, hport, -⟩ := (h.accepted hacc.1 hacc.2).1 hnew
      exact ⟨rfl, rfl, hservice, hport⟩
    · split
      · exact hnone _ _
      · split
        · exact hnone _ _
        · split
          · intro node port srv hsrv
            by_cases hn : node = d.src.node
            · rw [hn, Function.update_self] at hsrv
              cases hsrv
            · rw [Function.update_of_ne hn] at hsrv
              exact hR node port srv hsrv
          · exact hR

/-- A turn changes the registry as `Registry.step` says, unless it puts a buried key. -/
theorem Context.Holds.turn (h : ctx.Holds R) (hR : R.Filed) {calls : List (Call Ret)}
    (heff : Effect ctx d rc out ctx') (hb : Turn.Unburied ⟨ctx, d, calls, rc⟩) :
    ctx'.Holds (R.step ctx.localNode d rc) := by
  cases heff with
  | closed hlen =>
    rw [Registry.step, if_pos (Or.inl (by omega))]
    exact h
  | ignored hcase _ =>
    rw [Registry.step_ignored hcase]
    exact h
  | refused _ _ hbec =>
    rw [Registry.step, if_pos (Or.inr rfl)]
    exact h.becomes hbec
  | hello _ hcmd _ _ hbec =>
    rw [Registry.step_of_notMem (by rw [hcmd]; decide)]
    exact h.becomes hbec
  | noNode hlen hcmd hcreate hbec =>
    rw [Registry.step_bye hlen hcmd (by decide), h.update_none hcreate]
    exact h.becomes hbec
  | bye hlen hcmd hS hbec =>
    rw [Registry.step_bye hlen hcmd (by decide)]
    rw [hS] at hbec
    exact h.update (clearAll_eq (h _) (h.filed hR _)).2 hbec
  | delClient hlen hcmd _ _ hS _ hbec =>
    rw [Registry.step_delClient hlen hcmd (by decide)]
    rw [hS] at hbec
    exact h.remove hbec
  | @newServer _ _ mem old m hlen hcmd hrc _ _ _ hput hbec =>
    have hacc := ne_einval_of_neg_one_le hrc
    rw [Registry.step_newServer hlen hcmd hacc]
    have hraw := (ctx.services d.src.node).reput_eq mem (hashU32 (d.port ctx.localNode))
      (d.server ctx.localNode)
    rw [hput] at hraw
    rcases (h d.src.node).reput (ctx.services d.src.node).wf (hb hlen hcmd hacc) hraw with
      ⟨-, -, his⟩ | ⟨hfail, -, -⟩
    · rw [Context.Holds.update_hash] at his
      exact h.update his hbec
    · cases hfail
  | delServer hlen hcmd _ hrc hbec =>
    rw [Registry.step_delServer hlen hcmd (ne_einval_of_enoent hrc)]
    exact h.remove hbec
  | newLookup _ hcmd _ _ hbec =>
    rw [Registry.step_of_notMem (by rw [hcmd]; decide)]
    exact h.becomes hbec
  | delLookup _ hcmd hbec =>
    rw [Registry.step_of_notMem (by rw [hcmd]; decide)]
    exact h.becomes hbec

/-- A turn that puts a buried key leaves no registry. -/
theorem Turn.unburied_of_holds {calls : List (Call Ret)} (heff : Effect ctx d rc out ctx')
    (h : ctx'.Holds R) : Turn.Unburied ⟨ctx, d, calls, rc⟩ := by
  intro hlen hcmd hrc
  obtain ⟨-, -, -, -, mem, old, m, hput, hbec⟩ := (heff.accepted hlen hrc).1 hcmd
  have his := h d.src.node
  rw [hbec.services, Function.update_self] at his
  exact Map.not_buried_of_reput hput his

end

/-! ## Runs -/

theorem Loop.filed {localNode : UInt32} {ts : List Turn} {ctx : Context}
    (h : Loop (.start localNode) ts ctx) : (registry localNode ts).Filed := by
  refine h.induct (ok_start localNode) (P := fun ts _ => (registry localNode ts).Filed)
    Registry.filed_empty ?_
  intro ts ctx ctx' d calls rc _ hlocal hR heff
  rw [registry_concat]
  have hstep := hR.step heff
  rwa [hlocal] at hstep

/-- As long as no buried key is put, the services are the registry's. -/
theorem Loop.holds {localNode : UInt32} {ts : List Turn} {ctx : Context}
    (h : Loop (.start localNode) ts ctx) (hb : ∀ t ∈ ts, t.Unburied) :
    ctx.Holds (registry localNode ts) := by
  refine h.induct (ok_start localNode) (P := fun ts ctx => (∀ t ∈ ts, t.Unburied) →
    (registry localNode ts).Filed ∧ ctx.Holds (registry localNode ts)) ?_ ?_ hb |>.2
  · exact fun _ => ⟨Registry.filed_empty, .start localNode⟩
  · intro ts ctx ctx' d calls rc _ hlocal ih heff hall
    rw [List.forall_mem_append, List.forall_mem_singleton] at hall
    obtain ⟨hR, hholds⟩ := ih hall.1
    have hturn := hholds.turn hR heff hall.2
    have hfiled := hR.step heff
    rw [hlocal] at hturn hfiled
    rw [registry_concat]
    exact ⟨hfiled, hturn⟩

/-- The maps of the name server hold the registry, before every turn and after the last, if and only
if no turn puts a server under a key that stands behind a tombstone. -/
theorem Loop.holds_iff {localNode : UInt32} {ts : List Turn} {ctx : Context}
    (h : Loop (.start localNode) ts ctx) :
    ((∀ pre t post, ts = pre ++ t :: post → t.before.Holds (registry localNode pre)) ∧
      ctx.Holds (registry localNode ts)) ↔ ∀ t ∈ ts, t.Unburied := by
  refine h.induct (ok_start localNode) (P := fun ts ctx => (registry localNode ts).Filed ∧
    (((∀ pre t post, ts = pre ++ t :: post → t.before.Holds (registry localNode pre)) ∧
      ctx.Holds (registry localNode ts)) ↔ ∀ t ∈ ts, t.Unburied)) ?_ ?_ |>.2
  · refine ⟨Registry.filed_empty, iff_of_true ⟨?_, .start localNode⟩ (by simp)⟩
    intro pre t post hnil
    simp at hnil
  · intro ts ctx ctx' d calls rc _ hlocal ih heff
    obtain ⟨hR, ih⟩ := ih
    have hfiled := hR.step heff
    rw [hlocal] at hfiled
    rw [Mirror.forall_split_concat (Q := fun pre (t : Turn) =>
      t.before.Holds (registry localNode pre)), List.forall_mem_append, List.forall_mem_singleton,
      ← ih, registry_concat]
    refine ⟨hfiled, ?_, ?_⟩
    · rintro ⟨hpre, hlast⟩
      exact ⟨hpre, Turn.unburied_of_holds heff hlast⟩
    · rintro ⟨⟨hpre, hholds⟩, hb⟩
      have hturn := hholds.turn hR heff hb
      rw [hlocal] at hturn
      exact ⟨⟨hpre, hholds⟩, hturn⟩

theorem unburied_published : (∀ t ∈ publishedRun.1, t.Unburied) ∧
    registry 2 publishedRun.1 2 9 = some ⟨4097, 513, 2, 9⟩ := by decide +kernel

theorem holds_iff_published : publishedRun.2.Holds (registry 2 publishedRun.1) :=
  (loop_published.holds_iff.2 unburied_published.1).2

end DragonQ6A.Qrtr
