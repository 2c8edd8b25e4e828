import DragonQ6A.Qrtr.FiniteMap
import DragonQ6A.Qrtr.Ns

/-!
# What the functions of the name server do

One lemma for each function of `ns.c`: the messages it sends, in order (`sent`), and the services
and lookups it leaves (`Becomes`).  The map of nodes never loses an entry, so it is a finite map
throughout (`Ok`); the map of a node's services need not be.
-/

open Calls

namespace DragonQ6A.Qrtr

/-- The message a call sends. -/
def sending (e : Call Ret) : Option (Sq × List UInt8) :=
  match e.op with
  | .sendto dest msg => some (dest, msg)
  | _ => none

/-- The messages sent, with their destinations. -/
def sent (tr : List (Call Ret)) : List (Sq × List UInt8) := tr.filterMap sending

@[simp] theorem sent_nil : sent [] = [] := rfl

@[simp] theorem sent_append (tr₁ tr₂ : List (Call Ret)) :
    sent (tr₁ ++ tr₂) = sent tr₁ ++ sent tr₂ :=
  List.filterMap_append

theorem sent_calloc {tr : List (Call Ret)} {mem : ℕ → Bool} (h : Runs calloc tr mem) :
    sent tr = [] := by
  have htr := runs_request.1 h
  rw [htr]
  rfl

theorem sent_stack {tr : List (Call Ret)} {words : UInt32 × UInt32} (h : Runs stack tr words) :
    sent tr = [] := by
  have htr := runs_request.1 h
  rw [htr]
  rfl

theorem sent_sendto {dest : Sq} {msg : List UInt8} {tr : List (Call Ret)} {rc : Int}
    (h : Runs (sendto dest msg) tr rc) : sent tr = [(dest, msg)] ∧ -1 ≤ rc := by
  obtain ⟨answer, tr', hk, rfl⟩ := runs_request_bind.1 h
  cases answer with
  | none =>
    obtain ⟨rfl, rfl⟩ := runs_pure.1 hk
    exact ⟨rfl, le_rfl⟩
  | some n =>
    obtain ⟨rfl, rfl⟩ := runs_pure.1 hk
    exact ⟨rfl, by omega⟩

/-- The messages of a loop that sends at most one in a round. -/
theorem sent_forM {γ : Type} {l : List γ} {f : γ → Prog PUnit} {g : γ → List (Sq × List UInt8)}
    (hf : ∀ x ∈ l, ∀ tr u, Runs (f x) tr u → sent tr = g x) {tr : List (Call Ret)} {u : PUnit}
    (h : Runs (l.forM f) tr u) : sent tr = l.flatMap g :=
  h.filterMap_forM hf

namespace Context

/-- The nodes are a finite map, under the hashes of their ids. -/
def Ok (ctx : Context) : Prop :=
  ∃ f, ctx.nodes.Is f ∧ ∀ key node, f key = some node → hashU32 node.id = key

/-- From `ctx`, in `ctx'` the services are `S` and the lookups `L`. -/
structure Becomes (ctx : Context) (S : UInt32 → Map Server) (L : List Lookup) (ctx' : Context) :
    Prop where
  ok : ctx'.Ok
  services : ctx'.services = S
  lookups : ctx'.lookups = L
  localNode : ctx'.localNode = ctx.localNode
  sockOpen : ctx'.sockOpen = ctx.sockOpen

theorem ok_start (localNode : UInt32) : (start localNode).Ok :=
  ⟨_, RawMap.is_create, by simp⟩

theorem services_start (localNode node : UInt32) :
    (start localNode).services node = .create := by
  have hget : (start localNode).nodes.get (hashU32 node) = none :=
    RawMap.is_create.get_eq _
  rw [services, hget]

section

variable {ctx ctx' : Context} {node : UInt32} {S : UInt32 → Map Server} {L : List Lookup}

theorem Ok.becomes (h : ctx.Ok) : Becomes ctx ctx.services ctx.lookups ctx :=
  ⟨h, rfl, rfl, rfl, rfl⟩

theorem Becomes.trans {ctx'' : Context} {S' : UInt32 → Map Server} {L' : List Lookup}
    (h : Becomes ctx S L ctx') (h' : Becomes ctx' S' L' ctx'') : Becomes ctx S' L' ctx'' :=
  ⟨h'.ok, h'.services, h'.lookups, h'.localNode.trans h.localNode, h'.sockOpen.trans h.sockOpen⟩

theorem services_eq_create (h : ctx.nodes.get (hashU32 node) = none) :
    ctx.services node = .create := by
  rw [services, h]

/-- The node that `map_get` finds is the one asked for. -/
theorem Ok.id_eq (h : ctx.Ok) {n : Node} (hn : ctx.nodes.get (hashU32 node) = some n) :
    n.id = node := by
  obtain ⟨f, hf, hid⟩ := h
  rw [hf.get_eq] at hn
  exact hashU32_inj (hid _ _ hn)

/-- An assignment to the services of a node that is there. -/
theorem Ok.setServices (h : ctx.Ok) (hn : ctx.nodes.get (hashU32 node) ≠ none) (m : Map Server) :
    Becomes ctx (Function.update ctx.services node m) ctx.lookups (ctx.setServices node m) := by
  obtain ⟨n, hn⟩ := Option.ne_none_iff_exists'.1 hn
  have hid := h.id_eq hn
  obtain ⟨f, hf, hids⟩ := h
  have hnew := hf.assign (by rw [← hf.get_eq, hn]) (Node.mk n.id m)
  have hset : ctx.setServices node m =
      { ctx with nodes := ctx.nodes.assign (hashU32 node) ⟨n.id, m⟩ } := by
    rw [Context.setServices, hn]
  rw [hset]
  refine ⟨⟨_, hnew, fun key n' hn' => ?_⟩, ?_, rfl, rfl, rfl⟩
  · by_cases hk : key = hashU32 node
    · rw [hk, Function.update_self] at hn'
      rw [← Option.some.inj hn', hk, hid]
    · rw [Function.update_of_ne hk] at hn'
      exact hids key n' hn'
  · funext node'
    have hget : (ctx.nodes.assign (hashU32 node) ⟨n.id, m⟩).get (hashU32 node') = _ :=
      hnew.get_eq (hashU32 node')
    by_cases hk : node' = node
    · rw [hk, Function.update_self] at hget ⊢
      rw [services, hget]
    · have hkey : hashU32 node' ≠ hashU32 node := fun hh => hk (hashU32_inj hh)
      rw [Function.update_of_ne hkey, ← hf.get_eq] at hget
      rw [Function.update_of_ne hk, services, hget]
      rfl

end

end Context

open Context

variable {ctx : Context} {tr : List (Call Ret)}

theorem nodeGet_spec (hok : ctx.Ok) {id : UInt32} {r : Option UInt32 × Context}
    (h : Runs (nodeGet ctx id) tr r) : sent tr = [] ∧
      Becomes ctx ctx.services ctx.lookups r.2 ∧
      ((r.1 = some id ∧ r.2.nodes.get (hashU32 id) ≠ none) ∨
        (r.1 = none ∧ ctx.services id = .create)) := by
  unfold nodeGet at h
  cases hn : ctx.nodes.get (hashU32 id) with
  | some n =>
    rw [hn] at h
    obtain ⟨rfl, rfl⟩ := runs_pure.1 h
    refine ⟨rfl, hok.becomes, Or.inl ⟨?_, by simp [hn]⟩⟩
    rw [hok.id_eq hn]
  | none =>
    rw [hn] at h
    obtain ⟨mem, tr₁, tr₂, h₁, hr, rfl⟩ := runs_bind.1 h
    rw [sent_append, sent_calloc h₁]
    have hcreate : ctx.services id = .create := services_eq_create hn
    have hok' := hok
    split at hr
    · obtain ⟨rfl, rfl⟩ := runs_pure.1 hr
      exact ⟨rfl, hok.becomes, Or.inr ⟨rfl, hcreate⟩⟩
    · obtain ⟨f, hf, hids⟩ := hok'
      have hfree : f (hashU32 id) = none := by rw [← hf.get_eq, hn]
      have hb : ¬ ctx.nodes.Buried (hashU32 id) := fun ⟨_, _, _, hk⟩ =>
        (Probe.Represents.eq_none hf).1 hfree hk
      have hput := ctx.nodes.reput_eq mem (hashU32 id) ⟨id, .create⟩
      rcases hf.reput ctx.nodes.wf hb hput with ⟨hrc, -, his⟩ | ⟨hrc, -, hsame⟩
      · have hzero : ¬ (ctx.nodes.put mem (hashU32 id) ⟨id, .create⟩).1 ≠ 0 := not_not.2 hrc
        rw [if_neg hzero] at hr
        obtain ⟨rfl, rfl⟩ := runs_pure.1 hr
        refine ⟨rfl, ⟨⟨_, his, fun key n hkey => ?_⟩, ?_, rfl, rfl, rfl⟩, Or.inl ⟨rfl, ?_⟩⟩
        · by_cases hk : key = hashU32 id
          · rw [hk, Function.update_self] at hkey
            rw [← Option.some.inj hkey, hk]
          · rw [Function.update_of_ne hk] at hkey
            exact hids key n hkey
        · funext node
          have hget : (ctx.nodes.put mem (hashU32 id) ⟨id, .create⟩).2.get (hashU32 node) = _ :=
            his.get_eq (hashU32 node)
          by_cases hk : hashU32 node = hashU32 id
          · rw [hk, Function.update_self] at hget
            rw [hashU32_inj hk, hcreate, services, hget]
          · rw [Function.update_of_ne hk, ← hf.get_eq] at hget
            rw [services, hget]
            rfl
        · have hget : (ctx.nodes.put mem (hashU32 id) ⟨id, .create⟩).2.get (hashU32 id) = _ :=
            his.get_eq (hashU32 id)
          simp [hget]
      · have hnz : (ctx.nodes.put mem (hashU32 id) ⟨id, .create⟩).1 ≠ 0 := by
          show (ctx.nodes.reput mem (hashU32 id) ⟨id, .create⟩).1 ≠ 0
          rw [hrc]
          decide
        rw [if_pos hnz] at hr
        obtain ⟨rfl, rfl⟩ := runs_pure.1 hr
        have hnodes : (ctx.nodes.put mem (hashU32 id) ⟨id, .create⟩).2 = ctx.nodes :=
          ((ctx.nodes.reput_rc mem (hashU32 id) ⟨id, .create⟩).resolve_left hnz).2
        rw [hnodes]
        exact ⟨rfl, hok.becomes, Or.inr ⟨rfl, hcreate⟩⟩

/-! ## Messages about a server -/

/-- The lookup is for servers like this one. -/
def Lookup.Matches (l : Lookup) (srv : Server) : Prop :=
  (l.service = 0 ∨ l.service = srv.service) ∧ (l.inst = 0 ∨ l.inst = srv.inst)

instance (l : Lookup) (srv : Server) : Decidable (l.Matches srv) :=
  inferInstanceAs (Decidable (_ ∧ _))

/-- `server_match` and the tests in the loops over the lookups agree. -/
theorem serverMatch_eq (l : Lookup) (srv : Server) :
    serverMatch srv ⟨l.service, l.inst, 0⟩ = decide (l.Matches srv) := by
  have hones : srv.inst &&& 0xffffffff = srv.inst := by
    apply UInt32.toBitVec_inj.1
    exact BitVec.and_allOnes
  unfold serverMatch Lookup.Matches
  by_cases hi : l.inst = 0
  · by_cases hs : l.service = 0
    · simp [hi, hs]
    · simp [hi, hs, eq_comm]
  · by_cases hs : l.service = 0
    · simp [hi, hs, hones, eq_comm]
    · simp [hi, hs, hones, eq_comm]

def newMsg (srv : Server) : List UInt8 := (serverPkt QRTR_TYPE_NEW_SERVER srv).bytes

def delMsg (srv : Server) : List UInt8 := (serverPkt QRTR_TYPE_DEL_SERVER srv).bytes

/-- `msg` about `srv` for every lookup that matches. -/
def notes (lookups : List Lookup) (srv : Server) (msg : List UInt8) : List (Sq × List UInt8) :=
  (lookups.filter fun l => l.Matches srv).map fun l => (l.sq, msg)

/-- `msg` about `srv` for everyone if the server is local, and for every lookup that matches. -/
def news (ctx : Context) (srv : Server) (msg : List UInt8) : List (Sq × List UInt8) :=
  (if srv.node = ctx.localNode then [(bcastSq, msg)] else []) ++ notes ctx.lookups srv msg

theorem notes_eq_flatMap (lookups : List Lookup) (srv : Server) (msg : List UInt8) :
    notes lookups srv msg =
      lookups.flatMap fun l => if l.Matches srv then [(l.sq, msg)] else [] := by
  unfold notes
  induction lookups with
  | nil => rfl
  | cons l lookups ih =>
    rw [List.flatMap_cons, ← ih, List.filter_cons]
    by_cases hl : l.Matches srv <;> simp [hl]

theorem sent_notifyLookups {lookups : List Lookup} {srv : Server} {new : Bool} {u : PUnit}
    (h : Runs (notifyLookups lookups srv new) tr u) :
    sent tr = notes lookups srv (if new then newMsg srv else delMsg srv) := by
  rw [notes_eq_flatMap]
  refine sent_forM (fun l _ tr u hl => ?_) h
  split at hl
  · next hs =>
    have hno : ¬ l.Matches srv := fun hm => by simp [Lookup.Matches, hs] at hm
    rw [(runs_pure.1 hl).1, if_neg hno, sent_nil]
  · next hs =>
    split at hl
    · next hi =>
      have hno : ¬ l.Matches srv := fun hm => by simp [Lookup.Matches, hi] at hm
      rw [(runs_pure.1 hl).1, if_neg hno, sent_nil]
    · next hi =>
      have hyes : l.Matches srv := by
        unfold Lookup.Matches
        tauto
      obtain ⟨rc, tr₁, tr₂, h₁, h₂, rfl⟩ := runs_bind.1 hl
      rw [sent_append, (sent_sendto h₁).1, (runs_pure.1 h₂).1, if_pos hyes]
      cases new <;> rfl

theorem annouceLoop_spec {sq : Sq} {l : List Server} {rc : Int} (h : Runs (annouceLoop sq l) tr rc) :
    -1 ≤ rc ∧ sent tr <+: l.map fun srv => (sq, newMsg srv) := by
  induction l generalizing tr with
  | nil =>
    obtain ⟨rfl, rfl⟩ := runs_pure.1 h
    exact ⟨by decide, List.prefix_rfl⟩
  | cons srv l ih =>
    obtain ⟨rc', tr₁, tr₂, h₁, h₂, rfl⟩ := runs_bind.1 h
    obtain ⟨hsent, hrc⟩ := sent_sendto h₁
    rw [sent_append, hsent, List.map_cons, List.singleton_append]
    split at h₂
    · obtain ⟨rfl, rfl⟩ := runs_pure.1 h₂
      exact ⟨hrc, List.prefix_cons_inj _ |>.2 List.nil_prefix⟩
    · obtain ⟨hrc, hpre⟩ := ih h₂
      exact ⟨hrc, (List.prefix_cons_inj _).2 hpre⟩

theorem sent_sendToServices {services : Map Server} {pkt : CtrlPkt} {u : PUnit}
    (h : Runs (sendToServices services pkt) tr u) :
    sent tr = services.forEach.map fun srv => (⟨srv.node, srv.port⟩, pkt.bytes) := by
  rw [List.map_eq_flatMap]
  refine sent_forM (fun srv _ tr u hs => ?_) h
  obtain ⟨rc, tr₁, tr₂, h₁, h₂, rfl⟩ := runs_bind.1 hs
  rw [sent_append, (sent_sendto h₁).1, (runs_pure.1 h₂).1]
  rfl

/-! ## Adding and removing servers -/

theorem serverAdd_spec (hok : ctx.Ok) {service inst nodeId port : UInt32}
    {r : Option Server × Context} (h : Runs (serverAdd ctx service inst nodeId port) tr r) :
    sent tr = [] ∧
      ((r.1 = none ∧ Becomes ctx ctx.services ctx.lookups r.2) ∨
        (r.1 = some ⟨service, inst, nodeId, port⟩ ∧ service ≠ 0 ∧ port ≠ 0 ∧ ∃ mem old m,
          (ctx.services nodeId).reput mem (hashU32 port) ⟨service, inst, nodeId, port⟩ =
            (0, old, m) ∧
          Becomes ctx (Function.update ctx.services nodeId m) ctx.lookups r.2)) := by
  unfold serverAdd at h
  split at h
  · obtain ⟨rfl, rfl⟩ := runs_pure.1 h
    exact ⟨rfl, Or.inl ⟨rfl, hok.becomes⟩⟩
  · next hargs =>
    rw [not_or] at hargs
    obtain ⟨mem, tr₁, tr₂, h₁, hr, rfl⟩ := runs_bind.1 h
    rw [sent_append, sent_calloc h₁]
    split at hr
    · obtain ⟨rfl, rfl⟩ := runs_pure.1 hr
      exact ⟨rfl, Or.inl ⟨rfl, hok.becomes⟩⟩
    · obtain ⟨g, tr₃, tr₄, h₃, hg, rfl⟩ := runs_bind.1 hr
      obtain ⟨hsent, hget, hnode⟩ := nodeGet_spec hok h₃
      rw [sent_append, hsent]
      rcases hnode with ⟨hsome, hthere⟩ | ⟨hnone, -⟩
      · rw [hsome] at hg
        obtain ⟨mem', tr₅, tr₆, h₅, hp, rfl⟩ := runs_bind.1 hg
        rw [sent_append, sent_calloc h₅]
        rw [hget.services] at hp
        have hsame := (ctx.services nodeId).reput_rc mem' (hashU32 port)
          ⟨service, inst, nodeId, port⟩
        generalize hput : (ctx.services nodeId).reput mem' (hashU32 port)
          ⟨service, inst, nodeId, port⟩ = put at hp hsame
        obtain ⟨rc, old, m⟩ := put
        have hset := hget.ok.setServices hthere m
        rw [hget.services, hget.lookups] at hset
        have hctx := hget.trans hset
        dsimp only at hp hsame
        split at hp
        · next hrc =>
          obtain ⟨rfl, rfl⟩ := runs_pure.1 hp
          rw [(hsame.resolve_left hrc).2, Function.update_eq_self] at hctx
          rw [(hsame.resolve_left hrc).2]
          exact ⟨rfl, Or.inl ⟨rfl, hctx⟩⟩
        · next hrc =>
          obtain ⟨rfl, rfl⟩ := runs_pure.1 hp
          obtain rfl := not_not.1 hrc
          exact ⟨rfl, Or.inr ⟨rfl, hargs.1, hargs.2, mem', old, m, hput, hctx⟩⟩
      · rw [hnone] at hg
        obtain ⟨rfl, rfl⟩ := runs_pure.1 hg
        exact ⟨rfl, Or.inl ⟨rfl, hget⟩⟩

theorem serverDel_spec (hok : ctx.Ok) {node port : UInt32} {r : Int × Context}
    (h : Runs (serverDel ctx node port) tr r) :
    ((ctx.services node).get (hashU32 port) = none ∧ r = (-ENOENT, ctx) ∧ sent tr = []) ∨
      ∃ srv, (ctx.services node).get (hashU32 port) = some srv ∧ r.1 = 0 ∧
        sent tr = news ctx srv (delMsg srv) ∧
        Becomes ctx (Function.update ctx.services node
          ((ctx.services node).remove (hashU32 port)).2) ctx.lookups r.2 := by
  unfold serverDel at h
  cases hget : (ctx.services node).get (hashU32 port) with
  | none =>
    rw [hget] at h
    obtain ⟨rfl, rfl⟩ := runs_pure.1 h
    exact Or.inl ⟨rfl, rfl, rfl⟩
  | some srv =>
    rw [hget] at h
    have hthere : ctx.nodes.get (hashU32 node) ≠ none := by
      intro hn
      have hcreate : (ctx.services node).get (hashU32 port) = none := by
        rw [services_eq_create hn]
        exact RawMap.is_create.get_eq _
      rw [hcreate] at hget
      cases hget
    have hset := hok.setServices hthere ((ctx.services node).remove (hashU32 port)).2
    obtain ⟨rc, tr₁, tr₂, h₁, hr, rfl⟩ := runs_bind.1 h
    obtain ⟨u, tr₃, tr₄, h₃, h₄, rfl⟩ := runs_bind.1 hr
    obtain ⟨rfl, rfl⟩ := runs_pure.1 h₄
    refine Or.inr ⟨srv, rfl, rfl, ?_, hset⟩
    rw [hset.localNode] at h₁
    rw [hset.lookups] at h₃
    rw [sent_append, sent_append, sent_notifyLookups h₃, sent_nil, List.append_nil]
    unfold news
    split at h₁
    · next hlocal =>
      rw [(sent_sendto h₁).1, if_pos hlocal]
      rfl
    · next hlocal =>
      rw [(runs_pure.1 h₁).1, if_neg hlocal]
      rfl

end DragonQ6A.Qrtr
