import DragonQ6A.Qrtr.NsSpecs

/-!
# What a turn of the name server does

`Effect` lists the outcomes of `ctrl_port_fn`, one for each way a packet can be handled: the return
value, the messages sent, and the services and lookups after it.  `ctrlPortFn_effect` says that
there are no others, whatever the memory and the sends answer.
-/

open Calls

namespace DragonQ6A.Qrtr

open Context

/-- The packet at the start of the buffer. -/
def Datagram.msg (d : Datagram) : CtrlPkt := CtrlPkt.read d.buf

/-- The port a packet about servers is about: a local socket speaks of its own. -/
def Datagram.port (localNode : UInt32) (d : Datagram) : UInt32 :=
  if d.src.node = localNode then d.src.port else d.msg.port

/-- The server a `NEW_SERVER` packet announces. -/
def Datagram.server (localNode : UInt32) (d : Datagram) : Server :=
  ⟨d.msg.service, d.msg.inst, d.src.node, d.port localNode⟩

/-- The servers `ctrl_cmd_bye` removes from a map, and what it leaves. -/
def clearLoop : ℕ → Option ℕ → Map Server → List Server × Map Server
  | n + 1, some me, m =>
    match m.iterItem me with
    | some srv =>
      let m' := (m.remove (hashU32 srv.port)).2
      let r := clearLoop n (m'.iterFrom (me + 1)) m'
      ((m.get (hashU32 srv.port)).toList ++ r.1, r.2)
    | none => ([], m)
  | _, _, m => ([], m)

/-- The removals of a whole map. -/
def clearAll (m : Map Server) : List Server × Map Server := clearLoop m.size (m.iterFrom 0) m

/-- `msg` for every service. -/
def toServices (services : Map Server) (msg : List UInt8) : List (Sq × List UInt8) :=
  services.forEach.map fun srv => (⟨srv.node, srv.port⟩, msg)

/-- The outcomes of a turn: the return value, the messages sent and the state after it. -/
inductive Effect (ctx : Context) (d : Datagram) :
    Int → List (Sq × List UInt8) → Context → Prop
  | closed : d.len ≤ 0 → Effect ctx d 0 [] { ctx with sockOpen := false }
  | ignored : (d.len < 4 ∨ d.msg.cmd ∉ [QRTR_TYPE_HELLO, QRTR_TYPE_BYE, QRTR_TYPE_DEL_CLIENT,
        QRTR_TYPE_NEW_SERVER, QRTR_TYPE_DEL_SERVER, QRTR_TYPE_NEW_LOOKUP, QRTR_TYPE_DEL_LOOKUP]) →
      0 < d.len → Effect ctx d 0 [] ctx
  | refused {ctx' : Context} : 4 ≤ d.len → d.msg.cmd ∈ [QRTR_TYPE_DEL_CLIENT,
        QRTR_TYPE_NEW_SERVER, QRTR_TYPE_DEL_SERVER, QRTR_TYPE_NEW_LOOKUP] →
      Becomes ctx ctx.services ctx.lookups ctx' → Effect ctx d (-EINVAL) [] ctx'
  | hello {ctx' : Context} {rc : Int} {rest : List (Sq × List UInt8)} : 4 ≤ d.len →
      d.msg.cmd = QRTR_TYPE_HELLO → -1 ≤ rc →
      rest <+: (ctx.services ctx.localNode).forEach.map (fun srv => (d.src, newMsg srv)) →
      Becomes ctx ctx.services ctx.lookups ctx' →
      Effect ctx d rc ((d.src, (List.range d.len.toNat).map d.buf) :: rest) ctx'
  | noNode {ctx' : Context} : 4 ≤ d.len → d.msg.cmd = QRTR_TYPE_BYE →
      ctx.services d.src.node = .create → Becomes ctx ctx.services ctx.lookups ctx' →
      Effect ctx d 0 [] ctx'
  | bye {ctx' : Context} {S : UInt32 → Map Server} : 4 ≤ d.len → d.msg.cmd = QRTR_TYPE_BYE →
      S = Function.update ctx.services d.src.node (clearAll (ctx.services d.src.node)).2 →
      Becomes ctx S ctx.lookups ctx' →
      Effect ctx d 0 ((clearAll (ctx.services d.src.node)).1.flatMap
          (fun srv => news ctx srv (delMsg srv)) ++
        toServices (S ctx.localNode) (CtrlPkt.bytes ⟨QRTR_TYPE_BYE, d.src.node, 0, 0, 0⟩)) ctx'
  | delClient {ctx' : Context} {S : UInt32 → Map Server} {L : List Lookup} {w₁ w₂ : UInt32} :
      4 ≤ d.len → d.msg.cmd = QRTR_TYPE_DEL_CLIENT → d.src.node = d.msg.clientNode →
      (d.src.node = ctx.localNode → d.src.port = d.msg.clientPort) →
      S = Function.update ctx.services d.src.node
        ((ctx.services d.src.node).remove (hashU32 d.msg.clientPort)).2 →
      L = ctx.lookups.filter (fun l => l.sq ≠ ⟨d.src.node, d.msg.clientPort⟩) →
      Becomes ctx S L ctx' →
      Effect ctx d 0 (((ctx.services d.src.node).get (hashU32 d.msg.clientPort)).toList.flatMap
          (fun srv => news { ctx with lookups := L } srv (delMsg srv)) ++
        toServices (S ctx.localNode)
          (CtrlPkt.bytes ⟨QRTR_TYPE_DEL_CLIENT, d.src.node, d.msg.clientPort, w₁, w₂⟩)) ctx'
  | newServer {ctx' : Context} {rc : Int} {mem : ℕ → Bool} {old : Option Server}
      {m : Map Server} : 4 ≤ d.len → d.msg.cmd = QRTR_TYPE_NEW_SERVER → -1 ≤ rc →
      (d.src.node ≠ ctx.localNode → d.src.node = d.msg.node) → d.msg.service ≠ 0 →
      d.port ctx.localNode ≠ 0 → (ctx.services d.src.node).reput mem (hashU32 (d.port ctx.localNode))
        (d.server ctx.localNode) = (0, old, m) →
      Becomes ctx (Function.update ctx.services d.src.node m) ctx.lookups ctx' →
      Effect ctx d rc (news ctx (d.server ctx.localNode) (newMsg (d.server ctx.localNode))) ctx'
  | delServer {ctx' : Context} {rc : Int} : 4 ≤ d.len → d.msg.cmd = QRTR_TYPE_DEL_SERVER →
      (d.src.node ≠ ctx.localNode → d.src.node = d.msg.node) →
      (rc = 0 ∨ rc = -ENOENT ∧ (ctx.services d.src.node).get (hashU32 (d.port ctx.localNode)) = none) →
      Becomes ctx (Function.update ctx.services d.src.node
        ((ctx.services d.src.node).remove (hashU32 (d.port ctx.localNode))).2) ctx.lookups ctx' →
      Effect ctx d rc (((ctx.services d.src.node).get (hashU32 (d.port ctx.localNode))).toList.flatMap
        fun srv => news ctx srv (delMsg srv)) ctx'
  | newLookup {ctx' : Context} {l : Lookup} : 4 ≤ d.len → d.msg.cmd = QRTR_TYPE_NEW_LOOKUP →
      d.src.node = ctx.localNode → l = ⟨d.msg.service, d.msg.inst, d.src⟩ →
      Becomes ctx ctx.services (ctx.lookups ++ [l]) ctx' →
      Effect ctx d 0 ((serverQuery ctx ⟨l.service, l.inst, 0⟩).map (fun srv => (d.src, newMsg srv)) ++
        [(d.src, CtrlPkt.bytes ⟨QRTR_TYPE_NEW_SERVER, 0, 0, 0, 0⟩)]) ctx'
  | delLookup {ctx' : Context} : 4 ≤ d.len → d.msg.cmd = QRTR_TYPE_DEL_LOOKUP →
      Becomes ctx ctx.services (ctx.lookups.filter fun l =>
        ¬ (l.sq = d.src ∧ l.service = d.msg.service ∧ (l.inst = 0 ∨ l.inst = d.msg.inst))) ctx' →
      Effect ctx d 0 [] ctx'

theorem ne_einval_of_neg_one_le {rc : Int} (hrc : -1 ≤ rc) : rc ≠ -EINVAL := by
  unfold EINVAL
  omega

theorem ne_einval_of_enoent {rc : Int} {p : Prop} (hrc : rc = 0 ∨ rc = -ENOENT ∧ p) :
    rc ≠ -EINVAL := by
  rcases hrc with rfl | ⟨rfl, -⟩
  · decide
  · decide

variable {ctx : Context} {tr : List (Call Ret)}

/-! ## Removals -/

theorem Map.remove_of_get_none {m : Map Server} {key : UInt32} (h : m.get key = none) :
    (m.remove key).2 = m := by
  have hfind : m.find key = none := by
    by_contra hne
    obtain ⟨e, he⟩ := Option.ne_none_iff_exists'.1 hne
    have hsearch := he
    rw [RawMap.find_eq] at hsearch
    obtain ⟨a, ha⟩ := Probe.getElem?_of_search hsearch
    rw [RawMap.get, he] at h
    simp [ha] at h
  have hraw : (m.toRawMap.remove key).2 = m.toRawMap := by
    rw [RawMap.remove, hfind]
  cases m
  unfold Map.remove
  simp only [hraw]

/-- `serverDel_spec`, with nothing removed when nothing is there. -/
theorem serverDel_sent (hok : ctx.Ok) {node port : UInt32} {r : Int × Context}
    (h : Runs (serverDel ctx node port) tr r) :
    (r.1 = 0 ∨ r.1 = -ENOENT ∧ (ctx.services node).get (hashU32 port) = none) ∧
      sent tr = ((ctx.services node).get (hashU32 port)).toList.flatMap
        (fun srv => news ctx srv (delMsg srv)) ∧
      Becomes ctx (Function.update ctx.services node
        ((ctx.services node).remove (hashU32 port)).2) ctx.lookups r.2 := by
  rcases serverDel_spec hok h with ⟨hget, rfl, hsent⟩ | ⟨srv, hget, hrc, hsent, hctx⟩
  · rw [hget, hsent, Map.remove_of_get_none hget, Function.update_eq_self]
    exact ⟨Or.inr ⟨rfl, rfl⟩, rfl, hok.becomes⟩
  · rw [hget, hsent, hrc]
    exact ⟨Or.inl rfl, by simp, hctx⟩

theorem byeLoop_spec {node : UInt32} {n : ℕ} {me : Option ℕ} {ctx' : Context} (hok : ctx.Ok)
    (h : Runs (byeLoop node n me ctx) tr ctx') :
    sent tr = (clearLoop n me (ctx.services node)).1.flatMap
        (fun srv => news ctx srv (delMsg srv)) ∧
      Becomes ctx (Function.update ctx.services node (clearLoop n me (ctx.services node)).2)
        ctx.lookups ctx' := by
  induction n generalizing me ctx tr with
  | zero =>
    unfold byeLoop at h
    obtain ⟨rfl, rfl⟩ := runs_pure.1 h
    rw [clearLoop, Function.update_eq_self]
    · exact ⟨rfl, hok.becomes⟩
    · simp
  | succ n ih =>
    cases me with
    | none =>
      obtain ⟨rfl, rfl⟩ := runs_pure.1 h
      rw [clearLoop, Function.update_eq_self]
      · exact ⟨rfl, hok.becomes⟩
      · simp
    | some me =>
      unfold byeLoop at h
      unfold clearLoop
      cases hitem : (ctx.services node).iterItem me with
      | none =>
        rw [hitem] at h
        obtain ⟨rfl, rfl⟩ := runs_pure.1 h
        rw [Function.update_eq_self]
        exact ⟨rfl, hok.becomes⟩
      | some srv =>
        rw [hitem] at h
        obtain ⟨r, tr₁, tr₂, h₁, h₂, rfl⟩ := runs_bind.1 h
        obtain ⟨-, hsent, hdel⟩ := serverDel_sent hok h₁
        obtain ⟨hsent', hrest⟩ := ih hdel.ok h₂
        have hservices : r.2.services node =
            ((ctx.services node).remove (hashU32 srv.port)).2 := by
          rw [hdel.services, Function.update_self]
        have hnews : ∀ srv, news r.2 srv (delMsg srv) = news ctx srv (delMsg srv) := fun srv => by
          rw [news, news, hdel.localNode, hdel.lookups]
        rw [hservices] at hsent' hrest
        rw [hdel.services, hdel.lookups, Function.update_idem] at hrest
        refine ⟨?_, hdel.trans hrest⟩
        rw [sent_append, hsent, hsent', List.flatMap_append]
        simp only [hnews]

/-! ## The handlers -/

theorem ctrlCmdHello_spec (hok : ctx.Ok) {sq : Sq} {buf : List UInt8} {r : Int × Context}
    (h : Runs (ctrlCmdHello ctx sq buf) tr r) : -1 ≤ r.1 ∧
      (∃ rest, sent tr = (sq, buf) :: rest ∧
        rest <+: (ctx.services ctx.localNode).forEach.map fun srv => (sq, newMsg srv)) ∧
      Becomes ctx ctx.services ctx.lookups r.2 := by
  obtain ⟨rc, tr₁, tr₂, h₁, hr, rfl⟩ := runs_bind.1 h
  obtain ⟨hsent, hrc⟩ := sent_sendto h₁
  rw [sent_append, hsent]
  split at hr
  · obtain ⟨g, tr₃, tr₄, h₃, hg, rfl⟩ := runs_bind.1 hr
    obtain ⟨hnone, hget, hnode⟩ := nodeGet_spec hok h₃
    rw [sent_append, hnone]
    rcases hnode with ⟨hsome, -⟩ | ⟨hsome, -⟩
    · rw [hsome] at hg
      obtain ⟨rc', tr₅, tr₆, h₅, h₆, rfl⟩ := runs_bind.1 hg
      obtain ⟨rfl, rfl⟩ := runs_pure.1 h₆
      obtain ⟨hrc', hpre⟩ := annouceLoop_spec h₅
      rw [hget.services] at hpre
      exact ⟨hrc', ⟨sent tr₅, by simp, hpre⟩, hget⟩
    · rw [hsome] at hg
      obtain ⟨rfl, rfl⟩ := runs_pure.1 hg
      exact ⟨neg_one_lt_zero.le, ⟨[], rfl, List.nil_prefix⟩, hget⟩
  · obtain ⟨rfl, rfl⟩ := runs_pure.1 hr
    exact ⟨hrc, ⟨[], rfl, List.nil_prefix⟩, hok.becomes⟩

theorem ctrlCmdBye_spec (hok : ctx.Ok) {src : Sq} {r : Int × Context}
    (h : Runs (ctrlCmdBye ctx src) tr r) : r.1 = 0 ∧
      ((sent tr = [] ∧ ctx.services src.node = .create ∧
          Becomes ctx ctx.services ctx.lookups r.2) ∨
        ∃ S, S = Function.update ctx.services src.node (clearAll (ctx.services src.node)).2 ∧
          sent tr = (clearAll (ctx.services src.node)).1.flatMap
              (fun srv => news ctx srv (delMsg srv)) ++
            toServices (S ctx.localNode) (CtrlPkt.bytes ⟨QRTR_TYPE_BYE, src.node, 0, 0, 0⟩) ∧
          Becomes ctx S ctx.lookups r.2) := by
  obtain ⟨g, tr₁, tr₂, h₁, hr, rfl⟩ := runs_bind.1 h
  obtain ⟨hsent₁, hget, hnode⟩ := nodeGet_spec hok h₁
  rw [sent_append, hsent₁, List.nil_append]
  rcases hnode with ⟨hsome, -⟩ | ⟨hnone, hcreate⟩
  · rw [hsome] at hr
    obtain ⟨ctx₂, tr₃, tr₄, h₃, hr', rfl⟩ := runs_bind.1 hr
    obtain ⟨hsent₂, hbye⟩ := byeLoop_spec hget.ok h₃
    rw [hget.services] at hsent₂ hbye
    rw [hget.lookups] at hbye
    have hnews : ∀ srv, news g.2 srv (delMsg srv) = news ctx srv (delMsg srv) := fun srv => by
      rw [news, news, hget.localNode, hget.lookups]
    simp only [hnews] at hsent₂
    obtain ⟨g', tr₅, tr₆, h₅, hr'', rfl⟩ := runs_bind.1 hr'
    obtain ⟨hsent₃, hget', hnode'⟩ := nodeGet_spec hbye.ok h₅
    rw [hbye.services, hbye.lookups] at hget'
    rw [sent_append, sent_append, hsent₂, hsent₃, List.nil_append]
    have hlocal : ctx₂.localNode = ctx.localNode := hbye.localNode.trans hget.localNode
    have hall := (hget.trans hbye).trans hget'
    rw [hlocal, hbye.services] at hnode'
    rcases hnode' with ⟨hsome', -⟩ | ⟨hnone', hcreate'⟩
    · rw [hsome'] at hr''
      obtain ⟨u, tr₇, tr₈, h₇, h₈, rfl⟩ := runs_bind.1 hr''
      obtain ⟨rfl, rfl⟩ := runs_pure.1 h₈
      rw [hget'.services] at h₇
      refine ⟨rfl, Or.inr ⟨_, rfl, ?_, hall⟩⟩
      rw [sent_append, sent_sendToServices h₇, sent_nil, List.append_nil]
      rfl
    · rw [hnone'] at hr''
      obtain ⟨rfl, rfl⟩ := runs_pure.1 hr''
      refine ⟨rfl, Or.inr ⟨_, rfl, ?_, hall⟩⟩
      have hnil : clearAll (ctx.services src.node) =
          clearLoop (ctx.services src.node).size ((ctx.services src.node).iterFrom 0)
            (ctx.services src.node) := rfl
      rw [hnil, hcreate', sent_nil]
      rfl
  · rw [hnone] at hr
    obtain ⟨rfl, rfl⟩ := runs_pure.1 hr
    exact ⟨rfl, Or.inl ⟨rfl, hcreate, hget⟩⟩

theorem ctrlCmdDelClient_spec (hok : ctx.Ok) {src : Sq} {nodeId port : UInt32} {r : Int × Context}
    (h : Runs (ctrlCmdDelClient ctx src nodeId port) tr r) :
    (r = (-EINVAL, ctx) ∧ sent tr = []) ∨
      (r.1 = 0 ∧ src.node = nodeId ∧ (src.node = ctx.localNode → src.port = port) ∧
        ∃ S L w₁ w₂, S = Function.update ctx.services src.node
            ((ctx.services src.node).remove (hashU32 port)).2 ∧
          L = ctx.lookups.filter (fun l => l.sq ≠ ⟨src.node, port⟩) ∧
          sent tr = ((ctx.services src.node).get (hashU32 port)).toList.flatMap
              (fun srv => news { ctx with lookups := L } srv (delMsg srv)) ++
            toServices (S ctx.localNode)
              (CtrlPkt.bytes ⟨QRTR_TYPE_DEL_CLIENT, src.node, port, w₁, w₂⟩) ∧
          Becomes ctx S L r.2) := by
  unfold ctrlCmdDelClient at h
  split at h
  · obtain ⟨rfl, rfl⟩ := runs_pure.1 h
    exact Or.inl ⟨rfl, rfl⟩
  · next hsrc =>
    obtain rfl := not_not.1 hsrc
    split at h
    · obtain ⟨rfl, rfl⟩ := runs_pure.1 h
      exact Or.inl ⟨rfl, rfl⟩
    · next hport =>
      have hown : src.node = ctx.localNode → src.port = port := fun hl => by
        by_contra hne
        exact hport ⟨hl, hne⟩
      obtain ⟨g, tr₁, tr₂, h₁, hr, rfl⟩ := runs_bind.1 h
      -- the state without the client's lookups
      generalize hctx₁ : ({ ctx with
        lookups := ctx.lookups.filter fun l => l.sq ≠ ⟨src.node, port⟩ } : Context) = ctx₁ at h₁
      have hok₁ : ctx₁.Ok := hctx₁ ▸ hok
      have hservices₁ : ctx₁.services = ctx.services := by rw [← hctx₁]; rfl
      have hlocal₁ : ctx₁.localNode = ctx.localNode := by rw [← hctx₁]
      have hlook₁ : ctx₁.lookups = ctx.lookups.filter fun l => l.sq ≠ ⟨src.node, port⟩ := by
        rw [← hctx₁]
      have hopen₁ : ctx₁.sockOpen = ctx.sockOpen := by rw [← hctx₁]
      obtain ⟨hsent₁, hget, hnode⟩ := nodeGet_spec hok₁ h₁
      rw [hservices₁] at hget hnode
      obtain ⟨ctx₂, tr₃, tr₄, h₃, hr', rfl⟩ := runs_bind.1 hr
      have hdel : sent tr₃ = ((ctx.services src.node).get (hashU32 port)).toList.flatMap
            (fun srv => news ctx₁ srv (delMsg srv)) ∧
          Becomes ctx₁ (Function.update ctx.services src.node
            ((ctx.services src.node).remove (hashU32 port)).2) ctx₁.lookups ctx₂ := by
        rcases hnode with ⟨hsome, -⟩ | ⟨hnone, hcreate⟩
        · rw [hsome] at h₃
          obtain ⟨del, tr₅, tr₆, h₅, h₆, rfl⟩ := runs_bind.1 h₃
          obtain ⟨rfl, rfl⟩ := runs_pure.1 h₆
          obtain ⟨-, hsent, hbec⟩ := serverDel_sent hget.ok h₅
          rw [hget.services] at hsent hbec
          rw [hget.lookups] at hbec
          refine ⟨?_, hget.trans hbec⟩
          rw [sent_append, hsent, sent_nil, List.append_nil]
          have hnews : ∀ srv, news g.2 srv (delMsg srv) = news ctx₁ srv (delMsg srv) :=
            fun srv => by rw [news, news, hget.localNode, hget.lookups]
          simp only [hnews]
        · rw [hnone] at h₃
          obtain ⟨rfl, rfl⟩ := runs_pure.1 h₃
          have hgone : (ctx.services src.node).get (hashU32 port) = none := by
            rw [hcreate]
            exact RawMap.is_create.get_eq _
          rw [hgone, Map.remove_of_get_none hgone, Function.update_eq_self]
          exact ⟨rfl, hget⟩
      obtain ⟨hsent₂, hbec⟩ := hdel
      obtain ⟨g', tr₅, tr₆, h₅, hr'', rfl⟩ := runs_bind.1 hr'
      obtain ⟨hsent₃, hget', hnode'⟩ := nodeGet_spec hbec.ok h₅
      have hlocal : ctx₂.localNode = ctx.localNode := hbec.localNode.trans hlocal₁
      rw [hbec.services, hbec.lookups] at hget'
      rw [hlocal, hbec.services] at hnode'
      have hall : Becomes ctx (Function.update ctx.services src.node
          ((ctx.services src.node).remove (hashU32 port)).2)
          (ctx.lookups.filter fun l => l.sq ≠ ⟨src.node, port⟩) g'.2 := by
        have hboth := hbec.trans hget'
        exact ⟨hboth.ok, hboth.services, hboth.lookups.trans hlook₁,
          hboth.localNode.trans hlocal₁, hboth.sockOpen.trans hopen₁⟩
      rw [sent_append, sent_append, sent_append, hsent₁, hsent₂, hsent₃, ← hctx₁]
      rcases hnode' with ⟨hsome', -⟩ | ⟨hnone', hcreate'⟩
      · rw [hsome'] at hr''
        obtain ⟨rest, tr₇, tr₈, h₇, hs, rfl⟩ := runs_bind.1 hr''
        obtain ⟨u, tr₉, tr₁₀, h₉, h₁₀, rfl⟩ := runs_bind.1 hs
        obtain ⟨rfl, rfl⟩ := runs_pure.1 h₁₀
        rw [hget'.services] at h₉
        refine Or.inr ⟨rfl, rfl, hown, _, _, rest.1, rest.2, rfl, rfl, ?_, hall⟩
        rw [sent_append, sent_append, sent_stack h₇, sent_sendToServices h₉, sent_nil,
          List.append_nil]
        rfl
      · rw [hnone'] at hr''
        obtain ⟨rfl, rfl⟩ := runs_pure.1 hr''
        refine Or.inr ⟨rfl, rfl, hown, _, _, 0, 0, rfl, rfl, ?_, hall⟩
        rw [hcreate', sent_nil]
        rfl

theorem ctrlCmdDelServer_spec (hok : ctx.Ok) {src : Sq} {nodeId port : UInt32}
    {r : Int × Context} (h : Runs (ctrlCmdDelServer ctx src nodeId port) tr r)
    {p : UInt32} (hp : p = if src.node = ctx.localNode then src.port else port) :
    (r = (-EINVAL, ctx) ∧ sent tr = []) ∨
      ((src.node ≠ ctx.localNode → src.node = nodeId) ∧
        (r.1 = 0 ∨ r.1 = -ENOENT ∧ (ctx.services src.node).get (hashU32 p) = none) ∧
        sent tr = ((ctx.services src.node).get (hashU32 p)).toList.flatMap
          (fun srv => news ctx srv (delMsg srv)) ∧
        Becomes ctx (Function.update ctx.services src.node
          ((ctx.services src.node).remove (hashU32 p)).2) ctx.lookups r.2) := by
  unfold ctrlCmdDelServer at h
  dsimp only at h
  rw [← hp] at h
  generalize hn : (if src.node = ctx.localNode then src.node else nodeId) = n at h
  split at h
  · obtain ⟨rfl, rfl⟩ := runs_pure.1 h
    exact Or.inl ⟨rfl, rfl⟩
  · next hsrc =>
    obtain rfl : n = src.node := (not_not.1 hsrc).symm
    split at h
    · obtain ⟨rfl, rfl⟩ := runs_pure.1 h
      exact Or.inl ⟨rfl, rfl⟩
    · obtain ⟨g, tr₁, tr₂, h₁, hr, rfl⟩ := runs_bind.1 h
      obtain ⟨hsent, hget, hthere⟩ := nodeGet_spec hok h₁
      have hclaim : src.node ≠ ctx.localNode → src.node = nodeId := fun hl => by
        rw [if_neg hl] at hn
        exact hn.symm
      rw [sent_append, hsent, List.nil_append]
      rcases hthere with ⟨hsome, -⟩ | ⟨hnone, hcreate⟩
      · rw [hsome] at hr
        obtain ⟨hrc, hsent', hbec⟩ := serverDel_sent hget.ok hr
        rw [hget.services] at hrc hsent' hbec
        rw [hget.lookups] at hbec
        have hnews : ∀ srv, news g.2 srv (delMsg srv) = news ctx srv (delMsg srv) :=
          fun srv => by rw [news, news, hget.localNode, hget.lookups]
        simp only [hnews] at hsent'
        exact Or.inr ⟨hclaim, hrc, hsent', hget.trans hbec⟩
      · rw [hnone] at hr
        obtain ⟨rfl, rfl⟩ := runs_pure.1 hr
        have hgone : (ctx.services src.node).get (hashU32 p) = none := by
          rw [hcreate]
          exact RawMap.is_create.get_eq _
        rw [hgone, Map.remove_of_get_none hgone, Function.update_eq_self]
        exact Or.inr ⟨hclaim, Or.inr ⟨rfl, rfl⟩, rfl, hget⟩

theorem ctrlCmdNewServer_spec (hok : ctx.Ok) {src : Sq} {service inst nodeId port : UInt32}
    {r : Int × Context} (h : Runs (ctrlCmdNewServer ctx src service inst nodeId port) tr r)
    {p : UInt32} (hp : p = if src.node = ctx.localNode then src.port else port)
    {srv : Server} (hsrv : srv = ⟨service, inst, src.node, p⟩) :
    (r.1 = -EINVAL ∧ sent tr = [] ∧ Becomes ctx ctx.services ctx.lookups r.2) ∨
      (-1 ≤ r.1 ∧ (src.node ≠ ctx.localNode → src.node = nodeId) ∧ service ≠ 0 ∧ p ≠ 0 ∧
        ∃ mem old m, (ctx.services src.node).reput mem (hashU32 p) srv = (0, old, m) ∧
          sent tr = news ctx srv (newMsg srv) ∧
          Becomes ctx (Function.update ctx.services src.node m) ctx.lookups r.2) := by
  unfold ctrlCmdNewServer at h
  dsimp only at h
  rw [← hp] at h
  generalize hn : (if src.node = ctx.localNode then src.node else nodeId) = n at h
  split at h
  · obtain ⟨rfl, rfl⟩ := runs_pure.1 h
    exact Or.inl ⟨rfl, rfl, hok.becomes⟩
  · next hsrc =>
    obtain rfl : n = src.node := (not_not.1 hsrc).symm
    have hclaim : src.node ≠ ctx.localNode → src.node = nodeId := fun hl => by
      rw [if_neg hl] at hn
      exact hn.symm
    obtain ⟨a, tr₁, tr₂, h₁, hr, rfl⟩ := runs_bind.1 h
    obtain ⟨hsent, hadd⟩ := serverAdd_spec hok h₁
    rw [sent_append, hsent, List.nil_append]
    rcases hadd with ⟨hnone, hbec⟩ | ⟨hsome, hservice, hport, mem, old, m, hput, hbec⟩
    · rw [hnone] at hr
      obtain ⟨rfl, rfl⟩ := runs_pure.1 hr
      exact Or.inl ⟨rfl, rfl, hbec⟩
    · rw [hsome, ← hsrv] at hr
      rw [← hsrv] at hput
      obtain ⟨rc, tr₃, tr₄, h₃, hr', rfl⟩ := runs_bind.1 hr
      obtain ⟨u, tr₅, tr₆, h₅, h₆, rfl⟩ := runs_bind.1 hr'
      obtain ⟨rfl, rfl⟩ := runs_pure.1 h₆
      rw [hbec.lookups] at h₅
      have hbcast : sent tr₃ = (if srv.node = ctx.localNode then [(bcastSq, newMsg srv)] else []) ∧
          -1 ≤ rc := by
        rw [hbec.localNode] at h₃
        split at h₃
        · next hlocal =>
          rw [if_pos hlocal]
          exact sent_sendto h₃
        · next hlocal =>
          obtain ⟨rfl, rfl⟩ := runs_pure.1 h₃
          rw [if_neg hlocal]
          exact ⟨rfl, neg_one_lt_zero.le⟩
      refine Or.inr ⟨hbcast.2, hclaim, hservice, hport, mem, old, m, hput, ?_, hbec⟩
      rw [sent_append, sent_append, hbcast.1, sent_notifyLookups h₅, sent_nil, List.append_nil]
      rfl

theorem ctrlCmdNewLookup_spec (hok : ctx.Ok) {src : Sq} {service inst : UInt32} {r : Int × Context}
    (h : Runs (ctrlCmdNewLookup ctx src service inst) tr r) :
    (r = (-EINVAL, ctx) ∧ sent tr = []) ∨
      (r.1 = 0 ∧ src.node = ctx.localNode ∧
        sent tr = (serverQuery ctx ⟨service, inst, 0⟩).map (fun srv => (src, newMsg srv)) ++
          [(src, CtrlPkt.bytes ⟨QRTR_TYPE_NEW_SERVER, 0, 0, 0, 0⟩)] ∧
        Becomes ctx ctx.services (ctx.lookups ++ [⟨service, inst, src⟩]) r.2) := by
  unfold ctrlCmdNewLookup at h
  split at h
  · obtain ⟨rfl, rfl⟩ := runs_pure.1 h
    exact Or.inl ⟨rfl, rfl⟩
  · next hlocal =>
    obtain ⟨mem, tr₁, tr₂, h₁, hr, rfl⟩ := runs_bind.1 h
    rw [sent_append, sent_calloc h₁, List.nil_append]
    split at hr
    · obtain ⟨rfl, rfl⟩ := runs_pure.1 hr
      exact Or.inl ⟨rfl, rfl⟩
    · obtain ⟨u, tr₃, tr₄, h₃, hr', rfl⟩ := runs_bind.1 hr
      obtain ⟨rc, tr₅, tr₆, h₅, h₆, rfl⟩ := runs_bind.1 hr'
      obtain ⟨rfl, rfl⟩ := runs_pure.1 h₆
      have hquery : sent tr₃ = (serverQuery ctx ⟨service, inst, 0⟩).map
          fun srv => (src, newMsg srv) := by
        rw [List.map_eq_flatMap]
        refine sent_forM (fun srv _ tr u hs => ?_) h₃
        obtain ⟨rc, tr₁, tr₂, h₁, h₂, rfl⟩ := runs_bind.1 hs
        rw [sent_append, (sent_sendto h₁).1, (runs_pure.1 h₂).1]
        rfl
      refine Or.inr ⟨rfl, not_not.1 hlocal, ?_, hok, rfl, rfl, rfl, rfl⟩
      rw [sent_append, sent_append, hquery, (sent_sendto h₅).1, sent_nil, List.append_nil]
      rfl

/-! ## The turn -/

section

variable {d : Datagram} {rc : Int} {ctx' : Context}

theorem hello_effect (hok : ctx.Ok) (hlen : 4 ≤ d.len) (hcmd : d.msg.cmd = QRTR_TYPE_HELLO)
    (h : Runs (ctrlCmdHello ctx d.src ((List.range d.len.toNat).map d.buf)) tr (rc, ctx')) :
    Effect ctx d rc (sent tr) ctx' := by
  obtain ⟨hrc, ⟨rest, hsent, hpre⟩, hbec⟩ := ctrlCmdHello_spec hok h
  rw [hsent]
  exact .hello hlen hcmd hrc hpre hbec

theorem bye_effect (hok : ctx.Ok) (hlen : 4 ≤ d.len) (hcmd : d.msg.cmd = QRTR_TYPE_BYE)
    (h : Runs (ctrlCmdBye ctx d.src) tr (rc, ctx')) : Effect ctx d rc (sent tr) ctx' := by
  obtain ⟨hrc, hcase⟩ := ctrlCmdBye_spec hok h
  obtain rfl : rc = 0 := hrc
  rcases hcase with ⟨hsent, hcreate, hbec⟩ | ⟨S, hS, hsent, hbec⟩
  · rw [hsent]
    exact .noNode hlen hcmd hcreate hbec
  · rw [hsent]
    exact .bye hlen hcmd hS hbec

theorem delClient_effect (hok : ctx.Ok) (hlen : 4 ≤ d.len)
    (hcmd : d.msg.cmd = QRTR_TYPE_DEL_CLIENT)
    (h : Runs (ctrlCmdDelClient ctx d.src d.msg.clientNode d.msg.clientPort) tr (rc, ctx')) :
    Effect ctx d rc (sent tr) ctx' := by
  rcases ctrlCmdDelClient_spec hok h with
    ⟨heq, hsent⟩ | ⟨hrc, hsrc, hown, S, L, w₁, w₂, hS, hL, hsent, hbec⟩
  · cases heq
    rw [hsent]
    exact .refused hlen (by simp [hcmd]) hok.becomes
  · obtain rfl : rc = 0 := hrc
    rw [hsent]
    exact .delClient hlen hcmd hsrc hown hS hL hbec

theorem newServer_effect (hok : ctx.Ok) (hlen : 4 ≤ d.len)
    (hcmd : d.msg.cmd = QRTR_TYPE_NEW_SERVER)
    (h : Runs (ctrlCmdNewServer ctx d.src d.msg.service d.msg.inst d.msg.node d.msg.port) tr
      (rc, ctx')) : Effect ctx d rc (sent tr) ctx' := by
  have hsrv : d.server ctx.localNode = ⟨d.msg.service, d.msg.inst, d.src.node, d.port ctx.localNode⟩ := rfl
  rcases ctrlCmdNewServer_spec hok h rfl hsrv with
    ⟨hrc, hsent, hbec⟩ | ⟨hrc, hclaim, hservice, hport, mem, old, m, hput, hsent, hbec⟩
  · obtain rfl : rc = -EINVAL := hrc
    rw [hsent]
    exact .refused hlen (by simp [hcmd]) hbec
  · rw [hsent]
    exact .newServer hlen hcmd hrc hclaim hservice hport hput hbec

theorem delServer_effect (hok : ctx.Ok) (hlen : 4 ≤ d.len)
    (hcmd : d.msg.cmd = QRTR_TYPE_DEL_SERVER)
    (h : Runs (ctrlCmdDelServer ctx d.src d.msg.node d.msg.port) tr (rc, ctx')) :
    Effect ctx d rc (sent tr) ctx' := by
  have hport : d.port ctx.localNode = if d.src.node = ctx.localNode then d.src.port else d.msg.port := rfl
  rcases ctrlCmdDelServer_spec hok h hport with ⟨heq, hsent⟩ | ⟨hclaim, hrc, hsent, hbec⟩
  · cases heq
    rw [hsent]
    exact .refused hlen (by simp [hcmd]) hok.becomes
  · rw [hsent]
    exact .delServer hlen hcmd hclaim hrc hbec

theorem newLookup_effect (hok : ctx.Ok) (hlen : 4 ≤ d.len)
    (hcmd : d.msg.cmd = QRTR_TYPE_NEW_LOOKUP)
    (h : Runs (ctrlCmdNewLookup ctx d.src d.msg.service d.msg.inst) tr (rc, ctx')) :
    Effect ctx d rc (sent tr) ctx' := by
  rcases ctrlCmdNewLookup_spec hok h with ⟨heq, hsent⟩ | ⟨hrc, hsrc, hsent, hbec⟩
  · cases heq
    rw [hsent]
    exact .refused hlen (by simp [hcmd]) hok.becomes
  · obtain rfl : rc = 0 := hrc
    rw [hsent]
    exact .newLookup (l := ⟨d.msg.service, d.msg.inst, d.src⟩) hlen hcmd hsrc rfl hbec

theorem ctrlSwitch_effect (hok : ctx.Ok) (hlen : 4 ≤ d.len)
    (h : Runs (ctrlSwitch ctx d) tr (rc, ctx')) : Effect ctx d rc (sent tr) ctx' := by
  unfold ctrlSwitch at h
  have hmsg : CtrlPkt.read d.buf = d.msg := rfl
  rw [hmsg] at h
  by_cases hhello : d.msg.cmd = QRTR_TYPE_HELLO
  · rw [if_pos hhello] at h
    exact hello_effect hok hlen hhello h
  rw [if_neg hhello] at h
  by_cases hbye : d.msg.cmd = QRTR_TYPE_BYE
  · rw [if_pos hbye] at h
    exact bye_effect hok hlen hbye h
  rw [if_neg hbye] at h
  by_cases hdelClient : d.msg.cmd = QRTR_TYPE_DEL_CLIENT
  · rw [if_pos hdelClient] at h
    exact delClient_effect hok hlen hdelClient h
  rw [if_neg hdelClient] at h
  by_cases hnewServer : d.msg.cmd = QRTR_TYPE_NEW_SERVER
  · rw [if_pos hnewServer] at h
    exact newServer_effect hok hlen hnewServer h
  rw [if_neg hnewServer] at h
  by_cases hdelServer : d.msg.cmd = QRTR_TYPE_DEL_SERVER
  · rw [if_pos hdelServer] at h
    exact delServer_effect hok hlen hdelServer h
  rw [if_neg hdelServer] at h
  by_cases hnewLookup : d.msg.cmd = QRTR_TYPE_NEW_LOOKUP
  · rw [if_pos hnewLookup] at h
    exact newLookup_effect hok hlen hnewLookup h
  rw [if_neg hnewLookup] at h
  by_cases hdelLookup : d.msg.cmd = QRTR_TYPE_DEL_LOOKUP
  · rw [if_pos hdelLookup] at h
    unfold ctrlCmdDelLookup at h
    obtain ⟨rfl, heq⟩ := runs_pure.1 h
    obtain ⟨rfl, rfl⟩ := Prod.mk.inj heq
    exact .delLookup hlen hdelLookup ⟨hok, rfl, rfl, rfl, rfl⟩
  · rw [if_neg hdelLookup] at h
    obtain ⟨rfl, heq⟩ := runs_pure.1 h
    cases heq
    refine .ignored (Or.inr ?_) (by omega)
    simp only [List.mem_cons, List.not_mem_nil, or_false, not_or]
    exact ⟨hhello, hbye, hdelClient, hnewServer, hdelServer, hnewLookup, hdelLookup⟩

/-- A turn has one of the listed outcomes. -/
theorem ctrlPortFn_effect (hok : ctx.Ok) (h : Runs (ctrlPortFn ctx d) tr (rc, ctx')) :
    Effect ctx d rc (sent tr) ctx' := by
  unfold ctrlPortFn at h
  by_cases hclosed : d.len ≤ 0
  · rw [if_pos hclosed] at h
    obtain ⟨rfl, heq⟩ := runs_pure.1 h
    cases heq
    exact .closed hclosed
  rw [if_neg hclosed] at h
  by_cases hshort : d.len < 4
  · rw [if_pos hshort] at h
    obtain ⟨rfl, heq⟩ := runs_pure.1 h
    cases heq
    exact .ignored (Or.inl hshort) (not_le.1 hclosed)
  · rw [if_neg hshort] at h
    exact ctrlSwitch_effect hok (not_lt.1 hshort) h

end

/-- What a packet does that is not refused: `NEW_SERVER`, `NEW_LOOKUP`, `DEL_CLIENT` and
`DEL_LOOKUP`. -/
theorem Effect.accepted {d : Datagram} {rc : Int} {out : List (Sq × List UInt8)} {ctx' : Context}
    (h : Effect ctx d rc out ctx') (hlen : 4 ≤ d.len) (hrc : rc ≠ -EINVAL) :
    (d.msg.cmd = QRTR_TYPE_NEW_SERVER →
      (d.src.node ≠ ctx.localNode → d.src.node = d.msg.node) ∧ d.msg.service ≠ 0 ∧
        d.port ctx.localNode ≠ 0 ∧
        out = news ctx (d.server ctx.localNode) (newMsg (d.server ctx.localNode)) ∧
        ∃ mem old m, (ctx.services d.src.node).reput mem (hashU32 (d.port ctx.localNode))
            (d.server ctx.localNode) = (0, old, m) ∧
          Becomes ctx (Function.update ctx.services d.src.node m) ctx.lookups ctx') ∧
    (d.msg.cmd = QRTR_TYPE_NEW_LOOKUP →
      d.src.node = ctx.localNode ∧
        out = (serverQuery ctx ⟨d.msg.service, d.msg.inst, 0⟩).map
            (fun srv => (d.src, newMsg srv)) ++
          [(d.src, CtrlPkt.bytes ⟨QRTR_TYPE_NEW_SERVER, 0, 0, 0, 0⟩)] ∧
        Becomes ctx ctx.services (ctx.lookups ++ [⟨d.msg.service, d.msg.inst, d.src⟩]) ctx') ∧
    (d.msg.cmd = QRTR_TYPE_DEL_CLIENT →
      d.src.node = ctx.localNode → d.src.port = d.msg.clientPort) ∧
    (d.msg.cmd = QRTR_TYPE_DEL_LOOKUP →
      Becomes ctx ctx.services (ctx.lookups.filter fun l =>
        ¬ (l.sq = d.src ∧ l.service = d.msg.service ∧ (l.inst = 0 ∨ l.inst = d.msg.inst))) ctx') := by
  have hother : ∀ {c c' : UInt32} {p : Prop}, d.msg.cmd = c → c ≠ c' → d.msg.cmd = c' → p :=
    fun hc hne hc' => absurd (hc.symm.trans hc') hne
  cases h with
  | newServer _ hcmd _ hclaim hservice hport hput hbec =>
    exact ⟨fun _ => ⟨hclaim, hservice, hport, rfl, _, _, _, hput, hbec⟩,
      hother hcmd (by decide), hother hcmd (by decide), hother hcmd (by decide)⟩
  | newLookup _ hcmd hsrc hl hbec =>
    subst hl
    exact ⟨hother hcmd (by decide), fun _ => ⟨hsrc, rfl, hbec⟩, hother hcmd (by decide),
      hother hcmd (by decide)⟩
  | delClient _ hcmd _ hport _ _ _ =>
    exact ⟨hother hcmd (by decide), hother hcmd (by decide), fun _ => hport,
      hother hcmd (by decide)⟩
  | delLookup _ hcmd hbec =>
    exact ⟨hother hcmd (by decide), hother hcmd (by decide), hother hcmd (by decide),
      fun _ => hbec⟩
  | closed hclosed => omega
  | ignored hcase _ =>
    rcases hcase with hshort | hnone
    · omega
    · refine ⟨?_, ?_, ?_, ?_⟩
      all_goals
        intro hcmd
        exact absurd (by simp [hcmd]) hnone
  | refused _ _ _ => exact absurd rfl hrc
  | hello _ hcmd _ _ _ =>
    exact ⟨hother hcmd (by decide), hother hcmd (by decide), hother hcmd (by decide),
      hother hcmd (by decide)⟩
  | noNode _ hcmd _ _ =>
    exact ⟨hother hcmd (by decide), hother hcmd (by decide), hother hcmd (by decide),
      hother hcmd (by decide)⟩
  | bye _ hcmd _ _ =>
    exact ⟨hother hcmd (by decide), hother hcmd (by decide), hother hcmd (by decide),
      hother hcmd (by decide)⟩
  | delServer _ hcmd _ _ _ =>
    exact ⟨hother hcmd (by decide), hother hcmd (by decide), hother hcmd (by decide),
      hother hcmd (by decide)⟩

/-- The nodes stay a finite map, and the server stays on its node. -/
theorem Effect.keeps {d : Datagram} {rc : Int} {out : List (Sq × List UInt8)} {ctx' : Context}
    (h : Effect ctx d rc out ctx') (hok : ctx.Ok) : ctx'.Ok ∧ ctx'.localNode = ctx.localNode := by
  cases h with
  | closed _ => exact ⟨hok, rfl⟩
  | ignored _ _ => exact ⟨hok, rfl⟩
  | refused _ _ hbec => exact ⟨hbec.ok, hbec.localNode⟩
  | hello _ _ _ _ hbec => exact ⟨hbec.ok, hbec.localNode⟩
  | noNode _ _ _ hbec => exact ⟨hbec.ok, hbec.localNode⟩
  | bye _ _ _ hbec => exact ⟨hbec.ok, hbec.localNode⟩
  | delClient _ _ _ _ _ _ hbec => exact ⟨hbec.ok, hbec.localNode⟩
  | newServer _ _ _ _ _ _ _ hbec => exact ⟨hbec.ok, hbec.localNode⟩
  | delServer _ _ _ _ hbec => exact ⟨hbec.ok, hbec.localNode⟩
  | newLookup _ _ _ _ hbec => exact ⟨hbec.ok, hbec.localNode⟩
  | delLookup _ _ hbec => exact ⟨hbec.ok, hbec.localNode⟩

theorem Loop.keeps {ctx₀ ctx : Context} {ts : List Turn} (h : Loop ctx₀ ts ctx) (hok : ctx₀.Ok) :
    ctx.Ok ∧ ctx.localNode = ctx₀.localNode := by
  induction h with
  | start => exact ⟨hok, rfl⟩
  | turn _ _ hrun ih =>
    have hkeeps := (ctrlPortFn_effect ih.1 hrun).keeps ih.1
    exact ⟨hkeeps.1, hkeeps.2.trans ih.2⟩

/-- The run up to a turn. -/
theorem Loop.split {ctx₀ ctx : Context} {ts : List Turn} (h : Loop ctx₀ ts ctx)
    {pre post : List Turn} {t : Turn} (hts : ts = pre ++ t :: post) : Loop ctx₀ pre t.before ∧
      ∃ ctx', Runs (ctrlPortFn t.before t.d) t.calls (t.rc, ctx') := by
  induction h generalizing post with
  | start => simp at hts
  | @turn ts ctx ctx' d calls rc hloop _ hrun ih =>
    rcases Mirror.concat_eq_split hts with ⟨rfl, rfl, -⟩ | ⟨post', hts', -⟩
    · exact ⟨hloop, ctx', hrun⟩
    · exact ih hts'

/-- A property of states that every outcome of a turn keeps holds after every turn. -/
theorem Loop.induct {ctx₀ ctx : Context} {ts : List Turn} (h : Loop ctx₀ ts ctx) (hok : ctx₀.Ok)
    {P : List Turn → Context → Prop} (hstart : P [] ctx₀)
    (hturn : ∀ ts ctx ctx' d calls rc, ctx.Ok → ctx.localNode = ctx₀.localNode → P ts ctx →
      Effect ctx d rc (sent calls) ctx' → P (ts ++ [⟨ctx, d, calls, rc⟩]) ctx') : P ts ctx := by
  induction h with
  | start => exact hstart
  | turn hloop _ hrun ih =>
    obtain ⟨hok', hlocal⟩ := hloop.keeps hok
    exact hturn _ _ _ _ _ _ hok' hlocal ih (ctrlPortFn_effect hok' hrun)

/-! ## Runs with memory and working sends -/

/-- There is memory, and every message is sent whole. -/
def answered : (o : Req) → Ret o
  | .calloc => fun _ => true
  | .sendto _ msg => some msg.length
  | .stack => (0, 0)

/-- The main loop over `ds` from where it stands. -/
def playTurns (s : List Turn × Context) : List Datagram → Option (List Turn × Context)
  | [] => some s
  | d :: ds =>
    let out := play answered (ctrlPortFn s.2 d)
    match out.2 with
    | some r => if s.2.sockOpen then playTurns (s.1 ++ [⟨s.2, d, out.1, r.1⟩], r.2) ds else none
    | none => none

theorem Loop.playTurns {ctx₀ : Context} {ds : List Datagram} {s s' : List Turn × Context}
    (h : Loop ctx₀ s.1 s.2) (hs : Qrtr.playTurns s ds = some s') : Loop ctx₀ s'.1 s'.2 := by
  induction ds generalizing s with
  | nil =>
    cases hs
    exact h
  | cons d ds ih =>
    unfold Qrtr.playTurns at hs
    cases hout : (play answered (ctrlPortFn s.2 d)).2 with
    | none => simp [hout] at hs
    | some r =>
      simp only [hout] at hs
      split_ifs at hs with hopen
      exact ih (.turn h hopen (runs_play hout)) hs

/-- The run over `ds`, if the socket stays open. -/
def turnsOf (ctx₀ : Context) (ds : List Datagram) : List Turn × Context :=
  (playTurns ([], ctx₀) ds).getD ([], ctx₀)

theorem loop_turnsOf (ctx₀ : Context) (ds : List Datagram) :
    Loop ctx₀ (turnsOf ctx₀ ds).1 (turnsOf ctx₀ ds).2 := by
  unfold turnsOf
  cases h : playTurns ([], ctx₀) ds with
  | none => exact .start
  | some s => exact Loop.start.playTurns h

/-- The datagram with the bytes `msg`. -/
def Datagram.ofBytes (src : Sq) (msg : List UInt8) : Datagram :=
  ⟨src, msg.length, fun i => msg.getD i 0⟩

end DragonQ6A.Qrtr
