import DragonQ6A.Qrtr.Observers

/-!
# Two name servers

The name server of node `a` tells the others of its services, and that of node `b` keeps what it is
told under `a`.  If `b` receives, from some turn of `a` on, every message to it or to everyone in
order, it never lists a service of `a` that `a` has not registered there, and from the turn on in
which `a` answers its hello both list the same (`Loop.agree`).
-/

open Calls Probe Mirror
open Change (add remove)

namespace DragonQ6A.Qrtr

open Context

/-! ## Messages between name servers -/

/-- The bytes received. -/
def Datagram.message (d : Datagram) : List UInt8 := (List.range d.len.toNat).map d.buf

/-- The messages that `q` receives: those to it and those to everyone. -/
def received (q : Sq) (out : List (Sq × List UInt8)) : List (List UInt8) :=
  out.filterMap fun m => if m.1 = q ∨ m.1 = bcastSq then some m.2 else none

/-- What the name server of `a` says to another: news of its own servers, and answers to hellos. -/
inductive Word (a : UInt32) : List UInt8 → Prop
  | new {srv : Server} : srv.node = a → srv.service ≠ 0 → Word a (newMsg srv)
  | del {srv : Server} : srv.node = a → Word a (delMsg srv)
  | hello {d : Datagram} : 4 ≤ d.len → d.msg.cmd = QRTR_TYPE_HELLO → Word a d.message

@[simp] theorem received_nil (q : Sq) : received q [] = [] := rfl

@[simp] theorem received_append (q : Sq) (out out' : List (Sq × List UInt8)) :
    received q (out ++ out') = received q out ++ received q out' :=
  List.filterMap_append

theorem received_of_ne {q : Sq} {out : List (Sq × List UInt8)}
    (h : ∀ m ∈ out, m.1 ≠ q ∧ m.1 ≠ bcastSq) : received q out = [] := by
  rw [received, List.filterMap_eq_nil_iff]
  intro m hm
  rw [if_neg (not_or.2 (h m hm))]

theorem received_of_all {q : Sq} {out : List (Sq × List UInt8)}
    (h : ∀ m ∈ out, m.1 = q ∨ m.1 = bcastSq) : received q out = out.map Prod.snd := by
  rw [received, List.filterMap_congr fun m hm => if_pos (h m hm)]
  exact congrFun (List.filterMap_eq_map (f := Prod.snd)) out

section

variable {d : Datagram}

theorem Datagram.length_message (d : Datagram) : d.message.length = d.len.toNat := by
  simp [message]

theorem Datagram.getD_message (d : Datagram) {i : ℕ} (hi : i < d.len.toNat) :
    d.message.getD i 0 = d.buf i := by
  simp [message, hi]

/-- A datagram whose bytes are a packet is that packet. -/
theorem Datagram.msg_of_message {p : CtrlPkt} (h : d.message = p.bytes) :
    4 ≤ d.len ∧ d.msg = p := by
  have hlen : d.len.toNat = 20 := by rw [← d.length_message, h, CtrlPkt.length_bytes]
  refine ⟨by omega, ?_⟩
  rw [Datagram.msg, ← CtrlPkt.read_bytes p, ← h]
  exact CtrlPkt.read_congr fun i hi => (d.getD_message (by omega)).symm

theorem Datagram.cmd_of_message {d' : Datagram} (h : d.message = d'.message) (hlen : 4 ≤ d'.len) :
    d.msg.cmd = d'.msg.cmd := by
  have hlen' : d.len.toNat = d'.len.toNat := by
    rw [← d.length_message, h, d'.length_message]
  refine CtrlPkt.word_congr (n := 4) (fun i hi => ?_) le_rfl
  rw [← d.getD_message (by omega), h, d'.getD_message (by omega)]

theorem changeOf_message (hcmd : d.msg.cmd = QRTR_TYPE_HELLO) : changeOf d.message = none := by
  unfold changeOf CtrlPkt.parse
  by_cases hlen : d.message.length = 20
  · have hread : (CtrlPkt.read fun i => d.message.getD i 0).cmd = QRTR_TYPE_HELLO := by
      rw [← hcmd]
      show CtrlPkt.word (fun i => d.message.getD i 0) 0 = CtrlPkt.word d.buf 0
      refine CtrlPkt.word_congr (n := 20) (fun i hi => ?_) (by omega)
      rw [d.length_message] at hlen
      exact d.getD_message (by omega)
    rw [if_pos hlen]
    simp only [hread]
    rfl
  · rw [if_neg hlen]

end

/-! ## The listening side -/

section

variable {a b : UInt32} {R : Registry} {d : Datagram} {rc : Int}

theorem Registry.step_of_ne {node : UInt32} (hn : d.src.node ≠ node) :
    R.step b d rc node = R node := by
  have hset : ∀ port srv, R.set d.src.node port srv node = R node := fun port srv =>
    Function.update_of_ne hn.symm _ _
  unfold Registry.step
  split_ifs
  · rfl
  · exact hset _ _
  · exact hset _ _
  · exact hset _ _
  · exact Function.update_of_ne hn.symm _ _
  · rfl

/-- A name server that does not refuse a word of `a` makes the change it announces. -/
theorem Registry.step_word (hab : a ≠ b) (hsrc : d.src.node = a) (hword : Word a d.message)
    (hrc : rc ≠ -EINVAL) :
    R.step b d rc a = applyAll Server.port (R a) (changeOf d.message).toList := by
  have hport : d.port b = d.msg.port := if_neg (by rw [hsrc]; exact hab)
  generalize hm : d.message = m at hword
  cases hword with
  | @new srv hnode hservice =>
    obtain ⟨hlen, hmsg⟩ := Datagram.msg_of_message (p := serverPkt QRTR_TYPE_NEW_SERVER srv) hm
    have hsrv : d.server b = srv := by
      rw [Datagram.server, hport, hmsg, hsrc, ← hnode]
      rfl
    rw [Registry.step_newServer hlen (by rw [hmsg]; rfl) hrc, changeOf_newMsg hservice, hsrv, hsrc,
      hport, hmsg]
    exact Function.update_self ..
  | @del srv hnode =>
    obtain ⟨hlen, hmsg⟩ := Datagram.msg_of_message (p := serverPkt QRTR_TYPE_DEL_SERVER srv) hm
    rw [Registry.step_delServer hlen (by rw [hmsg]; rfl) hrc, changeOf_delMsg, hsrc, hport, hmsg]
    exact Function.update_self ..
  | @hello d' hlen hcmd =>
    rw [changeOf_message hcmd, Registry.step_of_notMem]
    · rfl
    · rw [Datagram.cmd_of_message hm hlen, hcmd]
      decide

/-- What a run of `b` that refuses no word of `a` keeps under `a`. -/
theorem registry_words {ts : List Turn} {ms : List (List UInt8)} (hab : a ≠ b)
    (hms : (ts.filter fun t => t.d.src.node = a).map (fun t => t.d.message) = ms)
    (hwords : ∀ m ∈ ms, Word a m)
    (hrc : ∀ t ∈ ts, t.d.src.node = a → t.rc ≠ -EINVAL) :
    registry b ts a = applyAll Server.port (fun _ => none) (ms.filterMap changeOf) := by
  subst hms
  induction ts using List.reverseRecOn with
  | nil => rfl
  | append_singleton ts t ih =>
    rw [List.forall_mem_append, List.forall_mem_singleton] at hrc
    rw [List.filter_append, List.map_append, List.forall_mem_append] at hwords
    rw [registry_concat, List.filter_append, List.map_append, List.filterMap_append,
      applyAll_append]
    by_cases hsrc : t.d.src.node = a
    · have hone : [t].filter (fun t => t.d.src.node = a) = [t] := by simp [hsrc]
      rw [hone] at hwords ⊢
      rw [Registry.step_word hab hsrc (hwords.2 _ (List.mem_singleton.2 rfl)) (hrc.2 hsrc),
        ih hrc.1 hwords.1]
      rfl
    · have hnone : [t].filter (fun t => t.d.src.node = a) = [] := by simp [hsrc]
      rw [Registry.step_of_ne hsrc, ih hrc.1 hwords.1, hnone]
      rfl

end

/-! ## The speaking side -/

section

variable {ctx ctx' : Context} {d : Datagram} {rc : Int} {out : List (Sq × List UInt8)} {q : Sq}
  {R : Registry}

/-- The messages are words, and the changes they announce lead from `S` to `S'`. -/
def Speaks (a : UInt32) (ms : List (List UInt8)) (S S' : UInt32 → Option Server) : Prop :=
  (∀ m ∈ ms, Word a m) ∧ S' = applyAll Server.port S (ms.filterMap changeOf)

theorem speaks_nil (a : UInt32) (S : UInt32 → Option Server) : Speaks a [] S S :=
  ⟨fun _ hm => (List.not_mem_nil hm).elim, rfl⟩

theorem received_news (hlocal : ∀ l ∈ ctx.lookups, l.sq.node = ctx.localNode)
    (hq : q.node ≠ ctx.localNode) (hbc : QRTR_NODE_BCAST ≠ ctx.localNode) (srv : Server)
    (msg : List UInt8) :
    received q (news ctx srv msg) = if srv.node = ctx.localNode then [msg] else [] := by
  have hnotes : received q (notes ctx.lookups srv msg) = [] := by
    refine received_of_ne fun m hm => ?_
    obtain ⟨l, hl, rfl⟩ := List.mem_map.1 hm
    have hnode := hlocal l (List.mem_of_mem_filter hl)
    refine ⟨fun heq => hq ?_, fun heq => hbc ?_⟩
    · rw [← hnode, ← heq]
    · rw [← hnode]
      exact (congrArg Sq.node heq).symm
  rw [news, received_append, hnotes, List.append_nil]
  split
  · exact received_of_all fun m hm => Or.inr (by rw [List.mem_singleton.1 hm])
  · rfl

/-- News that the servers `l` of one node are gone. -/
theorem speaks_dels (hlocal : ∀ l ∈ ctx.lookups, l.sq.node = ctx.localNode)
    (hq : q.node ≠ ctx.localNode) (hbc : QRTR_NODE_BCAST ≠ ctx.localNode) {n : UInt32}
    {l : List Server} (hl : ∀ srv ∈ l, srv.node = n) {S S' : UInt32 → Option Server}
    (hself : n = ctx.localNode → S' = applyAll Server.port S (l.map remove))
    (hother : n ≠ ctx.localNode → S' = S) :
    Speaks ctx.localNode (received q (l.flatMap fun srv => news ctx srv (delMsg srv))) S S' := by
  have hreceived : received q (l.flatMap fun srv => news ctx srv (delMsg srv)) =
      if n = ctx.localNode then l.map delMsg else [] := by
    clear hself hother
    induction l with
    | nil => simp
    | cons srv l ih =>
      rw [List.forall_mem_cons] at hl
      rw [List.flatMap_cons, received_append, ih hl.2, received_news hlocal hq hbc, hl.1]
      split <;> simp
  rw [hreceived]
  by_cases hn : n = ctx.localNode
  · rw [if_pos hn, hself hn]
    refine ⟨fun m hm => ?_, ?_⟩
    · obtain ⟨srv, hsrv, rfl⟩ := List.mem_map.1 hm
      exact .del ((hl srv hsrv).trans hn)
    · rw [List.filterMap_map]
      have hchanges : changeOf ∘ delMsg = some ∘ (remove : Server → Change Server) :=
        funext changeOf_delMsg
      rw [hchanges, List.filterMap_eq_map]
  · rw [if_neg hn, hother hn]
    exact speaks_nil _ _

theorem received_toServices (hq : q.node ≠ ctx.localNode) (hbc : QRTR_NODE_BCAST ≠ ctx.localNode)
    {m : Map Server} (hm : ∀ srv ∈ m.forEach, srv.node = ctx.localNode) (msg : List UInt8) :
    received q (toServices m msg) = [] := by
  refine received_of_ne fun e he => ?_
  obtain ⟨srv, hsrv, rfl⟩ := List.mem_map.1 he
  have hnode := hm srv hsrv
  refine ⟨fun heq => hq ?_, fun heq => hbc ?_⟩
  · rw [← hnode, ← heq]
  · rw [← hnode]
    exact (congrArg Sq.node heq).symm

theorem Speaks.hello {a : UInt32} {ms : List (List UInt8)} {S S' : UInt32 → Option Server}
    (h : Speaks a ms S S') (hlen : 4 ≤ d.len) (hcmd : d.msg.cmd = QRTR_TYPE_HELLO) :
    Speaks a (d.message :: ms) S S' := by
  refine ⟨List.forall_mem_cons.2 ⟨.hello hlen hcmd, h.1⟩, ?_⟩
  rw [List.filterMap_cons_none (changeOf_message hcmd)]
  exact h.2

/-- News of servers. -/
theorem speaks_adds {a : UInt32} {l : List Server}
    (hl : ∀ srv ∈ l, srv.node = a ∧ srv.service ≠ 0) {S S' : UInt32 → Option Server}
    (hS : S' = applyAll Server.port S (l.map add)) : Speaks a (l.map newMsg) S S' := by
  refine ⟨fun m hm => ?_, ?_⟩
  · obtain ⟨srv, hsrv, rfl⟩ := List.mem_map.1 hm
    exact .new (hl srv hsrv).1 (hl srv hsrv).2
  · have hchanges : (l.map newMsg).filterMap changeOf = l.map add := by
      rw [List.filterMap_map, ← List.filterMap_eq_map]
      exact List.filterMap_congr fun srv hsrv => changeOf_newMsg (hl srv hsrv).2
    rw [hS, hchanges]

/-- What the other name servers hear of a turn is what it does to the registry of its own node. -/
theorem Effect.speaks (h : Effect ctx d rc out ctx') (hholds : ctx.Holds R) (hR : R.Filed)
    (hlocal : ∀ l ∈ ctx.lookups, l.sq.node = ctx.localNode)
    (hq : q.node ≠ ctx.localNode) (hbc : QRTR_NODE_BCAST ≠ ctx.localNode) :
    Speaks ctx.localNode (received q out) (R ctx.localNode)
      (R.step ctx.localNode d rc ctx.localNode) := by
  have hnodes : ∀ n, ∀ srv ∈ (ctx.services n).forEach, srv.node = n := fun n srv hsrv =>
    (hR _ _ _ ((hholds.mem_forEach hR).1 hsrv)).1
  -- the servers that are left
  have hleft : ∀ {m : Map Server}, (∀ e ∈ m.entries, e ∈ (ctx.services ctx.localNode).entries) →
      ∀ srv ∈ m.forEach, srv.node = ctx.localNode := by
    intro m hsub srv hsrv
    rw [RawMap.forEach_eq, List.mem_map] at hsrv
    obtain ⟨e, he, rfl⟩ := hsrv
    refine hnodes _ _ ?_
    rw [RawMap.forEach_eq, List.mem_map]
    exact ⟨e, hsub e he, rfl⟩
  -- one server less
  have hone : ∀ {port : UInt32} {L : List Lookup}, (∀ l ∈ L, l.sq.node = ctx.localNode) →
      Speaks ctx.localNode
        (received q (((ctx.services d.src.node).get (hashU32 port)).toList.flatMap
          fun srv => news { ctx with lookups := L } srv (delMsg srv)))
        (R ctx.localNode) (R.set d.src.node port none ctx.localNode) := by
    intro port L hL
    rw [hholds.get_eq]
    refine @speaks_dels { ctx with lookups := L } q hL hq hbc d.src.node _ (fun srv hsrv => ?_)
      _ _ (fun hn => ?_) fun hn => Function.update_of_ne (Ne.symm hn) _ _
    · exact (hR _ _ _ (Option.mem_toList.1 hsrv)).1
    · rw [hn, Registry.set, Function.update_self]
      cases hold : R ctx.localNode port with
      | none =>
        have hsame : Function.update (R ctx.localNode) port none = R ctx.localNode := by
          rw [← hold, Function.update_eq_self]
        exact hsame
      | some srv =>
        rw [← (hR _ _ _ hold).2.1]
        rfl
  have htoSrc : ∀ {msgs : List (Sq × List UInt8)}, (∀ m ∈ msgs, m.1 = d.src) →
      d.src.node = ctx.localNode → received q msgs = [] := by
    intro msgs hmsgs hsrc
    refine received_of_ne fun m hm => ?_
    rw [hmsgs m hm]
    refine ⟨fun heq => hq ?_, fun heq => hbc ?_⟩
    · rw [← heq, hsrc]
    · rw [← hsrc, heq]
      rfl
  cases h with
  | closed hlen =>
    rw [Registry.step, if_pos (Or.inl (by omega))]
    exact speaks_nil _ _
  | ignored hcase _ =>
    rw [Registry.step_ignored hcase]
    exact speaks_nil _ _
  | refused _ _ hbec =>
    rw [Registry.step, if_pos (Or.inr rfl)]
    exact speaks_nil _ _
  | hello hlen hcmd _ hpre hbec =>
    rw [Registry.step_of_notMem (by rw [hcmd]; decide)]
    obtain ⟨l, hl, rfl⟩ := List.prefix_map_iff.1 hpre
    have hmem : ∀ srv ∈ l, R ctx.localNode srv.port = some srv := fun srv hsrv =>
      (hholds.mem_forEach hR).1 (hl.subset hsrv)
    have hdest : ∀ m ∈ (d.src, (List.range d.len.toNat).map d.buf) ::
        l.map (fun srv => (d.src, newMsg srv)), m.1 = d.src := by
      rw [List.forall_mem_cons]
      refine ⟨rfl, fun m hm => ?_⟩
      obtain ⟨srv, -, rfl⟩ := List.mem_map.1 hm
      rfl
    by_cases hsrc : d.src = q ∨ d.src = bcastSq
    · rw [received_of_all fun m hm => by rw [hdest m hm]; exact hsrc, List.map_cons, List.map_map]
      refine Speaks.hello (speaks_adds (fun srv hsrv => ?_) (applyAll_add_self hmem).symm) hlen hcmd
      exact ⟨(hR _ _ _ (hmem srv hsrv)).1, (hR _ _ _ (hmem srv hsrv)).2.2.1⟩
    · rw [received_of_ne fun m hm => by rw [hdest m hm]; exact not_or.1 hsrc]
      exact speaks_nil _ _
  | noNode hlen hcmd hcreate hbec =>
    rw [Registry.step_bye hlen hcmd (by decide), hholds.update_none hcreate]
    exact speaks_nil _ _
  | @bye _ S hlen hcmd hS hbec =>
    rw [Registry.step_bye hlen hcmd (by decide), received_append, received_toServices hq hbc,
      List.append_nil, (clearAll_eq (hholds _) (hholds.filed hR _)).1]
    · refine speaks_dels hlocal hq hbc (hnodes _) (fun hn => ?_)
        fun hn => Function.update_of_ne (Ne.symm hn) _ _
      rw [hn, Function.update_self]
      funext port
      rw [applyAll_remove]
      split
      · rfl
      · next hport =>
        refine (Option.eq_none_iff_forall_ne_some.2 fun srv hsrv => hport ?_).symm
        obtain rfl := (hR _ _ _ hsrv).2.1
        exact List.mem_map_of_mem ((hholds.mem_forEach hR).2 hsrv)
    · refine hleft fun e he => ?_
      rw [hS] at he
      by_cases hn : ctx.localNode = d.src.node
      · rw [hn, Function.update_self] at he
        rw [hn]
        exact mem_entries_clearLoop he
      · rwa [Function.update_of_ne hn] at he
  | @delClient _ S L w₁ w₂ hlen hcmd _ hown hS hL hbec =>
    rw [Registry.step_delClient hlen hcmd (by decide), received_append,
      received_toServices hq hbc, List.append_nil]
    · refine hone fun l hl => ?_
      rw [hL] at hl
      exact hlocal l (List.mem_of_mem_filter hl)
    · refine hleft fun e he => ?_
      rw [hS] at he
      by_cases hn : ctx.localNode = d.src.node
      · rw [hn, Function.update_self] at he
        rw [hn]
        exact RawMap.mem_entries_remove he
      · rwa [Function.update_of_ne hn] at he
  | newServer hlen hcmd hrc _ hservice hport hput hbec =>
    rw [Registry.step_newServer hlen hcmd (ne_einval_of_neg_one_le hrc),
      received_news hlocal hq hbc]
    by_cases hn : d.src.node = ctx.localNode
    · rw [if_pos (show (d.server ctx.localNode).node = _ from hn), Registry.set, hn,
        Function.update_self]
      refine speaks_adds (l := [d.server ctx.localNode]) ?_ rfl
      rw [List.forall_mem_singleton]
      exact ⟨hn, hservice⟩
    · rw [if_neg (show (d.server ctx.localNode).node ≠ _ from hn), Registry.set,
        Function.update_of_ne (Ne.symm hn)]
      exact speaks_nil _ _
  | delServer hlen hcmd _ hrc hbec =>
    rw [Registry.step_delServer hlen hcmd (ne_einval_of_enoent hrc)]
    exact hone hlocal
  | newLookup _ hcmd hsrc hl hbec =>
    rw [Registry.step_of_notMem (by rw [hcmd]; decide), htoSrc _ hsrc]
    · exact speaks_nil _ _
    · intro m hm
      rcases List.mem_append.1 hm with hm | hm
      · obtain ⟨srv, -, rfl⟩ := List.mem_map.1 hm
        rfl
      · rw [List.mem_singleton.1 hm]
  | delLookup _ hcmd hbec =>
    rw [Registry.step_of_notMem (by rw [hcmd]; decide)]
    exact speaks_nil _ _

end

/-- What `q` receives of the turns. -/
def receivedIn (q : Sq) (ts : List Turn) : List (List UInt8) :=
  ts.flatMap fun t => received q (sent t.calls)

theorem Speaks.append {a : UInt32} {ms ms' : List (List UInt8)}
    {S S' S'' : UInt32 → Option Server} (h : Speaks a ms S S') (h' : Speaks a ms' S' S'') :
    Speaks a (ms ++ ms') S S'' := by
  refine ⟨List.forall_mem_append.2 ⟨h.1, h'.1⟩, ?_⟩
  rw [List.filterMap_append, applyAll_append, ← h.2]
  exact h'.2

/-- What `q` hears of a stretch of a run is what the stretch does to the registry of the node. -/
theorem Loop.speaks {a : UInt32} {pre mid : List Turn} {ctx : Context}
    (h : Loop (.start a) (pre ++ mid) ctx) (hb : ∀ t ∈ pre ++ mid, t.Unburied) {q : Sq}
    (hq : q.node ≠ a) (hbc : QRTR_NODE_BCAST ≠ a) :
    Speaks a (receivedIn q mid) (registry a pre a) (registry a (pre ++ mid) a) := by
  induction mid using List.reverseRecOn generalizing ctx with
  | nil =>
    rw [List.append_nil]
    exact speaks_nil _ _
  | append_singleton mid t ih =>
    rw [← List.append_assoc, List.forall_mem_append] at hb
    obtain ⟨hloop, ctx', hrun⟩ := h.split (show _ = (pre ++ mid) ++ t :: [] by simp)
    obtain ⟨hok, hlocal⟩ := hloop.keeps (ok_start a)
    rw [show (Context.start a).localNode = a from rfl] at hlocal
    have hturn := (ctrlPortFn_effect hok hrun).speaks (q := q) (hloop.holds hb.1) hloop.filed
      hloop.lookups_local (by rwa [hlocal]) (by rwa [hlocal])
    rw [hlocal, ← registry_concat] at hturn
    have hall := (ih hloop hb.1).append hturn
    rw [receivedIn, List.flatMap_append, ← List.append_assoc]
    simpa [receivedIn] using hall

/-! ## An answer in full -/

section

variable {ctx : Context} {tr : List (Call Ret)}

theorem sendto_delivered {dest : Sq} {msg : List UInt8} {rc : Int}
    (h : Runs (sendto dest msg) tr rc) (hall : ∀ e ∈ tr, Delivered e) : 0 < rc := by
  obtain ⟨answer, tr', hk, rfl⟩ := runs_request_bind.1 h
  have hpos := hall _ List.mem_cons_self
  cases answer with
  | none => exact absurd hpos (lt_irrefl 0)
  | some n =>
    obtain ⟨-, rfl⟩ := runs_pure.1 hk
    exact Int.natCast_pos.2 hpos

theorem annouceLoop_delivered {sq : Sq} {l : List Server} {rc : Int}
    (h : Runs (annouceLoop sq l) tr rc) (hall : ∀ e ∈ tr, Delivered e) :
    sent tr = l.map fun srv => (sq, newMsg srv) := by
  induction l generalizing tr with
  | nil =>
    obtain ⟨rfl, rfl⟩ := runs_pure.1 h
    rfl
  | cons srv l ih =>
    obtain ⟨rc', tr₁, tr₂, h₁, h₂, rfl⟩ := runs_bind.1 h
    rw [List.forall_mem_append] at hall
    have hpos := sendto_delivered h₁ hall.1
    rw [if_neg (not_lt.2 hpos.le)] at h₂
    rw [sent_append, (sent_sendto h₁).1, ih h₂ hall.2]
    rfl

/-- A hello is answered with itself and every service of the node. -/
theorem ctrlCmdHello_delivered (hok : ctx.Ok) {sq : Sq} {buf : List UInt8} {r : Int × Context}
    (h : Runs (ctrlCmdHello ctx sq buf) tr r) (hall : ∀ e ∈ tr, Delivered e) :
    sent tr = (sq, buf) ::
      (ctx.services ctx.localNode).forEach.map fun srv => (sq, newMsg srv) := by
  obtain ⟨rc, tr₁, tr₂, h₁, hr, rfl⟩ := runs_bind.1 h
  rw [List.forall_mem_append] at hall
  have hpos := sendto_delivered h₁ hall.1
  rw [if_pos hpos] at hr
  obtain ⟨g, tr₃, tr₄, h₃, hg, rfl⟩ := runs_bind.1 hr
  rw [List.forall_mem_append] at hall
  obtain ⟨hnone, hget, hnode⟩ := nodeGet_spec hok h₃
  rw [sent_append, (sent_sendto h₁).1, sent_append, hnone]
  rcases hnode with ⟨hsome, -⟩ | ⟨hsome, hcreate⟩
  · rw [hsome] at hg
    obtain ⟨rc', tr₅, tr₆, h₅, h₆, rfl⟩ := runs_bind.1 hg
    obtain ⟨rfl, rfl⟩ := runs_pure.1 h₆
    rw [List.append_nil] at hall ⊢
    rw [annouceLoop_delivered h₅ hall.2.2, hget.services]
    rfl
  · rw [hsome] at hg
    obtain ⟨rfl, rfl⟩ := runs_pure.1 hg
    rw [hcreate]
    rfl

end

/-- The turn answers a hello of `q`, and everything it sends goes out. -/
structure Turn.AnswersHello (q : Sq) (t : Turn) : Prop where
  len : 4 ≤ t.d.len
  cmd : t.d.msg.cmd = QRTR_TYPE_HELLO
  src : t.d.src = q
  delivered : ∀ e ∈ t.calls, Delivered e

theorem Turn.AnswersHello.sent_eq {q : Sq} {t : Turn} (h : t.AnswersHello q) (hok : t.before.Ok)
    {r : Int × Context} (hrun : Runs (ctrlPortFn t.before t.d) t.calls r) :
    sent t.calls = (q, t.d.message) ::
      (t.before.services t.before.localNode).forEach.map fun srv => (q, newMsg srv) := by
  have hlen := h.len
  have hcmd : (CtrlPkt.read t.d.buf).cmd = QRTR_TYPE_HELLO := h.cmd
  unfold ctrlPortFn at hrun
  rw [if_neg (by omega), if_neg (by omega)] at hrun
  unfold ctrlSwitch at hrun
  dsimp only at hrun
  rw [if_pos hcmd, h.src] at hrun
  exact ctrlCmdHello_delivered hok hrun h.delivered

/-! ## Both sides -/

/-- In `ts` the messages that come from node `a` are those that `q` receives of `mid`, in order, and
none is refused. -/
structure Hears (a : UInt32) (q : Sq) (mid ts : List Turn) : Prop where
  messages : (ts.filter fun t => t.d.src.node = a).map (fun t => t.d.message) = receivedIn q mid
  accepted : ∀ t ∈ ts, t.d.src.node = a → t.rc ≠ -EINVAL

section

variable {a b : UInt32} {q : Sq} {pre mid ts : List Turn} {ctx ctx' : Context}

/-- `b` is behind `a`, from wherever it began to listen. -/
theorem Hears.behind (h : Hears a q mid ts) (hloop : Loop (.start a) (pre ++ mid) ctx)
    (hb : ∀ t ∈ pre ++ mid, t.Unburied) (hab : a ≠ b) (hq : q.node = b)
    (hbc : QRTR_NODE_BCAST ≠ a) : Behind (registry b ts a) (registry a (pre ++ mid) a) := by
  obtain ⟨hwords, hchanges⟩ := hloop.speaks hb (q := q) (by rw [hq]; exact hab.symm) hbc
  rw [registry_words hab h.messages hwords h.accepted, hchanges]
  exact (behind_empty _).applyAll _

theorem Hears.caughtUp {mid₁ mid₂ : List Turn} {t : Turn} (h : Hears a q (mid₁ ++ t :: mid₂) ts)
    (hloop : Loop (.start a) (pre ++ (mid₁ ++ t :: mid₂)) ctx)
    (hb : ∀ u ∈ pre ++ (mid₁ ++ t :: mid₂), u.Unburied) (hab : a ≠ b) (hq : q.node = b)
    (hbc : QRTR_NODE_BCAST ≠ a) (ht : t.AnswersHello q) :
    registry b ts a = registry a (pre ++ (mid₁ ++ t :: mid₂)) a := by
  have hqa : q.node ≠ a := by
    rw [hq]
    exact hab.symm
  obtain ⟨hwords, -⟩ := hloop.speaks hb hqa hbc
  -- the run up to the hello, over it, and after it
  have hbefore : ∀ u ∈ pre ++ mid₁, u.Unburied := fun u hu => hb u (by
    rcases List.mem_append.1 hu with hu | hu
    · simp [hu]
    · simp [hu])
  obtain ⟨hfirst, ctx₁, hrun⟩ := hloop.split (show _ = (pre ++ mid₁) ++ t :: mid₂ by simp)
  have hlast : pre ++ (mid₁ ++ t :: mid₂) = (pre ++ mid₁ ++ [t]) ++ mid₂ := by simp
  have hfirstSpeaks := (hfirst.speaks hbefore hqa hbc).2
  have hlastSpeaks := (Loop.speaks (hlast ▸ hloop) (hlast ▸ hb) hqa hbc).2
  rw [← hlast] at hlastSpeaks
  obtain ⟨hok, hlocal⟩ := hfirst.keeps (ok_start a)
  rw [show (Context.start a).localNode = a from rfl] at hlocal
  have hholds := hfirst.holds hbefore
  have hR := hfirst.filed
  have hmem : ∀ srv, srv ∈ (t.before.services a).forEach ↔
      registry a (pre ++ mid₁) a srv.port = some srv := fun srv => hholds.mem_forEach hR
  -- the answer announces everything
  have hanswer : (received q (sent t.calls)).filterMap changeOf =
      (t.before.services a).forEach.map add := by
    rw [ht.sent_eq hok hrun, hlocal, received_of_all]
    · rw [List.map_cons, List.filterMap_cons_none (changeOf_message ht.cmd), List.map_map,
        List.filterMap_map, ← List.filterMap_eq_map]
      refine List.filterMap_congr fun srv hsrv => ?_
      exact changeOf_newMsg (hR _ _ _ ((hmem srv).1 hsrv)).2.2.1
    · rw [List.forall_mem_cons]
      refine ⟨Or.inl rfl, fun m hm => ?_⟩
      obtain ⟨srv, -, rfl⟩ := List.mem_map.1 hm
      exact Or.inl rfl
  have hquiet : registry a (pre ++ mid₁ ++ [t]) = registry a (pre ++ mid₁) := by
    rw [registry_concat, Registry.step_of_notMem (by rw [ht.cmd]; decide)]
  have hbehind : Behind (applyAll Server.port (fun _ => none) ((receivedIn q mid₁).filterMap changeOf))
      (registry a (pre ++ mid₁) a) := by
    rw [hfirstSpeaks]
    exact (behind_empty _).applyAll _
  have hreceived : receivedIn q (mid₁ ++ t :: mid₂) =
      receivedIn q mid₁ ++ (received q (sent t.calls) ++ receivedIn q mid₂) := by
    simp [receivedIn]
  rw [registry_words hab h.messages hwords h.accepted, hreceived, List.filterMap_append,
    List.filterMap_append, applyAll_append, applyAll_append, hanswer,
    hbehind.catchUp (fun port srv hsrv => (hR _ _ _ hsrv).2.1) hmem, hlastSpeaks, hquiet]

end

/-- When `b` has handled all that `a` has said: from the turn on in which `a` answers the hello of `b`,
both name servers list the same services of `a`; before it, `b` lists none that `a` has not
registered there.  For this `b` need not have heard `a` from its start, but neither may put a buried
key. -/
theorem Loop.agree {a b : UInt32} {q : Sq} {pre mid tsA tsB : List Turn} {ctxA ctxB : Context}
    (hA : Loop (.start a) tsA ctxA) (hbA : ∀ t ∈ tsA, t.Unburied)
    (hB : Loop (.start b) tsB ctxB) (hbB : ∀ t ∈ tsB, t.Unburied)
    (hab : a ≠ b) (hq : q.node = b) (hbc : QRTR_NODE_BCAST ≠ a) (hts : tsA = pre ++ mid)
    (hears : Hears a q mid tsB) :
    (∀ port srv, (ctxB.services a).get (hashU32 port) = some srv →
      (ctxA.services a).get (hashU32 port) = some srv) ∧
      ((∃ t ∈ mid, t.AnswersHello q) →
        (∀ port, (ctxB.services a).get (hashU32 port) = (ctxA.services a).get (hashU32 port)) ∧
          (ctxB.services a).forEach.Perm (ctxA.services a).forEach) := by
  subst hts
  have hholdsA := hA.holds hbA
  have hholdsB := hB.holds hbB
  refine ⟨fun port srv hsrv => ?_, ?_⟩
  · rw [hholdsB.get_eq] at hsrv
    rw [hholdsA.get_eq]
    rcases hears.behind hA hbA hab hq hbc port with hnone | hsame
    · rw [hnone] at hsrv
      cases hsrv
    · rw [← hsame, hsrv]
  · rintro ⟨t, ht, hhello⟩
    obtain ⟨mid₁, mid₂, rfl⟩ := List.append_of_mem ht
    have hsame := hears.caughtUp hA hbA hab hq hbc hhello
    refine ⟨fun port => ?_, ?_⟩
    · rw [hholdsA.get_eq, hholdsB.get_eq, hsame]
    · rw [List.perm_ext_iff_of_nodup (hholdsB.nodup_forEach hB.filed a)
        (hholdsA.nodup_forEach hA.filed a)]
      intro srv
      rw [hholdsA.mem_forEach hA.filed, hholdsB.mem_forEach hB.filed, hsame]

/-- From end to end, under the same conditions: of the servers on node `a`, a client of `b` that all
messages to it reach knows those that `a` lists and that a lookup of the client matches. -/
theorem Loop.knows_remote {a b : UInt32} {q c : Sq} {pre mid tsA tsB : List Turn}
    {ctxA ctxB : Context} (hA : Loop (.start a) tsA ctxA) (hbA : ∀ t ∈ tsA, t.Unburied)
    (hB : Loop (.start b) tsB ctxB) (hbB : ∀ t ∈ tsB, t.Unburied)
    (hab : a ≠ b) (hq : q.node = b) (hbc : QRTR_NODE_BCAST ≠ a) (hts : tsA = pre ++ mid)
    (hears : Hears a q mid tsB) (hhello : ∃ t ∈ mid, t.AnswersHello q)
    (hlistens : Listens c tsB) (hsend : Reaches c tsB) (hd : Undisplaced b c tsB) {srv : Server}
    (hsrv : srv.node = a) :
    Outstanding (heardIn c tsB) srv ↔
      srv ∈ (ctxA.services a).forEach ∧ ∃ l ∈ ctxB.lookups, l.sq = c ∧ l.Matches srv := by
  subst hts
  obtain ⟨t, ht, hhello⟩ := hhello
  obtain ⟨mid₁, mid₂, rfl⟩ := List.append_of_mem ht
  have hsame := hears.caughtUp hA hbA hab hq hbc hhello
  have htold : Told b ctxB.lookups c srv ↔ ∃ l ∈ ctxB.lookups, l.sq = c ∧ l.Matches srv :=
    or_iff_right fun hlocal => hab (hsrv.symm.trans hlocal.2)
  rw [hB.observed hbB hlistens hsend hd srv, htold, hsrv, hsame,
    (hA.holds hbA).mem_forEach hA.filed]

/-- On node 1 a client asks for the service, and the name server of node 2 is heard. -/
def listening : List Datagram :=
  .ofBytes ⟨1, 6⟩ (qrtrNewLookup 4097 0 0).bytes ::
    (receivedIn ⟨1, QRTR_PORT_CTRL⟩ publishedRun.1).map (.ofBytes ⟨2, QRTR_PORT_CTRL⟩)

def listeningRun : List Turn × Context := turnsOf (.start 1) listening

theorem loop_listening : Loop (.start 1) listeningRun.1 listeningRun.2 := loop_turnsOf _ _

theorem hears_listening : (∀ t ∈ listeningRun.1, t.Unburied) ∧
    ((listeningRun.1.filter fun t => t.d.src.node = 2).map (fun t => t.d.message) =
      receivedIn ⟨1, QRTR_PORT_CTRL⟩ publishedRun.1 ∧
    ∀ t ∈ listeningRun.1, t.d.src.node = 2 → t.rc ≠ -EINVAL) ∧
    Listens ⟨1, 6⟩ listeningRun.1 ∧ Reaches ⟨1, 6⟩ listeningRun.1 ∧ Undisplaced 1 ⟨1, 6⟩ listeningRun.1 ∧
    ∃ l ∈ listeningRun.2.lookups, l.sq = ⟨1, 6⟩ ∧ l.Matches ⟨4097, 513, 2, 9⟩ := by
  decide +kernel

theorem hello_published : (∃ t ∈ publishedRun.1, 4 ≤ t.d.len ∧ t.d.msg.cmd = QRTR_TYPE_HELLO ∧
    t.d.src = ⟨1, QRTR_PORT_CTRL⟩ ∧ ∀ e ∈ t.calls, Delivered e) ∧
    (publishedRun.2.services 2).forEach = [⟨4097, 513, 2, 9⟩] := by
  decide +kernel

theorem agree_listening :
    (listeningRun.2.services 2).get (hashU32 9) = (publishedRun.2.services 2).get (hashU32 9) := by
  obtain ⟨hb, ⟨hmessages, haccepted⟩, -⟩ := hears_listening
  obtain ⟨⟨t, ht, hlen, hcmd, hsrc, hall⟩, -⟩ := hello_published
  obtain ⟨-, hagree⟩ := loop_published.agree unburied_published.1 loop_listening hb
    (by decide) rfl (by decide) (List.nil_append _).symm
    ⟨hmessages, haccepted⟩
  exact (hagree ⟨t, ht, hlen, hcmd, hsrc, hall⟩).1 9

theorem knows_remote_listening :
    Outstanding (heardIn ⟨1, 6⟩ listeningRun.1) ⟨4097, 513, 2, 9⟩ := by
  obtain ⟨hb, ⟨hmessages, haccepted⟩, hlistens, hsend, hd, hlookup⟩ := hears_listening
  obtain ⟨⟨t, ht, hlen, hcmd, hsrc, hall⟩, hlist⟩ := hello_published
  refine (loop_published.knows_remote unburied_published.1 loop_listening hb
    (by decide) rfl (by decide) (List.nil_append _).symm
    ⟨hmessages, haccepted⟩ ⟨t, ht, hlen, hcmd, hsrc, hall⟩
    hlistens hsend hd rfl).2 ⟨?_, hlookup⟩
  rw [hlist]
  exact List.mem_singleton.2 rfl

end DragonQ6A.Qrtr
