import DragonQ6A.Mirror.CatchUp
import DragonQ6A.Qrtr.Registry

/-!
# What the observers hear

A socket hears of servers through its lookups, and everyone hears of the local ones.  The servers
that a socket has been told of, and not told the end of, are those of the registry it is to be told
of, after every turn, if and only if no server it was told of is displaced by another on the same
port (`Loop.observed_iff`): the name server says nothing of a server that is replaced.  For this the
messages to the socket have to go out: the name server does not send one again.
-/

open Calls Probe Mirror
open Change (add remove)

namespace DragonQ6A.Qrtr

open Context

/-! ## Messages -/

/-- The change that a message announces; the last answer to a lookup, all zero, announces none. -/
def changeOf (msg : List UInt8) : Option (Change Server) :=
  match CtrlPkt.parse msg with
  | some p =>
    let srv : Server := ⟨p.service, p.inst, p.node, p.port⟩
    if p.cmd = QRTR_TYPE_NEW_SERVER then if srv = ⟨0, 0, 0, 0⟩ then none else some (add srv)
    else if p.cmd = QRTR_TYPE_DEL_SERVER then some (remove srv)
    else none
  | none => none

/-- The changes in the messages to `q`. -/
def heard (q : Sq) (out : List (Sq × List UInt8)) : List (Change Server) :=
  out.filterMap fun m => if m.1 = q then changeOf m.2 else none

@[simp] theorem changeOf_delMsg (srv : Server) : changeOf (delMsg srv) = some (remove srv) := by
  rw [changeOf, delMsg, CtrlPkt.parse_bytes]
  rfl

theorem changeOf_newMsg {srv : Server} (h : srv.service ≠ 0) :
    changeOf (newMsg srv) = some (add srv) := by
  have hne : srv ≠ ⟨0, 0, 0, 0⟩ := fun heq => h (by rw [heq])
  rw [changeOf, newMsg, CtrlPkt.parse_bytes]
  exact if_neg hne

theorem changeOf_bytes {p : CtrlPkt} (hnew : p.cmd ≠ QRTR_TYPE_NEW_SERVER)
    (hdel : p.cmd ≠ QRTR_TYPE_DEL_SERVER) : changeOf p.bytes = none := by
  rw [changeOf, CtrlPkt.parse_bytes]
  simp [hnew, hdel]

theorem changeOf_last : changeOf (CtrlPkt.bytes ⟨QRTR_TYPE_NEW_SERVER, 0, 0, 0, 0⟩) = none := by
  rw [changeOf, CtrlPkt.parse_bytes]
  rfl

@[simp] theorem heard_nil (q : Sq) : heard q [] = [] := rfl

@[simp] theorem heard_append (q : Sq) (out out' : List (Sq × List UInt8)) :
    heard q (out ++ out') = heard q out ++ heard q out' :=
  List.filterMap_append

theorem mem_heard {q : Sq} {out : List (Sq × List UInt8)} {c : Change Server} :
    c ∈ heard q out ↔ ∃ msg, (q, msg) ∈ out ∧ changeOf msg = some c := by
  simp only [heard, List.mem_filterMap]
  constructor
  · rintro ⟨⟨dest, msg⟩, hm, hc⟩
    split_ifs at hc with hq
    exact ⟨msg, by rwa [← hq], hc⟩
  · rintro ⟨msg, hm, hc⟩
    exact ⟨(q, msg), hm, by simp [hc]⟩

theorem heard_of_ne {q : Sq} {out : List (Sq × List UInt8)} (h : ∀ m ∈ out, m.1 ≠ q) :
    heard q out = [] := by
  rw [heard, List.filterMap_eq_nil_iff]
  intro m hm
  rw [if_neg (h m hm)]

theorem heard_of_none {q : Sq} {out : List (Sq × List UInt8)} (h : ∀ m ∈ out, changeOf m.2 = none) :
    heard q out = [] := by
  rw [heard, List.filterMap_eq_nil_iff]
  intro m hm
  rw [h m hm, ite_self]

/-- The server is one that `q` is told of. -/
def Told (localNode : UInt32) (lookups : List Lookup) (q : Sq) (srv : Server) : Prop :=
  (q = bcastSq ∧ srv.node = localNode) ∨ ∃ l ∈ lookups, l.sq = q ∧ l.Matches srv

theorem mem_notes {lookups : List Lookup} {srv : Server} {msg msg' : List UInt8} {q : Sq} :
    (q, msg') ∈ notes lookups srv msg ↔
      msg' = msg ∧ ∃ l ∈ lookups, l.sq = q ∧ l.Matches srv := by
  simp only [notes, List.mem_map, List.mem_filter, decide_eq_true_eq, Prod.mk.injEq]
  constructor
  · rintro ⟨l, ⟨hl, hmatch⟩, hq, hmsg⟩
    exact ⟨hmsg.symm, l, hl, hq, hmatch⟩
  · rintro ⟨hmsg, l, hl, hq, hmatch⟩
    exact ⟨l, ⟨hl, hmatch⟩, hq, hmsg.symm⟩

theorem mem_heard_news {ctx : Context} {q : Sq} {srv : Server} {msg : List UInt8}
    {c : Change Server} : c ∈ heard q (news ctx srv msg) ↔
      changeOf msg = some c ∧ Told ctx.localNode ctx.lookups q srv := by
  have hmem : ∀ msg', (q, msg') ∈ news ctx srv msg ↔
      msg' = msg ∧ Told ctx.localNode ctx.lookups q srv := by
    intro msg'
    have hbcast : (q, msg') ∈ (if srv.node = ctx.localNode then [(bcastSq, msg)] else []) ↔
        msg' = msg ∧ q = bcastSq ∧ srv.node = ctx.localNode := by
      split
      · next hlocal =>
        simp only [List.mem_singleton, Prod.mk.injEq, hlocal, and_true]
        exact and_comm
      · next hlocal => simp [hlocal]
    rw [news, List.mem_append, hbcast, mem_notes, Told]
    exact and_or_left.symm
  rw [mem_heard]
  constructor
  · rintro ⟨msg', hm, hc⟩
    obtain ⟨rfl, htold⟩ := (hmem msg').1 hm
    exact ⟨hc, htold⟩
  · rintro ⟨hc, htold⟩
    exact ⟨msg, (hmem msg).2 ⟨rfl, htold⟩, hc⟩

/-! ## Messages that go out -/

/-- The call, if it is a send, sent something. -/
def Delivered (e : Call Ret) : Prop :=
  match e with
  | ⟨.sendto _ _, answer, _, _⟩ => 0 < Option.getD (α := ℕ) answer 0
  | _ => True

instance : (e : Call Ret) → Decidable (Delivered e)
  | ⟨.sendto _ _, answer, _, _⟩ => inferInstanceAs (Decidable (0 < Option.getD (α := ℕ) answer 0))
  | ⟨.calloc, _, _, _⟩ => inferInstanceAs (Decidable True)
  | ⟨.stack, _, _, _⟩ => inferInstanceAs (Decidable True)

/-- The messages that went out; nobody learns of one whose `sendto` failed. -/
def delivered (tr : List (Call Ret)) : List (Sq × List UInt8) :=
  sent (tr.filter fun e => decide (Delivered e))

/-- Every message to `q` goes out. -/
def Reaches (q : Sq) (ts : List Turn) : Prop :=
  ∀ t ∈ ts, ∀ e ∈ t.calls, (sending e).map Prod.fst = some q → Delivered e

instance (q : Sq) (ts : List Turn) : Decidable (Reaches q ts) :=
  inferInstanceAs (Decidable (∀ t ∈ ts, ∀ e ∈ t.calls, _ → _))

theorem filter_delivered {q : Sq} {tr : List (Call Ret)}
    (h : ∀ e ∈ tr, (sending e).map Prod.fst = some q → Delivered e) :
    (delivered tr).filter (fun m => m.1 = q) = (sent tr).filter fun m => m.1 = q := by
  induction tr with
  | nil => rfl
  | cons e tr ih =>
    rw [List.forall_mem_cons] at h
    have htail := ih h.2
    unfold delivered sent at htail ⊢
    by_cases he : Delivered e
    · rw [List.filter_cons_of_pos (by simpa using he), List.filterMap_cons, List.filterMap_cons]
      cases hs : sending e with
      | none => exact htail
      | some m => rw [List.filter_cons, List.filter_cons, htail]
    · rw [List.filter_cons_of_neg (by simpa using he), htail, List.filterMap_cons]
      cases hs : sending e with
      | none => rfl
      | some m =>
        have hm : m.1 ≠ q := fun hq => he (h.1 (by rw [hs, ← hq]; rfl))
        rw [List.filter_cons_of_neg (by simpa using hm)]

theorem mem_delivered {q : Sq} {t : Turn} (h : Reaches q [t]) {msg : List UInt8} :
    (q, msg) ∈ delivered t.calls ↔ (q, msg) ∈ sent t.calls := by
  have hfilter := filter_delivered (h t List.mem_cons_self)
  have hmem : ∀ out : List (Sq × List UInt8),
      (q, msg) ∈ out ↔ (q, msg) ∈ out.filter fun m => m.1 = q := by simp
  rw [hmem, hfilter, ← hmem]

theorem heard_delivered {q : Sq} {t : Turn} (h : Reaches q [t]) :
    heard q (delivered t.calls) = heard q (sent t.calls) := by
  have hfilter := filter_delivered (h t List.mem_cons_self)
  have hheard : ∀ out : List (Sq × List UInt8),
      heard q out = (out.filter fun m => m.1 = q).filterMap fun m => changeOf m.2 := by
    intro out
    rw [List.filterMap_filter, heard]
    simp only [decide_eq_true_eq]
  rw [hheard, hfilter, ← hheard]

/-! ## Queries -/

section

variable {ctx : Context} {R : Registry} {f : ServerFilter} {srv : Server}

theorem Context.Ok.services_eq (hok : ctx.Ok) {n : Node} (hn : n ∈ ctx.nodes.forEach) :
    ctx.services n.id = n.services := by
  obtain ⟨g, hg, hids⟩ := hok
  rw [RawMap.forEach_eq, List.mem_map] at hn
  obtain ⟨⟨key, n'⟩, he, rfl⟩ := hn
  have hsome := hg.mem_entries.1 he
  rw [Context.services, hids _ _ hsome, hg.get_eq, hsome]

theorem Context.Ok.nodup_ids (hok : ctx.Ok) : (ctx.nodes.forEach.map Node.id).Nodup := by
  obtain ⟨g, hg, hids⟩ := hok
  have hkeys : (ctx.nodes.entries.map Prod.fst).Nodup := hg.nodup
  rw [List.map_congr_left fun e he => (hids e.1 e.2 (hg.mem_entries.1 he)).symm] at hkeys
  rw [RawMap.forEach_eq, List.map_map]
  refine List.Nodup.of_map hashU32 ?_
  rwa [List.map_map]

theorem mem_serverQuery (hok : ctx.Ok) (hholds : ctx.Holds R) (hR : R.Filed) :
    srv ∈ serverQuery ctx f ↔ R srv.node srv.port = some srv ∧ serverMatch srv f = true := by
  simp only [serverQuery, List.mem_flatMap, List.mem_filter]
  constructor
  · rintro ⟨n, hn, hsrv, hmatch⟩
    rw [← hok.services_eq hn, hholds.mem_forEach hR] at hsrv
    rw [(hR _ _ _ hsrv).1]
    exact ⟨hsrv, hmatch⟩
  · rintro ⟨hsrv, hmatch⟩
    have hmem := (hholds.mem_forEach hR).2 hsrv
    cases hget : ctx.nodes.get (hashU32 srv.node) with
    | none =>
      rw [services_eq_create hget] at hmem
      cases hmem
    | some n =>
      have hid := hok.id_eq hget
      obtain ⟨g, hg, -⟩ := hok
      refine ⟨n, ?_, ?_, hmatch⟩
      · rw [RawMap.forEach_eq, List.mem_map]
        refine ⟨(hashU32 srv.node, n), hg.mem_entries.2 ?_, rfl⟩
        rwa [← hg.get_eq]
      · rwa [Context.services, hget] at hmem

/-- A query gives a server once. -/
theorem nodup_serverQuery (hok : ctx.Ok) (hholds : ctx.Holds R) (hR : R.Filed) :
    (serverQuery ctx f).Nodup := by
  rw [serverQuery, List.nodup_flatMap]
  refine ⟨fun n hn => ?_, ?_⟩
  · rw [← hok.services_eq hn]
    exact (hholds.nodup_forEach hR n.id).filter _
  · have hids : ctx.nodes.forEach.Pairwise fun n n' => n.id ≠ n'.id :=
      List.pairwise_map.1 hok.nodup_ids
    refine hids.imp_of_mem fun {n n'} hn hn' hne srv hsrv hsrv' => hne ?_
    have hmem := (List.mem_filter.1 hsrv).1
    have hmem' := (List.mem_filter.1 hsrv').1
    rw [← hok.services_eq hn, hholds.mem_forEach hR] at hmem
    rw [← hok.services_eq hn', hholds.mem_forEach hR] at hmem'
    exact (hR _ _ _ hmem).1.symm.trans (hR _ _ _ hmem').1

end

def DIAG_SERVICE : UInt32 := 4097

/-- A line that `qrtr-lookup` prints, without the names; the version can be `N/A`. -/
structure Row where
  service : UInt32
  version : Option UInt32
  inst : UInt32
  node : UInt32
  port : UInt32
deriving DecidableEq

/-- The line about a `NEW_SERVER` packet. -/
def lookupRow (pkt : CtrlPkt) : Row :=
  if pkt.service = DIAG_SERVICE then ⟨pkt.service, none, pkt.inst, pkt.node, pkt.port⟩
  else ⟨pkt.service, some (pkt.inst &&& 0xff), pkt.inst >>> 8, pkt.node, pkt.port⟩

/-- The loop of `qrtr-lookup` over what it receives. -/
def lookupLoop : List (List UInt8) → List Row
  | [] => []
  | msg :: rest =>
    if msg.length = 0 then []
    else
      let pkt := CtrlPkt.read fun i => msg.getD i 0
      if msg.length < 20 ∨ pkt.cmd ≠ QRTR_TYPE_NEW_SERVER then lookupLoop rest
      else if pkt.service = 0 ∧ pkt.inst = 0 ∧ pkt.node = 0 ∧ pkt.port = 0 then []
      else lookupRow pkt :: lookupLoop rest

/-- The line about a server. -/
def Server.row (srv : Server) : Row := lookupRow (serverPkt QRTR_TYPE_NEW_SERVER srv)

theorem lookupLoop_eq (l : List Server) (hl : ∀ srv ∈ l, srv.service ≠ 0)
    (rest : List (List UInt8)) :
    lookupLoop (l.map newMsg ++ CtrlPkt.bytes ⟨QRTR_TYPE_NEW_SERVER, 0, 0, 0, 0⟩ :: rest) =
      l.map Server.row := by
  induction l with
  | nil =>
    rw [List.map_nil, List.nil_append, lookupLoop, CtrlPkt.length_bytes, CtrlPkt.read_bytes]
    rfl
  | cons srv l ih =>
    rw [List.forall_mem_cons] at hl
    have hne : ¬ (srv.service = 0 ∧ srv.inst = 0 ∧ srv.node = 0 ∧ srv.port = 0) :=
      fun h => hl.1 h.1
    rw [List.map_cons, List.cons_append, lookupLoop, ih hl.2, newMsg, CtrlPkt.length_bytes,
      CtrlPkt.read_bytes, List.map_cons, Server.row]
    simp only [serverPkt, hne, if_false]
    rfl

/-- The answer to a lookup, as it is handed to `sendto`, is each registered server that matches, once,
and then the packet that ends it; of these messages `qrtr-lookup` prints these servers. -/
theorem Loop.lookup {localNode : UInt32} {ts : List Turn} {ctx : Context}
    (h : Loop (.start localNode) ts ctx) (hb : ∀ t ∈ ts, t.Unburied) {pre post : List Turn}
    {t : Turn} (hts : ts = pre ++ t :: post) (hlen : 4 ≤ t.d.len)
    (hcmd : t.d.msg.cmd = QRTR_TYPE_NEW_LOOKUP) (hrc : t.rc ≠ -EINVAL) :
    ∃ l : List Server, l.Nodup ∧
      (∀ srv, srv ∈ l ↔ registry localNode pre srv.node srv.port = some srv ∧
        Lookup.Matches ⟨t.d.msg.service, t.d.msg.inst, t.d.src⟩ srv) ∧
      sent t.calls = l.map (fun srv => (t.d.src, newMsg srv)) ++
        [(t.d.src, CtrlPkt.bytes ⟨QRTR_TYPE_NEW_SERVER, 0, 0, 0, 0⟩)] ∧
      ∀ rest, lookupLoop ((sent t.calls).map Prod.snd ++ rest) = l.map Server.row := by
  obtain ⟨hpre, ctx', hrun⟩ := h.split hts
  have hholds := hpre.holds fun t' ht' => hb t' (by simp [hts, ht'])
  have hR := hpre.filed
  have hok := (hpre.keeps (ok_start localNode)).1
  refine ⟨serverQuery t.before ⟨t.d.msg.service, t.d.msg.inst, 0⟩,
    nodup_serverQuery hok hholds hR, fun srv => ?_, ?_⟩
  · rw [mem_serverQuery hok hholds hR,
      serverMatch_eq ⟨t.d.msg.service, t.d.msg.inst, t.d.src⟩ srv, decide_eq_true_iff]
  · obtain ⟨-, hsent, -⟩ := ((ctrlPortFn_effect hok hrun).accepted hlen hrc).2.1 hcmd
    refine ⟨hsent, fun rest => ?_⟩
    rw [hsent, List.map_append, List.map_map, List.append_assoc]
    exact lookupLoop_eq _ (fun srv hsrv => (hR _ _ _ ((mem_serverQuery hok hholds hR).1 hsrv).1).2.2.1)
      rest

theorem exists_lookup_published : ∃ t ∈ publishedRun.1, 4 ≤ t.d.len ∧
    t.d.msg.cmd = QRTR_TYPE_NEW_LOOKUP ∧ t.rc ≠ -EINVAL := by decide +kernel

theorem lookup_published : ∃ t ∈ publishedRun.1, ∃ l : List Server, l.Nodup ∧
    lookupLoop ((sent t.calls).map Prod.snd ++ []) = l.map Server.row := by
  obtain ⟨t, ht, hlen, hcmd, hrc⟩ := exists_lookup_published
  obtain ⟨pre, post, hts⟩ := List.append_of_mem ht
  obtain ⟨l, hnodup, -, -, hrows⟩ :=
    loop_published.lookup unburied_published.1 hts hlen hcmd hrc
  exact ⟨t, ht, l, hnodup, hrows []⟩

/-! ## What an observer knows -/

/-- The servers that `log` leaves announced are those in the registry that are to be told. -/
def Observed (R : Registry) (told : Server → Prop) (log : List (Change Server)) : Prop :=
  ∀ srv, Outstanding log srv ↔ R srv.node srv.port = some srv ∧ told srv

section

variable {R R' : Registry} {told told' : Server → Prop} {log out : List (Change Server)}

theorem observed_empty (told : Server → Prop) : Observed (fun _ _ => none) told [] := by
  intro srv
  exact iff_of_false (not_outstanding_nil srv) fun h => by cases h.1

theorem Observed.congr (h : Observed R told log) (ht : ∀ srv, told' srv ↔ told srv) :
    Observed R told' log := by
  intro srv
  rw [h srv, ht srv]

/-- Additions keep what an observer knows if and only if they are what is new to it. -/
theorem Observed.added_iff (h : Observed R told log) {N : Server → Prop}
    (hout : ∀ c, c ∈ out ↔ ∃ srv, N srv ∧ c = add srv) :
    Observed R' told' (log ++ out) ↔ ∀ srv,
      R' srv.node srv.port = some srv ∧ told' srv ↔ N srv ∨ R srv.node srv.port = some srv ∧ told srv := by
  have hrem : ∀ a, remove a ∉ out := by
    intro a ha
    obtain ⟨b, -, hab⟩ := (hout _).1 ha
    cases hab
  have hadd : ∀ a, add a ∈ out ↔ N a := by
    intro a
    rw [hout]
    constructor
    · rintro ⟨b, hb, hab⟩
      cases hab
      exact hb
    · intro ha
      exact ⟨a, ha, rfl⟩
  refine forall_congr' fun srv => ?_
  rw [outstanding_append_adds hrem, hadd, h srv]
  exact iff_comm

/-- The servers in `D` are gone, and all of them were told of. -/
theorem Observed.removed (h : Observed R told log) {D : Server → Prop}
    (hR : ∀ srv, R' srv.node srv.port = some srv ↔ R srv.node srv.port = some srv ∧ ¬ D srv)
    (hout : ∀ c, c ∈ out ↔ ∃ srv, D srv ∧ told srv ∧ c = remove srv) :
    Observed R' told (log ++ out) := by
  intro srv
  have hadd : ∀ a, add a ∉ out := by
    intro a ha
    obtain ⟨b, -, -, hab⟩ := (hout _).1 ha
    cases hab
  have hrem : remove srv ∈ out ↔ D srv ∧ told srv := by
    rw [hout]
    constructor
    · rintro ⟨b, hD, ht, hb⟩
      cases hb
      exact ⟨hD, ht⟩
    · rintro ⟨hD, ht⟩
      exact ⟨srv, hD, ht, rfl⟩
  rw [outstanding_append_removes hadd, hrem, h srv, hR srv]
  tauto

/-- The server on one port is gone. -/
theorem Observed.removed_one (h : Observed R told log) (hR : R.Filed) {node port : UInt32}
    (hout : ∀ c, c ∈ out ↔ ∃ srv, R node port = some srv ∧ told srv ∧ c = remove srv) :
    Observed (R.set node port none) told (log ++ out) := by
  refine h.removed (D := fun srv => R node port = some srv) (fun srv => ?_) hout
  rw [Registry.set_apply]
  by_cases hsrv : srv.node = node ∧ srv.port = port
  · rw [if_pos hsrv, hsrv.1, hsrv.2]
    simp
  · rw [if_neg hsrv]
    refine (and_iff_left fun hD => hsrv ?_).symm
    obtain ⟨hnode, hport, -⟩ := hR _ _ _ hD
    exact ⟨hnode, hport⟩

end

section

variable {ctx ctx' : Context} {d : Datagram} {rc : Int} {out : List (Sq × List UInt8)} {q : Sq}
  {R : Registry} {log : List (Change Server)}

theorem mem_heard_dels {l : List Server} {c : Change Server} :
    c ∈ heard q (l.flatMap fun srv => news ctx srv (delMsg srv)) ↔
      ∃ srv, srv ∈ l ∧ Told ctx.localNode ctx.lookups q srv ∧ c = remove srv := by
  rw [heard, List.filterMap_flatMap, List.mem_flatMap]
  refine exists_congr fun srv => and_congr_right fun _ => ?_
  have hnews : c ∈ heard q (news ctx srv (delMsg srv)) ↔ _ := mem_heard_news
  rw [changeOf_delMsg, Option.some.injEq, eq_comm, and_comm] at hnews
  exact hnews

theorem heard_toServices {m : Map Server} {cmd w₁ w₂ w₃ w₄ : UInt32}
    (hnew : cmd ≠ QRTR_TYPE_NEW_SERVER) (hdel : cmd ≠ QRTR_TYPE_DEL_SERVER) :
    heard q (toServices m (CtrlPkt.bytes ⟨cmd, w₁, w₂, w₃, w₄⟩)) = [] := by
  apply heard_of_none
  intro msg hmsg
  obtain ⟨srv, -, rfl⟩ := List.mem_map.1 hmsg
  exact changeOf_bytes hnew hdel

theorem told_congr {localNode : UInt32} {L L' : List Lookup} (h : ∀ l, l.sq = q → (l ∈ L' ↔ l ∈ L))
    (srv : Server) : Told localNode L' q srv ↔ Told localNode L q srv := by
  refine or_congr_right (exists_congr fun l => ?_)
  constructor
  · rintro ⟨hl, hq, hmatch⟩
    exact ⟨(h l hq).1 hl, hq, hmatch⟩
  · rintro ⟨hl, hq, hmatch⟩
    exact ⟨(h l hq).2 hl, hq, hmatch⟩

theorem heard_query (hok : ctx.Ok) (hholds : ctx.Holds R) (hR : R.Filed) {f : ServerFilter}
    {c : Change Server} :
    c ∈ heard q ((serverQuery ctx f).map (fun srv => (q, newMsg srv)) ++
        [(q, CtrlPkt.bytes ⟨QRTR_TYPE_NEW_SERVER, 0, 0, 0, 0⟩)]) ↔
      ∃ srv, (R srv.node srv.port = some srv ∧ serverMatch srv f = true) ∧ c = add srv := by
  have hlast : heard q [(q, CtrlPkt.bytes ⟨QRTR_TYPE_NEW_SERVER, 0, 0, 0, 0⟩)] = [] :=
    heard_of_none fun m hm => by rw [List.mem_singleton.1 hm, changeOf_last]
  rw [heard_append, hlast, List.append_nil, mem_heard]
  constructor
  · rintro ⟨msg, hmsg, hc⟩
    obtain ⟨srv, hsrv, heq⟩ := List.mem_map.1 hmsg
    cases heq
    rw [mem_serverQuery hok hholds hR] at hsrv
    rw [changeOf_newMsg (hR _ _ _ hsrv.1).2.2.1, Option.some.injEq] at hc
    exact ⟨srv, hsrv, hc.symm⟩
  · rintro ⟨srv, hsrv, rfl⟩
    refine ⟨newMsg srv, List.mem_map.2 ⟨srv, ?_, rfl⟩, changeOf_newMsg (hR _ _ _ hsrv.1).2.2.1⟩
    rwa [mem_serverQuery hok hholds hR]

/-- A turn that registers no server keeps what an observer knows, if the observer did not ask to be
told less. -/
theorem Effect.observed (h : Effect ctx d rc out ctx') (hok : ctx.Ok) (hholds : ctx.Holds R)
    (hR : R.Filed) (hlocal : ∀ l ∈ ctx.lookups, l.sq.node = ctx.localNode)
    (hq : d.src = q → d.msg.cmd ∉ [QRTR_TYPE_HELLO, QRTR_TYPE_DEL_CLIENT, QRTR_TYPE_DEL_LOOKUP])
    (hno : ¬ (4 ≤ d.len ∧ d.msg.cmd = QRTR_TYPE_NEW_SERVER ∧ rc ≠ -EINVAL))
    (hobs : Observed R (Told ctx.localNode ctx.lookups q) log) :
    Observed (R.step ctx.localNode d rc) (Told ctx.localNode ctx'.lookups q)
      (log ++ heard q out) := by
  cases h with
  | closed hlen =>
    rw [Registry.step, if_pos (Or.inl (by omega)), heard_nil, List.append_nil]
    exact hobs
  | ignored hcase _ =>
    rw [Registry.step_ignored hcase, heard_nil, List.append_nil]
    exact hobs
  | refused _ _ hbec =>
    rw [Registry.step, if_pos (Or.inr rfl), heard_nil, List.append_nil, hbec.lookups]
    exact hobs
  | @hello _ rc rest _ hcmd _ hpre hbec =>
    have hsrc : d.src ≠ q := fun hsrc => hq hsrc (by simp [hcmd])
    have hquiet : heard q ((d.src, (List.range d.len.toNat).map d.buf) :: rest) = [] := by
      apply heard_of_ne
      rw [List.forall_mem_cons]
      refine ⟨hsrc, fun m hm => ?_⟩
      obtain ⟨srv, -, rfl⟩ := List.mem_map.1 (hpre.subset hm)
      exact hsrc
    rw [Registry.step_of_notMem (by rw [hcmd]; decide), hquiet, List.append_nil, hbec.lookups]
    exact hobs
  | noNode hlen hcmd hcreate hbec =>
    rw [Registry.step_bye hlen hcmd (by decide), hholds.update_none hcreate, heard_nil,
      List.append_nil, hbec.lookups]
    exact hobs
  | bye hlen hcmd hS hbec =>
    rw [Registry.step_bye hlen hcmd (by decide), hbec.lookups, heard_append,
      heard_toServices (by decide) (by decide), List.append_nil,
      (clearAll_eq (hholds _) (hholds.filed hR _)).1]
    refine hobs.removed (D := fun srv => R d.src.node srv.port = some srv) (fun srv => ?_) ?_
    · by_cases hn : srv.node = d.src.node
      · rw [hn, Function.update_self]
        simp
      · rw [Function.update_of_ne hn]
        exact (and_iff_left fun hD => hn (hR _ _ _ hD).1).symm
    · intro c
      rw [mem_heard_dels]
      simp only [hholds.mem_forEach hR]
  | @delClient _ S L w₁ w₂ hlen hcmd _ hown hS hL hbec =>
    have hsrc : d.src ≠ q := fun hsrc => hq hsrc (by simp [hcmd])
    have htold : ∀ srv, Told ctx.localNode L q srv ↔ Told ctx.localNode ctx.lookups q srv := by
      refine told_congr fun l hl => ?_
      rw [hL, List.mem_filter]
      refine and_iff_left_of_imp fun hmem => decide_eq_true fun heq => hsrc ?_
      have hnode : d.src.node = ctx.localNode := by rw [← hlocal l hmem, heq]
      have hport := hown hnode
      rw [← hl, heq, ← hport]
    rw [Registry.step_delClient hlen hcmd (by decide), hbec.lookups, heard_append,
      heard_toServices (by decide) (by decide), List.append_nil]
    refine (hobs.congr htold).removed_one hR fun c => ?_
    rw [mem_heard_dels, hholds.get_eq]
    simp only [Option.mem_toList]
  | newServer hlen hcmd hrc _ _ _ _ _ =>
    exact absurd ⟨hlen, hcmd, ne_einval_of_neg_one_le hrc⟩ hno
  | delServer hlen hcmd _ hrc hbec =>
    rw [Registry.step_delServer hlen hcmd (ne_einval_of_enoent hrc), hbec.lookups]
    refine hobs.removed_one hR fun c => ?_
    rw [mem_heard_dels, hholds.get_eq]
    simp only [Option.mem_toList]
  | @newLookup _ l _ hcmd hsrc hl hbec =>
    rw [Registry.step_of_notMem (by rw [hcmd]; decide), hbec.lookups]
    by_cases hsq : d.src = q
    · rw [hsq]
      refine (hobs.added_iff fun c => heard_query hok hholds hR).2 fun srv => ?_
      have hself : l.sq = q := by rw [hl, hsq]
      have htold : Told ctx.localNode (ctx.lookups ++ [l]) q srv ↔
          l.Matches srv ∨ Told ctx.localNode ctx.lookups q srv := by
        simp only [Told, List.mem_append, List.mem_singleton, or_and_right, exists_or,
          exists_eq_left, hself, true_and]
        exact or_rotate.symm
      rw [htold, serverMatch_eq l, decide_eq_true_iff]
      exact and_or_left
    · rw [heard_of_ne, List.append_nil]
      · refine hobs.congr (told_congr fun l' hl' => ?_)
        rw [List.mem_append, List.mem_singleton]
        refine or_iff_left fun heq => hsq ?_
        rw [← hl', heq, hl]
      · intro m hm
        rcases List.mem_append.1 hm with hm | hm
        · obtain ⟨srv, -, rfl⟩ := List.mem_map.1 hm
          exact hsq
        · rw [List.mem_singleton.1 hm]
          exact hsq
  | delLookup _ hcmd hbec =>
    have hsrc : d.src ≠ q := fun hsrc => hq hsrc (by simp [hcmd])
    rw [Registry.step_of_notMem (by rw [hcmd]; decide), heard_nil, List.append_nil, hbec.lookups]
    refine hobs.congr (told_congr fun l hl => ?_)
    rw [List.mem_filter]
    refine and_iff_left_of_imp fun _ => decide_eq_true fun heq => hsrc ?_
    rw [← heq.1, hl]

/-- The turn puts another server in the place of `srv`. -/
structure Turn.Displaces (R : Registry) (t : Turn) (srv : Server) : Prop where
  len : 4 ≤ t.d.len
  cmd : t.d.msg.cmd = QRTR_TYPE_NEW_SERVER
  accepted : t.rc ≠ -EINVAL
  there : R t.d.src.node (t.d.port t.before.localNode) = some srv
  other : srv ≠ t.d.server t.before.localNode

/-- A turn keeps what an observer knows if and only if it displaces no server that the observer was
told of. -/
theorem Effect.observed_turn {calls : List (Call Ret)} (h : Effect ctx d rc (sent calls) ctx')
    (hok : ctx.Ok) (hholds : ctx.Holds R) (hR : R.Filed)
    (hlocal : ∀ l ∈ ctx.lookups, l.sq.node = ctx.localNode)
    (hq : d.src = q → d.msg.cmd ∉ [QRTR_TYPE_HELLO, QRTR_TYPE_DEL_CLIENT, QRTR_TYPE_DEL_LOOKUP])
    (hobs : Observed R (Told ctx.localNode ctx.lookups q) log) :
    Observed (R.step ctx.localNode d rc) (Told ctx.localNode ctx'.lookups q)
        (log ++ heard q (sent calls)) ↔
      ∀ srv, Turn.Displaces R ⟨ctx, d, calls, rc⟩ srv → ¬ Told ctx.localNode ctx.lookups q srv := by
  by_cases hnew : 4 ≤ d.len ∧ d.msg.cmd = QRTR_TYPE_NEW_SERVER ∧ rc ≠ -EINVAL
  · obtain ⟨hlen, hcmd, hrc⟩ := hnew
    obtain ⟨-, hservice, -, hout, mem, old, m, -, hbec⟩ := (h.accepted hlen hrc).1 hcmd
    generalize hsrv : d.server ctx.localNode = new at hout
    have hnew : new.node = d.src.node ∧ new.port = d.port ctx.localNode := by
      rw [← hsrv]
      exact ⟨rfl, rfl⟩
    rw [hout, hbec.lookups, Registry.step_newServer hlen hcmd hrc, hsrv, ← hnew.1, ← hnew.2]
    have hheard : ∀ c, c ∈ heard q (news ctx new (newMsg new)) ↔
        ∃ srv, (srv = new ∧ Told ctx.localNode ctx.lookups q srv) ∧ c = add srv := by
      intro c
      rw [mem_heard_news, changeOf_newMsg (by rw [← hsrv]; exact hservice), Option.some.injEq]
      constructor
      · rintro ⟨rfl, htold⟩
        exact ⟨new, ⟨rfl, htold⟩, rfl⟩
      · rintro ⟨srv, ⟨rfl, htold⟩, rfl⟩
        exact ⟨rfl, htold⟩
    rw [hobs.added_iff hheard]
    refine forall_congr' fun srv => ?_
    have hdisplaces : Turn.Displaces R ⟨ctx, d, calls, rc⟩ srv ↔
        R new.node new.port = some srv ∧ srv ≠ new := by
      rw [hnew.1, hnew.2, ← hsrv]
      constructor
      · exact fun hd => ⟨hd.there, hd.other⟩
      · exact fun hd => ⟨hlen, hcmd, hrc, hd.1, hd.2⟩
    rw [hdisplaces, Registry.set_apply]
    by_cases hplace : srv.node = new.node ∧ srv.port = new.port
    · rw [if_pos hplace, hplace.1, hplace.2, Option.some.injEq]
      by_cases heq : srv = new
      · simp [heq]
      · constructor
        · intro hiff hthere htold
          exact heq (hiff.2 (Or.inr ⟨hthere.1, htold⟩)).1.symm
        · intro hno
          refine iff_of_false (fun hsame => heq hsame.1.symm) ?_
          rintro (⟨hsame, -⟩ | ⟨hthere, htold⟩)
          · exact heq hsame
          · exact hno ⟨hthere, heq⟩ htold
    · have hne : srv ≠ new := fun heq => hplace (by rw [heq]; exact ⟨rfl, rfl⟩)
      rw [if_neg hplace]
      have hthere : R new.node new.port ≠ some srv := fun hR' => by
        obtain ⟨hnode, hport, -⟩ := hR _ _ _ hR'
        exact hplace ⟨hnode, hport⟩
      simp [hne, hthere]
  · refine iff_of_true (h.observed hok hholds hR hlocal hq hnew hobs) fun srv hd => ?_
    exact absurd ⟨hd.len, hd.cmd, hd.accepted⟩ hnew

end

/-- The changes a run tells `q` of, in messages that go out. -/
def heardIn (q : Sq) (ts : List Turn) : List (Change Server) :=
  ts.flatMap fun t => heard q (delivered t.calls)

theorem heardIn_concat {q : Sq} {ts : List Turn} {t : Turn} (h : Reaches q [t]) :
    heardIn q (ts ++ [t]) = heardIn q ts ++ heard q (sent t.calls) := by
  rw [← heard_delivered h]
  simp [heardIn]

/-- `q` never says hello and never withdraws a lookup. -/
def Listens (q : Sq) (ts : List Turn) : Prop :=
  ∀ t ∈ ts, t.d.src = q →
    t.d.msg.cmd ∉ [QRTR_TYPE_HELLO, QRTR_TYPE_DEL_CLIENT, QRTR_TYPE_DEL_LOOKUP]

/-- One more turn of a run, for an observer that knows what it is to know. -/
theorem Loop.observed_turn {localNode : UInt32} {ts : List Turn} {ctx ctx' : Context}
    {d : Datagram} {calls : List (Call Ret)} {rc : Int} (h : Loop (.start localNode) ts ctx)
    (hrun : Runs (ctrlPortFn ctx d) calls (rc, ctx')) (hb : ∀ t ∈ ts, t.Unburied) {q : Sq}
    (hq : Listens q [⟨ctx, d, calls, rc⟩]) (hsend : Reaches q [⟨ctx, d, calls, rc⟩])
    (hobs : Observed (registry localNode ts) (Told localNode ctx.lookups q) (heardIn q ts)) :
    Observed (registry localNode (ts ++ [⟨ctx, d, calls, rc⟩])) (Told localNode ctx'.lookups q)
        (heardIn q (ts ++ [⟨ctx, d, calls, rc⟩])) ↔
      ∀ srv, Turn.Displaces (registry localNode ts) ⟨ctx, d, calls, rc⟩ srv →
        ¬ Told localNode ctx.lookups q srv := by
  obtain ⟨hok, hlocal⟩ := h.keeps (ok_start localNode)
  obtain rfl : localNode = ctx.localNode := hlocal.symm
  rw [registry_concat, heardIn_concat hsend]
  exact (ctrlPortFn_effect hok hrun).observed_turn hok (h.holds hb) h.filed h.lookups_local
    (hq _ List.mem_cons_self) hobs

instance (localNode : UInt32) (lookups : List Lookup) (q : Sq) (srv : Server) :
    Decidable (Told localNode lookups q srv) :=
  inferInstanceAs (Decidable (_ ∨ _))

instance (q : Sq) (ts : List Turn) : Decidable (Listens q ts) :=
  inferInstanceAs (Decidable (∀ t ∈ ts, _ → _))

/-- No turn displaces a server that `q` was told of. -/
def Undisplaced (localNode : UInt32) (q : Sq) (ts : List Turn) : Prop :=
  ∀ pre t post, ts = pre ++ t :: post → ∀ srv, t.Displaces (registry localNode pre) srv →
    ¬ Told localNode t.before.lookups q srv

/-- A property of every split of a run, by the places to split it at. -/
theorem forall_split_iff {ts : List Turn} {Q : List Turn → Turn → Prop} :
    (∀ pre t post, ts = pre ++ t :: post → Q pre t) ↔
      ∀ i : Fin ts.length, Q (ts.take i) (ts.get i) := by
  constructor
  · intro h i
    refine h _ _ (ts.drop (i + 1)) ?_
    rw [List.get_eq_getElem, ← List.drop_eq_getElem_cons, List.take_append_drop]
  · rintro h pre t post rfl
    have hi : pre.length < (pre ++ t :: post).length := by simp
    have hsplit := h ⟨pre.length, hi⟩
    simpa using hsplit

theorem displaces_iff {R : Registry} {t : Turn} {P : Server → Prop} :
    (∀ srv, t.Displaces R srv → ¬ P srv) ↔
      ∀ srv ∈ (R t.d.src.node (t.d.port t.before.localNode)).toList, 4 ≤ t.d.len →
        t.d.msg.cmd = QRTR_TYPE_NEW_SERVER → t.rc ≠ -EINVAL →
          srv ≠ t.d.server t.before.localNode → ¬ P srv := by
  constructor
  · intro h srv hsrv hlen hcmd hrc hne
    exact h srv ⟨hlen, hcmd, hrc, Option.mem_toList.1 hsrv, hne⟩
  · intro h srv hd
    exact h srv (Option.mem_toList.2 hd.there) hd.len hd.cmd hd.accepted hd.other

instance (R : Registry) (t : Turn) (P : Server → Prop) [DecidablePred P] :
    Decidable (∀ srv, t.Displaces R srv → ¬ P srv) :=
  decidable_of_iff _ displaces_iff.symm

instance (localNode : UInt32) (q : Sq) (ts : List Turn) : Decidable (Undisplaced localNode q ts) :=
  decidable_of_iff (∀ i : Fin ts.length, ∀ srv,
      (ts.get i).Displaces (registry localNode (ts.take i)) srv →
        ¬ Told localNode (ts.get i).before.lookups q srv)
    (forall_split_iff (Q := fun pre t => ∀ srv, t.Displaces (registry localNode pre) srv →
      ¬ Told localNode t.before.lookups q srv)).symm

theorem Loop.observed {localNode : UInt32} {ts : List Turn} {ctx : Context}
    (h : Loop (.start localNode) ts ctx) (hb : ∀ t ∈ ts, t.Unburied) {q : Sq}
    (hq : Listens q ts) (hsend : Reaches q ts) (hd : Undisplaced localNode q ts) :
    Observed (registry localNode ts) (Told localNode ctx.lookups q) (heardIn q ts) := by
  induction h with
  | start => exact observed_empty _
  | turn hloop _ hrun ih =>
    rw [List.forall_mem_append] at hb
    have hq' := List.forall_mem_append.1 hq
    have hsend' := List.forall_mem_append.1 hsend
    obtain ⟨hd, hlast⟩ := Mirror.forall_split_concat.1 hd
    exact (hloop.observed_turn hrun hb.1 hq'.2 hsend'.2 (ih hb.1 hq'.1 hsend'.1 hd)).2 hlast

/-- In a run that puts no buried key and whose messages to an observer go out: it knows, before every
turn and after the last, exactly the registered servers it is to be told of, if and only if no turn
displaces a server that it was told of. -/
theorem Loop.observed_iff {localNode : UInt32} {ts : List Turn} {ctx : Context}
    (h : Loop (.start localNode) ts ctx) (hb : ∀ t ∈ ts, t.Unburied) {q : Sq}
    (hq : Listens q ts) (hsend : Reaches q ts) :
    ((∀ pre t post, ts = pre ++ t :: post → Observed (registry localNode pre)
        (Told localNode t.before.lookups q) (heardIn q pre)) ∧
      Observed (registry localNode ts) (Told localNode ctx.lookups q) (heardIn q ts)) ↔
      Undisplaced localNode q ts := by
  induction h with
  | start =>
    refine iff_of_true ⟨fun pre t post hnil => ?_, observed_empty _⟩ fun pre t post hnil => ?_
    · simp at hnil
    · simp at hnil
  | turn hloop _ hrun ih =>
    rw [List.forall_mem_append] at hb
    have hq' := List.forall_mem_append.1 hq
    have hsend' := List.forall_mem_append.1 hsend
    rw [Mirror.forall_split_concat (Q := fun pre (t : Turn) => Observed (registry localNode pre)
      (Told localNode t.before.lookups q) (heardIn q pre)), ih hb.1 hq'.1 hsend'.1]
    refine Iff.trans (and_congr_right fun hd => ?_) Mirror.forall_split_concat.symm
    exact hloop.observed_turn hrun hb.1 hq'.2 hsend'.2 (hloop.observed hb.1 hq'.1 hsend'.1 hd)

theorem undisplaced_published : Listens ⟨2, 8⟩ publishedRun.1 ∧ Reaches ⟨2, 8⟩ publishedRun.1 ∧
    Undisplaced 2 ⟨2, 8⟩ publishedRun.1 ∧
    heardIn ⟨2, 8⟩ publishedRun.1 = [add ⟨4097, 513, 2, 9⟩] := by decide +kernel

theorem observed_iff_published : Observed (registry 2 publishedRun.1)
    (Told 2 publishedRun.2.lookups ⟨2, 8⟩) (heardIn ⟨2, 8⟩ publishedRun.1) := by
  obtain ⟨hlistens, hsend, hd, -⟩ := undisplaced_published
  exact ((loop_published.observed_iff unburied_published.1 hlistens hsend).2 hd).2

end DragonQ6A.Qrtr
