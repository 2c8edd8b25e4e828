import DragonQ6A.Calls.Runs
import DragonQ6A.Qrtr.Map
import DragonQ6A.Qrtr.Packet

/-!
# The name server

`ns.c` from the start of the main loop on.  What the server asks of the system are calls: `calloc`
answers for every number of entries asked of it until the next call, `sendto` with the bytes sent or
a failure, and `stack` with the words that `ctrl_cmd_del_client` leaves uninitialised in its packet.
A `struct node *` is the id of the node, which `nodes` holds under its hash as long as the server
runs.  The log messages are left out.
-/

open Calls
open CallTree (request)

namespace DragonQ6A.Qrtr

inductive Req
  | calloc
  | sendto (dest : Sq) (msg : List UInt8)
  | stack

def Ret : Req → Type
  | .calloc => ℕ → Bool
  | .sendto _ _ => Option ℕ
  | .stack => UInt32 × UInt32

abbrev Prog := CallTree Ret

def ENOENT : Int := 2
def EINVAL : Int := 22

/-- `calloc`, by the number of entries asked for. -/
def calloc : Prog (ℕ → Bool) := request Req.calloc

/-- `sendto`: the bytes sent, or -1. -/
def sendto (dest : Sq) (msg : List UInt8) : Prog Int := do
  let sent : Option ℕ ← request (Req.sendto dest msg)
  match sent with
  | some n => pure n
  | none => pure (-1)

/-- Two words that are on the stack. -/
def stack : Prog (UInt32 × UInt32) := request Req.stack

/-- `struct server`. -/
structure Server where
  service : UInt32
  inst : UInt32
  node : UInt32
  port : UInt32
deriving DecidableEq

/-- `struct server_filter`. -/
structure ServerFilter where
  service : UInt32
  inst : UInt32
  ifilter : UInt32

/-- `struct lookup`. -/
structure Lookup where
  service : UInt32
  inst : UInt32
  sq : Sq
deriving DecidableEq

/-- `struct node`. -/
structure Node where
  id : UInt32
  services : Map Server

/-- `struct context`, with the map `nodes`; `sockOpen` is `ctx->sock >= 0`. -/
structure Context where
  sockOpen : Bool
  localNode : UInt32
  lookups : List Lookup
  nodes : Map Node

/-- `ctx->bcast_sq`. -/
def bcastSq : Sq := ⟨QRTR_NODE_BCAST, QRTR_PORT_CTRL⟩

namespace Context

/-- The state `main` enters its loop with. -/
def start (localNode : UInt32) : Context := ⟨true, localNode, [], .create⟩

/-- `node->services`. -/
def services (ctx : Context) (node : UInt32) : Map Server :=
  match ctx.nodes.get (hashU32 node) with
  | some n => n.services
  | none => .create

def setServices (ctx : Context) (node : UInt32) (services : Map Server) : Context :=
  match ctx.nodes.get (hashU32 node) with
  | some n => { ctx with nodes := ctx.nodes.assign (hashU32 node) { n with services := services } }
  | none => ctx

end Context

/-- `node_get`. -/
def nodeGet (ctx : Context) (nodeId : UInt32) : Prog (Option UInt32 × Context) :=
  match ctx.nodes.get (hashU32 nodeId) with
  | some node => pure (some node.id, ctx)
  | none => do
    let mem ← calloc
    if mem 1 = false then pure (none, ctx)
    else
      let put := ctx.nodes.put mem (hashU32 nodeId) ⟨nodeId, .create⟩
      if put.1 ≠ 0 then pure (none, { ctx with nodes := put.2 })
      else pure (some nodeId, { ctx with nodes := put.2 })

/-- `server_match`. -/
def serverMatch (srv : Server) (f : ServerFilter) : Bool :=
  if f.service ≠ 0 ∧ srv.service ≠ f.service then false
  else
    let ifilter := if f.ifilter = 0 ∧ f.inst ≠ 0 then 0xffffffff else f.ifilter
    decide (srv.inst &&& ifilter = f.inst)

/-- `server_query`: the list. -/
def serverQuery (ctx : Context) (f : ServerFilter) : List Server :=
  ctx.nodes.forEach.flatMap fun node => node.services.forEach.filter fun srv => serverMatch srv f

/-- The packet that says `cmd` of a server. -/
def serverPkt (cmd : UInt32) (srv : Server) : CtrlPkt :=
  ⟨cmd, srv.service, srv.inst, srv.node, srv.port⟩

/-- `service_announce_new`. -/
def serviceAnnounceNew (dest : Sq) (srv : Server) : Prog Int :=
  sendto dest (serverPkt QRTR_TYPE_NEW_SERVER srv).bytes

/-- `service_announce_del`. -/
def serviceAnnounceDel (dest : Sq) (srv : Server) : Prog Int :=
  sendto dest (serverPkt QRTR_TYPE_DEL_SERVER srv).bytes

/-- `lookup_notify`; without a server the packet has only its command. -/
def lookupNotify (dest : Sq) (srv : Option Server) (new : Bool) : Prog Int :=
  let cmd := if new then QRTR_TYPE_NEW_SERVER else QRTR_TYPE_DEL_SERVER
  sendto dest ((srv.map (serverPkt cmd)).getD ⟨cmd, 0, 0, 0, 0⟩).bytes

/-- The loop of `annouce_servers`. -/
def annouceLoop (sq : Sq) : List Server → Prog Int
  | [] => pure 0
  | srv :: rest => do
    let rc ← serviceAnnounceNew sq srv
    if rc < 0 then pure rc else annouceLoop sq rest

/-- `annouce_servers`. -/
def annouceServers (ctx : Context) (sq : Sq) : Prog (Int × Context) := do
  let r ← nodeGet ctx ctx.localNode
  match r.1 with
  | none => pure (0, r.2)
  | some node =>
    let rc ← annouceLoop sq (r.2.services node).forEach
    pure (rc, r.2)

/-- `server_add`. -/
def serverAdd (ctx : Context) (service inst nodeId port : UInt32) :
    Prog (Option Server × Context) :=
  if service = 0 ∨ port = 0 then pure (none, ctx)
  else do
    let mem ← calloc
    if mem 1 = false then pure (none, ctx)
    else
      let srv : Server := ⟨service, inst, nodeId, port⟩
      let r ← nodeGet ctx nodeId
      match r.1 with
      | none => pure (none, r.2)
      | some node =>
        let mem ← calloc
        let put := (r.2.services node).reput mem (hashU32 port) srv
        let ctx := r.2.setServices node put.2.2
        if put.1 ≠ 0 then pure (none, ctx) else pure (some srv, ctx)

/-- The loop over `ctx->lookups` in `server_del` and `ctrl_cmd_new_server`. -/
def notifyLookups (lookups : List Lookup) (srv : Server) (new : Bool) : Prog PUnit :=
  lookups.forM fun lookup =>
    if lookup.service ≠ 0 ∧ lookup.service ≠ srv.service then pure ()
    else if lookup.inst ≠ 0 ∧ lookup.inst ≠ srv.inst then pure ()
    else do
      let _ ← lookupNotify lookup.sq (some srv) new
      pure ()

/-- `server_del`. -/
def serverDel (ctx : Context) (node port : UInt32) : Prog (Int × Context) :=
  match (ctx.services node).get (hashU32 port) with
  | none => pure (-ENOENT, ctx)
  | some srv => do
    let ctx := ctx.setServices node ((ctx.services node).remove (hashU32 port)).2
    -- the removal of local services is broadcast
    let _ ← (if srv.node = ctx.localNode then serviceAnnounceDel bcastSq srv else pure 0 :
      Prog Int)
    notifyLookups ctx.lookups srv false
    pure (0, ctx)

/-- `pkt` to every service in the map. -/
def sendToServices (services : Map Server) (pkt : CtrlPkt) : Prog PUnit :=
  services.forEach.forM fun srv => do
    let _ ← sendto ⟨srv.node, srv.port⟩ pkt.bytes
    pure ()

/-- `ctrl_cmd_hello`. -/
def ctrlCmdHello (ctx : Context) (sq : Sq) (buf : List UInt8) : Prog (Int × Context) := do
  let rc ← sendto sq buf
  if rc > 0 then annouceServers ctx sq else pure (rc, ctx)

/-- The loop of `ctrl_cmd_bye` over the services of `node`, in at most `n` rounds. -/
def byeLoop (node : UInt32) : ℕ → Option ℕ → Context → Prog Context
  | n + 1, some me, ctx =>
    match (ctx.services node).iterItem me with
    | some srv => do
      let r ← serverDel ctx node srv.port
      byeLoop node n ((r.2.services node).iterFrom (me + 1)) r.2
    | none => pure ctx
  | _, _, ctx => pure ctx

/-- `ctrl_cmd_bye`. -/
def ctrlCmdBye (ctx : Context) (src : Sq) : Prog (Int × Context) := do
  let r ← nodeGet ctx src.node
  match r.1 with
  | none => pure (0, r.2)
  | some node =>
    let services := r.2.services node
    let ctx ← byeLoop node services.size (services.iterFrom 0) r.2
    let r ← nodeGet ctx ctx.localNode
    match r.1 with
    | none => pure (0, r.2)
    | some localNode =>
      sendToServices (r.2.services localNode) ⟨QRTR_TYPE_BYE, src.node, 0, 0, 0⟩
      pure (0, r.2)

/-- `ctrl_cmd_del_client`. -/
def ctrlCmdDelClient (ctx : Context) (src : Sq) (nodeId port : UInt32) : Prog (Int × Context) :=
  if src.node ≠ nodeId then pure (-EINVAL, ctx)
  else if src.node = ctx.localNode ∧ src.port ≠ port then pure (-EINVAL, ctx)
  else do
    let ctx := { ctx with lookups := ctx.lookups.filter fun l => l.sq ≠ ⟨nodeId, port⟩ }
    let r ← nodeGet ctx nodeId
    let ctx ← (match r.1 with
      | none => pure r.2
      | some node => do
        let del ← serverDel r.2 node port
        pure del.2 : Prog Context)
    let r ← nodeGet ctx ctx.localNode
    match r.1 with
    | none => pure (0, r.2)
    | some localNode =>
      let rest ← stack
      sendToServices (r.2.services localNode) ⟨QRTR_TYPE_DEL_CLIENT, nodeId, port, rest.1, rest.2⟩
      pure (0, r.2)

/-- `ctrl_cmd_new_server`. -/
def ctrlCmdNewServer (ctx : Context) (src : Sq) (service inst nodeId port : UInt32) :
    Prog (Int × Context) :=
  let nodeId := if src.node = ctx.localNode then src.node else nodeId
  let port := if src.node = ctx.localNode then src.port else port
  if src.node ≠ nodeId then pure (-EINVAL, ctx)
  else do
    let r ← serverAdd ctx service inst nodeId port
    match r.1 with
    | none => pure (-EINVAL, r.2)
    | some srv =>
      let rc ← (if srv.node = r.2.localNode then serviceAnnounceNew bcastSq srv else pure 0 :
        Prog Int)
      notifyLookups r.2.lookups srv true
      pure (rc, r.2)

/-- `ctrl_cmd_del_server`. -/
def ctrlCmdDelServer (ctx : Context) (src : Sq) (nodeId port : UInt32) : Prog (Int × Context) :=
  let nodeId := if src.node = ctx.localNode then src.node else nodeId
  let port := if src.node = ctx.localNode then src.port else port
  if src.node ≠ nodeId then pure (-EINVAL, ctx)
  else if src.node = ctx.localNode ∧ src.port ≠ port then pure (-EINVAL, ctx)
  else do
    let r ← nodeGet ctx nodeId
    match r.1 with
    | none => pure (-ENOENT, r.2)
    | some node => serverDel r.2 node port

/-- `ctrl_cmd_new_lookup`. -/
def ctrlCmdNewLookup (ctx : Context) (src : Sq) (service inst : UInt32) : Prog (Int × Context) :=
  if src.node ≠ ctx.localNode then pure (-EINVAL, ctx)
  else do
    let mem ← calloc
    if mem 1 = false then pure (-EINVAL, ctx)
    else
      let ctx := { ctx with lookups := ctx.lookups ++ [⟨service, inst, src⟩] }
      (serverQuery ctx ⟨service, inst, 0⟩).forM fun srv => do
        let _ ← lookupNotify src (some srv) true
        pure ()
      let _ ← lookupNotify src none true
      pure (0, ctx)

/-- `ctrl_cmd_del_lookup`. -/
def ctrlCmdDelLookup (ctx : Context) (src : Sq) (service inst : UInt32) : Prog (Int × Context) :=
  pure (0, { ctx with lookups := ctx.lookups.filter fun l =>
    ¬ (l.sq = src ∧ l.service = service ∧ (l.inst = 0 ∨ l.inst = inst)) })

/-- What `recvfrom` returned; `buf` is the whole buffer, with what was in it before. -/
structure Datagram where
  src : Sq
  len : Int
  buf : ℕ → UInt8

/-- The `switch` of `ctrl_port_fn`. -/
def ctrlSwitch (ctx : Context) (d : Datagram) : Prog (Int × Context) :=
  let msg := CtrlPkt.read d.buf
  if msg.cmd = QRTR_TYPE_HELLO then
    ctrlCmdHello ctx d.src ((List.range d.len.toNat).map d.buf)
  else if msg.cmd = QRTR_TYPE_BYE then ctrlCmdBye ctx d.src
  else if msg.cmd = QRTR_TYPE_DEL_CLIENT then
    ctrlCmdDelClient ctx d.src msg.clientNode msg.clientPort
  else if msg.cmd = QRTR_TYPE_NEW_SERVER then
    ctrlCmdNewServer ctx d.src msg.service msg.inst msg.node msg.port
  else if msg.cmd = QRTR_TYPE_DEL_SERVER then ctrlCmdDelServer ctx d.src msg.node msg.port
  else if msg.cmd = QRTR_TYPE_NEW_LOOKUP then ctrlCmdNewLookup ctx d.src msg.service msg.inst
  else if msg.cmd = QRTR_TYPE_DEL_LOOKUP then ctrlCmdDelLookup ctx d.src msg.service msg.inst
  else pure (0, ctx)

/-- `ctrl_port_fn`: `rc`, which it logs, and the state. -/
def ctrlPortFn (ctx : Context) (d : Datagram) : Prog (Int × Context) :=
  if d.len ≤ 0 then pure (0, { ctx with sockOpen := false })
  else if d.len < 4 then pure (0, ctx)
  else ctrlSwitch ctx d

/-- A turn of the main loop: the state before it, the datagram, the calls made, and `rc`. -/
structure Turn where
  before : Context
  d : Datagram
  calls : List (Call Ret)
  rc : Int

/-- The main loop, from `ctx₀` to `ctx`. -/
inductive Loop (ctx₀ : Context) : List Turn → Context → Prop
  | start : Loop ctx₀ [] ctx₀
  | turn {ts : List Turn} {ctx ctx' : Context} {d : Datagram} {calls : List (Call Ret)} {rc : Int} :
      Loop ctx₀ ts ctx → ctx.sockOpen → Runs (ctrlPortFn ctx d) calls (rc, ctx') →
        Loop ctx₀ (ts ++ [⟨ctx, d, calls, rc⟩]) ctx'

end DragonQ6A.Qrtr
