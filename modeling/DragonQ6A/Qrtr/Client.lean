import DragonQ6A.Qrtr.Observers

/-!
# The client library

`lib/qrtr.c` on both ends of the name server: a server is published with `qrtr_publish`, and a
client that looks it up with `qrtr_new_lookup` decodes the answer with `qrtr_decode`.
-/

namespace DragonQ6A.Qrtr

open Context

/-! ## Versions and instances -/

theorem toNat_instanceWord {version : UInt16} (inst : UInt16) (h : version < 256) :
    (instanceWord version inst).toNat = inst.toNat * 2 ^ 8 + version.toNat := by
  have hversion : version.toNat < 2 ^ 8 := h
  have hinst : inst.toNat < 2 ^ 16 := inst.toNat_lt
  have hshift : (inst.toUInt32 <<< 8).toNat = inst.toNat <<< 8 := by
    rw [UInt32.toNat_shiftLeft, UInt16.toNat_toUInt32, show UInt32.toNat 8 % 32 = 8 from rfl]
    apply Nat.mod_eq_of_lt
    rw [Nat.shiftLeft_eq]
    omega
  rw [instanceWord, UInt32.toNat_or, hshift, UInt16.toNat_toUInt32,
    ← Nat.shiftLeft_add_eq_or_of_lt hversion, Nat.shiftLeft_eq]

theorem instanceWord_inj {version version' inst inst' : UInt16} (h : version < 256)
    (h' : version' < 256) : instanceWord version inst = instanceWord version' inst' ↔
      version = version' ∧ inst = inst' := by
  have hlt : version.toNat < 2 ^ 8 := h
  have hlt' : version'.toNat < 2 ^ 8 := h'
  rw [← UInt32.toNat_inj, toNat_instanceWord inst h, toNat_instanceWord inst' h',
    ← UInt16.toNat_inj, ← UInt16.toNat_inj]
  omega

theorem instanceWord_eq_zero {version inst : UInt16} (h : version < 256) :
    instanceWord version inst = 0 ↔ version = 0 ∧ inst = 0 := by
  have hzero : instanceWord version inst = instanceWord 0 0 ↔ version = 0 ∧ inst = 0 :=
    instanceWord_inj h (by decide)
  exact hzero

/-- What `qrtr_decode` makes of the instance. -/
theorem decode_instanceWord {version : UInt16} (inst : UInt16) (h : version < 256) :
    instanceWord version inst &&& 0xff = version.toUInt32 ∧
      instanceWord version inst >>> 8 = inst.toUInt32 := by
  have hlt : version.toNat < 2 ^ 8 := h
  have hword := toNat_instanceWord inst h
  rw [← UInt32.toNat_inj, ← UInt32.toNat_inj, UInt32.toNat_and, UInt32.toNat_shiftRight, hword,
    UInt16.toNat_toUInt32, UInt16.toNat_toUInt32]
  constructor
  · have hmask := Nat.and_two_pow_sub_one_eq_mod (inst.toNat * 2 ^ 8 + version.toNat) 8
    refine hmask.trans ?_
    omega
  · refine (Nat.shiftRight_eq_div_pow _ 8).trans ?_
    omega

/-- What `qrtr_decode` says of a server, in a packet `dest` that was `dest`. -/
def Server.packet (srv : Server) (dest : QrtrPacket) : QrtrPacket :=
  { dest with type := QRTR_TYPE_NEW_SERVER, node := srv.node, port := srv.port
              service := srv.service, version := srv.inst &&& 0xff, inst := srv.inst >>> 8 }

theorem qrtrDecode_newMsg (dest : QrtrPacket) (srv : Server) (node : UInt32) :
    qrtrDecode dest (newMsg srv) ⟨node, QRTR_PORT_CTRL⟩ = (0, srv.packet dest) := by
  have hlen : ¬(newMsg srv).length < 20 := by
    rw [newMsg, CtrlPkt.length_bytes]
    decide
  unfold qrtrDecode
  rw [if_pos rfl, if_neg hlen, newMsg, CtrlPkt.read_bytes]
  rfl

/-! ## Quiet turns -/

section Quiet

variable {ctx ctx' : Context} {d : Datagram} {rc : Int} {out : List (Sq × List UInt8)}
  {R : Registry} {port : UInt32}

/-- A packet of another socket, unless it is a BYE of the node, leaves what a local socket has
published. -/
theorem Registry.step_quiet (h : Effect ctx d rc out ctx') (hsrc : d.src ≠ ⟨ctx.localNode, port⟩)
    (hbye : 4 ≤ d.len → d.src.node = ctx.localNode → d.msg.cmd ≠ QRTR_TYPE_BYE) :
    R.step ctx.localNode d rc ctx.localNode port = R ctx.localNode port := by
  have hport : ¬(ctx.localNode = d.src.node ∧ port = d.src.port) := by
    intro heq
    apply hsrc
    rw [heq.1, heq.2]
  have hown : ¬(ctx.localNode = d.src.node ∧ port = d.port ctx.localNode) := by
    intro heq
    rw [Datagram.port, if_pos heq.1.symm] at heq
    exact hport heq
  unfold Registry.step
  by_cases hignored : d.len < 4 ∨ rc = -EINVAL
  · rw [if_pos hignored]
  rw [if_neg hignored]
  rw [not_or] at hignored
  by_cases hnew : d.msg.cmd = QRTR_TYPE_NEW_SERVER
  · rw [if_pos hnew, Registry.set_apply, if_neg hown]
  rw [if_neg hnew]
  by_cases hdel : d.msg.cmd = QRTR_TYPE_DEL_SERVER
  · rw [if_pos hdel, Registry.set_apply, if_neg hown]
  rw [if_neg hdel]
  by_cases hclient : d.msg.cmd = QRTR_TYPE_DEL_CLIENT
  · rw [if_pos hclient, Registry.set_apply, if_neg]
    intro heq
    have hof := (h.accepted (not_lt.1 hignored.1) hignored.2).2.2.1 hclient heq.1.symm
    exact hport ⟨heq.1, heq.2.trans hof.symm⟩
  rw [if_neg hclient]
  by_cases hcmd : d.msg.cmd = QRTR_TYPE_BYE
  · rw [if_pos hcmd]
    have hnode : ctx.localNode ≠ d.src.node := fun heq =>
      hbye (not_lt.1 hignored.1) heq.symm hcmd
    rw [Function.update_of_ne hnode]
  rw [if_neg hcmd]

end Quiet

/-! ## Publishing and looking up -/

/-- The datagram has the packet of a request. -/
def Datagram.Asks (d : Datagram) (pkt : CtrlPkt) : Prop := 4 ≤ d.len ∧ d.msg = pkt

/-- No turn is for a packet of `sq`, or for a BYE of the node. -/
def Quiet (sq : Sq) (ts : List Turn) : Prop :=
  ∀ t ∈ ts, t.d.src ≠ sq ∧
    (4 ≤ t.d.len → t.d.src.node = sq.node → t.d.msg.cmd ≠ QRTR_TYPE_BYE)

section Discovery

variable {localNode port service service' : UInt32} {version version' inst inst' : UInt16}
  {ts pre mid post : List Turn} {t u : Turn} {ctx : Context}

/-- What is registered on a local port stays so over quiet turns. -/
theorem Loop.registry_quiet (h : Loop (.start localNode) ts ctx) (hts : ts = pre ++ (mid ++ post))
    (hquiet : Quiet ⟨localNode, port⟩ mid) :
    registry localNode (pre ++ mid) localNode port = registry localNode pre localNode port := by
  induction mid using List.reverseRecOn generalizing post with
  | nil => rw [List.append_nil]
  | append_singleton mid w ih =>
    have hw : ts = (pre ++ mid) ++ w :: post := by simp [hts]
    obtain ⟨hbefore, ctx', hrun⟩ := h.split hw
    obtain ⟨hok, hnode⟩ := hbefore.keeps (ok_start localNode)
    have heff := ctrlPortFn_effect hok hrun
    have hlast := hquiet w (by simp)
    have hstep := Registry.step_quiet (R := registry localNode (pre ++ mid)) heff
      (by rw [hnode]; exact hlast.1) (by rw [hnode]; exact hlast.2)
    rw [hnode] at hstep
    rw [← List.append_assoc, registry_concat]
    have hsplit : ts = pre ++ (mid ++ w :: post) := by simp [hts]
    exact hstep.trans (ih hsplit fun x hx => hquiet x (by simp [hx]))

/-- The messages of an answer are about registered servers that match, but for the last. -/
theorem Loop.mem_answer (h : Loop (.start localNode) ts ctx) (hb : ∀ t ∈ ts, t.Unburied)
    (hts : ts = pre ++ u :: post) (hlook : u.d.Asks (qrtrNewLookup service version inst))
    (hrc : u.rc ≠ -EINVAL) {msg : List UInt8} :
    (u.d.src, msg) ∈ sent u.calls ↔ ∃ srv, msg = newMsg srv ∧
      (registry localNode pre srv.node srv.port = some srv ∧
          Lookup.Matches ⟨service, instanceWord version inst, u.d.src⟩ srv ∨
        srv = ⟨0, 0, 0, 0⟩) := by
  obtain ⟨hlen, hmsg⟩ := hlook
  obtain ⟨hpre, ctx', hrun⟩ := h.split hts
  have hholds := hpre.holds fun t' ht' => hb t' (by simp [hts, ht'])
  have hok := (hpre.keeps (ok_start localNode)).1
  have hcmd : u.d.msg.cmd = QRTR_TYPE_NEW_LOOKUP := by rw [hmsg]; rfl
  obtain ⟨-, hsent, -⟩ := ((ctrlPortFn_effect hok hrun).accepted hlen hrc).2.1 hcmd
  have hmem : ∀ srv, srv ∈ serverQuery u.before ⟨service, instanceWord version inst, 0⟩ ↔
      registry localNode pre srv.node srv.port = some srv ∧
        Lookup.Matches ⟨service, instanceWord version inst, u.d.src⟩ srv := by
    intro srv
    rw [mem_serverQuery hok hholds hpre.filed,
      serverMatch_eq ⟨service, instanceWord version inst, u.d.src⟩ srv, decide_eq_true_iff]
  have hask : u.d.msg.service = service ∧ u.d.msg.inst = instanceWord version inst := by
    rw [hmsg]
    exact ⟨rfl, rfl⟩
  rw [hsent, hask.1, hask.2, List.mem_append, List.mem_map, List.mem_singleton]
  constructor
  · intro hin
    cases hin with
    | inl hsrv =>
      obtain ⟨srv, hsrv, heq⟩ := hsrv
      exact ⟨srv, (Prod.mk.inj heq).2.symm, Or.inl ((hmem srv).1 hsrv)⟩
    | inr hend => exact ⟨⟨0, 0, 0, 0⟩, (Prod.mk.inj hend).2, Or.inr rfl⟩
  · intro hin
    obtain ⟨srv, rfl, hcase⟩ := hin
    cases hcase with
    | inl hsrv => exact Or.inl ⟨srv, (hmem srv).2 hsrv, rfl⟩
    | inr hend =>
      rw [hend]
      exact Or.inr rfl

/-- What a client that looks a service up learns of a socket that has published one, if the answer
reaches it: exactly what was published, if the lookup is for it, and nothing otherwise. -/
theorem Loop.discover (h : Loop (.start localNode) ts ctx) (hb : ∀ t ∈ ts, t.Unburied)
    (hts : ts = pre ++ t :: (mid ++ u :: post)) (hsrc : t.d.src = ⟨localNode, port⟩)
    (hpub : t.d.Asks (qrtrNewServer service version inst)) (hrc : t.rc ≠ -EINVAL)
    (hquiet : Quiet ⟨localNode, port⟩ mid)
    (hlook : u.d.Asks (qrtrNewLookup service' version' inst')) (hrc' : u.rc ≠ -EINVAL)
    (hsend : Reaches u.d.src [u]) (hversion : version < 256) (hversion' : version' < 256)
    (dest p : QrtrPacket) :
    (∃ msg, (u.d.src, msg) ∈ delivered u.calls ∧
        qrtrDecode dest msg ⟨localNode, QRTR_PORT_CTRL⟩ = (0, p) ∧
        p.node = localNode ∧ p.port = port) ↔
      p = { dest with type := QRTR_TYPE_NEW_SERVER, node := localNode, port := port
                      service := service, version := version.toUInt32, inst := inst.toUInt32 } ∧
        (service' = 0 ∨ service' = service) ∧
        (version' = 0 ∧ inst' = 0 ∨ version' = version ∧ inst' = inst) := by
  have hcmd : t.d.msg.cmd = QRTR_TYPE_NEW_SERVER := by rw [hpub.2]; rfl
  have hown : t.d.port localNode = port := by rw [Datagram.port, hsrc, if_pos rfl]
  have hregistered : registry localNode ((pre ++ [t]) ++ mid) localNode port =
      some ⟨service, instanceWord version inst, localNode, port⟩ := by
    have hsplit : ts = (pre ++ [t]) ++ (mid ++ u :: post) := by simp [hts]
    rw [h.registry_quiet hsplit hquiet, registry_concat,
      Registry.step_newServer hpub.1 hcmd hrc, Registry.set_apply, hown, hsrc, if_pos ⟨rfl, rfl⟩,
      Datagram.server, hpub.2, hown, hsrc]
    rfl
  have hu : ts = ((pre ++ [t]) ++ mid) ++ u :: post := by simp [hts]
  obtain ⟨hpre, ctx', hrun⟩ := h.split hts
  obtain ⟨hok, hnode⟩ := hpre.keeps (ok_start localNode)
  obtain ⟨-, -, hport, -⟩ := ((ctrlPortFn_effect hok hrun).accepted hpub.1 hrc).1 hcmd
  have hport : port ≠ 0 := by
    rw [hnode] at hport
    exact hown ▸ hport
  have hpacket : (⟨service, instanceWord version inst, localNode, port⟩ : Server).packet dest =
      { dest with type := QRTR_TYPE_NEW_SERVER, node := localNode, port := port
                  service := service, version := version.toUInt32, inst := inst.toUInt32 } := by
    obtain ⟨hlow, hhigh⟩ := decode_instanceWord inst hversion
    rw [Server.packet]
    simp only [hlow, hhigh]
  have hmatches : Lookup.Matches ⟨service', instanceWord version' inst', u.d.src⟩
        ⟨service, instanceWord version inst, localNode, port⟩ ↔
      (service' = 0 ∨ service' = service) ∧
        (version' = 0 ∧ inst' = 0 ∨ version' = version ∧ inst' = inst) := by
    rw [Lookup.Matches, instanceWord_eq_zero hversion', instanceWord_inj hversion' hversion]
  rw [← hmatches, ← hpacket]
  constructor
  · intro hlearned
    obtain ⟨msg, hmsg, hdecode, hpnode, hpport⟩ := hlearned
    obtain ⟨srv, rfl, hcase⟩ := (h.mem_answer hb hu hlook hrc').1 ((mem_delivered hsend).1 hmsg)
    rw [qrtrDecode_newMsg] at hdecode
    have hp : srv.packet dest = p := (Prod.mk.inj hdecode).2
    rw [← hp] at hpnode hpport ⊢
    have hsrvNode : srv.node = localNode := hpnode
    have hsrvPort : srv.port = port := hpport
    cases hcase with
    | inl hsrv =>
      obtain ⟨hsome, hmatch⟩ := hsrv
      rw [hsrvNode, hsrvPort, hregistered] at hsome
      rw [← Option.some.inj hsome] at hmatch ⊢
      exact ⟨rfl, hmatch⟩
    | inr hend =>
      rw [hend] at hsrvPort
      exact absurd hsrvPort.symm hport
  · intro hlearned
    obtain ⟨rfl, hmatch⟩ := hlearned
    refine ⟨newMsg ⟨service, instanceWord version inst, localNode, port⟩, ?_,
      qrtrDecode_newMsg .., rfl, rfl⟩
    rw [mem_delivered hsend]
    exact (h.mem_answer hb hu hlook hrc').2 ⟨_, rfl, Or.inl ⟨hregistered, hmatch⟩⟩

end Discovery

theorem turns_published :
    publishedRun.1.map (fun t => (t.d.src, t.d.len, t.d.msg, t.rc)) =
      [(⟨2, 9⟩, 20, qrtrNewServer 4097 1 2, 20), (⟨2, 8⟩, 20, qrtrNewLookup 4097 0 0, 0),
        (⟨1, QRTR_PORT_CTRL⟩, 20, ⟨QRTR_TYPE_HELLO, 0, 0, 0, 0⟩, 0)] ∧
    Reaches ⟨2, 8⟩ publishedRun.1 := by decide +kernel

theorem discover_published : ∃ u ∈ publishedRun.1, ∃ msg, (u.d.src, msg) ∈ delivered u.calls ∧
    qrtrDecode ⟨0, 0, 0, 0, 0, 0, []⟩ msg ⟨2, QRTR_PORT_CTRL⟩ =
      (0, ⟨QRTR_TYPE_NEW_SERVER, 2, 9, 4097, 2, 1, []⟩) := by
  obtain ⟨hturns, hreaches⟩ := turns_published
  obtain ⟨t, u, w, hts⟩ : ∃ t u w, publishedRun.1 = [t, u, w] :=
    List.length_eq_three.1 (by simpa using congrArg List.length hturns)
  rw [hts] at hturns hreaches ⊢
  simp only [List.map_cons, List.map_nil, List.cons.injEq, Prod.mk.injEq, and_true] at hturns
  obtain ⟨⟨hsrc, hlen, hmsg, hrc⟩, ⟨hsrc', hlen', hmsg', hrc'⟩, -⟩ := hturns
  have hsend : Reaches u.d.src [u] := by
    rw [hsrc']
    exact List.forall_mem_singleton.2 (hreaches u (by simp))
  have hsplit : publishedRun.1 = [] ++ t :: ([] ++ u :: [w]) := hts
  have hdiscover := loop_published.discover unburied_published.1 hsplit hsrc ⟨by omega, hmsg⟩
    (by rw [hrc]; decide) (by simp [Quiet]) ⟨by omega, hmsg'⟩ (by rw [hrc']; decide) hsend
    (by decide) (by decide) ⟨0, 0, 0, 0, 0, 0, []⟩ ⟨QRTR_TYPE_NEW_SERVER, 2, 9, 4097, 2, 1, []⟩
  obtain ⟨msg, hsent, hdecode, -⟩ := hdiscover.2 ⟨rfl, Or.inr rfl, Or.inl ⟨rfl, rfl⟩⟩
  exact ⟨u, by simp, msg, hsent, hdecode⟩

/-! ## Withdrawing -/

section Withdrawal

variable {localNode port service service' : UInt32} {version version' inst inst' : UInt16}
  {ts pre mid post : List Turn} {t u : Turn} {ctx : Context}

/-- `qrtr_bye` withdraws what its socket, on a port other than 0, has published, whatever it names:
no client learns of the socket then. -/
theorem Loop.forget (h : Loop (.start localNode) ts ctx) (hb : ∀ t ∈ ts, t.Unburied)
    (hts : ts = pre ++ t :: (mid ++ u :: post)) (hsrc : t.d.src = ⟨localNode, port⟩)
    (hport : port ≠ 0) (hbye : t.d.Asks (qrtrRemoveServer ⟨localNode, port⟩ service version inst))
    (hrc : t.rc ≠ -EINVAL) (hquiet : Quiet ⟨localNode, port⟩ mid)
    (hlook : u.d.Asks (qrtrNewLookup service' version' inst')) (hrc' : u.rc ≠ -EINVAL)
    (dest p : QrtrPacket) {msg : List UInt8} (hmsg : (u.d.src, msg) ∈ sent u.calls)
    (hdecode : qrtrDecode dest msg ⟨localNode, QRTR_PORT_CTRL⟩ = (0, p)) :
    ¬(p.node = localNode ∧ p.port = port) := by
  have hcmd : t.d.msg.cmd = QRTR_TYPE_DEL_SERVER := by rw [hbye.2]; rfl
  have hown : t.d.port localNode = port := by rw [Datagram.port, hsrc, if_pos rfl]
  have hregistered : registry localNode ((pre ++ [t]) ++ mid) localNode port = none := by
    have hsplit : ts = (pre ++ [t]) ++ (mid ++ u :: post) := by simp [hts]
    rw [h.registry_quiet hsplit hquiet, registry_concat,
      Registry.step_delServer hbye.1 hcmd hrc, Registry.set_apply, hown, hsrc, if_pos ⟨rfl, rfl⟩]
  have hu : ts = ((pre ++ [t]) ++ mid) ++ u :: post := by simp [hts]
  obtain ⟨srv, rfl, hcase⟩ := (h.mem_answer hb hu hlook hrc').1 hmsg
  rw [qrtrDecode_newMsg] at hdecode
  rw [← (Prod.mk.inj hdecode).2]
  intro hlearned
  have hsrvNode : srv.node = localNode := hlearned.1
  have hsrvPort : srv.port = port := hlearned.2
  cases hcase with
  | inl hsrv =>
    rw [hsrvNode, hsrvPort, hregistered] at hsrv
    cases hsrv.1
  | inr hend =>
    rw [hend] at hsrvPort
    exact hport hsrvPort.symm

/-- After `qrtr_remove_lookup` its socket is not asking for that service and instance, and the other
sockets ask for what they asked for. -/
theorem Loop.unasked (h : Loop (.start localNode) (pre ++ [t]) ctx)
    (hask : t.d.Asks (qrtrRemoveLookup t.d.src service version inst)) (hrc : t.rc ≠ -EINVAL) :
    (∀ l ∈ ctx.lookups, l.sq = t.d.src → l.service = service →
      l.inst ≠ 0 ∧ l.inst ≠ instanceWord version inst) ∧
      ∀ l : Lookup, l.sq ≠ t.d.src → (l ∈ ctx.lookups ↔ l ∈ t.before.lookups) := by
  generalize hts : pre ++ [t] = ts at h
  cases h with
  | start => simp at hts
  | @turn _ _ _ d _ _ hloop _ hrun =>
    obtain ⟨rfl, hlast⟩ := List.append_inj' hts rfl
    cases hlast
    have hok := (hloop.keeps (ok_start localNode)).1
    have hcmd : d.msg.cmd = QRTR_TYPE_DEL_LOOKUP := by rw [hask.2]; rfl
    have hbec := ((ctrlPortFn_effect hok hrun).accepted hask.1 hrc).2.2.2 hcmd
    have hservice : d.msg.service = service := by rw [hask.2]; rfl
    have hinst : d.msg.inst = instanceWord version inst := by rw [hask.2]; rfl
    rw [hbec.lookups, hservice, hinst]
    constructor
    · intro l hl hsq hservice
      have hkept := (List.mem_filter.1 hl).2
      simpa [hsq, hservice] using hkept
    · intro l hsq
      simp [hsq]

end Withdrawal

/-- On node 2 a server is published and withdrawn under another name, and a client asks for all. -/
def withdrawn : List Datagram :=
  [.ofBytes ⟨2, 9⟩ (qrtrNewServer 4097 1 2).bytes,
    .ofBytes ⟨2, 9⟩ (qrtrRemoveServer ⟨2, 9⟩ 77 5 6).bytes,
    .ofBytes ⟨2, 8⟩ (qrtrNewLookup 0 0 0).bytes]

def withdrawnRun : List Turn × Context := turnsOf (.start 2) withdrawn

theorem turns_withdrawn : (∀ t ∈ withdrawnRun.1, t.Unburied) ∧
    withdrawnRun.1.map (fun t => (t.d.src, t.d.len, t.d.msg, t.rc)) =
      [(⟨2, 9⟩, 20, qrtrNewServer 4097 1 2, 20),
        (⟨2, 9⟩, 20, qrtrRemoveServer ⟨2, 9⟩ 77 5 6, 0),
        (⟨2, 8⟩, 20, qrtrNewLookup 0 0 0, 0)] := by decide +kernel

theorem forget_withdrawn : ∃ u ∈ withdrawnRun.1, ∀ dest p msg, (u.d.src, msg) ∈ sent u.calls →
    qrtrDecode dest msg ⟨2, QRTR_PORT_CTRL⟩ = (0, p) → ¬(p.node = 2 ∧ p.port = 9) := by
  obtain ⟨hb, hturns⟩ := turns_withdrawn
  obtain ⟨w, t, u, hts⟩ : ∃ w t u, withdrawnRun.1 = [w, t, u] :=
    List.length_eq_three.1 (by simpa using congrArg List.length hturns)
  rw [hts] at hturns
  simp only [List.map_cons, List.map_nil, List.cons.injEq, Prod.mk.injEq, and_true] at hturns
  obtain ⟨-, ⟨hsrc, hlen, hmsg, hrc⟩, -, hlen', hmsg', hrc'⟩ := hturns
  refine ⟨u, by simp [hts], fun dest p msg hsent hdecode => ?_⟩
  have hloop : Loop (.start 2) withdrawnRun.1 withdrawnRun.2 := loop_turnsOf _ _
  have hsplit : withdrawnRun.1 = [w] ++ t :: ([] ++ u :: []) := hts
  exact hloop.forget hb hsplit hsrc (by decide) ⟨by omega, hmsg⟩ (by rw [hrc]; decide)
    (by simp [Quiet]) ⟨by omega, hmsg'⟩ (by rw [hrc']; decide) dest p hsent hdecode

end DragonQ6A.Qrtr
