import DragonQ6A.Bytes.Little

/-!
# Control packets

`struct qrtr_ctrl_pkt` and its bytes, the requests of `lib/qrtr.c` and its `qrtr_decode`, and
`hash_u32`, which keys the maps of the name server.  A request goes to the control port of the node
its socket is on.
-/

open Bytes

namespace DragonQ6A.Qrtr

def QRTR_NODE_BCAST : UInt32 := 0xffffffff
def QRTR_PORT_CTRL : UInt32 := 0xfffffffe

def QRTR_TYPE_DATA : UInt32 := 1
def QRTR_TYPE_HELLO : UInt32 := 2
def QRTR_TYPE_BYE : UInt32 := 3
def QRTR_TYPE_NEW_SERVER : UInt32 := 4
def QRTR_TYPE_DEL_SERVER : UInt32 := 5
def QRTR_TYPE_DEL_CLIENT : UInt32 := 6
def QRTR_TYPE_NEW_LOOKUP : UInt32 := 10
def QRTR_TYPE_DEL_LOOKUP : UInt32 := 11

/-- `struct sockaddr_qrtr`. -/
structure Sq where
  node : UInt32
  port : UInt32
deriving DecidableEq

/-- `struct qrtr_ctrl_pkt`, with the words of its union named as in `server`. -/
structure CtrlPkt where
  cmd : UInt32
  service : UInt32
  inst : UInt32
  node : UInt32
  port : UInt32
deriving DecidableEq

namespace CtrlPkt

/-- `client.node`: the first word of the union. -/
def clientNode (p : CtrlPkt) : UInt32 := p.service

/-- `client.port`: its second word. -/
def clientPort (p : CtrlPkt) : UInt32 := p.inst

/-- The words, little-endian. -/
def bytes (p : CtrlPkt) : List UInt8 :=
  toBytes 4 p.cmd.toNat ++ toBytes 4 p.service.toNat ++ toBytes 4 p.inst.toNat ++
    toBytes 4 p.node.toNat ++ toBytes 4 p.port.toNat

/-- `le32_to_cpu` of the word at `off`. -/
def word (buf : ℕ → UInt8) (off : ℕ) : UInt32 :=
  UInt32.ofNat (ofBytes ((List.range 4).map fun i => buf (off + i)))

/-- The packet at the start of a buffer. -/
def read (buf : ℕ → UInt8) : CtrlPkt :=
  ⟨word buf 0, word buf 4, word buf 8, word buf 12, word buf 16⟩

@[simp] theorem length_bytes (p : CtrlPkt) : p.bytes.length = 20 := by
  simp [bytes]

theorem word_toBytes {buf : ℕ → UInt8} {off : ℕ} {x : UInt32}
    (h : (List.range 4).map (fun i => buf (off + i)) = toBytes 4 x.toNat) : word buf off = x := by
  have hx : x.toNat < 256 ^ 4 := x.toNat_lt
  rw [word, h, ofBytes_toBytes, Nat.mod_eq_of_lt hx]
  exact UInt32.ofNat_toNat

theorem word_congr {buf buf' : ℕ → UInt8} {n off : ℕ} (h : ∀ i < n, buf i = buf' i)
    (hoff : off + 4 ≤ n) : word buf off = word buf' off := by
  have hmap : (List.range 4).map (fun i => buf (off + i)) =
      (List.range 4).map fun i => buf' (off + i) := by
    apply List.map_congr_left
    intro i hi
    rw [List.mem_range] at hi
    exact h _ (by omega)
  rw [word, word, hmap]

theorem read_congr {buf buf' : ℕ → UInt8} (h : ∀ i < 20, buf i = buf' i) : read buf = read buf' := by
  rw [read, read, word_congr h, word_congr h, word_congr h, word_congr h, word_congr h] <;> omega

/-- A packet is read back from its bytes. -/
theorem read_bytes (p : CtrlPkt) : read (fun i => p.bytes.getD i 0) = p := by
  have hword : ∀ off x, (List.range 4).map (fun i => p.bytes.getD (off + i) 0) =
      toBytes 4 (UInt32.toNat x) → word (fun i => p.bytes.getD i 0) off = x :=
    fun off x h => word_toBytes h
  unfold read
  rw [hword 0 p.cmd rfl, hword 4 p.service rfl, hword 8 p.inst rfl, hword 12 p.node rfl,
    hword 16 p.port rfl]

/-- The packet that a message of its size is. -/
def parse (msg : List UInt8) : Option CtrlPkt :=
  if msg.length = 20 then some (read fun i => msg.getD i 0) else none

@[simp] theorem parse_bytes (p : CtrlPkt) : parse p.bytes = some p := by
  rw [parse, if_pos p.length_bytes, read_bytes]

end CtrlPkt

/-! ## Requests and notifications -/

/-- `instance << 8 | version`. -/
def instanceWord (version inst : UInt16) : UInt32 := inst.toUInt32 <<< 8 ||| version.toUInt32

/-- The packet of `qrtr_new_server`, and so of `qrtr_publish`. -/
def qrtrNewServer (service : UInt32) (version inst : UInt16) : CtrlPkt :=
  ⟨QRTR_TYPE_NEW_SERVER, service, instanceWord version inst, 0, 0⟩

/-- The packet of `qrtr_remove_server`, and so of `qrtr_bye`, on the socket `sq`. -/
def qrtrRemoveServer (sq : Sq) (service : UInt32) (version inst : UInt16) : CtrlPkt :=
  ⟨QRTR_TYPE_DEL_SERVER, service, instanceWord version inst, sq.node, sq.port⟩

/-- The packet of `qrtr_new_lookup`. -/
def qrtrNewLookup (service : UInt32) (version inst : UInt16) : CtrlPkt :=
  ⟨QRTR_TYPE_NEW_LOOKUP, service, instanceWord version inst, 0, 0⟩

/-- The packet of `qrtr_remove_lookup`. -/
def qrtrRemoveLookup (sq : Sq) (service : UInt32) (version inst : UInt16) : CtrlPkt :=
  ⟨QRTR_TYPE_DEL_LOOKUP, service, instanceWord version inst, sq.node, sq.port⟩

/-- `struct qrtr_packet`. -/
structure QrtrPacket where
  type : UInt32
  node : UInt32
  port : UInt32
  service : UInt32
  inst : UInt32
  version : UInt32
  data : List UInt8
deriving DecidableEq

def EMSGSIZE : Int := 90

/-- `qrtr_decode`: the return value, and `dest`. -/
def qrtrDecode (dest : QrtrPacket) (buf : List UInt8) (sq : Sq) : Int × QrtrPacket :=
  if sq.port = QRTR_PORT_CTRL then
    if buf.length < 20 then (-EMSGSIZE, dest)
    else
      let ctrl := CtrlPkt.read fun i => buf.getD i 0
      let dest := { dest with type := ctrl.cmd }
      if ctrl.cmd = QRTR_TYPE_BYE then (0, { dest with node := ctrl.clientNode })
      else if ctrl.cmd = QRTR_TYPE_DEL_CLIENT then
        (0, { dest with node := ctrl.clientNode, port := ctrl.clientPort })
      else if ctrl.cmd = QRTR_TYPE_NEW_SERVER ∨ ctrl.cmd = QRTR_TYPE_DEL_SERVER then
        (0, { dest with node := ctrl.node, port := ctrl.port, service := ctrl.service
                        version := ctrl.inst &&& 0xff, inst := ctrl.inst >>> 8 })
      else (0, { dest with type := 0 })
  else (0, { dest with type := QRTR_TYPE_DATA, node := sq.node, port := sq.port, data := buf })

/-! ## `hash_u32` -/

/-- `hash_u32`. -/
def hashU32 (value : UInt32) : UInt32 := (value.toUInt64 * 2654435761).toUInt32

/-- The value with a given hash: the multiplier is odd. -/
def unhashU32 (key : UInt32) : UInt32 := key * 244002641

@[simp] theorem unhashU32_hashU32 (value : UInt32) : unhashU32 (hashU32 value) = value := by
  have hone : (2654435761 * 244002641 : UInt32) = 1 := by decide
  have hmul : hashU32 value = value * 2654435761 := by simp [hashU32]
  rw [unhashU32, hmul, UInt32.mul_assoc, hone, UInt32.mul_one]

@[simp] theorem hashU32_unhashU32 (key : UInt32) : hashU32 (unhashU32 key) = key := by
  have hone : (244002641 * 2654435761 : UInt32) = 1 := by decide
  have hmul : hashU32 (unhashU32 key) = unhashU32 key * 2654435761 := by simp [hashU32]
  rw [hmul, unhashU32, UInt32.mul_assoc, hone, UInt32.mul_one]

theorem hashU32_inj {x y : UInt32} (h : hashU32 x = hashU32 y) : x = y := by
  rw [← unhashU32_hashU32 x, h, unhashU32_hashU32]

end DragonQ6A.Qrtr
