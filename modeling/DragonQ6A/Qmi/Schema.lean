import DragonQ6A.Qmi.Codec

/-!
# Messages and their wire format

What an array of elements describes: a message is a list of TLVs, each with the offset of its flag
if it is optional and a member of the C structure, and a struct has members of its own.  `entries`
are the elements that describe one; `wire` are the bytes that a structure in memory has in a
message.
-/

open Bytes

namespace DragonQ6A.Qmi

/-- How many elements a member has; `var` has the offset and the size of its length. -/
inductive Count
  | one
  | static (n : ℕ)
  | var (offset size max : ℕ)
deriving DecidableEq

inductive Member
  | basic (offset : ℕ) (count : Count) (type : { t : ElemType // t.isBasic }) (size : ℕ)
  | struct (offset : ℕ) (count : Count) (size : ℕ) (members : List Member)
  | string (offset max : ℕ)

/-- A TLV, with the offset of its flag if it is optional. -/
structure Tlv where
  type : UInt8
  flag : Option ℕ
  member : Member

/-! ## Descriptions -/

/-- The `QMI_EOTI` element. -/
def eoti : ElemInfo := ⟨.eoti, 0, 0, .noArray, QMI_COMMON_TLV_TYPE, 0, none⟩

namespace Count

def arrayType : Count → ArrayType
  | .one => .noArray
  | .static _ => .staticArray
  | .var .. => .varLenArray

/-- The most elements there are. -/
def cap : Count → ℕ
  | .one => 1
  | .static n => n
  | .var _ _ max => max

/-- The bytes of the length in a message. -/
def most : Count → ℕ
  | .var _ size _ => dataLenSz size
  | _ => 0

/-- The `QMI_DATA_LEN` element. -/
def entries (t : UInt8) : Count → List ElemInfo
  | .var offset size _ => [⟨.dataLen, 1, size, .noArray, t, offset, none⟩]
  | _ => []

end Count

namespace Member

def count : Member → Count
  | .basic _ c _ _ => c
  | .struct _ c _ _ => c
  | .string _ _ => .one

def offset : Member → ℕ
  | .basic offset _ _ _ => offset
  | .struct offset _ _ _ => offset
  | .string offset _ => offset

mutual

/-- The element of a member. -/
def info (t : UInt8) : Member → ElemInfo
  | .basic offset c type size => ⟨type, c.cap, size, c.arrayType, t, offset, none⟩
  | .struct offset c size ms => ⟨.struct, c.cap, size, c.arrayType, t, offset, some (infos ms)⟩
  | .string offset max => ⟨.string, max, 1, .noArray, t, offset, none⟩

/-- The array of a struct. -/
def infos : List Member → List ElemInfo
  | [] => [eoti]
  | m :: ms =>
    m.count.entries QMI_COMMON_TLV_TYPE ++ info QMI_COMMON_TLV_TYPE m :: infos ms

end

/-- The elements of a member. -/
def entries (t : UInt8) (m : Member) : List ElemInfo := m.count.entries t ++ [m.info t]

theorem infos_cons (m : Member) (ms : List Member) :
    infos (m :: ms) = m.entries QMI_COMMON_TLV_TYPE ++ infos ms := by
  simp [infos, entries]

/-- Induction over the members of a struct. -/
theorem induct {P : Member → Prop} (basic : ∀ offset c type size, P (.basic offset c type size))
    (struct : ∀ offset c size ms, (∀ m ∈ ms, P m) → P (.struct offset c size ms))
    (string : ∀ offset max, P (.string offset max)) (m : Member) : P m := by
  have hcons : ∀ m ms, P m → (∀ x ∈ ms, P x) → ∀ x ∈ m :: ms, P x := by
    intro m ms hm hms x hx
    cases hx with
    | head => exact hm
    | tail _ hx => exact hms x hx
  exact @Member.rec P (fun ms => ∀ x ∈ ms, P x) basic struct string nofun hcons m

end Member

/-- The elements of a TLV. -/
def Tlv.entries (t : Tlv) : List ElemInfo :=
  (t.flag.toList.map fun offset => ⟨.optFlag, 1, 1, .noArray, t.type, offset, none⟩) ++
    t.member.entries t.type

/-- The array of a message. -/
def message (ts : List Tlv) : List ElemInfo := ts.flatMap Tlv.entries ++ [eoti]

/-! ## Well-formed descriptions -/

/-- Bytes of a structure: where they start and how many they are. -/
abbrev Span := ℕ × ℕ

def Span.Apart (s t : Span) : Prop := s.1 + s.2 ≤ t.1 ∨ t.1 + t.2 ≤ s.1

instance (s t : Span) : Decidable (s.Apart t) := by
  unfold Span.Apart
  infer_instance

/-- The addresses of the spans of a structure at `a`. -/
def area (a : ℕ) (spans : List Span) : Set ℕ :=
  {i | ∃ s ∈ spans, a + s.1 ≤ i ∧ i < a + s.1 + s.2}

/-- Decoding writes a length as a `uint32_t`. -/
def Count.spans : Count → List Span
  | .var offset _ _ => [(offset, 4)]
  | _ => []

def Count.Ok : Count → Prop
  | .one => True
  | .static n => 0 < n
  | .var _ size max => 0 < size ∧ size ≤ 4 ∧ max < 256 ^ dataLenSz size

instance (c : Count) : Decidable c.Ok := by
  cases c <;> unfold Count.Ok <;> infer_instance

namespace Member

/-- The bytes a member takes in its structure, a string with its end. -/
def extent : Member → ℕ
  | .basic _ c _ size => c.cap * size
  | .struct _ c size _ => c.cap * size
  | .string _ max => max + 1

def spans (m : Member) : List Span := m.count.spans ++ [(m.offset, m.extent)]

mutual

/-- A member of a structure on a level.  Nothing has no bytes or has 2 GiB of them, the members of a
struct are apart and inside it, and the length of a string fits the bytes it has below level 1. -/
def Ok (level : ℕ) : Member → Prop
  | .basic _ c _ size => (c.Ok ∧ c.cap * size < 2 ^ 31) ∧ 0 < size
  | .struct _ c size ms =>
    (c.Ok ∧ c.cap * size < 2 ^ 31) ∧ ms ≠ [] ∧ (ms.flatMap spans).Pairwise Span.Apart ∧
      (∀ s ∈ ms.flatMap spans, s.1 + s.2 ≤ size) ∧ AllOk (level + 1) ms
  | .string _ max => max < 2 ^ 31 - 1 ∧ (level = 1 ∨ max < 256 ^ stringLenSz max)

def AllOk (level : ℕ) : List Member → Prop
  | [] => True
  | m :: ms => Ok level m ∧ AllOk level ms

end

end Member

def Tlv.spans (t : Tlv) : List Span :=
  (t.flag.toList.map fun offset => (offset, 1)) ++ t.member.spans

/-- A message whose TLVs differ in type, from each other and from `QMI_EOTI`, and are apart in the
structure. -/
structure Schema where
  tlvs : List Tlv
  ok : ∀ t ∈ tlvs, t.member.Ok 1
  types : (QMI_COMMON_TLV_TYPE :: tlvs.map Tlv.type).Nodup
  apart : (tlvs.flatMap Tlv.spans).Pairwise Span.Apart

/-! ## The wire -/

/-- `f` of `n` places, `size` apart. -/
def strided (f : ℕ → List UInt8) (size : ℕ) : ℕ → ℕ → List UInt8
  | _, 0 => []
  | a, n + 1 => f a ++ strided f size (a + size) n

/-- What is true of all the places is true of the first and of those behind it. -/
theorem forall_strided_succ (p : ℕ → Prop) (size a n : ℕ) :
    (∀ i < n + 1, p (a + i * size)) ↔ p a ∧ ∀ i < n, p (a + size + i * size) := by
  have hshift : ∀ i, a + (i + 1) * size = a + size + i * size := by
    intro i
    rw [Nat.succ_mul]
    omega
  rw [Nat.forall_lt_succ_left]
  simp only [hshift, Nat.zero_mul, Nat.add_zero]

namespace Count

/-- The number of elements in the structure at `a`. -/
def value (s : Mem) (a : ℕ) : Count → ℕ
  | .one => 1
  | .static n => n
  | .var offset size _ => ofBytes (read s (a + offset) size)

/-- The bytes of the length. -/
def wire (s : Mem) (a : ℕ) : Count → List UInt8
  | .var offset size max => toBytes (dataLenSz size) ((Count.var offset size max).value s a)
  | _ => []

end Count

namespace Member

mutual

/-- The bytes of a member without its length. -/
def item (s : Mem) (level a : ℕ) : Member → List UInt8
  | .basic offset c _ size => read s (a + offset) (c.value s a * size)
  | .struct offset c size ms =>
    strided (fun b => wires s (level + 1) b ms) size (a + offset) (c.value s a)
  | .string offset max =>
    let n := strlen s (a + offset) (max + 1)
    (if level = 1 then [] else toBytes (stringLenSz max) n) ++ read s (a + offset) n

/-- The bytes of a struct. -/
def wires (s : Mem) (level a : ℕ) : List Member → List UInt8
  | [] => []
  | m :: ms => m.count.wire s a ++ item s level a m ++ wires s level a ms

end

def wire (s : Mem) (level a : ℕ) (m : Member) : List UInt8 := m.count.wire s a ++ m.item s level a

theorem wires_cons (s : Mem) (level a : ℕ) (m : Member) (ms : List Member) :
    wires s level a (m :: ms) = m.wire s level a ++ wires s level a ms := by
  rw [wires, wire]

end Member

namespace Tlv

/-- Whether the TLV is in the message. -/
def present (t : Tlv) (s : Mem) : Bool :=
  match t.flag with
  | none => true
  | some offset => s offset ≠ 0

/-- The value of the TLV. -/
def payload (t : Tlv) (s : Mem) : List UInt8 := t.member.wire s 1 0

def wire (t : Tlv) (s : Mem) : List UInt8 :=
  t.type :: toBytes 2 (t.payload s).length ++ t.payload s

/-- The TLVs of a message. -/
def wires (s : Mem) (ts : List Tlv) : List UInt8 :=
  (ts.filter fun t => t.present s).flatMap fun t => t.wire s

theorem wires_cons (s : Mem) (t : Tlv) (ts : List Tlv) :
    wires s (t :: ts) = (if t.present s then t.wire s else []) ++ wires s ts := by
  by_cases h : t.present s
  · simp [wires, h]
  · simp [wires, h]

end Tlv

/-- The message of the structure at 0. -/
def Schema.wire (c : Schema) (s : Mem) : List UInt8 := Tlv.wires s c.tlvs

/-! ## A response -/

/-- The members of `struct qmi_response_type_v01`. -/
def responseMembers : List Member :=
  [.basic 0 .one ⟨.signed2ByteEnum, rfl⟩ 2, .basic 2 .one ⟨.signed2ByteEnum, rfl⟩ 2]

/-- `qmi_response_type_v01_ei`. -/
def qmiResponseTypeV01Ei : List ElemInfo :=
  [⟨.signed2ByteEnum, 1, 2, .noArray, QMI_COMMON_TLV_TYPE, 0, none⟩,
   ⟨.signed2ByteEnum, 1, 2, .noArray, QMI_COMMON_TLV_TYPE, 2, none⟩,
   ⟨.eoti, 0, 0, .noArray, QMI_COMMON_TLV_TYPE, 0, none⟩]

example : Member.infos responseMembers = qmiResponseTypeV01Ei := by
  simp [responseMembers, Member.infos, Member.info, Member.count, Count.entries, Count.cap,
    Count.arrayType, qmiResponseTypeV01Ei, eoti]

def resultTlv : Tlv := ⟨2, none, .struct 0 .one 4 responseMembers⟩

def listTlv : Tlv := ⟨0x10, some 4, .basic 12 (.var 8 1 8) ⟨.unsigned2Byte, rfl⟩ 2⟩

def nameTlv : Tlv := ⟨0x11, some 29, .string 30 8⟩

/-- A response with an optional list and an optional name. -/
def response : Schema where
  tlvs := [resultTlv, listTlv, nameTlv]
  ok := by
    simp [resultTlv, listTlv, nameTlv, responseMembers, Member.Ok, Member.AllOk, Member.spans,
      Member.count, Member.offset, Member.extent, Count.Ok, Count.spans, Count.cap, Span.Apart,
      dataLenSz]
  types := by decide
  apart := by decide

/-- A response of three numbers and the name AB. -/
def answered : Mem := fun i =>
  [1, 0, 2, 0, 1, 0, 0, 0, 3, 0, 0, 0, 10, 0, 11, 0, 12, 0, 0, 0, 0, 0, 0, 0, 0, 0, 0, 0, 0, 1, 65,
    66].getD i 0

theorem response_wire : response.wire answered =
  [2, 4, 0, 1, 0, 2, 0, 0x10, 7, 0, 3, 10, 0, 11, 0, 12, 0, 0x11, 2, 0, 65, 66] := by decide +kernel

end DragonQ6A.Qmi
