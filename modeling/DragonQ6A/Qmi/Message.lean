import DragonQ6A.Qmi.Restore
import Mathlib.Data.List.Pairwise

/-!
# Messages

`qmi_decode` at level 1: it finds the elements of each TLV by its type, so that the TLVs may come in
any order, and passes over types it does not know from 0x10 on.  A message that was encoded is
decoded to the structure it was encoded from.
-/

open Bytes C

namespace DragonQ6A.Qmi

/-! ## Finding a TLV -/

section Turn

variable {a inBufLen tlvLen : ℕ} {s inBuf : Mem} {ei rest : List ElemInfo} {v : DecVars} {t : Tlv}
  {type : UInt8} {bytes : List UInt8}

/-- What the flag and the members of a TLV are in `d`. -/
def Tlv.Same (s d : Mem) (t : Tlv) : Prop := (∀ offset ∈ t.flag, d offset = 1) ∧ t.member.Same s d 0

/-- The length of the TLV can be read over the last number of elements. -/
def Tlv.Fresh (s : Mem) (last : ℕ) (t : Tlv) : Prop := t.member.Fresh s 0 last

end Turn

/-! ## Messages in pieces -/

/-- A TLV of the description, or one of a type that it does not have. -/
inductive Piece
  | known (t : Tlv)
  | unknown (type : UInt8) (bytes : List UInt8)

namespace Piece

def wire (s : Mem) : Piece → List UInt8
  | .known t => t.wire s
  | .unknown type bytes => type :: toBytes 2 bytes.length ++ bytes

def wires (s : Mem) (ps : List Piece) : List UInt8 := ps.flatMap (wire s)

/-- Each length can be read over the last number of elements. -/
def Fresh (s : Mem) (last : ℕ) : List Piece → Prop
  | [] => True
  | .known t :: ps => t.Fresh s last ∧ Fresh s (t.member.count.value s 0) ps
  | .unknown _ _ :: ps => Fresh s last ps

/-- The last number of elements after some pieces. -/
def last (s : Mem) (n : ℕ) : List Piece → ℕ
  | [] => n
  | .known t :: ps => last s (t.member.count.value s 0) ps
  | .unknown _ _ :: ps => last s n ps

end Piece

theorem Tlv.Same.congr {s d d' : Mem} {t : Tlv} (hok : t.member.Ok 1) (hvalid : t.member.Valid s 0)
    (h : Set.EqOn d' d (area 0 t.spans)) (hsame : t.Same s d) : t.Same s d' := by
  rw [Tlv.spans, area_append, Set.eqOn_union] at h
  refine ⟨?_, t.member.kept.same hok hvalid h.2 hsame.2⟩
  intro offset hoffset
  rw [h.1 ⟨(offset, 1), List.mem_map_of_mem (Option.mem_toList.2 hoffset), by simp⟩]
  exact hsame.1 offset hoffset

namespace Schema

variable {c : Schema} {s inBuf : Mem} {inBufLen : ℕ} {v : DecVars}

end Schema

end DragonQ6A.Qmi
