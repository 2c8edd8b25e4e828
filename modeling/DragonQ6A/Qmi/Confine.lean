import DragonQ6A.Bytes.Footprint
import DragonQ6A.Qmi.Message

/-!
# Any input

`qmi_decode` on bytes that nobody encoded: where it writes, and how far it reads past the end of
its input.
-/

open Bytes C

namespace DragonQ6A.Qmi

/-! ## The most that is read -/

namespace Member

mutual

/-- The most bytes a member is decoded from, without its length. -/
def most (level : ℕ) : Member → ℕ
  | .basic _ c _ size => c.cap * size
  | .struct _ c _ ms => c.cap * mosts (level + 1) ms
  | .string _ max => (if level = 1 then 0 else stringLenSz max) + max

def mosts (level : ℕ) : List Member → ℕ
  | [] => 0
  | m :: ms => m.count.most + most level m + mosts level ms

end

end Member

/-! ## Numbers and strings -/

namespace Member

end Member

/-! ## Turns -/

section Turns

variable {level a inBufLen tlvLen : ℕ} {t : UInt8} {inBuf : Mem} {v : DecVars} {m : Member}
  {reads writes : Set ℕ} {bound : ℕ}

end Turns

/-! ## Structs -/

section Structs

variable {level : ℕ} {ms : List Member}

end Structs

namespace Member

end Member

/-! ## Messages -/

/-- The most bytes the value of a TLV is decoded from. -/
def Tlv.most (t : Tlv) : ℕ := t.member.count.most + t.member.most 1

namespace Schema

/-- The most bytes the value of any TLV is decoded from. -/
def most (c : Schema) : ℕ := (c.tlvs.map Tlv.most).foldr max 0

end Schema

end DragonQ6A.Qmi
