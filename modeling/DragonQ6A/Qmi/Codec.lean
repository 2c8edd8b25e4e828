import DragonQ6A.Bytes.Little
import DragonQ6A.Bytes.Memory
import DragonQ6A.C.Word
import DragonQ6A.Qrtr.Packet

/-!
# The QMI codec

`lib/qmi.c`: a message is encoded from a C structure, and decoded into one, as an array of
`struct qmi_elem_info` describes.  Pointers are addresses and a pointer into an array of elements
is what is left of the array; `none` is a read past its end, or a loop that takes more turns than
its input has bytes, which it does only where it goes back.  Sums of `uint32_t` and of `int` wrap.
-/

open Bytes C

namespace DragonQ6A.Qmi

def EFAULT : Int := 14
def EINVAL : Int := 22

/-- `enum qmi_elem_type`. -/
inductive ElemType
  | eoti
  | optFlag
  | dataLen
  | unsigned1Byte
  | unsigned2Byte
  | unsigned4Byte
  | unsigned8Byte
  | signed1ByteEnum
  | signed2ByteEnum
  | signed4ByteEnum
  | struct
  | string
deriving DecidableEq

/-- The types of the numbers. -/
def ElemType.isBasic : ElemType → Bool
  | .eoti | .optFlag | .dataLen | .struct | .string => false
  | _ => true

/-- `enum qmi_array_type`. -/
inductive ArrayType
  | noArray
  | staticArray
  | varLenArray
deriving DecidableEq

/-- `struct qmi_elem_info`. -/
structure ElemInfo where
  dataType : ElemType
  elemLen : ℕ
  elemSize : ℕ
  arrayType : ArrayType
  tlvType : UInt8
  offset : ℕ
  eiArray : Option (List ElemInfo)

theorem ElemInfo.sizeOf_eiArray (e : ElemInfo) : sizeOf e.eiArray < sizeOf e := by
  cases e
  simp

theorem sizeOf_drop_le (ei : List ElemInfo) (k : ℕ) : sizeOf (ei.drop k) ≤ sizeOf ei := by
  induction ei generalizing k with
  | nil => simp
  | cons e rest ih =>
    cases k with
    | zero => simp
    | succ k =>
      have hrest := ih k
      simp
      omega

def QMI_COMMON_TLV_TYPE : UInt8 := 0
def OPTIONAL_TLV_TYPE_START : UInt8 := 0x10

/-- `old` with its low bytes overwritten. -/
def overwrite (old : ℕ) (bs : List UInt8) : ℕ :=
  ofBytes bs + old / 256 ^ bs.length * 256 ^ bs.length

/-- `elem_size == sizeof(uint8_t) ? sizeof(uint8_t) : sizeof(uint16_t)`. -/
def dataLenSz (elemSize : ℕ) : ℕ := if elemSize = 1 then 1 else 2

/-- `elem_len <= 256 ? sizeof(uint8_t) : sizeof(uint16_t)`. -/
def stringLenSz (elemLen : ℕ) : ℕ := if elemLen ≤ 256 then 1 else 2

/-- `skip_to_next_elem`: of the elements after `e`, how many it passes over. -/
def skipToNextElem (level : ℕ) (e : ElemInfo) : List ElemInfo → ℕ
  | [] => 0
  | e' :: rest =>
    if level > 1 then 0
    else if e.tlvType = e'.tlvType then skipToNextElem level e' rest + 1
    else 0

/-- `qmi_calc_min_msg_len`.  The sum wraps at each step, so its order does not matter. -/
def qmiCalcMinMsgLen (ei : List ElemInfo) (level : ℕ) : Option Int :=
  match ei with
  | [] => none
  | e :: rest =>
    let tlv := if level = 1 then 3 else 0
    match e.dataType with
    | .eoti => some 0
    | .optFlag => qmiCalcMinMsgLen (rest.drop (skipToNextElem level e rest)) level
    | .dataLen => do
      let len ← qmiCalcMinMsgLen rest level
      some (int32 (dataLenSz e.elemSize + len))
    | .struct => do
      let own ← match harr : e.eiArray with
        | none => some 0
        | some arr => qmiCalcMinMsgLen arr (level + 1)
      let len ← qmiCalcMinMsgLen rest level
      some (int32 (own + tlv + len))
    | .string => do
      let own := (if level > 1 then stringLenSz e.elemLen else 0) + mul32 e.elemLen e.elemSize
      let len ← qmiCalcMinMsgLen rest level
      some (int32 (own + tlv + len))
    | _ => do
      let own := mul32 e.elemLen e.elemSize
      let len ← qmiCalcMinMsgLen rest level
      some (int32 (own + tlv + len))
termination_by sizeOf ei
decreasing_by
  · have hdrop := sizeOf_drop_le rest (skipToNextElem level e rest)
    decreasing_tactic
  · decreasing_tactic
  · decreasing_tactic
  · have hsize := e.sizeOf_eiArray
    simp [harr] at hsize
    decreasing_tactic
  · decreasing_tactic
  · decreasing_tactic

/-! ## Encoding -/

/-- The loop of `qmi_encode_basic_elem` and `qmi_decode_basic_elem`: the memory, and `rc`. -/
def basicElemLoop (dst : Mem) (bufDst : ℕ) (src : Mem) (bufSrc elemLen elemSize rc : ℕ) : Mem × ℕ :=
  match elemLen with
  | 0 => (dst, rc)
  | n + 1 =>
    basicElemLoop (write dst bufDst (read src bufSrc elemSize)) (bufDst + elemSize) src
      (bufSrc + elemSize) n elemSize (add32 rc elemSize)

/-- `qmi_encode_basic_elem` and `qmi_decode_basic_elem`. -/
def qmiBasicElem (dst : Mem) (bufDst : ℕ) (src : Mem) (bufSrc elemLen elemSize : ℕ) : Int × Mem :=
  let r := basicElemLoop dst bufDst src bufSrc elemLen elemSize 0
  (int32 r.2, r.1)

/-- `strlen`, as far as `limit`: the callers take nothing longer. -/
def strlen (m : Mem) (a : ℕ) : ℕ → ℕ
  | 0 => 0
  | limit + 1 => if m a = 0 then 0 else strlen m (a + 1) limit + 1

/-- `qmi_encode_string_elem`. -/
def qmiEncodeStringElem (e : ElemInfo) (out : Mem) (bufDst : ℕ) (src : Mem)
    (bufSrc outBufLen encLevel : ℕ) : Int × Mem :=
  let stringLen := strlen src bufSrc (e.elemLen + 1)
  let sz := stringLenSz e.elemLen
  if stringLen > e.elemLen then (-EINVAL, out)
  else if encLevel = 1 then
    if stringLen + 3 > outBufLen then (-EINVAL, out)
    else qmiBasicElem out bufDst src bufSrc stringLen e.elemSize
  else if add32 stringLen sz > outBufLen then (-EINVAL, out)
  else
    let out := write out bufDst (toBytes sz stringLen)
    let r := qmiBasicElem out (bufDst + sz) src bufSrc stringLen e.elemSize
    (int32 (sz + r.1), r.2)

/-- The variables of `qmi_encode`, with the memory it writes to. -/
structure EncVars where
  out : Mem
  bufDst : ℕ
  tlvPointer : ℕ
  tlvLen : ℕ
  encodedBytes : ℕ
  dataLenValue : ℕ
  encodeTlv : Bool

namespace EncVars

/-- `UPDATE_ENCODE_VARIABLES`, with the memory as it is then. -/
def update (v : EncVars) (out : Mem) (rc : Int) : EncVars :=
  { v with out := out, bufDst := moved v.bufDst rc
           encodedBytes := uint32 (v.encodedBytes + rc), tlvLen := uint32 (v.tlvLen + rc)
           encodeTlv := true }

/-- The end of a turn: the header of the TLV, when it is complete. -/
def finish (v : EncVars) (encLevel : ℕ) (tlvType : UInt8) : EncVars :=
  if v.encodeTlv ∧ encLevel = 1 then
    { v with out := write v.out v.tlvPointer (tlvType :: toBytes 2 v.tlvLen)
             encodedBytes := add32 v.encodedBytes 3, tlvPointer := v.bufDst, tlvLen := 0
             bufDst := v.bufDst + 3, encodeTlv := false }
  else v

end EncVars

/-- The number of elements that `array_type` gives, or `none` for a length it does not take. -/
def encodeLen (e : ElemInfo) (dataLenValue : ℕ) : Option ℕ :=
  match e.arrayType with
  | .noArray => some 1
  | .staticArray => some e.elemLen
  | .varLenArray =>
    if dataLenValue = 0 ∨ e.elemLen < dataLenValue then none else some dataLenValue

/-- The `switch` of `qmi_encode` on the element `e`: what it returns, or how many elements after
`e` it passes over.  `struct` is `qmi_encode_struct_elem`. -/
def encodeElem (encLevel outBufLen : ℕ) (src : Mem) (bufSrc : ℕ) (e : ElemInfo)
    (rest : List ElemInfo) (v : EncVars) (struct : Option (Int × Mem)) :
    Option (Except (Int × Mem) (ℕ × EncVars)) :=
  match e.dataType with
  | .eoti => some (.error (-EINVAL, v.out))
  | .optFlag =>
    some (.ok (if src bufSrc ≠ 0 then 0 else skipToNextElem encLevel e rest, v))
  | .dataLen =>
    let v := { v with dataLenValue := overwrite v.dataLenValue (read src bufSrc e.elemSize) }
    let sz := dataLenSz e.elemSize
    if add32 sz v.encodedBytes + 3 > outBufLen then some (.error (-EINVAL, v.out))
    else
      let v := v.update (write v.out v.bufDst (toBytes sz v.dataLenValue)) sz
      if v.dataLenValue = 0 then
        match rest with
        | [] => none
        | e' :: rest => some (.ok (skipToNextElem encLevel e' rest + 1, v))
      else some (.ok (0, { v with encodeTlv := false }))
  | .struct =>
    match struct with
    | none => none
    | some (rc, out) =>
      if rc < 0 then some (.error (rc, out)) else some (.ok (0, v.update out rc))
  | .string =>
    let r := qmiEncodeStringElem e v.out v.bufDst src bufSrc (sub32 outBufLen v.encodedBytes)
      encLevel
    if r.1 < 0 then some (.error r) else some (.ok (0, v.update r.2 r.1))
  | _ =>
    if add32 (mul32 v.dataLenValue e.elemSize) v.encodedBytes + 3 > outBufLen then
      some (.error (-EINVAL, v.out))
    else
      let r := qmiBasicElem v.out v.bufDst src bufSrc v.dataLenValue e.elemSize
      some (.ok (0, v.update r.2 r.1))

mutual

/-- The loop of `qmi_encode`, from the element that `temp_ei` is at on: what it returns, and the
memory then. -/
def encodeLoop (encLevel outBufLen : ℕ) (src : Mem) (cStruct : ℕ) (ei : List ElemInfo)
    (v : EncVars) : Option (Int × Mem) :=
  match ei with
  | [] => none
  | e :: rest =>
    if e.dataType = .eoti then some (int32 v.encodedBytes, v.out)
    else
      match encodeLen e v.dataLenValue with
      | none => some (-EINVAL, v.out)
      | some n =>
        let v := { v with dataLenValue := n }
        let bufSrc := cStruct + e.offset
        match encodeElem encLevel outBufLen src bufSrc e rest v
            (qmiEncodeStructElem e v.out v.bufDst src bufSrc n (sub32 outBufLen v.encodedBytes)
              (encLevel + 1) 0) with
        | none => none
        | some (.error r) => some r
        | some (.ok (k, v)) =>
          encodeLoop encLevel outBufLen src cStruct (rest.drop k) (v.finish encLevel e.tlvType)
termination_by (sizeOf ei, 0)
decreasing_by
  · decreasing_tactic
  · have hdrop := sizeOf_drop_le rest k
    decreasing_tactic

/-- The loop of `qmi_encode_struct_elem`, with `elemLen` elements to go. -/
def qmiEncodeStructElem (e : ElemInfo) (out : Mem) (bufDst : ℕ) (src : Mem)
    (bufSrc elemLen outBufLen encLevel : ℕ) (encodedBytes : Int) : Option (Int × Mem) :=
  match elemLen with
  | 0 => some (encodedBytes, out)
  | n + 1 =>
    match qmiEncode e.eiArray out bufDst src bufSrc (uint32 (outBufLen - encodedBytes))
        encLevel with
    | none => none
    | some (rc, out) =>
      if rc < 0 then some (rc, out)
      else
        qmiEncodeStructElem e out (moved bufDst rc) src (bufSrc + e.elemSize) n outBufLen encLevel
          (int32 (encodedBytes + rc))
termination_by (sizeOf e, elemLen)
decreasing_by
  · have harr := e.sizeOf_eiArray
    decreasing_tactic
  · decreasing_tactic

/-- `qmi_encode`. -/
def qmiEncode (eiArray : Option (List ElemInfo)) (out : Mem) (outBuf : ℕ) (src : Mem)
    (cStruct outBufLen encLevel : ℕ) : Option (Int × Mem) :=
  match eiArray with
  | none => some (0, out)
  | some ei =>
    encodeLoop encLevel outBufLen src cStruct ei
      ⟨out, if encLevel = 1 then outBuf + 3 else outBuf, outBuf, 0, 0, 0, false⟩
termination_by (sizeOf eiArray, 0)

end

/-! ## Decoding -/

/-- `qmi_decode_string_elem`. -/
def qmiDecodeStringElem (e : ElemInfo) (dst : Mem) (bufDst : ℕ) (inBuf : Mem)
    (bufSrc tlvLen decLevel : ℕ) : Int × Mem :=
  let sz := if decLevel = 1 then 0 else stringLenSz e.elemLen
  let stringLen := if decLevel = 1 then tlvLen else ofBytes (read inBuf bufSrc sz)
  if stringLen > e.elemLen then (-EINVAL, dst)
  else if stringLen > tlvLen then (-EFAULT, dst)
  else
    let r := qmiBasicElem dst bufDst inBuf (bufSrc + sz) stringLen e.elemSize
    (int32 (sz + r.1), write r.2 (bufDst + stringLen) [0])

/-- `find_ei`. -/
def findEi (ei : List ElemInfo) (type : UInt8) : Option (List ElemInfo) :=
  match ei with
  | [] => none
  | e :: rest =>
    if e.dataType = .eoti then none
    else if e.tlvType = type then some (e :: rest)
    else findEi rest type

/-- The variables of `qmi_decode`, with the memory it writes to. -/
structure DecVars where
  dst : Mem
  bufSrc : ℕ
  decodedBytes : ℕ
  dataLenValue : ℕ

/-- `UPDATE_DECODE_VARIABLES`. -/
def DecVars.update (v : DecVars) (rc : Int) : DecVars :=
  { v with bufSrc := moved v.bufSrc rc, decodedBytes := uint32 (v.decodedBytes + rc) }

/-- How a turn of `qmi_decode` starts: it returns, passes over a TLV, or decodes one from an
element on. -/
inductive Start
  | stop (rc : Int)
  | skip (tlvLen : ℕ)
  | elem (tempEi : List ElemInfo) (tlvLen : ℕ)

/-- The first part of a turn.  At level 1 `ei` is the whole array, below what `temp_ei` is at. -/
def decodeStart (decLevel : ℕ) (ei : List ElemInfo) (inBuf : Mem) (inBufLen : ℕ) (v : DecVars) :
    Option Start :=
  if decLevel = 1 then
    let tlvType := inBuf v.bufSrc
    let tlvLen := ofBytes (read inBuf (v.bufSrc + 1) 2)
    match findEi ei tlvType with
    | none =>
      if tlvType < OPTIONAL_TLV_TYPE_START then some (.stop (-EINVAL)) else some (.skip tlvLen)
    | some tempEi => some (.elem tempEi tlvLen)
  else
    match ei with
    | [] => none
    | e :: _ =>
      if e.dataType = .eoti then some (.stop (int32 v.decodedBytes))
      else some (.elem ei (sub32 inBufLen v.decodedBytes))

/-- The branch for `QMI_OPT_FLAG`. -/
def decodeOptFlag (cStruct : ℕ) (tempEi : List ElemInfo) (v : DecVars) : List ElemInfo × DecVars :=
  match tempEi with
  | [] => ([], v)
  | e :: rest =>
    if e.dataType = .optFlag then (rest, { v with dst := write v.dst (cStruct + e.offset) [1] })
    else (e :: rest, v)

/-- The branch for `QMI_DATA_LEN`, with `tlv_len`. -/
def decodeDataLen (cStruct : ℕ) (inBuf : Mem) (tempEi : List ElemInfo) (tlvLen : ℕ) (v : DecVars) :
    List ElemInfo × ℕ × DecVars :=
  match tempEi with
  | [] => ([], tlvLen, v)
  | e :: rest =>
    if e.dataType = .dataLen then
      let sz := dataLenSz e.elemSize
      let value := overwrite v.dataLenValue (read inBuf v.bufSrc sz)
      let dst := write v.dst (cStruct + e.offset) (toBytes 4 value)
      (rest, sub32 tlvLen sz, { v with dst := dst, dataLenValue := value }.update sz)
    else (e :: rest, tlvLen, v)

/-- A turn from the element it found up to the `switch`: what `temp_ei` is at, and `tlv_len`. -/
def decodeHead (decLevel cStruct : ℕ) (inBuf : Mem) (tempEi : List ElemInfo) (tlvLen : ℕ)
    (v : DecVars) : List ElemInfo × ℕ × DecVars :=
  let flag := decodeOptFlag cStruct tempEi (if decLevel = 1 then v.update 3 else v)
  decodeDataLen cStruct inBuf flag.1 tlvLen flag.2

/-- What the next turn starts with: at level 1 it looks its element up in the whole array. -/
def nextEi (decLevel : ℕ) (ei rest : List ElemInfo) : List ElemInfo :=
  if decLevel = 1 then ei else rest

/-- The turns that are left, which count at level 1: below it a turn moves on in the array. -/
def nextTurns (decLevel turns : ℕ) : ℕ := if decLevel = 1 then turns - 1 else turns

/-- The number of elements that `array_type` gives, or `none` for one that is too large. -/
def decodeLen (e : ElemInfo) (dataLenValue : ℕ) : Option ℕ :=
  match e.arrayType with
  | .noArray => some 1
  | .staticArray => some e.elemLen
  | .varLenArray => if dataLenValue > e.elemLen then none else some dataLenValue

/-- The `switch` of `qmi_decode` on an element `e` that is no struct. -/
def decodeElem (e : ElemInfo) (dst : Mem) (bufDst : ℕ) (inBuf : Mem)
    (bufSrc dataLenValue tlvLen decLevel : ℕ) : Int × Mem :=
  match e.dataType with
  | .eoti | .optFlag | .dataLen | .struct => (-EINVAL, dst)
  | .string => qmiDecodeStringElem e dst bufDst inBuf bufSrc tlvLen decLevel
  | _ => qmiBasicElem dst bufDst inBuf bufSrc dataLenValue e.elemSize

/-- The end of `qmi_decode_struct_elem`, with `elemLen` elements left. -/
def decodeStructEnd (dst : Mem) (elemLen tlvLen decLevel : ℕ) (decodedBytes : Int) : Int × Mem :=
  if decLevel ≤ 2 ∧ uint32 decodedBytes ≠ tlvLen ∨
      decLevel > 2 ∧ (0 < elemLen ∨ uint32 decodedBytes > tlvLen) then
    (-EFAULT, dst)
  else (decodedBytes, dst)

/-! The turns end: at level 1 they are counted, below each moves on in the array. -/

section Termination

variable {decLevel cStruct inBufLen tlvLen turns : ℕ} {inBuf : Mem} {e : ElemInfo}
  {ei tempEi rest : List ElemInfo} {v : DecVars}

theorem sizeOf_le_of_suffix (h : tempEi <:+ ei) : sizeOf tempEi ≤ sizeOf ei := by
  obtain ⟨l, rfl⟩ := h
  have hdrop := sizeOf_drop_le (l ++ tempEi) l.length
  rwa [List.drop_left] at hdrop

theorem findEi_suffix {type : UInt8} (h : findEi ei type = some tempEi) : tempEi <:+ ei := by
  induction ei with
  | nil => cases h
  | cons e rest ih =>
    rw [findEi] at h
    by_cases he : e.dataType = .eoti
    · rw [if_pos he] at h
      cases h
    · rw [if_neg he] at h
      by_cases ht : e.tlvType = type
      · rw [if_pos ht] at h
        cases h
        exact List.suffix_rfl
      · rw [if_neg ht] at h
        exact (ih h).trans (List.suffix_cons e rest)

theorem decodeStart_suffix
    (h : decodeStart decLevel ei inBuf inBufLen v = some (.elem tempEi tlvLen)) :
    tempEi <:+ ei := by
  unfold decodeStart at h
  by_cases hlevel : decLevel = 1
  · rw [if_pos hlevel] at h
    cases hfind : findEi ei (inBuf v.bufSrc) with
    | none =>
      simp only [hfind] at h
      split_ifs at h
      · cases h
      · cases h
    | some found =>
      simp only [hfind] at h
      cases h
      exact findEi_suffix hfind
  · rw [if_neg hlevel] at h
    cases ei with
    | nil => cases h
    | cons e rest =>
      dsimp only at h
      split_ifs at h
      · cases h
      · cases h
        exact List.suffix_rfl

/-- A TLV is passed over at level 1. -/
theorem decodeStart_skip (h : decodeStart decLevel ei inBuf inBufLen v = some (.skip tlvLen)) :
    decLevel = 1 := by
  by_contra hlevel
  unfold decodeStart at h
  rw [if_neg hlevel] at h
  cases ei with
  | nil => cases h
  | cons e rest =>
    dsimp only at h
    split_ifs at h
    · cases h
    · cases h

theorem decodeOptFlag_suffix (cStruct : ℕ) (tempEi : List ElemInfo) (v : DecVars) :
    (decodeOptFlag cStruct tempEi v).1 <:+ tempEi := by
  cases tempEi with
  | nil => exact List.suffix_rfl
  | cons e rest =>
    rw [decodeOptFlag]
    split_ifs
    · exact List.suffix_cons e rest
    · exact List.suffix_rfl

theorem decodeDataLen_suffix (cStruct : ℕ) (inBuf : Mem) (tempEi : List ElemInfo) (tlvLen : ℕ)
    (v : DecVars) : (decodeDataLen cStruct inBuf tempEi tlvLen v).1 <:+ tempEi := by
  cases tempEi with
  | nil => exact List.suffix_rfl
  | cons e rest =>
    rw [decodeDataLen]
    split_ifs
    · exact List.suffix_cons e rest
    · exact List.suffix_rfl

theorem sizeOf_decodeHead
    (hstart : decodeStart decLevel ei inBuf inBufLen v = some (.elem tempEi tlvLen))
    (hhead : (decodeHead decLevel cStruct inBuf tempEi tlvLen v).1 = e :: rest) :
    1 + sizeOf e + sizeOf rest ≤ sizeOf ei := by
  have hflag := decodeOptFlag_suffix cStruct tempEi (if decLevel = 1 then v.update 3 else v)
  have hlen := decodeDataLen_suffix cStruct inBuf
    (decodeOptFlag cStruct tempEi (if decLevel = 1 then v.update 3 else v)).1 tlvLen
    (decodeOptFlag cStruct tempEi (if decLevel = 1 then v.update 3 else v)).2
  have hsuffix := (hhead ▸ hlen).trans (hflag.trans (decodeStart_suffix hstart))
  exact sizeOf_le_of_suffix hsuffix

theorem next_lt (hturns : ¬(decLevel = 1 ∧ turns = 0))
    (hstart : decodeStart decLevel ei inBuf inBufLen v = some (.elem tempEi tlvLen))
    (hhead : (decodeHead decLevel cStruct inBuf tempEi tlvLen v).1 = e :: rest) :
    Prod.Lex (· < ·) (· < ·) (sizeOf (nextEi decLevel ei rest), nextTurns decLevel turns)
      (sizeOf ei, turns) := by
  have hsize := sizeOf_decodeHead hstart hhead
  unfold nextEi nextTurns
  by_cases hlevel : decLevel = 1
  · rw [if_pos hlevel, if_pos hlevel]
    apply Prod.Lex.right
    omega
  · rw [if_neg hlevel]
    apply Prod.Lex.left
    omega

end Termination

mutual

/-- The loop of `qmi_decode`, for that many turns at most: what it returns, and the memory then.
The number types do not look at `rc`. -/
def decodeLoop (turns decLevel : ℕ) (ei : List ElemInfo) (cStruct : ℕ) (inBuf : Mem)
    (inBufLen : ℕ) (v : DecVars) : Option (Int × Mem) :=
  if inBufLen ≤ v.decodedBytes then some (int32 v.decodedBytes, v.dst)
  else if _hturns : decLevel = 1 ∧ turns = 0 then none
  else
    match _hstart : decodeStart decLevel ei inBuf inBufLen v with
    | none => none
    | some (.stop rc) => some (rc, v.dst)
    | some (.skip tlvLen) =>
      decodeLoop (nextTurns decLevel turns) decLevel ei cStruct inBuf inBufLen
        ((v.update 3).update tlvLen)
    | some (.elem tempEi tlvLen) =>
      let head := decodeHead decLevel cStruct inBuf tempEi tlvLen v
      match _hhead : head.1 with
      | [] => none
      | e :: rest =>
        let v := head.2.2
        match decodeLen e v.dataLenValue with
        | none => some (-EINVAL, v.dst)
        | some n => do
          let bufDst := cStruct + e.offset
          let r ←
            if e.dataType = .struct then
              qmiDecodeStructElem e v.dst bufDst inBuf v.bufSrc n head.2.1 (decLevel + 1) 0
            else some (decodeElem e v.dst bufDst inBuf v.bufSrc n head.2.1 decLevel)
          if r.1 < 0 ∧ ¬e.dataType.isBasic then some r
          else
            decodeLoop (nextTurns decLevel turns) decLevel (nextEi decLevel ei rest) cStruct inBuf
              inBufLen ({ v with dst := r.2, dataLenValue := n }.update r.1)
termination_by (sizeOf ei, turns)
decreasing_by
  · have hlevel := decodeStart_skip _hstart
    apply Prod.Lex.right
    rw [nextTurns, if_pos hlevel]
    omega
  · exact next_lt _hturns _hstart _hhead
  · have hsize := sizeOf_decodeHead _hstart _hhead
    apply Prod.Lex.left
    omega

/-- The loop of `qmi_decode_struct_elem`, with `elemLen` elements to go. -/
def qmiDecodeStructElem (e : ElemInfo) (dst : Mem) (bufDst : ℕ) (inBuf : Mem)
    (bufSrc elemLen tlvLen decLevel : ℕ) (decodedBytes : Int) : Option (Int × Mem) :=
  match elemLen with
  | 0 => some (decodeStructEnd dst 0 tlvLen decLevel decodedBytes)
  | n + 1 =>
    if uint32 decodedBytes < tlvLen then do
      let r ← qmiDecode e.eiArray dst bufDst inBuf bufSrc (sub32 tlvLen (uint32 decodedBytes))
        decLevel
      if r.1 < 0 then some r
      else
        qmiDecodeStructElem e r.2 (bufDst + e.elemSize) inBuf (moved bufSrc r.1) n tlvLen decLevel
          (int32 (decodedBytes + r.1))
    else some (decodeStructEnd dst (n + 1) tlvLen decLevel decodedBytes)
termination_by (sizeOf e, elemLen)
decreasing_by
  · have harr := e.sizeOf_eiArray
    decreasing_tactic
  · decreasing_tactic

/-- `qmi_decode`. -/
def qmiDecode (eiArray : Option (List ElemInfo)) (outCStruct : Mem) (cStruct : ℕ) (inBuf : Mem)
    (buf inBufLen decLevel : ℕ) : Option (Int × Mem) :=
  match eiArray with
  | none => if inBufLen = 0 then some (0, outCStruct) else none
  | some ei => decodeLoop inBufLen decLevel ei cStruct inBuf inBufLen ⟨outCStruct, buf, 0, 0⟩
termination_by (sizeOf eiArray, 0)

end

/-! ## Messages -/

/-- Of `struct qrtr_packet` what the QMI functions use, with the memory at `data`. -/
structure Pkt where
  type : UInt32
  data : Mem
  dataLen : ℕ

/-- `struct qmi_header`. -/
def qmiHeader (type txnId msgId msgLen : ℕ) : List UInt8 :=
  toBytes 1 type ++ toBytes 2 txnId ++ toBytes 2 msgId ++ toBytes 2 msgLen

/-- `qmi_encode_message`: what it returns, and the packet. -/
def qmiEncodeMessage (pkt : Pkt) (type msgId txnId : ℕ) (cStruct : Option Mem)
    (ei : Option (List ElemInfo)) : Option (Int × Pkt) := do
  let minLen ← match cStruct, ei with
    | none, some ei => qmiCalcMinMsgLen ei 1
    | _, _ => some 0
  if minLen ≠ 0 then some (-EINVAL, pkt)
  else if pkt.dataLen < 7 then some (-Qrtr.EMSGSIZE, pkt)
  else
    let (msgLen, data) ← match cStruct with
      | none => some (0, pkt.data)
      | some src => qmiEncode ei pkt.data 7 src 0 (sub32 pkt.dataLen 7) 1
    if msgLen < 0 then some (msgLen, { pkt with data := data })
    else
      let dataLen := 7 + msgLen.toNat
      some (dataLen, { type := Qrtr.QRTR_TYPE_DATA, dataLen := dataLen
                       data := write data 0 (qmiHeader type txnId msgId msgLen.toNat) })

end DragonQ6A.Qmi
