import DragonQ6A.Qmi.Schema

/-!
# What encoding writes

`qmi_encode` on the array of a message writes the wire format, if the lengths and strings of the
structure are ones it takes and the message fits the buffer.  Each element has a turn of the loop;
what its members do is proved by induction over the structs.
-/

open Bytes C

namespace DragonQ6A.Qmi

/-! ## The turns of the loop -/

theorem basicElemLoop_eq (dst : Mem) (bufDst : ℕ) (src : Mem) (bufSrc n size : ℕ) {rc : ℕ}
    (h : rc < 2 ^ 32) : basicElemLoop dst bufDst src bufSrc n size rc =
      (write dst bufDst (read src bufSrc (n * size)), (rc + n * size) % 2 ^ 32) := by
  induction n generalizing dst bufDst bufSrc rc with
  | zero =>
    rw [basicElemLoop, Nat.zero_mul, read_zero, write_nil, Nat.add_zero, Nat.mod_eq_of_lt h]
  | succ n ih =>
    have hread : read src bufSrc ((n + 1) * size) =
        read src bufSrc size ++ read src (bufSrc + size) (n * size) := by
      rw [Nat.add_mul, Nat.one_mul, Nat.add_comm, read_add]
    rw [basicElemLoop, ih _ _ _ (add32_lt rc size), hread, write_append, length_read, add32,
      Nat.mod_add_mod, Nat.succ_mul, Nat.add_assoc, Nat.add_comm size]

theorem qmiBasicElem_eq (dst : Mem) (bufDst : ℕ) (src : Mem) (bufSrc : ℕ) {n size : ℕ}
    (h : n * size < 2 ^ 31) : qmiBasicElem dst bufDst src bufSrc n size =
      (((n * size : ℕ) : Int), write dst bufDst (read src bufSrc (n * size))) := by
  rw [qmiBasicElem, basicElemLoop_eq _ _ _ _ _ _ (by decide)]
  dsimp only
  rw [Nat.zero_add, Nat.mod_eq_of_lt (by omega), int32_natCast h]

section Turns

variable {level len cStruct n k : ℕ} {src : Mem} {e : ElemInfo} {rest : List ElemInfo}
  {v v' : EncVars} {r : Int × Mem}

/-- What `qmi_encode_struct_elem` answers in a turn. -/
def structAnswer (level len : ℕ) (src : Mem) (cStruct : ℕ) (e : ElemInfo) (v : EncVars) :
    Option (Int × Mem) :=
  qmiEncodeStructElem e v.out v.bufDst src (cStruct + e.offset) v.dataLenValue
    (sub32 len v.encodedBytes) (level + 1) 0

theorem encodeLoop_eoti : encodeLoop level len src cStruct [eoti] v =
    some (int32 v.encodedBytes, v.out) := by
  unfold encodeLoop
  exact if_pos rfl

theorem encodeLoop_turn (he : e.dataType ≠ .eoti) (hn : encodeLen e v.dataLenValue = some n)
    (helem : encodeElem level len src (cStruct + e.offset) e rest { v with dataLenValue := n }
      (structAnswer level len src cStruct e { v with dataLenValue := n }) = some (.ok (k, v'))) :
    encodeLoop level len src cStruct (e :: rest) v =
      encodeLoop level len src cStruct (rest.drop k) (v'.finish level e.tlvType) := by
  rw [encodeLoop, if_neg he]
  simp only [hn]
  rw [structAnswer] at helem
  simp only [helem]

theorem encodeLoop_error (he : e.dataType ≠ .eoti) (hn : encodeLen e v.dataLenValue = some n)
    (helem : encodeElem level len src (cStruct + e.offset) e rest { v with dataLenValue := n }
      (structAnswer level len src cStruct e { v with dataLenValue := n }) = some (.error r)) :
    encodeLoop level len src cStruct (e :: rest) v = some r := by
  rw [encodeLoop, if_neg he]
  simp only [hn]
  rw [structAnswer] at helem
  simp only [helem]

theorem encodeLoop_len (he : e.dataType ≠ .eoti) (hn : encodeLen e v.dataLenValue = none) :
    encodeLoop level len src cStruct (e :: rest) v = some (-EINVAL, v.out) := by
  rw [encodeLoop, if_neg he]
  simp only [hn]

end Turns

/-! ## Members that are written -/

/-- The variables after `bs` are written, for `n` elements. -/
def EncVars.put (v : EncVars) (bs : List UInt8) (n : ℕ) : EncVars :=
  { v with out := write v.out v.bufDst bs, bufDst := v.bufDst + bs.length
           encodedBytes := v.encodedBytes + bs.length, tlvLen := v.tlvLen + bs.length
           dataLenValue := n, encodeTlv := true }

/-- The buffer ends at `stop`: what is left of it is counted with the header that a TLV is to
get. -/
structure EncVars.Room (v : EncVars) (stop len : ℕ) : Prop where
  left : len + v.bufDst = stop + 3 + v.encodedBytes
  tlvLen_le : v.tlvLen ≤ v.encodedBytes
  lt : len < 2 ^ 31

/-- Where there is room nothing wraps. -/
theorem EncVars.Room.update_eq {v : EncVars} {stop len : ℕ} (h : v.Room stop len) {bs : List UInt8}
    (hfits : v.bufDst + bs.length ≤ stop) :
    v.update (write v.out v.bufDst bs) bs.length = v.put bs v.dataLenValue := by
  obtain ⟨hleft, htlv, hlt⟩ := h
  rw [update, put, moved_natCast, uint32_add (by omega), uint32_add (by omega)]

/-- The lengths that encoding takes. -/
def Count.Valid (s : Mem) (a : ℕ) : Count → Prop
  | .var offset size max => (Count.var offset size max).value s a ≤ max
  | _ => True

instance (s : Mem) (a : ℕ) : (c : Count) → Decidable (c.Valid s a)
  | .one => instDecidableTrue
  | .static _ => instDecidableTrue
  | .var offset size max => Nat.decLe ((Count.var offset size max).value s a) max

namespace Member

mutual

/-- The lengths and strings of a member, without its own length, that encoding takes. -/
def ItemValid (s : Mem) (a : ℕ) : Member → Prop
  | .basic .. => True
  | .struct offset c size ms =>
    ∀ i < c.value s a, AllValid s (a + offset + i * size) ms
  | .string offset max => strlen s (a + offset) (max + 1) ≤ max

def AllValid (s : Mem) (a : ℕ) : List Member → Prop
  | [] => True
  | m :: ms => (m.count.Valid s a ∧ ItemValid s a m) ∧ AllValid s a ms

end

def Valid (s : Mem) (a : ℕ) (m : Member) : Prop := m.count.Valid s a ∧ m.ItemValid s a

/-- The turn for the element of `m` writes its bytes. -/
def Encodes (m : Member) : Prop :=
  ∀ ⦃level stop len : ℕ⦄ ⦃s : Mem⦄ ⦃a : ℕ⦄ ⦃t : UInt8⦄ ⦃rest : List ElemInfo⦄ ⦃v : EncVars⦄,
    1 ≤ level → m.Ok level → m.ItemValid s a → v.Room stop len →
    v.dataLenValue = m.count.value s a → m.count.value s a ≤ m.count.cap →
    v.bufDst + (m.item s level a).length ≤ stop →
      encodeElem level len s (a + m.offset) (m.info t) rest v
          (structAnswer level len s a (m.info t) v) =
        some (.ok (0, v.put (m.item s level a) v.dataLenValue))

end Member

theorem encodeElem_basic {level len : ℕ} {src : Mem} {bufSrc : ℕ} {e : ElemInfo}
    {rest : List ElemInfo} {v : EncVars} {answer : Option (Int × Mem)} (he : e.dataType.isBasic) :
    encodeElem level len src bufSrc e rest v answer =
      if add32 (mul32 v.dataLenValue e.elemSize) v.encodedBytes + 3 > len then
        some (.error (-EINVAL, v.out))
      else
        let r := qmiBasicElem v.out v.bufDst src bufSrc v.dataLenValue e.elemSize
        some (.ok (0, v.update r.2 r.1)) := by
  unfold encodeElem
  cases hd : e.dataType <;> simp [hd, ElemType.isBasic] at he ⊢

theorem encodeElem_string {level len n : ℕ} {src out : Mem} {bufSrc : ℕ} {e : ElemInfo}
    {rest : List ElemInfo} {v : EncVars} {answer : Option (Int × Mem)} (he : e.dataType = .string)
    (hr : qmiEncodeStringElem e v.out v.bufDst src bufSrc (sub32 len v.encodedBytes) level =
      ((n : Int), out)) :
    encodeElem level len src bufSrc e rest v answer = some (.ok (0, v.update out n)) := by
  unfold encodeElem
  simp [he, hr]

theorem encodeElem_struct {level len n : ℕ} {src out : Mem} {bufSrc : ℕ} {e : ElemInfo}
    {rest : List ElemInfo} {v : EncVars} (he : e.dataType = .struct) :
    encodeElem level len src bufSrc e rest v (some ((n : Int), out)) =
      some (.ok (0, v.update out n)) := by
  unfold encodeElem
  simp [he]

namespace Member

theorem basic_encodes (offset : ℕ) (c : Count) (type : { t : ElemType // t.isBasic }) (size : ℕ) :
    (Member.basic offset c type size).Encodes := by
  intro level stop len s a t rest v _ hok _ hroom hvalue hcap hfits
  have hleft := hroom.left
  have hlt := hroom.lt
  have hvalue : v.dataLenValue = c.value s a := hvalue
  have hlength : (item s level a (.basic offset c type size)).length = c.value s a * size := by
    rw [item, length_read]
  have hsmall : c.value s a * size < 2 ^ 31 :=
    (Nat.mul_le_mul_right size hcap).trans_lt hok.1.2
  have hcheck : ¬add32 (mul32 v.dataLenValue size) v.encodedBytes + 3 > len := by
    rw [hvalue, mul32_eq (by omega), add32_eq (by omega)]
    omega
  refine (encodeElem_basic type.2).trans ((if_neg hcheck).trans ?_)
  have helem := qmiBasicElem_eq v.out v.bufDst s (a + offset) hsmall
  rw [← hvalue] at helem hlength
  rw [← hroom.update_eq hfits, hlength, item, ← hvalue]
  show some (Except.ok (0, v.update
    (qmiBasicElem v.out v.bufDst s (a + offset) v.dataLenValue size).2
    (qmiBasicElem v.out v.bufDst s (a + offset) v.dataLenValue size).1)) = _
  rw [helem]

theorem string_encodes (offset max : ℕ) : (Member.string offset max).Encodes := by
  intro level stop len s a t rest v _ hok hvalid hroom _ _ hfits
  have hleft := hroom.left
  have hlt := hroom.lt
  have hmax : max < 2 ^ 31 - 1 := hok.1
  have hvalid : strlen s (a + offset) (max + 1) ≤ max := hvalid
  have hlen : sub32 len v.encodedBytes = len - v.encodedBytes := by
    apply sub32_eq
    · omega
    · omega
  have hstring : qmiEncodeStringElem (info t (.string offset max)) v.out v.bufDst s (a + offset)
      (len - v.encodedBytes) level =
        (((item s level a (.string offset max)).length : Int),
          write v.out v.bufDst (item s level a (.string offset max))) := by
    unfold qmiEncodeStringElem
    by_cases hlevel : level = 1
    · have hbytes : item s level a (.string offset max) =
          read s (a + offset) (strlen s (a + offset) (max + 1)) := by
        rw [item, if_pos hlevel]
        rfl
      rw [hbytes, length_read] at hfits
      have hcheck : ¬strlen s (a + offset) (max + 1) + 3 > len - v.encodedBytes := by omega
      simp only [info, if_neg (Nat.not_lt.2 hvalid), if_pos hlevel, if_neg hcheck, gt_iff_lt]
      rw [hbytes, qmiBasicElem_eq _ _ _ _ (by omega), length_read, Nat.mul_one]
    · have hbytes : item s level a (.string offset max) =
          toBytes (stringLenSz max) (strlen s (a + offset) (max + 1)) ++
            read s (a + offset) (strlen s (a + offset) (max + 1)) := by
        rw [item, if_neg hlevel]
      rw [hbytes, List.length_append, length_read, length_toBytes] at hfits
      have hcheck : ¬add32 (strlen s (a + offset) (max + 1)) (stringLenSz max) >
          len - v.encodedBytes := by
        rw [add32_eq (by omega)]
        omega
      simp only [info, if_neg (Nat.not_lt.2 hvalid), if_neg hlevel, if_neg hcheck, gt_iff_lt]
      rw [hbytes, qmiBasicElem_eq _ _ _ _ (by omega), write_append, List.length_append, length_read,
        length_toBytes, Nat.mul_one, int32_add (by omega)]
  rw [encodeElem_string rfl (by rw [hlen]; exact hstring), hroom.update_eq hfits]

end Member

/-! ## Elements that are written -/

theorem Count.value_le (s : Mem) (a : ℕ) {c : Count} (h : c.Valid s a) : c.value s a ≤ c.cap := by
  cases c with
  | one => exact le_rfl
  | static n => exact le_rfl
  | var offset size max => exact h

theorem overwrite_eq {old : ℕ} {bs : List UInt8} (h : old < 256 ^ bs.length) :
    overwrite old bs = ofBytes bs := by
  rw [overwrite, Nat.div_eq_of_lt h, Nat.zero_mul, Nat.add_zero]

theorem overwrite_one (s : Mem) (a : ℕ) {size : ℕ} (h : 0 < size) :
    overwrite 1 (read s a size) = ofBytes (read s a size) := by
  apply overwrite_eq
  rw [length_read]
  exact Nat.one_lt_pow (by omega) (by decide)

theorem encodeElem_dataLen {level len : ℕ} {src : Mem} {bufSrc : ℕ} {e e' : ElemInfo}
    {rest : List ElemInfo} {v : EncVars} {answer : Option (Int × Mem)}
    (he : e.dataType = .dataLen) :
    encodeElem level len src bufSrc e (e' :: rest) v answer =
      let n := overwrite v.dataLenValue (read src bufSrc e.elemSize)
      let sz := dataLenSz e.elemSize
      if add32 sz v.encodedBytes + 3 > len then some (.error (-EINVAL, v.out))
      else
        let v := { v with dataLenValue := n }.update (write v.out v.bufDst (toBytes sz n)) sz
        if n = 0 then some (.ok (skipToNextElem level e' rest + 1, v))
        else some (.ok (0, { v with encodeTlv := false })) := by
  unfold encodeElem
  simp only [he]
  rfl

namespace Member

/-- The element of a member is none of the others. -/
theorem info_ne {x : ElemType} (hx : x.isBasic = false ∧ x ≠ .struct ∧ x ≠ .string) (t : UInt8)
    (m : Member) : (m.info t).dataType ≠ x := by
  obtain ⟨hbasic, hstruct, hstring⟩ := hx
  cases m with
  | basic offset c type size =>
    intro h
    have htype := type.2
    rw [show type.1 = x from h, hbasic] at htype
    cases htype
  | struct => exact hstruct.symm
  | string => exact hstring.symm

theorem Ok.count {level : ℕ} {m : Member} (h : m.Ok level) : m.count.Ok := by
  cases m with
  | basic => exact h.1.1
  | struct => exact h.1.1
  | string => trivial

@[simp] theorem info_tlvType (t : UInt8) (m : Member) : (m.info t).tlvType = t := by
  cases m <;> rfl

@[simp] theorem info_offset (t : UInt8) (m : Member) : (m.info t).offset = m.offset := by
  cases m <;> rfl

/-- What `qmi_encode` takes for the number of elements of a member. -/
theorem encodeLen_info (t : UInt8) (m : Member) (n : ℕ) :
    encodeLen (m.info t) n =
      match m.count with
      | .one => some 1
      | .static k => some k
      | .var _ _ max => if n = 0 ∨ max < n then none else some n := by
  cases m with
  | basic offset c => cases c <;> rfl
  | struct offset c => cases c <;> rfl
  | string => rfl

theorem encodeLen_le {t : UInt8} {m : Member} {n k : ℕ} (h : encodeLen (m.info t) n = some k) :
    k ≤ m.count.cap := by
  rw [encodeLen_info] at h
  cases hcount : m.count with
  | one =>
    rw [hcount] at h
    exact (Option.some.inj h).ge
  | static n =>
    rw [hcount] at h
    exact (Option.some.inj h).ge
  | var offset size max =>
    rw [hcount] at h
    dsimp only at h
    split_ifs at h with hbad
    cases h
    exact Nat.le_of_not_lt fun hlt => hbad (Or.inr hlt)

/-- No elements have no bytes. -/
theorem item_of_value {s : Mem} {level a : ℕ} {m : Member} (h : m.count.value s a = 0) :
    m.item s level a = [] := by
  cases m with
  | basic offset c type size =>
    have h : c.value s a = 0 := h
    rw [item, h, Nat.zero_mul, read_zero]
  | struct offset c size ms =>
    have h : c.value s a = 0 := h
    rw [item, h, strided]
  | string => cases h

end Member

theorem skipToNextElem_ne {level : ℕ} {e : ElemInfo} {rest : List ElemInfo}
    (h : level = 1 → ∀ e' ∈ rest.head?, e.tlvType ≠ e'.tlvType) (hlevel : 1 ≤ level) :
    skipToNextElem level e rest = 0 := by
  cases rest with
  | nil => rfl
  | cons e' rest =>
    rw [skipToNextElem]
    by_cases hone : level = 1
    · rw [if_neg (by omega), if_neg (h hone e' rfl)]
    · rw [if_pos (by omega)]

section Elements

variable {level stop len cStruct : ℕ} {s : Mem} {a : ℕ} {t : UInt8} {rest : List ElemInfo}
  {v : EncVars} {m : Member}

theorem EncVars.Room.put (h : v.Room stop len) (bs : List UInt8) (n : ℕ) :
    (v.put bs n).Room stop len := by
  obtain ⟨hleft, htlv, hlt⟩ := h
  refine ⟨?_, Nat.add_le_add_right htlv _, hlt⟩
  show len + (v.bufDst + bs.length) = stop + 3 + (v.encodedBytes + bs.length)
  omega

theorem EncVars.Room.setLen (h : v.Room stop len) (n : ℕ) :
    ({ v with dataLenValue := n } : EncVars).Room stop len := ⟨h.left, h.tlvLen_le, h.lt⟩

theorem EncVars.Room.update_toBytes (h : v.Room stop len) {sz : ℕ} (n : ℕ)
    (hfits : v.bufDst + sz ≤ stop) :
    ({ v with dataLenValue := n } : EncVars).update (write v.out v.bufDst (toBytes sz n)) sz =
      v.put (toBytes sz n) n := by
  have hput := (h.setLen n).update_eq
    (show v.bufDst + (toBytes sz n).length ≤ stop by rwa [length_toBytes])
  rwa [length_toBytes] at hput

theorem EncVars.put_put (v : EncVars) (bs cs : List UInt8) (n k : ℕ) :
    (v.put bs n).put cs k = v.put (bs ++ cs) k := by
  simp [EncVars.put, write_append, Nat.add_assoc]

/-- The turns for `QMI_DATA_LEN`: no elements are passed over. -/
theorem encodeLoop_dataLen_zero {offset size : ℕ} {e : ElemInfo} (rest : List ElemInfo)
    (hlevel : 1 ≤ level) (hsize : 0 < size) (hroom : v.Room stop len)
    (hfits : v.bufDst + dataLenSz size ≤ stop)
    (hnext : level = 1 → ∀ e' ∈ rest.head?, e.tlvType ≠ e'.tlvType)
    (hzero : ofBytes (read s (a + offset) size) = 0) :
    encodeLoop level len s a (⟨.dataLen, 1, size, .noArray, t, offset, none⟩ :: e :: rest) v =
      encodeLoop level len s a rest ((v.put (toBytes (dataLenSz size) 0) 0).finish level t) := by
  have hleft := hroom.left
  have hvalue := overwrite_one s (a + offset) hsize
  have hlt := hroom.lt
  have hcheck : ¬add32 (dataLenSz size) v.encodedBytes + 3 > len := by
    rw [add32_eq (by omega)]
    omega
  refine encodeLoop_turn (v := v) (n := 1) (k := 1) nofun rfl ?_
  rw [encodeElem_dataLen rfl]
  simp only [hvalue, hzero, if_neg hcheck, if_true, skipToNextElem_ne hnext hlevel,
    hroom.update_toBytes 0 hfits, Nat.zero_add]

theorem encodeLoop_dataLen {offset size : ℕ} {e : ElemInfo} (level : ℕ) (rest : List ElemInfo)
    (hsize : 0 < size) (hroom : v.Room stop len) (hfits : v.bufDst + dataLenSz size ≤ stop)
    (hpos : ofBytes (read s (a + offset) size) ≠ 0) :
    encodeLoop level len s a (⟨.dataLen, 1, size, .noArray, t, offset, none⟩ :: e :: rest) v =
      encodeLoop level len s a (e :: rest)
        { v.put (toBytes (dataLenSz size) (ofBytes (read s (a + offset) size)))
            (ofBytes (read s (a + offset) size)) with encodeTlv := false } := by
  have hleft := hroom.left
  have hvalue := overwrite_one s (a + offset) hsize
  have hlt := hroom.lt
  have hcheck : ¬add32 (dataLenSz size) v.encodedBytes + 3 > len := by
    rw [add32_eq (by omega)]
    omega
  rw [encodeLoop_turn (v := v) (n := 1) (k := 0) (by decide : ElemType.dataLen ≠ .eoti) rfl
    (by rw [encodeElem_dataLen rfl]; simp only [hvalue, if_neg hcheck, if_neg hpos,
          hroom.update_toBytes _ hfits]; rfl)]
  simp [EncVars.finish, EncVars.put]

/-- The turn for the element of a member. -/
theorem Member.Encodes.info (hm : m.Encodes) (rest : List ElemInfo) (hlevel : 1 ≤ level)
    (hok : m.Ok level) (hvalid : m.ItemValid s a) (hroom : v.Room stop len)
    (hlen : encodeLen (m.info t) v.dataLenValue = some (m.count.value s a))
    (hfits : v.bufDst + (m.item s level a).length ≤ stop) :
    encodeLoop level len s a (m.info t :: rest) v =
      encodeLoop level len s a rest
        ((v.put (m.item s level a) (m.count.value s a)).finish level t) := by
  have helem : encodeElem level len s (a + m.offset) (m.info t) rest
      { v with dataLenValue := m.count.value s a } _ = _ :=
    hm hlevel hok hvalid (hroom.setLen _) rfl (encodeLen_le hlen) hfits
  rw [← info_offset t m] at helem
  rw [encodeLoop_turn (info_ne (by decide) t m) hlen helem, info_tlvType]
  rfl

/-- The turns for the elements of a member. -/
theorem Member.Encodes.entries (hm : m.Encodes) (rest : List ElemInfo) (hlevel : 1 ≤ level)
    (hok : m.Ok level) (hvalid : m.Valid s a) (hroom : v.Room stop len)
    (hfits : v.bufDst + (m.wire s level a).length ≤ stop)
    (hnext : level = 1 → ∀ e' ∈ rest.head?, t ≠ e'.tlvType) :
    encodeLoop level len s a (m.entries t ++ rest) v =
      encodeLoop level len s a rest
        ((v.put (m.wire s level a) (m.count.value s a)).finish level t) := by
  obtain ⟨hcvalid, hitem⟩ := hvalid
  rw [wire, List.length_append] at hfits
  rw [Member.entries, wire]
  have hlen := encodeLen_info t m v.dataLenValue
  cases hcount : m.count with
  | one =>
    rw [hcount] at hlen
    have hturn := hm.info rest hlevel hok hitem hroom (by rw [hcount]; exact hlen)
      (by omega)
    rwa [hcount] at hturn
  | static n =>
    rw [hcount] at hlen
    have hturn := hm.info rest hlevel hok hitem hroom (by rw [hcount]; exact hlen)
      (by omega)
    rwa [hcount] at hturn
  | var offset size max =>
    have hbytes : m.count.wire s a = toBytes (dataLenSz size) (m.count.value s a) := by
      rw [hcount]
      rfl
    have hvalue : m.count.value s a = ofBytes (read s (a + offset) size) := by
      rw [hcount]
      rfl
    have hsize : 0 < size := (hcount ▸ hok.count : (Count.var offset size max).Ok).1
    have hle : m.count.value s a ≤ max := by
      rw [hcount] at hcvalid ⊢
      exact hcvalid
    rw [hbytes, length_toBytes] at hfits
    rw [← hcount, hbytes]
    by_cases hzero : m.count.value s a = 0
    · rw [item_of_value hzero, List.append_nil, hzero]
      have hturn := encodeLoop_dataLen_zero (t := t) (e := m.info t) rest hlevel hsize
        hroom (by omega) (by simpa using hnext) (hvalue ▸ hzero)
      rw [hcount]
      exact hturn
    · have hturn := encodeLoop_dataLen (t := t) (e := m.info t) level rest hsize
        hroom (by omega) (hvalue ▸ hzero)
      rw [← hvalue] at hturn
      have hroom' := hroom.put (toBytes (dataLenSz size) (m.count.value s a)) (m.count.value s a)
      have hvar := encodeLen_info t m (m.count.value s a)
      simp only [hcount] at hvar
      rw [if_neg (by rw [← hcount]; omega), ← hcount] at hvar
      have hinfo := hm.info (t := t) rest hlevel hok hitem
        (v := { v.put (toBytes (dataLenSz size) (m.count.value s a)) (m.count.value s a) with
          encodeTlv := false }) ⟨hroom'.left, hroom'.tlvLen_le, hroom'.lt⟩ hvar
        (by
          show v.bufDst + (toBytes (dataLenSz size) (m.count.value s a)).length + _ ≤ stop
          rw [length_toBytes]
          omega)
      rw [← EncVars.put_put v _ _ (m.count.value s a), hcount]
      rw [hcount] at hturn hinfo
      exact hturn.trans hinfo

theorem EncVars.finish_of_ne (h : level ≠ 1) : v.finish level t = v := by
  rw [finish, if_neg (fun hv => h hv.2)]

/-! ## Structs that are written -/

theorem encodeLoop_infos {ms : List Member} (hms : ∀ m ∈ ms, m.Encodes) (hlevel : 2 ≤ level)
    (hok : Member.AllOk level ms) (hvalid : Member.AllValid s a ms) (hroom : v.Room stop len)
    (hfits : v.bufDst + (Member.wires s level a ms).length ≤ stop) :
    encodeLoop level len s a (Member.infos ms) v =
      some (((v.encodedBytes + (Member.wires s level a ms).length : ℕ) : Int),
        write v.out v.bufDst (Member.wires s level a ms)) := by
  have hlt := hroom.lt
  induction ms generalizing v with
  | nil =>
    have hleft := hroom.left
    rw [Member.wires, List.length_nil, Nat.add_zero] at hfits
    rw [Member.wires, write_nil, List.length_nil, Nat.add_zero, ← int32_natCast (by omega)]
    exact encodeLoop_eoti
  | cons m ms ih =>
    rw [Member.wires_cons, List.length_append] at hfits
    have hm := hms m List.mem_cons_self
    rw [Member.infos_cons, Member.wires_cons,
      hm.entries _ (by omega) hok.1 hvalid.1 hroom (by omega) (by omega),
      EncVars.finish_of_ne (by omega),
      ih (fun m hm => hms m (List.mem_cons_of_mem _ hm)) hok.2 hvalid.2 (hroom.put _ _),
      write_append, List.length_append]
    · simp [EncVars.put, Nat.add_assoc]
    · show v.bufDst + (m.wire s level a).length + _ ≤ stop
      omega

theorem qmiEncodeStructElem_eq {ms : List Member} {e : ElemInfo} (out : Mem)
    (bufDst b encoded : ℕ) {n : ℕ} (hms : ∀ m ∈ ms, m.Encodes)
    (he : e.eiArray = some (Member.infos ms)) (hlevel : 2 ≤ level) (hok : Member.AllOk level ms)
    (hvalid : ∀ i < n, Member.AllValid s (b + i * e.elemSize) ms)
    (hleft : len + bufDst = stop + 3 + encoded) (hlt : len < 2 ^ 31)
    (hfits : bufDst +
      (strided (fun b => Member.wires s level b ms) e.elemSize b n).length ≤ stop) :
    qmiEncodeStructElem e out bufDst s b n len level encoded =
      some (((encoded +
          (strided (fun b => Member.wires s level b ms) e.elemSize b n).length : ℕ) : Int),
        write out bufDst (strided (fun b => Member.wires s level b ms) e.elemSize b n)) := by
  induction n generalizing out bufDst b encoded with
  | zero =>
    rw [strided, write_nil, qmiEncodeStructElem]
    rfl
  | succ n ih =>
    rw [strided, List.length_append] at hfits
    have hsub : uint32 ((len : Int) - encoded) = len - encoded := uint32_sub (by omega) (by omega)
    obtain ⟨hfirst, hothers⟩ :=
      (forall_strided_succ (fun b => Member.AllValid s b ms) _ _ _).1 hvalid
    have hencode : qmiEncode e.eiArray out bufDst s b (len - encoded) level =
        some (((Member.wires s level b ms).length : Int),
          write out bufDst (Member.wires s level b ms)) := by
      have hroom : (⟨out, bufDst, bufDst, 0, 0, 0, false⟩ : EncVars).Room stop (len - encoded) :=
        ⟨by dsimp only; omega, le_rfl, by omega⟩
      have hinfos := encodeLoop_infos hms hlevel hok hfirst hroom (by dsimp only; omega)
      rw [he, qmiEncode, if_neg (by omega)]
      simpa using hinfos
    have hrest := ih (write out bufDst (Member.wires s level b ms))
      (bufDst + (Member.wires s level b ms).length) (b + e.elemSize)
      (encoded + (Member.wires s level b ms).length) hothers (by omega) (by omega)
    rw [qmiEncodeStructElem, hsub, hencode]
    simp only [Int.natCast_nonneg, Int.not_lt, if_neg, moved_natCast]
    rw [int32_add (by omega), hrest, strided, write_append, List.length_append, Nat.add_assoc]

end Elements

namespace Member

theorem struct_encodes {offset : ℕ} {c : Count} {size : ℕ} {ms : List Member}
    (hms : ∀ m ∈ ms, m.Encodes) : (Member.struct offset c size ms).Encodes := by
  intro level stop len s a t rest v hlevel hok hvalid hroom hvalue _ hfits
  have hvalue : v.dataLenValue = c.value s a := hvalue
  have hleft := hroom.left
  have hlt := hroom.lt
  obtain ⟨-, -, -, -, hok⟩ := hok
  have hsub : sub32 len v.encodedBytes = len - v.encodedBytes := sub32_eq (by omega) (by omega)
  have hstruct : structAnswer level len s a (info t (.struct offset c size ms)) v =
      some (((item s level a (.struct offset c size ms)).length : Int),
        write v.out v.bufDst (item s level a (.struct offset c size ms))) := by
    rw [item] at hfits ⊢
    have hrel : len - v.encodedBytes + v.bufDst = stop + 3 + 0 := by omega
    have hrun := qmiEncodeStructElem_eq (e := info t (.struct offset c size ms)) v.out v.bufDst
      (a + offset) 0 hms rfl (by omega) hok hvalid hrel (by omega) hfits
    rw [structAnswer, hsub, hvalue]
    rw [Nat.zero_add] at hrun
    exact hrun
  rw [hstruct, encodeElem_struct rfl, hroom.update_eq hfits]

theorem encodes (m : Member) : m.Encodes := by
  induction m using Member.induct with
  | basic offset c type size => exact basic_encodes offset c type size
  | struct offset c size ms ih => exact struct_encodes ih
  | string offset max => exact string_encodes offset max

end Member

/-! ## TLVs that are written -/

theorem Member.entries_tlvType {t : UInt8} {m : Member} :
    ∀ e ∈ m.entries t, e.tlvType = t := by
  intro e he
  rw [Member.entries, List.mem_append, List.mem_singleton] at he
  cases he with
  | inl he =>
    cases hcount : m.count with
    | var =>
      rw [hcount] at he
      rw [List.mem_singleton.1 he]
    | one =>
      rw [hcount] at he
      cases he
    | static =>
      rw [hcount] at he
      cases he
  | inr he => rw [he, info_tlvType]

theorem Tlv.entries_tlvType {t : Tlv} : ∀ e ∈ t.entries, e.tlvType = t.type := by
  intro e he
  rw [Tlv.entries, List.mem_append, List.mem_map] at he
  cases he with
  | inl he =>
    obtain ⟨offset, _, rfl⟩ := he
    rfl
  | inr he => exact Member.entries_tlvType e he

theorem Tlv.entries_ne_nil (t : Tlv) : t.entries ≠ [] := by
  simp [Tlv.entries, Member.entries]

theorem head?_message {ts : List Tlv} :
    ∀ e ∈ (message ts).head?, e.tlvType ∈ QMI_COMMON_TLV_TYPE :: ts.map Tlv.type := by
  intro e he
  cases ts with
  | nil =>
    cases he
    exact List.mem_cons_self
  | cons t ts =>
    obtain ⟨x, l, hx⟩ := List.exists_cons_of_ne_nil t.entries_ne_nil
    have hmem : x ∈ t.entries := hx ▸ List.mem_cons_self
    rw [message, List.flatMap_cons, hx] at he
    cases he
    rw [Tlv.entries_tlvType _ hmem]
    simp

theorem skipToNextElem_append {e : ElemInfo} {l rest : List ElemInfo}
    (hl : ∀ e' ∈ l, e'.tlvType = e.tlvType) (hrest : ∀ e' ∈ rest.head?, e.tlvType ≠ e'.tlvType) :
    skipToNextElem 1 e (l ++ rest) = l.length := by
  induction l generalizing e with
  | nil => exact skipToNextElem_ne (fun _ => hrest) le_rfl
  | cons e' l ih =>
    have he' := hl e' List.mem_cons_self
    rw [List.cons_append, skipToNextElem, if_neg (by decide), if_pos he'.symm, ih, List.length_cons]
    · intro x hx
      rw [he']
      exact hl x (List.mem_cons_of_mem _ hx)
    · rwa [he']

/-- The variables between two TLVs of a message at `buf`. -/
def EncVars.between (out : Mem) (buf encoded n : ℕ) : EncVars :=
  ⟨out, buf + encoded + 3, buf + encoded, 0, encoded, n, false⟩

namespace Tlv

variable {t : Tlv} {s : Mem} {len : ℕ} {rest : List ElemInfo}

theorem room_between (out : Mem) (buf encoded n : ℕ) (h : len < 2 ^ 31) :
    (EncVars.between out buf encoded n).Room (buf + len) len := by
  refine ⟨?_, Nat.zero_le _, h⟩
  show len + (buf + encoded + 3) = buf + len + 3 + encoded
  omega

/-- A flag that is set is passed over, and one that is not with the rest of its TLV. -/
theorem encodeLoop_flag (out : Mem) (buf len encoded n : ℕ)
    (hnext : ∀ e ∈ rest.head?, t.type ≠ e.tlvType) :
    ∃ n', encodeLoop 1 len s 0 (t.entries ++ rest) (EncVars.between out buf encoded n) =
      if t.present s then
        encodeLoop 1 len s 0 (t.member.entries t.type ++ rest)
          (EncVars.between out buf encoded n')
      else encodeLoop 1 len s 0 rest (EncVars.between out buf encoded n') := by
  unfold Tlv.entries Tlv.present
  cases hflag : t.flag with
  | none => exact ⟨n, rfl⟩
  | some offset =>
    refine ⟨1, ?_⟩
    have hskip := skipToNextElem_append (e := ⟨.optFlag, 1, 1, .noArray, t.type, offset, none⟩)
      (l := t.member.entries t.type) Member.entries_tlvType hnext
    have hturn : ∀ {k : ℕ}, (if s offset ≠ 0 then 0 else (t.member.entries t.type).length) = k →
        encodeLoop 1 len s 0 (⟨.optFlag, 1, 1, .noArray, t.type, offset, none⟩ ::
            (t.member.entries t.type ++ rest)) (EncVars.between out buf encoded n) =
          encodeLoop 1 len s 0 ((t.member.entries t.type ++ rest).drop k)
            (EncVars.between out buf encoded 1) := by
      intro k hk
      have helem : encodeElem 1 len s (0 + offset) ⟨.optFlag, 1, 1, .noArray, t.type, offset, none⟩
          (t.member.entries t.type ++ rest) (EncVars.between out buf encoded 1)
          (structAnswer 1 len s 0 ⟨.optFlag, 1, 1, .noArray, t.type, offset, none⟩
            (EncVars.between out buf encoded 1)) =
          some (.ok (k, EncVars.between out buf encoded 1)) := by
        unfold encodeElem
        simp only [hskip, Nat.zero_add, hk]
      refine (encodeLoop_turn (n := 1) (by exact nofun) rfl helem).trans ?_
      simp [EncVars.finish, EncVars.between]
    by_cases hset : s offset = 0
    · have hrest := hturn (if_neg (not_not.2 hset))
      rw [List.drop_left] at hrest
      simpa [hset] using hrest
    · have hrest := hturn (if_pos hset)
      simpa [hset] using hrest

theorem length_wire (t : Tlv) (s : Mem) : (t.wire s).length = 3 + (t.payload s).length := by
  simp [Tlv.wire]
  omega

theorem finish_between (t : Tlv) (s out : Mem) (buf n k : ℕ) {encoded : ℕ}
    (h : encoded + (t.wire s).length < 2 ^ 32) :
    ((EncVars.between out buf encoded n).put (t.payload s) k).finish 1 t.type =
      EncVars.between (write out (buf + encoded) (t.wire s)) buf (encoded + (t.wire s).length) k := by
  have hheader : buf + encoded + (t.type :: toBytes 2 (t.payload s).length).length =
      buf + encoded + 3 := by
    rw [List.length_cons, length_toBytes]
  rw [length_wire] at h ⊢
  rw [Tlv.wire, write_append, hheader, ← write_comm _ hheader.le]
  have hsum : add32 (encoded + (t.payload s).length) 3 = encoded + (t.payload s).length + 3 :=
    add32_eq (by omega)
  simp [EncVars.finish, EncVars.put, EncVars.between, hsum]
  omega

theorem encodeLoop_entries (out : Mem) (buf encoded n : ℕ) (hok : t.member.Ok 1)
    (hvalid : t.present s → t.member.Valid s 0) (hlen : len < 2 ^ 31)
    (hfits : t.present s → encoded + (t.wire s).length ≤ len)
    (hnext : ∀ e ∈ rest.head?, t.type ≠ e.tlvType) :
    ∃ n', encodeLoop 1 len s 0 (t.entries ++ rest) (EncVars.between out buf encoded n) =
      encodeLoop 1 len s 0 rest
        (if t.present s then
          EncVars.between (write out (buf + encoded) (t.wire s)) buf (encoded + (t.wire s).length) n'
        else EncVars.between out buf encoded n') := by
  obtain ⟨n', hflag⟩ := encodeLoop_flag (t := t) (s := s) out buf len encoded n hnext
  by_cases hpresent : t.present s
  · refine ⟨t.member.count.value s 0, ?_⟩
    have hlength := t.length_wire s
    have hfits := hfits hpresent
    have hmember := (Member.encodes t.member).entries (t := t.type) rest le_rfl hok
      (hvalid hpresent) (room_between out buf encoded n' hlen)
      (by
        show buf + encoded + 3 + (t.payload s).length ≤ buf + len
        omega) (fun _ => hnext)
    rw [if_pos hpresent] at hflag
    rw [hflag, hmember, if_pos hpresent]
    exact congrArg _ (finish_between t s out buf n' _ (by omega))
  · refine ⟨n', ?_⟩
    rw [if_neg hpresent] at hflag ⊢
    exact hflag

end Tlv

theorem message_cons (t : Tlv) (ts : List Tlv) : message (t :: ts) = t.entries ++ message ts := by
  rw [message, message, List.flatMap_cons, List.append_assoc]

/-- The elements after a TLV have another type. -/
theorem message_next {t : Tlv} {ts : List Tlv}
    (h : (QMI_COMMON_TLV_TYPE :: (t :: ts).map Tlv.type).Nodup) :
    (∀ e ∈ (message ts).head?, t.type ≠ e.tlvType) ∧
      (QMI_COMMON_TLV_TYPE :: ts.map Tlv.type).Nodup := by
  obtain ⟨hzero, htypes⟩ := List.nodup_cons.1 h
  obtain ⟨htype, htypes⟩ := List.nodup_cons.1 htypes
  rw [List.map_cons, List.mem_cons, not_or] at hzero
  refine ⟨?_, List.nodup_cons.2 ⟨hzero.2, htypes⟩⟩
  intro e he heq
  have hmem := head?_message e he
  rw [← heq, List.mem_cons] at hmem
  exact hmem.elim (fun h => hzero.1 h.symm) htype

theorem encodeLoop_message {s : Mem} {len : ℕ} {ts : List Tlv} (out : Mem) (buf encoded n : ℕ)
    (hok : ∀ t ∈ ts, t.member.Ok 1) (htypes : (QMI_COMMON_TLV_TYPE :: ts.map Tlv.type).Nodup)
    (hvalid : ∀ t ∈ ts, t.present s → t.member.Valid s 0) (hlen : len < 2 ^ 31)
    (hfits : encoded + (Tlv.wires s ts).length ≤ len) :
    encodeLoop 1 len s 0 (message ts) (EncVars.between out buf encoded n) =
      some (((encoded + (Tlv.wires s ts).length : ℕ) : Int),
        write out (buf + encoded) (Tlv.wires s ts)) := by
  induction ts generalizing out encoded n with
  | nil =>
    rw [show Tlv.wires s [] = [] from rfl, List.length_nil, Nat.add_zero] at hfits ⊢
    rw [write_nil, ← int32_natCast (by omega)]
    exact encodeLoop_eoti
  | cons t ts ih =>
    rw [Tlv.wires_cons, List.length_append] at hfits
    obtain ⟨hnext, htypes⟩ := message_next htypes
    have hrest : ∀ x ∈ ts, x ∈ t :: ts := fun x hx => List.mem_cons_of_mem _ hx
    have hih := fun out encoded n => ih out encoded n
      (fun x hx => hok x (hrest x hx)) htypes (fun x hx => hvalid x (hrest x hx))
    obtain ⟨n', hentries⟩ := Tlv.encodeLoop_entries out buf encoded n
      (hok t List.mem_cons_self) (hvalid t List.mem_cons_self) hlen
      (fun hp => by
        rw [if_pos hp] at hfits
        omega) hnext
    rw [message_cons, hentries, Tlv.wires_cons]
    by_cases hp : t.present s
    · rw [if_pos hp] at hfits ⊢
      rw [if_pos hp, hih _ _ _ (by omega), write_append, List.length_append]
      simp only [Nat.add_assoc]
    · rw [if_neg hp] at hfits ⊢
      rw [if_neg hp, hih _ _ _ (by simpa using hfits), List.nil_append]

namespace Schema

/-- What encoding takes of the structure at 0. -/
def Valid (c : Schema) (s : Mem) : Prop := ∀ t ∈ c.tlvs, t.present s → t.member.Valid s 0

/-- A message that fits its buffer is written. -/
theorem qmiEncode_eq (c : Schema) {s out : Mem} {buf len : ℕ} (hvalid : c.Valid s)
    (hlen : len < 2 ^ 31) (hfits : (c.wire s).length ≤ len) :
    qmiEncode (some (message c.tlvs)) out buf s 0 len 1 =
      some (((c.wire s).length : Int), write out buf (c.wire s)) := by
  have hloop := encodeLoop_message out buf 0 0 c.ok c.types hvalid hlen
    (by simpa [wire] using hfits)
  rw [qmiEncode, if_pos rfl]
  simpa [EncVars.between, wire] using hloop

end Schema

theorem response_valid : response.Valid answered := by
  simp [Schema.Valid, response, resultTlv, listTlv, nameTlv, responseMembers, Member.Valid,
    Member.ItemValid, Member.AllValid, Member.count, Count.Valid, Count.value]
  decide

end DragonQ6A.Qmi
