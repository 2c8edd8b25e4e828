import DragonQ6A.Qmi.Encode

/-!
# Messages that do not fit

Encoding checks the buffer before it writes, with the header of the TLV that is being written
counted in.  Only a string below level 1 is checked without it; with no such string encoding fails
exactly when the message is not valid or does not fit, and in no case writes past the buffer.
-/

open Bytes C

namespace DragonQ6A.Qmi

theorem encodeElem_string_error {level len : ℕ} {src out : Mem} {bufSrc : ℕ} {e : ElemInfo}
    {rest : List ElemInfo} {v : EncVars} {answer : Option (Int × Mem)} (he : e.dataType = .string)
    (hr : qmiEncodeStringElem e v.out v.bufDst src bufSrc (sub32 len v.encodedBytes) level =
      (-EINVAL, out)) :
    encodeElem level len src bufSrc e rest v answer = some (.error (-EINVAL, out)) := by
  unfold encodeElem
  simp [he, hr, EINVAL]

theorem encodeElem_struct_error {level len : ℕ} {src out : Mem} {bufSrc : ℕ} {e : ElemInfo}
    {rest : List ElemInfo} {v : EncVars} (he : e.dataType = .struct) :
    encodeElem level len src bufSrc e rest v (some (-EINVAL, out)) =
      some (.error (-EINVAL, out)) := by
  unfold encodeElem
  simp [he, EINVAL]

namespace Member

mutual

def hasString : Member → Bool
  | .basic .. => false
  | .struct _ _ _ ms => anyString ms
  | .string .. => true

def anyString : List Member → Bool
  | [] => false
  | m :: ms => hasString m || anyString ms

end

/-- Has no string below level 1. -/
def Checked (level : ℕ) : Member → Prop
  | .basic .. => True
  | .struct _ _ _ ms => anyString ms = false
  | .string .. => level = 1

theorem checked_of_anyString {level : ℕ} {ms : List Member} (h : anyString ms = false) :
    ∀ m ∈ ms, m.Checked level := by
  induction ms with
  | nil => exact nofun
  | cons m ms ih =>
    rw [anyString, Bool.or_eq_false_iff] at h
    intro x hx
    cases hx with
    | head =>
      cases m with
      | basic => trivial
      | struct => exact h.1
      | string => cases h.1
    | tail _ hx => exact ih h.2 x hx

/-- The turn for the element of `m` fails without a write past `stop`, if `m` is not valid or does
not fit. -/
def Refuses (m : Member) : Prop :=
  ∀ ⦃level stop len : ℕ⦄ ⦃s : Mem⦄ ⦃a : ℕ⦄ ⦃t : UInt8⦄ ⦃rest : List ElemInfo⦄ ⦃v : EncVars⦄,
    1 ≤ level → m.Ok level → m.Checked level → v.Room stop len → v.bufDst ≤ stop + 3 →
    v.dataLenValue = m.count.value s a → m.count.value s a ≤ m.count.cap →
    m.count.value s a ≠ 0 → ¬(m.ItemValid s a ∧ v.bufDst + (m.item s level a).length ≤ stop) →
      ∃ out', encodeElem level len s (a + m.offset) (m.info t) rest v
          (structAnswer level len s a (m.info t) v) = some (.error (-EINVAL, out')) ∧
        Set.EqOn out' v.out (Set.Ici stop)

theorem basic_refuses (offset : ℕ) (c : Count) (type : { t : ElemType // t.isBasic }) (size : ℕ) :
    (Member.basic offset c type size).Refuses := by
  intro level stop len s a t rest v _ hok _ hroom hdst hvalue hcap _ hfits
  have hleft := hroom.left
  have hlt := hroom.lt
  have hvalue : v.dataLenValue = c.value s a := hvalue
  have hlength : (item s level a (.basic offset c type size)).length = c.value s a * size := by
    rw [item, length_read]
  have hsmall : c.value s a * size < 2 ^ 31 :=
    (Nat.mul_le_mul_right size hcap).trans_lt hok.1.2
  have hcheck : add32 (mul32 v.dataLenValue size) v.encodedBytes + 3 > len := by
    have hlong : ¬v.bufDst + c.value s a * size ≤ stop := fun h => hfits ⟨trivial, hlength ▸ h⟩
    rw [hvalue, mul32_eq (by omega), add32_eq (by omega)]
    omega
  exact ⟨v.out, (encodeElem_basic type.2).trans (if_pos hcheck), Set.eqOn_refl ..⟩

theorem string_refuses (offset max : ℕ) : (Member.string offset max).Refuses := by
  intro level stop len s a t rest v _ _ hchecked hroom hdst _ _ _ hfits
  obtain ⟨hleft, -, hlt⟩ := hroom
  have hlevel : level = 1 := hchecked
  have hlen : sub32 len v.encodedBytes = len - v.encodedBytes := sub32_eq (by omega) (by omega)
  have hbytes : (item s level a (.string offset max)).length =
      strlen s (a + offset) (max + 1) := by
    rw [item, if_pos hlevel]
    simp
  have hstring : qmiEncodeStringElem (info t (.string offset max)) v.out v.bufDst s (a + offset)
      (len - v.encodedBytes) level = (-EINVAL, v.out) := by
    unfold qmiEncodeStringElem
    by_cases hvalid : strlen s (a + offset) (max + 1) ≤ max
    · have hlong : ¬v.bufDst + strlen s (a + offset) (max + 1) ≤ stop :=
        fun h => hfits ⟨hvalid, hbytes ▸ h⟩
      simp [info, hlevel]
      omega
    · simp [info, hvalid]
  refine ⟨v.out, ?_, Set.eqOn_refl ..⟩
  apply encodeElem_string_error rfl
  rw [hlen]
  exact hstring

end Member

section Elements

variable {level stop len : ℕ} {s : Mem} {a : ℕ} {t : UInt8} {rest : List ElemInfo}
  {v : EncVars} {m : Member}

/-- The turn for the element of a member that is not valid or does not fit. -/
theorem Member.Refuses.info (hm : m.Refuses) (rest : List ElemInfo) (hlevel : 1 ≤ level)
    (hok : m.Ok level) (hchecked : m.Checked level) (hroom : v.Room stop len)
    (hdst : v.bufDst ≤ stop + 3)
    (hlen : encodeLen (m.info t) v.dataLenValue = some (m.count.value s a))
    (hpos : m.count.value s a ≠ 0)
    (hfits : ¬(m.ItemValid s a ∧ v.bufDst + (m.item s level a).length ≤ stop)) :
    ∃ out', encodeLoop level len s a (m.info t :: rest) v = some (-EINVAL, out') ∧
      Set.EqOn out' v.out (Set.Ici stop) := by
  have hturn : ∃ out', encodeElem level len s (a + m.offset) (m.info t) rest
      { v with dataLenValue := m.count.value s a } _ = some (.error (-EINVAL, out')) ∧ _ :=
    hm hlevel hok hchecked (hroom.setLen _) hdst rfl (encodeLen_le hlen) hpos hfits
  obtain ⟨out', helem, hout⟩ := hturn
  rw [← info_offset t m] at helem
  exact ⟨out', encodeLoop_error (info_ne (by decide) t m) hlen helem, hout⟩

/-- The turn for `QMI_DATA_LEN` of a length that does not fit. -/
theorem encodeLoop_dataLen_error {offset size : ℕ} {e : ElemInfo} (hroom : v.Room stop len)
    (hdst : v.bufDst ≤ stop + 3) (hfits : ¬v.bufDst + dataLenSz size ≤ stop) :
    encodeLoop level len s a (⟨.dataLen, 1, size, .noArray, t, offset, none⟩ :: e :: rest) v =
      some (-EINVAL, v.out) := by
  have hleft := hroom.left
  have hlt := hroom.lt
  have hsz : dataLenSz size ≤ 2 := by
    unfold dataLenSz
    split_ifs <;> omega
  have hcheck : add32 (dataLenSz size) v.encodedBytes + 3 > len := by
    rw [add32_eq (by omega)]
    omega
  refine encodeLoop_error (v := v) (n := 1) (by exact nofun) rfl ?_
  rw [encodeElem_dataLen rfl]
  exact if_pos hcheck

theorem Count.value_ne_zero {c : Count} (h : c.Ok)
    (hc : ∀ offset size max, c ≠ .var offset size max) : c.value s a ≠ 0 := by
  cases c with
  | one => exact Nat.one_ne_zero
  | static n => exact Nat.ne_of_gt h
  | var offset size max => exact absurd rfl (hc offset size max)

/-- No elements are valid. -/
theorem Member.itemValid_of_value (h : m.count.value s a = 0) : m.ItemValid s a := by
  cases m with
  | basic => trivial
  | struct offset c size ms =>
    have h : c.value s a = 0 := h
    intro i hi
    omega
  | string => cases h

/-- The turns for the elements of a member that is not valid or does not fit. -/
theorem Member.Refuses.entries (hm : m.Refuses) (rest : List ElemInfo) (hlevel : 1 ≤ level)
    (hok : m.Ok level) (hchecked : m.Checked level) (hroom : v.Room stop len)
    (hdst : v.bufDst ≤ stop + 3)
    (hfits : ¬(m.Valid s a ∧ v.bufDst + (m.wire s level a).length ≤ stop)) :
    ∃ out', encodeLoop level len s a (m.entries t ++ rest) v = some (-EINVAL, out') ∧
      Set.EqOn out' v.out (Set.Ici stop) := by
  rw [wire, List.length_append] at hfits
  rw [Member.entries]
  have hlen := encodeLen_info t m v.dataLenValue
  have hvalue := Count.value_ne_zero (s := s) (a := a) hok.count
  cases hcount : m.count with
  | one =>
    rw [hcount] at hlen hvalue hfits
    refine hm.info _ hlevel hok hchecked hroom hdst (by rw [hcount]; exact hlen)
      (by rw [hcount]; exact hvalue (by simp)) (fun h => hfits ⟨⟨by rw [hcount]; trivial, h.1⟩, ?_⟩)
    exact Nat.zero_add _ ▸ h.2
  | static n =>
    rw [hcount] at hlen hvalue hfits
    refine hm.info _ hlevel hok hchecked hroom hdst (by rw [hcount]; exact hlen)
      (by rw [hcount]; exact hvalue (by simp)) (fun h => hfits ⟨⟨by rw [hcount]; trivial, h.1⟩, ?_⟩)
    exact Nat.zero_add _ ▸ h.2
  | var offset size max =>
    have hbytes : m.count.wire s a = toBytes (dataLenSz size) (m.count.value s a) := by
      rw [hcount]
      rfl
    have hread : m.count.value s a = ofBytes (read s (a + offset) size) := by
      rw [hcount]
      rfl
    have hvalid : m.count.Valid s a ↔ m.count.value s a ≤ max := by
      rw [hcount]
      rfl
    have hsize : 0 < size := (hcount ▸ hok.count : (Count.var offset size max).Ok).1
    rw [hbytes, length_toBytes] at hfits
    by_cases hdata : v.bufDst + dataLenSz size ≤ stop
    · have hzero : m.count.value s a ≠ 0 := by
        intro hzero
        refine hfits ⟨⟨hvalid.2 (by omega), itemValid_of_value hzero⟩, ?_⟩
        rw [item_of_value hzero, List.length_nil]
        exact hdata
      have hturn := encodeLoop_dataLen (t := t) (e := m.info t) level rest hsize
        hroom hdata (hread ▸ hzero)
      rw [← hread] at hturn
      have hroom' := hroom.put (toBytes (dataLenSz size) (m.count.value s a)) (m.count.value s a)
      have hout : Set.EqOn
          (write v.out v.bufDst (toBytes (dataLenSz size) (m.count.value s a))) v.out (Set.Ici stop) :=
        eqOn_write_Ici (by rwa [length_toBytes])
      have hvar := encodeLen_info t m (m.count.value s a)
      simp only [hcount] at hvar
      by_cases hle : m.count.value s a ≤ max
      · rw [if_neg (by rw [← hcount]; omega), ← hcount] at hvar
        obtain ⟨out', hinfo, hout'⟩ := hm.info (t := t) rest
          (v := { v.put (toBytes (dataLenSz size) (m.count.value s a)) (m.count.value s a) with
            encodeTlv := false }) hlevel hok hchecked ⟨hroom'.left, hroom'.tlvLen_le, hroom'.lt⟩
          (by
            show v.bufDst + (toBytes (dataLenSz size) (m.count.value s a)).length ≤ stop + 3
            rw [length_toBytes]
            omega) hvar hzero
          (fun h => hfits ⟨⟨hvalid.2 hle, h.1⟩, by
            have hitem : v.bufDst + (toBytes (dataLenSz size) (m.count.value s a)).length +
              (m.item s level a).length ≤ stop := h.2
            rw [length_toBytes] at hitem
            omega⟩)
        exact ⟨out', hturn.trans hinfo, hout'.trans hout⟩
      · rw [if_pos (by rw [← hcount]; omega), ← hcount] at hvar
        exact ⟨_, hturn.trans (encodeLoop_len (info_ne (by decide) t m) hvar), hout⟩
    · exact ⟨v.out, encodeLoop_dataLen_error hroom hdst hdata, Set.eqOn_refl ..⟩

/-! ## Structs that do not fit -/

theorem encodeLoop_infos_refuses {ms : List Member} (hms : ∀ m ∈ ms, m.Refuses) (hlevel : 2 ≤ level)
    (hok : Member.AllOk level ms) (hchecked : ∀ m ∈ ms, m.Checked level) (hroom : v.Room stop len)
    (hdst : v.bufDst ≤ stop + 3) (hne : ms ≠ [] ∨ v.bufDst ≤ stop)
    (hfits : ¬(Member.AllValid s a ms ∧ v.bufDst + (Member.wires s level a ms).length ≤ stop)) :
    ∃ out', encodeLoop level len s a (Member.infos ms) v = some (-EINVAL, out') ∧
      Set.EqOn out' v.out (Set.Ici stop) := by
  induction ms generalizing v with
  | nil => exact absurd ⟨trivial, hne.resolve_left (fun h => h rfl)⟩ hfits
  | cons m ms ih =>
    rw [Member.wires_cons, List.length_append] at hfits
    rw [Member.infos_cons]
    by_cases hhead : m.Valid s a ∧ v.bufDst + (m.wire s level a).length ≤ stop
    · have hdst' : (v.put (m.wire s level a) (m.count.value s a)).bufDst ≤ stop := hhead.2
      rw [(Member.encodes m).entries _ (by omega) hok.1 hhead.1 hroom hhead.2 (by omega),
        EncVars.finish_of_ne (by omega)]
      obtain ⟨out', hloop, hout⟩ := ih (v := v.put (m.wire s level a) (m.count.value s a))
        (fun m hm => hms m (List.mem_cons_of_mem _ hm)) hok.2
        (fun m hm => hchecked m (List.mem_cons_of_mem _ hm)) (hroom.put _ _) (by omega)
        (Or.inr hdst') (fun h => hfits ⟨⟨hhead.1, h.1⟩, by
          have htail : v.bufDst + (m.wire s level a).length +
            (Member.wires s level a ms).length ≤ stop := h.2
          omega⟩)
      exact ⟨out', hloop, hout.trans (eqOn_write_Ici hhead.2)⟩
    · exact (hms m List.mem_cons_self).entries _ (by omega) hok.1 (hchecked m List.mem_cons_self)
        hroom hdst hhead

theorem qmiEncodeStructElem_refuses {ms : List Member} {e : ElemInfo} (out : Mem)
    (bufDst b encoded : ℕ) {n : ℕ} (hms : ∀ m ∈ ms, m.Refuses)
    (he : e.eiArray = some (Member.infos ms)) (hne : ms ≠ []) (hlevel : 2 ≤ level)
    (hok : Member.AllOk level ms)
    (hchecked : ∀ m ∈ ms, m.Checked level)
    (hleft : len + bufDst = stop + 3 + encoded) (hlt : len < 2 ^ 31) (hdst : bufDst ≤ stop + 3)
    (hn : n ≠ 0 ∨ bufDst ≤ stop)
    (hfits : ¬((∀ i < n, Member.AllValid s (b + i * e.elemSize) ms) ∧ bufDst +
      (strided (fun b => Member.wires s level b ms) e.elemSize b n).length ≤ stop)) :
    ∃ out', qmiEncodeStructElem e out bufDst s b n len level encoded = some (-EINVAL, out') ∧
      Set.EqOn out' out (Set.Ici stop) := by
  induction n generalizing out bufDst b encoded with
  | zero => exact absurd ⟨nofun, hn.resolve_left (fun h => h rfl)⟩ hfits
  | succ n ih =>
    rw [strided, List.length_append] at hfits
    have hvalid := forall_strided_succ (fun b => Member.AllValid s b ms) e.elemSize b n
    have hsub : uint32 ((len : Int) - encoded) = len - encoded := uint32_sub (by omega) (by omega)
    have hroom : (⟨out, bufDst, bufDst, 0, 0, 0, false⟩ : EncVars).Room stop (len - encoded) :=
      ⟨by dsimp only; omega, le_rfl, by omega⟩
    by_cases hhead : Member.AllValid s b ms ∧ bufDst + (Member.wires s level b ms).length ≤ stop
    · have hinfos := encodeLoop_infos (fun m _ => Member.encodes m) hlevel hok hhead.1 hroom hhead.2
      have hencode : qmiEncode e.eiArray out bufDst s b (len - encoded) level =
          some (((Member.wires s level b ms).length : Int),
            write out bufDst (Member.wires s level b ms)) := by
        rw [he, qmiEncode, if_neg (by omega)]
        simpa using hinfos
      obtain ⟨out', hrest, hout⟩ := ih (write out bufDst (Member.wires s level b ms))
        (bufDst + (Member.wires s level b ms).length) (b + e.elemSize)
        (encoded + (Member.wires s level b ms).length) (by omega) (by omega)
        (Or.inr hhead.2) (fun h => hfits ⟨hvalid.2 ⟨hhead.1, h.1⟩, by omega⟩)
      refine ⟨out', ?_, hout.trans (eqOn_write_Ici hhead.2)⟩
      rw [qmiEncodeStructElem, hsub, hencode]
      simp only [Int.natCast_nonneg, Int.not_lt, if_neg, moved_natCast]
      rw [int32_add (by omega)]
      exact hrest
    · obtain ⟨out', hinfos, hout⟩ := encodeLoop_infos_refuses hms hlevel hok hchecked hroom hdst
        (Or.inl hne) hhead
      refine ⟨out', ?_, hout⟩
      have hencode : qmiEncode e.eiArray out bufDst s b (len - encoded) level =
          some (-EINVAL, out') := by
        rw [he, qmiEncode, if_neg (by omega)]
        exact hinfos
      rw [qmiEncodeStructElem, hsub, hencode]
      rfl

end Elements

namespace Member

theorem struct_refuses {offset : ℕ} {c : Count} {size : ℕ} {ms : List Member}
    (hms : ∀ m ∈ ms, m.Refuses) : (Member.struct offset c size ms).Refuses := by
  intro level stop len s a t rest v hlevel hok hchecked hroom hdst hvalue _ hpos hfits
  have hvalue : v.dataLenValue = c.value s a := hvalue
  obtain ⟨hleft, -, hlt⟩ := hroom
  obtain ⟨-, hne, -, -, hok⟩ := hok
  have hsub : sub32 len v.encodedBytes = len - v.encodedBytes := sub32_eq (by omega) (by omega)
  rw [item] at hfits
  have hrel : len - v.encodedBytes + v.bufDst = stop + 3 + 0 := by omega
  obtain ⟨out', hrun, hout⟩ := qmiEncodeStructElem_refuses (e := info t (.struct offset c size ms))
    v.out v.bufDst (a + offset) 0 hms rfl hne (by omega) hok
    (checked_of_anyString hchecked) hrel (by omega) hdst (Or.inl hpos) hfits
  refine ⟨out', ?_, hout⟩
  have hanswer : structAnswer level len s a (info t (.struct offset c size ms)) v =
      some (-EINVAL, out') := by
    rw [structAnswer, hsub, hvalue]
    exact hrun
  rw [hanswer, encodeElem_struct_error rfl]

theorem refuses (m : Member) : m.Refuses := by
  induction m using Member.induct with
  | basic offset c type size => exact basic_refuses offset c type size
  | struct offset c size ms ih => exact struct_refuses ih
  | string offset max => exact string_refuses offset max

end Member

/-! ## Messages -/

theorem encodeLoop_message_refuses {s : Mem} {len : ℕ} {ts : List Tlv} (out : Mem)
    (buf encoded n : ℕ) (hok : ∀ t ∈ ts, t.member.Ok 1) (hchecked : ∀ t ∈ ts, t.member.Checked 1)
    (htypes : (QMI_COMMON_TLV_TYPE :: ts.map Tlv.type).Nodup) (hlen : len < 2 ^ 31)
    (hencoded : encoded ≤ len)
    (hfits : ¬((∀ t ∈ ts, t.present s → t.member.Valid s 0) ∧
      encoded + (Tlv.wires s ts).length ≤ len)) :
    ∃ out', encodeLoop 1 len s 0 (message ts) (EncVars.between out buf encoded n) =
      some (-EINVAL, out') ∧ Set.EqOn out' out (Set.Ici (buf + len)) := by
  induction ts generalizing out encoded n with
  | nil => exact absurd ⟨nofun, hencoded⟩ hfits
  | cons t ts ih =>
    obtain ⟨hnext, htypes⟩ := message_next htypes
    rw [Tlv.wires_cons, List.length_append] at hfits
    have hrest : ∀ x ∈ ts, x ∈ t :: ts := fun x hx => List.mem_cons_of_mem _ hx
    have hih := fun out encoded n => ih out encoded n
      (fun x hx => hok x (hrest x hx)) (fun x hx => hchecked x (hrest x hx)) htypes
    rw [message_cons]
    by_cases hp : t.present s
    · rw [if_pos hp] at hfits
      by_cases hhead : t.member.Valid s 0 ∧ encoded + (t.wire s).length ≤ len
      · obtain ⟨n', hentries⟩ := Tlv.encodeLoop_entries out buf encoded n
          (hok t List.mem_cons_self) (fun _ => hhead.1) hlen (fun _ => hhead.2) hnext
        rw [if_pos hp] at hentries
        obtain ⟨out', hloop, hout⟩ := hih (write out (buf + encoded) (t.wire s))
          (encoded + (t.wire s).length) n' hhead.2 (fun h => hfits ⟨fun x hx hpx => by
            cases hx with
            | head => exact hhead.1
            | tail _ hx => exact h.1 x hx hpx, by omega⟩)
        exact ⟨out', hentries.trans hloop, hout.trans (eqOn_write_Ici (by omega))⟩
      · obtain ⟨n', hflag⟩ := Tlv.encodeLoop_flag (t := t) (s := s) out buf len encoded n
          hnext
        rw [if_pos hp] at hflag
        have hlength := t.length_wire s
        obtain ⟨out', hloop, hout⟩ := (Member.refuses t.member).entries (t := t.type)
          (message ts) le_rfl (hok t List.mem_cons_self) (hchecked t List.mem_cons_self)
          (Tlv.room_between out buf encoded n' hlen)
          (by
            show buf + encoded + 3 ≤ buf + len + 3
            omega)
          (fun h => hhead ⟨h.1, by
            have hpayload : buf + encoded + 3 + (t.payload s).length ≤ buf + len := h.2
            omega⟩)
        exact ⟨out', hflag.trans hloop, hout⟩
    · rw [if_neg hp] at hfits
      obtain ⟨n', hentries⟩ := Tlv.encodeLoop_entries (s := s) out buf encoded n
        (hok t List.mem_cons_self) (fun h => absurd h hp) hlen
        (fun h => absurd h hp) hnext
      rw [if_neg hp] at hentries
      obtain ⟨out', hloop, hout⟩ := hih out encoded n' hencoded (fun h => hfits ⟨fun x hx hpx => by
          cases hx with
          | head => exact absurd hpx hp
          | tail _ hx => exact h.1 x hx hpx, by simpa using h.2⟩)
      exact ⟨out', hentries.trans hloop, hout⟩

namespace Schema

/-- Has no string below level 1. -/
def Checked (c : Schema) : Prop := ∀ t ∈ c.tlvs, t.member.Checked 1

/-- Without strings below level 1, `qmi_encode` writes the wire format if the structure is valid and
its message fits, and otherwise fails without a write past the buffer. -/
theorem qmiEncode_exact (c : Schema) (hchecked : c.Checked) (s out : Mem) (buf len : ℕ)
    (hlen : len < 2 ^ 31) :
    (c.Valid s ∧ (c.wire s).length ≤ len →
      qmiEncode (some (message c.tlvs)) out buf s 0 len 1 =
        some (((c.wire s).length : Int), write out buf (c.wire s))) ∧
    (¬(c.Valid s ∧ (c.wire s).length ≤ len) →
      ∃ out', qmiEncode (some (message c.tlvs)) out buf s 0 len 1 = some (-EINVAL, out') ∧
        Set.EqOn out' out (Set.Ici (buf + len))) := by
  constructor
  · intro hfits
    exact c.qmiEncode_eq hfits.1 hlen hfits.2
  · intro hfits
    have hloop := encodeLoop_message_refuses out buf 0 0 c.ok hchecked c.types hlen (Nat.zero_le _)
      (by simpa [Valid, wire] using hfits)
    rw [qmiEncode, if_pos rfl]
    simpa [EncVars.between] using hloop

end Schema

theorem response_checked : response.Checked := by
  simp [Schema.Checked, response, resultTlv, listTlv, nameTlv, responseMembers, Member.Checked,
    Member.anyString, Member.hasString]

theorem response_encoded :
    qmiEncode (some (message response.tlvs)) (fun _ => 0) 0 answered 0 22 1 =
        some (22, write (fun _ => 0) 0 (response.wire answered)) ∧
      ∃ out, qmiEncode (some (message response.tlvs)) (fun _ => 0) 0 answered 0 21 1 =
          some (-EINVAL, out) ∧ Set.EqOn out (fun _ => 0) (Set.Ici 21) := by
  have hlength : (response.wire answered).length = 22 := by rw [response_wire]; rfl
  constructor
  · have h := (response.qmiEncode_exact response_checked answered (fun _ => 0) 0 22
      (by decide)).1 ⟨response_valid, hlength.le⟩
    rwa [hlength] at h
  · have h := (response.qmiEncode_exact response_checked answered (fun _ => 0) 0 21
      (by decide)).2 (fun h => absurd h.2 (by rw [hlength]; decide))
    rwa [Nat.zero_add] at h

end DragonQ6A.Qmi
