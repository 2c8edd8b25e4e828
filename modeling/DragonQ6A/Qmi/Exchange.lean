import DragonQ6A.Qmi.Message

/-!
# Requests and their answers

`qmi_encode_message`, `qmi_decode_header` and `qmi_decode_message`: the packet that one side sends
is the one the other takes a structure from.
-/

open Bytes C

namespace DragonQ6A.Qmi

/-! ## The header -/

section Header

variable {type txnId msgId msgLen : ℕ} {m : Mem}

end Header

section Decode

variable {dst : Mem} {pkt : Pkt} {type id : ℕ} {ei : List ElemInfo}

end Decode

namespace Schema

/-- The TLVs of the message of `s`. -/
def sent (c : Schema) (s : Mem) : List Tlv := c.tlvs.filter fun t => t.present s

/-- Each length of the message can be read over the number of elements before it. -/
def Fresh (c : Schema) (s : Mem) : Prop := Piece.Fresh s 0 ((c.sent s).map Piece.known)

end Schema

namespace Member

mutual

/-- What a member adds to the minimum length of a message. -/
def least (level : ℕ) : Member → ℕ
  | .basic _ c _ size => c.most + c.cap * size + (if level = 1 then 3 else 0)
  | .struct _ c _ ms => c.most + leasts (level + 1) ms + (if level = 1 then 3 else 0)
  | .string _ max => (if level > 1 then stringLenSz max else 0) + max + (if level = 1 then 3 else 0)

def leasts (level : ℕ) : List Member → ℕ
  | [] => 0
  | m :: ms => least level m + leasts level ms

end

/-- The elements of a member add its minimum length. -/
def Counted (m : Member) : Prop :=
  ∀ ⦃level : ℕ⦄ ⦃t : UInt8⦄ ⦃rest : List ElemInfo⦄ ⦃k : ℕ⦄,
    qmiCalcMinMsgLen rest level = some (int32 k) →
      qmiCalcMinMsgLen (m.entries t ++ rest) level = some (int32 (m.least level + k : ℕ))

theorem calc_entries {m : Member} {level n : ℕ} {t : UInt8} {rest : List ElemInfo}
    (h : qmiCalcMinMsgLen (m.info t :: rest) level = some (int32 n)) :
    qmiCalcMinMsgLen (m.entries t ++ rest) level = some (int32 (m.count.most + n : ℕ)) := by
  unfold Member.entries
  cases m.count with
  | one => simpa [Count.entries, Count.most] using h
  | static => simpa [Count.entries, Count.most] using h
  | var offset size max =>
    simp [Count.entries, Count.most, qmiCalcMinMsgLen, h, int32_add_int32]

theorem calc_infos {ms : List Member} (hms : ∀ m ∈ ms, m.Counted) (level : ℕ) :
    qmiCalcMinMsgLen (infos ms) level = some (int32 (leasts level ms)) := by
  induction ms with
  | nil => simp [infos, qmiCalcMinMsgLen, eoti, leasts, int32]
  | cons m ms ih =>
    have hrest := ih fun m hm => hms m (List.mem_cons_of_mem _ hm)
    rw [infos_cons, hms m List.mem_cons_self hrest, leasts]

theorem counted (m : Member) : m.Counted := by
  induction m using Member.induct with
  | basic offset c type size =>
    intro level t rest k hk
    obtain ⟨type, htype⟩ := type
    have hinfo : qmiCalcMinMsgLen (info t (.basic offset c ⟨type, htype⟩ size) :: rest) level =
        some (int32 (c.cap * size + (if level = 1 then 3 else 0) + k : ℕ)) := by
      have hsum : int32 (mul32 c.cap size + (if level = 1 then 3 else 0) + int32 k) =
          int32 (c.cap * size + (if level = 1 then 3 else 0) + k : ℕ) := by
        rw [int32_add_int32]
        apply int32_congr
        unfold mul32
        push_cast
        omega
      cases type <;> first | (simp [ElemType.isBasic] at htype; done) |
        simpa [Member.info, qmiCalcMinMsgLen, hk] using hsum
    rw [calc_entries hinfo, least]
    exact congrArg (fun n : ℕ => some (int32 n)) (by simp [count]; omega)
  | struct offset c size ms hms =>
    intro level t rest k hk
    have hinfo : qmiCalcMinMsgLen (info t (.struct offset c size ms) :: rest) level =
        some (int32 (leasts (level + 1) ms + (if level = 1 then 3 else 0) + k : ℕ)) := by
      have hsum : int32 (int32 (leasts (level + 1) ms) + (if level = 1 then 3 else 0) + int32 k) =
          int32 (leasts (level + 1) ms + (if level = 1 then 3 else 0) + k : ℕ) := by
        rw [int32_add_int32, Int.add_assoc, int32_int32_add, ← Int.add_assoc]
        push_cast
        rfl
      simpa [info, qmiCalcMinMsgLen, calc_infos hms (level + 1), hk] using hsum
    rw [calc_entries hinfo, least]
    exact congrArg (fun n : ℕ => some (int32 n)) (by simp [count]; omega)
  | string offset max =>
    intro level t rest k hk
    have hinfo : qmiCalcMinMsgLen (info t (.string offset max) :: rest) level =
        some (int32 ((if level > 1 then stringLenSz max else 0) + max +
          (if level = 1 then 3 else 0) + k : ℕ)) := by
      have hsum : int32 ((if level > 1 then stringLenSz max else 0 : ℕ) + mul32 max 1 +
          (if level = 1 then 3 else 0) + int32 k) = int32 ((if level > 1 then stringLenSz max else 0) +
            max + (if level = 1 then 3 else 0) + k : ℕ) := by
        rw [int32_add_int32]
        apply int32_congr
        unfold mul32
        push_cast
        omega
      simpa [info, qmiCalcMinMsgLen, hk] using hsum
    rw [calc_entries hinfo, least]
    exact congrArg (fun n : ℕ => some (int32 n)) (by simp [count, Count.most, Nat.add_assoc])

end Member

/-- What a TLV adds to the minimum length. -/
def Tlv.least (t : Tlv) : ℕ := if t.flag.isSome then 0 else t.member.least 1

theorem calc_message {ts : List Tlv} (htypes : (QMI_COMMON_TLV_TYPE :: ts.map Tlv.type).Nodup) :
    qmiCalcMinMsgLen (message ts) 1 = some (int32 ((ts.map Tlv.least).sum : ℕ)) := by
  induction ts with
  | nil => simp [message, qmiCalcMinMsgLen, eoti, int32]
  | cons t ts ih =>
    obtain ⟨hnext, htypes⟩ := message_next htypes
    have hrest := ih htypes
    rw [message_cons, List.map_cons, List.sum_cons, Tlv.least]
    cases hflag : t.flag with
    | none =>
      have hentries := t.member.counted (t := t.type) hrest
      simpa [Tlv.entries, hflag] using hentries
    | some offset =>
      have hskip := skipToNextElem_append (e := ⟨.optFlag, 1, 1, .noArray, t.type, offset, none⟩)
        (l := t.member.entries t.type) Member.entries_tlvType hnext
      simp [Tlv.entries, hflag, qmiCalcMinMsgLen, hskip, hrest]

namespace Schema

theorem wire_of_absent {c : Schema} {s : Mem} (h : ∀ t ∈ c.tlvs, t.present s = false) :
    c.wire s = [] := by
  have hfilter : c.tlvs.filter (fun t => t.present s) = [] :=
    List.filter_eq_nil_iff.2 fun t ht => by simp [h t ht]
  rw [wire, Tlv.wires, hfilter, List.flatMap_nil]

/-- The minimum length of a message, as it would be counted without a wrap. -/
def least (c : Schema) : ℕ := (c.tlvs.map Tlv.least).sum

theorem least_eq_zero_iff (c : Schema) : c.least = 0 ↔ ∀ t ∈ c.tlvs, t.flag.isSome := by
  have hpos : ∀ m : Member, m.least 1 ≠ 0 := by
    intro m
    cases m <;> simp [Member.least]
  rw [least, List.sum_eq_zero_iff_forall_eq_nat]
  simp [Tlv.least, hpos, Option.isSome_iff_ne_none]

/-- Without a structure nothing is sent where there is to be something. -/
theorem qmiEncodeMessage_needed {ei : List ElemInfo} {n : Int} (pkt : Pkt) (type msgId txnId : ℕ)
    (hn : qmiCalcMinMsgLen ei 1 = some n) (hne : n ≠ 0) :
    qmiEncodeMessage pkt type msgId txnId none (some ei) = some (-EINVAL, pkt) := by
  unfold qmiEncodeMessage
  simp [hn, hne]

/-- Without a structure there is a message exactly if all its TLVs are optional, and it is the one
of a structure that has none of them. -/
theorem qmiEncodeMessage_null (c : Schema) (hleast : c.least < 2 ^ 32) (pkt : Pkt)
    (type msgId txnId : ℕ) :
    (qmiEncodeMessage pkt type msgId txnId none (some (message c.tlvs)) =
      if ∀ t ∈ c.tlvs, t.flag.isSome then
        if pkt.dataLen < 7 then some (-Qrtr.EMSGSIZE, pkt)
        else some (7, ⟨Qrtr.QRTR_TYPE_DATA, write pkt.data 0 (qmiHeader type txnId msgId 0), 7⟩)
      else some (-EINVAL, pkt)) ∧
    (pkt.dataLen < 2 ^ 31 → ∀ s, (∀ t ∈ c.tlvs, t.present s = false) →
      qmiEncodeMessage pkt type msgId txnId none (some (message c.tlvs)) =
        qmiEncodeMessage pkt type msgId txnId (some s) (some (message c.tlvs))) := by
  have hn : qmiCalcMinMsgLen (message c.tlvs) 1 = some (int32 c.least) := calc_message c.types
  have hiff : int32 c.least = 0 ↔ ∀ t ∈ c.tlvs, t.flag.isSome :=
    (int32_eq_zero_iff hleast).trans c.least_eq_zero_iff
  constructor
  · by_cases hall : ∀ t ∈ c.tlvs, t.flag.isSome
    · rw [if_pos hall]
      unfold qmiEncodeMessage
      simp [hn, hiff.2 hall]
    · rw [if_neg hall]
      exact qmiEncodeMessage_needed pkt type msgId txnId hn fun h => hall (hiff.1 h)
  · intro hlen s habsent
    have hall : ∀ t ∈ c.tlvs, t.flag.isSome := by
      intro t ht
      have hpresent := habsent t ht
      unfold Tlv.present at hpresent
      cases hflag : t.flag with
      | none => simp [hflag] at hpresent
      | some offset => rfl
    have hvalid : c.Valid s := fun t ht hp => by simp [habsent t ht] at hp
    have hwire := wire_of_absent habsent
    unfold qmiEncodeMessage
    by_cases hsize : pkt.dataLen < 7
    · simp [hn, hiff.2 hall, hsize]
    · have hencode : qmiEncode (some (message c.tlvs)) pkt.data 7 s 0 (sub32 pkt.dataLen 7) 1 =
          some (((c.wire s).length : Int), write pkt.data 7 (c.wire s)) := by
        rw [sub32_eq (by omega) (by omega)]
        exact c.qmiEncode_eq hvalid (by omega) (by simp [hwire])
      simp [hn, hiff.2 hall, hencode, hwire]

end Schema

/-- The part of a response that may be left out. -/
def details : Schema where
  tlvs := [listTlv, nameTlv]
  ok t ht := response.ok t (List.mem_cons_of_mem _ ht)
  types := by decide
  apart := by decide

theorem details_null :
    qmiEncodeMessage ⟨0, fun _ => 0, 64⟩ 2 0x20 7 none (some (message details.tlvs)) =
        some (7, ⟨Qrtr.QRTR_TYPE_DATA, write (fun _ => 0) 0 (qmiHeader 2 7 0x20 0), 7⟩) ∧
      qmiEncodeMessage ⟨0, fun _ => 0, 64⟩ 2 0x20 7 none (some (message response.tlvs)) =
        some (-EINVAL, ⟨0, fun _ => 0, 64⟩) := by
  have hdetails := (details.qmiEncodeMessage_null (by decide) ⟨0, fun _ => 0, 64⟩ 2 0x20 7).1
  have hresponse := (response.qmiEncodeMessage_null (by decide +kernel) ⟨0, fun _ => 0, 64⟩ 2 0x20
    7).1
  rw [if_pos (by decide)] at hdetails
  rw [if_neg (by decide)] at hresponse
  exact ⟨hdetails, hresponse⟩

end DragonQ6A.Qmi
