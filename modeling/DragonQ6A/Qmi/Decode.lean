import DragonQ6A.Qmi.Encode

/-!
# The turns of decoding

What a turn of `qmi_decode` does with the elements of a member, and what it means that a structure
is restored.  A length is read over the low bytes of the last number of elements, so that it must
not be shorter than what is left there, and a `uint32_t` is written for it.
-/

open Bytes C

namespace DragonQ6A.Qmi

/-! ## The turns of the loop -/

/-- Bytes that are in reach are counted without a wrap. -/
theorem DecVars.update_eq {v : DecVars} {n : ℕ} (h : v.decodedBytes + n < 2 ^ 32) :
    v.update n = { v with bufSrc := v.bufSrc + n, decodedBytes := v.decodedBytes + n } := by
  rw [update, moved_natCast, uint32_add h]

section Turns

variable {level cStruct inBufLen tlvLen tlvLen' n : ℕ} {inBuf dst : Mem} {e : ElemInfo}
  {ei tempEi rest : List ElemInfo} {v v' : DecVars} {rc : Int}

/-- What the `switch` answers in a turn. -/
def decodeAnswer (level : ℕ) (e : ElemInfo) (bufDst : ℕ) (inBuf : Mem) (n tlvLen : ℕ)
    (v : DecVars) : Option (Int × Mem) :=
  if e.dataType = .struct then
    qmiDecodeStructElem e v.dst bufDst inBuf v.bufSrc n tlvLen (level + 1) 0
  else some (decodeElem e v.dst bufDst inBuf v.bufSrc n tlvLen level)

theorem decodeLoop_done {turns : ℕ} (h : inBufLen ≤ v.decodedBytes) :
    decodeLoop turns level ei cStruct inBuf inBufLen v =
      some (int32 v.decodedBytes, v.dst) := by
  rw [decodeLoop, if_pos h]

theorem decodeLoop_stop {turns : ℕ} (hlt : v.decodedBytes < inBufLen)
    (hturns : ¬(level = 1 ∧ turns = 0))
    (hstart : decodeStart level ei inBuf inBufLen v = some (.stop rc)) :
    decodeLoop turns level ei cStruct inBuf inBufLen v = some (rc, v.dst) := by
  rw [decodeLoop, if_neg (Nat.not_le.2 hlt), dif_neg hturns]
  split
  · simp_all
  · simp_all
  · simp_all
  · simp_all

theorem decodeLoop_skip {turns : ℕ} (hlt : v.decodedBytes < inBufLen)
    (hturns : ¬(level = 1 ∧ turns = 0))
    (hstart : decodeStart level ei inBuf inBufLen v = some (.skip tlvLen)) :
    decodeLoop turns level ei cStruct inBuf inBufLen v =
      decodeLoop (nextTurns level turns) level ei cStruct inBuf inBufLen
        ((v.update 3).update tlvLen) := by
  rw [decodeLoop, if_neg (Nat.not_le.2 hlt), dif_neg hturns]
  split
  · simp_all
  · simp_all
  · simp_all
  · simp_all

theorem decodeLoop_turn (turns : ℕ) (hlt : v.decodedBytes < inBufLen)
    (hturns : ¬(level = 1 ∧ turns = 0))
    (hstart : decodeStart level ei inBuf inBufLen v = some (.elem tempEi tlvLen))
    (hhead : decodeHead level cStruct inBuf tempEi tlvLen v = (e :: rest, tlvLen', v')) :
    decodeLoop turns level ei cStruct inBuf inBufLen v =
      match decodeLen e v'.dataLenValue with
      | none => some (-EINVAL, v'.dst)
      | some n =>
        match decodeAnswer level e (cStruct + e.offset) inBuf n tlvLen' v' with
        | none => none
        | some (rc, dst) =>
          if rc < 0 ∧ ¬e.dataType.isBasic then some (rc, dst)
          else
            decodeLoop (nextTurns level turns) level (nextEi level ei rest) cStruct inBuf inBufLen
              ({ v' with dst := dst, dataLenValue := n }.update rc) := by
  rw [decodeLoop, if_neg (Nat.not_le.2 hlt), dif_neg hturns]
  split
  · simp_all
  · simp_all
  · simp_all
  · rename_i heq
    rw [hstart] at heq
    cases heq
    dsimp only
    split
    · simp_all
    · rename_i heq
      rw [hhead] at heq
      cases heq
      rw [hhead]
      dsimp only
      cases decodeLen e v'.dataLenValue with
      | none => rfl
      | some n =>
        unfold decodeAnswer
        by_cases hstruct : e.dataType = .struct
        · simp only [if_pos hstruct]
          cases qmiDecodeStructElem e v'.dst (cStruct + e.offset) inBuf v'.bufSrc n tlvLen'
              (level + 1) 0
          · rfl
          · rfl
        · simp only [if_neg hstruct]
          rfl

/-- A loop that leaves the array does so whatever the turns. -/
theorem decodeLoop_left {turns : ℕ} (hlt : v.decodedBytes < inBufLen)
    (h : ∀ start ∈ decodeStart level ei inBuf inBufLen v, ∃ tempEi tlvLen,
      start = .elem tempEi tlvLen ∧ (decodeHead level cStruct inBuf tempEi tlvLen v).1 = []) :
    decodeLoop turns level ei cStruct inBuf inBufLen v = none := by
  rw [decodeLoop, if_neg (Nat.not_le.2 hlt)]
  by_cases hturns : level = 1 ∧ turns = 0
  · rw [dif_pos hturns]
  · rw [dif_neg hturns]
    cases hstart : decodeStart level ei inBuf inBufLen v with
    | none => rfl
    | some start =>
      obtain ⟨tempEi, tlvLen, rfl, hhead⟩ := h start hstart
      dsimp only
      split
      · rfl
      · rename_i heq
        rw [hhead] at heq
        cases heq

/-- What a loop returns does not depend on the turns it may take. -/
theorem decodeLoop_add {r : Int × Mem} {turns : ℕ} (k : ℕ)
    (h : decodeLoop turns 1 ei cStruct inBuf inBufLen v = some r) :
    decodeLoop (turns + k) 1 ei cStruct inBuf inBufLen v = some r := by
  induction turns generalizing v with
  | zero =>
    by_cases hdone : inBufLen ≤ v.decodedBytes
    · rw [decodeLoop_done hdone] at h ⊢
      exact h
    · rw [decodeLoop, if_neg hdone, dif_pos ⟨rfl, rfl⟩] at h
      cases h
  | succ turns ih =>
    by_cases hdone : inBufLen ≤ v.decodedBytes
    · rw [decodeLoop_done hdone] at h ⊢
      exact h
    rw [Nat.add_right_comm]
    have hlt := Nat.lt_of_not_le hdone
    have hnext : ∀ n, nextTurns 1 (n + 1) = n := fun n => rfl
    cases hstart : decodeStart 1 ei inBuf inBufLen v with
    | none =>
      rw [decodeLoop_left hlt (by simp [hstart])] at h
      cases h
    | some start =>
      cases start with
      | stop rc =>
        rw [decodeLoop_stop hlt (by simp) hstart] at h ⊢
        exact h
      | skip tlvLen =>
        rw [decodeLoop_skip hlt (by simp) hstart, hnext] at h ⊢
        exact ih h
      | elem tempEi tlvLen =>
        rcases hhead : decodeHead 1 cStruct inBuf tempEi tlvLen v with ⟨next, tlvLen', v'⟩
        cases next with
        | nil =>
          rw [decodeLoop_left hlt (by simp [hstart, hhead])] at h
          cases h
        | cons e rest =>
          rw [decodeLoop_turn _ hlt (by simp) hstart hhead, hnext] at h ⊢
          cases hlen : decodeLen e v'.dataLenValue with
          | none => simpa only [hlen] using h
          | some n =>
            simp only [hlen] at h ⊢
            split at h
            · cases h
            · split_ifs at h ⊢
              · exact h
              · exact ih h

end Turns

/-! ## The length of a member -/

/-- `QMI_DATA_LEN` of a member, if it has a length: `tlv_len` and the variables after it. -/
def Count.header (a : ℕ) (inBuf : Mem) (tlvLen : ℕ) (v : DecVars) : Count → ℕ × DecVars
  | .var offset size _ =>
    let sz := dataLenSz size
    let value := overwrite v.dataLenValue (read inBuf v.bufSrc sz)
    (sub32 tlvLen sz,
      { v with dst := write v.dst (a + offset) (toBytes 4 value), dataLenValue := value }.update sz)
  | _ => (tlvLen, v)

section Head

variable {level a tlvLen n : ℕ} {inBuf : Mem} {t : UInt8} {rest : List ElemInfo} {v : DecVars}

theorem decodeDataLen_entries (m : Member) :
    decodeDataLen a inBuf (m.entries t ++ rest) tlvLen v =
      (m.info t :: rest, m.count.header a inBuf tlvLen v) := by
  have hinfo : decodeDataLen a inBuf (m.info t :: rest) tlvLen v = (m.info t :: rest, tlvLen, v) :=
    if_neg (Member.info_ne (by decide) t m)
  rw [Member.entries]
  cases m.count with
  | one => exact hinfo
  | static n => exact hinfo
  | var offset size max => simp [Count.entries, decodeDataLen, Count.header]

theorem decodeOptFlag_entries (m : Member) :
    decodeOptFlag a (m.entries t ++ rest) v = (m.entries t ++ rest, v) := by
  rw [Member.entries]
  cases m.count with
  | one => exact if_neg (Member.info_ne (by decide) t m)
  | static n => exact if_neg (Member.info_ne (by decide) t m)
  | var offset size max => simp [Count.entries, decodeOptFlag]

/-- What `qmi_decode` takes for the number of elements of a member. -/
theorem decodeLen_info (t : UInt8) (m : Member) (n : ℕ) :
    decodeLen (m.info t) n =
      match m.count with
      | .one => some 1
      | .static k => some k
      | .var _ _ max => if n > max then none else some n := by
  cases m with
  | basic offset c => cases c <;> rfl
  | struct offset c => cases c <;> rfl
  | string => rfl

end Head

/-! ## What is restored -/

/-- The last number of elements has nothing above the bytes of the length. -/
def Count.Fresh (last : ℕ) : Count → Prop
  | .var _ size _ => last < 256 ^ dataLenSz size
  | _ => True

instance (last : ℕ) : (c : Count) → Decidable (c.Fresh last)
  | .one => instDecidableTrue
  | .static _ => instDecidableTrue
  | .var _ size _ => Nat.decLt last (256 ^ dataLenSz size)

/-- The length in `d` is the one of `s`. -/
def Count.Same (s d : Mem) (a : ℕ) : Count → Prop
  | .var offset size max => ofBytes (read d (a + offset) 4) = (Count.var offset size max).value s a
  | _ => True

namespace Member

mutual

/-- In the structs of a member, each length follows a number it can be read over. -/
def ItemFresh (s : Mem) (a : ℕ) : Member → Prop
  | .struct offset c size ms => ∀ i < c.value s a, AllFresh s (a + offset + i * size) 0 ms
  | _ => True

def AllFresh (s : Mem) (a last : ℕ) : List Member → Prop
  | [] => True
  | m :: ms =>
    (m.count.Fresh last ∧ ItemFresh s a m) ∧ AllFresh s a (m.count.value s a) ms

end

mutual

/-- A member, without its length, is in `d` what it is in `s`. -/
def ItemSame (s d : Mem) (a : ℕ) : Member → Prop
  | .basic offset c _ size =>
    read d (a + offset) (c.value s a * size) = read s (a + offset) (c.value s a * size)
  | .struct offset c size ms => ∀ i < c.value s a, AllSame s d (a + offset + i * size) ms
  | .string offset max =>
    let n := strlen s (a + offset) (max + 1)
    read d (a + offset) (n + 1) = read s (a + offset) (n + 1)

def AllSame (s d : Mem) (a : ℕ) : List Member → Prop
  | [] => True
  | m :: ms => (m.count.Same s d a ∧ ItemSame s d a m) ∧ AllSame s d a ms

end

def Fresh (s : Mem) (a last : ℕ) (m : Member) : Prop := m.count.Fresh last ∧ m.ItemFresh s a

def Same (s d : Mem) (a : ℕ) (m : Member) : Prop := m.count.Same s d a ∧ m.ItemSame s d a

end Member

section Length

variable {s inBuf : Mem} {a tlvLen : ℕ} {v : DecVars} {c : Count}

/-- Where reading a length leaves the variables. -/
theorem Count.header_moves (inBuf : Mem) {v : DecVars} (htlv : (c.wire s a).length ≤ tlvLen)
    (hlt : v.decodedBytes + tlvLen < 2 ^ 32) :
    (c.header a inBuf tlvLen v).1 = tlvLen - (c.wire s a).length ∧
      (c.header a inBuf tlvLen v).2.bufSrc = v.bufSrc + (c.wire s a).length ∧
      (c.header a inBuf tlvLen v).2.decodedBytes = v.decodedBytes + (c.wire s a).length := by
  cases c with
  | one => exact ⟨rfl, rfl, rfl⟩
  | static n => exact ⟨rfl, rfl, rfl⟩
  | var offset size max =>
    have hwire : ((Count.var offset size max).wire s a).length = dataLenSz size := by
      simp [Count.wire]
    rw [hwire] at htlv ⊢
    have hupdate := fun d n => DecVars.update_eq
      (v := { v with dst := d, dataLenValue := n }) (n := dataLenSz size) (by dsimp only; omega)
    refine ⟨sub32_eq htlv (by omega), ?_, ?_⟩
    · exact congrArg DecVars.bufSrc (hupdate _ _)
    · exact congrArg DecVars.decodedBytes (hupdate _ _)

/-- A length is written where the structure has it. -/
theorem Count.header_eqOn (c : Count) :
    Set.EqOn (c.header a inBuf tlvLen v).2.dst v.dst (area a c.spans)ᶜ := by
  cases c with
  | one => exact Set.eqOn_refl ..
  | static n => exact Set.eqOn_refl ..
  | var offset size max =>
    intro i hi
    apply eqOn_write
    intro hmem
    rw [length_toBytes] at hmem
    exact hi ⟨(offset, 4), List.mem_singleton_self _, hmem⟩

theorem ofBytes_wire {offset size max : ℕ} (hok : (Count.var offset size max).Ok)
    (hvalid : (Count.var offset size max).Valid s a) :
    ofBytes ((Count.var offset size max).wire s a) = (Count.var offset size max).value s a := by
  rw [Count.wire, ofBytes_toBytes]
  exact Nat.mod_eq_of_lt (Nat.lt_of_le_of_lt hvalid hok.2.2)

/-- The length that is read over the last number of elements. -/
theorem overwrite_wire {last offset size max : ℕ} (hok : (Count.var offset size max).Ok)
    (hvalid : (Count.var offset size max).Valid s a) :
    overwrite last ((Count.var offset size max).wire s a) =
      (Count.var offset size max).value s a +
        last / 256 ^ dataLenSz size * 256 ^ dataLenSz size := by
  rw [overwrite, ofBytes_wire hok hvalid, Count.wire, length_toBytes]

theorem Count.header_same (hok : c.Ok) (hvalid : c.Valid s a)
    (hbytes : read inBuf v.bufSrc (c.wire s a).length = c.wire s a)
    (hfresh : c.Fresh v.dataLenValue) : c.Same s (c.header a inBuf tlvLen v).2.dst a := by
  cases c with
  | one => trivial
  | static n => trivial
  | var offset size max =>
    have hlen : ((Count.var offset size max).wire s a).length = dataLenSz size := by
      simp [Count.wire]
    have hsmall : v.dataLenValue / 256 ^ dataLenSz size = 0 := Nat.div_eq_of_lt hfresh
    have hbound : (Count.var offset size max).value s a < 256 ^ 4 :=
      (Nat.lt_of_le_of_lt hvalid hok.2.2).trans_le (Nat.pow_le_pow_right (by decide) (by
        unfold dataLenSz
        split_ifs <;> decide))
    have hvalue : overwrite v.dataLenValue (read inBuf v.bufSrc (dataLenSz size)) =
        (Count.var offset size max).value s a := by
      rw [← hlen, hbytes, overwrite_wire hok hvalid, hsmall, Nat.zero_mul, Nat.add_zero]
    show ofBytes (read (write v.dst (a + offset) (toBytes 4
      (overwrite v.dataLenValue (read inBuf v.bufSrc (dataLenSz size))))) (a + offset) 4) = _
    have hread := read_write v.dst (a + offset) (toBytes 4 ((Count.var offset size max).value s a))
    rw [length_toBytes] at hread
    rw [hvalue, hread, ofBytes_toBytes, Nat.mod_eq_of_lt hbound]

/-- The number of elements is restored if the length is read over a number that fits it, and is
otherwise too large. -/
theorem decodeLen_header (tlvLen : ℕ) {t : UInt8} {m : Member} (hok : m.count.Ok)
    (hvalid : m.count.Valid s a)
    (hbytes : read inBuf v.bufSrc (m.count.wire s a).length = m.count.wire s a) :
    decodeLen (m.info t) (m.count.header a inBuf tlvLen v).2.dataLenValue =
      if m.count.Fresh v.dataLenValue then some (m.count.value s a) else none := by
  rw [decodeLen_info]
  cases hcount : m.count with
  | one => rfl
  | static n => rfl
  | var offset size max =>
    rw [hcount] at hok hvalid hbytes
    have hlen : ((Count.var offset size max).wire s a).length = dataLenSz size := by
      simp [Count.wire]
    have hvalue : ((Count.var offset size max).header a inBuf tlvLen v).2.dataLenValue =
        (Count.var offset size max).value s a +
          v.dataLenValue / 256 ^ dataLenSz size * 256 ^ dataLenSz size := by
      show overwrite v.dataLenValue (read inBuf v.bufSrc (dataLenSz size)) = _
      rw [← hlen, hbytes, overwrite_wire hok hvalid, hlen]
    rw [hvalue]
    by_cases hfresh : v.dataLenValue < 256 ^ dataLenSz size
    · rw [if_pos (show (Count.var offset size max).Fresh _ from hfresh), Nat.div_eq_of_lt hfresh,
        Nat.zero_mul, Nat.add_zero]
      exact if_neg (Nat.not_lt.2 hvalid)
    · rw [if_neg (show ¬(Count.var offset size max).Fresh _ from hfresh)]
      have hdiv : 1 ≤ v.dataLenValue / 256 ^ dataLenSz size :=
        (Nat.one_le_div_iff (Nat.pow_pos (by decide))).2 (Nat.le_of_not_lt hfresh)
      have hmul := Nat.mul_le_mul_right (256 ^ dataLenSz size) hdiv
      have hmax := hok.2.2
      exact if_pos (by omega)

end Length

/-! ## Places in the structure -/

section Places

variable {a : ℕ} {ss ts : List Span} {d d' : Mem}

theorem area_append (a : ℕ) (ss ts : List Span) : area a (ss ++ ts) = area a ss ∪ area a ts := by
  ext i
  simp [area, or_and_right, exists_or]

theorem area_singleton (a b n : ℕ) : area a [(b, n)] = Set.Ico (a + b) (a + b + n) := by
  ext i
  simp [area]

theorem area_spans (a : ℕ) (m : Member) :
    area a m.spans = area a m.count.spans ∪ Set.Ico (a + m.offset) (a + m.offset + m.extent) := by
  rw [Member.spans, area_append, area_singleton]

/-- What is written in one place leaves another as it is. -/
theorem area_subset_compl (h : ∀ s ∈ ss, ∀ t ∈ ts, s.Apart t) : area a ss ⊆ (area a ts)ᶜ := by
  intro i hs ht
  obtain ⟨s, hs, hsi⟩ := hs
  obtain ⟨t, ht, hti⟩ := ht
  have hapart := h s hs t ht
  unfold Span.Apart at hapart
  omega

/-- The members of the `i`th of some structs are inside it. -/
theorem area_subset {size b i n : ℕ} (h : ∀ s ∈ ss, s.1 + s.2 ≤ size) (hi : i < n) :
    area (b + i * size) ss ⊆ Set.Ico b (b + n * size) := by
  intro x hx
  obtain ⟨s, hs, hsx⟩ := hx
  have hin := h s hs
  have hmul := Nat.mul_le_mul_right size (Nat.succ_le_of_lt hi)
  rw [Nat.succ_mul] at hmul
  exact ⟨by omega, by omega⟩

end Places

/-! ## What keeps a member -/

theorem Count.Same.congr {s d d' : Mem} {a : ℕ} {c : Count}
    (h : Set.EqOn d' d (area a c.spans)) (hc : c.Same s d a) : c.Same s d' a := by
  cases c with
  | one => trivial
  | static n => trivial
  | var offset size max =>
    rw [Count.spans, area_singleton] at h
    show ofBytes (read d' (a + offset) 4) = _
    rw [read_eqOn h]
    exact hc

namespace Member

/-- A member is kept by what leaves its bytes as they are. -/
def Kept (m : Member) : Prop :=
  ∀ ⦃level : ℕ⦄ ⦃s d d' : Mem⦄ ⦃a : ℕ⦄, m.Ok level → m.Valid s a →
    Set.EqOn d' d (Set.Ico (a + m.offset) (a + m.offset + m.extent)) →
    m.ItemSame s d a → m.ItemSame s d' a

theorem Kept.same {m : Member} (hm : m.Kept) {level : ℕ} {s d d' : Mem} {a : ℕ} (hok : m.Ok level)
    (hvalid : m.Valid s a) (h : Set.EqOn d' d (area a m.spans)) (hsame : m.Same s d a) :
    m.Same s d' a := by
  rw [area_spans, Set.eqOn_union] at h
  exact ⟨hsame.1.congr h.1, hm hok hvalid h.2 hsame.2⟩

theorem AllSame.congr {ms : List Member} (hms : ∀ m ∈ ms, m.Kept) {level : ℕ} {s d d' : Mem} {a : ℕ}
    (hok : AllOk level ms) (hvalid : AllValid s a ms)
    (h : Set.EqOn d' d (area a (ms.flatMap spans))) (hsame : AllSame s d a ms) :
    AllSame s d' a ms := by
  induction ms with
  | nil => trivial
  | cons m ms ih =>
    rw [List.flatMap_cons, area_append, Set.eqOn_union] at h
    constructor
    · exact (hms m List.mem_cons_self).same hok.1 hvalid.1 h.1 hsame.1
    · exact ih (fun m hm => hms m (List.mem_cons_of_mem _ hm)) hok.2 hvalid.2 h.2 hsame.2

theorem kept (m : Member) : m.Kept := by
  induction m using Member.induct with
  | basic offset c type size =>
    intro level s d d' a _ hvalid h hsame
    have hle := Nat.mul_le_mul_right size (Count.value_le s a hvalid.1)
    have hread : read d' (a + offset) (c.value s a * size) =
        read d (a + offset) (c.value s a * size) :=
      read_eqOn (h.mono (Set.Ico_subset_Ico_right (Nat.add_le_add_left hle _)))
    exact hread.trans hsame
  | string offset max =>
    intro level s d d' a _ hvalid h hsame
    have hle : strlen s (a + offset) (max + 1) ≤ max := hvalid.2
    have hread : read d' (a + offset) (strlen s (a + offset) (max + 1) + 1) =
        read d (a + offset) (strlen s (a + offset) (max + 1) + 1) :=
      read_eqOn (h.mono (Set.Ico_subset_Ico_right (by
        show _ ≤ a + offset + (max + 1)
        omega)))
    exact hread.trans hsame
  | struct offset c size ms ih =>
    intro level s d d' a hok hvalid h hsame i hi
    obtain ⟨-, -, -, hin, hok⟩ := hok
    exact (hsame i hi).congr ih hok (hvalid.2 i hi)
      (h.mono (area_subset hin (hi.trans_le (Count.value_le s a hvalid.1))))

end Member

end DragonQ6A.Qmi
