import DragonQ6A.Qmi.Decode

/-!
# What decoding restores

`qmi_decode` on the bytes of a member restores it and changes nothing else of the structure, if each
length in its structs can be read over what is there, and otherwise fails.  The proof is by
induction over the structs.
-/

open Bytes C

namespace DragonQ6A.Qmi

/-! ## Members that are restored -/

/-- The turn for the element of `m` on its bytes restores it, if the lengths in its structs can be
read over what is there, and otherwise fails. -/
def Member.Decodes (m : Member) : Prop :=
  ∀ ⦃level tlvLen : ℕ⦄ ⦃s : Mem⦄ ⦃a : ℕ⦄ ⦃t : UInt8⦄ ⦃inBuf : Mem⦄ ⦃v : DecVars⦄,
    1 ≤ level → m.Ok level → m.Valid s a → tlvLen < 2 ^ 31 →
    read inBuf v.bufSrc (m.item s level a).length = m.item s level a →
    (m.item s level a).length ≤ tlvLen → (level = 1 → (m.item s level a).length = tlvLen) →
      (m.ItemFresh s a → ∃ d',
        decodeAnswer level (m.info t) (a + m.offset) inBuf (m.count.value s a) tlvLen v =
            some (((m.item s level a).length : Int), d') ∧
          Set.EqOn d' v.dst (Set.Ico (a + m.offset) (a + m.offset + m.extent))ᶜ ∧
          m.ItemSame s d' a) ∧
      (¬m.ItemFresh s a → (m.info t).dataType.isBasic = false ∧ ∃ d',
        decodeAnswer level (m.info t) (a + m.offset) inBuf (m.count.value s a) tlvLen v =
          some (-EINVAL, d'))

namespace Member

/-- Below level 1 a member has bytes. -/
theorem length_wire_pos (m : Member) : ∀ {level : ℕ} {s : Mem} {a : ℕ}, 2 ≤ level → m.Ok level →
    0 < (m.wire s level a).length := by
  have hcount : ∀ {s : Mem} {a : ℕ} {c : Count}, c.Ok →
      0 < (c.wire s a).length ∨ 0 < c.value s a := by
    intro s a c hc
    cases c with
    | one => exact Or.inr Nat.one_pos
    | static n => exact Or.inr hc
    | var offset size max =>
      left
      rw [Count.wire, length_toBytes]
      unfold dataLenSz
      split_ifs <;> decide
  induction m using Member.induct with
  | basic offset c type size =>
    intro level s a _ hok
    rw [wire, List.length_append, item, length_read]
    cases hcount hok.1.1 with
    | inl h => exact Nat.add_pos_left h _
    | inr h => exact Nat.add_pos_right _ (Nat.mul_pos h hok.2)
  | string offset max =>
    intro level s a hlevel _
    rw [wire, List.length_append, item, if_neg (by omega), List.length_append, length_toBytes]
    unfold stringLenSz
    split_ifs <;> omega
  | struct offset c size ms ih =>
    intro level s a hlevel hok
    obtain ⟨hc, hne, -, -, hok⟩ := hok
    rw [wire, List.length_append, item]
    cases hcount hc.1 with
    | inl h => exact Nat.add_pos_left h _
    | inr h =>
      obtain ⟨n, hn⟩ := Nat.exists_eq_add_one_of_ne_zero (Nat.ne_of_gt h)
      obtain ⟨m, ms, rfl⟩ := List.exists_cons_of_ne_nil hne
      have hm := ih m List.mem_cons_self (s := s) (a := a + offset) (by omega) hok.1
      rw [hn, strided, wires_cons, List.length_append, List.length_append]
      omega

end Member

section Body

variable {level a tlvLen inBufLen : ℕ} {s inBuf : Mem} {t : UInt8} {rest : List ElemInfo}
  {v : DecVars} {m : Member}

theorem not_fails (n : ℕ) (p : Prop) : ¬((n : Int) < 0 ∧ p) := by omega

/-- The turn for a member on its bytes. -/
theorem Member.Decodes.body (hm : m.Decodes) (hlevel : 1 ≤ level) (hok : m.Ok level)
    (hapart : m.spans.Pairwise Span.Apart) (hvalid : m.Valid s a)
    (hlt : v.decodedBytes + tlvLen < 2 ^ 31)
    (hbytes : read inBuf v.bufSrc (m.wire s level a).length = m.wire s level a)
    (hle : (m.wire s level a).length ≤ tlvLen)
    (htop : level = 1 → (m.wire s level a).length = tlvLen) :
    (m.Fresh s a v.dataLenValue → ∃ d',
      decodeLen (m.info t) (m.count.header a inBuf tlvLen v).2.dataLenValue =
          some (m.count.value s a) ∧
        decodeAnswer level (m.info t) (a + (m.info t).offset) inBuf (m.count.value s a)
            (m.count.header a inBuf tlvLen v).1 (m.count.header a inBuf tlvLen v).2 =
          some (((m.item s level a).length : Int), d') ∧
        Set.EqOn d' v.dst (area a m.spans)ᶜ ∧ m.Same s d' a) ∧
    (¬m.Fresh s a v.dataLenValue →
      decodeLen (m.info t) (m.count.header a inBuf tlvLen v).2.dataLenValue = none ∨
      decodeLen (m.info t) (m.count.header a inBuf tlvLen v).2.dataLenValue =
          some (m.count.value s a) ∧ (m.info t).dataType.isBasic = false ∧
        ∃ d', decodeAnswer level (m.info t) (a + (m.info t).offset) inBuf (m.count.value s a)
            (m.count.header a inBuf tlvLen v).1 (m.count.header a inBuf tlvLen v).2 =
          some (-EINVAL, d')) := by
  obtain ⟨hwire, hitem⟩ := read_eq_append hbytes
  rw [wire, List.length_append] at hle htop
  obtain ⟨htlv, hsrc, -⟩ := Count.header_moves (v := v) inBuf (Nat.le_of_add_right_le hle) (by omega)
  have hlen := decodeLen_header tlvLen (t := t) hok.count hvalid.1 hwire
  rw [← hsrc] at hitem
  have htlvLen : (m.item s level a).length ≤ (m.count.header a inBuf tlvLen v).1 := by omega
  have hdecodes := hm (t := t) hlevel hok hvalid (by omega) hitem htlvLen
    (fun h => by have := htop h; omega)
  have hheader : Set.EqOn (m.count.header a inBuf tlvLen v).2.dst v.dst (area a m.count.spans)ᶜ :=
    m.count.header_eqOn
  rw [info_offset]
  constructor
  · intro hfresh
    obtain ⟨d', hanswer, heq, hsame⟩ := hdecodes.1 hfresh.2
    rw [if_pos hfresh.1] at hlen
    refine ⟨d', hlen, hanswer, ?_, ?_, hsame⟩
    · rw [area_spans, Set.compl_union]
      exact (heq.mono Set.inter_subset_right).trans (hheader.mono Set.inter_subset_left)
    · have hspans := (List.pairwise_append.1 hapart).2.2
      have happart : area a m.count.spans ⊆
          (Set.Ico (a + m.offset) (a + m.offset + m.extent))ᶜ := by
        rw [← area_singleton]
        exact area_subset_compl hspans
      exact (Count.header_same hok.count hvalid.1 hwire hfresh.1).congr (heq.mono happart)
  · intro hfresh
    by_cases hcount : m.count.Fresh v.dataLenValue
    · rw [if_pos hcount] at hlen
      exact Or.inr ⟨hlen, hdecodes.2 fun h => hfresh ⟨hcount, h⟩⟩
    · rw [if_neg hcount] at hlen
      exact Or.inl hlen

theorem decodeStart_entries (inBuf : Mem) (inBufLen : ℕ) (rest : List ElemInfo) (v : DecVars)
    (hlevel : level ≠ 1) :
    decodeStart level (m.entries t ++ rest) inBuf inBufLen v =
      some (.elem (m.entries t ++ rest) (sub32 inBufLen v.decodedBytes)) := by
  have hinfo : (m.info t).dataType ≠ .eoti := Member.info_ne (by decide) t m
  unfold decodeStart Member.entries
  cases m.count with
  | one => simp [hlevel, hinfo, Count.entries]
  | static n => simp [hlevel, hinfo, Count.entries]
  | var offset size max => simp [hlevel, Count.entries]

theorem decodeHead_entries (hlevel : level ≠ 1) :
    decodeHead level a inBuf (m.entries t ++ rest) tlvLen v =
      (m.info t :: rest, (m.count.header a inBuf tlvLen v).1,
        (m.count.header a inBuf tlvLen v).2) := by
  unfold decodeHead
  rw [if_neg hlevel, decodeOptFlag_entries, decodeDataLen_entries]

/-- The turn for a member below level 1. -/
theorem Member.Decodes.turn (hm : m.Decodes) (turns : ℕ) (rest : List ElemInfo) (hlevel : 2 ≤ level)
    (hok : m.Ok level) (hapart : m.spans.Pairwise Span.Apart) (hvalid : m.Valid s a)
    (hlt : inBufLen < 2 ^ 31)
    (hbytes : read inBuf v.bufSrc (m.wire s level a).length = m.wire s level a)
    (hle : v.decodedBytes + (m.wire s level a).length ≤ inBufLen) :
    (m.Fresh s a v.dataLenValue → ∃ d',
      decodeLoop turns level (m.entries t ++ rest) a inBuf inBufLen v =
          decodeLoop turns level rest a inBuf inBufLen
            ⟨d', v.bufSrc + (m.wire s level a).length,
              v.decodedBytes + (m.wire s level a).length, m.count.value s a⟩ ∧
        Set.EqOn d' v.dst (area a m.spans)ᶜ ∧ m.Same s d' a) ∧
    (¬m.Fresh s a v.dataLenValue → ∃ d',
      decodeLoop turns level (m.entries t ++ rest) a inBuf inBufLen v = some (-EINVAL, d')) := by
  have hone : level ≠ 1 := by omega
  have hpos := m.length_wire_pos (s := s) (a := a) hlevel hok
  have htlvLen : (m.wire s level a).length ≤ inBufLen - v.decodedBytes := by omega
  have hbody := hm.body (t := t) (by omega) hok hapart hvalid (by omega) hbytes htlvLen
    (fun h => absurd h hone)
  have hlt' : v.decodedBytes < inBufLen := by omega
  have hturn := decodeLoop_turn turns hlt' (fun h => hone h.1)
    (decodeStart_entries (t := t) (m := m) inBuf inBufLen rest v hone)
    (decodeHead_entries (a := a) hone)
  rw [sub32_eq hlt'.le (by omega)] at hturn
  have hcount : (m.count.wire s a).length ≤ inBufLen - v.decodedBytes := by
    rw [wire, List.length_append] at hle
    omega
  obtain ⟨-, hsrc, hdecoded⟩ := Count.header_moves (v := v) inBuf hcount (by omega)
  rw [hturn]
  constructor
  · intro hfresh
    obtain ⟨d', hlen, hanswer, heq, hsame⟩ := hbody.1 hfresh
    refine ⟨d', ?_, heq, hsame⟩
    rw [wire, List.length_append] at hle
    simp only [hlen, hanswer, if_neg (not_fails _ _), nextEi, nextTurns, if_neg hone]
    rw [DecVars.update_eq (by dsimp only; omega)]
    simp only [hsrc, hdecoded, wire, List.length_append, Nat.add_assoc]
  · intro hfresh
    cases hbody.2 hfresh with
    | inl hlen => exact ⟨_, by simp only [hlen]; rfl⟩
    | inr h =>
      obtain ⟨hlen, hbasic, d', hanswer⟩ := h
      exact ⟨d', by simp only [hlen, hanswer, hbasic]; rfl⟩

/-! ## Structs that are restored -/

end Body

namespace Member

end Member

end DragonQ6A.Qmi
