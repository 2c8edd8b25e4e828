import DragonQ6A.C.Scanf
import DragonQ6A.Display.ForceMode

/-!
# The form of the forced mode

The header of `ChoseForcedOrPreferredConfig` promises the preferred mode for a malformed property,
and its format is documented as `WxH` or `WxH@R`.  `sscanf` stops at the first mismatch and reports
only how many numbers it has read, so that a value is taken for a mode as soon as it starts with a
size: this is where the two differ.
-/

open C

namespace DragonQ6A.Display

/-! ## Reading the property -/

/-- `sscanf(s, "%ux%u@%f", &want_w, &want_h, &want_r)`, with the variables initialised to 0. -/
def sscanf (round : ℚ → C.Float) (s : String) : Scanned :=
  match scanUnsigned s.toList with
  | none => ⟨if s.toList.dropWhile isspace = [] then -1 else 0, 0, 0, .fin 0⟩
  | some (w, l) =>
    match (scanLiteral 'x' l).bind scanUnsigned with
    | none => ⟨1, w, 0, .fin 0⟩
    | some (h, l) =>
      match (scanLiteral '@' l).bind (scanFloat round) with
      | none => ⟨2, w, h, .fin 0⟩
      | some (r, _) => ⟨3, w, h, r⟩

/-- What the loop is entered with, if it is. -/
def considered (sscanf : String → Scanned) (v : String) : Option Scanned :=
  if v = "" then none
  else
    let s := sscanf v
    if s.parsed < 2 ∨ s.want_w = 0 ∨ s.want_h = 0 then none else some s

/-- The loop, and what is returned after it. -/
def search (s : Scanned) (configs : HwcDisplayConfigs) : UInt32 :=
  let best := configs.hwc_configs.foldl (visit s) ⟨0, .fin 0⟩
  if best.best_id ≠ 0 ∧ (s.parsed < 3 ∨ best.best_diff.le (.fin (3 / 2))) then best.best_id
  else configs.preferred_config_id

theorem choseForcedOrPreferredConfig_eq (sscanf : String → Scanned) (property_get : String → String)
    {d : HwcDisplay} (hhead : d.headless = false) :
    choseForcedOrPreferredConfig sscanf property_get d =
      match considered sscanf (forced property_get) with
      | none => d.configs.preferred_config_id
      | some s => search s d.configs := by
  unfold choseForcedOrPreferredConfig considered
  dsimp only
  rw [hhead, if_neg Bool.false_ne_true]
  by_cases hempty : forced property_get = ""
  · rw [if_pos hempty, if_pos hempty]
  · rw [if_neg hempty, if_neg hempty]
    by_cases hread : (sscanf (forced property_get)).parsed < 2 ∨
        (sscanf (forced property_get)).want_w = 0 ∨ (sscanf (forced property_get)).want_h = 0
    · rw [if_pos hread, if_pos hread]
    · rw [if_neg hread, if_neg hread]
      rfl

/-! ## The documented form -/

/-- The digits of a number from 1 to `2 ^ 32 - 1`. -/
structure Size (ds : List Char) (n : UInt32) : Prop where
  digits : Digits ds
  number_eq : number 10 ds = n.toNat
  ne_zero : n ≠ 0

/-- `WxH` or `WxH@R`. -/
inductive Form (round : ℚ → C.Float) : List Char → Request → Prop
  | size {w h : List Char} {W H : UInt32} : Size w W → Size h H →
      Form round (w ++ 'x' :: h) ⟨W, H, none⟩
  | rate {w h r : List Char} {W H : UInt32} {R : ℚ} : Size w W → Size h H → Decimal r R →
      Form round (w ++ 'x' :: (h ++ '@' :: r)) ⟨W, H, some (round R)⟩

/-- With the value `v`, the configs are searched for `s`. -/
def Searches (round : ℚ → C.Float) (v : String) (s : Scanned) : Prop :=
  considered (sscanf round) v = some s ∧
    ∀ property_get d, forced property_get = v → d.headless = false →
      choseForcedOrPreferredConfig (sscanf round) property_get d = search s d.configs

/-- With the value `v`, the configs are not searched. -/
def KeepsPreferred (round : ℚ → C.Float) (v : String) : Prop :=
  considered (sscanf round) v = none ∧
    ∀ property_get d, forced property_get = v →
      choseForcedOrPreferredConfig (sscanf round) property_get d = d.configs.preferred_config_id

/-- What is promised for the value `v`. -/
structure AsDocumented (round : ℚ → C.Float) (v : String) : Prop where
  request : ∀ q, Form round v.toList q → Searches round v q.scanned
  malformed : (∀ q, ¬ Form round v.toList q) → KeepsPreferred round v

theorem searches_iff {round : ℚ → C.Float} {v : String} {s : Scanned} :
    Searches round v s ↔ considered (sscanf round) v = some s := by
  refine ⟨fun h => h.1, fun h => ⟨h, fun property_get d hforced hhead => ?_⟩⟩
  rw [choseForcedOrPreferredConfig_eq _ _ hhead, hforced, h]

theorem keepsPreferred_iff {round : ℚ → C.Float} {v : String} :
    KeepsPreferred round v ↔ considered (sscanf round) v = none := by
  refine ⟨fun h => h.1, fun h => ⟨h, fun property_get d hforced => ?_⟩⟩
  cases hhead : d.headless with
  | true => exact choseForcedOrPreferredConfig_headless _ _ hhead
  | false => rw [choseForcedOrPreferredConfig_eq _ _ hhead, hforced, h]

/-! ## What is taken for a mode -/

/-- A value that starts with two numbers joined by an `x`, neither a multiple of `2 ^ 32`. -/
structure Start (l : List Char) where
  w : Unsigned
  h : Unsigned
  rest : List Char
  eq_text : l = w.text ++ 'x' :: (h.text ++ rest)
  ends : Ends rest
  not_dvd_w : ¬ 2 ^ 32 ∣ w.toNat
  not_dvd_h : ¬ 2 ^ 32 ∣ h.toNat

/-- The numbers are digits only and below `2 ^ 32`, and nothing or a rate follows, up to the end. -/
structure Start.Regular {l : List Char} (s : Start l) : Prop where
  plain_w : s.w.Plain
  plain_h : s.h.Plain
  w_lt : s.w.toNat < 2 ^ 32
  h_lt : s.h.toNat < 2 ^ 32
  rest : s.rest = [] ∨ ∃ r R, s.rest = '@' :: r ∧ Decimal r R

theorem ends_nil : Ends [] := by simp [Ends]

theorem ends_cons {c : Char} (hc : c.isDigit = false) (l : List Char) : Ends (c :: l) := by
  simp [Ends, hc]

/-- What is read of a value that starts with two numbers. -/
theorem sscanf_text (round : ℚ → C.Float) {v : String} {w h : Unsigned} {rest : List Char}
    (hv : v.toList = w.text ++ 'x' :: (h.text ++ rest)) (hrest : Ends rest) :
    sscanf round v =
      match (scanLiteral '@' rest).bind (scanFloat round) with
      | none => ⟨2, w.value, h.value, .fin 0⟩
      | some (r, _) => ⟨3, w.value, h.value, r⟩ := by
  unfold sscanf
  rw [hv, w.scanUnsigned_text (ends_cons (by decide) _)]
  simp only [scanLiteral, if_true, Option.bind_some, h.scanUnsigned_text hrest]

theorem considered_of_start (round : ℚ → C.Float) {v : String} (s : Start v.toList) :
    considered (sscanf round) v = some (sscanf round v) := by
  have hne : v ≠ "" := by
    rintro rfl
    have h := s.eq_text
    simp at h
  have hw : s.w.value ≠ 0 := mt s.w.value_eq_zero_iff.1 s.not_dvd_w
  have hh : s.h.value ≠ 0 := mt s.h.value_eq_zero_iff.1 s.not_dvd_h
  have hread : ¬ ((sscanf round v).parsed < 2 ∨ (sscanf round v).want_w = 0 ∨
      (sscanf round v).want_h = 0) := by
    rw [sscanf_text round s.eq_text s.ends]
    split <;> simp [hw, hh]
  unfold considered
  rw [if_neg hne]
  exact if_neg hread

theorem scanLiteral_eq_some {c : Char} {l l' : List Char} (h : scanLiteral c l = some l') :
    l = c :: l' := by
  unfold scanLiteral at h
  split at h
  · split_ifs at h with hc
    rw [hc, Option.some.inj h]
  · cases h

/-- Two conversions succeed only if the value starts with two numbers. -/
theorem exists_text_of_parsed {round : ℚ → C.Float} {v : String}
    (h : 2 ≤ (sscanf round v).parsed) : ∃ (w h : Unsigned) (rest : List Char),
      v.toList = w.text ++ 'x' :: (h.text ++ rest) ∧ Ends rest := by
  unfold sscanf at h
  split at h
  · split_ifs at h <;> simp at h
  · next w l hw =>
    obtain ⟨uw, hv, -, -⟩ := scanUnsigned_eq_some_iff.1 hw
    split at h
    · simp at h
    · next n rest hn =>
      obtain ⟨l', hx, hn⟩ := Option.bind_eq_some_iff.1 hn
      obtain ⟨uh, rfl, hrest, -⟩ := scanUnsigned_eq_some_iff.1 hn
      refine ⟨uw, uh, rest, ?_, hrest⟩
      rw [hv, scanLiteral_eq_some hx]

theorem exists_start {round : ℚ → C.Float} {v : String} {s : Scanned}
    (h : considered (sscanf round) v = some s) : Nonempty (Start v.toList) := by
  unfold considered at h
  dsimp only at h
  split_ifs at h with hempty hread
  simp only [not_or, not_lt] at hread
  obtain ⟨hparsed, hw, hh⟩ := hread
  obtain ⟨uw, uh, rest, hv, hrest⟩ := exists_text_of_parsed hparsed
  rw [sscanf_text round hv hrest] at hw hh
  have hw' : uw.value ≠ 0 := by split at hw <;> exact hw
  have hh' : uh.value ≠ 0 := by split at hh <;> exact hh
  exact ⟨⟨uw, uh, rest, hv, hrest, mt uw.value_eq_zero_iff.2 hw', mt uh.value_eq_zero_iff.2 hh'⟩⟩

/-! ## Acceptance -/

theorem Size.value {ds : List Char} {n : UInt32} (h : Size ds n) :
    (Unsigned.ofDigits h.digits).value = n := by
  show UInt32.ofNat (number 10 ds) = n
  rw [h.number_eq, UInt32.ofNat_toNat]

theorem Size.not_dvd {ds : List Char} {n : UInt32} (h : Size ds n) :
    ¬ 2 ^ 32 ∣ (Unsigned.ofDigits h.digits).toNat := by
  rw [← Unsigned.value_eq_zero_iff, h.value]
  exact h.ne_zero

/-- A plain number below `2 ^ 32` that is not 0. -/
theorem size_of_plain {u : Unsigned} (hplain : u.Plain) (hlt : u.toNat < 2 ^ 32)
    (hdvd : ¬ 2 ^ 32 ∣ u.toNat) : Size u.text u.value := by
  obtain ⟨hblanks, hsign⟩ := hplain
  have htext : u.text = u.digits := by simp [Unsigned.text, hblanks, hsign, Sign.text]
  have hvalue : u.value = UInt32.ofNat u.toNat := by simp [Unsigned.value, hsign, Sign.apply]
  refine ⟨?_, ?_, mt u.value_eq_zero_iff.1 hdvd⟩
  · rw [htext]
    exact u.isDigits
  · rw [htext, hvalue, UInt32.toNat_ofNat_of_lt' hlt]
    rfl

/-- A value of the documented form is read as it is written. -/
theorem Form.considered {round : ℚ → C.Float} {v : String} {q : Request}
    (h : Form round v.toList q) : considered (sscanf round) v = some q.scanned := by
  generalize hl : v.toList = l at h
  cases h with
  | @size w h W H hw hh =>
    have hv : v.toList = (Unsigned.ofDigits hw.digits).text ++
        'x' :: ((Unsigned.ofDigits hh.digits).text ++ []) := by
      rw [hl, List.append_nil]
      rfl
    rw [considered_of_start round ⟨_, _, _, hv, ends_nil, hw.not_dvd, hh.not_dvd⟩,
      sscanf_text round hv ends_nil, hw.value, hh.value]
    rfl
  | @rate w h r W H R hw hh hr =>
    have hv : v.toList = (Unsigned.ofDigits hw.digits).text ++
        'x' :: ((Unsigned.ofDigits hh.digits).text ++ '@' :: r) := hl
    have hat : Ends ('@' :: r) := ends_cons (by decide) r
    rw [considered_of_start round ⟨_, _, _, hv, hat, hw.not_dvd, hh.not_dvd⟩,
      sscanf_text round hv hat, hw.value, hh.value]
    simp only [scanLiteral, if_true, Option.bind_some, hr.scanFloat]
    rfl

/-- A regular value is of the documented form. -/
theorem Start.Regular.exists_form {l : List Char} {s : Start l} (h : s.Regular)
    (round : ℚ → C.Float) : ∃ q, Form round l q := by
  have hw := size_of_plain h.plain_w h.w_lt s.not_dvd_w
  have hh := size_of_plain h.plain_h h.h_lt s.not_dvd_h
  rw [s.eq_text]
  rcases h.rest with hrest | ⟨r, R, hrest, hR⟩
  · rw [hrest, List.append_nil]
    exact ⟨_, .size hw hh⟩
  · rw [hrest]
    exact ⟨_, .rate hw hh hR⟩

theorem Size.toNat_lt {ds : List Char} {n : UInt32} (h : Size ds n) :
    (Unsigned.ofDigits h.digits).toNat < 2 ^ 32 :=
  h.number_eq.trans_lt n.toNat_lt

/-- A value that starts with two sizes starts with no other numbers. -/
theorem Start.regular_of_size {l w h rest : List Char} {W H : UInt32} (s : Start l)
    (hw : Size w W) (hh : Size h H) (hl : l = w ++ 'x' :: (h ++ rest)) (hends : Ends rest)
    (hrest : rest = [] ∨ ∃ r R, rest = '@' :: r ∧ Decimal r R) : s.Regular := by
  have hx : ∀ l' : List Char, Ends ('x' :: l') := ends_cons (by decide)
  have hstart : s.w.text ++ 'x' :: (s.h.text ++ s.rest) =
      (Unsigned.ofDigits hw.digits).text ++ 'x' :: ((Unsigned.ofDigits hh.digits).text ++ rest) :=
    s.eq_text.symm.trans hl
  obtain ⟨hw_eq, htail⟩ := Unsigned.eq_of_append (hx _) (hx _) hstart
  obtain ⟨hh_eq, hrest_eq⟩ := Unsigned.eq_of_append s.ends hends (List.cons.inj htail).2
  rw [← hrest_eq] at hrest
  refine ⟨?_, ?_, ?_, ?_, hrest⟩
  · rw [hw_eq]
    exact Unsigned.plain_ofDigits _
  · rw [hh_eq]
    exact Unsigned.plain_ofDigits _
  · rw [hw_eq]
    exact hw.toNat_lt
  · rw [hh_eq]
    exact hh.toNat_lt

/-- A value of the documented form is regular. -/
theorem Form.regular {round : ℚ → C.Float} {l : List Char} {q : Request} (h : Form round l q)
    (s : Start l) : s.Regular := by
  cases h with
  | @size w h W H hw hh =>
    exact s.regular_of_size hw hh (by rw [List.append_nil]) ends_nil (.inl rfl)
  | @rate w h r W H R hw hh hr =>
    exact s.regular_of_size hw hh rfl (ends_cons (by decide) r) (.inr ⟨r, R, rfl, hr⟩)

/-- A value that is read as documented is regular if it starts with two numbers at all. -/
theorem AsDocumented.regular {round : ℚ → C.Float} {v : String} (h : AsDocumented round v)
    (s : Start v.toList) : s.Regular := by
  by_cases hform : ∃ q, Form round v.toList q
  · obtain ⟨q, hq⟩ := hform
    exact hq.regular s
  · have hnone := keepsPreferred_iff.1 (h.malformed (not_exists.1 hform))
    rw [considered_of_start round s] at hnone
    cases hnone

theorem asDocumented_of_regular {round : ℚ → C.Float} {v : String}
    (h : ∀ s : Start v.toList, s.Regular) : AsDocumented round v := by
  refine ⟨fun q hq => searches_iff.2 hq.considered, fun hno => keepsPreferred_iff.2 ?_⟩
  cases hc : considered (sscanf round) v with
  | none => rfl
  | some s =>
    obtain ⟨start⟩ := exists_start hc
    obtain ⟨q, hq⟩ := (h start).exists_form round
    exact absurd hq (hno q)

/-- What is promised for a value is kept if and only if, should the value start with two numbers
joined by an `x` that are not multiples of `2 ^ 32`, these are plain and in range and only a rate
follows them. -/
theorem asDocumented_iff (round : ℚ → C.Float) (v : String) :
    AsDocumented round v ↔ ∀ s : Start v.toList, s.Regular :=
  ⟨fun h => h.regular, asDocumented_of_regular⟩

/-! ## A value that only starts well -/

/-- `androidboot.hwc.force_mode=1280x768@`, with the rate forgotten. -/
def forgottenRate (key : String) : String :=
  if key = "ro.boot.hwc.force_mode" then "1280x768@" else ""

theorem not_form_forgottenRate (q : Request) : ¬ Form .fin "1280x768@".toList q := by
  intro hform
  have hregular := hform.regular
    ⟨⟨[], .none, "1280".toList, by simp, by decide, by simp⟩,
      ⟨[], .none, "768".toList, by simp, by decide, by simp⟩, ['@'], rfl, ends_cons (by decide) _,
      by decide +kernel, by decide +kernel⟩
  rcases hregular.rest with h | ⟨r, R, h, hR⟩
  · cases h
  · cases h
    exact hR.ne_nil rfl

/-- The adapter's display leaves its preferred mode for the first one of this size. -/
theorem not_asDocumented_forgottenRate : ¬ AsDocumented .fin "1280x768@" := by
  intro h
  have hpreferred := (h.malformed not_form_forgottenRate).2 forgottenRate adapterDisplay (by decide)
  exact absurd hpreferred (by decide +kernel)

end DragonQ6A.Display
