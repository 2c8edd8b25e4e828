import Mathlib.Algebra.Order.Field.Rat
import Mathlib.Data.List.TakeWhile
import Mathlib.Data.Nat.Digits.Defs
import DragonQ6A.C.Float

/-!
# Scanning numbers

The conversions `%u` and `%f` of the C `scanf` functions, on a list of characters.  A conversion
skips white space and takes the longest input that a number can start with; if that is not a number
itself, the conversion fails.  `%u` wraps in 32 bits.  How `%f` rounds is a parameter.
-/

namespace C

/-- `isspace`, in the C locale. -/
def isspace (c : Char) : Bool := c = ' ' || (9 ≤ c.toNat && c.toNat ≤ 13)

/-- The value of a digit, possibly a hexadecimal one. -/
def digitVal (c : Char) : ℕ :=
  if c.isDigit then c.toNat - '0'.toNat else 10 + (c.toLower.toNat - 'a'.toNat)

def number (base : ℕ) (ds : List Char) : ℕ := Nat.ofDigits base (ds.map digitVal).reverse

inductive Sign
  | none
  | plus
  | minus
deriving DecidableEq

def Sign.text : Sign → List Char
  | none => []
  | plus => ['+']
  | minus => ['-']

def Sign.apply {α : Type} [Neg α] : Sign → α → α
  | minus, x => -x
  | _, x => x

def scanSign : List Char → Sign × List Char
  | '-' :: l => (.minus, l)
  | '+' :: l => (.plus, l)
  | l => (.none, l)

/-- `%u` -/
def scanUnsigned (l : List Char) : Option (UInt32 × List Char) :=
  let (sign, l) := scanSign (l.dropWhile isspace)
  let ds := l.takeWhile Char.isDigit
  if ds = [] then none
  else some (sign.apply (UInt32.ofNat (number 10 ds)), l.dropWhile Char.isDigit)

/-- Digits with at most one point. -/
def scanMantissa (base : ℕ) (isdigit : Char → Bool) (l : List Char) : Option (ℚ × List Char) :=
  let whole := l.takeWhile isdigit
  let (fraction, rest) :=
    match l.dropWhile isdigit with
    | '.' :: l => (l.takeWhile isdigit, l.dropWhile isdigit)
    | l => ([], l)
  if whole ++ fraction = [] then none
  else some (number base (whole ++ fraction) / (base : ℚ) ^ fraction.length, rest)

/-- An optional exponent. -/
def scanExponent (mark : Char) (l : List Char) : Option (ℤ × List Char) :=
  match l with
  | [] => some (0, [])
  | c :: rest =>
    if c.toLower ≠ mark then some (0, l)
    else
      let (sign, l) := scanSign rest
      let ds := l.takeWhile Char.isDigit
      if ds = [] then none
      else some (sign.apply (number 10 ds : ℤ), l.dropWhile Char.isDigit)

def scanReal (base radix : ℕ) (isdigit : Char → Bool) (mark : Char) (l : List Char) :
    Option (ℚ × List Char) :=
  (scanMantissa base isdigit l).bind fun (m, l) =>
    (scanExponent mark l).map fun (e, l) => (m * (radix : ℚ) ^ e, l)

/-- How far `l` spells `word`, in either case. -/
def spelled : (word l : List Char) → ℕ
  | w :: word, c :: l => if c.toLower = w then spelled word l + 1 else 0
  | _, _ => 0

/-- `inf` or `infinity` -/
def scanInf (l : List Char) : Option (List Char) :=
  let n := spelled "infinity".toList l
  if n = 3 ∨ n = 8 then some (l.drop n) else none

/-- `nan` or `nan(...)` -/
def scanNan (l : List Char) : Option (List Char) :=
  if spelled "nan".toList l < 3 then none
  else
    match l.drop 3 with
    | '(' :: l =>
      match l.dropWhile fun c => c.isAlphanum || c = '_' with
      | ')' :: l => some l
      | _ => none
    | l => some l

/-- Whether a number is marked as hexadecimal. -/
def isHex : List Char → Bool
  | '0' :: c :: _ => c.toLower = 'x'
  | _ => false

/-- `%f` -/
def scanFloat (round : ℚ → Float) (l : List Char) : Option (Float × List Char) :=
  let (sign, l) := scanSign (l.dropWhile isspace)
  match l.head?.map Char.toLower with
  | some 'i' => (scanInf l).map fun l => (.inf (sign = .minus), l)
  | some 'n' => (scanNan l).map fun l => (.nan, l)
  | _ =>
    let real :=
      if isHex l then scanReal 16 2 Char.isHexDigit 'p' (l.drop 2)
      else scanReal 10 10 Char.isDigit 'e' l
    real.map fun (q, l) => (round (sign.apply q), l)

/-- A character of the format that is neither white space nor a `%`. -/
def scanLiteral (c : Char) : List Char → Option (List Char)
  | c' :: l => if c' = c then some l else none
  | [] => none

/-! ## What the conversions take -/

/-- Decimal digits, at least one. -/
structure Digits (ds : List Char) : Prop where
  ne_nil : ds ≠ []
  isDigit : ∀ c ∈ ds, c.isDigit = true

theorem Digits.exists_cons {ds : List Char} (h : Digits ds) :
    ∃ d ds', ds = d :: ds' ∧ d.isDigit = true := by
  cases ds with
  | nil => exact absurd rfl h.ne_nil
  | cons d ds => exact ⟨d, ds, rfl, h.isDigit d List.mem_cons_self⟩

/-- No digit comes next. -/
def Ends (l : List Char) : Prop := ∀ c ∈ l.head?, c.isDigit = false

section Split

variable {p : Char → Bool} {l rest : List Char}

theorem takeWhile_split (hl : ∀ c ∈ l, p c = true) (hrest : ∀ c ∈ rest.head?, p c = false) :
    (l ++ rest).takeWhile p = l := by
  rw [List.takeWhile_append_of_pos hl]
  cases rest with
  | nil => simp
  | cons c rest =>
    have hc := hrest c rfl
    simp [hc]

theorem dropWhile_split (hl : ∀ c ∈ l, p c = true) (hrest : ∀ c ∈ rest.head?, p c = false) :
    (l ++ rest).dropWhile p = rest := by
  rw [List.dropWhile_append_of_pos hl]
  cases rest with
  | nil => simp
  | cons c rest =>
    have hc := hrest c rfl
    simp [hc]

theorem head?_dropWhile (p : Char → Bool) (l : List Char) :
    ∀ c ∈ (l.dropWhile p).head?, p c = false := by
  intro c hc
  have h := List.head?_dropWhile_not p l
  rw [Option.mem_def.1 hc] at h
  exact h

end Split

theorem isspace_of_isDigit {c : Char} (h : c.isDigit = true) : isspace c = false := by
  have hc := Char.isDigit_iff_toNat.1 h
  have hblank : c ≠ ' ' := by
    rintro rfl
    cases h
  simp at hc
  simp [isspace, hblank]
  omega

theorem toLower_of_isDigit {c : Char} (h : c.isDigit = true) : c.toLower = c := by
  have hc := Char.isDigit_iff_toNat.1 h
  simp at hc
  have hupper : ¬ (c.val ≥ 'A'.val ∧ c.val ≤ 'Z'.val) := by
    simp [UInt32.le_iff_toNat_le]
    omega
  exact dif_neg hupper

theorem scanSign_text (s : Sign) {ds : List Char} (hds : Digits ds) (rest : List Char) :
    scanSign (s.text ++ (ds ++ rest)) = (s, ds ++ rest) := by
  cases s with
  | plus => rfl
  | minus => rfl
  | none =>
    obtain ⟨d, ds, rfl, hd⟩ := hds.exists_cons
    have hplus : d ≠ '+' := by
      rintro rfl
      cases hd
    have hminus : d ≠ '-' := by
      rintro rfl
      cases hd
    simp [Sign.text, scanSign, hplus, hminus]

theorem text_scanSign (l : List Char) : (scanSign l).1.text ++ (scanSign l).2 = l := by
  unfold scanSign
  split <;> rfl

/-- A number as `%u` takes it. -/
structure Unsigned where
  blanks : List Char
  sign : Sign
  digits : List Char
  isspace_of_mem : ∀ c ∈ blanks, isspace c = true
  isDigits : Digits digits

namespace Unsigned

def text (u : Unsigned) : List Char := u.blanks ++ (u.sign.text ++ u.digits)

def toNat (u : Unsigned) : ℕ := number 10 u.digits

/-- What `%u` makes of it. -/
def value (u : Unsigned) : UInt32 := u.sign.apply (UInt32.ofNat u.toNat)

/-- It is digits only. -/
def Plain (u : Unsigned) : Prop := u.blanks = [] ∧ u.sign = .none

/-- The number that is written with the digits alone. -/
def ofDigits {ds : List Char} (h : Digits ds) : Unsigned := ⟨[], .none, ds, by simp, h⟩

theorem plain_ofDigits {ds : List Char} (h : Digits ds) : (ofDigits h).Plain := ⟨rfl, rfl⟩

theorem value_eq_zero_iff (u : Unsigned) : u.value = 0 ↔ 2 ^ 32 ∣ u.toNat := by
  have hzero : UInt32.ofNat u.toNat = 0 ↔ 2 ^ 32 ∣ u.toNat := by
    rw [← UInt32.toNat_inj, UInt32.toNat_ofNat', Nat.dvd_iff_mod_eq_zero]
    rfl
  have hneg : ∀ n : UInt32, -n = 0 ↔ n = 0 := fun n => UInt32.neg_inj (b := 0)
  unfold value Sign.apply
  cases u.sign <;> simp [hneg, hzero]

theorem isspace_head? (u : Unsigned) (rest : List Char) :
    ∀ c ∈ (u.sign.text ++ (u.digits ++ rest)).head?, isspace c = false := by
  obtain ⟨d, ds, hds, hd⟩ := u.isDigits.exists_cons
  have hspace := isspace_of_isDigit hd
  rw [hds]
  cases u.sign with
  | none => simpa [Sign.text] using hspace
  | plus => simp [Sign.text, isspace]
  | minus => simp [Sign.text, isspace]

theorem takeWhile_text (u : Unsigned) (rest : List Char) :
    (u.text ++ rest).takeWhile isspace = u.blanks := by
  unfold text
  rw [List.append_assoc, List.append_assoc]
  exact takeWhile_split u.isspace_of_mem (u.isspace_head? rest)

theorem dropWhile_text (u : Unsigned) (rest : List Char) :
    (u.text ++ rest).dropWhile isspace = u.sign.text ++ (u.digits ++ rest) := by
  unfold text
  rw [List.append_assoc, List.append_assoc]
  exact dropWhile_split u.isspace_of_mem (u.isspace_head? rest)

theorem scanUnsigned_text (u : Unsigned) {rest : List Char} (hrest : Ends rest) :
    scanUnsigned (u.text ++ rest) = some (u.value, rest) := by
  have htake := takeWhile_split u.isDigits.isDigit hrest
  have hdrop := dropWhile_split u.isDigits.isDigit hrest
  unfold scanUnsigned
  rw [u.dropWhile_text, scanSign_text u.sign u.isDigits]
  simp only [htake, hdrop, if_neg u.isDigits.ne_nil]
  rfl

/-- There is one number that an input starts with. -/
theorem eq_of_append {u u' : Unsigned} {rest rest' : List Char} (hrest : Ends rest)
    (hrest' : Ends rest') (h : u.text ++ rest = u'.text ++ rest') : u = u' ∧ rest = rest' := by
  have hblanks : u.blanks = u'.blanks := by
    rw [← u.takeWhile_text rest, h, u'.takeWhile_text]
  have hsign : (u.sign, u.digits ++ rest) = (u'.sign, u'.digits ++ rest') := by
    rw [← scanSign_text _ u.isDigits, ← scanSign_text _ u'.isDigits, ← u.dropWhile_text, h,
      u'.dropWhile_text]
  obtain ⟨hsign, hdigits⟩ := Prod.mk.inj hsign
  have htake : u.digits = u'.digits := by
    rw [← takeWhile_split u.isDigits.isDigit hrest, hdigits,
      takeWhile_split u'.isDigits.isDigit hrest']
  have hdrop : rest = rest' := by
    rw [← dropWhile_split u.isDigits.isDigit hrest, hdigits,
      dropWhile_split u'.isDigits.isDigit hrest']
  refine ⟨?_, hdrop⟩
  cases u
  cases u'
  congr

end Unsigned

theorem exists_unsigned {l rest : List Char} {n : UInt32} (h : scanUnsigned l = some (n, rest)) :
    ∃ u : Unsigned, l = u.text ++ rest ∧ Ends rest ∧ u.value = n := by
  unfold scanUnsigned at h
  dsimp only at h
  split_ifs at h with hds
  obtain ⟨hn, rfl⟩ := Prod.mk.inj (Option.some.inj h)
  refine ⟨⟨l.takeWhile isspace, (scanSign (l.dropWhile isspace)).1,
    (scanSign (l.dropWhile isspace)).2.takeWhile Char.isDigit, fun _ => List.mem_takeWhile_imp,
    ⟨hds, fun _ => List.mem_takeWhile_imp⟩⟩, ?_, head?_dropWhile _ _, hn⟩
  unfold Unsigned.text
  rw [List.append_assoc, List.append_assoc, List.takeWhile_append_dropWhile, text_scanSign,
    List.takeWhile_append_dropWhile]

/-- `%u` takes a number from the input if and only if the input starts with it. -/
theorem scanUnsigned_eq_some_iff {l rest : List Char} {n : UInt32} :
    scanUnsigned l = some (n, rest) ↔
      ∃ u : Unsigned, l = u.text ++ rest ∧ Ends rest ∧ u.value = n := by
  constructor
  · exact exists_unsigned
  · rintro ⟨u, rfl, hrest, rfl⟩
    exact u.scanUnsigned_text hrest

example : scanUnsigned " -1x768".toList = some (4294967295, "x768".toList) := by decide +kernel

/-- A decimal number: digits, and among them or at an end possibly a point. -/
inductive Decimal : List Char → ℚ → Prop
  | whole {ds : List Char} : Digits ds → Decimal ds (number 10 ds)
  | point {ds fs : List Char} : Digits (ds ++ fs) →
      Decimal (ds ++ '.' :: fs) (number 10 (ds ++ fs) / 10 ^ fs.length)

theorem Decimal.ne_nil {l : List Char} {q : ℚ} (h : Decimal l q) : l ≠ [] := by
  cases h with
  | whole hds => exact hds.ne_nil
  | point _ => simp

theorem Decimal.isDigit_or {l : List Char} {q : ℚ} (h : Decimal l q) :
    ∀ c ∈ l, c.isDigit = true ∨ c = '.' := by
  intro c hc
  cases h with
  | whole hds => exact .inl (hds.isDigit c hc)
  | @point ds fs hdigits =>
    rw [List.mem_append, List.mem_cons] at hc
    rcases hc with hc | rfl | hc
    · exact .inl (hdigits.isDigit c (List.mem_append_left _ hc))
    · exact .inr rfl
    · exact .inl (hdigits.isDigit c (List.mem_append_right _ hc))

/-- No character of a decimal number is taken for something else. -/
theorem toLower_of_decimal {c : Char} (h : c.isDigit = true ∨ c = '.') :
    c.toLower = c ∧ isspace c = false ∧ c ∉ ['+', '-', 'i', 'n', 'x'] := by
  rcases h with h | rfl
  · refine ⟨toLower_of_isDigit h, isspace_of_isDigit h, fun hc => ?_⟩
    simp only [List.mem_cons, List.not_mem_nil, or_false] at hc
    rcases hc with rfl | rfl | rfl | rfl | rfl <;> cases h
  · decide

theorem Decimal.scanMantissa {l : List Char} {q : ℚ} (h : Decimal l q) :
    scanMantissa 10 Char.isDigit l = some (q, []) := by
  unfold C.scanMantissa
  cases h with
  | whole hds =>
    have htake := List.takeWhile_eq_self_iff.2 hds.isDigit
    have hdrop := List.dropWhile_eq_nil_iff.2 hds.isDigit
    simp [htake, hdrop, hds.ne_nil]
  | @point ds fs hdigits =>
    have hds : ∀ c ∈ ds, c.isDigit = true := fun c hc =>
      hdigits.isDigit c (List.mem_append_left _ hc)
    have hfs : ∀ c ∈ fs, c.isDigit = true := fun c hc =>
      hdigits.isDigit c (List.mem_append_right _ hc)
    have hpoint : ∀ c ∈ ('.' :: fs).head?, c.isDigit = false := by simp
    have htake := List.takeWhile_eq_self_iff.2 hfs
    have hdrop := List.dropWhile_eq_nil_iff.2 hfs
    have hne : ds ++ fs ≠ [] := hdigits.ne_nil
    simp only [takeWhile_split hds hpoint, dropWhile_split hds hpoint, htake, hdrop, if_neg hne]
    norm_num

/-- `%f` takes all of a decimal number. -/
theorem Decimal.scanFloat {l : List Char} {q : ℚ} (h : Decimal l q) (round : ℚ → Float) :
    scanFloat round l = some (round q, []) := by
  have hmantissa := h.scanMantissa
  have hchar := fun c hc => toLower_of_decimal (h.isDigit_or c hc)
  cases l with
  | nil => exact absurd rfl h.ne_nil
  | cons c l =>
    obtain ⟨hlower, hspace, hc⟩ := hchar c List.mem_cons_self
    simp only [List.mem_cons, List.not_mem_nil, or_false, not_or] at hc
    have hhex : isHex (c :: l) = false := by
      unfold isHex
      split
      · next c' l' heq =>
        obtain ⟨hlower', -, hc'⟩ := hchar c' (by simp [heq])
        rw [hlower']
        simpa using fun hx => hc' (by simp [hx])
      · rfl
    have hskip : (c :: l).dropWhile isspace = c :: l := by simp [hspace]
    have hsign : scanSign (c :: l) = (.none, c :: l) := by simp [scanSign, hc]
    unfold C.scanFloat
    simp [hskip, hsign, hlower, hc, hhex, scanReal, hmantissa, scanExponent, Sign.apply]

end C
