import Mathlib.Data.List.Forall2
import DragonQ6A.Image.Gensdimg
import DragonQ6A.Layout.Place

/-!
# The fixed partitions

What `add_part` does without `FILL_REST`: the sectors its partition takes are those of an aligned
placement, and what it writes stays inside.  So the partitions of a run are the placement of the
file sizes, and each of them still holds its file at the end.
-/

open Layout Shell

namespace DragonQ6A.Image

/-- The sectors a file of `n` bytes takes. -/
def sectorsOf (n : ℕ) : ℕ := (n + 511) / 512

theorem sectorsOf_pos {n : ℕ} (h : 0 < n) : 0 < sectorsOf n := by
  unfold sectorsOf
  omega

theorem le_sectorsOf (n : ℕ) : n ≤ 512 * sectorsOf n := by
  unfold sectorsOf
  omega

theorem holds_stat (f : File) : Holds f.stat f.size := holds_ofNat f.size_lt

/-! ## One call -/

section Call

variable {t : Tools} {s s' : Script} {f : File} {name : String} {q : ℕ}

theorem holds_ddCount (f : File) : Holds (ddCount f.stat) (f.size / 4096 + 1) := by
  have hlt := (holds_stat f).lt
  exact ((holds_stat f).div (n := 4096) (by decide)).add (n := 1) (by decide) (by omega)

theorem holds_ddSeek (hP : Holds s.PTR (512 * q)) : Holds (ddSeek s) (512 * q / 4096) :=
  hP.div (n := 4096) (by decide)

/-- `dd` writes the whole file at `PTR`, although its `count` may be one block too many. -/
theorem ddCovers_iff (hP : Holds s.PTR (512 * q)) (hq : 2048 ∣ q) {i : ℕ} :
    DdCovers f (ddCount f.stat) (ddSeek s) i ↔ 512 * q ≤ i ∧ i < 512 * q + f.size := by
  have hcount := holds_ddCount f
  have hseek := holds_ddSeek hP
  unfold Holds at hcount hseek
  unfold DdCovers
  rw [hcount, hseek]
  omega

theorem createPart_fixed {d : Disk} (h : createPart t s f.stat name "" = some d)
    (hP : Holds s.PTR (512 * q)) (hq : 0 < q) (hf : 0 < f.size) :
    q + sectorsOf f.size ≤ s.disk.sectors - 33 ∧ 34 ≤ q ∧
      s.disk.AddsPart ⟨s.pn, ⟨q, q + sectorsOf f.size - 1⟩, name⟩ d := by
  rw [createPart, if_pos rfl] at h
  obtain ⟨⟨first, last⟩, hfirst, hlast, hle, hu, hu', hadds⟩ := t.new_spec h
  dsimp only at hfirst hlast hle hu hu'
  have hq' : Holds (s.PTR / 512) (512 * q / 512) := hP.div (n := 512) (by decide)
  unfold Holds at hq'
  rw [hfirst] at hq'
  have hfirst' : first = q := by omega
  -- the end did not wrap: it would be in front of the start
  have hend : Holds ((s.PTR + f.stat - 1) / 512) ((512 * q + f.size - 1) / 512) := by
    rcases hP.add_sub_one (holds_stat f) (by omega) with hsum | hneg
    · exact hsum.div (n := 512) (by decide)
    · have := div_nonpos (y := 512) (n := 512) hneg (by decide)
      omega
  unfold Holds at hend
  rw [hlast] at hend
  have hlast' : last = q + sectorsOf f.size - 1 := by
    unfold sectorsOf
    omega
  subst hfirst' hlast'
  have hpos := sectorsOf_pos hf
  have h₁ := hu.1
  have h₂ := hu'.2
  exact ⟨by omega, h₁, hadds⟩

/-- `dd` stays inside the image and away from the tables when the sectors of the file are usable. -/
theorem dd_usable {d : Disk} (t : Tools) (hP : Holds s.PTR (512 * q)) (hdvd : 2048 ∣ q)
    (hlow : 34 ≤ q) (hfits : q + sectorsOf f.size ≤ d.sectors - 33) :
    (t.dd d f (ddCount f.stat) (ddSeek s)).size = d.size ∧
      (t.dd d f (ddCount f.stat) (ddSeek s)).parts = d.parts := by
  have hsectors : 512 * d.sectors ≤ d.size := Nat.mul_div_le d.size 512
  have hsize := le_sectorsOf f.size
  have hdd := t.dd_spec d f (holds_ddCount f).nonneg (holds_ddSeek hP).nonneg
  refine ⟨hdd.size fun i hi => ?_, hdd.parts fun i hi hin => ?_⟩
  · have := (ddCovers_iff hP hdvd).1 hi
    omega
  · have := (ddCovers_iff hP hdvd).1 hi
    apply hin
    unfold Disk.Usable
    omega

/-- `dd` puts the file at `PTR` and leaves what is in front of it. -/
theorem dd_bytes (t : Tools) (d : Disk) (hP : Holds s.PTR (512 * q)) (hdvd : 2048 ∣ q) :
    (∀ k < f.size, f.bytes[k]? =
        some ((t.dd d f (ddCount f.stat) (ddSeek s)).bytes (512 * q + k))) ∧
      ∀ i < 512 * q, (t.dd d f (ddCount f.stat) (ddSeek s)).bytes i = d.bytes i := by
  have hseek := holds_ddSeek hP
  have hdd := t.dd_spec d f (holds_ddCount f).nonneg hseek.nonneg
  refine ⟨fun k hk => ?_, fun i hlt => hdd.other i fun hi => ?_⟩
  · have hcov := hdd.covered (512 * q + k) ((ddCovers_iff hP hdvd).2 (by omega))
    have hk' : 512 * q + k - ((512 * q / 4096 : ℕ) : ℤ).toNat * 4096 = k := by omega
    unfold Holds at hseek
    rwa [hseek, hk'] at hcov
  · have := (ddCovers_iff hP hdvd).1 hi
    omega

/-- The next `PTR` is the next multiple of 1 MiB. -/
theorem holds_nextPtr (hP : Holds s.PTR (512 * q))
    (hroom : 512 * q + f.size + 1048576 < 2 ^ 63) :
    Holds ((s.PTR + f.stat + ALIGN - 1) / ALIGN * ALIGN)
      (512 * up 2048 (q + sectorsOf f.size)) := by
  have hsum := ((hP.add (holds_stat f) (by omega)).add (n := 1048576) (y := ALIGN) (by decide)
    (by omega)).sub (n := 1) (y := 1) (by decide) (by omega)
  have hup := (hsum.div (n := 1048576) (y := ALIGN) (by decide)).mul (n := 1048576) (y := ALIGN)
    (by decide) (by omega)
  have heq : (512 * q + f.size + 1048576 - 1) / 1048576 * 1048576 =
      512 * up 2048 (q + sectorsOf f.size) := by
    unfold up sectorsOf
    omega
  rwa [heq] at hup

/-- What a call of `add_part` from sector `q` on does. -/
structure AddsAt (s : Script) (f : File) (name : String) (q : ℕ) (s' : Script) : Prop where
  fits : q + sectorsOf f.size ≤ s.disk.sectors - 33
  size : s'.disk.size = s.disk.size
  parts : s'.disk.parts = s.disk.parts ++ [⟨s.pn, ⟨q, q + sectorsOf f.size - 1⟩, name⟩]
  content : ∀ k < f.size, f.bytes[k]? = some (s'.disk.bytes (512 * q + k))
  other : ∀ i, ¬ s.disk.InTables i → i < 512 * q → s'.disk.bytes i = s.disk.bytes i
  ptr : Holds s'.PTR (512 * up 2048 (q + sectorsOf f.size))

theorem addPart_fixed (h : addPart t s f name "" = some s') (hP : Holds s.PTR (512 * q))
    (hdvd : 2048 ∣ q) (hq : 0 < q) (hf : 0 < f.size) (hroom : s.disk.size + 1048576 ≤ 2 ^ 63) :
    AddsAt s f name q s' := by
  unfold addPart at h
  obtain ⟨d, hd, hs'⟩ := Option.bind_eq_some_iff.1 h
  obtain rfl := Option.some.inj hs'
  obtain ⟨hfits, hlow, hadds⟩ := createPart_fixed hd hP hq hf
  have hsectors : d.sectors = s.disk.sectors := congrArg (· / 512) hadds.size
  obtain ⟨hsize, hparts⟩ := dd_usable (f := f) t hP hdvd hlow (hsectors ▸ hfits)
  obtain ⟨hcontent, hother⟩ := dd_bytes (f := f) t d hP hdvd
  refine ⟨hfits, hsize.trans hadds.size, hparts.trans hadds.parts, hcontent, ?_, ?_⟩
  · exact fun i hi hlt => (hother i hlt).trans (hadds.bytes i hi)
  · have hbytes := le_sectorsOf f.size
    have hend : 512 * s.disk.sectors ≤ s.disk.size := Nat.mul_div_le s.disk.size 512
    exact holds_nextPtr hP (by omega)

end Call

/-! ## A run of calls -/

/-- A call of `add_part` without `FILL_REST`. -/
structure Added where
  before : Script
  file : File
  name : String

/-- The runs of successful calls from `s₀`. -/
inductive Adds (t : Tools) (s₀ : Script) : List Added → Script → Prop
  | nil : Adds t s₀ [] s₀
  | add {cs : List Added} {s s' : Script} {file : File} {name : String} :
      Adds t s₀ cs s → addPart t s file name "" = some s' →
      Adds t s₀ (cs ++ [⟨s, file, name⟩]) s'

/-- The partition `p` is where the call `c` wanted it: it starts at `PTR`, a multiple of 1 MiB,
covers the file with less than a sector to spare, and contains all that `dd` wrote. -/
structure Placed (c : Added) (p : Part) : Prop where
  number : p.number = c.before.pn
  name : p.name = c.name
  aligned : (1048576 : ℤ) ∣ c.before.PTR.toInt
  sector_exact : (c.before.PTR / 512).toInt * 512 = c.before.PTR.toInt
  block_exact : (c.before.PTR / 4096).toInt * 4096 = c.before.PTR.toInt
  start : (512 * p.range.first : ℤ) = c.before.PTR.toInt
  covers : 512 * p.range.first + c.file.size ≤ 512 * (p.range.last + 1)
  slack : 512 * (p.range.last + 1) < 512 * p.range.first + c.file.size + 512
  writes : ∀ i, DdCovers c.file (ddCount c.file.stat) (ddSeek c.before) i →
    512 * p.range.first ≤ i ∧ i < 512 * (p.range.last + 1)

/-- The partition `p` starts with the file of the call `c`. -/
def Intact (d : Disk) (c : Added) (p : Part) : Prop :=
  ∀ k < c.file.size, c.file.bytes[k]? = some (d.bytes (512 * p.range.first + k))

/-- The sectors the files of a run take. -/
def lengths (cs : List Added) : List ℕ := cs.map fun c => sectorsOf c.file.size

theorem placed_at {s : Script} {f : File} {q : ℕ} (name : String)
    (hP : Holds s.PTR (512 * q)) (hq : 2048 ∣ q) (hf : 0 < f.size) :
    Placed ⟨s, f, name⟩ ⟨s.pn, ⟨q, q + sectorsOf f.size - 1⟩, name⟩ := by
  have hsector : Holds (s.PTR / 512) (512 * q / 512) := hP.div (n := 512) (by decide)
  have hblock : Holds (s.PTR / 4096) (512 * q / 4096) := hP.div (n := 4096) (by decide)
  have hcover := fun i => ddCovers_iff (f := f) hP hq (i := i)
  unfold Holds at hP hsector hblock
  unfold sectorsOf
  refine ⟨rfl, rfl, ?_, ?_, ?_, ?_, ?_, ?_, ?_⟩
  · rw [hP]
    omega
  · rw [hP, hsector]
    omega
  · rw [hP, hblock]
    omega
  · rw [hP]
    push_cast
    rfl
  · dsimp only
    omega
  · dsimp only
    omega
  · intro i hi
    have := (hcover i).1 hi
    dsimp only
    omega

/-- The partition `p` is placed, lies in the usable area in front of sector `q`, and is intact. -/
structure Held (d : Disk) (q : ℕ) (c : Added) (p : Part) : Prop where
  placed : Placed c p
  low : 34 ≤ p.range.first
  high : p.range.last < d.sectors - 33
  below : p.range.last < q
  intact : Intact d c p

/-- Whatever is written from sector `q` on or in the tables, the partitions in front of it keep. -/
theorem Held.keep {d d' : Disk} {q q' : ℕ} {c : Added} {p : Part} (h : Held d q c p)
    (hsize : d'.size = d.size) (hq : q ≤ q')
    (hbytes : ∀ i, ¬ d.InTables i → i < 512 * q → d'.bytes i = d.bytes i) : Held d' q' c p := by
  obtain ⟨hp, hlow, hhigh, hbelow, hintact⟩ := h
  have hsectors : d'.sectors = d.sectors := congrArg (· / 512) hsize
  refine ⟨hp, hlow, by omega, by omega, fun k hk => ?_⟩
  have hcovers := hp.covers
  have hin : ¬ d.InTables (512 * p.range.first + k) := by
    unfold Disk.InTables Disk.Usable
    omega
  rw [hbytes _ hin (by omega)]
  exact hintact k hk

theorem AddsAt.held {s s' : Script} {f : File} {name : String} {q : ℕ} (h : AddsAt s f name q s')
    (hP : Holds s.PTR (512 * q)) (hdvd : 2048 ∣ q) (hq : 0 < q) (hf : 0 < f.size) :
    Held s'.disk (up 2048 (q + sectorsOf f.size)) ⟨s, f, name⟩
      ⟨s.pn, ⟨q, q + sectorsOf f.size - 1⟩, name⟩ := by
  have hplaced := placed_at name hP hdvd hf
  have hsectors : s'.disk.sectors = s.disk.sectors := congrArg (· / 512) h.size
  have hfits := h.fits
  have hup := le_up (a := 2048) (by omega) (q + sectorsOf f.size)
  have hpos := sectorsOf_pos hf
  refine ⟨hplaced, ?_, ?_, ?_, h.content⟩
  · dsimp only
    omega
  · dsimp only
    omega
  · dsimp only
    omega

theorem lengths_pos {cs : List Added} (hne : ∀ c ∈ cs, 0 < c.file.size) :
    ∀ n ∈ lengths cs, 0 < n := by
  intro n hn
  obtain ⟨c, hc, rfl⟩ := List.mem_map.1 hn
  exact sectorsOf_pos (hne c hc)

/-- After a run the partitions are the aligned placement of the files, each held for its call, and
`PTR` is where the next one would start. -/
structure Laid (d₀ : Disk) (cs : List Added) (s : Script) : Prop where
  size : s.disk.size = d₀.size
  ranges : s.disk.parts.map Part.range = place 2048 2048 (lengths cs)
  ptr : Holds s.PTR (512 * placeEnd 2048 2048 (lengths cs))
  held : List.Forall₂ (Held s.disk (placeEnd 2048 2048 (lengths cs))) cs s.disk.parts

theorem Laid.add {t : Tools} {d₀ : Disk} {cs : List Added} {s s' : Script} {file : File}
    {name : String} (h : Laid d₀ cs s) (hf : 0 < file.size) (hroom : d₀.size + 1048576 ≤ 2 ^ 63)
    (hadd : addPart t s file name "" = some s') : Laid d₀ (cs ++ [⟨s, file, name⟩]) s' := by
  have hdvd : 2048 ∣ placeEnd 2048 2048 (lengths cs) := dvd_placeEnd (Nat.dvd_refl 2048) _
  have hstart : 2048 ≤ placeEnd 2048 2048 (lengths cs) := le_placeEnd (by omega) _ _
  have hat := addPart_fixed hadd h.ptr hdvd (by omega) hf (by rw [h.size]; exact hroom)
  have hlengths : lengths (cs ++ [⟨s, file, name⟩]) = lengths cs ++ [sectorsOf file.size] := by
    simp [lengths]
  have hup := le_up (a := 2048) (by omega)
    (placeEnd 2048 2048 (lengths cs) + sectorsOf file.size)
  refine ⟨hat.size.trans h.size, ?_, ?_, ?_⟩
  · rw [hat.parts, List.map_append, h.ranges, hlengths, place_append]
    rfl
  · rw [hlengths, placeEnd_append]
    exact hat.ptr
  · rw [hat.parts, hlengths, placeEnd_append]
    refine List.rel_append ?_
      (List.Forall₂.cons (hat.held h.ptr hdvd (by omega) hf) List.Forall₂.nil)
    exact h.held.imp fun c p hp => hp.keep hat.size
      (by show _ ≤ up 2048 (placeEnd 2048 2048 (lengths cs) + sectorsOf file.size); omega) hat.other

theorem Adds.laid {t : Tools} {d₀ : Disk} {cs : List Added} {s : Script}
    (h : Adds t (start d₀) cs s) (h₀ : d₀.parts = []) (hroom : d₀.size + 1048576 ≤ 2 ^ 63)
    (hne : ∀ c ∈ cs, 0 < c.file.size) : Laid d₀ cs s := by
  induction h with
  | nil =>
    refine ⟨rfl, ?_, ?_, ?_⟩
    · show d₀.parts.map Part.range = []
      rw [h₀]
      rfl
    · show Holds (2048 * 512) (512 * 2048)
      decide
    · show List.Forall₂ _ [] d₀.parts
      rw [h₀]
      exact List.Forall₂.nil
  | add _ hadd ih =>
    have hne' := List.forall_mem_append.1 hne
    exact (ih hne'.1).add (hne'.2 _ List.mem_cons_self) hroom hadd

theorem createImage_room {SIZE_GB : Int64} {d : Disk} (h : createImage SIZE_GB = some d) :
    d.parts = [] ∧ 2048 ∣ d.sectors ∧ d.size + 1048576 ≤ 2 ^ 63 := by
  unfold createImage at h
  dsimp only at h
  split at h
  · rename_i hcount
    obtain rfl := Option.some.inj h
    have hdvd : (1024 : ℤ) ∣ (SIZE_GB * 1024).toInt := by
      have hlit : (1024 : Int64).toInt = 1024 := by decide
      rw [Int64.toInt_mul, hlit, Int.bmod_def]
      split <;> omega
    unfold Disk.sectors
    dsimp only
    refine ⟨rfl, ?_, ?_⟩ <;> omega
  · cases h

/-- However many files are added, of whatever sizes: as long as `sgdisk` succeeds, every partition
is placed as wanted, the partitions follow each other, and each still holds its file at the end. -/
theorem Adds.layout {t : Tools} {SIZE_GB : Int64} {d₀ : Disk} {cs : List Added} {s : Script}
    (hc : createImage SIZE_GB = some d₀) (h : Adds t (start d₀) cs s)
    (hne : ∀ c ∈ cs, 0 < c.file.size) :
    List.Forall₂ Placed cs s.disk.parts ∧
      (s.disk.parts.Pairwise fun p p' => p.range.last < p'.range.first) ∧
      List.Forall₂ (Intact s.disk) cs s.disk.parts := by
  obtain ⟨h₀, -, hroom⟩ := createImage_room hc
  have hlaid := h.laid h₀ hroom hne
  refine ⟨hlaid.held.imp fun _ _ hp => hp.placed, ?_, hlaid.held.imp fun _ _ hp => hp.intact⟩
  have hpairs := place_pairwise (a := 2048) (by omega) (lengths_pos hne) (q := 2048)
  rw [← hlaid.ranges] at hpairs
  exact List.pairwise_map.1 hpairs

/-! ## An image with one partition -/

instance (d : Disk) (x : ℕ) : Decidable (d.Usable x) :=
  inferInstanceAs (Decidable (34 ≤ x ∧ x < d.sectors - 33))

/-- The entry `sgdisk --new` adds, if the range is in the usable area. -/
def plainNew (d : Disk) (n first last : Int64) (name : String) : Option Disk :=
  let r : Range := ⟨first.toInt.toNat, last.toInt.toNat⟩
  if 0 ≤ first.toInt ∧ first.toInt ≤ last.toInt ∧ d.Usable r.first ∧ d.Usable r.last then
    some { d with parts := d.parts ++ [⟨n, r, name⟩] }
  else none

/-- A copy of the file over the image. -/
def plainDd (d : Disk) (f : File) (count seek : Int64) : Disk :=
  let off := seek.toInt.toNat * 4096
  let len := min (count.toInt.toNat * 4096) f.size
  { d with
    size := if len = 0 then d.size else max d.size (off + len)
    bytes := fun i => if off ≤ i ∧ i < off + len then f.bytes.getD (i - off) 0 else d.bytes i }

/-- Programs as the script assumes them, but for `--largest-new`, which always fails. -/
def plain : Tools where
  sgdiskNew := plainNew
  sgdiskLargestNew _ _ _ := none
  dd := plainDd
  new_spec := by
    intro d n first last name d' h
    unfold plainNew at h
    dsimp only at h
    split at h
    · rename_i hr
      obtain rfl := Option.some.inj h
      obtain ⟨h₁, h₂, h₃, h₄⟩ := hr
      refine ⟨⟨first.toInt.toNat, last.toInt.toNat⟩, ?_, ?_, ?_, h₃, h₄, rfl, rfl, fun _ _ => rfl⟩
      · exact (Int.toNat_of_nonneg h₁).symm
      · exact (Int.toNat_of_nonneg (by omega)).symm
      · exact Int.toNat_le_toNat h₂
    · cases h
  largestNew_spec := by
    intro d n name d' h
    cases h
  dd_spec := by
    intro d f count seek hcount hseek
    have hcover : ∀ i, DdCovers f count seek i ↔ seek.toInt.toNat * 4096 ≤ i ∧
        i < seek.toInt.toNat * 4096 + min (count.toInt.toNat * 4096) f.size := by
      intro i
      unfold DdCovers
      omega
    refine ⟨fun hin => ?_, fun _ => rfl, fun i hi => ?_, fun i hi => ?_⟩
    · unfold plainDd
      dsimp only
      split
      · rfl
      · have := hin (seek.toInt.toNat * 4096 + min (count.toInt.toNat * 4096) f.size - 1)
          ((hcover _).2 (by omega))
        omega
    · have hi := (hcover i).1 hi
      have hlt : i - seek.toInt.toNat * 4096 < f.bytes.length := by
        have : f.size = f.bytes.length := rfl
        omega
      unfold plainDd
      dsimp only
      rw [if_pos hi, List.getD_eq_getElem?_getD, List.getElem?_eq_getElem hlt, Option.getD_some]
    · unfold plainDd
      dsimp only
      rw [if_neg fun hc => hi ((hcover i).2 hc)]

def oneGiB : Disk := ⟨1073741824, fun _ => 0, []⟩

theorem createImage_one : createImage 1 = some oneGiB := by
  have hcount : 0 ≤ (1 * 1024 : Int64).toInt ∧ (1 * 1024 : Int64).toInt * 1048576 < 2 ^ 63 := by
    decide
  have hsize : (1 * 1024 : Int64).toInt.toNat * 1048576 = 1073741824 := by decide
  unfold createImage oneGiB
  dsimp only
  rw [if_pos hcount, hsize]

/-- A run that adds one file. -/
def withOne (f : File) : Script := (addPart plain (start oneGiB) f "esp" "").getD (start oneGiB)

theorem adds_withOne {f : File} (h : (addPart plain (start oneGiB) f "esp" "").isSome = true) :
    Adds plain (start oneGiB) [⟨start oneGiB, f, "esp"⟩] (withOne f) := by
  obtain ⟨s, hs⟩ := Option.isSome_iff_exists.1 h
  have hget : withOne f = s := by
    unfold withOne
    rw [hs, Option.getD_some]
  rw [hget]
  exact Adds.nil.add hs

/-- A file of three bytes. -/
def esp : File := ⟨[0xEB, 0x3C, 0x90], by decide⟩

/-- A file of five bytes. -/
def misc : File := ⟨[0x62, 0x6F, 0x6F, 0x74, 0x2D], by decide⟩

/-- The run that adds `misc` after `esp`. -/
def withMisc : Script := (addPart plain (withOne esp) misc "misc" "").getD (withOne esp)

theorem adds_withMisc : Adds plain (start oneGiB)
    [⟨start oneGiB, esp, "esp"⟩, ⟨withOne esp, misc, "misc"⟩] withMisc := by
  have hsome : (addPart plain (withOne esp) misc "misc" "").isSome = true := by decide
  obtain ⟨s, hs⟩ := Option.isSome_iff_exists.1 hsome
  have hget : withMisc = s := by
    unfold withMisc
    rw [hs, Option.getD_some]
  rw [hget]
  exact (adds_withOne (by decide)).add hs

/-- The second partition starts at the next multiple of 1 MiB. -/
theorem layout_esp :
    withMisc.disk.parts.map Part.range = [⟨2048, 2048⟩, ⟨4096, 4096⟩] ∧
      List.Forall₂ (Intact withMisc.disk)
        [⟨start oneGiB, esp, "esp"⟩, ⟨withOne esp, misc, "misc"⟩] withMisc.disk.parts :=
  ⟨by decide, (Adds.layout createImage_one adds_withMisc (by simp [esp, misc, File.size])).2.2⟩

end DragonQ6A.Image
