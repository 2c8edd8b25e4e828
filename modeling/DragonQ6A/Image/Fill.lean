import DragonQ6A.Image.AddPart

/-!
# The fill partition

`sgdisk --largest-new` puts the last partition where the largest run of free sectors is, and the
script writes its file at `PTR`.  The two agree exactly when the last fixed partition ends at a
multiple of 1 MiB, no gap behind an earlier one is as large as what is left behind the last, and the
file fits in there.
-/

open Layout Shell

namespace DragonQ6A.Image

/-- The fill partition `p` starts at `PTR`, behind all the others, and contains all that `dd`
writes: neither table is overwritten. -/
structure FillOk (s : Script) (file : File) (p : Part) : Prop where
  start : (p.range.first : ℤ) = (s.PTR / 512).toInt
  behind : ∀ p' ∈ s.disk.parts, p'.range.last < p.range.first
  writes : ∀ i, DdCovers file (ddCount file.stat) (ddSeek s) i →
    512 * p.range.first ≤ i ∧ i < 512 * (p.range.last + 1)
  tables : ∀ i, DdCovers file (ddCount file.stat) (ddSeek s) i → ¬ s.disk.InTables i

/-- On an image of `sectors` sectors with fixed partitions of `lengths` sectors: the last one ends
at a multiple of 1 MiB, what is left behind it is larger than every gap behind the others, and
`fill` bytes fit into it. -/
def FillFits (sectors : ℕ) (lengths : List ℕ) (fill : ℕ) : Prop :=
  (∃ n, lengths.getLast? = some n ∧ gap 2048 n = 0) ∧
    (∀ n ∈ lengths.dropLast, gap 2048 n + placeEnd 2048 2048 lengths + 33 < sectors) ∧
    512 * (placeEnd 2048 2048 lengths + 33) + fill ≤ 512 * sectors

section Runs

variable {sectors : ℕ} {l : List ℕ} {r : Range}

/-- When it fits, the run behind the last partition is the only largest one. -/
theorem FillFits.eq_tail {fill : ℕ} (h : FillFits sectors l fill) (hpos : ∀ n ∈ l, 0 < n)
    (hmib : 2048 ∣ sectors) (hr : Largest 34 (sectors - 33) (place 2048 2048 l) r) :
    r = ⟨placeEnd 2048 2048 l, sectors - 34⟩ := by
  obtain ⟨⟨n, hlast, hgap⟩, hgaps, hfill⟩ := h
  obtain ⟨l, rfl⟩ : ∃ l', l = l' ++ [n] := List.getLast?_eq_some_iff.1 hlast
  have hstart : 2048 ≤ placeEnd 2048 2048 (l ++ [n]) := le_placeEnd (by omega) _ _
  have hdvd : 2048 ∣ placeEnd 2048 2048 (l ++ [n]) := dvd_placeEnd (Nat.dvd_refl 2048) _
  have hbounds := place_bounds (a := 2048) (by omega) hpos (q := 2048)
  have hend := placeEnd_concat (a := 2048) (by omega) (Nat.dvd_refl 2048) l n
  have hb := hr.1.bounds
  have hle := hr.1.1
  -- a largest run is at least as long as the one behind the last partition
  have htail := hr.2 _ (freeRun_tail (a := placeEnd 2048 2048 (l ++ [n])) (by omega) (by omega)
    fun u hu => (hbounds u hu).2.2)
  dsimp only at htail
  have hfirst : placeEnd 2048 2048 (l ++ [n]) ≤ r.first := by
    by_cases hfront : r.first < 2048
    · -- in front of the first partition there are 2014 sectors
      exfalso
      obtain ⟨u, hu, hu₁⟩ : ∃ u ∈ place 2048 2048 (l ++ [n]), u.first = 2048 := by
        cases l with
        | nil => exact ⟨_, List.mem_cons_self, rfl⟩
        | cons m l => exact ⟨_, List.mem_cons_self, rfl⟩
      have hle' := (hbounds u hu).2.1
      have := hr.1.separate hu hle'
      omega
    · rcases hr.1.place_cases (a := 2048) (by omega) hpos (Nat.dvd_refl 2048) (fun _ h => h)
        (by omega) with ⟨m, hm, hlen⟩ | hall
      · have := hgaps m hm
        omega
      · have := hall ⟨placeEnd 2048 2048 l, placeEnd 2048 2048 l + n - 1⟩
          (by rw [place_append]; exact List.mem_append_right _ List.mem_cons_self)
        have := hpos n (by simp)
        dsimp only at *
        omega
  have heq₁ : r.first = placeEnd 2048 2048 (l ++ [n]) := by omega
  have heq₂ : r.last = sectors - 34 := by omega
  obtain ⟨first, last⟩ := r
  dsimp only at heq₁ heq₂
  rw [heq₁, heq₂]

/-- A largest run that starts at `PTR` leaves no gap behind the last partition. -/
theorem exists_last_of_largest (hpos : ∀ n ∈ l, 0 < n)
    (hr : Largest 34 (sectors - 33) (place 2048 2048 l) r)
    (hfirst : r.first = placeEnd 2048 2048 l) : ∃ n, l.getLast? = some n ∧ gap 2048 n = 0 := by
  have hbounds := place_bounds (a := 2048) (by omega) hpos (q := 2048)
  have hstart : 2048 ≤ placeEnd 2048 2048 l := le_placeEnd (by omega) _ _
  have hb := hr.1.bounds
  have hle := hr.1.1
  rcases List.eq_nil_or_concat' l with rfl | ⟨l, n, rfl⟩
  · -- nothing fixed: the run starts at sector 34
    have hwhole := hr.2 _ (freeRun_tail (a := 34) (Nat.le_refl 34) (by omega) (by simp [place]))
    dsimp only at hwhole
    omega
  · refine ⟨n, List.getLast?_concat, ?_⟩
    have hend := placeEnd_concat (a := 2048) (by omega) (Nat.dvd_refl 2048) l n
    have hn := hpos n (by simp)
    have hl : 2048 ≤ placeEnd 2048 2048 l := le_placeEnd (by omega) _ _
    have hbounds' := place_bounds (a := 2048) (by omega)
      (fun m hm => hpos m (List.mem_append_left _ hm)) (q := 2048)
    -- the run from the end of the last partition on is not longer
    have hlonger := hr.2 _ (freeRun_tail (a := placeEnd 2048 2048 l + n) (by omega) (by omega) ?_)
    · dsimp only at hlonger
      omega
    · intro u hu
      rw [place_append] at hu
      rcases List.mem_append.1 hu with hu | hu
      · have := (hbounds' u hu).2.2
        omega
      · obtain rfl := List.mem_singleton.1 hu
        dsimp only
        omega

/-- If every largest run starts at `PTR`, the layout leaves it the largest one. -/
theorem fillFits_of_largest {fill : ℕ} (hpos : ∀ n ∈ l, 0 < n)
    (hr : Largest 34 (sectors - 33) (place 2048 2048 l) r)
    (hall : ∀ u, Largest 34 (sectors - 33) (place 2048 2048 l) u →
      u.first = placeEnd 2048 2048 l)
    (hfill : 512 * placeEnd 2048 2048 l + fill ≤ 512 * (r.last + 1)) :
    FillFits sectors l fill := by
  have hbounds := place_bounds (a := 2048) (by omega) hpos (q := 2048)
  have hfirst := hall r hr
  have hle := hr.1.1
  have hlast := hr.last_eq fun u hu => by
    have := (hbounds u hu).2.2
    omega
  refine ⟨exists_last_of_largest hpos hr hfirst, fun n hn => ?_, by omega⟩
  by_contra hlarge
  -- the gap behind `n` would be a largest run as well
  obtain ⟨u, hu₁, hu₂, hlen, hfree⟩ := exists_gap (a := 2048) (by omega) hpos
    (Nat.dvd_refl 2048) hn (by omega)
  have hrun : FreeRun 34 (sectors - 33) (place 2048 2048 l) u := by
    refine ⟨by omega, fun x hx => ⟨?_, fun v hv => hfree v hv x hx⟩⟩
    have := hx.1
    have := hx.2
    omega
  have hlongest : Largest 34 (sectors - 33) (place 2048 2048 l) u := by
    refine ⟨hrun, fun v hv => ?_⟩
    have := hr.2 v hv
    omega
  have := hall u hlongest
  omega

end Runs

/-! ## The call -/

/-- `sgdisk` may take any of the largest runs. -/
theorem exists_picking (t : Tools) (r : Range) : ∃ t' : Tools, ∀ (d : Disk) (n : Int64)
    (name : String), d.LargestFree r →
      t'.sgdiskLargestNew d n name = some { d with parts := d.parts ++ [⟨n, r, name⟩] } := by
  classical
  refine ⟨{ t with
    sgdiskLargestNew := fun d n name =>
      if d.LargestFree r then some { d with parts := d.parts ++ [⟨n, r, name⟩] } else none
    largestNew_spec := ?_ }, fun d n name h => if_pos h⟩
  intro d n name d' h
  split at h
  · rename_i hr
    obtain rfl := Option.some.inj h
    exact ⟨r, hr, rfl, rfl, fun _ _ => rfl⟩
  · cases h

theorem createPart_fill (t : Tools) (s : Script) (SIZE : Int64) (name : String)
    {fillRest : String} (hfill : fillRest ≠ "") :
    createPart t s SIZE name fillRest = t.sgdiskLargestNew s.disk s.pn name := if_neg hfill

section Laid

variable {d₀ : Disk} {cs : List Added} {s : Script}

theorem Laid.sectors_eq (h : Laid d₀ cs s) : s.disk.sectors = d₀.sectors :=
  congrArg (· / 512) h.size

theorem Laid.largestFree_iff (h : Laid d₀ cs s) {r : Range} : s.disk.LargestFree r ↔
    Largest 34 (d₀.sectors - 33) (place 2048 2048 (lengths cs)) r := by
  unfold Disk.LargestFree
  rw [h.ranges, h.sectors_eq]

theorem Laid.start_eq (h : Laid d₀ cs s) :
    (s.PTR / 512).toInt = placeEnd 2048 2048 (lengths cs) := by
  have hdiv : Holds (s.PTR / 512) _ := h.ptr.div (n := 512) (by decide)
  unfold Holds at hdiv
  omega

theorem Laid.ddCovers_iff (h : Laid d₀ cs s) {file : File} {i : ℕ} :
    DdCovers file (ddCount file.stat) (ddSeek s) i ↔
      512 * placeEnd 2048 2048 (lengths cs) ≤ i ∧
        i < 512 * placeEnd 2048 2048 (lengths cs) + file.size :=
  Image.ddCovers_iff h.ptr (dvd_placeEnd (Nat.dvd_refl 2048) _)

/-- A partition over the whole run behind the others, if the file fits there. -/
theorem Laid.fillOk_tail (h : Laid d₀ cs s) (hpos : ∀ n ∈ lengths cs, 0 < n) {file : File}
    (hbytes : 512 * (placeEnd 2048 2048 (lengths cs) + 33) + file.size ≤ 512 * d₀.sectors)
    (n : Int64) (name : String) :
    FillOk s file ⟨n, ⟨placeEnd 2048 2048 (lengths cs), d₀.sectors - 34⟩, name⟩ := by
  have hstart : 2048 ≤ placeEnd 2048 2048 (lengths cs) := le_placeEnd (by omega) _ _
  have hsectors := h.sectors_eq
  refine ⟨h.start_eq.symm, fun p hp => ?_, fun i hi => ?_, fun i hi hin => ?_⟩
  · have hmem : p.range ∈ place 2048 2048 (lengths cs) := h.ranges ▸ List.mem_map_of_mem hp
    exact (place_bounds (a := 2048) (by omega) hpos p.range hmem).2.2
  · have := h.ddCovers_iff.1 hi
    dsimp only
    omega
  · have := h.ddCovers_iff.1 hi
    apply hin
    unfold Disk.Usable
    omega

/-- Where the fill partition starts and how long it is, if it is right. -/
theorem Laid.fillOk_bounds (h : Laid d₀ cs s) {file : File} {p : Part} (hok : FillOk s file p)
    (hle : p.range.first ≤ p.range.last) :
    p.range.first = placeEnd 2048 2048 (lengths cs) ∧
      512 * placeEnd 2048 2048 (lengths cs) + file.size ≤ 512 * (p.range.last + 1) := by
  have hfirst := hok.start
  rw [h.start_eq] at hfirst
  refine ⟨Int.ofNat.inj hfirst, ?_⟩
  by_cases hzero : file.size = 0
  · omega
  · -- the last byte of the file
    have := hok.writes (512 * placeEnd 2048 2048 (lengths cs) + file.size - 1)
      (h.ddCovers_iff.2 (by omega))
    omega

end Laid

/-- Whichever largest run `sgdisk` takes, the fill partition is where its file is written, behind
all the others and large enough, if and only if the layout of the fixed partitions and the size of
the file fit. -/
theorem fillOk_iff {t : Tools} {SIZE_GB : Int64} {d₀ : Disk} {cs : List Added} {s : Script}
    (hc : createImage SIZE_GB = some d₀) (h : Adds t (start d₀) cs s)
    (hne : ∀ c ∈ cs, 0 < c.file.size) (file : File) (name : String) {fillRest : String}
    (hfill : fillRest ≠ "")
    (hsome : ∃ (t' : Tools) (d : Disk), createPart t' s file.stat name fillRest = some d) :
    (∀ (t' : Tools) (d : Disk), createPart t' s file.stat name fillRest = some d →
      ∃ p, d.parts = s.disk.parts ++ [p] ∧ FillOk s file p) ↔
      FillFits d₀.sectors (lengths cs) file.size := by
  obtain ⟨h₀, hmib, hroom⟩ := createImage_room hc
  have hlaid := h.laid h₀ hroom hne
  have hpos := lengths_pos hne
  simp only [createPart_fill _ s file.stat name hfill] at hsome ⊢
  constructor
  · intro hall
    obtain ⟨t', d, hd⟩ := hsome
    obtain ⟨r, hr, -⟩ := t'.largestNew_spec hd
    -- every largest run may be the one `sgdisk` takes
    have hok : ∀ u, s.disk.LargestFree u → FillOk s file ⟨s.pn, u, name⟩ := by
      intro u hu
      obtain ⟨t'', hpick⟩ := exists_picking t u
      obtain ⟨p, hp, hok⟩ := hall t'' _ (hpick s.disk s.pn name hu)
      obtain rfl := List.singleton_inj.1 (List.append_cancel_left hp)
      exact hok
    refine fillFits_of_largest hpos (hlaid.largestFree_iff.1 hr) (fun u hu => ?_) ?_
    · exact (hlaid.fillOk_bounds (hok u (hlaid.largestFree_iff.2 hu)) hu.1.1).1
    · exact (hlaid.fillOk_bounds (hok r hr) hr.1.1).2
  · intro hfits t' d hd
    obtain ⟨r, hr, hadds⟩ := t'.largestNew_spec hd
    have heq := hfits.eq_tail hpos hmib (hlaid.largestFree_iff.1 hr)
    rw [heq] at hadds
    exact ⟨_, hadds.parts, hlaid.fillOk_tail hpos hfits.2.2 s.pn name⟩

/-! ## One fixed partition -/

theorem largest_behind {e hi : ℕ} (he : 2048 ≤ e) (hhi : e + 2100 < hi) :
    Largest 34 hi [⟨2048, e⟩] ⟨e + 1, hi - 1⟩ := by
  refine ⟨freeRun_tail (by omega) (by omega) (by simp), fun v hv => ?_⟩
  have hb := hv.bounds
  have hside := hv.separate List.mem_cons_self he
  dsimp only at hside ⊢
  omega

/-- The partition of three bytes ends in the middle of a MiB: the fill partition starts right behind
it, in front of `PTR`. -/
theorem not_forall_fillOk : ¬ ∀ (t : Tools) (SIZE_GB : Int64) (d₀ : Disk) (cs : List Added)
    (s : Script), createImage SIZE_GB = some d₀ → Adds t (start d₀) cs s →
    (∀ c ∈ cs, 0 < c.file.size) → ∀ (file : File) (t' : Tools) (d : Disk),
      createPart t' s file.stat "userdata" "fill" = some d →
      ∃ p, d.parts = s.disk.parts ++ [p] ∧ FillOk s file p := by
  intro hall
  have hranges : (withOne esp).disk.parts.map Part.range = [⟨2048, 2048⟩] := by decide
  have hsectors : (withOne esp).disk.sectors = 2097152 := by decide
  have hlargest : (withOne esp).disk.LargestFree ⟨2049, 2097118⟩ := by
    unfold Disk.LargestFree
    rw [hranges, hsectors]
    exact largest_behind (by omega) (by omega)
  obtain ⟨t', hpick⟩ := exists_picking plain ⟨2049, 2097118⟩
  have hcreated := hpick _ (withOne esp).pn "userdata" hlargest
  have hfill : "fill" ≠ "" := by decide
  rw [← createPart_fill t' (withOne esp) esp.stat "userdata" hfill] at hcreated
  obtain ⟨p, hp, hok⟩ := hall plain 1 oneGiB _ _ createImage_one (adds_withOne (by decide))
    (by simp [esp, File.size]) esp t' _ hcreated
  obtain rfl := List.singleton_inj.1 (List.append_cancel_left hp)
  exact absurd hok.start (by decide)

section Mib

variable {f : File}

theorem adds_mib (hf : f.size = 1048576) :
    Adds plain (start oneGiB) [⟨start oneGiB, f, "esp"⟩] (withOne f) := by
  apply adds_withOne
  have hstat : f.stat = 1048576 := congrArg Int64.ofNat hf
  unfold addPart
  rw [hstat]
  rfl

theorem size_pos_mib (hf : f.size = 1048576) :
    ∀ c ∈ [(⟨start oneGiB, f, "esp"⟩ : Added)], 0 < c.file.size := by
  simp [hf]

theorem lengths_mib (hf : f.size = 1048576) : lengths [⟨start oneGiB, f, "esp"⟩] = [2048] := by
  simp [lengths, hf, sectorsOf]

theorem largest_mib (hf : f.size = 1048576) :
    (withOne f).disk.LargestFree ⟨4096, 2097118⟩ := by
  have hlaid := (adds_mib hf).laid rfl (by decide) (size_pos_mib hf)
  have hsectors : oneGiB.sectors = 2097152 := rfl
  rw [hlaid.largestFree_iff, lengths_mib hf, hsectors]
  exact largest_behind (by omega) (by omega)

theorem fillFits_mib (hf : f.size = 1048576) :
    FillFits oneGiB.sectors (lengths [⟨start oneGiB, f, "esp"⟩]) esp.size := by
  rw [lengths_mib hf]
  exact ⟨⟨2048, rfl, rfl⟩, by simp, by decide⟩

end Mib

/-- A file of 1 MiB. -/
def oneMiB : File :=
  ⟨List.replicate 1048576 0, by rw [List.length_replicate]; decide⟩

theorem size_oneMiB : oneMiB.size = 1048576 := by
  unfold File.size oneMiB
  exact List.length_replicate

/-- Behind a partition of 1 MiB the fill partition is where its file is written. -/
theorem fillOk_iff_oneMiB : ∃ (t' : Tools) (d : Disk) (p : Part),
    createPart t' (withOne oneMiB) esp.stat "userdata" "fill" = some d ∧
      d.parts = (withOne oneMiB).disk.parts ++ [p] ∧ FillOk (withOne oneMiB) esp p := by
  have hsize := size_oneMiB
  generalize oneMiB = f at hsize ⊢
  obtain ⟨t', hpick⟩ := exists_picking plain ⟨4096, 2097118⟩
  have hcreated := hpick _ (withOne f).pn "userdata" (largest_mib hsize)
  have hfill : "fill" ≠ "" := by decide
  rw [← createPart_fill t' (withOne f) esp.stat "userdata" hfill] at hcreated
  obtain ⟨p, hp, hok⟩ := (fillOk_iff createImage_one (adds_mib hsize) (size_pos_mib hsize) esp
    "userdata" hfill ⟨t', _, hcreated⟩).2 (fillFits_mib hsize) t' _ hcreated
  exact ⟨t', _, p, hcreated, hp, hok⟩

end DragonQ6A.Image
