import Mathlib.Data.List.MinMax
import Mathlib.Tactic.NormNum
import DragonQ6A.C.Float

/-!
# The forced display mode

`ChoseForcedOrPreferredConfig`, which `drm_hwcomposer` is patched with.  Its loop marks with the id
0 that nothing is chosen yet; on the configs it does not skip it is an arg-min of the distance to
the requested rate.  The log messages are left out.
-/

namespace DragonQ6A.Display

/-! ## The source -/

/-- What is read of a mode; the refresh rate is taken as exact. -/
structure DrmMode where
  hdisplay : UInt16
  vdisplay : UInt16
  vrefresh : ℚ
deriving DecidableEq

structure HwcDisplayConfig where
  disabled : Bool
  mode : DrmMode
deriving DecidableEq

/-- `configs_`.  The map is iterated by increasing id, and the ids are numbered from 1. -/
structure HwcDisplayConfigs where
  hwc_configs : List (UInt32 × HwcDisplayConfig)
  preferred_config_id : UInt32
  sorted : hwc_configs.Pairwise fun e e' => e.1 < e'.1
  id_ne_zero : ∀ e ∈ hwc_configs, e.1 ≠ 0

structure HwcDisplay where
  configs : HwcDisplayConfigs
  /-- `IsInHeadlessMode()` -/
  headless : Bool

/-- The result of `sscanf(forced, "%ux%u@%f", &want_w, &want_h, &want_r)`, and the variables after
it. -/
structure Scanned where
  parsed : ℤ
  want_w : UInt32
  want_h : UInt32
  want_r : C.Float

/-- The properties; one that is not set has the default value `""`. -/
def forced (property_get : String → String) : String :=
  let value := property_get "vendor.hwc.drm.force_mode"
  if value.length ≤ 0 then property_get "ro.boot.hwc.force_mode" else value

structure Best where
  best_id : UInt32
  best_diff : C.Float

/-- The body of the loop. -/
def visit (s : Scanned) (b : Best) (e : UInt32 × HwcDisplayConfig) : Best :=
  let (id, cfg) := e
  if cfg.disabled then b
  else if cfg.mode.hdisplay.toUInt32 ≠ s.want_w ∨ cfg.mode.vdisplay.toUInt32 ≠ s.want_h then b
  else
    let diff := if 3 ≤ s.parsed then ((C.Float.fin cfg.mode.vrefresh).sub s.want_r).fabs else .fin 0
    if b.best_id = 0 ∨ diff.lt b.best_diff then ⟨id, diff⟩ else b

def choseForcedOrPreferredConfig (sscanf : String → Scanned) (property_get : String → String)
    (d : HwcDisplay) : UInt32 :=
  let preferred := d.configs.preferred_config_id
  if d.headless then preferred
  else if forced property_get = "" then preferred
  else
    let s := sscanf (forced property_get)
    if s.parsed < 2 ∨ s.want_w = 0 ∨ s.want_h = 0 then preferred
    else
      let best := d.configs.hwc_configs.foldl (visit s) ⟨0, .fin 0⟩
      if best.best_id ≠ 0 ∧ (s.parsed < 3 ∨ best.best_diff.le (.fin (3 / 2))) then best.best_id
      else preferred

/-! ## The best mode -/

/-- A request for `W`x`H`, with a rate or without. -/
structure Request where
  W : UInt32
  H : UInt32
  R : Option C.Float

namespace Request

variable (q : Request)

/-- The config is enabled and of the requested size. -/
structure Fits (cfg : HwcDisplayConfig) : Prop where
  enabled : cfg.disabled = false
  width : cfg.mode.hdisplay.toNat = q.W.toNat
  height : cfg.mode.vdisplay.toNat = q.H.toNat

/-- The distance to the requested rate; 0 without one. -/
def dist (cfg : HwcDisplayConfig) : ℚ :=
  match q.R with
  | some (.fin r) => |cfg.mode.vrefresh - r|
  | _ => 0

/-- The rate, if one is requested, is met up to 1.5 Hz. -/
def Near (cfg : HwcDisplayConfig) : Prop :=
  ∀ R, q.R = some R → ∃ r, R = .fin r ∧ |cfg.mode.vrefresh - r| ≤ 3 / 2

/-- `c` is the id of a config that fits and is near the requested rate: among all that fit it is one
of the nearest, and of these the one with the lowest id. -/
def BestMode (configs : HwcDisplayConfigs) (c : UInt32) : Prop :=
  ∃ cfg, (c, cfg) ∈ configs.hwc_configs ∧ q.Fits cfg ∧ q.Near cfg ∧
    ∀ c' cfg', (c', cfg') ∈ configs.hwc_configs → q.Fits cfg' →
      q.dist cfg ≤ q.dist cfg' ∧ (q.dist cfg' = q.dist cfg → c ≤ c')

/-- Some config fits and is near the requested rate. -/
def Available (configs : HwcDisplayConfigs) : Prop :=
  ∃ c cfg, (c, cfg) ∈ configs.hwc_configs ∧ q.Fits cfg ∧ q.Near cfg

end Request

/-- The choice `c` is the best mode if one is available, and else the preferred config. -/
structure Choice (q : Request) (d : HwcDisplay) (c : UInt32) : Prop where
  sound : c ≠ d.configs.preferred_config_id → q.BestMode d.configs c
  complete : d.headless = false → q.Available d.configs → q.BestMode d.configs c
  fallback : d.headless = true ∨ ¬ q.Available d.configs → c = d.configs.preferred_config_id

/-! ## The loop is an arg-min -/

section Loop

theorem toUInt32_eq_iff (x : UInt16) (y : UInt32) : x.toUInt32 = y ↔ x.toNat = y.toNat := by
  rw [← UInt32.toNat_inj, UInt16.toNat_toUInt32]

namespace Request

variable (q : Request)

/-- What `sscanf` makes of the request. -/
def scanned : Scanned :=
  match q.R with
  | none => ⟨2, q.W, q.H, .fin 0⟩
  | some r => ⟨3, q.W, q.H, r⟩

/-- The `diff` of the source. -/
def diff (cfg : HwcDisplayConfig) : C.Float :=
  match q.R with
  | none => .fin 0
  | some r => ((C.Float.fin cfg.mode.vrefresh).sub r).fabs

theorem fits_iff (cfg : HwcDisplayConfig) : q.Fits cfg ↔
    cfg.disabled = false ∧ cfg.mode.hdisplay.toUInt32 = q.W ∧ cfg.mode.vdisplay.toUInt32 = q.H := by
  rw [toUInt32_eq_iff, toUInt32_eq_iff]
  exact ⟨fun h => ⟨h.enabled, h.width, h.height⟩, fun h => ⟨h.1, h.2.1, h.2.2⟩⟩

instance (cfg : HwcDisplayConfig) : Decidable (q.Fits cfg) :=
  decidable_of_iff _ (q.fits_iff cfg).symm

theorem le_diff_iff (cfg : HwcDisplayConfig) :
    (q.diff cfg).le (.fin (3 / 2)) = true ↔ q.Near cfg := by
  unfold diff Near
  cases q.R with
  | none =>
    have hslack : (0 : ℚ) ≤ 3 / 2 := by norm_num
    simp [hslack]
  | some r => simp [C.Float.le_fabs_sub]

theorem visit_scanned (b : Best) (e : UInt32 × HwcDisplayConfig) :
    visit q.scanned b e =
      if q.Fits e.2 then
        if b.best_id = 0 ∨ (q.diff e.2).lt b.best_diff then ⟨e.1, q.diff e.2⟩ else b
      else b := by
  obtain ⟨id, cfg⟩ := e
  have hdiff : (if 3 ≤ q.scanned.parsed then
      ((C.Float.fin cfg.mode.vrefresh).sub q.scanned.want_r).fabs else .fin 0) = q.diff cfg := by
    unfold scanned diff
    cases q.R <;> rfl
  have hw : q.scanned.want_w = q.W := by
    unfold scanned
    cases q.R <;> rfl
  have hh : q.scanned.want_h = q.H := by
    unfold scanned
    cases q.R <;> rfl
  unfold visit
  dsimp only
  rw [hdiff, hw, hh]
  by_cases hdis : cfg.disabled = true
  · rw [if_pos hdis, if_neg fun h => absurd hdis (by rw [h.enabled]; decide)]
  · rw [if_neg hdis]
    have hen : cfg.disabled = false := Bool.eq_false_of_not_eq_true hdis
    by_cases hsize : cfg.mode.hdisplay.toUInt32 = q.W ∧ cfg.mode.vdisplay.toUInt32 = q.H
    · rw [if_neg (by tauto), if_pos ((q.fits_iff cfg).2 ⟨hen, hsize⟩)]
    · rw [if_pos (by tauto), if_neg fun h => hsize ((q.fits_iff cfg).1 h).2]

/-- `e` replaces `e'`. -/
def Nearer (e e' : UInt32 × HwcDisplayConfig) : Prop := (q.diff e.2).lt (q.diff e'.2) = true

instance : DecidableRel q.Nearer := fun _ _ => inferInstanceAs (Decidable (_ = true))

/-- The config the loop ends with. -/
def pick (l : List (UInt32 × HwcDisplayConfig)) : Option (UInt32 × HwcDisplayConfig) :=
  (l.filter fun e => q.Fits e.2).foldl (List.argAux q.Nearer) none

/-- The variables of the loop stand for the config picked so far. -/
def Stands (b : Best) : Option (UInt32 × HwcDisplayConfig) → Prop
  | none => b.best_id = 0
  | some e => e.1 ≠ 0 ∧ b = ⟨e.1, q.diff e.2⟩

theorem stands_pick (configs : HwcDisplayConfigs) :
    q.Stands (configs.hwc_configs.foldl (visit q.scanned) ⟨0, .fin 0⟩)
      (q.pick configs.hwc_configs) := by
  unfold pick
  rw [List.foldl_filter]
  apply List.foldl_rel (r := q.Stands)
  · rfl
  intro e he b o hb
  rw [visit_scanned]
  by_cases hfits : q.Fits e.2
  · rw [if_pos hfits, if_pos (decide_eq_true hfits)]
    have hid := configs.id_ne_zero e he
    cases o with
    | none =>
      -- the first config that fits
      rw [if_pos (.inl hb)]
      exact ⟨hid, rfl⟩
    | some e' =>
      obtain ⟨hid', rfl⟩ := hb
      by_cases hlt : q.Nearer e e'
      · rw [if_pos (.inr hlt)]
        simp only [List.argAux, if_pos hlt]
        exact ⟨hid, rfl⟩
      · rw [if_neg (by rintro (h | h); exacts [hid' h, hlt h])]
        simp only [List.argAux, if_neg hlt]
        exact ⟨hid', rfl⟩
  · rw [if_neg hfits, if_neg (by simpa using hfits)]
    exact hb

theorem parsed_lt_three_iff : q.scanned.parsed < 3 ↔ q.R = none := by
  unfold scanned
  cases q.R <;> simp

/-- The test after the loop. -/
theorem near_iff (cfg : HwcDisplayConfig) :
    (q.scanned.parsed < 3 ∨ (q.diff cfg).le (.fin (3 / 2)) = true) ↔ q.Near cfg := by
  rw [parsed_lt_three_iff, le_diff_iff]
  refine ⟨?_, .inr⟩
  rintro (hR | h)
  · intro R hsome
    rw [hR] at hsome
    cases hsome
  · exact h

theorem not_rejected (hW : q.W ≠ 0) (hH : q.H ≠ 0) :
    ¬ (q.scanned.parsed < 2 ∨ q.scanned.want_w = 0 ∨ q.scanned.want_h = 0) := by
  unfold scanned
  cases q.R <;> simp [hW, hH]

end Request

/-- A request is answered with the config the loop picks, if that is near the requested rate. -/
theorem choseForcedOrPreferredConfig_request {sscanf : String → Scanned}
    {property_get : String → String} {d : HwcDisplay} {q : Request} (hhead : d.headless = false)
    (hforced : forced property_get ≠ "") (hscan : sscanf (forced property_get) = q.scanned)
    (hW : q.W ≠ 0) (hH : q.H ≠ 0) :
    (∃ e, q.pick d.configs.hwc_configs = some e ∧ q.Near e.2 ∧
        choseForcedOrPreferredConfig sscanf property_get d = e.1) ∨
      (∀ e, q.pick d.configs.hwc_configs = some e → ¬ q.Near e.2) ∧
        choseForcedOrPreferredConfig sscanf property_get d = d.configs.preferred_config_id := by
  have hstands := q.stands_pick d.configs
  unfold choseForcedOrPreferredConfig
  dsimp only
  rw [hhead, if_neg Bool.false_ne_true, if_neg hforced, hscan, if_neg (q.not_rejected hW hH)]
  cases hpick : q.pick d.configs.hwc_configs with
  | none =>
    rw [hpick] at hstands
    refine .inr ⟨fun e he => ?_, if_neg fun h => h.1 hstands⟩
    cases he
  | some e =>
    rw [hpick] at hstands
    obtain ⟨hid, hbest⟩ := hstands
    rw [hbest]
    by_cases hnear : q.Near e.2
    · exact .inl ⟨e, rfl, hnear, if_pos ⟨hid, (q.near_iff e.2).2 hnear⟩⟩
    · refine .inr ⟨fun e' he' => ?_, if_neg fun h => hnear ((q.near_iff e.2).1 h.2)⟩
      obtain rfl := Option.some.inj he'
      exact hnear

theorem choseForcedOrPreferredConfig_headless (sscanf : String → Scanned)
    (property_get : String → String) {d : HwcDisplay} (h : d.headless = true) :
    choseForcedOrPreferredConfig sscanf property_get d = d.configs.preferred_config_id := if_pos h

end Loop

/-! ## The choice -/

/-- In a sorted list what comes first is smaller. -/
theorem eq_or_of_idxOf_le {α : Type*} [DecidableEq α] {l : List α} {r : α → α → Prop}
    (hl : l.Pairwise r) {x y : α} (hx : x ∈ l) (hy : y ∈ l) (h : l.idxOf x ≤ l.idxOf y) :
    x = y ∨ r x y := by
  rcases h.eq_or_lt with heq | hlt
  · exact .inl ((List.idxOf_inj hx).1 heq)
  · have hr := List.pairwise_iff_getElem.1 hl _ _ (List.idxOf_lt_length_of_mem hx)
      (List.idxOf_lt_length_of_mem hy) hlt
    rw [List.getElem_idxOf, List.getElem_idxOf] at hr
    exact .inr hr

namespace Request

variable {q : Request} {cfg₀ : HwcDisplayConfig}

/-- Where a config can be near, the loop compares the distances. -/
theorem Near.diff_eq (h : q.Near cfg₀) (cfg : HwcDisplayConfig) :
    q.diff cfg = .fin (q.dist cfg) := by
  unfold diff dist
  cases hR : q.R with
  | none => rfl
  | some R =>
    obtain ⟨r, rfl, -⟩ := h R hR
    rfl

theorem Near.pick_eq_argmin (h : q.Near cfg₀) (l : List (UInt32 × HwcDisplayConfig)) :
    q.pick l = (l.filter fun e => q.Fits e.2).argmin fun e => q.dist e.2 := by
  unfold pick List.argmin
  congr 1
  funext o e
  cases o with
  | none => rfl
  | some e' =>
    have hiff : q.Nearer e e' ↔ q.dist e.2 < q.dist e'.2 := by
      unfold Nearer
      rw [h.diff_eq, h.diff_eq]
      simp
    simp only [List.argAux, hiff]

theorem mem_fitting {l : List (UInt32 × HwcDisplayConfig)} {c : UInt32} {cfg : HwcDisplayConfig} :
    (c, cfg) ∈ (l.filter fun e => q.Fits e.2) ↔ (c, cfg) ∈ l ∧ q.Fits cfg := by
  rw [List.mem_filter, decide_eq_true_iff]

/-- A picked config that is near is the best mode. -/
theorem Near.bestMode {configs : HwcDisplayConfigs} {c : UInt32} {cfg : HwcDisplayConfig}
    (h : q.Near cfg) (hpick : q.pick configs.hwc_configs = some (c, cfg)) :
    q.BestMode configs c := by
  rw [h.pick_eq_argmin, List.argmin_eq_some_iff] at hpick
  obtain ⟨hmem, hleast, hfirst⟩ := hpick
  have hin := mem_fitting.1 hmem
  refine ⟨cfg, hin.1, hin.2, h, fun c' cfg' hmem' hfits' => ?_⟩
  have hin' := mem_fitting.2 ⟨hmem', hfits'⟩
  refine ⟨hleast (c', cfg') hin', fun htie => ?_⟩
  have hidx := hfirst (c', cfg') hin' htie.le
  rcases eq_or_of_idxOf_le (configs.sorted.filter _) hmem hin' hidx with heq | hlt
  · have hc : c = c' := congrArg Prod.fst heq
    exact UInt32.le_of_eq hc
  · exact UInt32.le_of_lt hlt

/-- If a mode is available, the loop picks one that is near. -/
theorem Available.exists_pick {configs : HwcDisplayConfigs} (h : q.Available configs) :
    ∃ e, q.pick configs.hwc_configs = some e ∧ q.Near e.2 := by
  obtain ⟨c, cfg, hmem, hfits, hnear⟩ := h
  have hin := mem_fitting.2 ⟨hmem, hfits⟩
  cases hpick : q.pick configs.hwc_configs with
  | none =>
    rw [hnear.pick_eq_argmin, List.argmin_eq_none] at hpick
    rw [hpick] at hin
    cases hin
  | some e =>
    have hpick' := hpick
    rw [hnear.pick_eq_argmin] at hpick'
    have hle := List.le_of_mem_argmin hin hpick'
    refine ⟨e, rfl, (q.le_diff_iff e.2).1 ?_⟩
    have hcfg := (q.le_diff_iff cfg).2 hnear
    rw [hnear.diff_eq, C.Float.le_fin, decide_eq_true_iff] at hcfg ⊢
    exact hle.trans hcfg

end Request

theorem Request.BestMode.available {q : Request} {configs : HwcDisplayConfigs} {c : UInt32}
    (h : q.BestMode configs c) : q.Available configs := by
  obtain ⟨cfg, hmem, hfits, hnear, -⟩ := h
  exact ⟨c, cfg, hmem, hfits, hnear⟩

/-- Whatever modes the display reports, a request for a mode is answered with the best one. -/
theorem choseForcedOrPreferredConfig_choice {sscanf : String → Scanned}
    {property_get : String → String} {d : HwcDisplay} {q : Request} (hW : q.W ≠ 0) (hH : q.H ≠ 0)
    (hforced : forced property_get ≠ "") (hscan : sscanf (forced property_get) = q.scanned) :
    Choice q d (choseForcedOrPreferredConfig sscanf property_get d) := by
  cases hhead : d.headless with
  | true =>
    have hpref := choseForcedOrPreferredConfig_headless sscanf property_get hhead
    refine ⟨fun hne => absurd hpref hne, fun hno => ?_, fun _ => hpref⟩
    rw [hhead] at hno
    cases hno
  | false =>
    rcases choseForcedOrPreferredConfig_request hhead hforced hscan hW hH with
      ⟨e, hpick, hnear, heq⟩ | ⟨hfar, heq⟩
    · have hbest := hnear.bestMode hpick
      rw [heq]
      refine ⟨fun _ => hbest, fun _ _ => hbest, ?_⟩
      rintro (hno | hno)
      · rw [hhead] at hno
        cases hno
      · exact absurd hbest.available hno
    · refine ⟨fun hne => absurd heq hne, fun _ hav => ?_, fun _ => heq⟩
      obtain ⟨e, hpick, hnear⟩ := hav.exists_pick
      exact absurd hnear (hfar e hpick)

/-! ## A display behind an adapter -/

/-- It prefers 1080p60, and reports 119.80 Hz twice for its smaller mode. -/
def adapterDisplay : HwcDisplay where
  configs :=
    { hwc_configs := [
        (1, ⟨false, ⟨1920, 1080, 60⟩⟩), (2, ⟨false, ⟨1280, 768, 60⟩⟩),
        (3, ⟨true, ⟨1280, 768, 120⟩⟩), (4, ⟨false, ⟨1280, 768, 599 / 5⟩⟩),
        (5, ⟨false, ⟨1280, 768, 599 / 5⟩⟩)]
      preferred_config_id := 1
      sorted := by decide
      id_ne_zero := by decide }
  headless := false

/-- `androidboot.hwc.force_mode=1280x768@120`. -/
def bootProperty (key : String) : String :=
  if key = "ro.boot.hwc.force_mode" then "1280x768@120" else ""

theorem choice_adapterDisplay :
    Choice ⟨1280, 768, some (.fin 120)⟩ adapterDisplay
        (choseForcedOrPreferredConfig (fun _ => ⟨3, 1280, 768, .fin 120⟩) bootProperty
          adapterDisplay) ∧
      choseForcedOrPreferredConfig (fun _ => ⟨3, 1280, 768, .fin 120⟩) bootProperty
        adapterDisplay = 4 :=
  ⟨choseForcedOrPreferredConfig_choice (by decide) (by decide) (by decide) rfl, by decide +kernel⟩

end DragonQ6A.Display
