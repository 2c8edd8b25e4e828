import DragonQ6A.Adapter.Specs
import DragonQ6A.Mirror.Rounds

/-!
# What a poll does to the notifications

`updateNotifications` makes the changes of a `Diff` from `mPresent` to the dongles it was given, and
only when all of them took effect does it make the dongles the new `mPresent`.  A call that throws
leaves the poll with part of the changes and with `mPresent` as it was.
-/

open Calls Java Mirror Relation

namespace DragonQ6A.Adapter

/-- The change of the notifications a call makes. -/
def Op.change : Op → Option (Change String)
  | notify _ _ iface => some (.add iface)
  | cancel _ iface => some (.remove iface)
  | _ => none

/-- The notifications that were shown and cancelled, in order. -/
def changes (tr : List Ev) : List (Change String) := tr.filterMap fun e => e.op.change

@[simp] theorem changes_nil : changes [] = [] := rfl

theorem changes_cons (e : Ev) (tr : List Ev) :
    changes (e :: tr) = e.op.change.toList ++ changes tr := by
  unfold changes
  rw [List.filterMap_cons]
  cases e.op.change <;> rfl

@[simp] theorem changes_append (tr₁ tr₂ : List Ev) :
    changes (tr₁ ++ tr₂) = changes tr₁ ++ changes tr₂ :=
  List.filterMap_append

theorem changes_eq_nil {tr : List Ev} (h : ∀ e ∈ tr, e.op.change = none) : changes tr = [] :=
  List.filterMap_eq_nil_iff.2 h

section Loops

variable {F : Op → Prop} {R : Device → Device → Prop}

theorem sameService_of_env (hR : ∀ d d', R d d' → Env d d') {d d' : Device}
    (he : ReflTransGen R d d') : d.SameService d' :=
  Env.sameService (ReflTransGen.mono hR _ _ he)

/-- A loop that makes the change `ch x` for the elements that satisfy `c`, cut short by a throw. -/
theorem wp_changeLoop {f : String → Prog PUnit} {c : String → Bool} {ch : String → Change String}
    {P : HashSet String} (hf : ∀ x d, d.mPresent = P → Wp (system F R) (f x)
      (fun tr _ d' => changes tr = (if c x then [ch x] else []) ∧ d'.mPresent = P)
      (fun tr d' => changes tr = [] ∧ d'.mPresent = P) d)
    (l : List String) {d : Device} (hd : d.mPresent = P) :
    Wp (system F R) (l.forM f)
      (fun tr _ d' => changes tr = (l.filter c).map ch ∧ d'.mPresent = P)
      (fun tr d' => (∃ rest, changes tr ++ rest = (l.filter c).map ch) ∧ d'.mPresent = P) d := by
  refine wp_forM (fun done tr d' => changes tr = (done.filter c).map ch ∧ d'.mPresent = P) ?_
    ⟨rfl, hd⟩
  rintro done x rest tr d₁ rfl ⟨htr, hd₁⟩
  refine (hf x d₁ hd₁).mono ?_ ?_
  · rintro tr' - d' ⟨htr', hd'⟩
    refine ⟨?_, hd'⟩
    rw [changes_append, htr, htr', List.filter_append, List.map_append]
    cases hx : c x <;> simp [hx]
  · rintro tr' d' ⟨htr', hd'⟩
    refine ⟨⟨((x :: rest).filter c).map ch, ?_⟩, hd'⟩
    rw [changes_append, htr, htr', List.append_nil, List.filter_append, List.map_append]

theorem wp_showNotification (hR : ∀ d d', R d d' → Env d d') (iface : String) (d : Device) :
    Wp (system F R) (showNotification iface)
      (fun tr _ d' => changes tr = [.add iface] ∧ d'.mPresent = d.mPresent)
      (fun tr d' => changes tr = [] ∧ d'.mPresent = d.mPresent) d := by
  refine wp_bind.2 (wp_deviceCall.2 fun d₁ he₁ => ?_)
  have h₁ : d₁.mPresent = d.mPresent := (sameService_of_env hR he₁).mPresent
  refine ⟨fun pi _ => ?_, fun _ => ⟨rfl, h₁⟩⟩
  have h₂ : (Op.effect d₁ (.getBroadcast (hashCode iface) (activateIntent iface) true)).mPresent =
      d.mPresent := h₁
  refine wp_deviceCall.2 fun d₃ he₃ => ?_
  have h₃ : d₃.mPresent = d.mPresent := (sameService_of_env hR he₃).mPresent.trans h₂
  exact ⟨fun _ _ => ⟨rfl, h₃⟩, fun _ => ⟨rfl, h₃⟩⟩

theorem wp_cancelNotification (hR : ∀ d d', R d d' → Env d d') (iface : String) (d : Device) :
    Wp (system F R) (cancelNotification iface)
      (fun tr _ d' => changes tr = [.remove iface] ∧ d'.mPresent = d.mPresent)
      (fun tr d' => changes tr = [] ∧ d'.mPresent = d.mPresent) d := by
  refine wp_deviceCall.2 fun d₁ he₁ => ?_
  have h₁ : d₁.mPresent = d.mPresent := (sameService_of_env hR he₁).mPresent
  exact ⟨fun _ _ => ⟨rfl, h₁⟩, fun _ => ⟨rfl, h₁⟩⟩

/-- The first loop shows what `mPresent` lacks. -/
theorem wp_showLoop (hF : ∀ o, F o → o.isFramework = true) (hR : ∀ d d', R d d' → Env d d')
    (l : List String) (d : Device) :
    Wp (system F R)
      (l.forM fun iface => do if iface ∉ (← call .getPresent) then showNotification iface)
      (fun tr _ d' => changes tr = (l.filter (· ∉ d.mPresent)).map .add ∧
        d'.mPresent = d.mPresent)
      (fun tr d' => (∃ rest, changes tr ++ rest = (l.filter (· ∉ d.mPresent)).map .add) ∧
        d'.mPresent = d.mPresent) d := by
  refine wp_changeLoop (fun iface d₁ h₁ => ?_) l rfl
  refine wp_bind.2 (wp_deviceCall.2 fun d₂ he => ⟨?_, fun hf => by cases hF _ hf⟩)
  rintro present (rfl : present = d₂.mPresent)
  have h₂ : d₂.mPresent = d.mPresent := (sameService_of_env hR he).mPresent.trans h₁
  by_cases hp : iface ∉ d₂.mPresent
  · rw [if_pos hp]
    refine (wp_showNotification hR iface _).mono ?_ ?_
    · rintro tr - d' ⟨htr, hd'⟩
      exact ⟨by simp [changes_cons, Op.change, htr, ← h₂, hp], hd'.trans h₂⟩
    · rintro tr d' ⟨htr, hd'⟩
      exact ⟨by simp [changes_cons, Op.change, htr], hd'.trans h₂⟩
  · rw [if_neg hp]
    refine (wp_pure ()).2 ⟨?_, h₂⟩
    simpa [changes_cons, Op.change, ← h₂] using hp

/-- The second loop cancels what the poll did not find. -/
theorem wp_cancelLoop (hR : ∀ d d', R d d' → Env d d') (dongles : HashSet String)
    (l : List String) (d : Device) :
    Wp (system F R)
      (l.forM fun iface => do if iface ∉ dongles then cancelNotification iface)
      (fun tr _ d' => changes tr = (l.filter (· ∉ dongles)).map .remove ∧
        d'.mPresent = d.mPresent)
      (fun tr d' => (∃ rest, changes tr ++ rest = (l.filter (· ∉ dongles)).map .remove) ∧
        d'.mPresent = d.mPresent) d := by
  refine wp_changeLoop (fun iface d₁ h₁ => ?_) l rfl
  by_cases hp : iface ∉ dongles
  · rw [if_pos hp]
    refine (wp_cancelNotification hR iface d₁).mono ?_ ?_
    · rintro tr - d' ⟨htr, hd'⟩
      exact ⟨by simp [htr, hp], hd'.trans h₁⟩
    · rintro tr d' ⟨htr, hd'⟩
      exact ⟨htr, hd'.trans h₁⟩
  · rw [if_neg hp]
    exact (wp_pure ()).2 ⟨by simpa using hp, h₁⟩

/-- The last statements make the dongles the new `mPresent`. -/
theorem wp_refreshPresent (hF : ∀ o, F o → o.isFramework = true)
    (hR : ∀ d d', R d d' → Env d d') (dongles : HashSet String) (d : Device) :
    Wp (system F R)
      (do
        call (.setPresent HashSet.empty)
        let added ← call (.visit dongles)
        call (.setPresent ((← call .getPresent).addAll added)))
      (fun tr _ d' => changes tr = [] ∧ d'.mPresent.toSet = dongles.toSet) (fun _ _ => False)
      d := by
  refine wp_bind.2 (wp_deviceCall.2 fun d₁ _ => ⟨fun _ _ => ?_, fun hf => by cases hF _ hf⟩)
  refine wp_bind.2 (wp_deviceCall.2 fun d₂ he₂ => ⟨?_, fun hf => by cases hF _ hf⟩)
  rintro added (hadded : dongles.Visits added)
  refine wp_bind.2 (wp_deviceCall.2 fun d₃ he₃ => ⟨?_, fun hf => by cases hF _ hf⟩)
  rintro present (rfl : present = d₃.mPresent)
  refine wp_deviceCall.2 fun d₄ _ => ⟨fun _ _ => ⟨rfl, ?_⟩, fun hf => by cases hF _ hf⟩
  have hempty : d₃.mPresent = HashSet.empty :=
    (sameService_of_env hR he₃).mPresent.trans (sameService_of_env hR he₂).mPresent
  ext a
  show a ∈ d₃.mPresent.addAll added ↔ a ∈ dongles
  rw [HashSet.mem_addAll, hempty, hadded.mem_iff]
  simp

/-- A poll that updates the notifications makes all the changes from `mPresent` to `dongles`, or
throws after some of them without touching `mPresent`. -/
theorem wp_updateNotifications (hF : ∀ o, F o → o.isFramework = true)
    (hR : ∀ d d', R d d' → Env d d') (dongles : HashSet String) (d : Device) :
    Wp (system F R) (updateNotifications dongles)
      (fun tr _ d' => Diff d.mPresent.toSet dongles.toSet (changes tr) ∧
        d'.mPresent.toSet = dongles.toSet)
      (fun tr d' => (∃ rest, Diff d.mPresent.toSet dongles.toSet (changes tr ++ rest)) ∧
        d'.mPresent = d.mPresent) d := by
  -- what is new and what is gone, whatever order the loops take
  have hnew : ∀ {l : List String}, dongles.Visits l →
      (l.filter (· ∉ d.mPresent)).Nodup ∧ ∀ a, a ∈ l.filter (· ∉ d.mPresent) ↔
        a ∈ dongles.toSet ∧ a ∉ d.mPresent.toSet := fun hl =>
    ⟨hl.nodup.filter _, fun a => by simp [List.mem_filter, hl.mem_iff]⟩
  have hold : ∀ {l : List String}, d.mPresent.Visits l →
      (l.filter (· ∉ dongles)).Nodup ∧ ∀ a, a ∈ l.filter (· ∉ dongles) ↔
        a ∈ d.mPresent.toSet ∧ a ∉ dongles.toSet := fun hl =>
    ⟨hl.nodup.filter _, fun a => by simp [List.mem_filter, hl.mem_iff]⟩
  refine wp_bind.2 (wp_deviceCall.2 fun d₁ he₁ => ⟨fun l hl => ?_, fun hf => by cases hF _ hf⟩)
  have h₁ : d₁.mPresent = d.mPresent := (sameService_of_env hR he₁).mPresent
  refine wp_bind.2 ((wp_showLoop hF hR l d₁).mono ?_ ?_)
  · rintro tr₁ - d₂ ⟨htr₁, h₂⟩
    rw [h₁] at htr₁ h₂
    refine wp_bind.2 (wp_deviceCall.2 fun d₃ he₃ => ⟨?_, fun hf => by cases hF _ hf⟩)
    rintro present (rfl : present = d₃.mPresent)
    have h₃ : d₃.mPresent = d.mPresent := (sameService_of_env hR he₃).mPresent.trans h₂
    refine wp_bind.2 (wp_deviceCall.2 fun d₄ he₄ => ⟨fun l' hl' => ?_, fun hf => by cases hF _ hf⟩)
    have h₄ : d₄.mPresent = d.mPresent := (sameService_of_env hR he₄).mPresent.trans h₃
    rw [h₃] at hl'
    have hdiff : Diff d.mPresent.toSet dongles.toSet ((l.filter (· ∉ d.mPresent)).map .add ++
        (l'.filter (· ∉ dongles)).map .remove) := ⟨_, _, hnew hl, hold hl', rfl⟩
    refine wp_bind.2 ((wp_cancelLoop hR dongles l' d₄).mono ?_ ?_)
    · rintro tr₂ - d₅ ⟨htr₂, h₅⟩
      refine (wp_refreshPresent hF hR dongles d₅).mono ?_ fun _ _ => False.elim
      rintro tr₃ - d' ⟨htr₃, hd'⟩
      refine ⟨?_, hd'⟩
      simpa [changes_cons, Op.change, htr₁, htr₂, htr₃] using hdiff
    · rintro tr₂ d' ⟨⟨rest, hrest⟩, hd'⟩
      refine ⟨⟨rest, ?_⟩, hd'.trans h₄⟩
      rw [← hrest] at hdiff
      simpa [changes_cons, Op.change, htr₁] using hdiff
  · rintro tr₁ d' ⟨⟨rest, hrest⟩, hd'⟩
    refine ⟨⟨rest ++ (d.mPresent.elems.filter (· ∉ dongles)).map .remove, ?_⟩, hd'.trans h₁⟩
    refine ⟨_, _, hnew hl, hold d.mPresent.visits_elems, ?_⟩
    rw [h₁] at hrest
    rw [← hrest]
    simp [changes_cons, Op.change]

end Loops

end DragonQ6A.Adapter
