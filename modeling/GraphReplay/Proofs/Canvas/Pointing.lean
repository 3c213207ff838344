import Mathlib.Algebra.Order.Field.Basic
import Mathlib.Algebra.Order.Field.Rat
import Mathlib.Data.List.Induction
import Mathlib.Tactic.FieldSimp
import Mathlib.Tactic.Linarith
import Mathlib.Tactic.NormNum
import Mathlib.Tactic.Ring
import GraphReplay.Canvas.View

/-!
# What stays under the pointer

The view with exact arithmetic.  The scale stays within its bounds, and the wheel keeps the world
point under the pointer.  A drag places the world from where it was when the drag began, so what the
wheel shifts in the meantime is lost with the next move: the point that was grabbed is held just if
the scale is the one that the drag began with, or if it is the origin of the world
(`pointer_keeps_world_point`).
-/

namespace GraphReplay

/-- Whether a drag that goes on before the event goes on after it. -/
def PointerEvent.keepsDrag {K : Type} : PointerEvent K → Bool
  | .move .. | .wheel .. => true
  | .press .. | .release | .leave => false

namespace View

variable {v : View ℚ} {g : Grab ℚ} {events : List (PointerEvent ℚ)}

/-- The world point that is shown at `(px, py)`. -/
def under (v : View ℚ) (px py : ℚ) : ℚ × ℚ :=
  ((px - v.x) / v.k, (py - v.y) / v.k)

/-- The view after a run of events. -/
def run (v : View ℚ) (events : List (PointerEvent ℚ)) : View ℚ :=
  events.foldl handle v

theorem run_append (v : View ℚ) (xs ys : List (PointerEvent ℚ)) :
    v.run (xs ++ ys) = (v.run xs).run ys :=
  List.foldl_append

/-! ## 1. The scale -/

/-- A view with a scale from a tenth to ten. -/
structure Bounded (v : View ℚ) : Prop where
  least : 1 / 10 ≤ v.k
  most : v.k ≤ 10

theorem Bounded.pos (h : Bounded v) : 0 < v.k :=
  lt_of_lt_of_le (by norm_num) h.least

theorem boundedScale_bounds (k : ℚ) : 1 / 10 ≤ boundedScale k ∧ boundedScale k ≤ 10 := by
  unfold boundedScale
  split
  · norm_num
  · next hleast =>
    rw [not_lt] at hleast
    split
    · norm_num
    · next hmost =>
      rw [not_lt] at hmost
      constructor <;> linarith

theorem Bounded.handle (h : Bounded v) (e : PointerEvent ℚ) : Bounded (v.handle e) := by
  cases e with
  | press px py => exact ⟨h.least, h.most⟩
  | move px py =>
    unfold View.handle
    cases v.grab with
    | none => exact h
    | some g => exact ⟨h.least, h.most⟩
  | release => exact ⟨h.least, h.most⟩
  | leave => exact ⟨h.least, h.most⟩
  | wheel px py delta =>
    obtain ⟨hleast, hmost⟩ := boundedScale_bounds (if 0.0 < delta then v.k * 0.9 else v.k * 1.1)
    exact ⟨hleast, hmost⟩

theorem Bounded.run (h : Bounded v) (events : List (PointerEvent ℚ)) : Bounded (v.run events) := by
  induction events generalizing v with
  | nil => exact h
  | cons e events ih => exact ih (h.handle e)

theorem bounded_initial : Bounded (initial : View ℚ) := by
  constructor <;> unfold initial <;> norm_num

/-! ## 2. The wheel -/

/-- The wheel scales the world about the pointer. -/
theorem Bounded.under_wheel (h : Bounded v) (px py delta : ℚ) :
    (v.handle (.wheel px py delta)).under px py = v.under px py := by
  have hk := h.pos.ne'
  have hk' := (h.handle (.wheel px py delta)).pos.ne'
  unfold View.handle under at *
  dsimp only at *
  generalize wheelScale v.k delta = k at *
  rw [Prod.mk.injEq, sub_sub_cancel, sub_sub_cancel]
  constructor <;> field_simp

/-! ## 3. Drags -/

theorem grab_handle {e : PointerEvent ℚ} (h : e.keepsDrag = true) : (v.handle e).grab = v.grab := by
  cases e with
  | move px py =>
    unfold handle
    cases hgrab : v.grab with
    | none => exact hgrab
    | some g => rfl
  | wheel px py delta => rfl
  | press px py => exact nomatch h
  | release => exact nomatch h
  | leave => exact nomatch h

theorem grab_run (h : ∀ e ∈ events, e.keepsDrag = true) : (v.run events).grab = v.grab := by
  induction events generalizing v with
  | nil => rfl
  | cons e events ih =>
    obtain ⟨hfirst, hrest⟩ := List.forall_mem_cons.mp h
    exact (ih hrest).trans (grab_handle hfirst)

theorem scale_run_of_moves (h : ∀ e ∈ events, ∃ px py, e = .move px py) :
    (v.run events).k = v.k := by
  induction events generalizing v with
  | nil => rfl
  | cons e events ih =>
    obtain ⟨⟨px, py, rfl⟩, hrest⟩ := List.forall_mem_cons.mp h
    refine (ih hrest).trans ?_
    unfold handle
    cases v.grab <;> rfl

theorem exists_press (h : (initial.run events).grab.isSome = true) :
    ∃ earlier px py since, events = earlier ++ .press px py :: since ∧
      ∀ e ∈ since, e.keepsDrag = true := by
  induction events using List.reverseRecOn with
  | nil => exact nomatch h
  | append_singleton events e ih =>
    rw [run_append] at h
    change ((initial.run events).handle e).grab.isSome = true at h
    by_cases hkeeps : e.keepsDrag = true
    · rw [grab_handle hkeeps] at h
      obtain ⟨earlier, px, py, since, rfl, hsince⟩ := ih h
      refine ⟨earlier, px, py, since ++ [e], List.append_assoc _ _ _, ?_⟩
      exact List.forall_mem_append.mpr ⟨hsince, List.forall_mem_singleton.mpr hkeeps⟩
    · cases e with
      | press px py => exact ⟨events, px, py, [], rfl, nofun⟩
      | move px py => exact absurd rfl hkeeps
      | wheel px py delta => exact absurd rfl hkeeps
      | release => exact nomatch h
      | leave => exact nomatch h

/-- From a press on, the drag remembers where the pointer and the world were then. -/
theorem grab_run_of_press (earlier : List (PointerEvent ℚ)) (px py : ℚ)
    {since : List (PointerEvent ℚ)} (h : ∀ e ∈ since, e.keepsDrag = true) :
    let start := initial.run earlier
    (initial.run (earlier ++ .press px py :: since)).grab = some ⟨px, py, start.x, start.y⟩ := by
  intro start
  rw [run_append]
  exact grab_run h

theorem under_move (h : v.grab = some g) (px py : ℚ) :
    (v.handle (.move px py)).under px py = ((g.pointerX - g.x) / v.k, (g.pointerY - g.y) / v.k) := by
  unfold handle under
  rw [h]
  dsimp only
  rw [Prod.mk.injEq]
  constructor <;> congr 1 <;> ring

/-- Offsets at two scales agree just if the scales do, or if there is no offset. -/
theorem offset_eq_iff {a b k l : ℚ} (hl : l ≠ 0) :
    (a / k, b / k) = (a / l, b / l) ↔ k = l ∨ (a / l, b / l) = (0, 0) := by
  have hcancel : ∀ {c : ℚ}, c ≠ 0 → c / k = c / l → k = l := by
    intro c hc heq
    rw [div_eq_mul_inv, div_eq_mul_inv] at heq
    exact inv_injective (mul_left_cancel₀ hc heq)
  rw [Prod.mk.injEq, Prod.mk.injEq]
  constructor
  · rintro ⟨ha, hb⟩
    by_cases hzero : a = 0 ∧ b = 0
    · rw [hzero.1, hzero.2, zero_div]
      exact Or.inr ⟨rfl, rfl⟩
    · rw [not_and_or] at hzero
      rcases hzero with hne | hne
      · exact Or.inl (hcancel hne ha)
      · exact Or.inl (hcancel hne hb)
  · rintro (rfl | ⟨ha, hb⟩)
    · exact ⟨rfl, rfl⟩
    · obtain rfl := (div_eq_zero_iff.mp ha).resolve_right hl
      obtain rfl := (div_eq_zero_iff.mp hb).resolve_right hl
      simp only [zero_div, and_self]

/-! ## 4. The world point of the pointer -/

/-- In every run the scale stays from a tenth to ten, and a turn of the wheel leaves the world point
that is under the pointer.  A drag goes on just if there was a press, and since then only moves and
the wheel.  A move then brings the world point of the press under the pointer just if the scale is the
one of the press or the point is the origin of the world, and always if the wheel did not turn. -/
theorem pointer_keeps_world_point (events : List (PointerEvent ℚ)) :
    let v := initial.run events
    (1 / 10 ≤ v.k ∧ v.k ≤ 10) ∧
    (∀ px py delta, (v.handle (.wheel px py delta)).under px py = v.under px py) ∧
    (v.grab.isSome = true ↔ ∃ earlier px py since, events = earlier ++ .press px py :: since ∧
      ∀ e ∈ since, e.keepsDrag = true) ∧
    ∀ earlier px py since, events = earlier ++ .press px py :: since →
      (∀ e ∈ since, e.keepsDrag = true) →
      let start := initial.run earlier
      ∀ qx qy,
        ((v.handle (.move qx qy)).under qx qy = start.under px py ↔
          v.k = start.k ∨ start.under px py = (0, 0)) ∧
        ((∀ e ∈ since, ∃ x y, e = .move x y) →
          (v.handle (.move qx qy)).under qx qy = start.under px py) := by
  intro v
  have hbounded : Bounded v := bounded_initial.run events
  refine ⟨⟨hbounded.least, hbounded.most⟩, hbounded.under_wheel, ⟨exists_press, ?_⟩, ?_⟩
  · rintro ⟨earlier, px, py, since, hevents, hsince⟩
    have hgrab := grab_run_of_press earlier px py hsince
    rw [← hevents] at hgrab
    exact Option.isSome_of_eq_some hgrab
  · intro earlier px py since hevents hsince start qx qy
    have hgrab := grab_run_of_press earlier px py hsince
    rw [← hevents] at hgrab
    have hstart : Bounded start := bounded_initial.run earlier
    have hheld : (v.handle (.move qx qy)).under qx qy = start.under px py ↔
        v.k = start.k ∨ start.under px py = (0, 0) := by
      rw [under_move hgrab]
      exact offset_eq_iff hstart.pos.ne'
    refine ⟨hheld, fun hmoves => hheld.mpr (Or.inl ?_)⟩
    have hlast : v = (start.handle (.press px py)).run since := by
      show initial.run events = _
      rw [hevents, run_append]
      rfl
    rw [hlast]
    exact scale_run_of_moves hmoves

/-- The drag begins at the greatest scale, which the wheel cannot exceed, so the point is held. -/
theorem pointer_keeps_world_point_of_greatest_scale :
    let earlier : List (PointerEvent ℚ) := List.replicate 25 (.wheel 3 4 (-1))
    let since : List (PointerEvent ℚ) := [.wheel 7 7 (-1), .move 1 2, .wheel 0 5 (-1)]
    let start := initial.run earlier
    let v := initial.run (earlier ++ .press 5 6 :: since)
    start.k = 10 ∧ v.grab.isSome = true ∧ v.k = 10 ∧
      (v.handle (.wheel 8 9 1)).under 8 9 = v.under 8 9 ∧
      (v.handle (.move (-2) 11)).under (-2) 11 = start.under 5 6 := by
  intro earlier since start v
  have hstart : start.k = 10 := by decide +kernel
  have hscale : v.k = 10 := by decide +kernel
  have hsince : ∀ e ∈ since, e.keepsDrag = true := by decide +kernel
  obtain ⟨_, hwheel, hdrag, hheld⟩ :=
    pointer_keeps_world_point (earlier ++ .press 5 6 :: since)
  exact ⟨hstart, hdrag.mpr ⟨earlier, 5, 6, since, rfl, hsince⟩, hscale, hwheel 8 9 1,
    (hheld earlier 5 6 since rfl hsince (-2) 11).1.mpr (Or.inl (hscale.trans hstart.symm))⟩

/-- The wheel turns down once while the world is held at (10, 0).  The point stays there, until a move
that does not even change the place of the pointer puts another one in its place. -/
theorem not_held_after_wheel :
    let start : View ℚ := initial
    let v := start.run [.press 10 0, .wheel 10 0 1]
    v.grab.isSome = true ∧ start.under 10 0 = (10, 0) ∧ v.under 10 0 = (10, 0) ∧
      (v.handle (.move 10 0)).under 10 0 = (100 / 9, 0) := by
  decide +kernel

end View

end GraphReplay
