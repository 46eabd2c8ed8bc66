import Mathlib
/-!
# `Depth.Threshold` — room decides on nothing but want of room

What goes down into a tree may run out of room. If room decides on nothing else, there is a result
that no room is spoken of in, and a least room from which on that result is given; with less there
is an error that stands for want of room (`Guarded`). This is kept by what such functions are put
together with: going on with the result of another one takes the larger of two rooms, and going down
takes what is needed there on top.
-/
namespace Lox

variable {ε α β : Type}

/-! ## Results within some room -/

/-- The result is an error for want of room. -/
def Exceeds (deep : ε → Prop) (x : Except ε α) : Prop := ∃ e, deep e ∧ x = .error e

@[simp] theorem exceeds_eq {e : ε} {x : Except ε α} : Exceeds (· = e) x ↔ x = .error e := by
  simp [Exceeds]

@[simp] theorem exceeds_error {deep : ε → Prop} {e : ε} :
    Exceeds deep (.error e : Except ε α) ↔ deep e := by
  simp [Exceeds]

@[simp] theorem not_exceeds_ok {deep : ε → Prop} (a : α) : ¬Exceeds deep (.ok a) := by
  simp [Exceeds]

/-- With enough room the result is `free`, and with less it is one of the errors `deep`. -/
structure Guarded (deep : ε → Prop) (within : Nat → Except ε α) (free : Except ε α) : Prop where
  free_fits : ¬Exceeds deep free
  threshold : ∃ least, ∀ room, (least ≤ room → within room = free) ∧
    (room < least → Exceeds deep (within room))

/-- The result is the one within a certain room, and that it has a room changes it only
if it is for want of room. -/
structure Limited (deep : ε → Prop) (within : Nat → Except ε α) (limit : Nat)
    (result free : Except ε α) : Prop
    extends Guarded deep within free where
  eq_within : result = within limit
  eq_free : ¬Exceeds deep result → result = free

namespace Guarded

variable {deep : ε → Prop} {within : Nat → Except ε α} {free : Except ε α}

theorem eq_free_of_le (h : Guarded deep within free) {room room' : Nat} (hle : room ≤ room')
    (hroom : ¬Exceeds deep (within room)) : within room' = free := by
  obtain ⟨least, hleast⟩ := h.threshold
  have hfits : least ≤ room := Nat.le_of_not_lt fun hlt => hroom ((hleast room).2 hlt)
  exact (hleast room').1 (hfits.trans hle)

theorem eq_free (h : Guarded deep within free) {room : Nat} (hroom : ¬Exceeds deep (within room)) :
    within room = free :=
  h.eq_free_of_le le_rfl hroom

/-- More room changes no result but the error. -/
theorem mono (h : Guarded deep within free) {room room' : Nat} (hle : room ≤ room')
    (hroom : ¬Exceeds deep (within room)) : within room' = within room :=
  (h.eq_free_of_le hle hroom).trans (h.eq_free hroom).symm

theorem limited (h : Guarded deep within free) (limit : Nat) :
    Limited deep within limit (within limit) free :=
  ⟨h, rfl, h.eq_free⟩

/-- A result that takes no room. -/
theorem const (h : ¬Exceeds deep free) : Guarded deep (fun _ => free) free :=
  ⟨h, 0, fun _ => ⟨fun _ => rfl, fun hlt => absurd hlt (Nat.not_lt_zero _)⟩⟩

theorem ok (a : α) : Guarded deep (fun _ => .ok a) (.ok a) := const (not_exceeds_ok a)

/-- What goes on with a value takes its own room, and both start with the same. -/
theorem bind {go : α → Nat → Except ε β} {free' : α → Except ε β} (h : Guarded deep within free)
    (hgo : ∀ a, Guarded deep (go a) (free' a)) :
    Guarded deep (fun room => within room >>= (go · room)) (free >>= free') := by
  obtain ⟨hfits, least, hleast⟩ := h
  -- Where the first of them runs out of room, the whole does.
  have hshort : ∀ room, room < least → Exceeds deep (within room >>= (go · room)) := by
    intro room hlt
    obtain ⟨e, he, heq⟩ := (hleast room).2 hlt
    rw [heq]
    exact ⟨e, he, rfl⟩
  cases free with
  -- An error that is not for want of room ends the whole, so that what follows takes none.
  | error e =>
      refine ⟨fun hdeep => hfits (exceeds_error.mpr (exceeds_error.mp hdeep)), least, fun room =>
        ⟨?_, hshort room⟩⟩
      intro hle
      show within room >>= (go · room) = _
      rw [(hleast room).1 hle]
      rfl
  -- Otherwise both have to fit, and which of them does not makes no difference.
  | ok a =>
      obtain ⟨hfits', least', hleast'⟩ := hgo a
      refine ⟨hfits', max least least', fun room => ⟨fun hle => ?_, fun hlt => ?_⟩⟩
      · show within room >>= (go · room) = free' a
        rw [(hleast room).1 ((Nat.le_max_left _ _).trans hle)]
        exact (hleast' room).1 ((Nat.le_max_right _ _).trans hle)
      · by_cases hle : least ≤ room
        · show Exceeds deep (within room >>= (go · room))
          rw [(hleast room).1 hle]
          exact (hleast' room).2 (by omega)
        · exact hshort room (Nat.lt_of_not_le hle)

theorem map (h : Guarded deep within free) (f : α → β) :
    Guarded deep (fun room => within room >>= fun a => .ok (f a)) (free >>= fun a => .ok (f a)) :=
  h.bind fun a => .ok (f a)

/-- Going down takes room, and needs no less than it takes. -/
theorem descend (h : Guarded deep within free) {e : ε} (he : deep e) {need cost : Nat}
    (hcost : cost ≤ need) :
    Guarded deep (fun room => if need ≤ room then within (room - cost) else .error e) free := by
  obtain ⟨hfits, least, hleast⟩ := h
  refine ⟨hfits, max need (least + cost), fun room => ⟨fun hle => ?_, fun hlt => ?_⟩⟩
  · show (if need ≤ room then within (room - cost) else .error e) = free
    rw [if_pos ((Nat.le_max_left _ _).trans hle)]
    exact (hleast _).1 (by omega)
  · show Exceeds deep (if need ≤ room then within (room - cost) else .error e)
    split
    · exact (hleast _).2 (by omega)
    · exact exceeds_error.mpr he

/-- If more room changes no result but the error, and some room is enough, then
there is a least room that is. -/
theorem of_mono
    (hmono : ∀ room spare, ¬Exceeds deep (within room) → within (room + spare) = within room)
    {ample : Nat} (hample : ¬Exceeds deep (within ample)) : Guarded deep within (within ample) := by
  classical
  have hexists : ∃ room, ¬Exceeds deep (within room) := ⟨ample, hample⟩
  have hfrom : ∀ room, Nat.find hexists ≤ room → within room = within (Nat.find hexists) := by
    intro room hle
    have hspare := hmono (Nat.find hexists) (room - Nat.find hexists) (Nat.find_spec hexists)
    rwa [Nat.add_sub_cancel' hle] at hspare
  refine ⟨hample, Nat.find hexists, fun room => ⟨fun hle => ?_, fun hlt => ?_⟩⟩
  · rw [hfrom room hle, hfrom ample (Nat.find_le hample)]
  · exact not_not.mp (Nat.find_min hexists hlt)

end Guarded
end Lox
