import Mathlib.Data.Fintype.Pigeonhole
import Mathlib.Data.Set.Finite.Lattice
import Mathlib.Logic.Relation
import Mathlib.Order.Basic

/-! Circular waits. `W t o` says that `t` waits for `o`; a dead party goes on never. -/
namespace Rtos.Lib
open Relation

variable {T : Type}

/-- `t` waits, directly or through others, for a circle of waits or for a dead party. -/
def Stuck (W : T → T → Prop) (dead : T → Prop) (t : T) : Prop :=
  ∃ o, ReflTransGen W t o ∧ (TransGen W o o ∨ dead o)

section stuck
variable {W W' : T → T → Prop} {dead dead' : T → Prop} {t o : T}

theorem Stuck.of_circle (h : TransGen W t t) : Stuck W dead t := ⟨t, .refl, .inl h⟩

theorem Stuck.of_waits (first : W t o) (h : Stuck W dead o) : Stuck W dead t := by
  obtain ⟨p, path, ends⟩ := h
  exact ⟨p, .head first path, ends⟩

/-- Who is stuck and not dead waits for one who is stuck. -/
theorem Stuck.waits (h : Stuck W dead t) (alive : ¬ dead t) : ∃ o, W t o ∧ Stuck W dead o := by
  obtain ⟨o, path, ends⟩ := h
  rcases ReflTransGen.cases_head path with rfl | ⟨next, first, rest⟩
  · rcases ends with circle | gone
    · obtain ⟨next, first, rest⟩ := TransGen.head'_iff.mp circle
      exact ⟨next, first, t, rest, .inl circle⟩
    · exact absurd gone alive
  · exact ⟨next, first, o, rest, ends⟩

/-- If the stuck wait on and the dead stay dead, the stuck stay stuck. -/
theorem Stuck.mono (h : Stuck W dead t) (waits : ∀ x y, Stuck W dead x → W x y → W' x y)
    (gone : ∀ x, dead x → dead' x) : Stuck W' dead' t := by
  obtain ⟨o, path, ends⟩ := h
  have onCircle : ∀ x, TransGen W o x → Stuck W dead x → TransGen W' o x := by
    intro x walk
    induction walk with
    | single last => exact fun _ => .single (waits _ _ ⟨o, .refl, ends⟩ last)
    | @tail x y walk last ih =>
      intro stuck
      have before : Stuck W dead x := .of_waits last stuck
      exact (ih before).tail (waits _ _ before last)
  have follow : ReflTransGen W' t o := by
    induction path using ReflTransGen.head_induction_on with
    | refl => exact .refl
    | head first rest ih => exact .head (waits _ _ ⟨o, .head first rest, ends⟩ first) ih
  refine ⟨o, follow, ends.imp (fun circle => ?_) (gone o)⟩
  exact onCircle o circle ⟨o, .refl, .inl circle⟩

/-- A nonempty finite set in which everyone waits for a member holds a circle, so it is stuck. -/
theorem stuck_of_closed {D : Set T} (finite : D.Finite) (closed : ∀ x ∈ D, ∃ y ∈ D, W x y)
    (member : t ∈ D) : Stuck W dead t := by
  choose next inside waits using closed
  let follow : D → D := fun x => ⟨next x.1 x.2, inside x.1 x.2⟩
  have walk : ∀ i j (x : D), TransGen W (follow^[i] x).1 (follow^[i + (j + 1)] x).1 := by
    intro i j x
    induction j with
    | zero =>
      rw [Function.iterate_succ_apply']
      exact .single (waits _ _)
    | succ j ih =>
      rw [← Nat.add_assoc, Function.iterate_succ_apply']
      exact ih.tail (waits _ _)
  have : Finite D := finite
  obtain ⟨i, j, other, same⟩ := Finite.exists_ne_map_eq_of_infinite fun i => follow^[i] ⟨t, member⟩
  have circle : ∃ i, TransGen W (follow^[i] ⟨t, member⟩).1 (follow^[i] ⟨t, member⟩).1 := by
    rcases Nat.lt_or_gt_of_ne other with lt | lt
    · obtain ⟨d, rfl⟩ := Nat.exists_eq_add_of_lt lt
      have round := walk i d ⟨t, member⟩
      exact ⟨i, by rwa [← Nat.add_assoc, ← same] at round⟩
    · obtain ⟨d, rfl⟩ := Nat.exists_eq_add_of_lt lt
      have round := walk j d ⟨t, member⟩
      exact ⟨j, by rwa [← Nat.add_assoc, same] at round⟩
  obtain ⟨n, round⟩ := circle
  refine ⟨_, ?_, .inl round⟩
  cases n with
  | zero => exact .refl
  | succ n =>
    have path := walk 0 n ⟨t, member⟩
    rw [Nat.zero_add] at path
    exact path.to_reflTransGen

/-- Waits that only ever climb close no circle. -/
theorem no_circle {α : Type} [Preorder α] (rank : T → α)
    (up : ∀ x y z, W x y → W y z → rank x < rank y) (t : T) : ¬ TransGen W t t := by
  have climbs : ∀ {x y}, TransGen W x y → ∀ z, W y z → rank x < rank y := by
    intro x y walk
    induction walk with
    | single last => exact fun z next => up _ _ z last next
    | tail walk last ih => exact fun z next => (ih _ last).trans (up _ _ z last next)
  intro circle
  obtain ⟨next, first, -⟩ := TransGen.head'_iff.mp circle
  exact lt_irrefl _ (climbs circle next first)

end stuck

end Rtos.Lib
