import Mathlib.Data.List.Basic
import Mathlib.Data.List.Induction
import Mathlib.Logic.Function.Basic

/-! A first-in-first-out queue kept in an array of optional slots with a length:
append at the first free slot, take from slot 0 and shift the rest down. -/
namespace Rtos.Lib

variable {α : Type}

/-- The slots hold the queue from index 0 on and are empty behind it. -/
def SlotsHold (slots : Nat → Option α) (len : Nat) (q : List α) : Prop :=
  len = q.length ∧ ∀ i, slots i = q[i]?

/-- `for (i = 0; i < n; i++) slots[i] = slots[i + 1]`, after `n` iterations. -/
def shiftSlots (slots : Nat → Option α) : Nat → Nat → Option α
  | 0 => slots
  | n + 1 => Function.update (shiftSlots slots n) n (shiftSlots slots n (n + 1))

theorem shiftSlots_apply (slots : Nat → Option α) (n i : Nat) :
    shiftSlots slots n i = if i < n then slots (i + 1) else slots i := by
  induction n generalizing i with
  | zero => simp [shiftSlots]
  | succ n ih =>
    rw [shiftSlots]
    by_cases here : i = n
    · subst here
      rw [Function.update_self, ih, if_neg (by omega), if_pos (by omega)]
    · rw [Function.update_of_ne here, ih]
      by_cases below : i < n
      · rw [if_pos below, if_pos (by omega)]
      · rw [if_neg below, if_neg (by omega)]

theorem SlotsHold.nil {slots : Nat → Option α} (h : ∀ i, slots i = none) :
    SlotsHold slots 0 [] := by
  refine ⟨rfl, ?_⟩
  intro i
  rw [h i, List.getElem?_nil]

theorem SlotsHold.append {slots : Nat → Option α} {len : Nat} {q : List α}
    (h : SlotsHold slots len q) (a : α) :
    SlotsHold (Function.update slots len (some a)) (len + 1) (q ++ [a]) := by
  obtain ⟨hlen, hslots⟩ := h
  refine ⟨by simp [hlen], ?_⟩
  intro i
  by_cases last : i = len
  · subst last
    rw [Function.update_self, hlen]
    simp
  · rw [Function.update_of_ne last, hslots]
    by_cases below : i < q.length
    · rw [List.getElem?_append_left below]
    · rw [List.getElem?_eq_none (by omega), List.getElem?_eq_none (by simp; omega)]

theorem SlotsHold.takeFirst {slots : Nat → Option α} {len : Nat} {a : α} {q : List α}
    (h : SlotsHold slots len (a :: q)) :
    SlotsHold (Function.update (shiftSlots slots (len - 1)) (len - 1) none) (len - 1) q := by
  obtain ⟨hlen, hslots⟩ := h
  have hq : len - 1 = q.length := by simp [hlen]
  refine ⟨hq, ?_⟩
  intro i
  by_cases last : i = len - 1
  · subst last
    rw [Function.update_self, hq, List.getElem?_eq_none (by omega)]
  · rw [Function.update_of_ne last, shiftSlots_apply]
    by_cases below : i < len - 1
    · rw [if_pos below, hslots, List.getElem?_cons_succ]
    · have beyond : len - 1 < i := by omega
      rw [if_neg below, hslots, List.getElem?_eq_none (by simp; omega),
        List.getElem?_eq_none (by omega)]

theorem SlotsHold.first {slots : Nat → Option α} {len : Nat} {q : List α}
    (h : SlotsHold slots len q) : slots 0 = q.head? := by
  rw [h.2 0, List.head?_eq_getElem?]

theorem SlotsHold.empty_iff {slots : Nat → Option α} {len : Nat} {q : List α}
    (h : SlotsHold slots len q) : len = 0 ↔ q = [] := by
  rw [h.1, List.length_eq_zero_iff]

theorem SlotsHold.toList {slots : Nat → Option α} {len : Nat} {q : List α}
    (h : SlotsHold slots len q) : (List.range len).filterMap slots = q := by
  obtain ⟨rfl, hslots⟩ := h
  have eq : slots = fun i => q[i]? := funext hslots
  subst eq
  induction q using List.reverseRecOn with
  | nil => rfl
  | append_singleton q a ih =>
    have below : (List.range q.length).filterMap (fun i => (q ++ [a])[i]?) =
        (List.range q.length).filterMap fun i => q[i]? := by
      apply List.filterMap_congr
      intro i hi
      rw [List.getElem?_append_left (List.mem_range.mp hi)]
    rw [List.length_append, List.length_singleton, List.range_succ, List.filterMap_append,
      below, ih fun _ => rfl]
    simp

end Rtos.Lib
