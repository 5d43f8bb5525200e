import Mathlib.Algebra.GroupWithZero.Nat
import Mathlib.Data.List.Basic

/-! Finite runs of a labelled step relation, and of an executable partial step
function under a side condition on its steps. -/
namespace Rtos.Lib

variable {S A : Type}

/-- A run from `s`, with the state and the label at the start of every step. -/
inductive Run (R : S → A → S → Prop) (s : S) : List (S × A) → S → Prop where
  | nil : Run R s [] s
  | snoc {tr : List (S × A)} {t u : S} {a : A} :
      Run R s tr t → R t a u → Run R s (tr ++ [(t, a)]) u

def Reach (R : S → A → S → Prop) (s t : S) : Prop := ∃ tr, Run R s tr t

theorem Run.append {R : S → A → S → Prop} {s t u : S} {tr us : List (S × A)}
    (first : Run R s tr t) (second : Run R t us u) : Run R s (tr ++ us) u := by
  induction second with
  | nil => simpa using first
  | snoc _ hstep ih => rw [← List.append_assoc]; exact .snoc ih hstep

theorem Run.invariant {R : S → A → S → Prop} {P : S → Prop} {s t : S} {tr : List (S × A)}
    (run : Run R s tr t) (start : P s) (keeps : ∀ t a u, P t → R t a u → P u) : P t := by
  induction run with
  | nil => exact start
  | snoc _ hstep ih => exact keeps _ _ _ ih hstep

theorem Run.mono {R Q : S → A → S → Prop} {s t : S} {tr : List (S × A)}
    (run : Run R s tr t) (weaker : ∀ t a u, R t a u → Q t a u) : Run Q s tr t := by
  induction run with
  | nil => exact .nil
  | snoc _ hstep ih => exact .snoc ih (weaker _ _ _ hstep)

/-- Amortised counting: a step that is counted works off one unit, and any other step asks for
some more. -/
theorem Run.amortized {R : S → A → S → Prop} {P : S → Prop} (work : S → Nat)
    (counts : S × A → Bool) (asks : S × A → Nat) {s t : S} {tr : List (S × A)} (run : Run R s tr t)
    (start : P s) (keeps : ∀ t a u, P t → R t a u →
      P u ∧ (if counts (t, a) then 1 else 0) + work u ≤ work t + asks (t, a)) :
    P t ∧ tr.countP counts + work t ≤ work s + (tr.map asks).sum := by
  induction run with
  | nil => exact ⟨start, by simp⟩
  | @snoc tr t u a _ hstep ih =>
    obtain ⟨now, bound⟩ := ih
    obtain ⟨next, paid⟩ := keeps t a u now hstep
    refine ⟨next, ?_⟩
    simp only [List.countP_append, List.countP_singleton, List.map_append, List.map_singleton,
      List.sum_append_nat, List.sum_singleton]
    omega

/-- A function of the states that takes every step to a step, or to no step, takes runs to runs. -/
theorem Run.simulates {T B : Type} {R : S → A → S → Prop} {Q : T → B → T → Prop} {P : S → Prop}
    (abs : S → T) (label : S × A → Option B) {s t : S} {tr : List (S × A)} (run : Run R s tr t)
    (start : P s) (keeps : ∀ t a u, P t → R t a u →
      P u ∧ (label (t, a)).elim (abs u = abs t) fun b => Q (abs t) b (abs u)) :
    P t ∧ ∃ us, Run Q (abs s) us (abs t) ∧ us.map Prod.snd = tr.filterMap label := by
  induction run with
  | nil => exact ⟨start, [], .nil, rfl⟩
  | @snoc tr t u a _ hstep ih =>
    obtain ⟨now, us, prior, labels⟩ := ih
    obtain ⟨next, does⟩ := keeps t a u now hstep
    refine ⟨next, ?_⟩
    cases move : label (t, a) with
    | none =>
      rw [move] at does
      exact ⟨us, does ▸ prior, by simp [labels, move]⟩
    | some b =>
      rw [move] at does
      exact ⟨us ++ [(abs t, b)], prior.snoc does, by simp [labels, move]⟩

theorem Run.step_at {R : S → A → S → Prop} {s t : S} {tr : List (S × A)}
    (run : Run R s tr t) (p : S × A) (member : p ∈ tr) :
    Reach R s p.1 ∧ ∃ u, R p.1 p.2 u := by
  induction run with
  | nil => cases member
  | snoc prior hstep ih =>
    rcases List.mem_append.mp member with old | new
    · exact ih old
    · cases List.mem_singleton.mp new
      exact ⟨⟨_, prior⟩, _, hstep⟩

theorem Run.invariant_at {R : S → A → S → Prop} {P : S → Prop} {s t : S} {tr : List (S × A)}
    (run : Run R s tr t) (start : P s)
    (keeps : ∀ p ∈ tr, ∀ u, P p.1 → R p.1 p.2 u → P u) : (∀ p ∈ tr, P p.1) ∧ P t := by
  induction run with
  | nil => exact ⟨by simp, start⟩
  | @snoc tr t u a _ hstep ih =>
    obtain ⟨before, now⟩ := ih fun p mem => keeps p (List.mem_append_left _ mem)
    have last : (t, a) ∈ tr ++ [(t, a)] := List.mem_append_right _ List.mem_cons_self
    refine ⟨?_, keeps (t, a) last u now hstep⟩
    intro p mem
    rcases List.mem_append.mp mem with old | new
    · exact before p old
    · cases List.mem_singleton.mp new; exact now

theorem Reach.refl (R : S → A → S → Prop) (s : S) : Reach R s s := ⟨[], .nil⟩

theorem Reach.next {R : S → A → S → Prop} {s t u : S} {a : A}
    (h : Reach R s t) (hstep : R t a u) : Reach R s u := by
  obtain ⟨tr, run⟩ := h
  exact ⟨_, run.snoc hstep⟩

theorem Reach.invariant {R : S → A → S → Prop} {P : S → Prop} {s t : S}
    (h : Reach R s t) (start : P s) (keeps : ∀ t a u, P t → R t a u → P u) : P t := by
  obtain ⟨_, run⟩ := h
  exact run.invariant start keeps

/-- The relation of a partial step function, restricted to the steps that meet `ok`. -/
def Steps (step : S → A → Option S) (ok : S → A → S → Prop) (s : S) (a : A) (t : S) : Prop :=
  step s a = some t ∧ ok s a t

/-- Execute a list of labels; stop at a step that is not enabled or does not meet `ok`. -/
def exec (step : S → A → Option S) (ok : S → A → S → Bool) : S → List A → Option S
  | s, [] => some s
  | s, a :: rest =>
    match step s a with
    | none => none
    | some t => if ok s a t then exec step ok t rest else none

/-- The states and labels that an execution goes through. -/
def visited (step : S → A → Option S) : S → List A → List (S × A)
  | _, [] => []
  | s, a :: rest =>
    match step s a with
    | none => []
    | some t => (s, a) :: visited step t rest

theorem exec_run {step : S → A → Option S} {ok : S → A → S → Bool} {s t : S} {as : List A}
    (h : exec step ok s as = some t) :
    Run (Steps step fun s a t => ok s a t = true) s (visited step s as) t := by
  induction as generalizing s with
  | nil =>
    obtain rfl : s = t := Option.some.inj h
    exact .nil
  | cons a rest ih =>
    simp only [exec] at h
    split at h
    · contradiction
    · rename_i u hu
      split at h
      · rename_i hok
        have first : Run (Steps step fun s a t => ok s a t = true) s ([] ++ [(s, a)]) u :=
          Run.nil.snoc ⟨hu, hok⟩
        simp only [visited, hu]
        exact first.append (ih h)
      · contradiction

end Rtos.Lib
