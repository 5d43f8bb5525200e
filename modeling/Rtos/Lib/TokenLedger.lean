import Mathlib.Data.List.Basic

/-! A counting semaphore as a ledger. `n` tokens are there at the start, each signal adds one,
and each grant hands one to a call. A call that finds no token waits its turn. -/
namespace Rtos.Lib

/-- The accounts balance, and nobody waits while there is a token. -/
structure Ledger (C : Type) (n : Nat) where
  tokens : Nat
  signals : Nat
  granted : List C
  waiting : List C
  balance : tokens + granted.length = n + signals
  busy : 0 < tokens → waiting = []

namespace Ledger
variable {C : Type} {n : Nat}

def start (n : Nat) : Ledger C n :=
  { tokens := n, signals := 0, granted := [], waiting := [], balance := rfl, busy := fun _ => rfl }

/-- The calls in the order in which they came: first the granted ones. -/
def entered (l : Ledger C n) : List C := l.granted ++ l.waiting

/-- A call takes a token. -/
def take (l : Ledger C n) (c : C) (free : 0 < l.tokens) : Ledger C n :=
  { l with
    tokens := l.tokens - 1
    granted := l.granted ++ [c]
    balance := by have := l.balance; simp; omega
    busy := fun _ => l.busy free }

/-- A call finds no token and waits. -/
def queue (l : Ledger C n) (c : C) (taken : l.tokens = 0) : Ledger C n :=
  { l with waiting := l.waiting ++ [c], busy := by omega }

/-- A signal hands its token to the first call that waits. -/
def handOver (l : Ledger C n) (c : C) (rest : List C) (first : l.waiting = c :: rest) :
    Ledger C n :=
  { l with
    signals := l.signals + 1
    granted := l.granted ++ [c]
    waiting := rest
    balance := by have := l.balance; simp; omega
    busy := fun free => by rw [l.busy free] at first; cases first }

/-- A signal with nobody waiting leaves its token. -/
def put (l : Ledger C n) (empty : l.waiting = []) : Ledger C n :=
  { l with
    tokens := l.tokens + 1
    signals := l.signals + 1
    balance := by have := l.balance; omega
    busy := fun _ => empty }

theorem take_entered (l : Ledger C n) (c : C) (free : 0 < l.tokens) :
    (l.take c free).entered = l.entered ++ [c] := by
  simp [entered, take, l.busy free]

theorem queue_entered (l : Ledger C n) (c : C) (taken : l.tokens = 0) :
    (l.queue c taken).entered = l.entered ++ [c] := by
  simp [entered, queue]

theorem handOver_entered (l : Ledger C n) (c : C) (rest : List C) (first : l.waiting = c :: rest) :
    (l.handOver c rest first).entered = l.entered := by
  simp [entered, handOver, first]

theorem put_entered (l : Ledger C n) (empty : l.waiting = []) : (l.put empty).entered = l.entered :=
  rfl

/-- A call that waits at place `j` waits for `j + 1` signals, whoever comes after it. -/
theorem countdown (l l' : Ledger C n) (later : l.entered <+: l'.entered) {j m : Nat} {c : C}
    (place : l.waiting[j]? = some c) (signals : l'.signals = l.signals + m) :
    (m ≤ j → l'.waiting[j - m]? = some c) ∧ (j < m → c ∈ l'.granted) := by
  have waits : l.waiting ≠ [] := by
    intro empty
    rw [empty] at place
    cases place
  have none : l.tokens = 0 := Nat.eq_zero_of_not_pos fun free => waits (l.busy free)
  have before := l.balance
  have after := l'.balance
  have entered : (l'.granted ++ l'.waiting)[l.granted.length + j]? = some c := by
    obtain ⟨more, eq⟩ := later
    rw [show l'.granted ++ l'.waiting = l.granted ++ l.waiting ++ more from eq.symm,
      List.append_assoc, List.getElem?_append_right (Nat.le_add_right _ _), Nat.add_sub_cancel_left,
      List.getElem?_append_left (List.getElem?_eq_some_iff.mp place).1, place]
  constructor
  · intro le
    have short : l'.granted.length ≤ l.granted.length + j := by omega
    rw [List.getElem?_append_right short] at entered
    have still : l'.tokens = 0 := by
      refine Nat.eq_zero_of_not_pos fun free => ?_
      rw [l'.busy free] at entered
      cases entered
    rwa [show l.granted.length + j - l'.granted.length = j - m by omega] at entered
  · intro lt
    by_cases free : 0 < l'.tokens
    · rw [l'.busy free, List.append_nil] at entered
      exact List.mem_of_getElem? entered
    · rw [List.getElem?_append_left (by omega)] at entered
      exact List.mem_of_getElem? entered

theorem granted_prefix (l : Ledger C n) : l.granted <+: l.entered := List.prefix_append _ _

end Ledger
end Rtos.Lib
