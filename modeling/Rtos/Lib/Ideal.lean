import Rtos.Lib.Run
import Mathlib.Logic.Function.Basic

/-! What a multitasking kernel is for, without its tables and its timing: tasks that run, sleep until
a time or stand in a line, counters of tokens, and locks. There is no queue of ready tasks: any
runnable task that no other one outranks may be made current. -/
namespace Rtos.Lib

inductive IdealState.Mode where
  | runnable
  /-- until the clock shows `due` -/
  | asleep (due : Nat)
  /-- in the line of some counter -/
  | waiting
  deriving DecidableEq, Repr

/-- Tasks `T`, counters `R` and locks `M`. -/
@[ext]
structure IdealState (T R M : Type) where
  clock : Nat
  mode : T → IdealState.Mode
  current : T
  /-- not before the counter has been made -/
  tokens : R → Option Int
  line : R → List T
  owner : M → Option T

/-- What happens in one move. Where no task is named, it is the current one. -/
inductive IdealState.Move (T R M : Type) where
  | tick
  | wake (t : T)
  | sleep (ticks : Nat)
  | take (r : R)
  | join (r : R)
  /-- a token goes to the first in the line -/
  | hand (r : R)
  /-- a token is left -/
  | give (r : R)
  | make (r : R) (n : Int)
  | lock (m : M)
  | unlock (m : M)
  | dispatch (t : T)
  deriving DecidableEq, Repr

section does
variable {T R M P : Type} [DecidableEq T] [DecidableEq R] [DecidableEq M] [LE P]

/-- The moves of an ideal kernel with the tasks `created`. A counter that would leave the range
`Fits` may take any value. -/
inductive Does (created : T → Prop) (prio : T → P) (Fits : Int → Prop) (x : IdealState T R M) :
    IdealState.Move T R M → IdealState T R M → Prop where
  /-- the clock never passes a deadline of a task that is still asleep -/
  | tick (kept : ∀ t, created t → ∀ due, x.mode t = .asleep due → x.clock < due) :
      Does created prio Fits x .tick { x with clock := x.clock + 1 }
  | wake {t : T} (task : created t) (due : x.mode t = .asleep x.clock) :
      Does created prio Fits x (.wake t) { x with mode := Function.update x.mode t .runnable }
  | sleep {d : Nat} (runs : x.mode x.current = .runnable) (pos : 0 < d) :
      Does created prio Fits x (.sleep d)
        { x with mode := Function.update x.mode x.current (.asleep (x.clock + d)) }
  | take {r : R} {n : Int} (runs : x.mode x.current = .runnable) (made : x.tokens r = some n)
      (free : 0 < n) (first : x.line r = []) : Does created prio Fits x (.take r)
        { x with tokens := Function.update x.tokens r (some (n - 1)) }
  | join {r : R} {n : Int} (runs : x.mode x.current = .runnable) (made : x.tokens r = some n)
      (none : n ≤ 0) : Does created prio Fits x (.join r)
        { x with
          mode := Function.update x.mode x.current .waiting
          line := Function.update x.line r (x.line r ++ [x.current]) }
  | hand {r : R} {t : T} {rest : List T} (task : created t) (first : x.line r = t :: rest) :
      Does created prio Fits x (.hand r)
        { x with
          mode := Function.update x.mode t .runnable
          line := Function.update x.line r rest }
  | give {r : R} {n k : Int} (made : x.tokens r = some n) (empty : x.line r = [])
      (counts : Fits (n + 1) → k = n + 1) : Does created prio Fits x (.give r)
        { x with tokens := Function.update x.tokens r (some k) }
  | make {r : R} {n : Int} (fresh : x.tokens r = none) (empty : x.line r = []) :
      Does created prio Fits x (.make r n)
        { x with tokens := Function.update x.tokens r (some n) }
  | lock {m : M} (runs : x.mode x.current = .runnable) (free : x.owner m = none) :
      Does created prio Fits x (.lock m)
        { x with owner := Function.update x.owner m (some x.current) }
  | unlock {m : M} (runs : x.mode x.current = .runnable) (own : x.owner m = some x.current) :
      Does created prio Fits x (.unlock m) { x with owner := Function.update x.owner m none }
  | dispatch {t : T} (task : created t) (runs : x.mode t = .runnable)
      (best : ∀ u, created u → x.mode u = .runnable → prio u ≤ prio t) :
      Does created prio Fits x (.dispatch t) { x with current := t }

end does
end Rtos.Lib
