import Rtos.Machine.Run

/-! Every schedule can happen: from `_rtos_start` on, any tasks can be selected and entered in
any order. The tasks of these runs are preempted before their first instruction. -/
namespace Rtos
open Lib

section handler
variable (L : Layout) (x : TaskId) (c : Cpu)

/-- An `os_schedule` that selects task `x` and does nothing else. -/
def selectOnly : Cpu :=
  { c with
    mem := Function.update c.mem L.currentTask (L.tcb x)
    writes := c.writes ++ [L.currentTask] }

def pendSvHandler : Cpu :=
  (selectOnly L x ((pendSvHalf L c).run pendSvCall)).run (pendSvRestore L)

end handler

section enabled
variable {L : Layout} {h : History} {c : Cpu} {x : TaskId}

theorem selectOnly_schedules (placed : L.Placed) (hx : x < L.tasks.length)
    (msp : c.msp = L.msp - 4) : Schedules L x c (selectOnly L x c) := by
  have other : ∀ a, a ≠ L.currentTask → (selectOnly L x c).mem a = c.mem a :=
    fun a ne => Function.update_of_ne ne _ _
  have scratch := placed.scratch (L.msp - 4) (.inr (.inl rfl))
  refine ⟨hx, Function.update_self .., fun _ _ => rfl, rfl, rfl, rfl, ?_, ?_, ?_, ?_, ?_⟩
  · intro t a mem
    refine other a ?_
    rintro rfl
    exact placed.reserved _ Layout.reserved_current t mem
  · intro t ht
    exact other _ (placed.pool t ht).1
  · exact Memory.readByte_congr (other _ placed.globals.symm)
  · refine other _ fun eq => scratch.1 ?_
    rw [← msp, eq]; exact Layout.reserved_current
  · refine ⟨[L.currentTask], rfl, fun a mem => ?_⟩
    cases List.mem_singleton.mp mem
    exact ⟨placed.reserved _ Layout.reserved_current, fun t ht => (placed.pool t ht).1.symm⟩

theorem pendSvHandler_spec (placed : L.Placed) (hx : x < L.tasks.length) (msp : c.msp = L.msp) :
    PendSv L x c (pendSvHandler L x c) := by
  refine ⟨_, selectOnly_schedules placed hx ?_, rfl⟩
  rw [pendSvCall_pushes, (pendSvHalf_keeps L c).2.2.1, msp]

theorem CoreInv.switches (inv : CoreInv L h c .pendSv) (placed : L.Placed)
    (hx : x < L.tasks.length) :
    CoreStep L ⟨c, .pendSv⟩ (.switch x) ⟨pendSvHandler L x c, .leaving⟩ :=
  .switch (pendSvHandler_spec placed hx inv.msp)

/-- The exception entry asks for room only on the stack of the task that runs. -/
theorem CoreInv.room (inv : CoreInv L h c .thread) (placed : L.Placed)
    (room : ∀ x, h.current = some x → L.Room x c.psp) (started : c.mem.readByte L.rtosStarted ≠ 0) :
    ∀ x < L.tasks.length, c.mem L.currentTask = L.tcb x → L.Room x c.psp :=
  fun x hx current => room x (inv.own placed started hx current)

theorem CoreInv.leaves (inv : CoreInv L h c .leaving) :
    ∃ c', CoreStep L ⟨c, .leaving⟩ .leave ⟨c', .thread⟩ :=
  ⟨_, .leave (Cpu.exceptionReturn_psp (inv.lr (by simp)))⟩

end enabled

/-- Task `t` has nothing on its stack when it goes on from `ctx`. -/
def Context.Empty (L : Layout) (t : TaskId) (ctx : Context) : Prop :=
  ∃ xpsr, ctx.frame.getLast? = some xpsr ∧
    unstackedSp ctx.psp xpsr = L.stackAddr t (L.stackWords t)

theorem entry_empty {L : Layout} {t : TaskId} {c : Cpu} (spsel : c.spsel = true)
    (top : c.psp = L.stackAddr t (L.stackWords t)) : (context c.exceptionEntry).Empty L t := by
  obtain ⟨psp, words⟩ := Cpu.exceptionEntry_frame spsel
  refine ⟨stackedPsr c.xpsr (c.psp.getLsbD 2), ?_, ?_⟩
  · rw [context, psp, words]; rfl
  · rw [context, psp, unstackedSp_frameAddr, top]

theorem return_empty {L : Layout} {t : TaskId} {c c' : Cpu} (lr : c.reg .lr = excReturnPsp)
    (empty : (context c).Empty L t) (returns : c.exceptionReturn = some c') :
    c'.psp = L.stackAddr t (L.stackWords t) := by
  rw [Cpu.exceptionReturn_psp lr] at returns
  cases Option.some.inj returns
  obtain ⟨xpsr, last, top⟩ := empty
  rw [context, Memory.readWords_append 7 1, Memory.readWords_one, List.getLast?_concat] at last
  cases Option.some.inj last
  exact top

/-- Thread mode, with all the stacks empty. -/
structure Resting (L : Layout) (h : History) (c : Cpu) : Prop where
  inv : CoreInv L h c .thread
  empty : ∀ t < L.tasks.length, h.current ≠ some t → (h.context L t).Empty L t
  top : ∀ x, h.current = some x → c.psp = L.stackAddr x (L.stackWords x)

namespace Resting
variable {L : Layout} {h : History} {c : Cpu}

theorem start (placed : L.Placed) (starts : L.Starts c) : Resting L .start c :=
  ⟨.start placed starts, fun _ ht _ => ⟨_, rfl, Layout.created_top placed ht⟩, by simp⟩

theorem room (rest : Resting L h c) (placed : L.Placed)
    (words : ∀ t < L.tasks.length, 17 ≤ L.stackWords t)
    (started : c.mem.readByte L.rtosStarted ≠ 0) :
    ∀ x < L.tasks.length, c.mem L.currentTask = L.tcb x → L.Room x c.psp := by
  refine rest.inv.room placed (fun x cur => ?_) started
  have le := words x (rest.inv.running x cur).2.1
  exact .of_le (rest.top x cur) le_rfl le

theorem round (rest : Resting L h c) (placed : L.Placed)
    (words : ∀ t < L.tasks.length, 17 ≤ L.stackWords t) {x : TaskId} (hx : x < L.tasks.length) :
    ∃ tr c', Run (CoreStep L) ⟨c, .thread⟩ tr ⟨c', .thread⟩ ∧
      Resting L (tr.foldl History.next h) c' ∧
      (tr.foldl History.next h).selected = h.selected ++ [x] ∧
      (tr.foldl History.next h).entered = h.entered ++ [x] := by
  have entered := rest.inv.enter placed (rest.room placed words)
  have switched := entered.switch (s := ⟨_, .pendSv⟩) placed (pendSvHandler_spec placed hx entered.msp)
  obtain ⟨c', leaves⟩ := switched.leaves
  let h' := h.next (⟨c.exceptionEntry, .pendSv⟩, .switch x)
  have now : h'.current = some x := by
    simp [h', History.current, History.next]
  have empty : ∀ t < L.tasks.length, (h'.context L t).Empty L t := by
    intro t ht
    by_cases cur : h.current = some t
    · have saved : h'.context L t = context c.exceptionEntry := by
        simp [h', History.context, History.next, cur]
      rw [saved]; exact entry_empty rest.inv.spsel (rest.top t cur)
    · have same : h'.context L t = h.context L t := by
        cases running : h.current with
        | none => simp [h', History.context, History.next, running]
        | some u =>
          have other : t ≠ u := fun eq => cur (eq ▸ running)
          simp [h', History.context, History.next, running, other]
      rw [same]; exact rest.empty t ht cur
  have run : Run (CoreStep L) ⟨c, .thread⟩
      ([] ++ [(_, .enter)] ++ [(_, .switch x)] ++ [(_, .leave)]) ⟨c', .thread⟩ :=
    ((Run.nil.snoc (.enter (rest.room placed words))).snoc (entered.switches placed hx)).snoc leaves
  refine ⟨_, c', run, ⟨?_, fun t ht _ => empty t ht, fun y cur => ?_⟩, rfl, ?_⟩
  · exact switched.step (s := ⟨_, .leaving⟩) placed leaves
  · obtain rfl := Option.some.inj (now.symm.trans cur)
    cases leaves with
    | leave returns =>
      refine return_empty (switched.lr (by simp)) ?_ returns
      rw [switched.leaving x now rfl]; exact empty x hx
  · show h.entered ++ h'.current.toList = h.entered ++ [x]
    rw [now]; rfl

end Resting

theorem any_schedule {L : Layout} {c : Cpu} (placed : L.Placed) (starts : L.Starts c)
    (words : ∀ t < L.tasks.length, 17 ≤ L.stackWords t) (xs : List TaskId)
    (created : ∀ x ∈ xs, x < L.tasks.length) :
    ∃ tr c', Run (CoreStep L) ⟨c, .thread⟩ tr ⟨c', .thread⟩ ∧ Resting L (history tr) c' ∧
      (history tr).selected = xs ∧ (history tr).entered = xs := by
  induction xs using List.reverseRecOn with
  | nil => exact ⟨[], c, .nil, .start placed starts, rfl, rfl⟩
  | append_singleton xs x ih =>
    obtain ⟨tr, c', run, rest, selected, entered⟩ :=
      ih fun y mem => created y (List.mem_append_left _ mem)
    obtain ⟨tr', d, run', rest', selected', entered'⟩ :=
      rest.round placed words (created x (List.mem_append_right _ List.mem_cons_self))
    have both : history (tr ++ tr') = tr'.foldl History.next (history tr) := List.foldl_append ..
    refine ⟨tr ++ tr', d, run.append run', ?_, ?_, ?_⟩
    · rw [both]; exact rest'
    · rw [both, selected', selected]
    · rw [both, entered', entered]

end Rtos
