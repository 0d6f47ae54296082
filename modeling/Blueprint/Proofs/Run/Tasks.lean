import Blueprint.Proofs.Run.View

/-!
The numbers of tasks. Every task that was given out is on one list entry or on one frame at most, and
its number is never given out again (`RunView.Numbered`). The work of a run keeps that
(`Numbered.labour`), so the task that is polled is the one that was meant (`takeTask_of_once`).
-/

set_option autoImplicit false

namespace Blueprint

/-- A node that goes back to a task when it has to wait. -/
def Frame.isOf (task : Nat) : Frame → Bool
  | .drain _ => false
  | .node _ home => home == some task

namespace RunView

/-- How often a task occurs. -/
def holders (v : RunView) (task : Nat) : Nat :=
  v.frames.countP (·.isOf task) + v.tasks.countP fun entry ↦ entry.1 == task

/-- Every task occurs once at most, and only numbers that were given out. -/
structure Numbered (nextTask : Nat) (v : RunView) : Prop where
  once : ∀ task, v.holders task ≤ 1
  given : ∀ task, nextTask ≤ task → v.holders task = 0

/-- No task occurs more often than a count allows, but for a new one. -/
def Hands (m m' : Machine) (count : Nat → Nat) (after : RunView) : Prop :=
  ∀ task, after.holders task ≤ count task ∨
    (m.nextTask ≤ task ∧ task < m'.nextTask ∧ after.holders task = count task + 1)

variable {m m' : Machine} {run : RunId} {v after : RunView} {c : Context}
  {written : List (String × Value)} {lost : List Nat} {count : Nat → Nat}

theorem hands_of_le (h : ∀ task, after.holders task ≤ count task) : Hands m m' count after :=
  fun task ↦ Or.inl (h task)

theorem holders_finish (v : RunView) (scope task : Nat) :
    (v.finish scope).holders task = v.holders task := by
  unfold RunView.finish
  split
  · rfl
  · split <;> rfl

theorem holders_conclude (v : RunView) (call : NodeCall) (ending : Ending) (task : Nat) :
    (v.conclude call ending).holders task = v.holders task := by
  unfold RunView.conclude
  split_ifs
  · exact holders_finish v call.scope task
  · exact holders_finish _ call.scope task

/-- A task is put at the end of the list. -/
theorem holders_append (v : RunView) (task other : Nat) (a : Activity) :
    ({ v with tasks := v.tasks ++ [(task, a)] } : RunView).holders other =
      v.holders other + if task = other then 1 else 0 := by
  simp only [holders, List.countP_append, List.countP_singleton, beq_iff_eq]
  omega

/-- A node is put on the frames. -/
theorem holders_push (v : RunView) (context : Option Context) (active : Option ActiveRun)
    (a : Activity) (home : Option Nat) (task : Nat) :
    ({ v with context, active, frames := .node a home :: v.frames } : RunView).holders task =
      v.holders task + if home = some task then 1 else 0 := by
  simp only [holders, List.countP_cons, Frame.isOf, beq_iff_eq]
  omega

theorem Shelves.hands {a : Activity} {home : Option Nat} {tasks : List (Nat × Activity)}
    (h : Shelves m m' c a v.tasks home tasks lost) :
    Hands m m' (fun task ↦ v.holders task + if home = some task then 1 else 0)
      { v with tasks } := by
  intro task
  cases h with
  | back home =>
    refine Or.inl ?_
    rw [holders_append]
    simp
  | spawned fresh htasks hold hnew =>
    rw [holders_append]
    by_cases htask : fresh = task
    · exact Or.inr ⟨htask ▸ hold, htask ▸ hnew, by simp [htask]⟩
    · exact Or.inl (by simp [htask])
  | lost htasks => exact Or.inl (Nat.le_add_right _ _)

theorem Invokes.hands {call : NodeCall} (h : Invokes m m' run call v c after lost) :
    Hands m m' v.holders after := by
  cases h with
  | unknown hkind => exact hands_of_le fun task ↦ Nat.le_of_eq (holders_conclude v call _ task)
  | spawned kind fresh hkind hmode htasks hold hnew =>
    intro task
    rw [holders_append]
    by_cases htask : fresh = task
    · exact Or.inr ⟨htask ▸ hold, htask ▸ hnew, by simp [htask]⟩
    · exact Or.inl (by simp [htask])
  | lost | queued => exact hands_of_le fun task ↦ Nat.le_refl _
  | drained => exact hands_of_le fun task ↦ by simp [holders, Frame.isOf]

/-- Assumes: a request of a node that was taken off the frames. -/
theorem Serves.hands {a : Activity} {home : Option Nat} {request : Behaviour}
    (h : Serves m m' run v c a home request after written lost) :
    Hands m m' (fun task ↦ v.holders task + if home = some task then 1 else 0) after := by
  cases h with
  | ended ending hending =>
    refine hands_of_le fun task ↦ ?_
    rw [holders_conclude]
    exact Nat.le_add_right _ _
  | answered | unwired => exact hands_of_le fun task ↦ Nat.le_of_eq (holders_push v _ _ _ home task)
  | paused hpause hshelves => exact hshelves.hands
  | wired pin next active target bindings hactive hpin htarget hinvokes =>
    intro task
    have hhands := hinvokes.hands task
    rw [holders_push] at hhands
    exact hhands

theorem Labour.hands (h : Labour m m' run v c after written lost) :
    Hands m m' v.holders after := by
  cases h with
  | polled before rest task a htasks hcan =>
    refine hands_of_le fun other ↦ ?_
    simp only [holders, htasks, List.countP_cons, List.countP_append, Frame.isOf, beq_iff_eq,
      Option.some.injEq]
    omega
  | shelved a home rest hframes hcan hshelves =>
    have hpop (task : Nat) : v.holders task =
        ({ v with frames := rest } : RunView).holders task + if home = some task then 1 else 0 := by
      rw [← holders_push _ v.context v.active a home task, ← hframes]
    intro task
    rw [hpop task]
    exact hshelves.hands (v := { v with frames := rest }) task
  | served a home rest hframes hcan hresumes hserves =>
    have hpop (task : Nat) : v.holders task =
        ({ v with frames := rest } : RunView).holders task + if home = some task then 1 else 0 := by
      rw [← holders_push _ v.context v.active a home task, ← hframes]
    intro task
    rw [hpop task]
    exact hserves.hands task
  | released rest hframes hcalls =>
    exact hands_of_le fun task ↦ by simp [holders, hframes, Frame.isOf]
  | taken rest call calls kind hframes hcalls hkind =>
    refine hands_of_le fun task ↦ ?_
    simp [holders, Frame.isOf]
  | skipped rest call calls hframes hcalls hkind =>
    exact hands_of_le fun task ↦ Nat.le_of_eq (holders_conclude _ call _ task)

/-- The work of a run keeps its tasks apart. -/
theorem Numbered.labour (h : v.Numbered m.nextTask) (hle : m.nextTask ≤ m'.nextTask)
    (hlabour : Labour m m' run v c after written lost) : after.Numbered m'.nextTask := by
  refine ⟨fun task ↦ ?_, fun task htask ↦ ?_⟩
  · rcases hlabour.hands task with hkept | ⟨hold, -, hnew⟩
    · exact Nat.le_trans hkept (h.once task)
    · have hnone := h.given task hold
      omega
  · rcases hlabour.hands task with hkept | ⟨-, hnew, -⟩
    · have hnone := h.given task (Nat.le_trans hle htask)
      omega
    · omega

theorem Numbered.later (h : v.Numbered m.nextTask) (hle : m.nextTask ≤ m'.nextTask) :
    v.Numbered m'.nextTask :=
  ⟨h.once, fun task htask ↦ h.given task (Nat.le_trans hle htask)⟩

end RunView

namespace Machine

/-- A task that occurs once is found. -/
theorem takeTask_of_once {tasks : List (Nat × Activity)} {task : Nat} {a : Activity}
    (hmem : (task, a) ∈ tasks) (honce : tasks.countP (fun entry ↦ entry.1 == task) ≤ 1) :
    ∃ rest, takeTask task tasks = some (a, rest) := by
  induction tasks with
  | nil => cases hmem
  | cons first tasks ih =>
    obtain ⟨number, other⟩ := first
    rw [takeTask]
    rcases List.mem_cons.mp hmem with hfirst | hlater
    · obtain ⟨rfl, rfl⟩ := Prod.mk.inj hfirst
      exact ⟨tasks, by simp⟩
    · have hpos : 0 < tasks.countP fun entry ↦ entry.1 == task :=
        List.countP_pos_iff.mpr ⟨_, hlater, by simp⟩
      rw [List.countP_cons] at honce
      by_cases hnumber : number = task
      · rw [if_pos (by simp [hnumber])] at honce
        omega
      · obtain ⟨rest, hrest⟩ := ih hlater (by omega)
        exact ⟨(number, other) :: rest, by simp [hnumber, hrest]⟩

end Machine

end Blueprint
