import Blueprint.Proofs.Run.Nesting
import Blueprint.Run.Execution

/-!
What a host comes to that makes one execution after another. Besides what happens anyway, contexts
that nothing refers to are dropped (`Machine.collect`) when nothing is on the frames. All runs stay
sound over that (`Reaches.sound`), and where a context has no place for tasks, none of its nodes is
left at work (`Reaches.placed`).
-/

set_option autoImplicit false

namespace Blueprint

theorem Table.get?_filter {κ α : Type} [DecidableEq κ] (t : Table κ α) (keeps : κ → Bool) (key : κ) :
    (⟨t.entries.filter fun entry ↦ keeps entry.1⟩ : Table κ α).get? key =
      if keeps key then t.get? key else none := by
  obtain ⟨entries⟩ := t
  simp only [Table.get?]
  induction entries with
  | nil => simp [Table.find]
  | cons entry rest ih =>
    obtain ⟨k, value⟩ := entry
    by_cases hk : k = key
    · subst hk
      cases hkeeps : keeps k with
      | true => simp [Table.find, hkeeps]
      | false =>
        rw [hkeeps] at ih
        simpa [Table.find, hkeeps] using ih
    · cases hkeeps : keeps k with
      | true => simpa [Table.find, hkeeps, hk] using ih
      | false => simpa [Table.find, hkeeps, hk] using ih

namespace RunView

variable {m m' : Machine} {run : RunId} {v after : RunView} {c : Context} {lost : List Nat}
  {written : List (String × Value)} {history : List (String × Value)} {provider : Provider}

/-- With nothing on the frames, nobody drains, and no call is queued. -/
theorem Balanced.queued_eq_nil (h : v.Balanced [] lost) (hframes : v.frames = []) : v.queued = [] := by
  rw [queued]
  cases hcontext : v.context with
  | none => rfl
  | some c =>
    obtain ⟨hcount, hidle⟩ := h.drains c hcontext
    refine hidle ?_
    by_contra hdraining
    rw [hframes, if_pos (by simpa using hdraining)] at hcount
    cases hcount

/-! ### No place for tasks -/

theorem conclude_eq (v : RunView) (call : NodeCall) (ending : Ending) :
    ∃ context active, v.conclude call ending = { v with context, active } := by
  have hfinish (v : RunView) : ∃ context active, v.finish call.scope = { v with context, active } := by
    unfold RunView.finish
    split
    · exact ⟨v.context, v.active, rfl⟩
    · split
      · exact ⟨v.context, v.active, rfl⟩
      · exact ⟨_, _, rfl⟩
  unfold RunView.conclude
  split_ifs
  · exact hfinish v
  · exact hfinish _

/-- No task of a run is suspended, and none is on the frames. -/
def Taskless (v : RunView) : Prop := v.tasks = [] ∧ ∀ a task, .node a (some task) ∉ v.frames

theorem Taskless.conclude (h : v.Taskless) (call : NodeCall) (ending : Ending) :
    (v.conclude call ending).Taskless := by
  obtain ⟨context, active, hconclude⟩ := conclude_eq v call ending
  rw [hconclude]
  exact h

theorem Taskless.pop {frame : Frame} {rest : List Frame} (h : v.Taskless)
    (hframes : v.frames = frame :: rest) : ({ v with frames := rest } : RunView).Taskless :=
  ⟨h.1, fun a task hmem ↦ h.2 a task (hframes ▸ List.mem_cons_of_mem _ hmem)⟩

theorem Taskless.push (h : v.Taskless) (frame : Frame) (hframe : ∀ a task, frame ≠ .node a (some task)) :
    ({ v with frames := frame :: v.frames } : RunView).Taskless := by
  refine ⟨h.1, fun a task hmem ↦ ?_⟩
  rcases List.mem_cons.mp hmem with heq | hold
  · exact hframe a task heq.symm
  · exact h.2 a task hold

theorem Taskless.invokes {call : NodeCall} (h : v.Taskless) (hplace : c.hasTasks = false)
    (hinvokes : Invokes m m' run call v c after lost) : after.Taskless := by
  cases hinvokes with
  | unknown hkind => exact h.conclude call _
  | spawned kind task hkind hmode htasks => cases hplace.symm.trans htasks
  | lost => exact h
  | queued => exact h
  | drained =>
    exact h.push (.drain run) fun _ _ ↦ Frame.noConfusion

/-- Assumes: a node that is not on a task. -/
theorem Taskless.serves {a : Activity} {request : Behaviour} (h : v.Taskless)
    (hplace : c.hasTasks = false)
    (hserves : Serves m m' run v c a none request after written lost) : after.Taskless := by
  have hnode (a : Activity) (b : Activity) (task : Nat) : Frame.node a none ≠ .node b (some task) :=
    fun heq ↦ nomatch (Frame.node.inj heq).2
  cases hserves with
  | ended ending hending => exact h.conclude a.call ending
  | answered | unwired => exact h.push _ (hnode _)
  | paused hpause hshelves =>
    cases hshelves with
    | spawned task htasks => cases hplace.symm.trans htasks
    | lost => exact h
  | wired pin next active target bindings hactive hpin htarget hinvokes =>
    refine Taskless.invokes ?_ ?_ hinvokes
    · exact h.push _ (hnode _)
    · exact hplace

theorem Taskless.labour (h : v.Taskless) (hplace : c.hasTasks = false)
    (hlabour : Labour m m' run v c after written lost) : after.Taskless := by
  cases hlabour with
  | polled before rest task a htasks =>
    rw [h.1] at htasks
    simp at htasks
  | shelved a home rest hframes hcan hshelves =>
    cases hshelves with
    | back task => exact absurd (hframes ▸ List.mem_cons_self) (h.2 a task)
    | spawned task htasks => cases hplace.symm.trans htasks
    | lost => exact h.pop hframes
  | served a home rest hframes hcan hresumes hserves =>
    cases home with
    | some task => exact absurd (hframes ▸ List.mem_cons_self) (h.2 a task)
    | none => exact (h.pop hframes).serves hplace hserves
  | released rest hframes => exact h.pop hframes
  | taken rest call calls kind => exact h.push _ fun b task heq ↦ nomatch (Frame.node.inj heq).2
  | skipped rest call calls =>
    exact Taskless.conclude (v := { v with context := some { c with queue := { c.queue with calls } } }) h call _

/-- A run without a place for tasks has none. -/
def Seated (v : RunView) : Prop := ∀ c, v.context = some c → c.hasTasks = false → v.Taskless

theorem Taskless.begins {graphs : Table Nat Graph} {inputs : Inputs} (h : v.Taskless)
    (hplace : c.hasTasks = false) (hbegins : Begins m m' run graphs v c inputs after lost) :
    after.Taskless := by
  cases hbegins with
  | refused | nodeless => exact h
  | entered graph entry bindings hgraph hentry hinvokes =>
    refine Taskless.invokes ?_ ?_ hinvokes
    · exact h
    · exact hplace

theorem Seated.alters (h : v.Seated) (hfresh : ∀ c, v.context = some c → c.inputs = none →
    v.active = none) (halters : Alters m m' run v after written) : after.Seated := by
  intro later hlater hplace
  cases halters with
  | changed hchanges =>
    cases hchanges with
    | same => exact h later hlater hplace
    | worked hcontext hlabour =>
      obtain ⟨between, hbetween, hcontinues⟩ := (hlabour.keeps hcontext).context _ hcontext
      obtain rfl := Option.some.inj (hlater.symm.trans hbetween)
      have hplace := hcontinues.hasTasks_eq.symm.trans hplace
      exact (h _ hcontext hplace).labour hplace hlabour
    | ended => exact h later hlater hplace
    | begun graphs graph config inputs a home rest next hframes hresumes hrun hnext hgraphs hbegins =>
      obtain ⟨⟨between, hbetween, hcontinues⟩, -⟩ := hbegins.keeps rfl
      obtain rfl := Option.some.inj (hlater.symm.trans hbetween)
      cases hcontinues.hasTasks_eq.symm.trans hplace
  | opened graph config hasTasks hrun => exact ⟨rfl, fun _ _ hmem ↦ nomatch hmem⟩
  | started graphs inputs hcontext hinputs hgraphs hbegins =>
    obtain ⟨⟨between, hbetween, hcontinues⟩, -⟩ := hbegins.keeps (hfresh _ hcontext hinputs)
    obtain rfl := Option.some.inj (hlater.symm.trans hbetween)
    refine Taskless.begins (h _ hcontext ?_) ?_ hbegins
    all_goals exact hcontinues.hasTasks_eq.symm.trans hplace
  | ended => exact h later hlater hplace
  | handled _ handler =>
    obtain ⟨was, hwas, rfl⟩ := Option.map_eq_some_iff.mp hlater
    exact h was hwas hplace

/-- With nothing on the frames, nothing is at work where there is no place for tasks. -/
theorem Seated.quiet (h : v.Seated) (hsound : Sound provider run history v)
    (hcontext : v.context = some c) (hplace : c.hasTasks = false) (hframes : v.frames = []) :
    v.Quiet := by
  obtain ⟨lost, hbalanced⟩ := hsound.balanced
  exact ⟨by rw [activities, hframes, (h c hcontext hplace).1]; rfl, hbalanced.queued_eq_nil hframes⟩

end RunView

namespace Machine

variable {m m' blank : Machine} {run : RunId} {c : Context}
  {history written : RunId → List (String × Value)}

/-! ### Dropped contexts -/

/-- Releasing graphs leaves the runs as they are. -/
theorem foldl_release (keeps : Nat → Bool) (handles : List Nat) (e : Interpreter) :
    let later := handles.foldl (fun (e : Interpreter) handle ↦
      if keeps handle then e else e.release handle) e
    later.runs = e.runs ∧ (e.GraphsAccepted → later.GraphsAccepted) := by
  induction handles generalizing e with
  | nil => exact ⟨rfl, id⟩
  | cons handle rest ih =>
    rw [List.foldl_cons]
    split_ifs with hkeeps
    · exact ih e
    · obtain ⟨hruns, haccepted⟩ := ih (e.release handle)
      refine ⟨hruns, fun hall ↦ haccepted fun other g hget ↦ ?_⟩
      rw [Interpreter.release, Table.get?_erase] at hget
      split_ifs at hget
      exact hall other g hget

theorem runs_collect (m : Machine) :
    m.collect.world.interpreter.runs = m.world.interpreter.runs :=
  (foldl_release _ _ _).1

theorem activities_view_collect (m : Machine) (run : RunId) :
    (m.collect.view run).activities = (m.view run).activities := rfl

/-- A context that nothing refers to has nothing. -/
theorem view_of_not_held (hframes : m.frames = []) (hheld : m.isHeld run = false) :
    m.view run = { context := m.context? run } := by
  obtain ⟨hruns, htasks⟩ := Bool.or_eq_false_iff.mp hheld
  have hactive : m.world.interpreter.runs.get? run = none := by
    simpa [Table.contains] using hruns
  have hnone : m.tasks.filter (fun entry ↦ entry.2.run == run) = [] := by
    refine List.filter_eq_nil_iff.mpr fun entry hentry ↦ ?_
    have hentry := List.any_eq_false.mp htasks entry hentry
    simp only [Bool.or_eq_true, not_or] at hentry
    exact hentry.1
  rw [view, hframes, hactive, hnone]
  rfl

theorem view_collect (hframes : m.frames = []) (run : RunId) :
    m.collect.view run = if m.isHeld run then m.view run else {} := by
  have hcontext : m.collect.context? run = if m.isHeld run then m.context? run else none :=
    Table.get?_filter m.contexts m.isHeld run
  have hview : m.collect.view run = { m.view run with context := m.collect.context? run } := by
    simp only [view, runs_collect]
    rfl
  rw [hview, hcontext]
  split_ifs with hheld
  · rfl
  · rw [view_of_not_held hframes (by simpa using hheld)]

theorem Sound.collect (h : m.Sound history) (hframes : m.frames = []) :
    m.collect.Sound fun run ↦ if m.isHeld run then history run else [] where
  views := fun run ↦ by
    rw [view_collect hframes]
    split_ifs
    · exact h.views run
    · exact RunView.sound_empty _ run
  lt_nextRun := fun run c hcontext ↦ by
    have hfilter := Table.get?_filter m.contexts m.isHeld run
    rw [show m.collect.context? run = _ from hfilter] at hcontext
    split_ifs at hcontext
    exact h.lt_nextRun run c hcontext
  accepted := (foldl_release _ _ _).2 h.accepted
  aloof := h.aloof

/-! ### Reaching a machine -/

/-- What a host comes to. Contexts are dropped when nothing is on the frames. -/
inductive Reaches (m : Machine) : Machine → Prop
  | refl : Reaches m m
  | next {middle later : Machine} {written : RunId → List (String × Value)} (h : Reaches m middle)
      (hnext : Happens middle later written) : Reaches m later
  | collected {later : Machine} (h : Reaches m later) (hframes : later.frames = []) :
      Reaches m later.collect

theorem Reaches.leads (h : Reaches m m') {later : Machine} (hleads : Leads m' later written) :
    Reaches m later := by
  induction hleads with
  | refl => exact h
  | next _ hnext ih => exact ih.next hnext

theorem Sound.seated_happens (h : m.Sound history) (hnext : Happens m m' written)
    (hseated : ∀ run, (m.view run).Seated) (run : RunId) : (m'.view run).Seated :=
  (hseated run).alters (fun c hcontext hinputs ↦ ((h.views run).unstarted c hcontext hinputs).active)
    (alters_of_happens h.housed hnext run)

theorem Reaches.sound (hblank : blank.Blank) (h : Reaches blank m) :
    (∃ history, m.Sound history) ∧ ∀ run, (m.view run).Seated := by
  induction h with
  | refl =>
    refine ⟨⟨_, hblank.sound⟩, fun run c hcontext ↦ ?_⟩
    cases (hblank.context run).symm.trans hcontext
  | next _ hnext ih =>
    obtain ⟨⟨history, hsound⟩, hseated⟩ := ih
    exact ⟨⟨_, hsound.happens hnext⟩, hsound.seated_happens hnext hseated⟩
  | collected _ hframes ih =>
    obtain ⟨⟨history, hsound⟩, hseated⟩ := ih
    refine ⟨⟨_, hsound.collect hframes⟩, fun run ↦ ?_⟩
    rw [view_collect hframes]
    split_ifs
    · exact hseated run
    · exact fun c hcontext ↦ nomatch hcontext

theorem Reaches.placed (hblank : blank.Blank) (h : Reaches blank m) (hframes : m.frames = []) :
    m.Placed := by
  obtain ⟨⟨history, hsound⟩, hseated⟩ := h.sound hblank
  intro run c hcontext hplace
  exact (hseated run).quiet (hsound.views run) hcontext hplace (by simp [view, hframes])

end Machine

end Blueprint
