import Blueprint.Proofs.Run.Balance

/-!
What a run keeps while it works: its context stays, with the graph, the inputs and the outputs it
has, but for the outputs that are published (`RunView.Continues`), its graph stays the same in the
interpreter, and its activities fetch and wait as they may (`Labour.fits`). Together with the
balance of its books that makes a run sound (`RunView.Sound`), whatever happens to it
(`Sound.changes`).
-/

set_option autoImplicit false

namespace Blueprint

/-- The last value that was written under a name. -/
def lastWritten (name : String) (history : List (String × Value)) : Option Value :=
  (history.reverse.find? fun write ↦ write.1 == name).map (·.2)

theorem lastWritten_append_single (name other : String) (value : Value)
    (history : List (String × Value)) :
    lastWritten name (history ++ [(other, value)]) =
      if other = name then some value else lastWritten name history := by
  unfold lastWritten
  rw [List.reverse_append, List.reverse_singleton, List.singleton_append, List.find?_cons]
  by_cases hname : other = name
  · simp [hname]
  · simp only [beq_false_of_ne hname, hname, ↓reduceIte]

namespace RunView

/-- A context goes on, and some outputs are published. -/
structure Continues (c later : Context) (written : List (String × Value)) : Prop where
  graph_eq : later.graph = c.graph
  hasTasks_eq : later.hasTasks = c.hasTasks
  inputs_eq : later.inputs = c.inputs
  outputs_eq : later.outputs = written.foldl (fun outputs write ↦ outputs.insert write.1 write.2) c.outputs

theorem Continues.refl (c : Context) : Continues c c [] := ⟨rfl, rfl, rfl, rfl⟩

theorem Continues.trans {c middle later : Context} {written : List (String × Value)}
    (h : Continues c middle written) (hlater : Continues middle later []) :
    Continues c later written :=
  ⟨hlater.graph_eq.trans h.graph_eq, hlater.hasTasks_eq.trans h.hasTasks_eq,
    hlater.inputs_eq.trans h.inputs_eq, hlater.outputs_eq.trans h.outputs_eq⟩

/-- The outputs that have been set are the last values that were published. -/
def Recorded (c : Context) (history : List (String × Value)) : Prop :=
  ∀ name, c.outputs.get? name = lastWritten name history

theorem Continues.recorded {c later : Context} {written history : List (String × Value)}
    (h : Continues c later written) (hrecorded : Recorded c history) :
    Recorded later (history ++ written) := by
  have hwrites : ∀ (outputs : Inputs) (history : List (String × Value)),
      (∀ name, outputs.get? name = lastWritten name history) →
      ∀ name, (written.foldl (fun outputs write ↦ outputs.insert write.1 write.2) outputs).get? name =
        lastWritten name (history ++ written) := by
    clear h
    induction written with
    | nil => exact fun outputs history hsame name ↦ (List.append_nil history).symm ▸ hsame name
    | cons write rest ih =>
      intro outputs history hsame name
      have hone : ∀ other, (outputs.insert write.1 write.2).get? other =
          lastWritten other (history ++ [write]) := by
        intro other
        rw [Table.get?_insert, show history ++ [write] = history ++ [(write.1, write.2)] from rfl,
          lastWritten_append_single, hsame other]
      have hrest := ih _ _ hone name
      rwa [List.append_assoc] at hrest
  intro name
  rw [h.outputs_eq]
  exact hwrites c.outputs history hrecorded name

/-! ### What stays of a run -/

/-- One run goes on as another. -/
structure Keeps (v after : RunView) (written : List (String × Value)) : Prop where
  context : ∀ c, v.context = some c → ∃ later, after.context = some later ∧ Continues c later written
  graph : after.active.map (·.graph) = v.active.map (·.graph)

variable {v middle after : RunView} {c : Context} {written : List (String × Value)}

theorem Keeps.refl (v : RunView) : Keeps v v [] :=
  ⟨fun c hcontext ↦ ⟨c, hcontext, .refl c⟩, rfl⟩

theorem Keeps.trans (h : Keeps v middle written) (hafter : Keeps middle after []) :
    Keeps v after written := by
  refine ⟨fun c hcontext ↦ ?_, hafter.graph.trans h.graph⟩
  obtain ⟨between, hbetween, hfirst⟩ := h.context c hcontext
  obtain ⟨later, hlater, hsecond⟩ := hafter.context between hbetween
  exact ⟨later, hlater, hfirst.trans hsecond⟩

theorem Keeps.graph_eq (h : Keeps v after written) {active : ActiveRun}
    (hactive : after.active = some active) : ∃ was, v.active = some was ∧ active.graph = was.graph := by
  have hgraph := h.graph
  rw [hactive, Option.map_some] at hgraph
  obtain ⟨was, hwas, hsame⟩ := Option.map_eq_some_iff.mp hgraph.symm
  exact ⟨was, hwas, hsame.symm⟩

/-- Assumes: a context in the place of another, and the same graph. -/
theorem Keeps.of_context {later : Context} (hcontext : v.context = some c)
    (hlater : after.context = some later) (hcontinues : Continues c later written)
    (hgraph : after.active.map (·.graph) = v.active.map (·.graph)) : Keeps v after written := by
  refine ⟨fun other hother ↦ ⟨later, hlater, ?_⟩, hgraph⟩
  obtain rfl := Option.some.inj (hcontext.symm.trans hother)
  exact hcontinues

theorem keeps_finish (v : RunView) (scope : Nat) : Keeps v (v.finish scope) [] := by
  unfold RunView.finish
  split
  · exact .refl v
  · rename_i active hactive
    split
    · exact .refl v
    · rename_i closed scopes hfinish
      refine ⟨fun c hcontext ↦ ?_, by rw [hactive]; rfl⟩
      exact ⟨{ c with tracker := c.tracker.completeAll closed }, congrArg (Option.map _) hcontext,
        ⟨rfl, rfl, rfl, rfl⟩⟩

theorem keeps_conclude (v : RunView) (call : NodeCall) (ending : Ending) :
    Keeps v (v.conclude call ending) [] := by
  unfold RunView.conclude
  split_ifs with hdone
  · exact keeps_finish v call.scope
  · have hfailed : Keeps v { v with
        context := v.context.map fun c ↦ { c with failedBranches := c.failedBranches + 1 } } [] := by
      refine ⟨fun c hcontext ↦ ?_, rfl⟩
      exact ⟨{ c with failedBranches := c.failedBranches + 1 }, congrArg (Option.map _) hcontext,
        ⟨rfl, rfl, rfl, rfl⟩⟩
    exact hfailed.trans (keeps_finish _ call.scope)

variable {m m' : Machine} {run : RunId} {lost : List Nat}

theorem Invokes.keeps {call : NodeCall} (h : Invokes m m' run call v c after lost)
    (hcontext : v.context = some c) : Keeps v after [] := by
  cases h with
  | unknown hkind => exact keeps_conclude v call _
  | spawned | lost => exact ⟨(Keeps.refl v).context, (Keeps.refl v).graph⟩
  | queued | drained =>
    exact .of_context hcontext rfl ⟨rfl, rfl, rfl, rfl⟩ rfl

theorem Answers.continues {node : String} {request : Behaviour} {later : Context}
    {progress : Progress} (h : Answers m m' run node c request later progress written) :
    Continues c later written := by
  cases h <;> exact ⟨rfl, rfl, rfl, rfl⟩

theorem Serves.keeps {a : Activity} {home : Option Nat} {request : Behaviour}
    (h : Serves m m' run v c a home request after written lost) (hcontext : v.context = some c) :
    Keeps v after written := by
  cases h with
  | ended ending hending => exact keeps_conclude v a.call ending
  | answered hanswers =>
    exact .of_context hcontext rfl hanswers.continues rfl
  | paused hpause hshelves => exact ⟨(Keeps.refl v).context, (Keeps.refl v).graph⟩
  | unwired pin next active hactive hpin =>
    exact .of_context hcontext rfl ⟨rfl, rfl, rfl, rfl⟩ (by rw [hactive]; rfl)
  | wired pin next active target bindings hactive hpin htarget hinvokes =>
    have hopened : Keeps v { v with
        context := some { c with tracker := c.tracker.dispatch active.scopes.next, bindings }
        active := some { active with scopes := active.scopes.openNext true a.call.scope }
        frames := .node { a with progress := .going (next (.ok active.scopes.next)) } home ::
          v.frames } [] :=
      .of_context hcontext rfl ⟨rfl, rfl, rfl, rfl⟩ (by rw [hactive]; rfl)
    exact hopened.trans (hinvokes.keeps rfl)

theorem Labour.keeps (h : Labour m m' run v c after written lost) (hcontext : v.context = some c) :
    Keeps v after written := by
  cases h with
  | polled | shelved => exact ⟨(Keeps.refl v).context, (Keeps.refl v).graph⟩
  | served a home rest hframes hcan hresumes hserves =>
    have hkeeps := hserves.keeps hcontext
    exact ⟨hkeeps.context, hkeeps.graph⟩
  | released | taken =>
    exact .of_context hcontext rfl ⟨rfl, rfl, rfl, rfl⟩ rfl
  | skipped rest call calls hframes hcalls hkind =>
    have htaken : Keeps v
        { v with context := some { c with queue := { c.queue with calls } } } [] :=
      .of_context hcontext rfl ⟨rfl, rfl, rfl, rfl⟩ rfl
    exact htaken.trans (keeps_conclude _ call _)

/-! ### Activities -/

theorem mem_activities {v : RunView} {a : Activity} :
    a ∈ v.activities ↔ (∃ home, .node a home ∈ v.frames) ∨ ∃ task, (task, a) ∈ v.tasks := by
  have hframe (frame : Frame) : frame.activity? = some a ↔ ∃ home, frame = .node a home := by
    cases frame <;> simp [Frame.activity?]
  simp [activities, hframe]

theorem workOn_pos_of_mem {a : Activity} (ha : a ∈ v.activities) : 0 < v.workOn a.call.scope := by
  rw [workOn]
  rcases mem_activities.mp ha with ⟨home, hframe⟩ | ⟨task, htask⟩
  · have hsome : 0 < v.frames.countP (·.isAt a.call.scope) :=
      List.countP_pos_iff.mpr ⟨_, hframe, by simp [Frame.isAt]⟩
    omega
  · have hsome : 0 < v.tasks.countP (fun entry ↦ entry.2.call.scope == a.call.scope) :=
      List.countP_pos_iff.mpr ⟨_, htask, by simp⟩
    omega

/-- A node at work is on an open scope. -/
theorem Balanced.awaits_of_mem {lost : List Nat} (h : v.Balanced [] lost) {active : ActiveRun}
    (hactive : v.active = some active) {a : Activity} (ha : a ∈ v.activities) :
    active.scopes.awaits a.call.scope = true := by
  by_contra hfinished
  have hbalance := h.balance active hactive a.call.scope
  rw [if_neg hfinished] at hbalance
  have hsome := workOn_pos_of_mem ha
  omega

theorem finish_activities (v : RunView) (scope : Nat) :
    (v.finish scope).activities = v.activities := by
  unfold RunView.finish
  split
  · rfl
  · split <;> rfl

theorem conclude_activities (v : RunView) (call : NodeCall) (ending : Ending) :
    (v.conclude call ending).activities = v.activities := by
  unfold RunView.conclude
  split_ifs with hdone
  · exact finish_activities v call.scope
  · exact finish_activities _ call.scope

/-- How far an activity may be after a move that has changed it. -/
inductive Moved (m m' : Machine) (run : RunId) : Progress → Prop
  | going (rest : Behaviour) : Moved m m' run (.going rest)
  | stalled : Moved m m' run .stalled
  | answered {node : String} {c later : Context} {request : Behaviour} {progress : Progress}
      {written : List (String × Value)} (h : Answers m m' run node c request later progress written) :
      Moved m m' run progress

theorem moved_of_pause {request : Behaviour} {progress : Progress}
    (hpause : request.pause? = some progress) : Moved m m' run progress := by
  cases request with
  | yield next =>
    obtain rfl := Option.some.inj hpause
    exact .going next
  | stall =>
    obtain rfl := Option.some.inj hpause
    exact .stalled
  | _ => cases hpause

theorem Moved.fits {progress : Progress} (h : Moved m m' run progress) :
    progress.Fits m.provider run := by
  cases h with
  | going | stalled => trivial
  | answered hanswers => cases hanswers <;> trivial

theorem Shelves.mem_or {a b : Activity} {tasks after : List (Nat × Activity)} {home : Option Nat}
    {task : Nat} (h : Shelves m m' c a tasks home after lost) (hb : (task, b) ∈ after) :
    (task, b) ∈ tasks ∨ b = a := by
  cases h with
  | back other | spawned other =>
    rcases List.mem_append.mp hb with hold | hnew
    · exact Or.inl hold
    · exact Or.inr (Prod.mk.inj (List.mem_singleton.mp hnew)).2
  | lost htasks => exact Or.inl hb

theorem Invokes.activities {call : NodeCall} (h : Invokes m m' run call v c after lost)
    {b : Activity} (hb : b ∈ after.activities) : b ∈ v.activities ∨ Moved m m' run b.progress := by
  cases h with
  | unknown hkind => exact Or.inl (conclude_activities v call _ ▸ hb)
  | spawned kind task =>
    rcases mem_activities.mp hb with hframe | ⟨other, htask⟩
    · exact Or.inl (mem_activities.mpr (Or.inl hframe))
    · rcases List.mem_append.mp htask with hold | hnew
      · exact Or.inl (mem_activities.mpr (Or.inr ⟨other, hold⟩))
      · obtain ⟨-, rfl⟩ := Prod.mk.inj (List.mem_singleton.mp hnew)
        exact Or.inr (.going _)
  | lost | queued => exact Or.inl hb
  | drained => simpa [RunView.activities, Frame.activity?] using Or.inl hb

theorem Serves.activities {a : Activity} {home : Option Nat} {request : Behaviour}
    (h : Serves m m' run v c a home request after written lost) {b : Activity}
    (hb : b ∈ after.activities) : b ∈ v.activities ∨ Moved m m' run b.progress := by
  cases h with
  | ended ending hending => exact Or.inl (conclude_activities v a.call ending ▸ hb)
  | answered hanswers =>
    rcases List.mem_cons.mp hb with rfl | hold
    · exact Or.inr (.answered hanswers)
    · exact Or.inl hold
  | paused hpause hshelves =>
    rcases mem_activities.mp hb with hframe | ⟨task, htask⟩
    · exact Or.inl (mem_activities.mpr (Or.inl hframe))
    · rcases hshelves.mem_or htask with hold | rfl
      · exact Or.inl (mem_activities.mpr (Or.inr ⟨task, hold⟩))
      · exact Or.inr (moved_of_pause hpause)
  | unwired pin next active hactive hpin =>
    rcases List.mem_cons.mp hb with rfl | hold
    · exact Or.inr (.going _)
    · exact Or.inl hold
  | wired pin next active target bindings hactive hpin htarget hinvokes =>
    rcases hinvokes.activities hb with hopened | hmoved
    · rcases List.mem_cons.mp hopened with rfl | hold
      · exact Or.inr (.going _)
      · exact Or.inl hold
    · exact Or.inr hmoved

/-- An activity that is polled was there before. -/
theorem mem_of_polled {before rest : List (Nat × Activity)} {task : Nat} {a b : Activity}
    (htasks : v.tasks = before ++ (task, a) :: rest)
    (hb : b ∈ ({ v with tasks := before ++ rest, frames := .node a (some task) :: v.frames } :
      RunView).activities) : b ∈ v.activities := by
  rcases mem_activities.mp hb with ⟨home, hframe⟩ | ⟨other, htask⟩
  · rcases List.mem_cons.mp hframe with hnew | hold
    · obtain ⟨rfl, -⟩ := Frame.node.inj hnew
      exact mem_activities.mpr (Or.inr ⟨task, by simp [htasks]⟩)
    · exact mem_activities.mpr (Or.inl ⟨home, hold⟩)
  · refine mem_activities.mpr (Or.inr ⟨other, ?_⟩)
    rw [htasks]
    exact (List.mem_append.mp htask).elim (List.mem_append_left _) fun hrest ↦
      List.mem_append_right _ (List.mem_cons_of_mem _ hrest)

/-- An activity that is shelved was there before. -/
theorem mem_of_shelved {a b : Activity} {home : Option Nat} {rest : List Frame}
    {tasks : List (Nat × Activity)} (hframes : v.frames = .node a home :: rest)
    (h : Shelves m m' c a v.tasks home tasks lost)
    (hb : b ∈ ({ v with frames := rest, tasks } : RunView).activities) : b ∈ v.activities := by
  rcases mem_activities.mp hb with ⟨other, hframe⟩ | ⟨task, htask⟩
  · exact mem_activities.mpr (Or.inl ⟨other, hframes ▸ List.mem_cons_of_mem _ hframe⟩)
  · rcases h.mem_or htask with hold | rfl
    · exact mem_activities.mpr (Or.inr ⟨task, hold⟩)
    · exact mem_activities.mpr (Or.inl ⟨home, by simp [hframes]⟩)

theorem Labour.activities (h : Labour m m' run v c after written lost) {b : Activity}
    (hb : b ∈ after.activities) : b ∈ v.activities ∨ Moved m m' run b.progress := by
  cases h with
  | polled before rest task a htasks hcan => exact Or.inl (mem_of_polled htasks hb)
  | shelved a home rest hframes hcan hshelves => exact Or.inl (mem_of_shelved hframes hshelves hb)
  | served a home rest hframes hcan hresumes hserves =>
    refine (hserves.activities hb).imp_left fun hold ↦ ?_
    rw [RunView.activities, hframes]
    exact List.mem_cons_of_mem _ hold
  | released rest hframes hcalls =>
    refine Or.inl ?_
    rw [RunView.activities, hframes]
    exact hb
  | taken rest call calls kind hframes hcalls hkind =>
    rcases List.mem_cons.mp hb with rfl | hold
    · exact Or.inr (.going _)
    · exact Or.inl hold
  | skipped rest call calls hframes hcalls hkind =>
    rw [conclude_activities] at hb
    exact Or.inl hb

/-- Activities fetch and wait as they may. -/
theorem Labour.fits (h : Labour m m' run v c after written lost)
    (hfits : ∀ a ∈ v.activities, a.progress.Fits m.provider run) :
    ∀ b ∈ after.activities, b.progress.Fits m.provider run :=
  fun b hb ↦ (h.activities hb).elim (hfits b) Moved.fits

/-! ### Sound runs -/

/-- What holds of a run at any time, with the outputs that it has published. -/
structure Sound (provider : Provider) (run : RunId) (history : List (String × Value))
    (v : RunView) : Prop extends v.Housed provider run where
  balanced : ∃ lost, v.Balanced [] lost
  unstarted : ∀ c, v.context = some c → c.inputs = none → v.Unstarted c
  recorded : ∀ c, v.context = some c → Recorded c history
  silent : (∀ c, v.context = some c → c.inputs = none) → history = []

variable {provider : Provider} {history : List (String × Value)}

/-- A number that is not given out yet. -/
theorem sound_empty (provider : Provider) (run : RunId) : Sound provider run [] {} where
  empty := fun _ ↦ rfl
  wired := fun _ hactive ↦ nomatch hactive
  fits := fun _ ha ↦ nomatch ha
  balanced := by
    refine ⟨[], ?_, fun _ _ hnone ↦ (nomatch hnone), ?_, ?_, ?_⟩
    all_goals exact fun _ hnone ↦ nomatch hnone
  unstarted := fun _ hcontext ↦ nomatch hcontext
  recorded := fun _ hcontext ↦ nomatch hcontext
  silent := fun _ ↦ rfl

/-- A run without frames and tasks does not work. -/
theorem not_labour_of_idle (hidle : v.frames = []) (htasks : v.tasks = []) :
    ¬Labour m m' run v c after written lost := by
  intro hlabour
  cases hlabour with
  | polled before rest task a hentries =>
    rw [htasks] at hentries
    cases before <;> cases hentries
  | shelved a home rest hframes | served a home rest hframes | released rest hframes
  | taken rest call calls kind hframes | skipped rest call calls hframes =>
    cases hidle.symm.trans hframes

/-- The interpreter forgets a run. -/
theorem Sound.ended (h : Sound provider run history v) :
    Sound provider run history { v with active := none } where
  empty := fun hnone ↦ by rw [h.empty hnone]
  wired := fun _ hactive ↦ nomatch hactive
  fits := h.fits
  balanced := by
    obtain ⟨lost, hbalanced⟩ := h.balanced
    exact ⟨lost, hbalanced.ended⟩
  unstarted := fun c hcontext hinputs ↦ by
    have hunstarted := h.unstarted c hcontext hinputs
    exact ⟨hcontext, rfl, hunstarted.frames, hunstarted.tasks, hunstarted.tracker, hunstarted.calls,
      hunstarted.draining⟩
  recorded := h.recorded
  silent := h.silent

/-- The completion handler of a run is set. -/
theorem Sound.handled (h : Sound provider run history v) (handler : CompletionHandler) :
    Sound provider run history { v with
      context := v.context.map fun c ↦ { c with tracker := (c.tracker.onComplete handler).1 } } where
  empty := fun hnone ↦ by rw [h.empty (Option.map_eq_none_iff.mp hnone)]; rfl
  wired := h.wired
  fits := h.fits
  balanced := by
    obtain ⟨lost, hbalanced⟩ := h.balanced
    exact ⟨lost, hbalanced.mapContext
      (fun c ↦ { c with tracker := (c.tracker.onComplete handler).1 })
      (fun c ↦ c.tracker.extends_onComplete handler) fun _ ↦ rfl⟩
  unstarted := fun c hcontext hinputs ↦ by
    obtain ⟨was, hwas, rfl⟩ := Option.map_eq_some_iff.mp hcontext
    have hunstarted := h.unstarted was hwas hinputs
    exact ⟨hcontext, hunstarted.active, hunstarted.frames, hunstarted.tasks,
      hunstarted.tracker.onComplete handler, hunstarted.calls, hunstarted.draining⟩
  recorded := fun c hcontext ↦ by
    obtain ⟨was, hwas, rfl⟩ := Option.map_eq_some_iff.mp hcontext
    exact h.recorded was hwas
  silent := fun hinputs ↦ h.silent fun c hcontext ↦
    hinputs { c with tracker := (c.tracker.onComplete handler).1 }
      (congrArg (Option.map _) hcontext)

/-- A run that was only opened. -/
theorem Unstarted.sound (h : v.Unstarted c) (hrecorded : Recorded c []) :
    Sound provider run [] v where
  empty := fun hnone ↦ nomatch h.context.symm.trans hnone
  wired := fun _ hactive ↦ nomatch h.active.symm.trans hactive
  fits := by
    intro a ha
    simp [RunView.activities, h.frames, h.tasks] at ha
  balanced := ⟨[], h.balanced⟩
  unstarted := by
    intro c' hcontext _
    obtain rfl := Option.some.inj (h.context.symm.trans hcontext)
    exact h
  recorded := by
    intro c' hcontext
    obtain rfl := Option.some.inj (h.context.symm.trans hcontext)
    exact hrecorded
  silent := fun _ ↦ rfl

/-- What starting a run leaves of its context and its graph. -/
theorem Begins.keeps {graphs : Table Nat Graph} {inputs : Inputs}
    (h : Begins m m' run graphs v c inputs after lost) (hidle : v.active = none) :
    (∃ later, after.context = some later ∧ Continues { c with inputs := some inputs } later []) ∧
      ∀ active, after.active = some active →
        ∃ handle, graphs.get? handle = some active.graph := by
  cases h with
  | refused hgraph =>
    exact ⟨⟨_, rfl, .refl _⟩, fun active hactive ↦ nomatch hidle.symm.trans hactive⟩
  | entered graph entry bindings hgraph hentry hinvokes =>
    have hkeeps := hinvokes.keeps rfl
    refine ⟨?_, fun active hactive ↦ ?_⟩
    · obtain ⟨later, hlater, hcontinues⟩ := hkeeps.context _ rfl
      exact ⟨later, hlater, ⟨hcontinues.graph_eq, hcontinues.hasTasks_eq, hcontinues.inputs_eq,
        hcontinues.outputs_eq⟩⟩
    · obtain ⟨was, hwas, hsame⟩ := hkeeps.graph_eq hactive
      obtain rfl := Option.some.inj hwas
      exact ⟨c.graph.handle, hsame ▸ hgraph⟩
  | nodeless graph hgraph hnodes =>
    refine ⟨⟨_, rfl, ⟨rfl, rfl, rfl, rfl⟩⟩, fun active hactive ↦ ?_⟩
    obtain rfl := Option.some.inj hactive
    exact ⟨c.graph.handle, hgraph⟩

theorem Begins.activities {graphs : Table Nat Graph} {inputs : Inputs}
    (h : Begins m m' run graphs v c inputs after lost) {b : Activity}
    (hb : b ∈ after.activities) : b ∈ v.activities ∨ Moved m m' run b.progress := by
  cases h with
  | refused | nodeless => exact Or.inl hb
  | entered graph entry bindings hgraph hentry hinvokes => exact hinvokes.activities hb

/-- A run that was only opened is started. Assumes: the loaded graphs are accepted. -/
theorem Unstarted.sound_begins {graphs : Table Nat Graph} {inputs : Inputs} (h : v.Unstarted c)
    (hgraphs : ∀ handle g, graphs.get? handle = some g → g.Accepted) (hrecorded : Recorded c history)
    (hbegins : Begins m m' run graphs v c inputs after lost) :
    Sound m.provider run history after := by
  obtain ⟨⟨later, hlater, hcontinues⟩, hgraph⟩ := hbegins.keeps h.active
  constructor
  case toHoused =>
    refine ⟨fun hnone ↦ (nomatch hlater.symm.trans hnone), fun active hactive ↦ ?_, fun b hb ↦ ?_⟩
    · obtain ⟨handle, hloaded⟩ := hgraph active hactive
      exact (hgraphs handle active.graph hloaded).wired
    · rcases hbegins.activities hb with hold | hmoved
      · simp [RunView.activities, h.frames, h.tasks] at hold
      · exact hmoved.fits
  case balanced => exact ⟨lost, h.balanced_begins hbegins⟩
  case unstarted =>
    intro c' hcontext hinputs
    obtain rfl := Option.some.inj (hlater.symm.trans hcontext)
    cases hcontinues.inputs_eq.symm.trans hinputs
  case recorded =>
    intro c' hcontext name
    obtain rfl := Option.some.inj (hlater.symm.trans hcontext)
    rw [hcontinues.outputs_eq]
    exact hrecorded name
  case silent => exact fun hnone ↦ nomatch hcontinues.inputs_eq.symm.trans (hnone later hlater)

/-- The work of a run keeps it sound. -/
theorem Sound.labour (h : Sound m.provider run history v) (hcontext : v.context = some c)
    (hlabour : Labour m m' run v c after written lost) :
    Sound m.provider run (history ++ written) after := by
  have hkeeps := hlabour.keeps hcontext
  obtain ⟨later, hlater, hcontinues⟩ := hkeeps.context c hcontext
  have hstarted : later.inputs ≠ none := fun hinputs ↦
    have hunstarted := h.unstarted c hcontext (hcontinues.inputs_eq.symm.trans hinputs)
    not_labour_of_idle hunstarted.frames hunstarted.tasks hlabour
  constructor
  case toHoused =>
    refine ⟨fun hnone ↦ (nomatch hlater.symm.trans hnone), fun active hactive ↦ ?_,
      hlabour.fits h.fits⟩
    obtain ⟨was, hwas, hsame⟩ := hkeeps.graph_eq hactive
    exact hsame ▸ h.wired was hwas
  case balanced =>
    obtain ⟨gone, hbalanced⟩ := h.balanced
    exact ⟨lost ++ gone, hbalanced.labour hcontext hlabour⟩
  case unstarted =>
    intro c' hcontext' hinputs
    obtain rfl := Option.some.inj (hlater.symm.trans hcontext')
    exact absurd hinputs hstarted
  case recorded =>
    intro c' hcontext'
    obtain rfl := Option.some.inj (hlater.symm.trans hcontext')
    exact hcontinues.recorded (h.recorded c hcontext)
  case silent => exact fun hinputs ↦ absurd (hinputs later hlater) hstarted

/-- Whatever a move does to a run keeps it sound. -/
theorem Sound.changes (h : Sound m.provider run history v)
    (hchanges : Changes m m' run v after written) :
    Sound m.provider run (history ++ written) after := by
  cases hchanges with
  | same => exact (List.append_nil history).symm ▸ h
  | worked hcontext hlabour => exact h.labour hcontext hlabour
  | ended =>
    rw [List.append_nil]
    exact h.ended
  | begun graphs graph config inputs a home rest next hframes hresumes hrun hnext hgraphs hbegins =>
    obtain rfl := h.silent fun _ hcontext ↦ nomatch hcontext
    refine Unstarted.sound_begins (c := { graph, config }) ?_ hgraphs (fun _ ↦ rfl) hbegins
    exact ⟨rfl, rfl, rfl, rfl, ⟨fun _ ↦ rfl, rfl, rfl, rfl⟩, rfl, rfl⟩

end RunView

end Blueprint
