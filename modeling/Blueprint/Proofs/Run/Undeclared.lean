import Blueprint.Proofs.Run.Invocations
import Blueprint.Proofs.Run.Pared
import Blueprint.Proofs.Run.Told

/-!
Inputs that a graph does not declare. Two starts of a run with inputs that agree where its graph
reads them leave machines that are the same once they are pared (`startsAlike_of_read`). They go the
same way from then on: the interpreter calls back the same (`toldAlong_pared`), nodes find the same
on their pins, and the run ends with the same result. A graph that is accepted reads declared inputs
only, and those are the ones the two starts have to agree on (`sameCourse_of_declared`).
-/

set_option autoImplicit false

namespace Blueprint

namespace Machine

variable {m m' : Machine} {run other : RunId} {c : Context} {given others : Inputs}

/-! ### Callbacks -/

theorem toldByFinish_pared (m : Machine) (run other : RunId) (scope : Nat) :
    (m.pared run).toldByFinish other scope = m.toldByFinish other scope := by
  rw [toldByFinish, interpreter_pared, Interpreter.finish_pared]
  rfl

theorem toldByInvoke_pared (m : Machine) (run other : RunId) (call : NodeCall) :
    (m.pared run).toldByInvoke other call = m.toldByInvoke other call := by
  rw [toldByInvoke, toldByInvoke, context?_pared, toldByFinish_pared, provider_pared]
  cases m.context? other <;> cases m.provider.registry.get? call.kind <;> rfl

theorem toldByReceive_pared (m : Machine) (run other : RunId) (callback : Callback) :
    (m.pared run).toldByReceive other callback = m.toldByReceive other callback := by
  cases callback with
  | invoke call => exact toldByInvoke_pared m run other call
  | dispatched | completed | bind => rfl

theorem toldInTurn_pared (run other : RunId) (callbacks : List Callback) (m : Machine) :
    (m.pared run).toldInTurn other callbacks = m.toldInTurn other callbacks := by
  induction callbacks generalizing m with
  | nil => rfl
  | cons callback rest ih =>
    rw [toldInTurn, toldInTurn, toldByReceive_pared, receive_pared, ih]

theorem toldByReply_pared {α : Type} (m : Machine) (run other : RunId)
    (reply : Interpreter.Reply α) :
    (m.pared run).toldByReply other (reply.pared run) = m.toldByReply other reply :=
  toldInTurn_pared run other reply.callbacks (m.withInterpreter reply.state)

/-- The start of another run. -/
theorem toldByStart_pared (h : other ≠ run) (m : Machine) (inputs : Inputs) :
    (m.pared run).toldByStart other inputs = m.toldByStart other inputs := by
  rw [toldByStart, toldByStart, context?_pared]
  cases m.context? other with
  | none => rfl
  | some c =>
    dsimp only [Option.map_some]
    rw [if_neg h, withInputs_pared_of_ne h, interpreter_pared, Interpreter.execute_pared h]
    exact toldByReply_pared _ run other _

/-- Assumes: the run is not one that is begun by the request. -/
theorem toldByRequest_pared (hrun : m.nextRun ≠ run) (a : Activity) (home : Option Nat)
    (request : Behaviour) :
    (m.pared run).toldByRequest a home request = m.toldByRequest a home request := by
  cases request with
  | succeed => exact toldByFinish_pared m run _ _
  | fail failure => exact toldByFinish_pared m run _ _
  | panic message => exact toldByFinish_pared m run _ _
  | trigger pin next =>
    rw [toldByRequest, toldByRequest, bindings_pared, interpreter_pared, Interpreter.trigger_pared,
      enter_pared]
    exact toldByReply_pared _ run a.run _
  | nest graph inputs next =>
    rw [toldByRequest, toldByRequest, config_pared, open_pared hrun]
    dsimp only
    rw [enter_pared]
    exact toldByStart_pared hrun _ inputs
  | read | write | publish | log | join | load | find | sleep | yield | stall => rfl

theorem toldByAdvance_pared (h : m.Housed) (hblind : m.provider.Blind) (hrun : run < m.nextRun) :
    (m.pared run).toldByAdvance = m.toldByAdvance := by
  rw [toldByAdvance, toldByAdvance, show (m.pared run).frames = m.frames from rfl]
  cases hframes : m.frames with
  | nil => rfl
  | cons frame rest =>
    cases frame with
    | drain owner =>
      dsimp only
      rw [context?_pared]
      cases m.context? owner with
      | none => rfl
      | some c =>
        dsimp only [Option.map_some, Option.bind_some]
        cases c.queue.pop.1 with
        | none => rfl
        | some call => exact toldByInvoke_pared m run owner call
    | node a home =>
      dsimp only
      rw [canGoOn_pared]
      cases hcan : m.canGoOn a with
      | false => rfl
      | true =>
        obtain ⟨own, hown⟩ := h.context_of_frame hframes
        have hrests := h.rests hframes hcan hown
        have hresume := resume_pared (m := { m with frames := rest }) hblind
          (h.fits_of_frame hframes) run
        have htold := toldByRequest_pared
          (Nat.ne_of_gt (Nat.lt_of_lt_of_le hrun hrests.later.nextRun_le)) a home
          (({ m with frames := rest } : Machine).resume a.progress).1
        rw [if_pos rfl, if_pos rfl, ← htold]
        exact congrArg (fun resumed ↦ resumed.2.toldByRequest a home resumed.1) hresume

/-- Every schedule is told alike. -/
theorem toldAlong_pared (h : m.Pareable run) (schedule : List Move) :
    (m.pared run).toldAlong schedule = m.toldAlong schedule := by
  induction schedule generalizing m with
  | nil => rfl
  | cons move rest ih =>
    have htold : (m.pared run).told move = m.told move := by
      obtain ⟨history, hsound⟩ := h.sound
      cases move with
      | advance => exact toldByAdvance_pared hsound.housed h.blind h.lt_nextRun
      | poll task => rfl
      | tick moment => rfl
    rw [toldAlong, toldAlong, htold, h.step_pared move, ih (h.step move)]

/-! ### Two starts -/

/-- What was given to a run is among what is taken away. -/
theorem pared_withInputs (m : Machine) (run : RunId) (inputs : Inputs) :
    (m.withInputs run inputs).pared run =
      { m.pared run with executions := m.executions + 1 } :=
  congrArg (fun contexts ↦ ({ m.pared run with
    contexts, executions := m.executions + 1 } : Machine)) (m.contexts.mapAt_modify run fun _ ↦ rfl)

/-- What two starts of a run have in common. -/
structure StartsAlike (m : Machine) (run : RunId) (given others : Inputs) : Prop where
  outcome : (m.start run given).1 = (m.start run others).1
  told : m.toldByStart run given = m.toldByStart run others
  pared : (m.start run given).2.pared run = (m.start run others).2.pared run

/-- Assumes: inputs that agree where the graph reads them. -/
theorem startsAlike_of_read (hcontext : m.context? run = some c) (hinputs : c.inputs = none)
    (hagree : ∀ g, m.world.interpreter.graphs.get? c.graph.handle = some g →
      ∀ name ∈ g.readInputs, given.get? name = others.get? name) :
    m.StartsAlike run given others := by
  have hreply := Interpreter.execute_congr run hagree c.bindings
  have hinputs' (inputs : Inputs) : c.inputs.getD inputs = inputs := by rw [hinputs]; rfl
  refine ⟨?_, ?_, ?_⟩
  · rw [start_eq hcontext hinputs, start_eq hcontext hinputs]
    exact congrArg (·.outcome) hreply
  · rw [toldByStart, toldByStart, hcontext]
    dsimp only
    rw [hinputs', hinputs', ← toldByReply_pared, ← toldByReply_pared (m.withInputs run others),
      pared_withInputs, pared_withInputs, hreply]
  · rw [start_eq hcontext hinputs, start_eq hcontext hinputs]
    dsimp only
    rw [← accept_pared, ← accept_pared, pared_withInputs, pared_withInputs, hreply]

/-! ### Two runs -/

/-- What can be seen of a machine is the same. -/
structure Alike (m m' : Machine) : Prop where
  bindings : ∀ run, m.bindings run = m'.bindings run
  outputs : ∀ run, (m.context? run).map (·.outputs) = (m'.context? run).map (·.outputs)
  tracker : ∀ run, (m.context? run).map (·.tracker) = (m'.context? run).map (·.tracker)
  result : ∀ run, (m.conclusion run).1 = (m'.conclusion run).1
  late : ∀ run, (m.lateResult run).1 = (m'.lateResult run).1
  events : m.events = m'.events
  frames : m.frames = m'.frames
  tasks : m.tasks = m'.tasks

theorem alike_pared (m : Machine) (run : RunId) : Alike (m.pared run) m where
  bindings := bindings_pared m run
  outputs := fun other ↦ by
    rw [context?_pared]
    cases m.context? other <;> rfl
  tracker := fun other ↦ by
    rw [context?_pared]
    cases m.context? other <;> rfl
  result := fun other ↦ by rw [conclusion_pared]
  late := fun other ↦ by rw [lateResult_pared]
  events := rfl
  frames := rfl
  tasks := rfl

theorem Alike.symm (h : Alike m m') : Alike m' m where
  bindings := fun run ↦ (h.bindings run).symm
  outputs := fun run ↦ (h.outputs run).symm
  tracker := fun run ↦ (h.tracker run).symm
  result := fun run ↦ (h.result run).symm
  late := fun run ↦ (h.late run).symm
  events := h.events.symm
  frames := h.frames.symm
  tasks := h.tasks.symm

theorem Alike.trans {later : Machine} (h : Alike m m') (hlater : Alike m' later) :
    Alike m later where
  bindings := fun run ↦ (h.bindings run).trans (hlater.bindings run)
  outputs := fun run ↦ (h.outputs run).trans (hlater.outputs run)
  tracker := fun run ↦ (h.tracker run).trans (hlater.tracker run)
  result := fun run ↦ (h.result run).trans (hlater.result run)
  late := fun run ↦ (h.late run).trans (hlater.late run)
  events := h.events.trans hlater.events
  frames := h.frames.trans hlater.frames
  tasks := h.tasks.trans hlater.tasks

theorem alike_of_pared (run : RunId) (h : m.pared run = m'.pared run) : Alike m m' :=
  (alike_pared m run).symm.trans (h ▸ alike_pared m' run)

/-- Started with one or the other, a run takes the same course. -/
structure SameCourse (m : Machine) (run : RunId) (given others : Inputs) : Prop where
  outcome : (m.start run given).1 = (m.start run others).1
  /-- The callbacks of the start. -/
  begins : m.toldByStart run given = m.toldByStart run others
  /-- The callbacks of every schedule. -/
  told : ∀ schedule,
    (m.start run given).2.toldAlong schedule = (m.start run others).2.toldAlong schedule
  alike : ∀ schedule,
    Alike ((m.start run given).2.run schedule) ((m.start run others).2.run schedule)
  result : ∀ steps timeout,
    (m.runToEnd steps run given timeout).1 = (m.runToEnd steps run others timeout).1

/-- The end of a run does not show inputs that are not read either. -/
theorem result_congr (hgiven : (m.start run given).2.Pareable run)
    (hothers : (m.start run others).2.Pareable run) (h : m.StartsAlike run given others)
    (steps : Nat) (timeout : Option Nat) :
    (m.runToEnd steps run given timeout).1 = (m.runToEnd steps run others timeout).1 := by
  obtain ⟨houtcome, -, hpared⟩ := h
  unfold runToEnd
  generalize m.start run given = first at *
  generalize m.start run others = second at *
  obtain ⟨outcome, first⟩ := first
  obtain ⟨outcome', second⟩ := second
  dsimp only at houtcome hpared hgiven hothers
  subst houtcome
  cases outcome with
  | error e => rfl
  | ok scope =>
    have hnow : first.now = second.now := by
      change (first.pared run).now = (second.pared run).now
      rw [hpared]
    have hfirst := await_pared hgiven (·.isFinished run) (isFinished_pared · run run)
      (timeout.map (first.now + ·)) steps
    have hsecond := await_pared hothers (·.isFinished run) (isFinished_pared · run run)
      (timeout.map (first.now + ·)) steps
    rw [hpared, hsecond] at hfirst
    dsimp only
    rw [← hnow]
    -- Both waits end alike, on machines that are the same once they are pared.
    generalize first.await _ _ steps = ended at hfirst
    generalize await _ _ steps second = ended' at hfirst
    obtain ⟨waited, last⟩ := ended
    obtain ⟨waited', last'⟩ := ended'
    obtain ⟨rfl, hlast⟩ := Prod.mk.inj hfirst
    have halike := alike_of_pared run hlast.symm
    cases waited' with
    | reached => exact congrArg Except.ok (halike.result run)
    | late => exact congrArg Except.ok (halike.late run)
    | stuck => rfl
    | unfinished => rfl

theorem StartsAlike.sameCourse (h : m.StartsAlike run given others)
    (hgiven : (m.start run given).2.Pareable run) (hothers : (m.start run others).2.Pareable run) :
    m.SameCourse run given others where
  outcome := h.outcome
  begins := h.told
  told := fun schedule ↦ by
    rw [← toldAlong_pared hgiven, h.pared, toldAlong_pared hothers]
  alike := fun schedule ↦ alike_of_pared run (by
    rw [← run_pared hgiven, h.pared, run_pared hothers])
  result := result_congr hgiven hothers h

/-- A context keeps what its first start was given, whatever later ones are. -/
theorem sameCourse_of_kept {kept : Inputs} (hcontext : m.context? run = some c)
    (hinputs : c.inputs = some kept) : m.SameCourse run given others := by
  have hstart : m.start run given = m.start run others := by
    rw [start_of_context hcontext, start_of_context hcontext, hinputs]
    rfl
  have hbegins : m.toldByStart run given = m.toldByStart run others := by
    rw [toldByStart, toldByStart, hcontext]
    dsimp only
    rw [hinputs]
    rfl
  exact
    { outcome := congrArg Prod.fst hstart
      begins := hbegins
      told := fun schedule ↦ by rw [hstart]
      alike := fun schedule ↦ by
        rw [hstart]
        exact alike_of_pared run rfl
      result := fun steps timeout ↦ by rw [runToEnd, runToEnd, hstart] }

theorem pareable_start {history : RunId → List (String × Value)} (hsound : m.Sound history)
    (hblind : m.provider.Blind) (hcontext : m.context? run = some c) (hinputs : c.inputs = none)
    (inputs : Inputs) : (m.start run inputs).2.Pareable run := by
  have hstarted : Happens m (m.start run inputs).2 _ := .started run c inputs hcontext hinputs
  have hlater := later_of_happens hsound.housed hstarted
  exact
    { sound := ⟨_, hsound.happens hstarted⟩
      blind := hlater.blind hblind
      lt_nextRun := Nat.lt_of_lt_of_le (hsound.lt_nextRun run c hcontext) hlater.nextRun_le }

end Machine

/-! ### A graph that hands its input on -/

namespace Graph

/-- Runs another graph with its own input, and publishes what that puts out. -/
def handingDocument : GraphDocument where
  inputs := [{ name := "x" }]
  outputs := [{ name := "answer" }]
  nodes := [
    { id := "E", kind := "execute_blueprint", params := .object [("id", .string "child")]
      inputs := [("x", .graphInput "x")], links := [("then", some "o")] },
    { id := "o", kind := "set_output", params := .object [("name", .string "answer")]
      inputs := [("value", .link "E" "x")], links := [("then", none)] }]

/-- What `handingDocument` is loaded to. -/
def handing : Graph where
  version := none
  entry := some 0
  inputs := handingDocument.inputs
  outputs := handingDocument.outputs
  nodes := handingDocument.nodes
  index := .ofList [("E", 0), ("o", 1)]

end Graph

namespace Machine

/-- A machine on which that graph is loaded, and one for it to run. -/
def handing : Machine where
  provider := { fallback := .file none }
  world := { interpreter := { graphs := .ofList [(1, .handing), (2, .inner)] } }

theorem handing_blank : handing.Blank where
  context := fun _ ↦ rfl
  active := fun _ ↦ rfl
  frames := rfl
  tasks := rfl
  accepted := by
    intro handle g hget
    have hmem : (handle, g) ∈ [(1, Graph.handing), (2, .inner)] := Table.mem_of_get? hget
    rcases List.mem_cons.mp hmem with heq | hmem
    · obtain ⟨-, rfl⟩ := Prod.mk.inj heq
      exact ⟨.standard, Graph.handingDocument, rfl⟩
    · obtain ⟨-, rfl⟩ := Prod.mk.inj (List.mem_singleton.mp hmem)
      exact ⟨.standard, Graph.innerDocument, rfl⟩
  aloof := fun _ hcache ↦ nomatch hcache

theorem handing_blind : handing.provider.Blind where
  cache := fun _ hcache ↦ nomatch hcache
  downloaders := fun _ hmem ↦ nomatch hmem
  fallback := Downloader.blind_file none

theorem root_ne_empty : "root" ≠ "" := by decide

theorem child_ne_empty : "child" ≠ "" := by decide

/-- The same machine with a run that was opened. -/
def handingOpened : Machine :=
  (handing.open_
    { id := ⟨"root", root_ne_empty⟩, handle := 1, inputs := Graph.handing.inputs
      outputs := Graph.handing.outputs }
    { loaded := .ofList [("child",
      { graph :=
          { id := ⟨"child", child_ne_empty⟩, handle := 2, inputs := Graph.inner.inputs
            outputs := Graph.inner.outputs }
        inputs := {} })] } true).2

/-- Inputs of which that graph declares the first one only. -/
def excessive : Inputs := .ofList [("x", .string "seen"), ("y", .string "unseen")]

theorem leads_handingOpened : Leads handing handingOpened fun _ ↦ [] := .next .refl (.opened _ _ _)

/-! ### Undeclared inputs -/

variable {m : Machine} {run : RunId} {c : Context} {given others : Inputs}

/-- Assumes: the machine came about from a blank one, and its provider does not look at the
interpreter. Inputs that agree under the names that the graph of a run declares make no difference. -/
theorem sameCourse_of_declared {first : Machine} {history : RunId → List (String × Value)}
    (hblank : first.Blank) (hleads : Leads first m history) (hblind : first.provider.Blind)
    (hcontext : m.context? run = some c)
    (hagree : ∀ g, m.world.interpreter.graphs.get? c.graph.handle = some g →
      ∀ decl ∈ g.inputs, given.get? decl.name = others.get? decl.name) :
    m.SameCourse run given others := by
  have hsound := hblank.leads hleads
  cases hinputs : c.inputs with
  | some kept => exact sameCourse_of_kept hcontext hinputs
  | none =>
    -- The check at loading: whatever a node reads is declared.
    have hread : ∀ g, m.world.interpreter.graphs.get? c.graph.handle = some g →
        ∀ name ∈ g.readInputs, given.get? name = others.get? name := by
      intro g hg name hname
      obtain ⟨decl, hdecl, rfl⟩ := (hsound.accepted _ g hg).declared_of_read hname
      exact hagree g hg decl hdecl
    have hpareable := pareable_start hsound ((later_of_leads hblank.sound hleads).blind hblind)
      hcontext hinputs
    exact (startsAlike_of_read hcontext hinputs hread).sameCourse (hpareable given)
      (hpareable others)

/-- The second input is not declared, and makes no difference. -/
theorem sameCourse_of_handing :
    handingOpened.SameCourse 1 excessive (.ofList [("x", .string "seen")]) ∧
      (handingOpened.runToEnd 60 1 excessive none).1 = .ok
        { success := true, run := 1, outputs := .ofList [("answer", .string "left over")]
          failedBranches := 0, error := none } := by
  refine ⟨?_, rfl⟩
  obtain ⟨c, hcontext⟩ := Option.isSome_iff_exists.mp
    (show (handingOpened.context? 1).isSome = true from rfl)
  have hhandle : c.graph.handle = 1 := by
    have hopened : (handingOpened.context? 1).map (·.graph.handle) = some 1 := rfl
    rw [hcontext] at hopened
    exact Option.some.inj hopened
  refine sameCourse_of_declared handing_blank leads_handingOpened handing_blind hcontext ?_
  intro g hg decl hdecl
  rw [hhandle] at hg
  obtain rfl : Graph.handing = g := Option.some.inj hg
  obtain rfl := List.mem_singleton.mp hdecl
  rfl

/-- The first one is declared, and does make a difference. -/
theorem not_sameCourse_of_handing :
    ¬handingOpened.SameCourse 1 (.ofList [("x", .string "seen")]) (.ofList [("x", .string "new")]) := by
  intro h
  have htold := congrArg (fun told : List Received ↦ (told[1]?).map (·.2)) h.begins
  change some (Callback.bind "E" "x" (.string "seen")) = some (.bind "E" "x" (.string "new")) at htold
  simp at htold

end Machine

end Blueprint
