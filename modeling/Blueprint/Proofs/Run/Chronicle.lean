import Blueprint.Proofs.Run.Course
import Mathlib.Data.Multiset.UnionInter

/-!
What the journal of a run bears out. `Deed.Follows` says of each deed what was told before it: a
read gives what was put on the pin last, a node ends once it has come to its end, and each
invocation has a scope of its own. `Standing.Told` says what a standing has to do with the journal
before it: the invocations that were begun are those under way and those that have ended, each of
them once.

One step keeps to both (`Standing.Told.step`), so they hold of every run from the start
(`Machine.told_of_records`).
-/

set_option autoImplicit false

namespace Blueprint

/-- The invocations that were begun, in order. -/
def invocations (journal : List Deed) : List NodeCall := journal.filterMap Deed.invoked?

/-- The invocations that have ended, in order. -/
def outcomes (journal : List Deed) : List (NodeCall × Ending × Bool) :=
  journal.filterMap Deed.ended?

/-- What is told of the node on a scope. -/
def ownDeeds (scope : Nat) (journal : List Deed) : List Deed :=
  journal.filter fun deed ↦ deed.scope? == some scope

theorem invocations_append (journal more : List Deed) :
    invocations (journal ++ more) = invocations journal ++ invocations more :=
  List.filterMap_append

theorem outcomes_append (journal more : List Deed) :
    outcomes (journal ++ more) = outcomes journal ++ outcomes more :=
  List.filterMap_append

theorem invocations_append_quiet (journal : List Deed) {more : List Deed}
    (h : ∀ deed ∈ more, deed.invoked? = none) :
    invocations (journal ++ more) = invocations journal := by
  have hmore : invocations more = [] := List.filterMap_eq_nil_iff.mpr h
  rw [invocations_append, hmore, List.append_nil]

theorem outcomes_append_quiet (journal : List Deed) {more : List Deed}
    (h : ∀ deed ∈ more, deed.ended? = none) : outcomes (journal ++ more) = outcomes journal := by
  have hmore : outcomes more = [] := List.filterMap_eq_nil_iff.mpr h
  rw [outcomes_append, hmore, List.append_nil]

theorem ownDeeds_append (scope : Nat) (journal more : List Deed) :
    ownDeeds scope (journal ++ more) = ownDeeds scope journal ++ ownDeeds scope more :=
  List.filter_append ..

theorem add_map_concat {α β : Type} (f : α → β) (rest : Multiset β) (list : List α) (last : α) :
    rest + ((list ++ [last]).map f : Multiset β) =
      f last ::ₘ (rest + (list.map f : Multiset β)) := by
  have hconcat : ((list ++ [last]).map f : Multiset β) = f last ::ₘ (list.map f : Multiset β) := by
    rw [List.map_append]
    exact Multiset.coe_eq_coe.mpr (List.perm_append_singleton ..)
  rw [hconcat, Multiset.add_cons]

/-- The invocations under way stay the same while the node of one goes on. -/
theorem map_restaged {β : Type} (f : NodeCall → β) {working rest : Multiset Work} {call : NodeCall}
    {stage : Option Progress} (h : working = (call, stage) ::ₘ rest) (later : Option Progress) :
    ((call, later) ::ₘ rest).map (fun work ↦ f work.1) = working.map fun work ↦ f work.1 := by
  rw [h, Multiset.map_cons, Multiset.map_cons]

/-! ### Pins -/

theorem Bindings.get?_putAll (b : Bindings) (writes : List ((String × String) × Value))
    (pin : String × String) :
    (b.putAll writes).get? pin =
      ((writes.reverse.find? fun write ↦ write.1 == pin).map (·.2)).or (b.get? pin) := by
  induction writes generalizing b with
  | nil => rfl
  | cons first rest ih =>
    have hinsert : (b.insert first.1 first.2).get? pin =
        if first.1 = pin then some first.2 else b.get? pin := Table.get?_insert _ _ _ _
    rw [putAll, List.foldl_cons, ← putAll, ih, hinsert, List.reverse_cons, List.find?_append]
    cases rest.reverse.find? fun write ↦ write.1 == pin with
    | some write => rfl
    | none =>
      by_cases hpin : first.1 = pin
      · simp [hpin]
      · simp [hpin]

theorem Bindings.putAll_append (b : Bindings) (writes more : List ((String × String) × Value)) :
    b.putAll (writes ++ more) = (b.putAll writes).putAll more :=
  List.foldl_append ..

theorem lastPut_append (node pin : String) (journal more : List Deed) :
    lastPut node pin (journal ++ more) = (lastPut node pin more).or (lastPut node pin journal) := by
  rw [lastPut, List.flatMap_append, List.reverse_append, List.find?_append, lastPut, lastPut]
  cases (more.flatMap Deed.puts).reverse.find? fun write ↦ write.1 == (node, pin) <;> rfl

/-- The pins hold what was put on them last. -/
theorem get?_putAll_puts (node pin : String) (journal : List Deed) :
    (Bindings.putAll {} (journal.flatMap Deed.puts)).get? (node, pin) =
      lastPut node pin journal := by
  rw [Bindings.get?_putAll]
  exact Option.or_none ..

/-! ### What a node has done -/

/-- What a node does from one request on to a later one. -/
inductive NodeCall.Path (config : RunConfig) (call : NodeCall) (start : Behaviour) :
    List Deed → Behaviour → Prop
  | refl : Path config call start [] start
  | next {told more : List Deed} {request later : Behaviour} {bindings : Bindings}
      {progress : Progress} (h : Path config call start told request)
      (hasks : request.Asks config bindings call more progress)
      (hresumes : RunView.Resumes progress later) : Path config call start (told ++ more) later

variable (registry : Registry) (config : RunConfig) (journal : List Deed) (call : NodeCall)

/-- The node of an invocation has come to a request, and has done on the way what is told of it. -/
def NodeCall.ComesTo (request : Behaviour) : Prop :=
  ∃ kind, registry.get? call.kind = some kind ∧
    call.Path config (kind.behaviour call) (ownDeeds call.scope journal) request

/-- The node of an invocation is so far. -/
def NodeCall.IsAt : Option Progress → Prop
  | none => ownDeeds call.scope journal = []
  | some progress =>
    ∀ request, RunView.Resumes progress request → call.ComesTo registry config journal request

/-- How the node of an invocation has returned. -/
inductive NodeCall.Returned : Ending → Prop
  | ended {request : Behaviour} {ending : Ending}
      (h : call.ComesTo registry config journal request) (hending : request.ending? = some ending) :
      Returned ending
  | unknown (hkind : registry.get? call.kind = none) : Returned (.unknownKind call.kind)

/-- An invocation was begun and has not ended. -/
def NodeCall.AtWork : Prop :=
  call ∈ invocations journal ∧ ∀ outcome ∈ outcomes journal, outcome.1.scope ≠ call.scope

/-- What was told before a deed. -/
def Deed.Follows : Deed → Prop
  | .invoked call _ => (∀ other ∈ invocations journal, other.scope < call.scope) ∧ .closed ∉ journal
  | .read call node pin answer => call.AtWork journal ∧ answer = lastPut node pin journal
  | .wrote call _ _ | .triggered call _ _ => call.AtWork journal
  | .nested call graph inputs =>
    call.AtWork journal ∧ ∃ next, call.ComesTo registry config journal (.nest graph inputs next)
  | .ended call ending accepted =>
    call.AtWork journal ∧ call.Returned registry config journal ending ∧
      (accepted = true ↔ .closed ∉ journal)
  | .closed => True

/-- Every deed of a journal follows what is told before. -/
def Chronicle : Prop :=
  ∀ before deed after, journal = before ++ deed :: after → deed.Follows registry config before

/-- What a standing has to do with the journal before it. Before that, other invocations may have
ended. -/
structure Standing.Told (earlier : List (NodeCall × Ending × Bool)) (s : Standing) : Prop where
  chronicle : Chronicle registry s.config journal
  unstarted : s.started = false → journal = [] ∧ s.next? = none ∧ s.working = 0
  bindings : s.bindings = Bindings.putAll {} (journal.flatMap Deed.puts)
  failures : s.failures = (outcomes journal).countP fun outcome ↦ !outcome.2.1.isDone
  endings : s.endings = earlier ++ outcomes journal
  scopes : ∀ call ∈ invocations journal, ∀ next ∈ s.next?, call.scope < next
  running : s.next?.isSome = true → .closed ∉ journal
  closed : s.next? = none → ∀ call, call ∈ invocations journal → .closed ∈ journal
  begun : ∀ work ∈ s.working, work.1 ∈ invocations journal
  distinct : (s.working.map (·.1.scope) + (outcomes journal).map (·.1.scope)).Nodup
  /-- Nothing is lost where there is a place for tasks. -/
  balance : s.hasTasks = true →
    s.working.map (·.1) + (outcomes journal).map (·.1) = (invocations journal : Multiset NodeCall)
  stages : ∀ work ∈ s.working, work.1.IsAt registry s.config journal work.2

section

variable {registry config journal call} {more : List Deed} {deed : Deed} {scope : Nat}

/-! ### Deeds of a node -/

theorem Deed.quiet_of_scope (h : deed.scope? = some scope) :
    deed.invoked? = none ∧ deed.ended? = none ∧ deed ≠ .closed := by
  cases deed with
  | read | wrote | triggered | nested => exact ⟨rfl, rfl, Deed.noConfusion⟩
  | invoked | ended | closed => cases h

theorem chronicle_nil : Chronicle registry config [] := by
  intro before deed after hsplit
  simp at hsplit

theorem Chronicle.append (h : Chronicle registry config journal)
    (hdeed : deed.Follows registry config journal) :
    Chronicle registry config (journal ++ [deed]) := by
  intro before other after hsplit
  rcases List.eq_nil_or_concat after with rfl | ⟨rest, last, rfl⟩
  · obtain ⟨rfl, hlast⟩ := List.append_inj' hsplit rfl
    obtain rfl := List.singleton_inj.mp hlast
    exact hdeed
  · rw [List.concat_eq_append, ← List.cons_append, ← List.append_assoc] at hsplit
    exact h before other rest (List.append_inj' hsplit rfl).1

/-- A node that has done something was invoked. -/
theorem Deed.Follows.exists_invoked (h : deed.Follows registry config journal)
    (hscope : deed.scope? = some scope) : ∃ call ∈ invocations journal, call.scope = scope := by
  have hwork (call : NodeCall) (hwork : call.AtWork journal)
      (hcall : some call.scope = some scope) : ∃ call ∈ invocations journal, call.scope = scope :=
    ⟨call, hwork.1, Option.some.inj hcall⟩
  cases deed with
  | read call node pin answer => exact hwork call h.1 hscope
  | wrote call pin value => exact hwork call h hscope
  | triggered call pin outcome => exact hwork call h hscope
  | nested call graph inputs => exact hwork call h.1 hscope
  | invoked | ended | closed => cases hscope

theorem Chronicle.exists_invoked (h : Chronicle registry config journal) (hdeed : deed ∈ journal)
    (hscope : deed.scope? = some scope) : ∃ call ∈ invocations journal, call.scope = scope := by
  obtain ⟨before, after, rfl⟩ := List.append_of_mem hdeed
  obtain ⟨call, hcall, hscope⟩ := (h before deed after rfl).exists_invoked hscope
  refine ⟨call, ?_, hscope⟩
  rw [invocations_append]
  exact List.mem_append_left _ hcall

/-- A scope that no node was invoked on. -/
theorem Chronicle.ownDeeds_eq_nil (h : Chronicle registry config journal)
    (hnew : ∀ call ∈ invocations journal, call.scope ≠ scope) : ownDeeds scope journal = [] := by
  refine List.filter_eq_nil_iff.mpr fun deed hdeed hscope ↦ ?_
  obtain ⟨call, hcall, heq⟩ := h.exists_invoked hdeed (eq_of_beq hscope)
  exact hnew call hcall heq

/-- What has ended was begun. -/
theorem Chronicle.begun_of_outcome (h : Chronicle registry config journal)
    {outcome : NodeCall × Ending × Bool} (houtcome : outcome ∈ outcomes journal) :
    outcome.1 ∈ invocations journal := by
  obtain ⟨deed, hdeed, heq⟩ := List.mem_filterMap.mp houtcome
  obtain ⟨before, after, rfl⟩ := List.append_of_mem hdeed
  have hfollows := h before deed after rfl
  cases deed with
  | ended call ending accepted =>
    obtain rfl := Option.some.inj heq
    rw [invocations_append]
    exact List.mem_append_left _ hfollows.1.1
  | invoked | read | wrote | triggered | nested | closed => cases heq

/-- A node is as far as before while nothing is told of it. -/
theorem NodeCall.IsAt.append {stage : Option Progress}
    (h : call.IsAt registry config journal stage) (hmore : ownDeeds call.scope more = []) :
    call.IsAt registry config (journal ++ more) stage := by
  have hown : ownDeeds call.scope (journal ++ more) = ownDeeds call.scope journal := by
    rw [ownDeeds_append, hmore, List.append_nil]
  cases stage with
  | none => exact hown.trans h
  | some progress =>
    intro request hresumes
    obtain ⟨kind, hkind, hpath⟩ := h request hresumes
    exact ⟨kind, hkind, hown ▸ hpath⟩

/-- Assumes: a node that has come to a request, on pins that hold what was put on them last. What it
does by the request follows what was told before. -/
theorem Behaviour.Asks.follows {bindings : Bindings} {request : Behaviour} {later : Progress}
    {told : List Deed} (h : request.Asks config bindings call told later)
    (hbindings : ∀ node pin, bindings.get? (node, pin) = lastPut node pin journal)
    (hwork : call.AtWork journal) (hcomes : call.ComesTo registry config journal request) :
    told = [] ∨ ∃ deed, told = [deed] ∧ deed.scope? = some call.scope ∧
      deed.Follows registry config journal := by
  cases h with
  | read node pin next => exact .inr ⟨_, rfl, rfl, hwork, hbindings node pin⟩
  | write | trigger => exact .inr ⟨_, rfl, rfl, hwork⟩
  | nestRefused graph inputs next | nesting graph inputs next =>
    exact .inr ⟨_, rfl, rfl, hwork, next, hcomes⟩
  | _ => exact .inl rfl

end

namespace Standing

variable {registry journal} {earlier : List (NodeCall × Ending × Bool)} {s later : Standing}
  {told : List Deed}

namespace Told

theorem atWork (h : Told registry journal earlier s) {work : Work} (hwork : work ∈ s.working) :
    work.1.AtWork journal := by
  refine ⟨h.begun work hwork, fun outcome houtcome heq ↦ ?_⟩
  have hdisjoint := (Multiset.nodup_add.mp h.distinct).2.2
  refine Multiset.disjoint_left.mp hdisjoint (Multiset.mem_map_of_mem _ hwork) ?_
  rw [← heq]
  exact Multiset.mem_coe.mpr (List.mem_map.mpr ⟨outcome, houtcome, rfl⟩)

/-- What happens to a run that nothing was told of. -/
theorem of_unstarted (h : Told registry journal earlier s) (hstarted : s.started = false)
    {config : RunConfig} {hasTasks started : Bool} {next? : Option Nat}
    (hnext : started = false → next? = none) :
    Told registry journal earlier { s with config, hasTasks, started, next? } := by
  obtain ⟨rfl, -, hworking⟩ := h.unstarted hstarted
  exact
    { h with
      chronicle := chronicle_nil
      unstarted := fun hunstarted ↦ ⟨rfl, hnext hunstarted, hworking⟩
      scopes := fun call hcall ↦ nomatch hcall
      running := fun _ hclosed ↦ nomatch hclosed
      closed := fun _ call hcall ↦ nomatch hcall
      balance := fun _ ↦ by rw [hworking]; rfl
      stages := fun work hwork ↦ by rw [hworking] at hwork; cases hwork }

/-- There is no work before the start. -/
theorem started_of_mem (h : Told registry journal earlier s) {work : Work}
    (hwork : work ∈ s.working) : s.started = true := by
  by_contra hstarted
  rw [Bool.not_eq_true] at hstarted
  rw [(h.unstarted hstarted).2.2] at hwork
  cases hwork

theorem started_of_next (h : Told registry journal earlier s) {next : Nat}
    (hnext : s.next? = some next) : s.started = true := by
  by_contra hstarted
  rw [Bool.not_eq_true] at hstarted
  cases (h.unstarted hstarted).2.1.symm.trans hnext

theorem get?_bindings (h : Told registry journal earlier s) (node pin : String) :
    s.bindings.get? (node, pin) = lastPut node pin journal := by
  rw [h.bindings, get?_putAll_puts]

theorem begun_restaged (h : Told registry journal earlier s) {call : NodeCall}
    {stage later : Option Progress} {rest : Multiset Work}
    (hworking : s.working = (call, stage) ::ₘ rest) :
    ∀ work ∈ (call, later) ::ₘ rest, work.1 ∈ invocations journal := by
  intro work hwork
  have hcall := Multiset.mem_map_of_mem (fun work : Work ↦ work.1) hwork
  rw [map_restaged (fun call ↦ call) hworking] at hcall
  obtain ⟨before, hbefore, heq⟩ := Multiset.mem_map.mp hcall
  exact heq ▸ h.begun before hbefore

theorem invoked (h : Told registry journal earlier s) {call : NodeCall}
    (bound : List (String × Value)) (hnext : s.next? = some call.scope) :
    Told registry (journal ++ [.invoked call bound]) earlier { s with
      next? := some (call.scope + 1)
      bindings := s.bindings.putAll (Deed.invoked call bound).puts
      working := (call, none) ::ₘ s.working } := by
  have hinvocations : invocations (journal ++ [.invoked call bound]) =
      invocations journal ++ [call] := invocations_append ..
  have houtcomes : outcomes (journal ++ [.invoked call bound]) = outcomes journal :=
    outcomes_append_quiet journal (by simp [Deed.ended?])
  have hopen : .closed ∉ journal := h.running (by rw [hnext]; rfl)
  have hold : ∀ other ∈ invocations journal, other.scope < call.scope :=
    fun other hother ↦ h.scopes other hother call.scope hnext
  have hfresh : ∀ other ∈ invocations journal, other.scope ≠ call.scope :=
    fun other hother ↦ Nat.ne_of_lt (hold other hother)
  constructor
  case chronicle => exact h.chronicle.append ⟨hold, hopen⟩
  case unstarted => exact fun hstarted ↦ nomatch (h.started_of_next hnext).symm.trans hstarted
  case bindings =>
    rw [List.flatMap_append, List.flatMap_singleton, Bindings.putAll_append, ← h.bindings]
  case failures => rw [houtcomes]; exact h.failures
  case endings => rw [houtcomes]; exact h.endings
  case scopes =>
    rintro other hother next ⟨⟩
    rw [hinvocations] at hother
    rcases List.mem_append.mp hother with hother | hother
    · exact Nat.lt_succ_of_lt (hold other hother)
    · obtain rfl := List.mem_singleton.mp hother
      exact Nat.lt_succ_self _
  case running =>
    intro _ hclosed
    rcases List.mem_append.mp hclosed with hclosed | hclosed
    · exact hopen hclosed
    · cases List.mem_singleton.mp hclosed
  case closed => exact fun hnone ↦ nomatch hnone
  case begun =>
    intro work hwork
    rw [hinvocations]
    rcases Multiset.mem_cons.mp hwork with rfl | hwork
    · exact List.mem_append_right _ (List.mem_singleton_self _)
    · exact List.mem_append_left _ (h.begun work hwork)
  case distinct =>
    rw [houtcomes, Multiset.map_cons, Multiset.cons_add, Multiset.nodup_cons]
    refine ⟨fun hmem ↦ ?_, h.distinct⟩
    rcases Multiset.mem_add.mp hmem with hmem | hmem
    · obtain ⟨work, hwork, heq⟩ := Multiset.mem_map.mp hmem
      exact hfresh work.1 (h.begun work hwork) heq
    · obtain ⟨outcome, houtcome, heq⟩ := List.mem_map.mp (Multiset.mem_coe.mp hmem)
      exact hfresh outcome.1 (h.chronicle.begun_of_outcome houtcome) heq
  case balance =>
    intro htasks
    rw [houtcomes, hinvocations, Multiset.map_cons, Multiset.cons_add, h.balance htasks]
    exact (Multiset.coe_eq_coe.mpr (List.perm_append_singleton call _)).symm
  case stages =>
    intro work hwork
    rcases Multiset.mem_cons.mp hwork with rfl | hwork
    · have hidle : call.IsAt registry s.config journal none := h.chronicle.ownDeeds_eq_nil hfresh
      exact hidle.append rfl
    · exact (h.stages work hwork).append rfl

theorem ended (h : Told registry journal earlier s) {call : NodeCall} {stage : Option Progress}
    {ending : Ending} {rest : Multiset Work} (hworking : s.working = (call, stage) ::ₘ rest)
    (hreturns : call.Returns registry stage ending) :
    Told registry (journal ++ [.ended call ending s.next?.isSome]) earlier { s with
      failures := s.failures + if ending.isDone then 0 else 1
      working := rest
      endings := s.endings ++ [(call, ending, s.next?.isSome)] } := by
  have hmem : (call, stage) ∈ s.working := hworking ▸ Multiset.mem_cons_self ..
  have hrest {work : Work} (hwork : work ∈ rest) : work ∈ s.working :=
    hworking ▸ Multiset.mem_cons_of_mem hwork
  have hinvocations : invocations (journal ++ [.ended call ending s.next?.isSome]) =
      invocations journal := invocations_append_quiet journal (by simp [Deed.invoked?])
  have houtcomes : outcomes (journal ++ [.ended call ending s.next?.isSome]) =
      outcomes journal ++ [(call, ending, s.next?.isSome)] := outcomes_append ..
  have hclosed : .closed ∈ journal ++ [.ended call ending s.next?.isSome] ↔ .closed ∈ journal := by
    simp
  have haccepted : s.next?.isSome = true ↔ .closed ∉ journal := by
    refine ⟨h.running, fun hopen ↦ ?_⟩
    by_contra hnone
    exact hopen (h.closed (by simpa using hnone) call (h.begun _ hmem))
  have hreturned : call.Returned registry s.config journal ending := by
    have hstage := h.stages _ hmem
    cases hreturns with
    | ended hresumes hending => exact .ended (hstage _ hresumes) hending
    | unknown hkind => exact .unknown hkind
  constructor
  case chronicle => exact h.chronicle.append ⟨h.atWork hmem, hreturned, haccepted⟩
  case unstarted => exact fun hstarted ↦ nomatch (h.started_of_mem hmem).symm.trans hstarted
  case bindings =>
    rw [List.flatMap_append]
    exact h.bindings.trans (congrArg _ (List.append_nil _).symm)
  case failures =>
    rw [houtcomes, List.countP_append, ← h.failures, List.countP_singleton]
    cases ending.isDone <;> rfl
  case endings => rw [houtcomes, h.endings, List.append_assoc]
  case scopes => rw [hinvocations]; exact h.scopes
  case running => exact fun hsome ↦ hclosed.not.mpr (h.running hsome)
  case closed =>
    rw [hinvocations]
    exact fun hnone other hother ↦ hclosed.mpr (h.closed hnone other hother)
  case begun =>
    rw [hinvocations]
    exact fun work hwork ↦ h.begun work (hrest hwork)
  case distinct =>
    have hdistinct := h.distinct
    rw [hworking, Multiset.map_cons, Multiset.cons_add] at hdistinct
    rw [houtcomes, add_map_concat]
    exact hdistinct
  case balance =>
    intro htasks
    rw [houtcomes, hinvocations, add_map_concat, ← h.balance htasks, hworking, Multiset.map_cons,
      Multiset.cons_add]
  case stages => exact fun work hwork ↦ (h.stages work (hrest hwork)).append rfl

theorem acted (h : Told registry journal earlier s) {call : NodeCall} {progress after : Progress}
    {request : Behaviour} {rest : Multiset Work}
    (hworking : s.working = (call, some progress) ::ₘ rest)
    (hresumes : RunView.Resumes progress request)
    (hasks : request.Asks s.config s.bindings call told after) :
    Told registry (journal ++ told) earlier { s with
      bindings := s.bindings.putAll (told.flatMap Deed.puts)
      working := (call, some after) ::ₘ rest } := by
  have hmem : (call, some progress) ∈ s.working := hworking ▸ Multiset.mem_cons_self ..
  have hcomes : call.ComesTo registry s.config journal request := h.stages _ hmem request hresumes
  have hfollows := hasks.follows h.get?_bindings (h.atWork hmem) hcomes
  have htold : ∀ deed ∈ told, deed.scope? = some call.scope := by
    rcases hfollows with rfl | ⟨deed, rfl, hscope, -⟩
    · exact fun _ hdeed ↦ nomatch hdeed
    · exact List.forall_mem_singleton.mpr hscope
  have hinvocations : invocations (journal ++ told) = invocations journal :=
    invocations_append_quiet journal fun deed hdeed ↦ (Deed.quiet_of_scope (htold deed hdeed)).1
  have houtcomes : outcomes (journal ++ told) = outcomes journal :=
    outcomes_append_quiet journal fun deed hdeed ↦ (Deed.quiet_of_scope (htold deed hdeed)).2.1
  have hclosed : .closed ∈ journal ++ told ↔ .closed ∈ journal := by
    refine List.mem_append.trans (or_iff_left fun hdeed ↦ ?_)
    exact (Deed.quiet_of_scope (htold _ hdeed)).2.2 rfl
  have hown : ownDeeds call.scope told = told :=
    List.filter_eq_self.mpr fun deed hdeed ↦ beq_iff_eq.mpr (htold deed hdeed)
  have hother {scope : Nat} (hne : scope ≠ call.scope) : ownDeeds scope told = [] := by
    refine List.filter_eq_nil_iff.mpr fun deed hdeed hscope ↦ ?_
    rw [htold deed hdeed, beq_iff_eq, Option.some.injEq] at hscope
    exact hne hscope.symm
  constructor
  case chronicle =>
    rcases hfollows with rfl | ⟨deed, rfl, -, hfollows⟩
    · rw [List.append_nil]
      exact h.chronicle
    · exact h.chronicle.append hfollows
  case unstarted => exact fun hstarted ↦ nomatch (h.started_of_mem hmem).symm.trans hstarted
  case bindings => rw [List.flatMap_append, Bindings.putAll_append, ← h.bindings]
  case failures => rw [houtcomes]; exact h.failures
  case endings => rw [houtcomes]; exact h.endings
  case scopes => rw [hinvocations]; exact h.scopes
  case running => exact fun hsome ↦ hclosed.not.mpr (h.running hsome)
  case closed =>
    rw [hinvocations]
    exact fun hnone other hother ↦ hclosed.mpr (h.closed hnone other hother)
  case begun => rw [hinvocations]; exact h.begun_restaged hworking
  case distinct => rw [houtcomes, map_restaged (·.scope) hworking]; exact h.distinct
  case balance =>
    rw [houtcomes, hinvocations, map_restaged (fun call ↦ call) hworking]
    exact h.balance
  case stages =>
    intro work hwork
    rcases Multiset.mem_cons.mp hwork with rfl | hwork
    · intro later hlater
      obtain ⟨kind, hkind, hpath⟩ := hcomes
      refine ⟨kind, hkind, ?_⟩
      rw [ownDeeds_append, hown]
      exact hpath.next hasks hlater
    · have hne : work.1.scope ≠ call.scope := by
        intro heq
        have hdistinct := (Multiset.nodup_add.mp h.distinct).1
        rw [hworking, Multiset.map_cons] at hdistinct
        refine (Multiset.nodup_cons.mp hdistinct).1 ?_
        exact heq ▸ Multiset.mem_map_of_mem (fun work : Work ↦ work.1.scope) hwork
      exact (h.stages work (hworking ▸ Multiset.mem_cons_of_mem hwork)).append (hother hne)

/-- A scope that is opened without a node. -/
theorem skipped (h : Told registry journal earlier s) {next : Nat} (hnext : s.next? = some next) :
    Told registry journal earlier { s with next? := some (next + 1) } :=
  { h with
    unstarted := fun hstarted ↦ nomatch (h.started_of_next hnext).symm.trans hstarted
    scopes := by
      rintro call hcall last ⟨⟩
      exact Nat.lt_succ_of_lt (h.scopes call hcall next hnext)
    running := fun _ ↦ h.running (by rw [hnext]; rfl)
    closed := fun hnone ↦ nomatch hnone }

/-- A node starts. -/
theorem taken (h : Told registry journal earlier s) {call : NodeCall} {kind : NodeKind}
    {rest : Multiset Work} (hworking : s.working = (call, none) ::ₘ rest)
    (hkind : registry.get? call.kind = some kind) :
    Told registry journal earlier { s with
      working := (call, some (.going (kind.behaviour call))) ::ₘ rest } := by
  have hmem : (call, none) ∈ s.working := hworking ▸ Multiset.mem_cons_self ..
  exact
    { h with
      unstarted := fun hstarted ↦ nomatch (h.started_of_mem hmem).symm.trans hstarted
      begun := h.begun_restaged hworking
      distinct := by rw [map_restaged (·.scope) hworking]; exact h.distinct
      balance := by rw [map_restaged (fun call ↦ call) hworking]; exact h.balance
      stages := by
        intro work hwork
        rcases Multiset.mem_cons.mp hwork with rfl | hwork
        · rintro _ ⟨⟩
          have hown : ownDeeds call.scope journal = [] := h.stages _ hmem
          exact ⟨kind, hkind, hown ▸ .refl⟩
        · exact h.stages work (hworking ▸ Multiset.mem_cons_of_mem hwork) }

/-- An invocation is given up. -/
theorem lost (h : Told registry journal earlier s) {work : Work} {rest : Multiset Work}
    (hworking : s.working = work ::ₘ rest) (htasks : s.hasTasks = false) :
    Told registry journal earlier { s with working := rest } := by
  have hmem : work ∈ s.working := hworking ▸ Multiset.mem_cons_self ..
  have hrest {other : Work} (hother : other ∈ rest) : other ∈ s.working :=
    hworking ▸ Multiset.mem_cons_of_mem hother
  exact
    { h with
      unstarted := fun hstarted ↦ nomatch (h.started_of_mem hmem).symm.trans hstarted
      begun := fun other hother ↦ h.begun other (hrest hother)
      distinct := by
        have hdistinct := h.distinct
        rw [hworking, Multiset.map_cons, Multiset.cons_add] at hdistinct
        exact (Multiset.nodup_cons.mp hdistinct).2
      balance := fun hsome ↦ nomatch htasks.symm.trans hsome
      stages := fun other hother ↦ h.stages other (hrest hother) }

/-- The run is forgotten. -/
theorem shut (h : Told registry journal earlier s) {next : Nat} (hnext : s.next? = some next) :
    Told registry (journal ++ [.closed]) earlier { s with next? := none } := by
  have hinvocations : invocations (journal ++ [.closed]) = invocations journal :=
    invocations_append_quiet journal (by simp [Deed.invoked?])
  have houtcomes : outcomes (journal ++ [.closed]) = outcomes journal :=
    outcomes_append_quiet journal (by simp [Deed.ended?])
  constructor
  case chronicle => exact h.chronicle.append trivial
  case unstarted => exact fun hstarted ↦ nomatch (h.started_of_next hnext).symm.trans hstarted
  case bindings =>
    rw [List.flatMap_append]
    exact h.bindings.trans (congrArg _ (List.append_nil _).symm)
  case failures => rw [houtcomes]; exact h.failures
  case endings => rw [houtcomes]; exact h.endings
  case scopes => exact fun _ _ _ hnone ↦ nomatch hnone
  case running => exact fun hnone ↦ nomatch hnone
  case closed => exact fun _ _ _ ↦ List.mem_append_right _ (List.mem_singleton_self _)
  case begun => rw [hinvocations]; exact h.begun
  case distinct => rw [houtcomes]; exact h.distinct
  case balance => rw [houtcomes, hinvocations]; exact h.balance
  case stages => exact fun work hwork ↦ (h.stages work hwork).append rfl

/-- One step of a standing. -/
theorem step (h : Told registry journal earlier s) (hstep : Step registry s told later) :
    Told registry (journal ++ told) earlier later := by
  cases hstep with
  | opened config hasTasks hstarted =>
    rw [List.append_nil]
    have hnext := (h.unstarted hstarted).2.1
    exact h.of_unstarted hstarted fun _ ↦ hnext
  | begun next? hstarted =>
    rw [List.append_nil]
    exact h.of_unstarted hstarted nofun
  | invoked call bound hnext => exact h.invoked bound hnext
  | skipped next hnext =>
    rw [List.append_nil]
    exact h.skipped hnext
  | taken call kind rest hworking hkind =>
    rw [List.append_nil]
    exact h.taken hworking hkind
  | acted call rest hworking hresumes hasks => exact h.acted hworking hresumes hasks
  | ended call stage ending rest hworking hreturns => exact h.ended hworking hreturns
  | lost work rest hworking htasks =>
    rw [List.append_nil]
    exact h.lost hworking htasks
  | closed hnext =>
    obtain ⟨next, hsome⟩ := Option.isSome_iff_exists.mp hnext
    exact h.shut hsome

theorem steps (h : Told registry journal earlier s) (hsteps : Steps registry s told later) :
    Told registry (journal ++ told) earlier later := by
  induction hsteps with
  | refl => exact (List.append_nil journal).symm ▸ h
  | next _ hstep ih => exact List.append_assoc journal _ _ ▸ ih.step hstep

end Told

end Standing

namespace Machine

variable {m m' : Machine} {run : RunId} {journals : RunId → List Deed}

/-- Of a run that nothing was done with, nothing is told. -/
theorem Blank.told (h : m.Blank) (run : RunId) :
    Standing.Told m.provider.registry [] (m.endings run) (m.standing run 0) := by
  have hview : m.view run = {} := by
    simp [view, h.context run, h.active run, h.frames, h.tasks]
  rw [standing, hview]
  exact
    { chronicle := chronicle_nil
      unstarted := fun _ ↦ ⟨rfl, rfl, rfl⟩
      bindings := rfl
      failures := rfl
      endings := (List.append_nil _).symm
      scopes := fun _ hcall ↦ by cases hcall
      running := fun _ hclosed ↦ by cases hclosed
      closed := fun _ _ hcall ↦ by cases hcall
      begun := fun _ hwork ↦ by cases hwork
      distinct := Multiset.nodup_zero
      balance := fun _ ↦ rfl
      stages := fun _ hwork ↦ by cases hwork }

/-- What every run keeps to, in any machine that can be reached. -/
theorem told_of_records (hblank : m.Blank) (hrecords : Records m m' journals) (run : RunId) :
    Standing.Told m.provider.registry (journals run) (m.endings run) (m'.standing run 0) :=
  (hblank.told run).steps (steps_of_records hblank.sound hrecords run)

end Machine

end Blueprint
