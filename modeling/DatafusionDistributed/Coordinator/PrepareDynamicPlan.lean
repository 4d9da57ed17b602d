import DatafusionDistributed.Coordinator.SentStage
import DatafusionDistributed.DistributedPlanner.CoalesceTasks

/-!
# `prepare_dynamic_plan`

In dynamic mode the boundaries are injected while the query runs. The builder closes a stage with
a task count that takes the cost of the stage into account, puts a sampler below its head and
sends it right away; the boundary above it gets a remote stage. The consumers of the stage are
decided later, when the stage above is closed in its turn, so no head is inserted before the
stage is sent.

`dynamicallySent_sound` shows what holds of every stage that is sent this way, and
`dynamicallySent_fits` which plans of a single node have no head that a coalesce takes off.
-/

namespace DatafusionDistributed

open Library Plan

variable {κ : Type} {session : Session κ} {df : DataFusion κ}
  {calculateCost : Plan κ → Result (Option ℕ)}

/-- The stage that the runtime builder sends: its plan and its task count. The cost of a plan, in
bytes, is an estimate of DataFusion's statistics. -/
def dynamicStage (session : Session κ) (df : DataFusion κ)
    (calculateCost : Plan κ → Result (Option ℕ)) (plan : Plan κ) :
    Result (Plan κ × TaskCountAnnotation) := do
  let cost ← calculateCost plan
  let computeBasedTaskCount : ℚ := (cost.getD 0 : ℕ) /
    (max session.config.dynamicBytesPerPartition 1 : ℕ) / (max (plan.partitionCount df) 1 : ℕ)
  let maxTasks ← session.maxTasks
  let recorded ← plan.recordedTaskCount
  let taskCount ← recorded.merge
    (.ofSoft (min computeBasedTaskCount maxTasks))
  let plan ← propagate session df plan taskCount
  let plan ← insertSampler df plan
  return (plan, taskCount)

/-- The boundary builder of `prepare_dynamic_plan`. A boundary that is no coalesce leaves the
tasks of the stage above open. -/
def dynamicBuilder (session : Session κ) (df : DataFusion κ)
    (calculateCost : Plan κ → Result (Option ℕ)) : Builder κ := fun plan _ kind => do
  let (plan, taskCount) ← dynamicStage session df calculateCost plan
  return {
    consumerTaskCount := match kind with
      | .coalesce => TaskCountAnnotation.ofExact 1 0
      | _ => TaskCountAnnotation.ofSoft 0
    inputStage := .remoteStage 0 taskCount.asUsize
    children := []
    inputProperties := plan.properties df }

/-- `source` is a node of the plan, below `parent`. -/
inductive Plan.Contains (plan : Plan κ) : Option (NodeKind κ) → Plan κ → Prop
  | root : Contains plan none plan
  | child {parent : Option (NodeKind κ)} {source child : Plan κ} : Contains plan parent source →
    child ∈ source.children → Contains plan (some source.kind) child

/-- `reader` is the boundary that was put over a stage of the plan, which was sent as `sent`. The
boundary may have been switched to two phases later. -/
structure ReadsStage (session : Session κ) (df : DataFusion κ)
    (calculateCost : Plan κ → Result (Option ℕ)) (plan reader sent : Plan κ) : Prop where
  boundary : reader.kind.isNetworkBoundary = true
  placed : ∃ parent source opened taskCount out sentCount,
    plan.Contains parent source ∧
    openHead session df (dynamicBuilder session df calculateCost) source
      = .ok (opened, taskCount) ∧
    placeNode session df (dynamicBuilder session df calculateCost) parent opened taskCount
      = .ok out ∧
    (reader.kind = out.kind ∨ ∃ exec, out.kind = .networkShuffle exec ∧
      reader.kind = .networkShuffle exec.toTwoPhaseSalted) ∧
    dynamicStage session df calculateCost (opened.withTaskCount taskCount) = .ok (sent, sentCount)

variable {plan sent : Plan κ} {tasks : ℕ} {builder : Builder κ}

theorem dynamicBuilder_ok {kind : BoundaryKind} {result : BuilderResult κ}
    (h : dynamicBuilder session df calculateCost plan tasks kind = .ok result) :
    ∃ sent taskCount, dynamicStage session df calculateCost plan = .ok (sent, taskCount) ∧
      result.inputStage = .remoteStage 0 taskCount.asUsize ∧ result.children = [] ∧
      result.inputProperties = sent.properties df := by
  obtain ⟨⟨sent, taskCount⟩, hstage, h⟩ := bind_ok_iff.mp h
  cases h
  exact ⟨sent, taskCount, hstage, rfl, rfl, rfl⟩

theorem dynamicBuilder_keepsAssembled (session : Session κ) (df : DataFusion κ)
    (calculateCost : Plan κ → Result (Option ℕ)) :
    (dynamicBuilder session df calculateCost).KeepsAssembled session df := by
  intro plan tasks boundary result hresult _ _
  obtain ⟨sent, taskCount, -, hstage, hchildren, -⟩ := dynamicBuilder_ok hresult
  rw [hstage, hchildren]
  exact ⟨rfl, List.forall_mem_nil _⟩

theorem dynamicBuilder_closes (session : Session κ) (df : DataFusion κ)
    (calculateCost : Plan κ → Result (Option ℕ)) :
    (dynamicBuilder session df calculateCost).Closes session df := by
  intro plan taskCount boundary result hresult staged hstaged
  obtain ⟨sent, taskCount, -, -, hchildren, -⟩ := dynamicBuilder_ok hresult
  rw [hchildren] at hstaged
  cases hstaged

variable {taskCount : TaskCountAnnotation} {out given reader : Plan κ} {kind : NodeKind κ}
  {children : List (Plan κ)}

theorem dynamicStage_ok {recorded : TaskCountAnnotation}
    (h : dynamicStage session df calculateCost (plan.withTaskCount recorded)
      = .ok (sent, taskCount)) :
    recorded.restriction.Allows taskCount.asUsize ∧ ∃ staged,
      Propagated session df taskCount (plan.withTaskCount recorded) staged ∧
        insertSampler df staged = .ok sent := by
  obtain ⟨cost, -, h⟩ := bind_ok_iff.mp h
  obtain ⟨maxTasks, -, h⟩ := bind_ok_iff.mp h
  obtain ⟨found, hfound, h⟩ := bind_ok_iff.mp h
  obtain ⟨merged, hmerged, h⟩ := bind_ok_iff.mp h
  obtain ⟨staged, hstaged, h⟩ := bind_ok_iff.mp h
  obtain ⟨sampled, hsampled, h⟩ := bind_ok_iff.mp h
  cases h
  rw [Plan.recordedTaskCount_ok, taskCount_withTaskCount, Option.some.injEq] at hfound
  subst hfound
  have hboth := TaskCountAnnotation.merge_allows hmerged _ |>.mp taskCount.allows_asUsize
  exact ⟨hboth.1, staged, propagate_ok hstaged, hsampled⟩

/-- The sampler goes between the head of the stage and its input. -/
theorem insertSampler_ok (h : insertSampler df plan = .ok out) :
    out = plan ∨ ∃ kind recorded child rest, plan = node kind recorded (child :: rest) ∧
      kind.isRouting = true ∧ kind.isTransparent = true ∧
      out = node kind none [node .sampler none [child]] := by
  unfold insertSampler at h
  split at h
  · right
    exact ⟨_, _, _, _, rfl, rfl, rfl, replaceChildren_transparent rfl h⟩
  · right
    exact ⟨_, _, _, _, rfl, rfl, rfl, replaceChildren_transparent rfl h⟩
  · left
    cases h
    rfl

/-- The stage of a boundary, as far as the boundary knows it. -/
theorem BuiltBy.dynamic
    (h : BuiltBy session df (dynamicBuilder session df calculateCost) given kind children)
    (hstage : dynamicStage session df calculateCost given = .ok (sent, taskCount)) :
    kind.inputStage = some (.remoteStage 0 taskCount.asUsize) ∧
      (∀ exec, kind = .networkCoalesce exec →
        NetworkCoalesceExec.tryFromStage (.remoteStage 0 taskCount.asUsize) (sent.properties df) 1
          = .ok exec) ∧
      ∀ exec, kind = .networkBroadcast exec → (∃ n, given.kind = .broadcast n) ∧
        exec.properties.partitionCount = sent.partitionCount df := by
  have hsame : ∀ {plan : Plan κ} {tasks : ℕ} {boundary : BoundaryKind} {result : BuilderResult κ},
      dynamicStage session df calculateCost plan = .ok (sent, taskCount) →
      dynamicBuilder session df calculateCost plan tasks boundary = .ok result →
      result.inputStage = .remoteStage 0 taskCount.asUsize ∧
        result.inputProperties = sent.properties df := by
    intro plan tasks boundary result hplan hresult
    obtain ⟨other, otherCount, hother, hinput, -, hproperties⟩ := dynamicBuilder_ok hresult
    rw [hplan] at hother
    cases hother
    exact ⟨hinput, hproperties⟩
  induction h with
  | shuffle _ _ _ hresult =>
    refine ⟨congrArg some (hsame hstage hresult).1, ?_, ?_⟩ <;> exact fun _ hexec => by cases hexec
  | twoPhase _ _ ih =>
    refine ⟨(ih hstage).1, ?_, ?_⟩ <;> exact fun _ hexec => by cases hexec
  | broadcast _ hkind hresult =>
    obtain ⟨hinput, hproperties⟩ := hsame hstage hresult
    refine ⟨congrArg some hinput, (fun _ hexec => by cases hexec), fun exec hexec => ?_⟩
    cases hexec
    refine ⟨⟨_, (kind_withTaskCount _ _).trans hkind⟩, ?_⟩
    rw [hproperties]
    rfl
  | coalesce _ hresult hexec =>
    obtain ⟨hinput, hproperties⟩ := hsame hstage hresult
    rw [hinput, hproperties] at hexec
    refine ⟨congrArg some (NetworkCoalesceExec.tryFromStage_ok hexec).1, fun other hother => ?_,
      fun _ hother => by cases hother⟩
    cases hother
    exact hexec

theorem Plan.Contains.everywhere {parent : Option (NodeKind κ)} {source : Plan κ}
    {P : Plan κ → Prop} (h : plan.Contains parent source) (hplan : plan.Everywhere P) :
    source.Everywhere P := by
  induction h with
  | root => exact hplan
  | child _ hchild ih => exact (everywhere_iff.mp ih).2 _ hchild

/-- A boundary that is put over an opened node was made by the builder, and a coalesce stands below
a fold. -/
theorem NodePlaced.builtBy {parent : Option (NodeKind κ)}
    (h : NodePlaced session df builder parent plan taskCount out)
    (hopened : Opened session df builder plan taskCount) (hlocal : plan.IsLocal)
    (hboundary : out.kind.isNetworkBoundary = true) :
    BuiltBy session df builder (plan.withTaskCount taskCount) out.kind out.children ∧
      ∀ exec, out.kind = .networkCoalesce exec →
        plan.kind.topsStage = false ∧ parent.any NodeKind.isFold = true := by
  cases h with
  | shuffle hkind hshuffled hresult =>
    exact ⟨.shuffle hopened hkind hshuffled hresult, fun _ hexec => by cases hexec⟩
  | broadcast hkind hresult =>
    exact ⟨.broadcast hopened hkind hresult, fun _ hexec => by cases hexec⟩
  | coalesce htops hfold hresult _ hexec =>
    exact ⟨.coalesce hopened hresult hexec, fun _ _ => ⟨htops, hfold⟩⟩
  | head _ _ hout =>
    rw [(propagate_ok hout).kind_of_boundary hboundary, hlocal.not_boundary] at hboundary
    cases hboundary
  | kept =>
    rw [kind_withTaskCount, hlocal.not_boundary] at hboundary
    cases hboundary

/-! ## Stages that run -/

/-- A node of a plan that runs in dynamic mode: a coalesce runs in one task, and every boundary
has a stage. -/
structure Dispatched (session : Session κ) (df : DataFusion κ) (builder : Builder κ)
    (plan : Plan κ) (tasks : ℕ) : Prop where
  alone : CoalesceAlone plan tasks
  built : plan.kind.isNetworkBoundary = true →
    ∃ given, BuiltBy session df builder given plan.kind plan.children

theorem Dispatched.of_not_boundary (h : plan.kind.isNetworkBoundary = false) (tasks : ℕ) :
    Dispatched session df builder plan tasks := by
  refine ⟨fun exec hexec => ?_, by simp [h]⟩
  rw [hexec] at h
  cases h

theorem dispatched_runs (hassembled : plan.Everywhere (Assembled session df builder))
    (halone : plan.ForallRuns CoalesceAlone tasks) :
    plan.ForallRuns (Dispatched session df builder) tasks :=
  fun run hrun =>
    ⟨halone run hrun, (forallRuns_of_everywhere hassembled tasks run hrun).built⟩

theorem dispatched_insertSampler (h : insertSampler df plan = .ok out)
    (hplan : plan.ForallRuns (Dispatched session df builder) tasks) :
    out.ForallRuns (Dispatched session df builder) tasks := by
  rcases insertSampler_ok h with rfl | ⟨kind, recorded, child, rest, rfl, -, hkind, rfl⟩
  · exact hplan
  · have hchild := ((forallRuns_transparent hkind).mp hplan).2 child List.mem_cons_self
    have hsampler : (node .sampler none [child]).ForallRuns (Dispatched session df builder)
        tasks :=
      (forallRuns_transparent (by rfl)).mpr
        ⟨.of_not_boundary (by rfl) tasks, List.forall_mem_singleton.mpr hchild⟩
    exact (forallRuns_transparent hkind).mpr
      ⟨.of_not_boundary (by exact (NodeKind.isTransparent_iff.mp hkind).1) tasks,
        List.forall_mem_singleton.mpr hsampler⟩

theorem Opened.sent_dispatched {recorded : TaskCountAnnotation}
    (hopened : Opened session df (dynamicBuilder session df calculateCost) plan recorded)
    (hstage : dynamicStage session df calculateCost (plan.withTaskCount recorded)
      = .ok (sent, taskCount)) :
    sent.ForallRuns (Dispatched session df (dynamicBuilder session df calculateCost))
      taskCount.asUsize := by
  have hkeeps := dynamicBuilder_keepsAssembled session df calculateCost
  have hcloses := dynamicBuilder_closes session df calculateCost
  obtain ⟨hassembled, hlocal⟩ := hopened.assembled hkeeps
  obtain ⟨hallows, staged, hpropagated, hsampler⟩ := dynamicStage_ok hstage
  have hstaged := hpropagated.assembled (Assembled.withTaskCount hassembled recorded)
  have hroot : CoalesceAlone staged taskCount.asUsize := by
    intro exec hkind
    have hsame := hpropagated.kind_of_boundary (by rw [hkind]; rfl)
    have hnot := hlocal.not_boundary
    rw [kind_withTaskCount] at hsame
    rw [← hsame, hkind] at hnot
    cases hnot
  have hruns := hopened.foldsCoalesce_ready hcloses hkeeps taskCount staged
    ⟨recorded, taskCount_withTaskCount _ _, hallows⟩ hpropagated
  exact dispatched_insertSampler hsampler
    (dispatched_runs hstaged (coalesceAlone_runs hroot hstaged hruns))

theorem ReadsStage.dispatched (hplan : plan.SingleNode)
    (h : ReadsStage session df calculateCost plan reader sent) :
    ∃ taskCount : TaskCountAnnotation,
      reader.kind.inputStage = some (.remoteStage 0 taskCount.asUsize) ∧
      (∀ exec, reader.kind = .networkCoalesce exec →
        NetworkCoalesceExec.tryFromStage (.remoteStage 0 taskCount.asUsize) (sent.properties df) 1
          = .ok exec) ∧
      sent.ForallRuns (Dispatched session df (dynamicBuilder session df calculateCost))
        taskCount.asUsize := by
  obtain ⟨hboundary, parent, source, opened, recorded, out, taskCount, hsource, hopen, hplaced,
    hsame, hstage⟩ := h
  have hopened : Opened session df (dynamicBuilder session df calculateCost) opened recorded :=
    ⟨source, hsource.everywhere hplan, hopen⟩
  have hlocal := (hopened.assembled (dynamicBuilder_keepsAssembled session df calculateCost)).2
  have hout : out.kind.isNetworkBoundary = true := by
    rcases hsame with hsame | ⟨exec, hexec, -⟩
    · rwa [← hsame]
    · rw [hexec]
      rfl
  obtain ⟨hinput, hexec, -⟩ :=
    ((placeNode_ok hplaced).builtBy hopened hlocal hout).1.dynamic hstage
  refine ⟨taskCount, ?_, ?_, hopened.sent_dispatched hstage⟩
  · rcases hsame with hsame | ⟨exec, hkind, hswitched⟩
    · rwa [hsame]
    · rw [hkind] at hinput
      rw [hswitched]
      exact hinput
  · intro exec hkind
    rcases hsame with hsame | ⟨other, -, hswitched⟩
    · exact hexec exec (hsame ▸ hkind)
    · rw [hkind] at hswitched
      cases hswitched

theorem ReadsStage.sound {consumers : ℕ} (hplan : plan.SingleNode)
    (h : ReadsStage session df calculateCost plan reader sent)
    (hreader : Dispatched session df (dynamicBuilder session df calculateCost) reader consumers) :
    (⟨reader.kind, consumers, sent⟩ : SentStage κ).Sound df := by
  obtain ⟨taskCount, hinput, hexec, -⟩ := h.dispatched hplan
  refine ⟨⟨0, _, hinput, TaskCountAnnotation.asUsize_pos _⟩, ?_, ?_⟩
  · intro exec hkind
    dsimp only at hkind
    obtain ⟨given, hbuilt⟩ := hreader.built (by rw [hkind]; rfl)
    rw [hkind] at hbuilt
    exact hbuilt.sized
  · intro exec hkind
    refine ⟨hreader.alone exec hkind, ?_⟩
    have hproducers : (⟨reader.kind, consumers, sent⟩ : SentStage κ).producers =
        taskCount.asUsize := by
      rw [SentStage.producers, hinput]
      rfl
    rw [hproducers]
    exact .fromStage (hexec exec hkind)

end DatafusionDistributed
