import DatafusionDistributed.DistributedPlanner.Injected

/-!
# How an injected plan is assembled

The boundaries of a plan that `inject_network_boundaries` returns, for any boundary builder. Each
one was made from a result of the builder; a coalesce is found below folds only, and a two-phase
shuffle below the `RepartitionExec` that undoes its salt. `injectNetworkBoundaries_assembled` is
the result; the last section spells it out for the static builder.
-/

namespace DatafusionDistributed

open Library Plan

variable {κ : Type} {session : Session κ} {df : DataFusion κ} {builder : Builder κ}

/-- A visited node of a plan of a single node, with its reconciled task count, right before it is
decided whether its stage ends there. -/
def Opened (session : Session κ) (df : DataFusion κ) (builder : Builder κ) (plan : Plan κ)
    (taskCount : TaskCountAnnotation) : Prop :=
  ∃ source : Plan κ, source.SingleNode ∧
    openHead session df builder source = .ok (plan, taskCount)

/-- The boundary `kind` over `children` was made from the result of the builder for the stage
`given`, and may have been switched to two phases later. -/
inductive BuiltBy (session : Session κ) (df : DataFusion κ) (builder : Builder κ) :
    Plan κ → NodeKind κ → List (Plan κ) → Prop
  | shuffle {plan : Plan κ} {partitioning : Partitioning κ} {preserveOrder : Bool}
      {taskCount : TaskCountAnnotation} {result : BuilderResult κ} :
    Opened session df builder plan taskCount →
    plan.kind = .repartition partitioning preserveOrder → partitioning.isShuffled = true →
    builder (plan.withTaskCount taskCount) taskCount.asUsize .shuffle = .ok result →
    BuiltBy session df builder (plan.withTaskCount taskCount)
      (.networkShuffle (NetworkShuffleExec.fromStage result.inputStage
        (result.inputProperties.withPartitioning partitioning))) result.children
  | twoPhase {given : Plan κ} {exec : NetworkShuffleExec κ} {children : List (Plan κ)}
      {consumers : ℕ} :
    BuiltBy session df builder given (.networkShuffle exec) children →
    exec.needsTwoPhase session.config.twoStepShuffleFanoutThreshold consumers = true →
    BuiltBy session df builder given (.networkShuffle exec.toTwoPhaseSalted) children
  | broadcast {plan : Plan κ} {n : ℕ} {taskCount : TaskCountAnnotation}
      {result : BuilderResult κ} :
    Opened session df builder plan taskCount → plan.kind = .broadcast n →
    builder (plan.withTaskCount taskCount) taskCount.asUsize .broadcast = .ok result →
    BuiltBy session df builder (plan.withTaskCount taskCount)
      (.networkBroadcast (NetworkBroadcastExec.fromStage result.inputStage
        result.inputProperties)) result.children
  | coalesce {plan : Plan κ} {taskCount : TaskCountAnnotation} {result : BuilderResult κ}
      {exec : NetworkCoalesceExec κ} :
    Opened session df builder plan taskCount →
    builder (plan.withTaskCount taskCount) taskCount.asUsize .coalesce = .ok result →
    NetworkCoalesceExec.tryFromStage result.inputStage result.inputProperties 1 = .ok exec →
    BuiltBy session df builder (plan.withTaskCount taskCount) (.networkCoalesce exec)
      result.children

/-- What holds of every node of an injected plan. -/
structure Assembled (session : Session κ) (df : DataFusion κ) (builder : Builder κ)
    (plan : Plan κ) :
    Prop where
  arity : plan.kind.Arity plan.children.length
  built : plan.kind.isNetworkBoundary = true →
    ∃ given, BuiltBy session df builder given plan.kind plan.children
  stage_below : plan.kind.isNetworkBoundary = true →
    ∀ child ∈ plan.children, child.kind.isNetworkBoundary = false
  coalesce_below : ∀ child ∈ plan.children, ∀ exec, child.kind = .networkCoalesce exec →
    plan.kind.isFold = true
  twoPhase_below : ∀ child ∈ plan.children, ∀ exec, child.kind = .networkShuffle exec →
    exec.mode ≠ .direct → ∃ order, plan.kind = .repartition exec.producerPartitioning order

/-- A builder hands on the plan of a stage with all its boundaries, or none. -/
def Builder.KeepsAssembled (session : Session κ) (df : DataFusion κ) (builder : Builder κ) : Prop :=
  ∀ plan tasks boundary result, builder plan tasks boundary = .ok result →
    plan.Everywhere (Assembled session df builder) → plan.kind.isNetworkBoundary = false →
    (result.children.length = if result.inputStage.isLocal then 1 else 0) ∧
      ∀ child ∈ result.children, child.Everywhere (Assembled session df builder) ∧
        child.kind.isNetworkBoundary = false

/-! ## Propagation -/

variable {taskCount : TaskCountAnnotation} {plan out given : Plan κ} {kind : NodeKind κ}
  {recorded : Option TaskCountAnnotation} {children : List (Plan κ)} {parent : Option (NodeKind κ)}
  {exec : NetworkShuffleExec κ}

theorem Propagated.kind_of_boundary (h : Propagated session df taskCount plan out)
    (hout : out.kind.isNetworkBoundary = true) :
    out.kind = plan.kind := by
  cases h with
  | leaf hkind hsame =>
    rcases hsame with rfl | ⟨op, rfl⟩
    · rfl
    · cases hout
  | boundary => rfl
  | twoPhase | union => cases hout
  | transparent => rfl

theorem Assembled.propagated {newKind : NodeKind κ} {newRecorded : Option TaskCountAnnotation}
    {newChildren : List (Plan κ)} (h : Assembled session df builder (node kind recorded children))
    (hkind : newKind.isNetworkBoundary = false) (hsame : newKind = kind ∨ newChildren = [] ∨
      ∃ old new, kind = .childrenIsolatorUnion old ∧ newKind = .childrenIsolatorUnion new)
    (harity : newKind.Arity newChildren.length)
    (hchildren : ∀ newChild ∈ newChildren, ∃ child ∈ children,
      newChild.kind.isNetworkBoundary = true → newChild.kind = child.kind) :
    Assembled session df builder (node newKind newRecorded newChildren) := by
  refine ⟨harity, by simp [hkind], by simp [hkind], ?_, ?_⟩
  · intro newChild hnew exec hexec
    obtain ⟨child, hchild, hkinds⟩ := hchildren newChild hnew
    rw [hkinds (by rw [hexec]; rfl)] at hexec
    have hfold := h.coalesce_below child hchild exec hexec
    rcases hsame with rfl | rfl | ⟨old, new, rfl, rfl⟩
    · exact hfold
    · cases hnew
    · cases hfold
  · intro newChild hnew exec hexec hmode
    obtain ⟨child, hchild, hkinds⟩ := hchildren newChild hnew
    rw [hkinds (by rw [hexec]; rfl)] at hexec
    obtain ⟨order, hrepartition⟩ := h.twoPhase_below child hchild exec hexec hmode
    rcases hsame with rfl | rfl | ⟨old, new, rfl, rfl⟩
    · exact ⟨order, hrepartition⟩
    · cases hnew
    · cases hrepartition

theorem assembled_boundary (hbuilt : ∃ given, BuiltBy session df builder given kind children)
    (harity : kind.Arity children.length)
    (hchildren : ∀ child ∈ children, child.Everywhere (Assembled session df builder) ∧
      child.kind.isNetworkBoundary = false) :
    (node kind recorded children).Everywhere (Assembled session df builder) := by
  refine everywhere_iff.mpr ⟨⟨harity, fun _ => hbuilt, ?_, ?_, ?_⟩, ?_⟩
  · exact fun _ child hchild => (hchildren child hchild).2
  · intro child hchild exec hexec
    have hnot := (hchildren child hchild).2
    rw [hexec] at hnot
    cases hnot
  · intro child hchild exec hexec _
    have hnot := (hchildren child hchild).2
    rw [hexec] at hnot
    cases hnot
  · exact fun child hchild => (hchildren child hchild).1

/-- A shuffle that was switched to two phases, with the `RepartitionExec` above it. -/
theorem Assembled.twoPhase {shuffle : NetworkShuffleExec κ}
    {newRecorded : Option TaskCountAnnotation} {consumers : ℕ}
    (h : (node (.networkShuffle shuffle) recorded children).Everywhere
      (Assembled session df builder))
    (hneeds : shuffle.needsTwoPhase session.config.twoStepShuffleFanoutThreshold consumers = true)
    (preserveOrder : Bool) :
    (node (.repartition shuffle.producerPartitioning preserveOrder) newRecorded
      [node (.networkShuffle shuffle.toTwoPhaseSalted) newRecorded children]).Everywhere
      (Assembled session df builder) := by
  obtain ⟨hnode, hchildren⟩ := everywhere_iff.mp h
  obtain ⟨given, hbuilt⟩ := hnode.built rfl
  refine everywhere_unary ⟨rfl, (fun h => by cases h), (fun h => by cases h), ?_, ?_⟩
    (assembled_boundary ⟨given, .twoPhase hbuilt hneeds⟩ hnode.arity fun child hchild =>
      ⟨hchildren child hchild, hnode.stage_below rfl child hchild⟩)
  · intro child hchild exec hexec
    rw [List.mem_singleton.mp hchild] at hexec
    cases hexec
  · intro child hchild exec hexec _
    rw [List.mem_singleton.mp hchild] at hexec
    cases hexec
    exact ⟨preserveOrder, rfl⟩

theorem Assembled.withRecorded
    (h : (node kind recorded children).Everywhere (Assembled session df builder))
    (newRecorded : Option TaskCountAnnotation) :
    (node kind newRecorded children).Everywhere (Assembled session df builder) := by
  obtain ⟨hnode, hchildren⟩ := everywhere_iff.mp h
  exact everywhere_iff.mpr ⟨⟨hnode.arity, hnode.built, hnode.stage_below, hnode.coalesce_below,
    hnode.twoPhase_below⟩, hchildren⟩

theorem Assembled.withTaskCount (h : plan.Everywhere (Assembled session df builder))
    (taskCount : TaskCountAnnotation) :
    (plan.withTaskCount taskCount).Everywhere (Assembled session df builder) := by
  obtain ⟨kind, recorded, children⟩ := plan
  exact Assembled.withRecorded h _

/-- The run lemma of the propagation. -/
theorem Propagated.assembled (h : Propagated session df taskCount plan out)
    (hplan : plan.Everywhere (Assembled session df builder)) :
    out.Everywhere (Assembled session df builder) := by
  induction h with
  | @leaf kind kind' _ _ hkind hsame =>
    obtain ⟨hnode, -⟩ := everywhere_iff.mp hplan
    refine everywhere_iff.mpr ⟨hnode.propagated ?_ (.inr (.inl rfl)) ?_ ?_, ?_⟩
    · rcases hsame with rfl | ⟨op, rfl⟩
      · exact hkind
      · rfl
    · rcases hsame with rfl | ⟨op, rfl⟩
      · exact hnode.arity
      · exact trivial
    all_goals simp
  | boundary => exact Assembled.withRecorded hplan _
  | twoPhase hneeds => exact Assembled.twoPhase hplan hneeds _
  | union _ hplaced hcounts hlength hall _ ih =>
    obtain ⟨hnode, hchildren⟩ := everywhere_iff.mp hplan
    refine everywhere_iff.mpr ⟨hnode.propagated rfl (.inr (.inr ⟨_, _, rfl, rfl⟩)) ?_ ?_, ?_⟩
    · rw [hlength]
      exact hnode.arity
    · intro newChild hnew
      exact exists_unionChild hplaced hcounts hlength (fun i child newChild count hi hnew hcount =>
        (hall i child newChild count hi hnew hcount).kind_of_boundary) hnew
    · intro newChild hnew
      obtain ⟨child, hchild, hdone⟩ := exists_unionChild hplaced hcounts hlength ih hnew
      exact hdone (hchildren child hchild)
  | @transparent kind _ children newChildren _ hkind _ hlength hall ih =>
    obtain ⟨hnode, hchildren⟩ := everywhere_iff.mp hplan
    refine everywhere_iff.mpr ⟨hnode.propagated (NodeKind.isTransparent_iff.mp hkind).1
      (.inl rfl) ?_ ?_, ?_⟩
    · rw [hlength]
      exact hnode.arity
    · intro newChild hnew
      exact exists_aligned hlength
        (fun i child newChild hi hnew => (hall i child newChild hi hnew).kind_of_boundary) hnew
    · intro newChild hnew
      obtain ⟨child, hchild, hdone⟩ := exists_aligned hlength ih hnew
      exact hdone (hchildren child hchild)

/-! ## Injection -/

/-- What is known of a visited node and its parent. -/
structure Visited (session : Session κ) (df : DataFusion κ) (builder : Builder κ)
    (parent : Option (NodeKind κ)) (out : Plan κ) : Prop where
  assembled : out.Everywhere (Assembled session df builder)
  coalesce : ∀ exec, out.kind = .networkCoalesce exec → parent.any NodeKind.isFold = true ∧
    ∀ tasks, out.AllowsTasks tasks → tasks = 1
  shuffle : ∀ exec, out.kind = .networkShuffle exec → exec.mode = .direct

theorem Visited.of_not_boundary (h : out.Everywhere (Assembled session df builder))
    (hkind : out.kind.isNetworkBoundary = false) : Visited session df builder parent out := by
  refine ⟨h, ?_, ?_⟩ <;>
    · intro exec hexec
      rw [hexec] at hkind
      cases hkind

theorem openNode_assembled {processed : List (Plan κ)} {rebuilt : Plan κ}
    (hlocal : (node kind recorded children).IsLocal) (hlength : processed.length = children.length)
    (hprocessed : ∀ child ∈ processed, Visited session df builder (some kind) child)
    (h : openNode session df (node kind recorded children) processed = .ok (rebuilt, taskCount)) :
    rebuilt.Everywhere (Assembled session df builder) ∧ rebuilt.IsLocal := by
  have hnode : ∀ newKind : NodeKind κ, newKind.isNetworkBoundary = false →
      newKind.Arity processed.length → (kind.isFold = true → newKind.isFold = true) →
      (node newKind none processed).Everywhere (Assembled session df builder) ∧
        (node newKind none processed).IsLocal := by
    intro newKind hboundary harity hfold
    refine ⟨everywhere_iff.mpr ⟨⟨harity, by simp [hboundary], by simp [hboundary], ?_, ?_⟩, ?_⟩,
      hboundary, harity⟩
    · exact fun child hchild exec hexec => hfold ((hprocessed child hchild).coalesce exec hexec).1
    · exact fun child hchild exec hexec hmode =>
        absurd ((hprocessed child hchild).shuffle exec hexec) hmode
    · exact fun child hchild => (hprocessed child hchild).assembled
  have harity := hlocal.arity
  rw [children_node, ← hlength] at harity
  rcases openNode_local hlocal hlength h with ⟨union, newUnion, rfl, -, rfl⟩ | ⟨-, rfl, -⟩
  · exact hnode _ rfl harity fun hfold => by cases hfold
  · exact hnode _ hlocal.not_boundary harity id

section Kept

variable (hbuilder : builder.KeepsAssembled session df)
include hbuilder

theorem NodePlaced.visited (hplan : plan.Everywhere (Assembled session df builder))
    (hlocal : plan.IsLocal) (hopened : Opened session df builder plan taskCount)
    (h : NodePlaced session df builder parent plan taskCount out) :
    Visited session df builder parent out := by
  have hgiven := Assembled.withTaskCount hplan taskCount
  have hkind : (plan.withTaskCount taskCount).kind.isNetworkBoundary = false := by
    rw [kind_withTaskCount]
    exact hlocal.not_boundary
  cases h with
  | shuffle hrepartition hshuffled hresult =>
    obtain ⟨hlength, hchildren⟩ := hbuilder _ _ _ _ hresult hgiven hkind
    refine ⟨assembled_boundary ⟨_, .shuffle hopened hrepartition hshuffled hresult⟩ hlength
      hchildren, by simp, ?_⟩
    intro exec hexec
    cases hexec
    rfl
  | broadcast hbroadcast hresult =>
    obtain ⟨hlength, hchildren⟩ := hbuilder _ _ _ _ hresult hgiven hkind
    exact ⟨assembled_boundary ⟨_, .broadcast hopened hbroadcast hresult⟩ hlength hchildren,
      by simp, by simp⟩
  | coalesce _ hfold hresult hexact hnb =>
    obtain ⟨hlength, hchildren⟩ := hbuilder _ _ _ _ hresult hgiven hkind
    refine ⟨assembled_boundary ⟨_, .coalesce hopened hresult hnb⟩ ?_ hchildren, ?_, by simp⟩
    · rw [NodeKind.Arity, (NetworkCoalesceExec.tryFromStage_ok hnb).1]
      exact hlength
    · intro _ _
      refine ⟨hfold, ?_⟩
      intro tasks htasks
      rw [allowsTasks_node, hexact] at htasks
      exact htasks
  | head _ _ hout =>
    have hpropagated := propagate_ok hout
    refine .of_not_boundary (hpropagated.assembled hplan) ?_
    rw [Bool.eq_false_iff]
    intro hboundary
    rw [hpropagated.kind_of_boundary hboundary, hlocal.not_boundary] at hboundary
    cases hboundary
  | kept => exact .of_not_boundary hgiven hkind

/-- The run lemma of the injection. -/
theorem injectFrom_assembled (hplan : plan.SingleNode)
    (h : injectFrom session df builder parent plan = .ok out) :
    Visited session df builder parent out := by
  induction plan using Plan.induction generalizing parent out with
  | node kind recorded children ih =>
    obtain ⟨hnode, hchildren⟩ := everywhere_iff.mp hplan
    obtain ⟨processed, rebuilt, taskCount, hprocessed, hopen, hplaced⟩ := injectFrom_ok h
    have hvisited := injectAll_forall (R := Visited session df builder (some kind))
      (fun child hchild out hout => ih child hchild (hchildren child hchild) hout) hprocessed
    obtain ⟨hrebuilt, hlocal⟩ :=
      openNode_assembled hnode (injectAll_ok hprocessed).length_eq.symm hvisited hopen
    exact hplaced.visited hbuilder hrebuilt hlocal
      ⟨_, hplan, bind_ok_iff.mpr ⟨_, hprocessed, hopen⟩⟩

theorem Opened.assembled (h : Opened session df builder plan taskCount) :
    plan.Everywhere (Assembled session df builder) ∧ plan.IsLocal := by
  obtain ⟨⟨kind, recorded, children⟩, hsource, hopen⟩ := h
  obtain ⟨hnode, hchildren⟩ := everywhere_iff.mp hsource
  obtain ⟨processed, hprocessed, hopen⟩ := bind_ok_iff.mp hopen
  refine openNode_assembled hnode (injectAll_ok hprocessed).length_eq.symm ?_ hopen
  exact injectAll_forall (fun child hchild out hout =>
    injectFrom_assembled hbuilder (hchildren child hchild) hout) hprocessed

theorem injectNetworkBoundaries_assembled (hplan : plan.SingleNode)
    (h : injectNetworkBoundaries session df builder plan = .ok out) :
    Visited session df builder none out :=
  injectFrom_assembled hbuilder hplan h

end Kept

/-! ## Shuffles -/

/-- What a shuffle advertises, for each mode. -/
structure NetworkShuffleExec.Sized (exec : NetworkShuffleExec κ) : Prop where
  shuffled : exec.producerPartitioning.isShuffled = true
  direct : exec.mode = .direct → exec.properties.partitioning =
    if exec.producerPartitioning.isRange then .unknownPartitioning 1
    else exec.producerPartitioning
  twoPhase : ∀ salt, exec.mode = .twoPhase salt →
    (∃ exprs n, exec.producerPartitioning = .hash exprs n) ∧
      exec.properties.partitioning = .unknownPartitioning exec.inputStage.taskCount

theorem BuiltBy.sized (h : BuiltBy session df builder given (.networkShuffle exec) children) :
    exec.Sized := by
  generalize hkind : (NodeKind.networkShuffle exec : NodeKind κ) = kind at h
  induction h generalizing exec with
  | shuffle _ _ hshuffled _ =>
    cases hkind
    refine ⟨hshuffled, ?_, ?_⟩
    · exact fun _ => NetworkShuffleExec.partitioning_computeProperties _ _
    · exact fun salt hmode => by cases hmode
  | @twoPhase _ shuffle _ _ _ hneeds ih =>
    cases hkind
    refine ⟨(ih rfl).shuffled, ?_, ?_⟩
    · intro hmode
      cases hmode
    · intro salt _
      refine ⟨?_, rfl⟩
      unfold NetworkShuffleExec.needsTwoPhase at hneeds
      split at hneeds
      · rename_i exprs n _ hhash
        exact ⟨exprs, n, hhash⟩
      · cases hneeds
  | broadcast | coalesce => cases hkind

theorem NetworkShuffleExec.Sized.withInputStage (h : exec.Sized) (stage : Stage)
    (hstage : stage.taskCount = exec.inputStage.taskCount) :
    (exec.withInputStage stage).Sized ∧
      (exec.withInputStage stage).properties.partitioning = exec.properties.partitioning := by
  have hrange : exec.properties.partitioning.isRange = false := by
    cases hmode : exec.mode with
    | direct =>
      rw [h.direct hmode]
      split
      · rfl
      · rename_i hnot
        exact Bool.eq_false_iff.mpr hnot
    | twoPhase salt =>
      rw [(h.twoPhase salt hmode).2]
      rfl
  have hsame := partitioning_withInputStage stage hrange
  refine ⟨⟨h.shuffled, ?_, ?_⟩, hsame⟩
  · intro hmode
    rw [hsame]
    exact h.direct hmode
  · intro salt hmode
    obtain ⟨hhash, hcount⟩ := h.twoPhase salt hmode
    refine ⟨hhash, ?_⟩
    rw [hsame, hcount, ← hstage]
    rfl

/-! ## The static builder -/

theorem cardinalityBasedBuilder_keepsAssembled (session : Session κ) (df : DataFusion κ) :
    (cardinalityBasedBuilder session df).KeepsAssembled session df := by
  intro plan tasks boundary result hresult hplan hkind
  obtain ⟨taskCount, staged, -, hstaged, hstage, hchildren, -⟩ := cardinalityBasedBuilder_ok hresult
  have hpropagated := propagate_ok hstaged
  rw [hstage, hchildren]
  refine ⟨rfl, List.forall_mem_singleton.mpr ?_⟩
  refine ⟨hpropagated.assembled hplan, ?_⟩
  rw [Bool.eq_false_iff]
  intro hboundary
  rw [hpropagated.kind_of_boundary hboundary, hkind] at hboundary
  cases hboundary

/-- The top node of a stage keeps its kind and its one child. -/
theorem Propagated.unary (h : Propagated session df taskCount plan out) (hkind : plan.kind = kind)
    (htransparent : kind.isTransparent = true) (hlength : plan.children.length = 1) :
    ∃ recorded child, out = node kind recorded [child] := by
  subst hkind
  cases h with
  | leaf => cases hlength
  | boundary hboundary =>
    rw [kind_node, NodeKind.isTransparent_iff, hboundary] at htransparent
    cases htransparent.1
  | twoPhase | union => cases htransparent
  | transparent _ _ hnew =>
    obtain ⟨child, hchild⟩ := List.length_eq_one_iff.mp (hnew.trans hlength)
    rw [hchild]
    exact ⟨_, child, rfl⟩

end DatafusionDistributed
