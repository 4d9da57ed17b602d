import DatafusionDistributed.DistributedPlanner.EffectiveTasks
import DatafusionDistributed.DistributedPlanner.ElidedBoundaries

/-!
# Hash shuffles of planned stages

The mode of a hash shuffle is picked when the stage that reads it is closed, from the tasks of this
stage and the partitions of the shuffle. Shuffles that are read in the same number of tasks and have
the same number of partitions send equal hashes to the same place, whatever their producers. The
head stage is closed with any number of tasks and runs in one, but there both modes agree.

The main result is `shuffle_delivery`. Shuffles below the children of one union are read in
different numbers of tasks, although they feed one stage: `union_of_shuffles`.
-/

namespace DatafusionDistributed

open Library Plan NetworkShuffleExec

variable {κ Row Value : Type} {session : Session κ} {df : DataFusion κ}

/-! ## Modes -/

/-- A shuffle node was planned for the tasks that read it, or is read in one task. -/
def Plan.ModeFits (session : Session κ) (plan : Plan κ) (tasks : ℕ) : Prop :=
  ∀ exec, plan.kind = .networkShuffle exec →
    0 < exec.inputStage.taskCount ∧ ∃ fanoutThreshold taskCount properties,
      Planned fanoutThreshold taskCount exec.inputStage.taskCount properties exec ∧
        (tasks = 1 ∨
          fanoutThreshold = session.config.twoStepShuffleFanoutThreshold ∧ taskCount = tasks)

variable {plan out : Plan κ} {kind : NodeKind κ} {recorded : Option TaskCountAnnotation}
  {children : List (Plan κ)} {taskCount : TaskCountAnnotation} {tasks : ℕ}

theorem Plan.ModeFits.of_not_shuffle (h : ∀ exec, kind ≠ .networkShuffle exec) :
    (node kind recorded children).ModeFits session tasks :=
  fun exec hexec => absurd hexec (h exec)

theorem Plan.ModeFits.one (h : plan.ModeFits session tasks) : plan.ModeFits session 1 := by
  intro exec hexec
  obtain ⟨hpos, fanoutThreshold, taskCount, properties, hplanned, -⟩ := h exec hexec
  exact ⟨hpos, fanoutThreshold, taskCount, properties, hplanned, .inl rfl⟩

/-- The step lemma: a boundary over a closed stage, at the root or when the stage above it is
closed. -/
theorem boundary_modeFits {stage : Stage} (hstage : kind.inputStage = some stage)
    (hbuilt : ∀ exec, kind = .networkShuffle exec →
      0 < stage.taskCount ∧ ∃ properties, exec = fromStage stage properties)
    (hruns : ∀ staged ∈ children,
      staged.ForallRuns (Sound df (ModeFits session)) stage.taskCount) :
    Ready session df (ModeFits session) (node kind recorded children) ∧
      (node kind recorded children).ForallRuns (Sound df (ModeFits session)) 1 := by
  have hboundary := NodeKind.isNetworkBoundary_of_inputStage hstage
  have hplaced : ∀ recorded children, (node kind recorded children).UnionPlaced df := fun _ _ =>
    unionPlaced_of_not_union
      (NodeKind.not_union_of_routing (NodeKind.routing_of_boundary hboundary))
  have hmode : ∀ (fanoutThreshold taskCount : ℕ) {tasks : ℕ}
      {recorded : Option TaskCountAnnotation}, (∀ exec, kind = .networkShuffle exec →
        exec.needsTwoPhase fanoutThreshold taskCount = false) → (tasks = 1 ∨
        fanoutThreshold = session.config.twoStepShuffleFanoutThreshold ∧ taskCount = tasks) →
      (node kind recorded children).ForallRuns (Sound df (ModeFits session)) tasks := by
    intro fanoutThreshold taskCount tasks recorded hneeds htasks
    refine (forallRuns_boundary hstage).mpr ⟨⟨fun exec hexec => ?_, hplaced _ _⟩, hruns⟩
    obtain ⟨hpos, properties, rfl⟩ := hbuilt exec hexec
    exact ⟨hpos, fanoutThreshold, taskCount, properties, .direct rfl (hneeds _ hexec), htasks⟩
  constructor
  · intro final out _ hpropagated
    cases hpropagated with
    | leaf hnot =>
      rw [hboundary] at hnot
      cases hnot
    | boundary _ hneeds => exact hmode _ _ hneeds (.inr ⟨rfl, rfl⟩)
    | @twoPhase exec _ _ _ _ hneeds =>
      obtain ⟨hpos, properties, rfl⟩ := hbuilt exec rfl
      have htwo : (NodeKind.networkShuffle (fromStage stage properties).toTwoPhaseSalted).inputStage
          = some stage := hstage
      refine (forallRuns_transparent rfl).mpr ⟨⟨.of_not_shuffle (by simp), unionPlaced_of_not_union
        (by simp)⟩, List.forall_mem_singleton.mpr ((forallRuns_boundary htwo).mpr
          ⟨⟨fun other hother => ?_, unionPlaced_of_not_union (by simp)⟩, hruns⟩)⟩
      cases hother
      exact ⟨hpos, _, _, properties, .twoPhase rfl hneeds, .inr ⟨rfl, rfl⟩⟩
    | union => cases hboundary
    | transparent hkind =>
      rw [(NodeKind.isTransparent_iff.mp hkind).1] at hboundary
      cases hboundary
  · -- A shuffle is not switched at the root, but any mode will do there.
    refine hmode 1 0 ?_ (.inl rfl)
    intro exec hexec
    obtain ⟨-, properties, rfl⟩ := hbuilt exec hexec
    unfold needsTwoPhase
    split <;> simp

/-- The step lemma of a node whose children have been visited. -/
theorem open_modeFits {processed : List (Plan κ)} {rebuilt : Plan κ}
    (hlocal : (node kind recorded children).IsLocal) (hlength : processed.length = children.length)
    (hready : ∀ child ∈ processed, Ready session df (ModeFits session) child)
    (hopen : openNode session df (node kind recorded children) processed
      = .ok (rebuilt, taskCount)) :
    Ready session df (ModeFits session) (rebuilt.withTaskCount taskCount) := by
  intro final out hfinal hpropagated
  rw [allowsTasks_withTaskCount_iff] at hfinal
  rcases openNode_local hlocal hlength hopen with ⟨union, newUnion, rfl, hne, rfl⟩ |
    ⟨htransparent, rfl, hallows⟩
  · obtain ⟨newUnion, newChildren, rfl, -, hplaced, hruns⟩ := union_runs hne hready hpropagated
    exact forallRuns_iff.mpr ⟨⟨.of_not_shuffle (by simp), hplaced⟩, hruns⟩
  · have hsound : ∀ {kind : NodeKind κ} {children : List (Plan κ)}, kind.isTransparent = true →
        Sound df (ModeFits session) (node kind (some final) children) final.asUsize := by
      intro kind children hkind
      obtain ⟨hboundary, hunion⟩ := NodeKind.isTransparent_iff.mp hkind
      refine ⟨.of_not_shuffle fun exec hexec => ?_, unionPlaced_of_not_union hunion⟩
      rw [hexec] at hboundary
      cases hboundary
    rcases hpropagated.transparent_cases htransparent with ⟨rfl, newKind, hkind, rfl⟩ |
      ⟨-, newChildren, rfl, hnew, hall⟩
    · refine forallRuns_iff.mpr ⟨hsound ?_, fun i child hi => by simp at hi⟩
      rcases hkind with rfl | ⟨op, rfl⟩
      · exact htransparent
      · rfl
    · refine (forallRuns_transparent htransparent).mpr
        ⟨hsound htransparent, fun newChild hmem => ?_⟩
      obtain ⟨child, hchild, hclosed⟩ := exists_aligned hnew hall hmem
      exact hready child hchild final newChild (hallows _ hfinal child hchild) hclosed

/-- The run lemma of the injection. -/
theorem injectFrom_modeFits {parent : Option (NodeKind κ)} (hplan : plan.SingleNode)
    (h : injectFrom session df (cardinalityBasedBuilder session df) parent plan = .ok out) :
    (parent ≠ none → Ready session df (ModeFits session) out) ∧
      (parent = none → out.ForallRuns (Sound df (ModeFits session)) 1) := by
  induction plan using Plan.induction generalizing parent out with
  | node kind recorded children ih =>
    obtain ⟨hlocal, hsingle⟩ := everywhere_iff.mp hplan
    obtain ⟨processed, rebuilt, taskCount, hprocessed, hopen, hplaced⟩ := injectFrom_ok h
    have hready := open_modeFits hlocal (injectAll_ok hprocessed).length_eq.symm
      (injectAll_forall (fun child hchild out hout =>
        (ih child hchild (hsingle child hchild) hout).1 (Option.some_ne_none kind)) hprocessed)
      hopen
    have hclosed : ∀ {boundary : BoundaryKind} {result : BuilderResult κ},
        cardinalityBasedBuilder session df (rebuilt.withTaskCount taskCount) taskCount.asUsize
          boundary = .ok result →
        0 < result.inputStage.taskCount ∧ ∀ staged ∈ result.children,
          staged.ForallRuns (Sound df (ModeFits session)) result.inputStage.taskCount := by
      intro boundary result hresult
      refine ⟨?_, hready.closed_runs (cardinalityBasedBuilder_closes session df _ _ _ _ hresult)⟩
      obtain ⟨-, -, -, -, hstage, -⟩ := cardinalityBasedBuilder_ok hresult
      rw [hstage]
      exact taskCount.asUsize_pos
    have hboth : ∀ {out : Plan κ}, Ready session df (ModeFits session) out ∧
        out.ForallRuns (Sound df (ModeFits session)) 1 → _ ∧ _ :=
      And.imp (fun hnext (_ : parent ≠ none) => hnext) fun hroot (_ : parent = none) => hroot
    cases hplaced with
    | shuffle _ _ hresult =>
      refine hboth (boundary_modeFits rfl ?_ (hclosed hresult).2)
      intro exec hexec
      cases hexec
      exact ⟨(hclosed hresult).1, _, rfl⟩
    | broadcast _ hresult =>
      exact hboth (boundary_modeFits rfl (by simp) (hclosed hresult).2)
    | coalesce _ _ hresult _ hnb =>
      have hstage := congrArg some (NetworkCoalesceExec.tryFromStage_ok hnb).1
      exact hboth (boundary_modeFits hstage (by simp) (hclosed hresult).2)
    | head _ hnone hout =>
      refine ⟨fun hsome => absurd hnone hsome, fun _ => ?_⟩
      exact forallRuns_one (fun _ _ hsound => ⟨hsound.1.one, hsound.2⟩)
        (hready taskCount out (allowsTasks_withTaskCount _ _) (propagate_ok hout).withTaskCount)
    | kept _ hsome => exact ⟨fun _ => hready, fun hnone => absurd hnone hsome⟩

/-! ## Delivery -/

theorem NetworkShuffleExec.Planned.producerPartitioning_eq {fanoutThreshold taskCount producers : ℕ}
    {properties : PlanProperties κ} {exec : NetworkShuffleExec κ}
    (h : Planned fanoutThreshold taskCount producers properties exec) :
    exec.producerPartitioning = properties.partitioning := by
  induction h with
  | direct | twoPhase => rfl
  | attached _ _ ih => exact ih

/-- The shuffle is what the consumer tasks see of a planned node that runs in `run.2` tasks: it was
attached to its stage once this was sent, or `prepare_network_boundaries` has removed it. -/
structure HashShuffle.ReadAt (run : Plan κ × ℕ) (partitions : ℕ) (shuffle : HashShuffle κ Row) :
    Prop where
  reads : ∃ exec num, run.1.kind = .networkShuffle exec ∧
    exec.producerPartitioning = .hash shuffle.exprs partitions ∧
    shuffle.producers = exec.inputStage.taskCount ∧
    shuffle.node = exec.withInputStage (.remoteStage num shuffle.producers)
  elided : shuffle.elided = run.1.isRemoved run.2

/-- Every planned shuffle feeds the tasks that read it, in a mode that fits them. -/
theorem HashShuffle.ReadAt.feeds {injected : Plan κ} {run : Plan κ × ℕ} {partitions : ℕ}
    {shuffle : HashShuffle κ Row} (hplan : plan.SingleNode)
    (hinject : injectNetworkBoundaries session df (cardinalityBasedBuilder session df) plan
      = .ok injected) (hrun : run ∈ injected.runs 1) (h : shuffle.ReadAt run partitions) :
    ∃ fanoutThreshold taskCount, shuffle.Feeds fanoutThreshold taskCount run.2 partitions ∧
      (run.2 = 1 ∨ fanoutThreshold = session.config.twoStepShuffleFanoutThreshold ∧
        taskCount = run.2) := by
  obtain ⟨exec, num, hkind, hhash, hproducers, hnode⟩ := h.reads
  have hmode := ((injectFrom_modeFits hplan hinject).2 rfl run hrun).1
  obtain ⟨hpos, fanoutThreshold, taskCount, properties, hplanned, htasks⟩ := hmode exec hkind
  refine ⟨fanoutThreshold, taskCount, ⟨?_, ⟨properties, ?_, ?_⟩, ?_, ?_⟩, htasks⟩
  · rwa [hproducers]
  · rw [← hplanned.producerPartitioning_eq, hhash]
  · rw [hnode, hproducers]
    exact .attached hplanned rfl
  · exact fun _ => ⟨num, by rw [hnode]; rfl⟩
  · intro helided
    rw [h.elided, Plan.isRemoved_iff, hkind] at helided
    obtain ⟨hone, stageNum, hstage⟩ := helided
    refine ⟨hone, ?_⟩
    rw [hproducers, Option.some.inj hstage]
    rfl

/-- In one task every mode sends a row to the same partition. -/
theorem landing_of_mode (routing : RowRouting κ Row Value) {fanoutThreshold taskCount consumers
    partitions : ℕ} {threshold : ℕ} (hp : 0 < partitions)
    (h : consumers = 1 ∨ fanoutThreshold = threshold ∧ taskCount = consumers)
    (exprs : List PhysicalExpr) (row : Row) :
    landing routing fanoutThreshold taskCount consumers partitions exprs row =
      landing routing threshold consumers consumers partitions exprs row := by
  rcases h with rfl | ⟨rfl, rfl⟩
  · rw [landing_single exprs row hp, landing_single exprs row hp]
  · rfl

open HashShuffle in
/-- Delivery and co-location of hash shuffles. A shuffle delivers exactly the produced rows, a
row to the partition of its hash. The planner makes such shuffles of all hash repartitions, and two
of them with the same number of partitions that are read in the same number of tasks, whatever
their producers and whether or not one was removed, send rows with equal hashes to one task and
partition. -/
theorem shuffle_delivery (routing : RowRouting κ Row Value) (session : Session κ)
    (df : DataFusion κ) {consumers partitions : ℕ} (hc : 0 < consumers) (hp : 0 < partitions) :
    (∀ (fanoutThreshold taskCount : ℕ) (shuffle : HashShuffle κ Row),
      shuffle.Feeds fanoutThreshold taskCount consumers partitions →
      ∃ delivered : ℕ → ℕ → Multiset Row,
        (∀ j < consumers, ∀ p < partitions,
          shuffle.rowsAt routing df.rangeScale ⟨j, consumers⟩ p = .ok (delivered j p)) ∧
        ∑ cell ∈ Finset.range consumers ×ˢ Finset.range partitions, delivered cell.1 cell.2 =
          shuffle.rows ∧
        ∀ j p, ∀ row ∈ delivered j p, routing.hashRow shuffle.exprs row % partitions = p) ∧
    ∀ plan injected : Plan κ, plan.SingleNode →
      injectNetworkBoundaries session df (cardinalityBasedBuilder session df) plan = .ok injected →
      (∀ run ∈ injected.runs 1, run.2 = consumers → ∀ shuffle : HashShuffle κ Row,
        shuffle.ReadAt run partitions → ∃ fanoutThreshold taskCount,
          shuffle.Feeds fanoutThreshold taskCount consumers partitions) ∧
      ∀ leftRun ∈ injected.runs 1, ∀ rightRun ∈ injected.runs 1,
        leftRun.2 = consumers → rightRun.2 = consumers → ∀ left right : HashShuffle κ Row,
        left.ReadAt leftRun partitions → right.ReadAt rightRun partitions →
        ∀ j < consumers, ∀ p < partitions, ∀ j' < consumers, ∀ p' < partitions,
        ∀ rows rows', left.rowsAt routing df.rangeScale ⟨j, consumers⟩ p = .ok rows →
          right.rowsAt routing df.rangeScale ⟨j', consumers⟩ p' = .ok rows' →
          ∀ row ∈ rows, ∀ row' ∈ rows',
            routing.hashRow left.exprs row = routing.hashRow right.exprs row' →
            routing.saltedHash left.exprs producerSaltDefault row =
              routing.saltedHash right.exprs producerSaltDefault row' →
            (j, p) = (j', p') := by
  refine ⟨?_, fun plan injected hplan hinject => ⟨?_, ?_⟩⟩
  · intro fanoutThreshold taskCount shuffle h
    refine ⟨fun j p => shuffle.rows.filter fun row =>
      landing routing fanoutThreshold taskCount consumers partitions shuffle.exprs row = (j, p),
      fun j hj p hp => rowsAt_eq h hj hp, ?_, ?_⟩
    · refine sum_fibers _ _ _ fun row _ => ?_
      obtain ⟨htask, hpartition⟩ := landing_lt shuffle.exprs hc hp row
      exact Finset.mem_product.mpr ⟨Finset.mem_range.mpr htask, Finset.mem_range.mpr hpartition⟩
    · intro j p row hrow
      have hland := (Multiset.mem_filter.mp hrow).2
      rw [← landing_snd, hland]
  · rintro run hrun rfl shuffle hread
    obtain ⟨fanoutThreshold, taskCount, hfeeds, -⟩ := hread.feeds hplan hinject hrun
    exact ⟨fanoutThreshold, taskCount, hfeeds⟩
  · rintro leftRun hleftRun rightRun hrightRun rfl hsame left right hleft hright j hj p hp' j' hj'
      p' hp'' rows rows' hrows hrows' row hrow row' hrow' hhash hsalted
    obtain ⟨_, _, hleft, hleftMode⟩ := hleft.feeds hplan hinject hleftRun
    obtain ⟨_, _, hright, hrightMode⟩ := hright.feeds hplan hinject hrightRun
    rw [hsame] at hright hrightMode
    rw [rowsAt_eq hleft hj hp'] at hrows
    rw [rowsAt_eq hright hj' hp''] at hrows'
    cases hrows
    cases hrows'
    rw [← (Multiset.mem_filter.mp hrow).2, ← (Multiset.mem_filter.mp hrow').2,
      landing_of_mode routing hp hleftMode, landing_of_mode routing hp hrightMode]
    exact landing_congr hhash hsalted

/-! ## Two shuffles -/

/-- Scan 1 asks for three tasks, every other scan for one. -/
def unevenScans : Session ℕ := .ofEstimates {} fun op => if op = 1 then 3 else 1

def hashedScan (op : ℕ) : Plan ℕ :=
  node (.repartition (.hash [.expr 0] 64) false) none [node (.other op) none []]

theorem hashedScan_singleNode (op : ℕ) : (hashedScan op).SingleNode :=
  singleNode_unary rfl (by rfl) (singleNode_leaf _ _) _

/-- A join of two hashed scans. -/
def joinOfScans : Plan ℕ := node (.other 5) none [hashedScan 1, hashedScan 2]

def scansOfTwo : DataFusion ℕ := .ofLeaves fun _ => 2

def injectScans (plan : Plan ℕ) : Result (Plan ℕ) :=
  injectNetworkBoundaries unevenScans scansOfTwo (cardinalityBasedBuilder unevenScans scansOfTwo)
    plan

/-- What is seen of a shuffle node whose producer tasks have these rows. -/
def seenShuffle (run : Plan ℕ × ℕ) (exec : NetworkShuffleExec ℕ) (rows : Multiset ℕ) :
    HashShuffle ℕ ℕ where
  exprs := [.expr 0]
  producers := exec.inputStage.taskCount
  inputs := fun _ => ⟨"DataSourceExec", [rows]⟩
  node := exec.withInputStage (.remoteStage 0 exec.inputStage.taskCount)
  elided := run.1.isRemoved run.2

/-- The shuffle node of a run, if it hashes into 64 partitions. -/
def hashShuffle (run : Plan ℕ × ℕ) : Option (NetworkShuffleExec ℕ) :=
  match run.1.kind with
  | .networkShuffle exec =>
    if exec.producerPartitioning = .hash [.expr 0] 64 then some exec else none
  | _ => none

theorem hashShuffle_readAt {run : Plan ℕ × ℕ} {exec : NetworkShuffleExec ℕ} (rows : Multiset ℕ)
    (h : hashShuffle run = some exec) : (seenShuffle run exec rows).ReadAt run 64 := by
  unfold hashShuffle at h
  split at h
  · rename_i other hkind
    split at h <;> cases h
    rename_i hhash
    exact ⟨⟨exec, 0, hkind, hhash, rfl, rfl⟩, rfl⟩
  · cases h

/-- What one task and partition of the consumers sees. -/
def seenRows (run : Plan ℕ × ℕ) (exec : NetworkShuffleExec ℕ) (rows : Multiset ℕ) (j p : ℕ) :
    Result (Multiset ℕ) :=
  (seenShuffle run exec rows).rowsAt routingByValue scansOfTwo.rangeScale ⟨j, run.2⟩ p

/-- The head stage of the join is closed with three tasks, so both shuffles have two phases. It runs
in one task, so the shuffle of the scan in one task is removed. -/
theorem shuffle_delivery_of_two :
    ∃ injected, injectScans joinOfScans = .ok injected ∧
      ∃ leftRun ∈ injected.runs 1, ∃ rightRun ∈ injected.runs 1, ∃ left right,
        hashShuffle leftRun = some left ∧ left.mode ≠ .direct ∧ leftRun.1.isRemoved 1 = false ∧
        hashShuffle rightRun = some right ∧ rightRun.1.isRemoved 1 = true ∧
        (∃ delivered : ℕ → ℕ → Multiset ℕ,
          (∀ j < 1, ∀ p < 64, seenRows leftRun left {5, 69} j p = .ok (delivered j p)) ∧
          ∑ cell ∈ Finset.range 1 ×ˢ Finset.range 64, delivered cell.1 cell.2 =
            (seenShuffle leftRun left {5, 69}).rows) ∧
        ∀ p < 64, ∀ p' < 64, ∀ rows rows', seenRows leftRun left {5, 69} 0 p = .ok rows →
          seenRows rightRun right {5} 0 p' = .ok rows' → 5 ∈ rows → 5 ∈ rows' → p = p' := by
  have hok : (injectScans joinOfScans).map (fun injected =>
      (injected.runs 1).any (fun run => (hashShuffle run).any (fun exec => exec.mode ≠ .direct) &&
        !run.1.isRemoved 1 && run.2 = 1) &&
      (injected.runs 1).any (fun run => (hashShuffle run).isSome && run.1.isRemoved 1 &&
        run.2 = 1)) = .ok true := by
    decide +kernel
  obtain ⟨injected, hinject, hok⟩ := map_ok_iff.mp hok
  simp only [Bool.and_eq_true, List.any_eq_true, Option.any_eq_true, Option.isSome_iff_exists,
    Bool.not_eq_true', decide_eq_true_eq] at hok
  obtain ⟨⟨⟨leftTree, _⟩, hleft, ⟨⟨left, hleftNode, hmode⟩, hkept⟩, rfl⟩,
    ⟨rightTree, _⟩, hright, ⟨⟨right, hrightNode⟩, hremoved⟩, rfl⟩ := hok
  have hplan : joinOfScans.SingleNode :=
    singleNode_binary rfl (by trivial) (hashedScan_singleNode 1) (hashedScan_singleNode 2) _
  obtain ⟨hdelivers, hplanned⟩ := shuffle_delivery routingByValue unevenScans scansOfTwo
    Nat.one_pos (by decide : 0 < 64)
  obtain ⟨hfeeds, hmeets⟩ := hplanned _ injected hplan hinject
  refine ⟨injected, hinject, _, hleft, _, hright, left, right, hleftNode, hmode, hkept, hrightNode,
    hremoved, ?_, ?_⟩
  · obtain ⟨_, _, hleftFeeds⟩ := hfeeds _ hleft rfl _ (hashShuffle_readAt {5, 69} hleftNode)
    obtain ⟨delivered, hrows, hsum, -⟩ := hdelivers _ _ _ hleftFeeds
    exact ⟨delivered, hrows, hsum⟩
  · intro p hp p' hp' rows rows' hrows hrows' hrow hrow'
    have hsame := hmeets _ hleft _ hright rfl rfl _ _ (hashShuffle_readAt {5, 69} hleftNode)
      (hashShuffle_readAt {5} hrightNode) 0 Nat.one_pos p hp 0 Nat.one_pos p' hp' rows rows' hrows
      hrows' 5 hrow 5 hrow' rfl rfl
    exact (Prod.mk.inj hsame).2

/-- A union of two hashed scans, below a `CoalescePartitionsExec`. -/
def unionOfHashedScans : Plan ℕ :=
  node (.coalescePartitions none) none
    [node .union none [node (.other 3) none [hashedScan 1], node (.other 4) none [hashedScan 2]]]

theorem unionOfHashedScans_singleNode : unionOfHashedScans.SingleNode :=
  singleNode_unary rfl (by rfl) (singleNode_binary rfl (by exact Nat.zero_lt_two)
    (singleNode_unary rfl (by trivial) (hashedScan_singleNode 1) _)
    (singleNode_unary rfl (by trivial) (hashedScan_singleNode 2) _) _) _

/-- The scans have row 1, and it is in this task and partition of the consumers of the node. -/
def SeesOne (run : Plan ℕ × ℕ) (j p : ℕ) : Prop :=
  ∃ exec ∈ hashShuffle run, ∃ rows, seenRows run exec {1} j p = .ok rows ∧ 1 ∈ rows

def seesOne (run : Plan ℕ × ℕ) (j p : ℕ) : Bool :=
  (hashShuffle run).any fun exec =>
    match seenRows run exec {1} j p with
    | .ok rows => decide (1 ∈ rows)
    | .error _ => false

theorem seesOne_spec {run : Plan ℕ × ℕ} {j p : ℕ} (h : seesOne run j p = true) :
    SeesOne run j p := by
  obtain ⟨exec, hexec, h⟩ := (Option.any_eq_true _ _).mp h
  split at h
  · rename_i rows hrows
    exact ⟨exec, hexec, rows, hrows, of_decide_eq_true h⟩
  · cases h

/-- Both shuffles feed the stage of the union, which runs in four tasks, but the first child of the
union runs in three of them and the second in one. The first shuffle has two phases, the second is
removed, and a row that both scans have is in different tasks. -/
theorem union_of_shuffles :
    ∃ prepared injected, preparePlan unevenScans scansOfTwo unionOfHashedScans = .ok prepared ∧
      prepared.SingleNode ∧ injectScans prepared = .ok injected ∧
      ∃ stage ∈ injected.runs 1, stage.2 = 4 ∧ stage.1.kind.mapLength = some 4 ∧
        (∃ run ∈ stage.1.runs 4, run.2 = 3 ∧ SeesOne run 1 1) ∧
        ∃ run ∈ stage.1.runs 4, run.2 = 1 ∧ SeesOne run 0 1 := by
  have hok : (do
      let prepared ← preparePlan unevenScans scansOfTwo unionOfHashedScans
      let injected ← injectScans prepared
      return (injected.runs 1).any fun stage => stage.2 = 4 && stage.1.kind.mapLength = some 4 &&
        (stage.1.runs 4).any (fun run => run.2 = 3 && seesOne run 1 1) &&
        (stage.1.runs 4).any (fun run => run.2 = 1 && seesOne run 0 1) : Result Bool)
          = .ok true := by
    decide +kernel
  obtain ⟨prepared, hprepared, hok⟩ := bind_ok_iff.mp hok
  obtain ⟨injected, hinjected, hok⟩ := bind_ok_iff.mp hok
  have hok := Except.ok.inj hok
  simp only [List.any_eq_true, Bool.and_eq_true, decide_eq_true_eq] at hok
  obtain ⟨stage, hstage, ⟨⟨htasks, hkind⟩, left, hleft, hthree, hleftSees⟩, right, hright, hone,
    hrightSees⟩ := hok
  refine ⟨prepared, injected, hprepared, preparePlan_singleNode unionOfHashedScans_singleNode
    hprepared, hinjected, stage, hstage, htasks, hkind, ⟨left, hleft, hthree, ?_⟩, right, hright,
    hone, ?_⟩
  · exact seesOne_spec hleftSees
  · exact seesOne_spec hrightSees

end DatafusionDistributed
