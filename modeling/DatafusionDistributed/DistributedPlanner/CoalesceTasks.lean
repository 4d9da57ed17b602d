import DatafusionDistributed.DistributedPlanner.Assembled
import DatafusionDistributed.DistributedPlanner.StageInvariant

/-!
# The tasks of a coalesce

A `NetworkCoalesceExec` is built for one consumer task. The restriction that its builder returns
is merged into the stage of the fold above it, so the stage runs in one task, and so does the
child of a union that the fold belongs to. `inject_coalesce_runs` shows this for any boundary
builder.
-/

namespace DatafusionDistributed

open Library Plan

variable {κ : Type} {session : Session κ} {df : DataFusion κ} {builder : Builder κ}

/-- A fold over a coalesce runs in one task. -/
def FoldsCoalesce (plan : Plan κ) (tasks : ℕ) : Prop :=
  plan.kind.isFold = true → ∀ child ∈ plan.children, ∀ exec,
    child.kind = .networkCoalesce exec → tasks = 1

variable {plan out : Plan κ} {tasks : ℕ}

theorem foldsCoalesce_of_not_fold (h : plan.kind.isFold = false) (tasks : ℕ) :
    FoldsCoalesce plan tasks := by
  intro hfold
  rw [h] at hfold
  cases hfold

/-- Preparing the child of a fold: it is a coalesce afterwards only if it was one before, or runs
in one task. -/
theorem Prepared.coalesce_of_coalesce (h : Prepared df tasks plan out)
    {exec : NetworkCoalesceExec κ} (hout : out.kind = .networkCoalesce exec) :
    tasks = 1 ∨ ∃ old, plan.kind = .networkCoalesce old := by
  cases h with
  | elided => exact .inl rfl
  | @scaled kind _ _ _ _ _ _ _ _ _ _ hstage =>
    right
    cases kind with
    | networkCoalesce old => exact ⟨old, rfl⟩
    | networkShuffle | networkBroadcast => cases hout
    | _ => cases hstage
  | closed | transparent => exact .inr ⟨exec, hout⟩
  | union => cases hout

theorem foldsCoalesce_invariant (hcloses : builder.Closes session df)
    (hkeeps : builder.KeepsAssembled session df) :
    StageInvariant session df builder SingleNode FoldsCoalesce where
  closes := hcloses
  isLocal := fun _ hplan => (everywhere_iff.mp hplan).1
  routing := by
    intro plan tasks hrouting
    apply foldsCoalesce_of_not_fold
    cases hkind : plan.kind <;> rw [hkind] at hrouting <;> first | rfl | cases hrouting
  leaf := by
    intro kind recorded tasks _ _ child hchild
    cases hchild
  union := fun _ _ _ _ _ => foldsCoalesce_of_not_fold (by rfl) _
  transparent := by
    intro kind recorded children processed reconciled taskCount newChildren hplan hkind _ hne
      hprocessed hreconciled hallows hall hlength _ newChild hnew exec hexec
    obtain ⟨child, hchild, hsame⟩ := exists_aligned hlength
      (fun i child newChild hi hnew => (hall i child newChild hi hnew).kind_of_boundary) hnew
    rw [hsame (by rw [hexec]; rfl)] at hexec
    have hvisited := injectAll_forall (R := Visited session df builder (some kind))
      (fun source hsource out hout =>
        injectFrom_assembled hkeeps ((everywhere_iff.mp hplan).2 source hsource) hout) hprocessed
    exact ((hvisited child hchild).coalesce exec hexec).2 _
      (reconcile_allows (by exact hkind) (by exact hne) hreconciled hallows child hchild)
  prepared := by
    intro kind recorded newRecorded children newChildren tasks _ _ hold hlength hall hfold newChild
      hnew exec hexec
    obtain ⟨child, hchild, hprepared⟩ := exists_aligned hlength hall hnew
    rcases hprepared.coalesce_of_coalesce hexec with hone | ⟨old, hold'⟩
    · exact hone
    · exact hold hfold child hchild old hold'
  preparedUnion := fun _ _ => foldsCoalesce_of_not_fold (by rfl) _

def CoalesceAlone (plan : Plan κ) (tasks : ℕ) : Prop :=
  ∀ exec, plan.kind = .networkCoalesce exec → tasks = 1

theorem coalesceAlone_runs (hroot : CoalesceAlone plan tasks)
    (hassembled : plan.Everywhere (Assembled session df builder))
    (h : plan.ForallRuns (Sound df FoldsCoalesce) tasks) :
    plan.ForallRuns CoalesceAlone tasks := by
  refine forallRuns_of_parent hroot ?_
  intro run hrun i child hi exec hexec
  have hmem := List.mem_of_getElem? hi
  have hfold := (forallRuns_of_everywhere hassembled tasks run hrun).coalesce_below child hmem exec
    hexec
  have hkind : run.1.kind.isTransparent = true := by
    cases hkind : run.1.kind <;> rw [hkind] at hfold <;> first | rfl | cases hfold
  obtain ⟨hlt, -⟩ := List.getElem?_eq_some_iff.mp hi
  rw [childTaskCounts_transparent run.2 hkind, List.getD_replicate _ hlt]
  exact (h run hrun).1 hfold child hmem exec hexec

theorem inject_coalesce_runs (hcloses : builder.Closes session df)
    (hkeeps : builder.KeepsAssembled session df) (hplan : plan.SingleNode)
    (h : injectNetworkBoundaries session df builder plan = .ok out) :
    out.ForallRuns CoalesceAlone 1 := by
  have hone : ∀ plan : Plan κ, FoldsCoalesce plan 1 := fun _ _ _ _ _ _ => rfl
  exact coalesceAlone_runs (fun _ _ => rfl)
    (injectNetworkBoundaries_assembled hkeeps hplan h).assembled
    ((foldsCoalesce_invariant hcloses hkeeps).inject_head_runs hone
      (.everywhere hplan.everywhere) h)

theorem Opened.foldsCoalesce_ready (hcloses : builder.Closes session df)
    (hkeeps : builder.KeepsAssembled session df) {taskCount : TaskCountAnnotation}
    (h : Opened session df builder plan taskCount) :
    Ready session df FoldsCoalesce (plan.withTaskCount taskCount) := by
  have inv := foldsCoalesce_invariant hcloses hkeeps
  obtain ⟨⟨kind, recorded, children⟩, hsource, hopen⟩ := h
  obtain ⟨processed, hprocessed, hopen⟩ := bind_ok_iff.mp hopen
  refine inv.ready_open hsource hprocessed ?_ hopen
  exact injectAll_forall (fun child hchild out hout =>
    inv.ready ((everywhere_iff.mp hsource).2 child hchild).everywhere hout) hprocessed

end DatafusionDistributed
