import DatafusionDistributed.Library.Checked

/-!
# Rewriting trees from the top

`transform_down` rewrites a node first and then the children of the new node; the answer of the
rewrite says whether to go on, to skip the children, or to stop.

Nodes often hand a context to their children. A rewrite that needs the context of a node can keep
the contexts of the nodes still to come on a stack. `transformDown_popContext` shows that this is
the same as handing the contexts down.
-/

namespace DatafusionDistributed.Library

inductive TreeNodeRecursion where
  | continues
  | jump
  | stop
  deriving DecidableEq, Repr

/-- The outcome of a rewrite: the new value, whether it differs, and how to go on. -/
structure Transformed (α : Type) where
  data : α
  transformed : Bool
  tnr : TreeNodeRecursion
  deriving DecidableEq, Repr

/-- Trees, seen through the children of their nodes. A recursion that is too deep fails. -/
structure TreeNode (ε α : Type) where
  children : α → List α
  withNewChildren : α → List α → Except ε α
  stackOverflow : ε

variable {ε α β γ σ : Type}

def applyUntilStop (f : α → σ → Except ε (TreeNodeRecursion × σ)) :
    List α → TreeNodeRecursion → σ → Except ε (TreeNodeRecursion × σ)
  | [], tnr, state => .ok (tnr, state)
  | item :: items, _, state => do
    let (tnr, state) ← f item state
    if tnr = .stop then return (.stop, state) else applyUntilStop f items tnr state

variable {f : α → σ → Except ε (TreeNodeRecursion × σ)} {items : List α}

theorem applyUntilStop_congr {α' : Type} {g : α' → σ → Except ε (TreeNodeRecursion × σ)}
    {others : List α'} (h : List.Forall₂ (fun item other => f item = g other) items others)
    (tnr : TreeNodeRecursion) (state : σ) :
    applyUntilStop f items tnr state = applyUntilStop g others tnr state := by
  induction h generalizing tnr state with
  | nil => rfl
  | cons hfirst _ ih =>
    rw [applyUntilStop, applyUntilStop, hfirst]
    simp only [ih]

/-- Visits that never stop run one after the other. -/
theorem applyUntilStop_flatMap {step : σ → β → Except ε σ} {visits : α → List β}
    (h : ∀ item ∈ items, ∀ state, f item state =
      ((visits item).foldlM step state).map fun state => (.continues, state)) (state : σ) :
    applyUntilStop f items .continues state =
      ((items.flatMap visits).foldlM step state).map fun state => (.continues, state) := by
  induction items generalizing state with
  | nil => rfl
  | cons item items ih =>
    rw [applyUntilStop, h item List.mem_cons_self, List.flatMap_cons, List.foldlM_append]
    cases (visits item).foldlM step state with
    | error e => rfl
    | ok next => exact ih (fun other hother => h other (List.mem_cons_of_mem _ hother)) next

def TreeNodeRecursion.visitChildren (self : TreeNodeRecursion)
    (f : σ → Except ε (TreeNodeRecursion × σ)) (state : σ) : Except ε (TreeNodeRecursion × σ) :=
  match self with
  | .continues => f state
  | .jump => .ok (.continues, state)
  | .stop => .ok (.stop, state)

/-- `map_until_stop_and_collect`. -/
def mapUntilStop (f : α → σ → Except ε (Transformed α × σ)) :
    List α → TreeNodeRecursion → Bool → σ → Except ε (Transformed (List α) × σ)
  | [], tnr, transformed, state => .ok (⟨[], transformed, tnr⟩, state)
  | item :: items, tnr, transformed, state =>
    if tnr = .stop then .ok (⟨item :: items, transformed, tnr⟩, state)
    else do
      let (result, state) ← f item state
      let (rest, state) ← mapUntilStop f items result.tnr (transformed || result.transformed) state
      return ({ rest with data := result.data :: rest.data }, state)

theorem mapUntilStop_stop (f : α → σ → Except ε (Transformed α × σ)) (items : List α)
    (transformed : Bool) (state : σ) :
    mapUntilStop f items .stop transformed state = .ok (⟨items, transformed, .stop⟩, state) := by
  cases items <;> rfl

theorem mapUntilStop_congr {f g : α → σ → Except ε (Transformed α × σ)}
    (h : ∀ item ∈ items, f item = g item) (tnr : TreeNodeRecursion) (transformed : Bool)
    (state : σ) :
    mapUntilStop f items tnr transformed state =
      mapUntilStop g items tnr transformed state := by
  induction items generalizing tnr transformed state with
  | nil => rfl
  | cons item items ih =>
    have hrest := ih fun other hother => h other (List.mem_cons_of_mem _ hother)
    rw [mapUntilStop, mapUntilStop, h item List.mem_cons_self]
    simp only [hrest]

/-- The rewrites that are left, one for each child. -/
def nextRewrite (missing : ε) (_ : α) :
    List (Transformed α) → Except ε (Transformed α × List (Transformed α))
  | [] => .error missing
  | rewrite :: rewrites => .ok (rewrite, rewrites)

/-- Taking the rewrites one by one is rewriting one by one, until one stops. -/
theorem mapUntilStop_nextRewrite {missing : ε} {go : α → Except ε (Transformed α)}
    {rewrites : List (Transformed α)} (h : List.Forall₂ (go · = .ok ·) items rewrites)
    (tnr : TreeNodeRecursion) (transformed : Bool) :
    ∃ result left,
      mapUntilStop (nextRewrite missing) items tnr transformed rewrites = .ok (result, left) ∧
      mapUntilStop (fun item (_ : Unit) => (go item).map (·, ())) items tnr transformed () =
        .ok (result, ()) := by
  induction h generalizing tnr transformed with
  | nil => exact ⟨_, _, rfl, rfl⟩
  | @cons item rewrite items rewrites hfirst _ ih =>
    by_cases hstop : tnr = .stop
    · subst hstop
      exact ⟨_, _, rfl, rfl⟩
    · obtain ⟨result, left, hnext, hgo⟩ := ih rewrite.tnr (transformed || rewrite.transformed)
      refine ⟨{ result with data := rewrite.data :: result.data }, left, ?_, ?_⟩
      · rw [mapUntilStop, if_neg hstop]
        show mapUntilStop _ items _ _ _ >>= _ = _
        rw [hnext]
        rfl
      · rw [mapUntilStop, if_neg hstop, hfirst]
        show mapUntilStop _ items _ _ _ >>= _ = _
        rw [hgo]
        rfl

/-- Of a rewrite one by one that succeeds: every item was rewritten, or comes after one that
stopped. -/
theorem mapUntilStop_visits {go : α → Except ε (Transformed α)} {tnr : TreeNodeRecursion}
    {transformed : Bool} {out : Transformed (List α) × Unit} (htnr : tnr ≠ .stop)
    (h : mapUntilStop (fun item (_ : Unit) => (go item).map (·, ())) items tnr transformed () =
      .ok out) {item : α} (hitem : item ∈ items) :
    (∃ result, go item = .ok result) ∨
      ∃ stopped result, [stopped, item].Sublist items ∧ go stopped = .ok result ∧
        result.tnr = .stop := by
  induction items generalizing tnr transformed out with
  | nil => cases hitem
  | cons first items ih =>
    rw [mapUntilStop, if_neg htnr] at h
    obtain ⟨⟨result, _⟩, hfirst, h⟩ := bind_ok_iff.mp h
    obtain ⟨_, hgo, hpair⟩ := map_ok_iff.mp hfirst
    cases hpair
    rcases List.mem_cons.mp hitem with rfl | hitem
    · exact .inl ⟨result, hgo⟩
    by_cases hstop : result.tnr = .stop
    · exact .inr ⟨first, result, .cons_cons _ (List.singleton_sublist.mpr hitem), hgo, hstop⟩
    · obtain ⟨_, hrest, -⟩ := bind_ok_iff.mp h
      refine (ih hstop hrest hitem).imp id ?_
      rintro ⟨stopped, last, hsublist, hrest⟩
      exact ⟨stopped, last, .cons _ hsublist, hrest⟩

def Transformed.transformParent (self : Transformed α) (f : α → Transformed α) : Transformed α :=
  match self.tnr with
  | .continues =>
    let next := f self.data
    { next with transformed := next.transformed || self.transformed }
  | .jump | .stop => self

namespace TreeNode

variable (tree : TreeNode ε α)

/-- A node is rebuilt only if one of its children was changed. -/
def rebuild (node : α) (children : Transformed (List α)) : Except ε α :=
  if children.transformed then tree.withNewChildren node children.data else .ok node

def mapChildren (f : α → σ → Except ε (Transformed α × σ)) (node : α) (state : σ) :
    Except ε (Transformed α × σ) := do
  let (children, state) ← mapUntilStop f (tree.children node) .continues false state
  let node ← tree.rebuild node children
  return (⟨node, children.transformed, children.tnr⟩, state)

/-- `transform_down`, to a given depth. -/
def transformDown (f : α → σ → Except ε (Transformed α × σ)) :
    ℕ → α → σ → Except ε (Transformed α × σ)
  | 0, _, _ => .error tree.stackOverflow
  | depth + 1, node, state => do
    let (result, state) ← f node state
    match result.tnr with
    | .continues => do
      let (mapped, state) ← tree.mapChildren (transformDown f depth) result.data state
      return ({ mapped with transformed := mapped.transformed || result.transformed }, state)
    | .jump => return ({ result with tnr := .continues }, state)
    | .stop => return (result, state)

/-- If the children a rewrite leads to are always lighter than the node, any depth beyond the
weight of the node will do. -/
theorem transformDown_stable {f : α → σ → Except ε (Transformed α × σ)} {weight : α → ℕ}
    (hlighter : ∀ node state result next, f node state = .ok (result, next) →
      result.tnr = .continues → ∀ child ∈ tree.children result.data, weight child < weight node)
    {depth : ℕ} {node : α} (hdepth : weight node < depth) :
    tree.transformDown f depth node = tree.transformDown f (weight node + 1) node := by
  have hsucc : ∀ depth node, weight node < depth →
      tree.transformDown f (depth + 1) node = tree.transformDown f depth node := by
    intro depth
    induction depth with
    | zero => exact fun _ h => absurd h (Nat.not_lt_zero _)
    | succ depth ih =>
      intro node hdepth
      funext state
      rw [transformDown, transformDown]
      cases hresult : f node state with
      | error e => rfl
      | ok r =>
        obtain ⟨⟨data, transformed, tnr⟩, next⟩ := r
        cases tnr with
        | continues =>
          have hchildren : ∀ child ∈ tree.children data,
              tree.transformDown f (depth + 1) child = tree.transformDown f depth child := by
            intro child hchild
            have hless := hlighter node state _ next hresult rfl child hchild
            exact ih child (by omega)
          have hmap : tree.mapChildren (tree.transformDown f (depth + 1)) data next =
              tree.mapChildren (tree.transformDown f depth) data next := by
            unfold mapChildren
            rw [mapUntilStop_congr hchildren]
          simp only [bind, Except.bind, hmap]
        | jump | stop => rfl
  induction hdepth with
  | refl => rfl
  | step hdepth ih => exact (hsucc _ node hdepth).trans ih

/-- `transform_up` by a rewrite that does not fail, to a given depth. -/
def transformUp (f : α → Transformed α) : ℕ → α → Except ε (Transformed α)
  | 0, _ => .error tree.stackOverflow
  | depth + 1, node =>
    (tree.mapChildren (fun child (_ : Unit) => (transformUp f depth child).map (·, ())) node ()).map
      fun mapped => mapped.1.transformParent f

/-- The same with all children rewritten before `map_children`. -/
def transformUpAsync (missing : ε) (f : α → Transformed α) : ℕ → α → Except ε (Transformed α)
  | 0, _ => .error tree.stackOverflow
  | depth + 1, node => do
    let rewrites ← (tree.children node).mapM (transformUpAsync missing f depth)
    (tree.mapChildren (nextRewrite missing) node rewrites).map
      fun mapped => mapped.1.transformParent f

/-- The subtrees that a rewrite from the leaves leaves out: before it comes to them it has stopped
at an earlier child of the same node. -/
inductive LeftOut (up : α → Except ε (Transformed α)) : α → α → Prop
  | later {node stopped child : α} {result : Transformed α} :
    [stopped, child].Sublist (tree.children node) → up stopped = .ok result →
    result.tnr = .stop → LeftOut up node child
  | inside {node child subtree : α} :
    child ∈ tree.children node → LeftOut up child subtree → LeftOut up node subtree

section TransformUp

variable {tree} {missing : ε} {f : α → Transformed α} {depth : ℕ} {node : α}

theorem transformUp_of_async {result : Transformed α}
    (h : tree.transformUpAsync missing f depth node = .ok result) :
    tree.transformUp f depth node = .ok result := by
  induction depth generalizing node result with
  | zero => cases h
  | succ depth ih =>
    obtain ⟨rewrites, hrewrites, h⟩ := bind_ok_iff.mp h
    obtain ⟨children, left, hnext, hgo⟩ := mapUntilStop_nextRewrite
      ((mapM_ok_iff.mp hrewrites).imp fun _ _ hchild => ih hchild) .continues false
    rw [← h, transformUp, mapChildren, mapChildren, hnext, hgo, ok_bind, ok_bind]
    dsimp only
    cases tree.rebuild node children <;> rfl

variable {weight : α → ℕ}

/-- Any depth beyond the weight of a node will do. -/
theorem transformUp_stable
    (hlighter : ∀ node, ∀ child ∈ tree.children node, weight child < weight node) {other : ℕ}
    (hdepth : weight node < depth) (hother : weight node < other) :
    tree.transformUp f depth node = tree.transformUp f other node := by
  induction depth generalizing node other with
  | zero => omega
  | succ depth ih =>
    obtain ⟨other, rfl⟩ := Nat.exists_eq_succ_of_ne_zero (Nat.ne_zero_of_lt hother)
    rw [transformUp, transformUp, mapChildren, mapChildren, mapUntilStop_congr]
    intro child hchild
    have hless := hlighter node child hchild
    rw [ih (by omega : weight child < depth) (by omega : weight child < other)]

/-- Rewriting all children at once succeeds if rewriting one by one does, in the tree and in the
subtrees that it leaves out. -/
theorem exists_transformUpAsync_iff
    (hlighter : ∀ node, ∀ child ∈ tree.children node, weight child < weight node)
    (hdepth : weight node < depth) :
    (∃ result, tree.transformUpAsync missing f depth node = .ok result) ↔
      (∃ result, tree.transformUp f depth node = .ok result) ∧
        ∀ subtree,
          tree.LeftOut (fun node => tree.transformUp f (weight node + 1) node) node subtree →
          ∃ result, tree.transformUp f (weight subtree + 1) subtree = .ok result := by
  induction depth generalizing node with
  | zero => omega
  | succ depth ih =>
    have hchild : ∀ child ∈ tree.children node, weight child < depth := by
      intro child hchild
      have hless := hlighter node child hchild
      omega
    have hown : ∀ child ∈ tree.children node,
        tree.transformUp f depth child = tree.transformUp f (weight child + 1) child :=
      fun child hmem => transformUp_stable hlighter (hchild child hmem) (Nat.lt_succ_self _)
    constructor
    · rintro ⟨result, h⟩
      refine ⟨⟨result, transformUp_of_async h⟩, ?_⟩
      obtain ⟨rewrites, hrewrites, -⟩ := bind_ok_iff.mp h
      have hall : ∀ child ∈ tree.children node, ∃ rewrite,
          tree.transformUpAsync missing f depth child = .ok rewrite := by
        intro child hmem
        obtain ⟨rewrite, -, hrewrite⟩ := exists_of_forall₂ (mapM_ok_iff.mp hrewrites).flip hmem
        exact ⟨rewrite, hrewrite⟩
      intro subtree hleft
      cases hleft with
      | later hsublist _ _ =>
        have hmem : subtree ∈ tree.children node := hsublist.subset (by simp)
        obtain ⟨rewrite, hrewrite⟩ := hall subtree hmem
        rw [← hown subtree hmem]
        exact ⟨rewrite, transformUp_of_async hrewrite⟩
      | inside hmem hleft => exact ((ih (hchild _ hmem)).mp (hall _ hmem)).2 subtree hleft
    · rintro ⟨⟨result, h⟩, hleft⟩
      obtain ⟨⟨mapped, _⟩, hmapped, -⟩ := map_ok_iff.mp h
      obtain ⟨⟨visited, _⟩, hvisited, hrebuilt⟩ := bind_ok_iff.mp hmapped
      have hall : ∀ child ∈ tree.children node, ∃ rewrite,
          tree.transformUpAsync missing f depth child = .ok rewrite := by
        intro child hmem
        refine (ih (hchild child hmem)).mpr
          ⟨?_, fun subtree hinside => hleft subtree (.inside hmem hinside)⟩
        -- either the rewrite came to the child, or the child was left out
        rcases mapUntilStop_visits (by simp) hvisited hmem with
          hvisit | ⟨stopped, last, hsub, hgo, hstop⟩
        · exact hvisit
        · rw [hown stopped (hsub.subset (by simp))] at hgo
          rw [hown child hmem]
          exact hleft child (.later hsub hgo hstop)
      obtain ⟨rewrites, hrewrites⟩ := exists_mapM_ok hall
      obtain ⟨children, left, hnext, hgo⟩ := mapUntilStop_nextRewrite
        ((mapM_ok_iff.mp hrewrites).imp fun _ _ hrewrite => transformUp_of_async hrewrite)
        .continues false
      rw [hgo] at hvisited
      cases hvisited
      obtain ⟨out, hout, -⟩ := bind_ok_iff.mp hrebuilt
      rw [transformUpAsync, hrewrites, ok_bind, mapChildren, hnext, ok_bind]
      dsimp only
      rw [hout]
      exact ⟨_, rfl⟩

end TransformUp

end TreeNode

/-- Trees whose nodes hand contexts to their children. A node that is not entered hands out none,
and a child without a context is passed over. -/
structure ContextTree (ε α β : Type) extends TreeNode ε α where
  enters : α → Bool
  childContexts : α → β → Except ε (List (Option β))
  length_childContexts : ∀ node ctx ctxs, childContexts node ctx = .ok ctxs →
    ctxs.length = (children node).length
  /-- The context of a node is not on the stack. -/
  emptyStack : ε

/-- One call of a rewrite: where, on what, with which context, and what it answered. -/
structure Call (α β : Type) where
  position : List ℕ
  node : α
  ctx : β
  answer : TreeNodeRecursion

def Call.below (i : ℕ) (call : Call α β) : Call α β :=
  { call with position := i :: call.position }

@[simp] theorem Call.position_below (i : ℕ) (call : Call α β) :
    (call.below i).position = i :: call.position := rfl

def Call.pair (call : Call α β) : α × β := (call.node, call.ctx)

@[simp] theorem Call.pair_comp_below (i : ℕ) :
    Call.pair ∘ Call.below i = (Call.pair : Call α β → α × β) := rfl

/-- A rewrite that writes down what it was called on. -/
def logged (f : α → β → σ → Except ε (Transformed α × σ)) (node : α) (ctx : β)
    (state : σ × List (α × β)) : Except ε (Transformed α × σ × List (α × β)) := do
  let (result, next) ← f node ctx state.1
  return (result, next, state.2 ++ [(node, ctx)])

namespace ContextTree

variable (tree : ContextTree ε α β)

/-- The rewrite of a node whose context is on top of the stack. It leaves the contexts of the
children of the new node there, unless they are not visited. -/
def popContext (f : α → β → σ → Except ε (Transformed α × σ)) (node : α) :
    List (Option β) × σ → Except ε (Transformed α × List (Option β) × σ)
  | ([], _) => .error tree.emptyStack
  | (none :: stack, state) => .ok (⟨node, false, .jump⟩, stack, state)
  | (some ctx :: stack, state) => do
    let (result, state) ← f node ctx state
    if result.tnr = .stop then return (result, stack, state)
    else if result.tnr ≠ .continues ∨ tree.enters result.data = false then
      return ({ result with tnr := .jump }, stack, state)
    else do
      let ctxs ← tree.childContexts result.data ctx
      return (result, ctxs ++ stack, state)

/-! ## The same with contexts handed down -/

/-- The children from number `i` on, each with its context, until one stops. -/
def descendAll (go : α → Option β → σ → Except ε (Transformed α × σ × List (Call α β))) :
    ℕ → List α → List (Option β) → σ → Except ε (Transformed (List α) × σ × List (Call α β))
  | _, [], _, state => .ok (⟨[], false, .continues⟩, state, [])
  | i, child :: children, ctxs, state => do
    let (first, state, calls) ← go child (ctxs.headD none) state
    if first.tnr = .stop then
      return (⟨first.data :: children, first.transformed, .stop⟩, state, calls.map (Call.below i))
    else do
      let (rest, state, more) ← descendAll go (i + 1) children ctxs.tail state
      return (⟨first.data :: rest.data, first.transformed || rest.transformed, rest.tnr⟩, state,
        calls.map (Call.below i) ++ more)

/-- The rewrite with the context of the node handed to it, and its calls. -/
def descend (f : α → β → σ → Except ε (Transformed α × σ)) :
    ℕ → α → Option β → σ → Except ε (Transformed α × σ × List (Call α β))
  | 0, _, _, _ => .error tree.stackOverflow
  | _ + 1, node, none, state => .ok (⟨node, false, .continues⟩, state, [])
  | depth + 1, node, some ctx, state => do
    let (result, state) ← f node ctx state
    if result.tnr = .stop then return (result, state, [⟨[], node, ctx, .stop⟩])
    else if result.tnr ≠ .continues ∨ tree.enters result.data = false then
      return ({ result with tnr := .continues }, state, [⟨[], node, ctx, result.tnr⟩])
    else do
      let ctxs ← tree.childContexts result.data ctx
      let (children, state, calls) ←
        descendAll (descend f depth) 0 (tree.children result.data) ctxs state
      let data ← tree.rebuild result.data children
      return (⟨data, children.transformed || result.transformed, children.tnr⟩, state,
        ⟨[], node, ctx, .continues⟩ :: calls)

/-! ## The stack -/

/-- A run with a stack does what the run without does, and takes its own contexts off the stack
unless it was stopped. -/
def Unstacks (run : Except ε (Transformed γ × List (Option β) × σ))
    (spec : Except ε (Transformed γ × σ × List (Call α β))) (stack : List (Option β)) : Prop :=
  ∃ left, (run = spec.map fun r => (r.1, left ++ stack, r.2.1)) ∧
    ∀ r, spec = .ok r → r.1.tnr ≠ .stop → left = []

variable {stack : List (Option β)} {f : α → β → σ → Except ε (Transformed α × σ)} {depth : ℕ}
  {node : α}

theorem Unstacks.error {e : ε} :
    Unstacks (.error e : Except ε (Transformed γ × List (Option β) × σ))
      (.error e : Except ε (Transformed γ × σ × List (Call α β))) stack :=
  ⟨[], rfl, fun _ h => by cases h⟩

variable {state : σ} {go : α → Option β → σ → Except ε (Transformed α × σ × List (Call α β))}

theorem Unstacks.ok {result : Transformed γ} {calls : List (Call α β)} :
    Unstacks (.ok (result, stack, state) : Except ε _) (.ok (result, state, calls)) stack :=
  ⟨[], rfl, fun _ _ _ => rfl⟩

theorem descendAll_tnr {i : ℕ} {children : List α} {ctxs : List (Option β)}
    {r : Transformed (List α) × σ × List (Call α β)}
    (h : descendAll go i children ctxs state = .ok r) : r.1.tnr ≠ .jump := by
  induction children generalizing i ctxs state r with
  | nil =>
    cases h
    simp
  | cons child children ih =>
    obtain ⟨⟨first, next, calls⟩, -, h⟩ := bind_ok_iff.mp h
    dsimp only at h
    split at h
    · cases h
      simp
    · obtain ⟨rest, hrest, h⟩ := bind_ok_iff.mp h
      cases h
      have hlast := ih hrest
      exact hlast

/-- Above the node nobody sees that its children were skipped. -/
theorem descend_tnr {c : Option β} {r : Transformed α × σ × List (Call α β)}
    (h : tree.descend f depth node c state = .ok r) : r.1.tnr ≠ .jump := by
  cases depth with
  | zero => cases h
  | succ depth =>
    cases c with
    | none =>
      cases h
      simp
    | some ctx =>
      obtain ⟨⟨result, next⟩, -, h⟩ := bind_ok_iff.mp h
      dsimp only at h
      split at h
      · rename_i hstop
        cases h
        simp [hstop]
      · split at h
        · cases h
          simp
        · obtain ⟨ctxs, -, h⟩ := bind_ok_iff.mp h
          obtain ⟨all, hall, h⟩ := bind_ok_iff.mp h
          obtain ⟨data, -, h⟩ := bind_ok_iff.mp h
          cases h
          exact descendAll_tnr hall

variable {tree}

theorem mapUntilStop_unstacks
    {run : α → List (Option β) × σ → Except ε (Transformed α × List (Option β) × σ)}
    (hgo : ∀ child c stack state, Unstacks (run child (c :: stack, state)) (go child c state) stack)
    (hjump : ∀ child c state r, go child c state = .ok r → r.1.tnr ≠ .jump) (i : ℕ)
    (children : List α) (ctxs stack : List (Option β)) (transformed : Bool) (state : σ)
    (hlen : ctxs.length = children.length) :
    Unstacks (mapUntilStop run children .continues transformed (ctxs ++ stack, state))
      ((descendAll go i children ctxs state).map fun r =>
        ({ r.1 with transformed := transformed || r.1.transformed }, r.2)) stack := by
  induction children generalizing i ctxs transformed state with
  | nil =>
    obtain rfl := List.length_eq_zero_iff.mp hlen
    rw [descendAll, Except.map, Bool.or_false]
    exact .ok
  | cons child children ih =>
    obtain ⟨c, ctxs, rfl⟩ := List.exists_cons_of_length_eq_add_one hlen
    obtain ⟨left, hrun, hleft⟩ := hgo child c (ctxs ++ stack) state
    rw [mapUntilStop, descendAll, List.cons_append, hrun, List.headD_cons, List.tail_cons]
    cases hfirst : go child c state with
    | error e => exact .error
    | ok r =>
      obtain ⟨first, next, calls⟩ := r
      simp only [Except.map, ok_bind]
      by_cases hstop : first.tnr = .stop
      · rw [hstop, mapUntilStop_stop]
        exact ⟨left ++ ctxs, by simp [Except.map, ok_bind, pure, Except.pure], by
          rintro r hr hne
          cases hr
          exact absurd rfl hne⟩
      · have hcontinues : first.tnr = .continues := by
          have := hjump child c state _ hfirst
          cases htnr : first.tnr <;> simp_all
        rw [hleft _ hfirst hstop, List.nil_append, hcontinues]
        obtain ⟨left, hrest, hnil⟩ := ih (i + 1) ctxs (transformed || first.transformed) next
          (by simpa using hlen)
        refine ⟨left, ?_, ?_⟩
        · rw [hrest]
          cases descendAll go (i + 1) children ctxs next with
          | error e => rfl
          | ok r => simp [Except.map, ok_bind, pure, Except.pure, Bool.or_assoc]
        · intro r hr hne
          cases hall : descendAll go (i + 1) children ctxs next with
          | error e =>
            rw [hall] at hr
            cases hr
          | ok rest =>
            rw [hall] at hr hnil
            cases hr
            exact hnil _ rfl hne

/-- The stack holds the context of every node when it is needed: handing the contexts down gives
the same result, for every rewrite and whatever its answers. When the rewrite was not stopped, all
contexts it put on the stack are gone. -/
theorem transformDown_popContext (tree : ContextTree ε α β)
    (f : α → β → σ → Except ε (Transformed α × σ)) (depth : ℕ) (node : α) (c : Option β)
    (stack : List (Option β)) (state : σ) :
    Unstacks (tree.transformDown (tree.popContext f) depth node (c :: stack, state))
      (tree.descend f depth node c state) stack := by
  induction depth generalizing node c stack state with
  | zero => exact .error
  | succ depth ih =>
    cases c with
    | none => exact .ok
    | some ctx =>
      rw [TreeNode.transformDown, popContext, descend]
      cases hresult : f node ctx state with
      | error e => exact .error
      | ok r =>
        obtain ⟨⟨data, transformed, tnr⟩, next⟩ := r
        simp only [ok_bind]
        by_cases hstop : tnr = .stop
        · subst hstop
          exact .ok
        · rw [if_neg hstop, if_neg hstop]
          by_cases hskip : tnr ≠ .continues ∨ tree.enters data = false
          · rw [if_pos hskip, if_pos hskip]
            exact .ok
          · rw [if_neg hskip, if_neg hskip]
            obtain rfl : tnr = .continues := by
              by_contra hne
              exact hskip (.inl hne)
            cases hctxs : tree.childContexts data ctx with
            | error e => exact .error
            | ok ctxs =>
              simp only [ok_bind, pure, Except.pure, TreeNode.mapChildren]
              obtain ⟨left, hrun, hleft⟩ := mapUntilStop_unstacks ih
                (fun _ _ _ _ h => tree.descend_tnr h) 0 (tree.children data) ctxs stack false next
                (tree.length_childContexts data ctx ctxs hctxs)
              rw [hrun]
              cases hall : descendAll (tree.descend f depth) 0 (tree.children data) ctxs next with
              | error e => exact .error
              | ok all =>
                obtain ⟨children, last, calls⟩ := all
                simp only [Except.map, ok_bind, Bool.false_or]
                cases tree.rebuild data children with
                | error e => exact .error
                | ok rebuilt =>
                  refine ⟨left, rfl, ?_⟩
                  intro r hr hne
                  cases hr
                  rw [hall] at hleft
                  exact hleft _ rfl hne

/-- There is a context on the stack whenever one is needed. -/
theorem popContext_eq_descend (tree : ContextTree ε α β)
    (f : α → β → σ → Except ε (Transformed α × σ)) (depth : ℕ) (node : α) (c : Option β)
    (state : σ) :
    ((tree.transformDown (tree.popContext f) depth node ([c], state)).map fun r => (r.1, r.2.2)) =
      (tree.descend f depth node c state).map fun r => (r.1, r.2.1) := by
  obtain ⟨left, hrun, -⟩ := transformDown_popContext tree f depth node c [] state
  rw [hrun]
  cases tree.descend f depth node c state <;> rfl

theorem popContext_emptied {c : Option β} {result : Transformed α} {next : σ}
    (h : tree.transformDown (tree.popContext f) depth node ([c], state) = .ok (result, stack, next))
    (hstop : result.tnr ≠ .stop) : stack = [] := by
  obtain ⟨left, hrun, hleft⟩ := transformDown_popContext tree f depth node c [] state
  rw [hrun] at h
  obtain ⟨r, hr, heq⟩ := map_ok_iff.mp h
  cases heq
  rw [hleft r hr hstop]
  rfl

/-! ## The calls -/

theorem descendAll_logged {goLogged : α → Option β → σ × List (α × β) →
      Except ε (Transformed α × (σ × List (α × β)) × List (Call α β))}
    (hgo : ∀ child c state log, goLogged child c (state, log) =
      (go child c state).map fun r => (r.1, (r.2.1, log ++ r.2.2.map Call.pair), r.2.2)) (i : ℕ)
    (children : List α) (ctxs : List (Option β)) (state : σ) (log : List (α × β)) :
    descendAll goLogged i children ctxs (state, log) =
      (descendAll go i children ctxs state).map fun r =>
        (r.1, (r.2.1, log ++ r.2.2.map Call.pair), r.2.2) := by
  induction children generalizing i ctxs state log with
  | nil => simp [descendAll, Except.map]
  | cons child children ih =>
    rw [descendAll, descendAll, hgo]
    cases go child (ctxs.headD none) state with
    | error e => rfl
    | ok r =>
      obtain ⟨first, next, calls⟩ := r
      simp only [Except.map, ok_bind, ih]
      split
      · simp [pure, Except.pure]
      · cases descendAll go (i + 1) children ctxs.tail next with
        | error e => rfl
        | ok rest => simp [ok_bind, pure, Except.pure]

/-- The log of a rewrite lists its calls. -/
theorem descend_logged (tree : ContextTree ε α β) (f : α → β → σ → Except ε (Transformed α × σ))
    (depth : ℕ) (node : α) (c : Option β) (state : σ) (log : List (α × β)) :
    tree.descend (logged f) depth node c (state, log) =
      (tree.descend f depth node c state).map fun r =>
        (r.1, (r.2.1, log ++ r.2.2.map Call.pair), r.2.2) := by
  induction depth generalizing node c state log with
  | zero => rfl
  | succ depth ih =>
    cases c with
    | none => simp [descend, Except.map]
    | some ctx =>
      rw [descend, descend, logged]
      cases f node ctx state with
      | error e => rfl
      | ok r =>
        obtain ⟨result, next⟩ := r
        simp only [ok_bind, pure, Except.pure]
        split
        · rfl
        · split
          · rfl
          · cases tree.childContexts result.data ctx with
            | error e => rfl
            | ok ctxs =>
              simp only [ok_bind, descendAll_logged ih]
              cases descendAll (tree.descend f depth) 0 (tree.children result.data) ctxs next with
              | error e => rfl
              | ok all =>
                obtain ⟨children, last, calls⟩ := all
                simp only [Except.map, ok_bind]
                cases tree.rebuild result.data children with
                | error e => rfl
                | ok rebuilt => simp [ok_bind, Call.pair]

/-- Any depth beyond the weight of the node will do, if the rewrite leads to lighter children. -/
theorem popContext_stable (tree : ContextTree ε α β) {weight : α → ℕ}
    (hlighter : ∀ node ctx state result next, f node ctx state = .ok (result, next) →
      ∀ child ∈ tree.children result.data, weight child < weight node)
    (hdepth : weight node < depth) :
    tree.transformDown (tree.popContext f) depth node =
      tree.transformDown (tree.popContext f) (weight node + 1) node := by
  refine tree.transformDown_stable ?_ hdepth
  rintro node ⟨stack, state⟩ result ⟨nextStack, next⟩ h htnr
  cases stack with
  | nil => cases h
  | cons c stack =>
    cases c with
    | none =>
      cases h
      cases htnr
    | some ctx =>
      obtain ⟨⟨first, middle⟩, hfirst, h⟩ := bind_ok_iff.mp h
      dsimp only at h
      split at h
      · rename_i hstop
        cases h
        rw [hstop] at htnr
        cases htnr
      · split at h
        · cases h
          cases htnr
        · obtain ⟨ctxs, -, h⟩ := bind_ok_iff.mp h
          cases h
          exact hlighter _ _ _ _ _ hfirst

end ContextTree

end DatafusionDistributed.Library
