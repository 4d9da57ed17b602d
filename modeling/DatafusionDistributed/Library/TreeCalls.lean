import DatafusionDistributed.Library.TreeNode

/-!
# The calls of a rewrite from the top

Which nodes a rewrite with contexts is called on. `Reached` lists the nodes of a tree that get a
context. `Ran.covers` says that the calls are the nodes that the *new* tree reaches, whatever the
rewrite puts in the place of a node; `Ran.follows` that they are the nodes of the old tree if the
rewrite leaves the children that get a context. In both cases the nodes below a call that skips
them, and those after a call that stops, are missing.
-/

namespace DatafusionDistributed.Library

variable {ε α β σ : Type}

namespace ContextTree

/-- The rewrite of a node succeeds from some state, with this outcome and these calls. -/
def Ran (tree : ContextTree ε α β) (f : α → β → σ → Except ε (Transformed α × σ)) (depth : ℕ)
    (node : α) (c : Option β) (result : Transformed α) (calls : List (Call α β)) : Prop :=
  ∃ state next, tree.descend f depth node c state = .ok (result, next, calls)

/-- What the rewrites of the children from number `i` on amount to. -/
inductive Descended (go : α → Option β → Transformed α → List (Call α β) → Prop) :
    ℕ → List α → List (Option β) → Transformed (List α) → List (Call α β) → Prop
  | nil {i : ℕ} {ctxs : List (Option β)} : Descended go i [] ctxs ⟨[], false, .continues⟩ []
  | stop {i : ℕ} {child : α} {children : List α} {ctxs : List (Option β)} {first : Transformed α}
      {calls : List (Call α β)} : go child (ctxs.headD none) first calls → first.tnr = .stop →
      Descended go i (child :: children) ctxs
        ⟨first.data :: children, first.transformed, .stop⟩ (calls.map (Call.below i))
  | cons {i : ℕ} {child : α} {children : List α} {ctxs : List (Option β)} {first : Transformed α}
      {calls more : List (Call α β)} {rest : Transformed (List α)} :
      go child (ctxs.headD none) first calls → first.tnr ≠ .stop →
      Descended go (i + 1) children ctxs.tail rest more →
      Descended go i (child :: children) ctxs
        ⟨first.data :: rest.data, first.transformed || rest.transformed, rest.tnr⟩
        (calls.map (Call.below i) ++ more)

theorem descended_of_descendAll {tree : ContextTree ε α β}
    {f : α → β → σ → Except ε (Transformed α × σ)} {depth i : ℕ} {children : List α}
    {ctxs : List (Option β)} {state : σ} {r : Transformed (List α) × σ × List (Call α β)}
    (h : descendAll (tree.descend f depth) i children ctxs state = .ok r) :
    Descended (tree.Ran f depth) i children ctxs r.1 r.2.2 := by
  induction children generalizing i ctxs state r with
  | nil =>
    cases h
    exact .nil
  | cons child children ih =>
    obtain ⟨⟨first, next, calls⟩, hfirst, h⟩ := bind_ok_iff.mp h
    dsimp only at h
    split at h
    · rename_i hstop
      cases h
      exact .stop ⟨state, next, hfirst⟩ hstop
    · rename_i hstop
      obtain ⟨rest, hrest, h⟩ := bind_ok_iff.mp h
      cases h
      exact .cons ⟨state, next, hfirst⟩ hstop (ih hrest)

/-- What the rewrite of a node amounts to. -/
inductive Outcome (tree : ContextTree ε α β) (f : α → β → σ → Except ε (Transformed α × σ))
    (go : α → Option β → Transformed α → List (Call α β) → Prop) :
    α → Option β → Transformed α → List (Call α β) → Prop
  | skipped {node : α} : Outcome tree f go node none ⟨node, false, .continues⟩ []
  | stopped {node : α} {ctx : β} {state next : σ} {result : Transformed α} :
      f node ctx state = .ok (result, next) → result.tnr = .stop →
      Outcome tree f go node (some ctx) result [⟨[], node, ctx, .stop⟩]
  | jumped {node : α} {ctx : β} {state next : σ} {result : Transformed α} :
      f node ctx state = .ok (result, next) → result.tnr ≠ .stop →
      result.tnr ≠ .continues ∨ tree.enters result.data = false →
      Outcome tree f go node (some ctx) { result with tnr := .continues }
        [⟨[], node, ctx, result.tnr⟩]
  | entered {node data : α} {ctx : β} {state next : σ} {result : Transformed α}
      {ctxs : List (Option β)} {all : Transformed (List α)} {calls : List (Call α β)} :
      f node ctx state = .ok (result, next) → result.tnr = .continues →
      tree.enters result.data = true → tree.childContexts result.data ctx = .ok ctxs →
      Descended go 0 (tree.children result.data) ctxs all calls →
      tree.rebuild result.data all = .ok data →
      Outcome tree f go node (some ctx) ⟨data, all.transformed || result.transformed, all.tnr⟩
        (⟨[], node, ctx, .continues⟩ :: calls)

section outcome

variable {tree : ContextTree ε α β} {f : α → β → σ → Except ε (Transformed α × σ)} {depth : ℕ}
  {node : α} {c : Option β} {result : Transformed α} {calls : List (Call α β)}

theorem not_ran_zero : ¬tree.Ran f 0 node c result calls := by
  rintro ⟨state, next, h⟩
  cases h

theorem Ran.outcome (h : tree.Ran f (depth + 1) node c result calls) :
    tree.Outcome f (tree.Ran f depth) node c result calls := by
  obtain ⟨state, next, h⟩ := h
  cases c with
  | none =>
    cases h
    exact .skipped
  | some ctx =>
    obtain ⟨⟨first, middle⟩, hfirst, h⟩ := bind_ok_iff.mp h
    dsimp only at h
    split at h
    · rename_i hstop
      cases h
      exact .stopped hfirst hstop
    · rename_i hstop
      split at h
      · rename_i hskip
        cases h
        exact .jumped hfirst hstop hskip
      · rename_i henter
        obtain ⟨ctxs, hctxs, h⟩ := bind_ok_iff.mp h
        obtain ⟨all, hall, h⟩ := bind_ok_iff.mp h
        obtain ⟨data, hdata, h⟩ := bind_ok_iff.mp h
        cases h
        rw [not_or, not_not, Bool.not_eq_false] at henter
        exact .entered hfirst henter.1 henter.2 hctxs (descended_of_descendAll hall) hdata

/-- A run with a stack and a log, and the same run without them. -/
theorem ran_of_logged {stack : List (Option β)} {state next : σ} {log : List (α × β)}
    (h : tree.transformDown (tree.popContext (logged f)) depth node ([c], state, []) =
      .ok (result, stack, next, log)) :
    ∃ calls, log = calls.map Call.pair ∧ tree.Ran f depth node c result calls := by
  obtain ⟨left, hrun, -⟩ := transformDown_popContext tree (logged f) depth node c [] (state, [])
  rw [hrun, descend_logged] at h
  obtain ⟨⟨first, ⟨last, pairs⟩, calls⟩, hfirst, h⟩ := map_ok_iff.mp h
  obtain ⟨⟨second, final, more⟩, hsecond, heq⟩ := map_ok_iff.mp hfirst
  cases h
  cases heq
  exact ⟨more, rfl, state, final, hsecond⟩

theorem Ran.skipped (h : tree.Ran f depth node none result calls) :
    result.data = node ∧ calls = [] := by
  cases depth with
  | zero => exact absurd h not_ran_zero
  | succ depth =>
    cases h.outcome
    exact ⟨rfl, rfl⟩

variable {go : α → Option β → Transformed α → List (Call α β) → Prop} {i : ℕ} {children : List α}
  {ctxs : List (Option β)} {all : Transformed (List α)}

theorem Descended.forall_calls {P : α → β → TreeNodeRecursion → Prop}
    (hgo : ∀ child c first calls, go child c first calls →
      ∀ call ∈ calls, P call.node call.ctx call.answer)
      (h : Descended go i children ctxs all calls) :
    ∀ call ∈ calls, P call.node call.ctx call.answer := by
  induction h with
  | nil => simp
  | stop hfirst _ => exact List.forall_mem_map.mpr (hgo _ _ _ _ hfirst)
  | cons hfirst _ _ ih =>
    exact List.forall_mem_append.mpr ⟨List.forall_mem_map.mpr (hgo _ _ _ _ hfirst), ih⟩

/-- What a call answered is what the rewrite answered. -/
theorem Ran.answer (h : tree.Ran f depth node c result calls) : ∀ call ∈ calls,
    ∃ state next first, f call.node call.ctx state = .ok (first, next) ∧
      first.tnr = call.answer := by
  induction depth generalizing node c result calls with
  | zero => exact absurd h not_ran_zero
  | succ depth ih =>
    cases h.outcome with
    | skipped => simp
    | stopped hfirst htnr => exact List.forall_mem_singleton.mpr ⟨_, _, _, hfirst, htnr⟩
    | jumped hfirst => exact List.forall_mem_singleton.mpr ⟨_, _, _, hfirst, rfl⟩
    | entered hfirst htnr _ _ hall _ =>
      exact List.forall_mem_cons.mpr ⟨⟨_, _, _, hfirst, htnr⟩,
        hall.forall_calls (P := fun node ctx answer => ∃ state next first,
          f node ctx state = .ok (first, next) ∧ first.tnr = answer) fun _ _ _ _ h => ih h⟩

theorem Descended.exists_stop
    (hgo : ∀ child c first calls, go child c first calls → first.tnr = .stop →
      ∃ call ∈ calls, call.answer = .stop) (h : Descended go i children ctxs all calls)
    (hstop : all.tnr = .stop) :
    ∃ call ∈ calls, call.answer = .stop := by
  induction h with
  | nil => cases hstop
  | stop hfirst htnr =>
    obtain ⟨call, hcall, hanswer⟩ := hgo _ _ _ _ hfirst htnr
    exact ⟨_, List.mem_map_of_mem hcall, hanswer⟩
  | cons _ _ _ ih =>
    obtain ⟨call, hcall, hanswer⟩ := ih hstop
    exact ⟨call, List.mem_append_right _ hcall, hanswer⟩

/-- The calls below the children, one list for each of them. -/
theorem Descended.flatten_pairs {P : α → Option β → List (α × β) → Prop}
    (hgoes : ∀ child c first calls, go child c first calls → first.tnr ≠ .stop)
    (hgo : ∀ child c first calls, go child c first calls → P child c (calls.map Call.pair))
    (h : Descended go i children ctxs all calls) :
    ∃ below : List (List (α × β)), calls.map Call.pair = below.flatten ∧
      below.length = children.length ∧ ∀ (i : ℕ) (child : α) (pairs : List (α × β)),
        children[i]? = some child → below[i]? = some pairs → P child (ctxs.getD i none) pairs := by
  induction h with
  | nil => exact ⟨[], rfl, rfl, fun _ _ _ h => by cases h⟩
  | stop hfirst hstop => exact absurd hstop (hgoes _ _ _ _ hfirst)
  | @cons _ _ _ ctxs _ calls _ _ hfirst _ _ ih =>
    obtain ⟨below, hbelow, hlength, hall⟩ := ih
    refine ⟨calls.map Call.pair :: below, ?_, congrArg (· + 1) hlength, ?_⟩
    · rw [List.map_append, List.map_map, Call.pair_comp_below, hbelow, List.flatten_cons]
    · intro i child pairs hchild hget
      cases i with
      | zero =>
        cases hchild
        cases hget
        have hhead := hgo _ _ _ _ hfirst
        cases ctxs <;> exact hhead
      | succ i =>
        have hrest := hall i child pairs hchild hget
        cases ctxs with
        | nil => simpa using hrest
        | cons => exact hrest

theorem Ran.exists_stop (h : tree.Ran f depth node c result calls) (hstop : result.tnr = .stop) :
    ∃ call ∈ calls, call.answer = .stop := by
  induction depth generalizing node c result calls with
  | zero => exact absurd h not_ran_zero
  | succ depth ih =>
    cases h.outcome with
    | skipped | jumped => cases hstop
    | stopped => exact ⟨_, List.mem_singleton_self _, rfl⟩
    | entered _ _ _ _ hall _ =>
      obtain ⟨call, hcall, hanswer⟩ := hall.exists_stop (fun _ _ _ _ h => ih h) hstop
      exact ⟨call, List.mem_cons_of_mem _ hcall, hanswer⟩

end outcome

/-! ## Where the calls are -/

/-- The nodes that get a context, with their positions and their contexts. -/
inductive Reached (tree : ContextTree ε α β) : α → β → List ℕ → α → β → Prop
  | here {node : α} {ctx : β} : Reached tree node ctx [] node ctx
  | inside {node child found : α} {ctx c d : β} {ctxs : List (Option β)} {i : ℕ}
      {position : List ℕ} : tree.enters node = true → tree.childContexts node ctx = .ok ctxs →
      ctxs[i]? = some (some c) → (tree.children node)[i]? = some child →
      Reached tree child c position found d → Reached tree node ctx (i :: position) found d

/-- A position was called on, or it is below a call that skips its children, or a call before it
stopped the rewrite. -/
def Met (calls : List (Call α β)) (position : List ℕ) (ctx : β) : Prop :=
  (∃ call ∈ calls, call.position = position ∧ call.ctx = ctx) ∨
    (∃ call ∈ calls, call.answer = .jump ∧ call.position <+: position ∧
      call.position ≠ position) ∨
    ∃ call ∈ calls, call.answer = .stop ∧ call.position < position

variable {calls : List (Call α β)}

theorem Met.mono {more : List (Call α β)} {position : List ℕ} {ctx : β}
    (h : Met calls position ctx) (hsub : calls ⊆ more) : Met more position ctx := by
  refine h.imp ?_ (Or.imp ?_ ?_) <;>
    · rintro ⟨call, hcall, h⟩
      exact ⟨call, hsub hcall, h⟩

theorem Met.below {position : List ℕ} {ctx : β} (i : ℕ)
    (h : Met calls position ctx) : Met (calls.map (Call.below i)) (i :: position) ctx := by
  simpa [Met, Call.below] using h

/-- The calls are those on the nodes that `ref` reaches, in pre-order and each once, up to skipped
children and to a stop. A node of `ref` and the one that was called in its place are related by
`Rel`. -/
structure Covers (tree : ContextTree ε α β) (Rel : α → α → β → Prop) (ref : α) (ctx : β)
    (calls : List (Call α β)) : Prop where
  sound : ∀ call ∈ calls, ∃ found, tree.Reached ref ctx call.position found call.ctx ∧
    Rel found call.node call.ctx
  complete : ∀ position found c, tree.Reached ref ctx position found c → Met calls position c
  sorted : (calls.map Call.position).Pairwise (· < ·)

/-- The same for the children from number `i` on. -/
structure CoversFrom (tree : ContextTree ε α β) (Rel : α → α → β → Prop) (i : ℕ) (refs : List α)
    (ctxs : List (Option β)) (calls : List (Call α β)) : Prop where
  sound : ∀ call ∈ calls, ∃ (j : ℕ) (position : List ℕ) (ref found : α) (c : β),
    call.position = (i + j) :: position ∧ refs[j]? = some ref ∧ ctxs[j]? = some (some c) ∧
      tree.Reached ref c position found call.ctx ∧ Rel found call.node call.ctx
  complete : ∀ (j : ℕ) (position : List ℕ) (ref found : α) (c d : β), refs[j]? = some ref →
    ctxs[j]? = some (some c) → tree.Reached ref c position found d →
    Met calls ((i + j) :: position) d
  sorted : (calls.map Call.position).Pairwise (· < ·)

theorem sorted_below (i : ℕ) (h : (calls.map Call.position).Pairwise (· < ·)) :
    ((calls.map (Call.below i)).map Call.position).Pairwise (· < ·) := by
  simpa [List.pairwise_map] using h

section covers

variable {tree : ContextTree ε α β} {Rel : α → α → β → Prop} {i : ℕ} {ref : α} {refs : List α}
  {ctxs : List (Option β)} {more : List (Call α β)}

theorem CoversFrom.skip (h : CoversFrom tree Rel (i + 1) refs ctxs more) :
    CoversFrom tree Rel i (ref :: refs) (none :: ctxs) more where
  sound := by
    intro call hcall
    obtain ⟨j, position, other, found, c, hposition, hother, hc, h⟩ := h.sound call hcall
    exact ⟨j + 1, position, other, found, c, by rw [hposition]; congr 1; omega, hother, hc, h⟩
  complete := by
    intro j position other found c d hother hc hreached
    cases j with
    | zero => cases hc
    | succ j =>
      have hmet := h.complete j position other found c d hother hc hreached
      rwa [show i + (j + 1) = i + 1 + j by omega]
  sorted := h.sorted

/-- A child that is called on, before the others, if it does not stop the rewrite. -/
theorem CoversFrom.cons {c : β} (hfirst : Covers tree Rel ref c calls)
    (h : CoversFrom tree Rel (i + 1) refs ctxs more ∨
      more = [] ∧ ∃ call ∈ calls, call.answer = .stop) :
    CoversFrom tree Rel i (ref :: refs) (some c :: ctxs) (calls.map (Call.below i) ++ more) where
  sound := by
    intro call hcall
    rcases List.mem_append.mp hcall with hcall | hcall
    · obtain ⟨call, hmem, rfl⟩ := List.mem_map.mp hcall
      obtain ⟨found, hreached, hrel⟩ := hfirst.sound call hmem
      exact ⟨0, call.position, ref, found, c, rfl, rfl, rfl, hreached, hrel⟩
    · rcases h with h | ⟨rfl, -⟩
      · obtain ⟨j, position, other, found, c, hposition, hother, hc, h⟩ := h.sound call hcall
        exact ⟨j + 1, position, other, found, c, by rw [hposition]; congr 1; omega, hother, hc, h⟩
      · cases hcall
  complete := by
    intro j position other found d e hother hc hreached
    cases j with
    | zero =>
      cases hother
      cases hc
      exact ((hfirst.complete position found e hreached).below i).mono
        (List.subset_append_left _ _)
    | succ j =>
      rcases h with h | ⟨-, call, hcall, hanswer⟩
      · have hmet := h.complete j position other found d e hother hc hreached
        rw [show i + (j + 1) = i + 1 + j by omega]
        exact hmet.mono (List.subset_append_right _ _)
      · refine .inr (.inr ⟨_, List.mem_append_left _ (List.mem_map_of_mem hcall), hanswer, ?_⟩)
        rw [Call.position_below, List.cons_lt_cons_iff]
        exact .inl (by omega)
  sorted := by
    rcases h with h | ⟨rfl, -⟩
    · rw [List.map_append, List.pairwise_append]
      refine ⟨sorted_below i hfirst.sorted, h.sorted, ?_⟩
      intro first hmem second hmore
      obtain ⟨call, hcall, rfl⟩ := List.mem_map.mp hmem
      obtain ⟨call, -, rfl⟩ := List.mem_map.mp hcall
      obtain ⟨other, hother, rfl⟩ := List.mem_map.mp hmore
      obtain ⟨j, position, -, -, -, hposition, -⟩ := h.sound other hother
      rw [hposition, Call.position_below, List.cons_lt_cons_iff]
      exact .inl (by omega)
    · rw [List.append_nil]
      exact sorted_below i hfirst.sorted

theorem coversFrom_nil : CoversFrom tree Rel i [] ctxs [] where
  sound := fun _ h => by cases h
  complete := fun _ _ _ _ _ _ h => by cases h
  sorted := .nil

theorem covers_entered {node : α} {ctx : β} (henters : tree.enters ref = true)
    (hctxs : tree.childContexts ref ctx = .ok ctxs) (hrel : Rel ref node ctx)
    (h : CoversFrom tree Rel 0 (tree.children ref) ctxs calls) :
    Covers tree Rel ref ctx (⟨[], node, ctx, .continues⟩ :: calls) where
  sound := by
    intro call hcall
    rcases List.mem_cons.mp hcall with rfl | hcall
    · exact ⟨ref, .here, hrel⟩
    · obtain ⟨j, position, child, found, c, hposition, hchild, hc, hreached, hrel⟩ :=
        h.sound call hcall
      rw [hposition, Nat.zero_add]
      exact ⟨found, .inside henters hctxs hc hchild hreached, hrel⟩
  complete := by
    intro position found c hreached
    cases hreached with
    | here => exact .inl ⟨_, List.mem_cons_self, rfl, rfl⟩
    | @inside _ child _ _ c d others j position _ hothers hc hchild hreached =>
      rw [hctxs] at hothers
      cases hothers
      have hmet := h.complete j position child found _ _ hchild hc hreached
      rw [Nat.zero_add] at hmet
      exact hmet.mono (List.subset_cons_self _ _)
  sorted := by
    rw [List.map_cons, List.pairwise_cons]
    refine ⟨?_, h.sorted⟩
    intro position hposition
    obtain ⟨call, hcall, rfl⟩ := List.mem_map.mp hposition
    obtain ⟨j, rest, -, -, -, hat, -⟩ := h.sound call hcall
    rw [hat]
    exact List.nil_lt_cons _ _

/-- A node whose children are not visited: the call skipped them or stopped, or it is not
entered. -/
theorem covers_single {node : α} {ctx : β} {answer : TreeNodeRecursion} (hrel : Rel ref node ctx)
    (hend : answer = .continues → tree.enters ref = false) :
    Covers tree Rel ref ctx [⟨[], node, ctx, answer⟩] where
  sound := List.forall_mem_singleton.mpr ⟨ref, .here, hrel⟩
  complete := by
    intro position found c hreached
    cases hreached with
    | here => exact .inl ⟨_, List.mem_singleton_self _, rfl, rfl⟩
    | @inside _ _ _ _ _ _ _ j rest henters _ _ _ _ =>
      cases answer with
      | continues =>
        rw [hend rfl] at henters
        cases henters
      | jump =>
        refine .inr (.inl ⟨_, List.mem_singleton_self _, rfl, List.nil_prefix, ?_⟩)
        exact (List.cons_ne_nil _ _).symm
      | stop => exact .inr (.inr ⟨_, List.mem_singleton_self _, rfl, List.nil_lt_cons _ _⟩)
  sorted := List.pairwise_singleton _ _

end covers

section covered

variable {tree : ContextTree ε α β} {Rel : α → α → β → Prop}
  {go : α → Option β → Transformed α → List (Call α β) → Prop} {i : ℕ} {children refs : List α}
  {ctxs : List (Option β)} {all : Transformed (List α)}

theorem Descended.length (h : Descended go i children ctxs all calls) :
    all.data.length = children.length := by
  induction h with
  | nil | stop => rfl
  | cons _ _ _ ih => simp only [List.length_cons, ih]

theorem Descended.unchanged
    (hgo : ∀ child c first calls, go child c first calls → first.transformed = false →
      first.data = child)
    (h : Descended go i children ctxs all calls) (hsame : all.transformed = false) :
    all.data = children := by
  induction h with
  | nil => rfl
  | stop hfirst _ => simp only [hgo _ _ _ _ hfirst hsame]
  | cons hfirst _ _ ih =>
    rw [Bool.or_eq_false_iff] at hsame
    simp only [hgo _ _ _ _ hfirst hsame.1, ih hsame.2]

/-- The calls of the children, when each child is linked to a node that its calls cover. -/
theorem Descended.coversFrom (Link : α → β → α → α → Prop)
    (hgo : ∀ child c first calls ref, Link child c first.data ref → go child (some c) first calls →
      Covers tree Rel ref c calls)
    (hskip : ∀ child first calls, go child none first calls → calls = [])
    (hstop : ∀ child c first calls, go child c first calls → first.tnr = .stop →
      ∃ call ∈ calls, call.answer = .stop)
    (h : Descended go i children ctxs all calls) (hctxs : ctxs.length = children.length)
    (hrefs : refs.length = children.length)
    (hlink : ∀ (j : ℕ) (child : α) (c : β) (out ref : α), children[j]? = some child →
      ctxs[j]? = some (some c) → all.data[j]? = some out → refs[j]? = some ref →
      Link child c out ref) : CoversFrom tree Rel i refs ctxs calls := by
  induction h generalizing refs with
  | nil =>
    rw [List.length_eq_zero_iff.mp hrefs]
    exact coversFrom_nil
  | @stop i child children ctxs first calls hfirst htnr =>
    obtain ⟨ref, refs, rfl⟩ := List.exists_cons_of_length_eq_add_one hrefs
    obtain ⟨c, ctxs, rfl⟩ := List.exists_cons_of_length_eq_add_one hctxs
    have hexists := hstop _ _ _ _ hfirst htnr
    cases c with
    | none =>
      obtain ⟨call, hcall, -⟩ := hexists
      rw [hskip _ _ _ hfirst] at hcall
      cases hcall
    | some c =>
      have hcovers := hgo _ _ _ _ ref (hlink 0 _ _ _ _ rfl rfl rfl rfl) hfirst
      rw [← List.append_nil (calls.map _)]
      exact .cons hcovers (.inr ⟨rfl, hexists⟩)
  | @cons i child children ctxs first calls more rest hfirst htnr _ ih =>
    obtain ⟨ref, refs, rfl⟩ := List.exists_cons_of_length_eq_add_one hrefs
    obtain ⟨c, ctxs, rfl⟩ := List.exists_cons_of_length_eq_add_one hctxs
    have hrest : CoversFrom tree Rel (i + 1) refs ctxs more :=
      ih (by simpa using hctxs) (by simpa using hrefs) fun j child c out ref hchild hc hout href =>
        hlink (j + 1) child c out ref hchild hc hout href
    cases c with
    | none =>
      rw [hskip _ _ _ hfirst]
      exact hrest.skip
    | some c =>
      exact .cons (hgo _ _ _ _ ref (hlink 0 _ _ _ _ rfl rfl rfl rfl) hfirst) (.inl hrest)

/-- An invariant that passes from a node to the children that get a context; where it holds,
rebuilding a node keeps the contexts that it hands out. -/
structure Lawful (tree : ContextTree ε α β) (Inv : α → β → Prop) : Prop where
  child : ∀ node ctx ctxs, Inv node ctx → tree.enters node = true →
    tree.childContexts node ctx = .ok ctxs → ∀ (i : ℕ) (child : α) (c : β),
    ctxs[i]? = some (some c) → (tree.children node)[i]? = some child → Inv child c
  rebuild : ∀ node ctx children out, Inv node ctx → tree.enters node = true →
    children.length = (tree.children node).length →
    tree.withNewChildren node children = .ok out → tree.children out = children ∧
      tree.enters out = true ∧ tree.childContexts out ctx = tree.childContexts node ctx
  keeps : ∀ node ctx ctxs children out, Inv node ctx → tree.enters node = true →
    tree.childContexts node ctx = .ok ctxs → children.length = (tree.children node).length →
    tree.withNewChildren node children = .ok out →
    (∀ (i : ℕ) (old new : α), (tree.children node)[i]? = some old → children[i]? = some new →
      new = old ∨ ∃ c, ctxs[i]? = some (some c) ∧ Inv new c) → Inv out ctx

/-- A rewrite that keeps the invariant and says so when it changes a node. -/
structure Keeps (f : α → β → σ → Except ε (Transformed α × σ)) (Inv : α → β → Prop) : Prop where
  honest : ∀ node ctx state result next, f node ctx state = .ok (result, next) →
    result.transformed = false → result.data = node
  inv : ∀ node ctx state result next, Inv node ctx → f node ctx state = .ok (result, next) →
    Inv result.data ctx

variable {f : α → β → σ → Except ε (Transformed α × σ)} {Inv : α → β → Prop} {depth : ℕ}
  {node : α} {ctx : β} {result : Transformed α}

theorem Ran.unchanged (hf : Keeps f Inv) {c : Option β} (h : tree.Ran f depth node c result calls)
    (hsame : result.transformed = false) : result.data = node := by
  cases depth with
  | zero => exact absurd h not_ran_zero
  | succ depth =>
    cases h.outcome with
    | skipped => rfl
    | stopped hresult | jumped hresult =>
      have hdata := hf.honest _ _ _ _ _ hresult hsame
      exact hdata
    | entered hresult _ _ _ _ hdata =>
      rw [Bool.or_eq_false_iff] at hsame
      rw [TreeNode.rebuild, hsame.1] at hdata
      cases hdata
      have hdata := hf.honest _ _ _ _ _ hresult hsame.2
      exact hdata

/-- The rewritten children keep the invariant, and those without a context stay what they are. -/
theorem Descended.inv
    (hgo : ∀ child c first calls, go child c first calls → (∀ d, c = some d → Inv child d) →
      first.data = child ∨ ∃ d, some c = some (some d) ∧ Inv first.data d)
    (h : Descended go i children ctxs all calls) (hctxs : ctxs.length = children.length)
    (hinv : ∀ (j : ℕ) (child : α) (c : β), ctxs[j]? = some (some c) → children[j]? = some child →
      Inv child c) (j : ℕ) (old new : α) (hold : children[j]? = some old)
    (hnew : all.data[j]? = some new) :
    new = old ∨ ∃ c, ctxs[j]? = some (some c) ∧ Inv new c := by
  induction h generalizing j with
  | nil => cases hold
  | @stop i child children ctxs first calls hfirst _ =>
    obtain ⟨c, ctxs, rfl⟩ := List.exists_cons_of_length_eq_add_one hctxs
    cases j with
    | zero =>
      cases hold
      cases hnew
      exact hgo _ _ _ _ hfirst fun d hd => hinv 0 _ d (congrArg some hd) rfl
    | succ j => exact .inl (Option.some.inj (hnew.symm.trans hold))
  | @cons i child children ctxs first calls more rest hfirst _ _ ih =>
    obtain ⟨c, ctxs, rfl⟩ := List.exists_cons_of_length_eq_add_one hctxs
    cases j with
    | zero =>
      cases hold
      cases hnew
      exact hgo _ _ _ _ hfirst fun d hd => hinv 0 _ d (congrArg some hd) rfl
    | succ j =>
      exact ih (by simpa using hctxs) (fun j child c => hinv (j + 1) child c) j hold hnew

theorem Ran.inv (htree : tree.Lawful Inv) (hf : Keeps f Inv) (hinv : Inv node ctx)
    (h : tree.Ran f depth node (some ctx) result calls) : Inv result.data ctx := by
  induction depth generalizing node ctx result calls with
  | zero => exact absurd h not_ran_zero
  | succ depth ih =>
    cases h.outcome with
    | stopped hfirst | jumped hfirst =>
      have hdata := hf.inv _ _ _ _ _ hinv hfirst
      exact hdata
    | entered hfirst _ henters hctxs hall hdata =>
      have hfirstInv := hf.inv _ _ _ _ _ hinv hfirst
      rw [TreeNode.rebuild] at hdata
      split at hdata
      · refine htree.keeps _ _ _ _ _ hfirstInv henters hctxs hall.length hdata ?_
        refine hall.inv ?_ (tree.length_childContexts _ _ _ hctxs)
          fun j child c => htree.child _ _ _ hfirstInv henters hctxs j child c
        intro child c first calls hran hchild
        cases c with
        | none => exact .inl hran.skipped.1
        | some c => exact .inr ⟨c, rfl, ih (hchild c rfl) hran⟩
      · cases hdata
        exact hfirstInv

/-- The rewrite is called on what the new tree reaches. -/
theorem Ran.covers (htree : tree.Lawful Inv) (hf : Keeps f Inv) (hinv : Inv node ctx)
    (h : tree.Ran f depth node (some ctx) result calls) :
    Covers tree (fun _ _ _ => True) result.data ctx calls := by
  induction depth generalizing node ctx result calls with
  | zero => exact absurd h not_ran_zero
  | succ depth ih =>
    cases h.outcome with
    | stopped => exact covers_single trivial fun h => by cases h
    | jumped _ _ hskip =>
      exact covers_single trivial fun h => hskip.resolve_left fun hne => hne h
    | @entered data _ _ _ _ ctxs all calls hfirst _ henters hctxs hall hdata =>
      have hfirstInv := hf.inv _ _ _ _ _ hinv hfirst
      have hrebuilt : tree.children data = all.data ∧ tree.enters data = true ∧
          tree.childContexts data ctx = .ok ctxs := by
        rw [TreeNode.rebuild] at hdata
        split at hdata
        · rw [← hctxs]
          exact htree.rebuild _ _ _ _ hfirstInv henters hall.length hdata
        · rename_i hsame
          cases hdata
          have hchildren := hall.unchanged (fun _ _ _ _ h => Ran.unchanged hf h)
            (Bool.eq_false_iff.mpr hsame)
          exact ⟨hchildren.symm, henters, hctxs⟩
      refine covers_entered hrebuilt.2.1 hrebuilt.2.2 trivial ?_
      rw [hrebuilt.1]
      refine hall.coversFrom (fun child c out ref => Inv child c ∧ ref = out) ?_
        (fun _ _ _ h => h.skipped.2) (fun _ _ _ _ h => h.exists_stop)
        (tree.length_childContexts _ _ _ hctxs) hall.length ?_
      · rintro child c first calls ref ⟨hchild, rfl⟩ hran
        exact ih hchild hran
      · intro j child c out ref hchild hc hout href
        rw [hout] at href
        exact ⟨htree.child _ _ _ hfirstInv henters hctxs j child c hc hchild,
          (Option.some.inj href).symm⟩

/-- A rewrite after which a node hands the same contexts to children related to those of `ref`. -/
def Follows (tree : ContextTree ε α β) (f : α → β → σ → Except ε (Transformed α × σ))
    (Rel : α → α → β → Prop) : Prop :=
  ∀ ref node ctx state result next, Rel ref node ctx → f node ctx state = .ok (result, next) →
    result.tnr = .continues → tree.enters ref = tree.enters result.data ∧
      ∀ ctxs, tree.enters result.data = true → tree.childContexts result.data ctx = .ok ctxs →
        tree.childContexts ref ctx = .ok ctxs ∧ ∀ (i : ℕ) (child other : α) (c : β),
          ctxs[i]? = some (some c) → (tree.children result.data)[i]? = some child →
          (tree.children ref)[i]? = some other → Rel other child c

/-- A rewrite that follows a tree is called on what that tree reaches. -/
theorem Ran.follows (hf : tree.Follows f Rel) {ref : α} (hrel : Rel ref node ctx)
    (h : tree.Ran f depth node (some ctx) result calls) : Covers tree Rel ref ctx calls := by
  induction depth generalizing ref node ctx result calls with
  | zero => exact absurd h not_ran_zero
  | succ depth ih =>
    cases h.outcome with
    | stopped => exact covers_single hrel fun h => by cases h
    | jumped hfirst _ hskip =>
      refine covers_single hrel fun htnr => ?_
      rw [(hf _ _ _ _ _ _ hrel hfirst htnr).1]
      exact hskip.resolve_left fun hne => hne htnr
    | @entered data _ _ _ _ ctxs all calls hfirst htnr henters hctxs hall hdata =>
      obtain ⟨hsame, hstep⟩ := hf _ _ _ _ _ _ hrel hfirst htnr
      obtain ⟨hrefCtxs, hchildren⟩ := hstep ctxs henters hctxs
      have hlength := tree.length_childContexts _ _ _ hctxs
      have hrefLength := tree.length_childContexts _ _ _ hrefCtxs
      refine covers_entered (hsame.trans henters) hrefCtxs hrel ?_
      refine hall.coversFrom (fun child c _ ref => Rel ref child c) ?_
        (fun _ _ _ h => h.skipped.2) (fun _ _ _ _ h => h.exists_stop) hlength
        (hrefLength.symm.trans hlength) ?_
      · intro child c first calls ref hrel hran
        exact ih hrel hran
      · intro j child c out ref hchild hc _ href
        exact hchildren j child ref c hc hchild href

end covered

end ContextTree

end DatafusionDistributed.Library
