import Mathlib.Data.Int.CardIntervalMod
import Mathlib.Data.Set.Card
import DatafusionDistributed.Events.Defaults.Routing

/-!
# The default routing of a stage

Without another handler, the tasks of a stage rotate through the workers from an offset that the
generator yields for the query and the stage. Whatever the offset is, the tasks are spread evenly.
-/

namespace DatafusionDistributed

/-- The bytes of the query, the stage in little endian, and zeros. -/
def stageSeed (queryId : Fin 16 → UInt8) (stageId : ℕ) : List UInt8 :=
  List.ofFn queryId ++ (List.range 8).map (fun i => UInt8.ofNat (stageId / 256 ^ i)) ++
    List.replicate 8 0

/-- The position of a pick. No list is so long that the sum overflows. -/
def stageIndex (start len taskNumber : ℕ) : ℕ :=
  (start + taskNumber % len) % len

/-- What the handler reads of a `RouteTaskEvent`; a dial is told which attempt it is. -/
structure RouteTaskEvent (R : Type) where
  queryId : Fin 16 → UInt8
  stageId : ℕ
  taskNumber : ℕ
  getUrls : Except DialError (List String)
  maxRetries : Except DialError (Fin (2 ^ 64))
  dial : ℕ → String → Except DialError R

theorem dialWithFailover_of_ok {R : Type} {dial : ℕ → String → Except DialError R} {url : String}
    {response : R} (h : dial 0 url = .ok response) (maxRetries : Fin (2 ^ 64))
    (shuffled : List String) : dialWithFailover dial maxRetries url shuffled = .ok response := by
  obtain ⟨left, hleft⟩ : ∃ left, min ((maxRetries : ℕ) + 1) (2 ^ 64 - 1) = left + 1 :=
    ⟨min (maxRetries : ℕ) (2 ^ 64 - 2), by omega⟩
  rw [dialWithFailover, hleft, failoverLoop, h]

namespace RouteTaskEvent

variable {α R : Type} (randomRange : List UInt8 → ℕ → ℕ) (shuffle : List String → List String)
  (self : RouteTaskEvent R)

def index (len : ℕ) : ℕ :=
  stageIndex (randomRange (stageSeed self.queryId self.stageId) len) len self.taskNumber

def stageContiguousRandOffset (list : List α) : Option α :=
  if list.isEmpty then none else list[self.index randomRange list.length]?

/-- `RandomRouteTaskHandler::handle`. -/
def randomRoute : Option (Except DialError R) :=
  match self.getUrls with
  | .error err => some (.error err)
  | .ok urls =>
    match self.stageContiguousRandOffset randomRange urls with
    | none => none
    | some url =>
      match self.maxRetries with
      | .error err => some (.error err)
      | .ok maxRetries =>
        some (dialWithFailover self.dial maxRetries url (shuffle (retainNew [url] urls)))

/-- The handler ends with the answer of the first dial, to the URL at a position. -/
def GivenTo (p : ℕ) : Prop :=
  ∃ urls url response, self.getUrls = .ok urls ∧ self.index randomRange urls.length = p ∧
    urls[p]? = some url ∧ self.dial 0 url = .ok response ∧
    self.randomRoute randomRange shuffle = some (.ok response)

variable {randomRange shuffle self} {urls : List String} {p : ℕ}

/-- A first dial that succeeds gives the task to the position of its pick. -/
theorem givenTo_iff (hurls : self.getUrls = .ok urls) {maxRetries : Fin (2 ^ 64)}
    (hretries : self.maxRetries = .ok maxRetries) (hne : urls ≠ [])
    (hfirst : ∀ url, self.stageContiguousRandOffset randomRange urls = some url →
      ∃ response, self.dial 0 url = .ok response) :
    self.GivenTo randomRange shuffle p ↔ self.index randomRange urls.length = p := by
  constructor
  · rintro ⟨urls', url, response, hurls', hindex, -⟩
    cases hurls.symm.trans hurls'
    exact hindex
  · rintro rfl
    have hlt : self.index randomRange urls.length < urls.length :=
      Nat.mod_lt _ (List.length_pos_of_ne_nil hne)
    have hget := List.getElem?_eq_getElem hlt
    have hpick : self.stageContiguousRandOffset randomRange urls =
        some urls[self.index randomRange urls.length] := by
      simp [stageContiguousRandOffset, hne]
    obtain ⟨response, hdial⟩ := hfirst _ hpick
    refine ⟨urls, _, response, hurls, rfl, hget, hdial, ?_⟩
    simp [randomRoute, hurls, hpick, hretries, dialWithFailover_of_ok hdial]

end RouteTaskEvent

section Balance

variable {start len p t a b : ℕ}

/-- A position is picked by the tasks of one residue class. -/
theorem exists_stageIndex_eq_iff (start : ℕ) (hp : p < len) :
    ∃ v, ∀ t, stageIndex start len t = p ↔ t ≡ v [MOD len] := by
  have hv : start + (p + (len - start % len)) ≡ p [MOD len] := by
    have hsplit := Nat.div_add_mod start len
    have hmod := Nat.mod_lt start (Nat.zero_lt_of_lt hp)
    have hsum : start + (p + (len - start % len)) = p + len * (start / len + 1) := by
      rw [Nat.mul_add]
      omega
    rw [hsum, Nat.ModEq, Nat.add_mul_mod_self_left]
  refine ⟨p + (len - start % len), fun t => ?_⟩
  have hindex : stageIndex start len t = p ↔ start + t ≡ p [MOD len] := by
    rw [stageIndex, Nat.add_mod_mod, Nat.ModEq, Nat.mod_eq_of_lt hp]
  rw [hindex]
  constructor
  · intro h
    exact Nat.ModEq.add_left_cancel' start (h.trans hv.symm)
  · intro h
    exact (h.add_left start).trans hv

theorem stageIndex_injOn (ha : a < len) (hb : b < len)
    (h : stageIndex start len (t + a) = stageIndex start len (t + b)) : a = b := by
  have hlt : stageIndex start len (t + a) < len := Nat.mod_lt _ (Nat.zero_lt_of_lt ha)
  obtain ⟨v, hv⟩ := exists_stageIndex_eq_iff start hlt
  have hmod : t + a ≡ t + b [MOD len] := ((hv _).mp rfl).trans ((hv _).mp h.symm).symm
  exact Nat.ModEq.eq_of_lt_of_lt (Nat.ModEq.add_left_cancel' t hmod) ha hb

theorem count_stageIndex (start tasks : ℕ) (hp : p < len) :
    Nat.count (stageIndex start len · = p) tasks = tasks / len ∨
      Nat.count (stageIndex start len · = p) tasks = (tasks + len - 1) / len := by
  obtain ⟨v, hv⟩ := exists_stageIndex_eq_iff start hp
  have hlen := Nat.zero_lt_of_lt hp
  simp only [hv, Nat.count_modEq_card tasks hlen]
  split
  · right
    have hsplit := Nat.div_add_mod' tasks len
    have hmod := Nat.mod_lt tasks hlen
    symm
    apply Nat.div_eq_of_lt_le <;> simp only [Nat.add_mul, Nat.one_mul] <;> omega
  · exact Or.inl rfl

/-- For every stage, the workers are picked equally often up to one task, and as many tasks in
succession as there are workers pick different ones. If every first dial succeeds, no position is
given two tasks more than another. -/
theorem stage_routing_balanced {R : Type} (randomRange : List UInt8 → ℕ → ℕ)
    (shuffle : ℕ → List String → List String) (queryId : Fin 16 → UInt8) (stageId : ℕ)
    (urls : List String) (hurls : urls ≠ []) (tasks : ℕ) (maxRetries : ℕ → Fin (2 ^ 64))
    (dial : ℕ → ℕ → String → Except DialError R) :
    let ev t : RouteTaskEvent R := ⟨queryId, stageId, t, .ok urls, .ok (maxRetries t), dial t⟩
    let index t := (ev t).index randomRange urls.length
    (∀ t, index t < urls.length ∧
      (ev t).stageContiguousRandOffset randomRange urls = urls[index t]?) ∧
    (∀ p < urls.length, Nat.count (index · = p) tasks = tasks / urls.length ∨
      Nat.count (index · = p) tasks = (tasks + urls.length - 1) / urls.length) ∧
    (∀ t, ∀ a < urls.length, ∀ b < urls.length, index (t + a) = index (t + b) → a = b) ∧
    ((∀ t < tasks, ∀ url, (ev t).stageContiguousRandOffset randomRange urls = some url →
        ∃ response, dial t 0 url = .ok response) →
      (∀ t < tasks, (ev t).GivenTo randomRange (shuffle t) (index t)) ∧
      ∀ p < urls.length, ∀ q < urls.length,
        {t | t < tasks ∧ (ev t).GivenTo randomRange (shuffle t) p}.ncard ≤
          {t | t < tasks ∧ (ev t).GivenTo randomRange (shuffle t) q}.ncard + 1) := by
  intro ev index
  have hlen := List.length_pos_of_ne_nil hurls
  have hbalance : ∀ p < urls.length, Nat.count (index · = p) tasks = tasks / urls.length ∨
      Nat.count (index · = p) tasks = (tasks + urls.length - 1) / urls.length :=
    fun p hp => count_stageIndex (randomRange (stageSeed queryId stageId) urls.length) tasks hp
  refine ⟨fun t => ⟨Nat.mod_lt _ hlen, ?_⟩, hbalance,
    fun t a ha b hb h => stageIndex_injOn ha hb h, fun hfirst => ?_⟩
  · simp [RouteTaskEvent.stageContiguousRandOffset, hurls, index]
  have hgiven : ∀ t < tasks, ∀ p, (ev t).GivenTo randomRange (shuffle t) p ↔ index t = p := by
    intro t ht p
    exact RouteTaskEvent.givenTo_iff rfl rfl hurls (hfirst t ht)
  have hcount : ∀ p, {t | t < tasks ∧ (ev t).GivenTo randomRange (shuffle t) p}.ncard =
      Nat.count (index · = p) tasks := by
    intro p
    rw [Nat.count_eq_card_filter_range, ← Set.ncard_coe_finset]
    congr 1
    ext t
    simp +contextual [hgiven]
  refine ⟨fun t ht => (hgiven t ht _).mpr rfl, fun p hp q hq => ?_⟩
  have hfloor : tasks / urls.length ≤ (tasks + urls.length - 1) / urls.length :=
    Nat.div_le_div_right (by omega)
  have hceil : (tasks + urls.length - 1) / urls.length ≤ tasks / urls.length + 1 := by
    rw [← Nat.add_div_right _ hlen]
    exact Nat.div_le_div_right (by omega)
  have hp := hbalance p hp
  have hq := hbalance q hq
  rw [hcount, hcount]
  omega

/-- Two workers that answer, and three tasks. -/
theorem stage_routing_balanced_of_two :
    let ev t : RouteTaskEvent Unit :=
      ⟨fun _ => 0, 7, t, .ok ["http://a", "http://b"], .ok 2, fun _ _ => .ok ()⟩
    {t | t < 3 ∧ (ev t).GivenTo (fun _ _ => 1) id 1}.ncard ≤
      {t | t < 3 ∧ (ev t).GivenTo (fun _ _ => 1) id 0}.ncard + 1 :=
  ((stage_routing_balanced (fun _ _ => 1) (fun _ => id) (fun _ => 0) 7 ["http://a", "http://b"]
    (by simp) 3 (fun _ => 2) fun _ _ _ => .ok ()).2.2.2 fun _ _ _ _ => ⟨(), rfl⟩).2
      1 (by simp) 0 (by simp)

end Balance

end DatafusionDistributed
