import DatafusionDistributed.Config.PropagatedHeaders

/-!
# Passthrough headers

A user may have headers forwarded to the workers unchanged. Names that start with the reserved text
are refused. The coordinator sends the headers of its config extensions and the forwarded ones
together, and the workers set their extensions from all of them.

A worker also reads names that do not start with the reserved text. `passthrough_isolated_iff` says
what a forwarded header may be called so that the extensions of the workers never depend on it: its
name must not be the name of an option.
-/

namespace DatafusionDistributed

open Library

/-- Names that only the headers of config extensions may have. -/
def HeaderName.isReserved (name : HeaderName) : Bool :=
  decide (flightMetadataConfigPrefix <+: name.text)

def setPassthroughHeaders (cfg : SessionConfig) (headers : HeaderMap) : Result SessionConfig :=
  match headers.keys.find? HeaderName.isReserved with
  | some name =>
    let name := String.ofList name.text
    let reserved := String.ofList flightMetadataConfigPrefix
    .error (.configuration
      (s!"Passthrough header '{name}' uses reserved prefix '{reserved}'. " ++
        "This prefix is reserved for internal config extension propagation."))
  | none => .ok { cfg with passthroughHeaders := headers }

/-- `HeaderMap::extend`: the values of a name that both maps have are those of `other`. -/
def HeaderMap.extend (self other : HeaderMap) : HeaderMap :=
  other.entries.foldl (fun headers entry => headers.insert entry.1 entry.2) self

section Workers

variable [Http]

/-- The headers that `init_bidirectional_stream` sends. -/
def initHeaders (cfg : SessionConfig) : Result HeaderMap := do
  let headers ← getConfigExtensionPropagationHeaders cfg
  return headers.extend cfg.passthroughHeaders

/-- The session of a worker that sets the extension types from the headers, in the order in which
it visits them. -/
def workerSession (types : List ConfigExtension) (base : SessionConfig)
    (headers : List (HeaderName × HeaderValue)) : Result SessionConfig :=
  types.foldlM (fun cfg T => setDistributedOptionExtensionFromHeaders T cfg headers) base

end Workers

/-! ## Merged headers -/

section Merged

variable {headers passthrough : HeaderMap} {name : HeaderName} {cfg coordinator : SessionConfig}

theorem setPassthroughHeaders_ok_iff :
    setPassthroughHeaders cfg passthrough = .ok coordinator ↔
      (∀ name ∈ passthrough, name.isReserved = false) ∧
        coordinator = { cfg with passthroughHeaders := passthrough } := by
  unfold setPassthroughHeaders
  cases hfind : passthrough.keys.find? HeaderName.isReserved with
  | some name =>
    have hreserved := List.find?_some hfind
    have hmem : name ∈ passthrough := AList.mem_keys.mpr (List.mem_of_find?_eq_some hfind)
    exact iff_of_false (by simp) fun h => by simp [h.1 name hmem] at hreserved
  | none =>
    rw [List.find?_eq_none] at hfind
    have hall : ∀ name ∈ passthrough, name.isReserved = false := by
      intro name hname
      simpa using hfind name (AList.mem_keys.mp hname)
    simpa [@eq_comm _ coordinator] using fun _ => hall

theorem isReserved_of_getHeaders [Http]
    (h : getConfigExtensionPropagationHeaders cfg = .ok headers) :
    ∀ name ∈ headers, name.isReserved = true := by
  have hentry : ∀ (extension : ConfigExtension × Options) (headers headers' : HeaderMap)
      (key : List Char), (∀ name ∈ headers, name.isReserved = true) →
      insertEntry extension headers key = .ok headers' →
      ∀ name ∈ headers', name.isReserved = true := by
    intro extension headers headers' key hheaders hinsert name hname
    rw [(insertEntry_ok hinsert).2] at hname
    cases hvalue : extension.2 key with
    | none =>
      rw [hvalue] at hname
      exact hheaders name hname
    | some value =>
      rw [hvalue, Option.elim_some, AList.mem_insert] at hname
      rcases hname with rfl | hname
      · exact decide_eq_true (List.prefix_append _ _)
      · exact hheaders name hname
  unfold getConfigExtensionPropagationHeaders at h
  split at h
  · cases h
    simp
  · refine foldlM_invariant ?_ (by simp) h
    intro headers extension _ headers' hheaders hstep
    split at hstep
    · exact foldlM_invariant (fun headers key _ headers' => hentry extension headers headers' key)
        hheaders hstep
    · cases hstep
      exact hheaders

theorem HeaderMap.mem_extend : name ∈ headers.extend passthrough ↔
    name ∈ headers ∨ name ∈ passthrough := by
  have hfold : ∀ (entries : List (Sigma fun _ : HeaderName => List HeaderValue))
      (headers : HeaderMap), name ∈ entries.foldl (fun headers entry =>
        headers.insert entry.1 entry.2) headers ↔
          name ∈ headers ∨ name ∈ entries.map Sigma.fst := by
    intro entries
    induction entries with
    | nil => simp
    | cons entry entries ih =>
      intro headers
      rw [List.foldl_cons, ih, AList.mem_insert, List.map_cons, List.mem_cons]
      tauto
  exact hfold passthrough.entries headers

/-- A header of the merged map has a reserved name or a forwarded one. -/
theorem isReserved_or_mem_of_mem_iter [Http] {header : HeaderName × HeaderValue}
    (h : getConfigExtensionPropagationHeaders cfg = .ok headers)
    (hheader : header ∈ (headers.extend passthrough).iter) :
    header.1.isReserved = true ∨ header.1 ∈ passthrough := by
  obtain ⟨values, hlookup, -⟩ := HeaderMap.mem_iter.mp hheader
  have hmem : header.1 ∈ headers.extend passthrough :=
    HashMap.mem_iff_exists_lookup.mpr ⟨values, hlookup⟩
  rw [HeaderMap.mem_extend] at hmem
  exact hmem.imp_left (isReserved_of_getHeaders h header.1)

end Merged

/-! ## Names of options -/

/-- The name is that of an option: the name space, once or more often, and a key that does not start
with the name space again. -/
def ConfigExtension.Names (T : ConfigExtension) (name : HeaderName) (key : List Char) : Prop :=
  key ∈ T.keys ∧ ¬ T.configPrefix ++ ['.'] <+: key ∧
    ∃ count, name.text = copies (count + 1) (T.configPrefix ++ ['.']) ++ key

section Names

variable {T : ConfigExtension} {name : HeaderName} {key : List Char}

theorem ConfigExtension.readsAs_of_not_isReserved (h : name.isReserved = false) :
    T.readsAs name = some key ↔ T.Names name key := by
  rw [readsAs_eq_some_iff, trimStartMatches_of_not_isPrefix (of_decide_eq_false h), Names]

end Names

/-! ## Forwarded headers that set nothing -/

section Isolated

variable [Http] {types : List ConfigExtension} {base cfg : SessionConfig} {T : ConfigExtension}
  {headers headers' : List (HeaderName × HeaderValue)}

theorem foldlM_setFromHeader_filter {keep : HeaderName × HeaderValue → Bool} {result : Options}
    (h : ∀ header ∈ headers, keep header = false → T.readsAs header.1 = none) :
    (headers.filter keep).foldlM T.setFromHeader result =
      headers.foldlM T.setFromHeader result := by
  induction headers generalizing result with
  | nil => rfl
  | cons header headers ih =>
    rw [List.forall_mem_cons] at h
    rw [List.filter_cons]
    split
    · rw [List.foldlM_cons, List.foldlM_cons]
      cases T.setFromHeader result header with
      | error e => rfl
      | ok next => exact ih h.2
    · rename_i hkeep
      rw [List.foldlM_cons, ConfigExtension.setFromHeader_eq, h.1 (by simpa using hkeep)]
      exact ih h.2

theorem workerSession_congr
    (h : ∀ T ∈ types, ∀ result, headers.foldlM T.setFromHeader result =
      headers'.foldlM T.setFromHeader result) :
    workerSession types base headers = workerSession types base headers' := by
  unfold workerSession
  induction types generalizing base with
  | nil => rfl
  | cons T types ih =>
    rw [List.forall_mem_cons] at h
    have hstep : setDistributedOptionExtensionFromHeaders T base headers =
        setDistributedOptionExtensionFromHeaders T base headers' := by
      unfold setDistributedOptionExtensionFromHeaders
      dsimp only
      rw [h.1]
    rw [List.foldlM_cons, List.foldlM_cons, hstep]
    cases setDistributedOptionExtensionFromHeaders T base headers' with
    | error e => rfl
    | ok next => exact ih h.2

/-- Whatever headers with names of `names` a user forwards, the workers end up with the same
sessions, if they visit the headers of the coordinator's extensions in the same order. -/
def PassthroughIsolated (types : List ConfigExtension) (base cfg : SessionConfig)
    (names : HeaderName → Prop) : Prop :=
  ∀ passthrough passthrough' : HeaderMap,
    (∀ name ∈ passthrough, names name) → (∀ name ∈ passthrough', names name) →
    ∀ coordinator coordinator', setPassthroughHeaders cfg passthrough = .ok coordinator →
      setPassthroughHeaders cfg passthrough' = .ok coordinator' →
    ∀ headers headers', initHeaders coordinator = .ok headers →
      initHeaders coordinator' = .ok headers' →
    ∀ order order', order.Perm headers.iter → order'.Perm headers'.iter →
      (order.filter fun header => header.1.isReserved) =
        (order'.filter fun header => header.1.isReserved) →
      workerSession types base order = workerSession types base order'

variable {names : HeaderName → Prop} {name : HeaderName}

theorem PassthroughIsolated.of_not_names
    (h : ∀ name, names name → name.isReserved = false → ∀ T ∈ types, ∀ key, ¬ T.Names name key) :
    PassthroughIsolated types base cfg names := by
  -- In either run the forwarded headers are read as nothing, so the reserved ones decide.
  have hreserved : ∀ (passthrough : HeaderMap), (∀ name ∈ passthrough, names name) →
      ∀ coordinator, setPassthroughHeaders cfg passthrough = .ok coordinator →
      ∀ headers, initHeaders coordinator = .ok headers → ∀ order, order.Perm headers.iter →
      workerSession types base (order.filter fun header => header.1.isReserved) =
        workerSession types base order := by
    intro passthrough hnames coordinator hset headers hheaders order horder
    obtain ⟨-, rfl⟩ := setPassthroughHeaders_ok_iff.mp hset
    obtain ⟨own, hown, hextend⟩ := bind_ok_iff.mp hheaders
    cases hextend
    apply workerSession_congr
    intro T hT result
    apply foldlM_setFromHeader_filter
    intro header hheader hnot
    rw [horder.mem_iff] at hheader
    rcases isReserved_or_mem_of_mem_iter hown hheader with hres | hmem
    · simp [hres] at hnot
    · rw [Option.eq_none_iff_forall_ne_some]
      intro key hread
      exact h header.1 (hnames _ hmem) hnot T hT key
        ((ConfigExtension.readsAs_of_not_isReserved hnot).mp hread)
  intro passthrough passthrough' hnames hnames' coordinator coordinator' hset hset' headers headers'
    hheaders hheaders' order order' horder horder' hsame
  rw [← hreserved passthrough hnames coordinator hset headers hheaders order horder, hsame,
    hreserved passthrough' hnames' coordinator' hset' headers' hheaders' order' horder']

omit [Http] in
/-- One forwarded header joins those of the coordinator's extensions. -/
theorem iter_extend_singleton {own : HeaderMap} (value : HeaderValue) (hname : name ∉ own) :
    (own.extend ((∅ : HeaderMap).insert name [value])).iter.Perm (own.iter ++ [(name, value)]) := by
  have hentries : (own.extend ((∅ : HeaderMap).insert name [value])).entries =
      ⟨name, [value]⟩ :: own.entries :=
    AList.entries_insert_of_notMem hname
  unfold HeaderMap.iter
  rw [hentries]
  exact List.perm_append_comm

omit [Http] in
theorem names_singleton {values : List HeaderValue} (h : names name) :
    ∀ other ∈ (∅ : HeaderMap).insert name values, names other := by
  intro other hother
  rw [AList.mem_insert, or_iff_left (AList.notMem_empty other)] at hother
  exact hother ▸ h

variable {own : HeaderMap} {order : List (HeaderName × HeaderValue)} {worker : SessionConfig}
  (hown : getConfigExtensionPropagationHeaders cfg = .ok own) (horder : order.Perm own.iter)
  (hworker : workerSession types base order = .ok worker)

include hown horder hworker

/-- If the session does not depend on a forwarded header, it is what the worker has with the
header. -/
theorem PassthroughIsolated.workerSession_append (h : PassthroughIsolated types base cfg names)
    (hname : names name) (hreserved : name.isReserved = false) (value : HeaderValue) :
    workerSession types base (order ++ [(name, value)]) = .ok worker := by
  have hnotMem : name ∉ own := by
    intro hmem
    simp [isReserved_of_getHeaders hown name hmem] at hreserved
  have haccepted : ∀ other ∈ (∅ : HeaderMap).insert name [value], other.isReserved = false :=
    names_singleton hreserved
  rw [← hworker]
  refine (h ∅ ((∅ : HeaderMap).insert name [value]) (fun other hother =>
    absurd hother (AList.notMem_empty other)) (names_singleton hname) _ _
    (setPassthroughHeaders_ok_iff.mpr ⟨fun other hother =>
      absurd hother (AList.notMem_empty other), rfl⟩)
    (setPassthroughHeaders_ok_iff.mpr ⟨haccepted, rfl⟩) (own.extend ∅)
    (own.extend ((∅ : HeaderMap).insert name [value]))
    (bind_ok_iff.mpr ⟨own, hown, rfl⟩) (bind_ok_iff.mpr ⟨own, hown, rfl⟩) order
    (order ++ [(name, value)]) horder ?_ ?_).symm
  · exact (horder.append_right _).trans (iter_extend_singleton value hnotMem).symm
  · rw [List.filter_append, List.filter_singleton, hreserved]
    simp

theorem PassthroughIsolated.not_names (h : PassthroughIsolated types base cfg names)
    (hdistinct : (types.map ConfigExtension.configPrefix).Nodup) (htwo : HaveTwoValues types)
    (hname : names name) (hreserved : name.isReserved = false)
    (hT : T ∈ types) (key : List Char) : ¬ T.Names name key := by
  intro hnames
  have hread := (ConfigExtension.readsAs_of_not_isReserved hreserved).mpr hnames
  obtain ⟨value, value', hne, hshows, hshows'⟩ := htwo T hT key hnames.1
  -- With either value forwarded, the worker shows it.
  have hshown : ∀ value, T.Shows key value →
      ∀ options, worker.getExtension T = some options → options key = some value := by
    intro value hvalue options hoptions
    have hsession := h.workerSession_append hown horder hworker hname hreserved ⟨value⟩
    obtain ⟨options', hloop, hget⟩ := (getExtension_of_foldlM hdistinct hsession).1 T hT
    rw [hoptions] at hget
    cases hget
    obtain ⟨shown, hset, hlast⟩ := foldlM_setFromHeader_last hloop hread hvalue.read
    rw [hvalue.set] at hset
    cases hset
    exact hlast
  obtain ⟨options, -, hoptions⟩ := (getExtension_of_foldlM hdistinct hworker).1 T hT
  have hsame := (hshown value hshows options hoptions).symm.trans
    (hshown value' hshows' options hoptions)
  exact hne (Option.some.inj hsame)

/-- For a coordinator whose configuration the workers take over, the sessions of the workers are
independent of what is forwarded exactly if no forwarded header that the coordinator accepts has
the name of an option that the workers set. -/
theorem passthrough_isolated_iff (hdistinct : (types.map ConfigExtension.configPrefix).Nodup)
    (htwo : HaveTwoValues types) :
    PassthroughIsolated types base cfg names ↔
      ∀ name, names name → name.isReserved = false → ∀ T ∈ types, ∀ key, ¬ T.Names name key :=
  ⟨fun h _ hname hreserved _ hT key =>
      h.not_names hown horder hworker hdistinct htwo hname hreserved hT key,
    PassthroughIsolated.of_not_names⟩

end Isolated

/-! ## A forwarded option -/

/-- The option that tells workers whether to collect metrics, and a coordinator that has set it. -/
def metricsOption : ConfigExtension :=
  textExtension "distributed" ["collect_metrics"]

def metricsCoordinator : SessionConfig :=
  .registered [metricsOption] fun _ _ => some "true".toList

/-- The name of a header that is not a reserved one. -/
def forwardedName (text : String) (h : asciiLowercase text.toList = text.toList) : HeaderName :=
  ⟨text.toList, h⟩

/-- Forwarding a header `distributed.collect_metrics` is accepted and turns the option off. -/
theorem forwarded_header_sets_option :
    ∃ coordinator headers worker options,
      setPassthroughHeaders metricsCoordinator ((∅ : HeaderMap).insert
          (forwardedName "distributed.collect_metrics" (by decide)) [⟨"false".toList⟩]) =
        .ok coordinator ∧
      initHeaders coordinator = .ok headers ∧
      ∃ order, order.Perm headers.iter ∧ workerSession [metricsOption] {} order = .ok worker ∧
      worker.getExtension metricsOption = some options ∧
      options "collect_metrics".toList = some "false".toList ∧
      ¬ PassthroughIsolated [metricsOption] {} metricsCoordinator fun _ => True := by
  refine ⟨_, _, _, _, rfl, rfl, _, List.reverse_perm _, rfl, rfl, rfl, ?_⟩
  intro h
  have hnames : metricsOption.Names (forwardedName "distributed.collect_metrics" (by decide))
      "collect_metrics".toList :=
    ⟨by decide, by decide, 0, rfl⟩
  refine h.not_names rfl (List.Perm.refl _) rfl (by decide) ?_ trivial ?_ List.mem_cons_self _
    hnames
  · intro T hT key _
    rw [List.mem_singleton.mp hT]
    exact textExtension_hasTwoValues _ _ key
  · decide

/-- Forwarding a request id has no influence on the workers' options. -/
theorem request_id_is_isolated :
    PassthroughIsolated [metricsOption] {} metricsCoordinator
      fun name => name = forwardedName "x-request-id" (by decide) := by
  refine (passthrough_isolated_iff rfl (List.Perm.refl _) rfl (by decide) ?_).mpr ?_
  · intro T hT key _
    rw [List.mem_singleton.mp hT]
    exact textExtension_hasTwoValues _ _ key
  · rintro name rfl - T hT key ⟨-, -, count, htext⟩
    rw [List.mem_singleton.mp hT] at htext
    have hfirst : metricsOption.configPrefix ++ ['.'] <+: "x-request-id".toList := ⟨_, htext.symm⟩
    exact absurd hfirst (by decide)

end DatafusionDistributed
