import DatafusionDistributed.Config.ConfigExtensionExt

/-!
# What is sent and what it sets

The coordinator sends its options one after the other; of two options with one header name the
later one stays (`lookup_foldl_insertOption`). A worker sets an option from every header that it
reads as the option, in the order in which it visits the headers. Setting one extension type
concerns no other (`getExtension_of_foldlM`).
-/

namespace DatafusionDistributed

open Library

/-! ## The session of the coordinator -/

/-- The session of a coordinator that registered the extension types, `values` being what they show
for the options of each name space. -/
def SessionConfig.registered (registry : List ConfigExtension) (values : List Char → Options) :
    SessionConfig :=
  registry.foldl (fun cfg T => setDistributedOptionExtension cfg T (values T.configPrefix)) {}

/-- All options, in the order in which they are sent. -/
def registeredOptions (registry : List ConfigExtension) : List (ConfigExtension × List Char) :=
  registry.flatMap fun T => T.keys.map fun key => (T, key)

section Sessions

variable {registry : List ConfigExtension} {T : ConfigExtension} {key : List Char}
  {header : HeaderName × HeaderValue}

theorem mem_registeredOptions :
    (T, key) ∈ registeredOptions registry ↔ T ∈ registry ∧ key ∈ T.keys := by
  simp [registeredOptions]

theorem SessionConfig.insertExtension_of_fresh {cfg : SessionConfig}
    (h : ∀ entry ∈ cfg.extensions, entry.1.configPrefix ≠ T.configPrefix) (options : Options) :
    cfg.insertExtension T options =
      { cfg with extensions := cfg.extensions ++ [(T, options)] } := by
  rw [insertExtension, List.filter_eq_self.mpr fun entry hentry => decide_eq_true (h entry hentry)]

theorem foldl_setDistributedOptionExtension {values : List Char → Options} {cfg : SessionConfig}
    (hdistinct : (registry.map ConfigExtension.configPrefix).Nodup)
    (hfresh : ∀ entry ∈ cfg.extensions, ∀ T ∈ registry,
      entry.1.configPrefix ≠ T.configPrefix) :
    registry.foldl (fun cfg T => setDistributedOptionExtension cfg T (values T.configPrefix)) cfg =
      { cfg with
        extensions := cfg.extensions ++ registry.map fun T => (T, values T.configPrefix)
        prefixes := cfg.prefixes ++ registry.map ConfigExtension.configPrefix } := by
  induction registry generalizing cfg with
  | nil => simp
  | cons T registry ih =>
    rw [List.map_cons, List.nodup_cons] at hdistinct
    rw [List.foldl_cons, setDistributedOptionExtension, SessionConfig.insertExtension_of_fresh
      fun entry hentry => hfresh entry hentry T List.mem_cons_self, ih hdistinct.2]
    · simp
    · refine List.forall_mem_append.mpr ⟨?_, List.forall_mem_singleton.mpr ?_⟩
      · exact fun entry hentry T' hT' => hfresh entry hentry T' (List.mem_cons_of_mem _ hT')
      · exact fun T' hT' heq => hdistinct.1 (heq ▸ List.mem_map_of_mem hT')

theorem SessionConfig.registered_eq {values : List Char → Options}
    (hdistinct : (registry.map ConfigExtension.configPrefix).Nodup) :
    registered registry values =
      { extensions := registry.map fun T => (T, values T.configPrefix)
        prefixes := registry.map ConfigExtension.configPrefix } := by
  rw [registered, foldl_setDistributedOptionExtension hdistinct (by simp)]
  simp

/-! ## The headers of the coordinator -/

/-- What sending one option does to the headers. -/
def insertOption (values : List Char → Options) (headers : HeaderMap)
    (option : ConfigExtension × List Char) : HeaderMap :=
  (values option.1.configPrefix option.2).elim headers fun value =>
    headers.insert (option.1.headerName option.2) [⟨value⟩]

variable [Http]

theorem insertEntry_ok {options : Options} {headers headers' : HeaderMap}
    (h : insertEntry (T, options) headers key = .ok headers') :
    (∀ value, options key = some value → Http.isValue value = true) ∧
      headers' = (options key).elim headers fun value =>
        headers.insert (T.headerName key) [⟨value⟩] := by
  unfold insertEntry at h
  dsimp only at h
  cases hvalue : options key with
  | none =>
    rw [hvalue] at h
    cases h
    simp
  | some value =>
    simp only [hvalue, HeaderName.fromStr, HeaderValue.fromStr] at h
    split_ifs at h with hname haccepted
    cases h
    exact ⟨by simpa using haccepted, rfl⟩

theorem exists_insertEntry {options : Options} (headers : HeaderMap) (hname : (HeaderName.fromStr
      (flightMetadataConfigPrefix ++ (T.configPrefix ++ '.' :: key))).isSome)
    (hvalue : ∀ value, options key = some value → Http.isValue value = true) :
    ∃ headers', insertEntry (T, options) headers key = .ok headers' := by
  unfold insertEntry
  dsimp only
  cases hoption : options key with
  | none => exact ⟨headers, rfl⟩
  | some value =>
    obtain ⟨name, hname⟩ := Option.isSome_iff_exists.mp hname
    rw [hname]
    dsimp only
    rw [HeaderValue.fromStr, if_pos (hvalue value hoption)]
    exact ⟨_, rfl⟩

def HaveHeaderNames (registry : List ConfigExtension) : Prop :=
  ∀ T ∈ registry, ∀ key ∈ T.keys, (HeaderName.fromStr
    (flightMetadataConfigPrefix ++ (T.configPrefix ++ '.' :: key))).isSome

section Headers

variable {registry : List ConfigExtension} {values : List Char → Options} {headers : HeaderMap}

/-- What the coordinator sends: the options one after the other, if a header can carry all of
them. -/
theorem getHeaders_registered_ok
    (hdistinct : (registry.map ConfigExtension.configPrefix).Nodup)
    (h : getConfigExtensionPropagationHeaders (.registered registry values) = .ok headers) :
    (∀ option ∈ registeredOptions registry, ∀ value,
      values option.1.configPrefix option.2 = some value → Http.isValue value = true) ∧
      headers = (registeredOptions registry).foldl (insertOption values) ∅ := by
  rw [SessionConfig.registered_eq hdistinct] at h
  unfold getConfigExtensionPropagationHeaders at h
  split at h
  · rename_i hempty
    cases h
    obtain rfl : registry = [] := by simpa using hempty
    simp [registeredOptions]
  · rw [List.foldlM_map] at h
    have hmem : ∀ T ∈ registry, T.configPrefix ∈ registry.map ConfigExtension.configPrefix :=
      fun T hT => List.mem_map_of_mem hT
    constructor
    · rintro ⟨T, key⟩ hoption value hvalue
      obtain ⟨hT, hkey⟩ := mem_registeredOptions.mp hoption
      obtain ⟨before, after, hstep⟩ := exists_step_of_foldlM_ok h hT
      rw [if_pos (hmem T hT)] at hstep
      obtain ⟨before, after, hstep⟩ := exists_step_of_foldlM_ok hstep hkey
      exact (insertEntry_ok hstep).1 value hvalue
    · rw [foldlM_eq_foldl (fun headers T hT headers' hstep => ?_) h, registeredOptions,
        List.foldl_flatMap]
      rw [if_pos (hmem T hT)] at hstep
      rw [List.foldl_map]
      exact foldlM_eq_foldl (fun headers key _ headers' hkey => (insertEntry_ok hkey).2) hstep

theorem exists_getHeaders_registered
    (hdistinct : (registry.map ConfigExtension.configPrefix).Nodup)
    (hnames : HaveHeaderNames registry)
    (hvalues : ∀ T ∈ registry, ∀ key ∈ T.keys, ∀ value,
      values T.configPrefix key = some value → Http.isValue value = true) :
    ∃ headers, getConfigExtensionPropagationHeaders (.registered registry values) =
      .ok headers := by
  rw [SessionConfig.registered_eq hdistinct]
  unfold getConfigExtensionPropagationHeaders
  split
  · exact ⟨_, rfl⟩
  · rw [List.foldlM_map]
    apply exists_foldlM_ok
    intro headers T hT
    rw [if_pos (List.mem_map_of_mem hT)]
    apply exists_foldlM_ok
    intro headers key hkey
    exact exists_insertEntry headers (hnames T hT key hkey) (hvalues T hT key hkey)

/-- The value that is sent under a name: that of the last option of the name. -/
def sentValue (registry : List ConfigExtension) (values : List Char → Options)
    (name : HeaderName) : Option (List Char) :=
  (registeredOptions registry).reverse.findSome? fun option =>
    if option.1.headerName option.2 = name then values option.1.configPrefix option.2 else none

omit [Http] in
theorem lookup_foldl_insertOption (options : List (ConfigExtension × List Char))
    (headers : HeaderMap) (name : HeaderName) :
    (options.foldl (insertOption values) headers).lookup name =
      ((options.reverse.findSome? fun option =>
        if option.1.headerName option.2 = name then values option.1.configPrefix option.2
        else none).map fun value => [⟨value⟩]).or (headers.lookup name) := by
  induction options generalizing headers with
  | nil => rfl
  | cons option options ih =>
    rw [List.foldl_cons, ih, List.reverse_cons, List.findSome?_append]
    cases hlater : options.reverse.findSome? fun option =>
      if option.1.headerName option.2 = name then values option.1.configPrefix option.2
      else none with
    | some value => rfl
    | none =>
      rw [insertOption]
      by_cases hname : option.1.headerName option.2 = name
      · subst hname
        cases hvalue : values option.1.configPrefix option.2 with
        | none => simp [hvalue]
        | some value => simp [hvalue]
      · cases hvalue : values option.1.configPrefix option.2 with
        | none => simp [hname]
        | some value => simp [hname, AList.lookup_insert_ne (Ne.symm hname)]

omit [Http] in
theorem HeaderMap.mem_iter :
    header ∈ headers.iter ↔ ∃ values, headers.lookup header.1 = some values ∧
      header.2 ∈ values := by
  obtain ⟨name, value⟩ := header
  simp [iter, ← Option.mem_def, AList.mem_lookup_iff]

/-- The headers that are sent, each with the value that was sent last under its name. -/
theorem mem_iter_registered (hdistinct : (registry.map ConfigExtension.configPrefix).Nodup)
    (h : getConfigExtensionPropagationHeaders (.registered registry values) = .ok headers) :
    header ∈ headers.iter ↔ sentValue registry values header.1 = some header.2.text := by
  rw [HeaderMap.mem_iter, (getHeaders_registered_ok hdistinct h).2, lookup_foldl_insertOption]
  show (∃ found, (((sentValue registry values header.1).map _).or none) = some found ∧ _) ↔ _
  obtain ⟨name, ⟨text⟩⟩ := header
  cases sentValue registry values name with
  | none => simp
  | some value => simp [@eq_comm _ text]

end Headers

/-! ## The options of a worker -/

section Worker

variable {T : ConfigExtension} {result result' target : Options} {key value : List Char}
  {headers : List (HeaderName × HeaderValue)}

/-- A value that an option can have, as its extension shows it, that a header can carry and a worker
can read. -/
structure ConfigExtension.Shows (T : ConfigExtension) (key value : List Char) : Prop where
  set : T.set key value = .ok value
  sent : Http.isValue value = true
  read : Http.isText value = true

/-- The option can be set to more than one value. -/
def ConfigExtension.HasTwoValues (T : ConfigExtension) (key : List Char) : Prop :=
  ∃ value value', value ≠ value' ∧ T.Shows key value ∧ T.Shows key value'

def HaveTwoValues (registry : List ConfigExtension) : Prop :=
  ∀ T ∈ registry, ∀ key ∈ T.keys, T.HasTwoValues key

theorem ConfigExtension.setValue_eq (hread : Http.isText value = true) :
    T.setValue result key ⟨value⟩ =
      (T.set key value).map fun shown => Function.update result key (some shown) := by
  rw [setValue, HeaderValue.toStr, if_pos hread]
  dsimp only
  cases T.set key value <;> rfl

theorem ConfigExtension.Shows.setValue (h : T.Shows key value) :
    T.setValue result key ⟨value⟩ = .ok (Function.update result key (some value)) := by
  rw [setValue_eq h.read, h.set]
  rfl

/-- If every header that is read as an option carries the option's target, the options that are
read get their targets and the others stay. -/
theorem foldlM_setFromHeader_ok
    (h : ∀ header ∈ headers, ∀ key, T.readsAs header.1 = some key →
      ∃ value, target key = some value ∧ header.2 = ⟨value⟩ ∧ T.Shows key value) :
    ∃ result', headers.foldlM T.setFromHeader result = .ok result' ∧
      ∀ key, ((∃ header ∈ headers, T.readsAs header.1 = some key) → result' key = target key) ∧
        ((∀ header ∈ headers, T.readsAs header.1 ≠ some key) → result' key = result key) := by
  induction headers generalizing result with
  | nil => exact ⟨result, rfl, fun key => ⟨fun h => by simp at h, fun _ => rfl⟩⟩
  | cons header headers ih =>
    rw [List.forall_mem_cons] at h
    rw [List.foldlM_cons, ConfigExtension.setFromHeader_eq]
    cases hread : T.readsAs header.1 with
    | none =>
      obtain ⟨result', hrun, hresult⟩ := @ih result h.2
      refine ⟨result', hrun, fun key => ⟨?_, ?_⟩⟩
      · exact fun hsome => (hresult key).1 (by simpa [hread] using hsome)
      · exact fun hnone => (hresult key).2 (List.forall_mem_cons.mp hnone).2
    | some read =>
      obtain ⟨value, htarget, hvalue, hshows⟩ := h.1 read hread
      obtain ⟨result', hrun, hresult⟩ := @ih (Function.update result read (some value)) h.2
      rw [Option.elim_some, hvalue, hshows.setValue]
      refine ⟨result', hrun, fun key => ⟨?_, ?_⟩⟩
      · intro hsome
        by_cases hlater : ∃ later ∈ headers, T.readsAs later.1 = some key
        · exact (hresult key).1 hlater
        · have hkey := (List.or_exists_of_exists_mem_cons hsome).resolve_right hlater
          rw [hread] at hkey
          cases hkey
          rw [(hresult read).2 fun later hmem hread' => hlater ⟨later, hmem, hread'⟩,
            Function.update_self, htarget]
      · intro hnone
        have hne : key ≠ read := by
          rintro rfl
          exact hnone header List.mem_cons_self hread
        rw [(hresult key).2 fun other hother => hnone other (List.mem_cons_of_mem _ hother),
          Function.update_of_ne hne]

theorem setFromHeader_frame
    (h : T.setFromHeader result header = .ok result') (hkey : T.readsAs header.1 ≠ some key) :
    result' key = result key := by
  rw [ConfigExtension.setFromHeader_eq] at h
  cases hread : T.readsAs header.1 with
  | none =>
    rw [hread] at h
    cases h
    rfl
  | some read =>
    rw [hread, Option.elim_some, ConfigExtension.setValue] at h
    split at h
    · cases h
    · obtain ⟨shown, -, h⟩ := bind_ok_iff.mp h
      cases h
      apply Function.update_of_ne
      rintro rfl
      exact hkey hread

theorem foldlM_setFromHeader_frame (h : headers.foldlM T.setFromHeader result = .ok result')
    (hkey : ∀ header ∈ headers, T.readsAs header.1 ≠ some key) : result' key = result key := by
  refine foldlM_invariant ?_ rfl h
  intro middle header hheader next hmiddle hstep
  rw [setFromHeader_frame hstep (hkey header hheader), hmiddle]

/-- The last header that is read as an option decides about it. -/
theorem foldlM_setFromHeader_last
    (h : (headers ++ [header]).foldlM T.setFromHeader result = .ok result')
    (hread : T.readsAs header.1 = some key) (htext : Http.isText header.2.text = true) :
    ∃ shown, T.set key header.2.text = .ok shown ∧ result' key = some shown := by
  rw [List.foldlM_append, bind_ok_iff] at h
  obtain ⟨middle, -, hlast⟩ := h
  rw [List.foldlM_cons, bind_ok_iff] at hlast
  obtain ⟨final, hstep, hfinal⟩ := hlast
  cases hfinal
  rw [ConfigExtension.setFromHeader_eq, hread, Option.elim_some,
    ConfigExtension.setValue_eq htext, map_ok_iff] at hstep
  obtain ⟨shown, hset, rfl⟩ := hstep
  exact ⟨shown, hset, Function.update_self key (some shown) middle⟩

end Worker

/-! ## The session of a worker -/

section WorkerSession

variable {cfg worker : SessionConfig} {T S : ConfigExtension} {options : Options}

omit [Http] in
theorem getExtension_insertExtension_self :
    (cfg.insertExtension T options).getExtension T = some options := by
  rw [SessionConfig.getExtension, SessionConfig.insertExtension, List.find?_append,
    List.find?_eq_none.mpr (by simp)]
  simp

omit [Http] in
theorem getExtension_insertExtension_of_ne (h : S.configPrefix ≠ T.configPrefix) :
    (cfg.insertExtension T options).getExtension S = cfg.getExtension S := by
  have hother : decide ((T, options).1.configPrefix = S.configPrefix) = false := by
    simpa using h.symm
  rw [SessionConfig.getExtension, SessionConfig.insertExtension, List.find?_append,
    List.find?_singleton, hother, List.find?_filter]
  congr 1
  simp only [Bool.false_eq_true, if_false, Option.or_none]
  congr 1
  ext entry
  by_cases hentry : entry.1.configPrefix = S.configPrefix
  · simp [hentry, h]
  · simp [hentry]

variable {headers : List (HeaderName × HeaderValue)}

/-- Setting one extension type from the headers concerns no other. -/
theorem setFromHeaders_ok
    (h : setDistributedOptionExtensionFromHeaders T cfg headers = .ok worker) :
    ∃ options, headers.foldlM T.setFromHeader ((cfg.getExtension T).getD T.default) = .ok options ∧
      worker.getExtension T = some options ∧
      ∀ S : ConfigExtension, S.configPrefix ≠ T.configPrefix →
        worker.getExtension S = cfg.getExtension S := by
  obtain ⟨options, hloop, hworker⟩ := bind_ok_iff.mp h
  cases hworker
  exact ⟨options, hloop, getExtension_insertExtension_self,
    fun S hS => getExtension_insertExtension_of_ne hS⟩

/-- The session of a worker that sets all extension types holds for each of them what its own loop
gives. -/
theorem getExtension_of_foldlM {registry : List ConfigExtension}
    (hdistinct : (registry.map ConfigExtension.configPrefix).Nodup)
    (h : registry.foldlM (fun cfg T => setDistributedOptionExtensionFromHeaders T cfg headers) cfg =
      .ok worker) :
    (∀ T ∈ registry, ∃ options,
      headers.foldlM T.setFromHeader ((cfg.getExtension T).getD T.default) = .ok options ∧
      worker.getExtension T = some options) ∧
      ∀ S : ConfigExtension, S.configPrefix ∉ registry.map ConfigExtension.configPrefix →
        worker.getExtension S = cfg.getExtension S := by
  induction registry generalizing cfg with
  | nil =>
    cases h
    exact ⟨by simp, fun _ _ => rfl⟩
  | cons T registry ih =>
    rw [List.map_cons, List.nodup_cons] at hdistinct
    rw [List.foldlM_cons, bind_ok_iff] at h
    obtain ⟨middle, hmiddle, hrest⟩ := h
    obtain ⟨options, hloop, hself, hframe⟩ := setFromHeaders_ok hmiddle
    obtain ⟨hall, hothers⟩ := ih hdistinct.2 hrest
    constructor
    · rw [List.forall_mem_cons]
      constructor
      · exact ⟨options, hloop, (hothers T hdistinct.1).trans hself⟩
      · intro S hS
        rw [← hframe S fun heq => hdistinct.1 (heq ▸ List.mem_map_of_mem hS)]
        exact hall S hS
    · intro S hS
      rw [List.map_cons, List.mem_cons, not_or] at hS
      rw [hothers S hS.2, hframe S hS.1]

theorem exists_foldlM_setFromHeaders {registry : List ConfigExtension}
    (hdistinct : (registry.map ConfigExtension.configPrefix).Nodup)
    (h : ∀ T ∈ registry, ∃ options,
      headers.foldlM T.setFromHeader ((cfg.getExtension T).getD T.default) = .ok options) :
    ∃ worker, registry.foldlM
      (fun cfg T => setDistributedOptionExtensionFromHeaders T cfg headers) cfg = .ok worker := by
  induction registry generalizing cfg with
  | nil => exact ⟨cfg, rfl⟩
  | cons T registry ih =>
    rw [List.map_cons, List.nodup_cons] at hdistinct
    rw [List.forall_mem_cons] at h
    obtain ⟨⟨options, hloop⟩, hrest⟩ := h
    have hmiddle : ∃ middle, setDistributedOptionExtensionFromHeaders T cfg headers = .ok middle :=
      ⟨_, bind_ok_iff.mpr ⟨options, hloop, rfl⟩⟩
    obtain ⟨middle, hmiddle⟩ := hmiddle
    obtain ⟨-, -, -, hframe⟩ := setFromHeaders_ok hmiddle
    obtain ⟨worker, hworker⟩ := @ih middle hdistinct.2 fun S hS => by
      rw [hframe S fun heq => hdistinct.1 (heq ▸ List.mem_map_of_mem hS)]
      exact hrest S hS
    refine ⟨worker, ?_⟩
    rw [List.foldlM_cons, bind_ok_iff]
    exact ⟨middle, hmiddle, hworker⟩

end WorkerSession

end Sessions

/-! ## Extensions of texts -/

def isHeaderNameChar (c : Char) : Bool :=
  c.isAlphanum || "!#$%&'*+-.^_`|~".toList.contains c

/-- The checks that the documentation of the `http` crate describes: a value has no control
characters, and only visible ASCII characters are read. -/
instance : Http where
  isName text := text ≠ [] ∧ text.length < 65536 ∧ text.all isHeaderNameChar
  isValue text := text.all fun c => (32 ≤ c.toNat && c.toNat != 127) || c.toNat == 9
  isText text := text.all fun c => (32 ≤ c.toNat && c.toNat < 127) || c.toNat == 9

/-- An extension of text options. -/
def textExtension (configPrefix : String) (keys : List String) : ConfigExtension where
  configPrefix := configPrefix.toList
  keys := keys.map String.toList
  default _ := some []
  set _ value := .ok value

theorem textExtension_hasTwoValues (configPrefix : String) (keys : List String) (key : List Char) :
    (textExtension configPrefix keys).HasTwoValues key :=
  ⟨['0'], ['1'], by decide, ⟨rfl, by decide, by decide⟩, ⟨rfl, by decide, by decide⟩⟩

end DatafusionDistributed
