import DatafusionDistributed.Config.PropagatedHeaders

/-!
# Config extensions from the coordinator to the workers

A coordinator registers extension types with values for their options, makes headers of them, and
a worker sets the same extension types from the headers on a fresh session. The order in which the
worker visits the headers is arbitrary.

`propagates_iff` says for which sets of extension types every value arrives that a worker can read
from a header, and none is taken for an option of another extension: the names have to be apart
(`NamesApart`). Then what arrives is known exactly (`foldlM_setFromHeader_arrived`). In the other
direction, an option that does not read its own name keeps its default whatever is sent, and of two
options that are read from one name the values cannot be chosen freely (`NamesApart.of_arrives`). A
value that can be sent but not read makes the worker fail (`Arrives.readValues`).
-/

namespace DatafusionDistributed

open Library

/-! ## What has to arrive -/

section RoundTrip

variable [Http] (registry : List ConfigExtension)

/-- Values that the registered extensions can show. -/
def ValidValues (values : List Char → Options) : Prop :=
  ∀ T ∈ registry, ∀ key ∈ T.keys, ∀ value,
    values T.configPrefix key = some value → T.set key value = .ok value

/-- Values that `HeaderValue::to_str` reads. -/
def ReadValues (values : List Char → Options) : Prop :=
  ∀ T ∈ registry, ∀ key ∈ T.keys, ∀ value,
    values T.configPrefix key = some value → Http.isText value = true

/-- If the coordinator can send the values, a fresh session of a worker that sets all extension
types has every value that was sent, in whichever order the headers are visited. -/
def Arrives (values : List Char → Options) : Prop :=
  ∀ headers, getConfigExtensionPropagationHeaders (.registered registry values) = .ok headers →
    ∀ order, order.Perm headers.iter →
      ∃ worker, registry.foldlM
          (fun cfg T => setDistributedOptionExtensionFromHeaders T cfg order) {} = .ok worker ∧
        ∀ T ∈ registry, ∃ options, worker.getExtension T = some options ∧
          ∀ key ∈ T.keys, ∀ value, values T.configPrefix key = some value →
            options key = some value

/-- What an extension is set to does not depend on the values of the others. -/
def Unaffected : Prop :=
  ∀ T ∈ registry, ∀ values values', ValidValues registry values → ValidValues registry values' →
    ReadValues registry values → ReadValues registry values' →
    values T.configPrefix = values' T.configPrefix →
    ∀ headers headers', getConfigExtensionPropagationHeaders (.registered registry values) =
        .ok headers →
      getConfigExtensionPropagationHeaders (.registered registry values') = .ok headers' →
      ∀ order order', order.Perm headers.iter → order'.Perm headers'.iter →
        setDistributedOptionExtensionFromHeaders T {} order =
          setDistributedOptionExtensionFromHeaders T {} order'

/-- Every option reads its own name, and no option's name is the name space of another extension,
once or more often, followed by a key of that extension. -/
structure NamesApart : Prop where
  own : ∀ T ∈ registry, ∀ key ∈ T.keys, T.ReadsOwn key
  apart : ∀ T ∈ registry, ∀ T' ∈ registry, T.configPrefix ≠ T'.configPrefix →
    ∀ key ∈ T.keys, ∀ key' ∈ T'.keys, ∀ count,
      T'.configPrefix ++ ['.'] ++ key' ≠ copies (count + 1) (T.configPrefix ++ ['.']) ++ key

variable {registry} {values : List Char → Options} {headers : HeaderMap} {T T' : ConfigExtension}
  {key key' value : List Char} (hdistinct : (registry.map ConfigExtension.configPrefix).Nodup)

include hdistinct

omit [Http] in
theorem eq_of_configPrefix_eq (hT : T ∈ registry) (hT' : T' ∈ registry)
    (h : T.configPrefix = T'.configPrefix) : T = T' :=
  List.inj_on_of_nodup_map hdistinct hT hT' h

/-! ## Names that are apart -/

omit [Http] in
theorem NamesApart.eq_of_readsAs (h : NamesApart registry) (hT : T ∈ registry)
    (hT' : T' ∈ registry) (hkey' : key' ∈ T'.keys)
    (hread : T.readsAs (T'.headerName key') = some key) : T' = T ∧ key' = key := by
  obtain ⟨hkey, -, count, hcount⟩ :=
    (ConfigExtension.readsAs_headerName_iff (h.own T' hT' key' hkey')).mp hread
  have heq : T.configPrefix = T'.configPrefix := by
    by_contra hne
    exact h.apart T hT T' hT' hne key hkey key' hkey' count hcount
  obtain rfl := eq_of_configPrefix_eq hdistinct hT hT' heq
  refine ⟨rfl, ?_⟩
  rw [copies_succ, List.append_assoc (T.configPrefix ++ ['.']), List.append_cancel_left_eq]
    at hcount
  cases count with
  | zero => exact hcount
  | succ count =>
    rw [copies_succ, List.append_assoc] at hcount
    exact absurd ⟨_, hcount.symm⟩ (h.own T hT' key' hkey').undotted

section Sent

variable (h : NamesApart registry) (hT : T ∈ registry)
  (hheaders : getConfigExtensionPropagationHeaders (.registered registry values) = .ok headers)
include h hT hheaders

/-- A header that is read as an option carries the value of that option. -/
theorem NamesApart.value_of_readsAs {header : HeaderName × HeaderValue}
    (hheader : header ∈ headers.iter) (hread : T.readsAs header.1 = some key) :
    key ∈ T.keys ∧ values T.configPrefix key = some header.2.text := by
  rw [mem_iter_registered hdistinct hheaders] at hheader
  obtain ⟨⟨T', key'⟩, hoption, hsent⟩ := List.exists_of_findSome?_eq_some hheader
  rw [List.mem_reverse] at hoption
  obtain ⟨hT', hkey'⟩ := mem_registeredOptions.mp hoption
  split at hsent
  · rename_i hname
    rw [← hname] at hread
    obtain ⟨rfl, rfl⟩ := h.eq_of_readsAs hdistinct hT hT' hkey' hread
    exact ⟨hkey', hsent⟩
  · cases hsent

/-- The header of an option that has a value is among those that are sent. -/
theorem NamesApart.mem_iter (hkey : key ∈ T.keys)
    (hvalue : values T.configPrefix key = some value) :
    (T.headerName key, (⟨value⟩ : HeaderValue)) ∈ headers.iter := by
  have hsent : (sentValue registry values (T.headerName key)).isSome := by
    rw [sentValue, List.findSome?_isSome_iff]
    exact ⟨(T, key), List.mem_reverse.mpr (mem_registeredOptions.mpr ⟨hT, hkey⟩), by simp [hvalue]⟩
  obtain ⟨sent, hsent⟩ := Option.isSome_iff_exists.mp hsent
  have hheader : (T.headerName key, (⟨sent⟩ : HeaderValue)) ∈ headers.iter := by
    rw [mem_iter_registered hdistinct hheaders]
    exact hsent
  have hown := (h.own T hT key hkey).readsAs_headerName hkey
  have hsame := (h.value_of_readsAs hdistinct hT hheaders hheader hown).2
  rw [hvalue, Option.some.injEq] at hsame
  exact hsame ▸ hheader

/-- If names are apart, a worker shows exactly what was sent to it. -/
theorem foldlM_setFromHeader_arrived (hvalid : ValidValues registry values)
    (hreads : ReadValues registry values) {order : List (HeaderName × HeaderValue)}
    (horder : order.Perm headers.iter) :
    order.foldlM T.setFromHeader T.default = .ok (T.arrived (values T.configPrefix)) := by
  have hread : ∀ header ∈ order, ∀ key, T.readsAs header.1 = some key →
      key ∈ T.keys ∧ values T.configPrefix key = some header.2.text :=
    fun header hheader key => h.value_of_readsAs hdistinct hT hheaders (horder.mem_iff.mp hheader)
  have hsent := (getHeaders_registered_ok hdistinct hheaders).1
  obtain ⟨result, hrun, hresult⟩ := @foldlM_setFromHeader_ok _ T T.default (values T.configPrefix)
    order fun header hheader key hkey => by
      obtain ⟨hmem, hvalue⟩ := hread header hheader key hkey
      exact ⟨header.2.text, hvalue, rfl, hvalid T hT key hmem _ hvalue,
        hsent (T, key) (mem_registeredOptions.mpr ⟨hT, hmem⟩) _ hvalue,
        hreads T hT key hmem _ hvalue⟩
  rw [hrun]
  congr 1
  funext key
  rw [ConfigExtension.arrived]
  by_cases hsome : key ∈ T.keys ∧ (values T.configPrefix key).isSome
  · obtain ⟨hmem, hsome⟩ := hsome
    obtain ⟨value, hvalue⟩ := Option.isSome_iff_exists.mp hsome
    have hheader := horder.mem_iff.mpr (h.mem_iter hdistinct hT hheaders hmem hvalue)
    rw [if_pos hmem, (hresult key).1 ⟨_, hheader, (h.own T hT key hmem).readsAs_headerName hmem⟩,
      hvalue, Option.some_or]
  · rw [(hresult key).2 fun header hheader hkey => hsome ?_]
    · by_cases hmem : key ∈ T.keys
      · have hnone : values T.configPrefix key = none := by
          rw [← Option.not_isSome_iff_eq_none]
          exact fun h => hsome ⟨hmem, h⟩
        rw [if_pos hmem, hnone, Option.none_or]
      · rw [if_neg hmem]
    · obtain ⟨hmem, hvalue⟩ := hread header hheader key hkey
      rw [hvalue]
      exact ⟨hmem, rfl⟩

end Sent

theorem NamesApart.arrives (h : NamesApart registry) (hvalid : ValidValues registry values)
    (hreads : ReadValues registry values) : Arrives registry values := by
  intro headers hheaders order horder
  have hloop : ∀ T ∈ registry, order.foldlM T.setFromHeader
      ((({} : SessionConfig).getExtension T).getD T.default) =
        .ok (T.arrived (values T.configPrefix)) :=
    fun T hT => foldlM_setFromHeader_arrived hdistinct h hT hheaders hvalid hreads horder
  obtain ⟨worker, hworker⟩ :=
    exists_foldlM_setFromHeaders hdistinct fun T hT => ⟨_, hloop T hT⟩
  refine ⟨worker, hworker, fun T hT => ?_⟩
  obtain ⟨options, hoptions, hget⟩ := (getExtension_of_foldlM hdistinct hworker).1 T hT
  rw [hloop T hT] at hoptions
  cases hoptions
  refine ⟨_, hget, fun key hkey value hvalue => ?_⟩
  rw [ConfigExtension.arrived, if_pos hkey, hvalue, Option.some_or]

theorem NamesApart.unaffected (h : NamesApart registry) : Unaffected registry := by
  intro T hT values values' hvalid hvalid' hreads hreads' hsame headers headers' hheaders hheaders'
    order order' horder horder'
  have hloop : order.foldlM T.setFromHeader T.default =
      order'.foldlM T.setFromHeader T.default := by
    rw [foldlM_setFromHeader_arrived hdistinct h hT hheaders hvalid hreads horder,
      foldlM_setFromHeader_arrived hdistinct h hT hheaders' hvalid' hreads' horder', hsame]
  unfold setDistributedOptionExtensionFromHeaders
  dsimp only [SessionConfig.getExtension, List.find?_nil, Option.map_none, Option.getD_none]
  rw [hloop]

/-- Values that arrive are read: otherwise the worker fails. -/
theorem Arrives.readValues (harrives : Arrives registry values) (h : NamesApart registry)
    (hheaders : getConfigExtensionPropagationHeaders (.registered registry values) = .ok headers) :
    ReadValues registry values := by
  intro T hT key hkey value hvalue
  obtain ⟨worker, hworker, -⟩ := harrives headers hheaders _ (List.Perm.refl _)
  obtain ⟨options, hloop, -⟩ := (getExtension_of_foldlM hdistinct hworker).1 T hT
  obtain ⟨before, after, hstep⟩ :=
    exists_step_of_foldlM_ok hloop (h.mem_iter hdistinct hT hheaders hkey hvalue)
  rw [ConfigExtension.setFromHeader_eq, (h.own T hT key hkey).readsAs_headerName hkey,
    Option.elim_some, ConfigExtension.setValue, HeaderValue.toStr] at hstep
  by_contra hunread
  rw [if_neg hunread] at hstep
  cases hstep

end RoundTrip

/-! ## Values that must arrive keep names apart -/

section Necessary

variable [Http] {registry : List ConfigExtension} {values : List Char → Options}
  {headers : HeaderMap}
  {T : ConfigExtension} {key value : List Char} {name : HeaderName}

def FullValues (registry : List ConfigExtension) (values : List Char → Options) : Prop :=
  ∀ T ∈ registry, ∀ key ∈ T.keys, ∃ value,
    values T.configPrefix key = some value ∧ T.Shows key value

/-- The values with one option changed. -/
def setOption (values : List Char → Options) (T : ConfigExtension) (key value : List Char) :
    List Char → Options :=
  Function.update values T.configPrefix
    (Function.update (values T.configPrefix) key (some value))

omit [Http] in
@[simp] theorem setOption_self : setOption values T key value T.configPrefix key = some value := by
  simp [setOption]

omit [Http] in
theorem setOption_of_ne {configPrefix key' : List Char}
    (h : (configPrefix, key') ≠ (T.configPrefix, key)) :
    setOption values T key value configPrefix key' = values configPrefix key' := by
  by_cases hspace : configPrefix = T.configPrefix
  · subst hspace
    rw [setOption, Function.update_self, Function.update_of_ne]
    rintro rfl
    exact h rfl
  · rw [setOption, Function.update_of_ne hspace]

theorem FullValues.shows (h : FullValues registry values) (hT : T ∈ registry) (hkey : key ∈ T.keys)
    (hvalue : values T.configPrefix key = some value) : T.Shows key value := by
  obtain ⟨value', hvalue', hshows⟩ := h T hT key hkey
  rw [hvalue] at hvalue'
  cases hvalue'
  exact hshows

theorem FullValues.validValues (h : FullValues registry values) : ValidValues registry values :=
  fun _ hT _ hkey _ hvalue => (h.shows hT hkey hvalue).set

theorem FullValues.readValues (h : FullValues registry values) : ReadValues registry values :=
  fun _ hT _ hkey _ hvalue => (h.shows hT hkey hvalue).read

omit [Http] in
theorem findSome?_eq_of_find? {α β : Type} {p : α → Bool} {f : α → Option β} {xs : List α} {x : α}
    (hsome : ∀ x ∈ xs, (f x).isSome) (h : xs.find? p = some x) :
    (xs.findSome? fun x => if p x then f x else none) = f x := by
  induction xs with
  | nil => cases h
  | cons y xs ih =>
    rw [List.forall_mem_cons] at hsome
    rw [List.find?_cons] at h
    rw [List.findSome?_cons]
    cases hy : p y with
    | true =>
      rw [hy] at h
      cases h
      obtain ⟨z, hz⟩ := Option.isSome_iff_exists.mp hsome.1
      simp [hz]
    | false =>
      rw [hy] at h
      exact ih hsome.2 h

variable (hdistinct : (registry.map ConfigExtension.configPrefix).Nodup)

include hdistinct

theorem FullValues.setOption (h : FullValues registry values) (hT : T ∈ registry)
    (hshows : T.Shows key value) : FullValues registry (setOption values T key value) := by
  intro S hS other hother
  by_cases hsame : (S.configPrefix, other) = (T.configPrefix, key)
  · rw [Prod.mk.injEq] at hsame
    obtain ⟨hspace, rfl⟩ := hsame
    obtain rfl := eq_of_configPrefix_eq hdistinct hS hT hspace
    exact ⟨value, setOption_self, hshows⟩
  · rw [setOption_of_ne hsame]
    exact h S hS other hother

theorem exists_fullValues (htwo : HaveTwoValues registry) :
    ∃ values, FullValues registry values := by
  classical
  refine ⟨fun configPrefix key =>
    if h : ∃ value, ∃ T ∈ registry, T.configPrefix = configPrefix ∧ T.Shows key value
    then some h.choose else none, ?_⟩
  intro T hT key hkey
  obtain ⟨value, -, -, hshows, -⟩ := htwo T hT key hkey
  have h : ∃ value, ∃ S ∈ registry, S.configPrefix = T.configPrefix ∧ S.Shows key value :=
    ⟨value, T, hT, rfl, hshows⟩
  obtain ⟨S, hS, hspace, hchosen⟩ := h.choose_spec
  obtain rfl := eq_of_configPrefix_eq hdistinct hS hT hspace
  exact ⟨h.choose, dif_pos h, hchosen⟩

theorem FullValues.exists_getHeaders (h : FullValues registry values)
    (hnames : HaveHeaderNames registry) :
    ∃ headers, getConfigExtensionPropagationHeaders (.registered registry values) =
      .ok headers :=
  exists_getHeaders_registered hdistinct hnames fun _ hT _ hkey _ hvalue =>
    (h.shows hT hkey hvalue).sent

/-- An option whose values arrive reads its own name: otherwise it keeps its default. -/
theorem Arrives.readsOwn
    (hnames : HaveHeaderNames registry) (htwo : HaveTwoValues registry)
    (h : ∀ values, ValidValues registry values → ReadValues registry values →
      Arrives registry values)
    (hT : T ∈ registry) (hkey : key ∈ T.keys) : T.ReadsOwn key := by
  by_contra hnot
  obtain ⟨value, hshows, hdefault⟩ : ∃ value, T.Shows key value ∧ T.default key ≠ some value := by
    obtain ⟨value, value', hne, hshows, hshows'⟩ := htwo T hT key hkey
    by_cases hdefault : T.default key = some value
    · exact ⟨value', hshows', by simp [hdefault, hne]⟩
    · exact ⟨value, hshows, hdefault⟩
  obtain ⟨base, hbase⟩ := exists_fullValues hdistinct htwo
  have hfull := hbase.setOption hdistinct hT hshows
  obtain ⟨headers, hheaders⟩ := hfull.exists_getHeaders hdistinct hnames
  obtain ⟨worker, hworker, harrive⟩ :=
    h _ hfull.validValues hfull.readValues headers hheaders _ (List.Perm.refl _)
  obtain ⟨options, hget, hoptions⟩ := harrive T hT
  obtain ⟨options', hloop, hget'⟩ := (getExtension_of_foldlM hdistinct hworker).1 T hT
  rw [hget] at hget'
  cases hget'
  have hkept := foldlM_setFromHeader_frame hloop fun header _ hread =>
    hnot (ConfigExtension.ReadsOwn.of_readsAs hread)
  rw [hoptions key hkey value setOption_self] at hkept
  exact hdefault hkept.symm

/-- Whichever option of a name is sent last, all options that the name is read as are set to
its value. -/
theorem Arrives.set_sentValue (h : Arrives registry values)
    (hheaders : getConfigExtensionPropagationHeaders (.registered registry values) = .ok headers)
    {sent : List Char} (hsent : sentValue registry values name = some sent)
    (htext : Http.isText sent = true) (hT : T ∈ registry)
    (hread : T.readsAs name = some key) (hvalue : values T.configPrefix key = some value) :
    T.set key sent = .ok value := by
  have hmem : (name, (⟨sent⟩ : HeaderValue)) ∈ headers.iter := by
    rw [mem_iter_registered hdistinct hheaders]
    exact hsent
  obtain ⟨front, back, hiter⟩ := List.append_of_mem hmem
  have horder : (front ++ back ++ [(name, (⟨sent⟩ : HeaderValue))]).Perm headers.iter := by
    rw [hiter, List.append_assoc]
    exact List.Perm.append_left front (List.perm_append_singleton _ back)
  obtain ⟨worker, hworker, harrive⟩ := h headers hheaders _ horder
  obtain ⟨options, hget, hoptions⟩ := harrive T hT
  obtain ⟨options', hloop, hget'⟩ := (getExtension_of_foldlM hdistinct hworker).1 T hT
  rw [hget] at hget'
  cases hget'
  obtain ⟨shown, hset, hshown⟩ := foldlM_setFromHeader_last hloop hread htext
  have hkey : key ∈ T.keys := (ConfigExtension.readsAs_eq_some_iff.mp hread).1
  rw [hoptions key hkey value hvalue] at hshown
  cases hshown
  exact hset

omit hdistinct in
/-- Which option is sent last under a name does not depend on the values, if all options have
one. -/
theorem exists_lastOption (hoption : (T, key) ∈ registeredOptions registry) :
    ∃ S ∈ registry, ∃ other ∈ S.keys, ∀ values, FullValues registry values →
      sentValue registry values (T.headerName key) = values S.configPrefix other := by
  have hfind : ((registeredOptions registry).reverse.find? fun option =>
      decide (option.1.headerName option.2 = T.headerName key)).isSome := by
    rw [List.find?_isSome]
    exact ⟨(T, key), List.mem_reverse.mpr hoption, by simp⟩
  obtain ⟨⟨S, other⟩, hlast⟩ := Option.isSome_iff_exists.mp hfind
  obtain ⟨hS, hother⟩ :=
    mem_registeredOptions.mp (List.mem_reverse.mp (List.mem_of_find?_eq_some hlast))
  refine ⟨S, hS, other, hother, fun values hfull => ?_⟩
  have hvalues : ∀ option ∈ (registeredOptions registry).reverse,
      (values option.1.configPrefix option.2).isSome := by
    rintro ⟨S, other⟩ hmem
    obtain ⟨hS, hother⟩ := mem_registeredOptions.mp (List.mem_reverse.mp hmem)
    obtain ⟨value, hvalue, -⟩ := hfull S hS other hother
    exact Option.isSome_iff_exists.mpr ⟨value, hvalue⟩
  have := findSome?_eq_of_find? hvalues hlast
  simpa only [sentValue, decide_eq_true_eq] using this

/-- Two options that are read from one name: the value of one of them can be changed without
changing what is sent under the name. -/
theorem Arrives.not_readsAs_both
    (hnames : HaveHeaderNames registry) (htwo : HaveTwoValues registry)
    (h : ∀ values, ValidValues registry values → ReadValues registry values →
      Arrives registry values)
    {S : ConfigExtension} {other : List Char} (hT : T ∈ registry) (hkey : key ∈ T.keys)
    (hread : T.readsAs name = some key) (hS : S ∈ registry) (hother : other ∈ S.keys)
    (hsent : ∀ values, FullValues registry values →
      sentValue registry values name = values S.configPrefix other)
    (hne : (S.configPrefix, other) ≠ (T.configPrefix, key)) : False := by
  obtain ⟨base, hbase⟩ := exists_fullValues hdistinct htwo
  obtain ⟨sent, hvalue, hshows⟩ := hbase S hS other hother
  have hset : ∀ value, T.Shows key value → T.set key sent = .ok value := by
    intro value hvalue'
    have hfull := hbase.setOption hdistinct hT hvalue'
    obtain ⟨headers, hheaders⟩ := hfull.exists_getHeaders hdistinct hnames
    refine (h _ hfull.validValues hfull.readValues).set_sentValue hdistinct hheaders ?_
      hshows.read hT hread setOption_self
    rw [hsent _ hfull, setOption_of_ne hne, hvalue]
  obtain ⟨value, value', hdiffer, hvalue, hvalue'⟩ := htwo T hT key hkey
  have := (hset value hvalue).symm.trans (hset value' hvalue')
  cases this
  exact hdiffer rfl

theorem NamesApart.of_arrives
    (hnames : HaveHeaderNames registry) (htwo : HaveTwoValues registry)
    (h : ∀ values, ValidValues registry values → ReadValues registry values →
      Arrives registry values) :
    NamesApart registry := by
  have hown : ∀ T ∈ registry, ∀ key ∈ T.keys, T.ReadsOwn key :=
    fun T hT key hkey => Arrives.readsOwn hdistinct hnames htwo h hT hkey
  refine ⟨hown, fun T hT T' hT' hspace key hkey key' hkey' count hcount => ?_⟩
  have hread : T.readsAs (T'.headerName key') = some key :=
    (ConfigExtension.readsAs_headerName_iff (hown T' hT' key' hkey')).mpr
      ⟨hkey, (hown T hT key hkey).undotted, count, hcount⟩
  have hread' : T'.readsAs (T'.headerName key') = some key' :=
    (hown T' hT' key' hkey').readsAs_headerName hkey'
  obtain ⟨S, hS, other, hother, hsent⟩ :=
    exists_lastOption (mem_registeredOptions.mpr ⟨hT', hkey'⟩)
  -- The option that is sent last is not both of the options that the name is read as.
  by_cases hlast : (S.configPrefix, other) = (T.configPrefix, key)
  · refine Arrives.not_readsAs_both hdistinct hnames htwo h hT' hkey' hread' hS hother hsent ?_
    rw [hlast]
    exact fun heq => hspace (Prod.mk.inj heq).1
  · exact Arrives.not_readsAs_both hdistinct hnames htwo h hT hkey hread hS hother hsent hlast

/-- All values that a worker can read arrive, and no extension is affected by another's, exactly if
the names are apart. If they are, other values do not arrive. The names have to be header names, and
each option must be able to take two values. -/
theorem propagates_iff
    (hnames : HaveHeaderNames registry) (htwo : HaveTwoValues registry) :
    (((∀ values, ValidValues registry values → ReadValues registry values →
        Arrives registry values) ∧ Unaffected registry) ↔ NamesApart registry) ∧
      (NamesApart registry → ∀ values, ValidValues registry values → ∀ headers,
        getConfigExtensionPropagationHeaders (.registered registry values) = .ok headers →
        (Arrives registry values ↔ ReadValues registry values)) := by
  refine ⟨⟨?_, fun h => ?_⟩, fun h values hvalid headers hheaders => ⟨fun harrives => ?_, ?_⟩⟩
  · rintro ⟨harrives, -⟩
    exact NamesApart.of_arrives hdistinct hnames htwo harrives
  · exact ⟨fun values hvalid hreads => h.arrives hdistinct hvalid hreads, h.unaffected hdistinct⟩
  · exact harrives.readValues hdistinct h hheaders
  · exact h.arrives hdistinct hvalid

end Necessary

/-! ## Three extensions -/

theorem validValues_textExtension {configPrefix : String} {keys : List String}
    (values : List Char → Options) : ValidValues [textExtension configPrefix keys] values := by
  intro T hT key hkey value hvalue
  rw [List.mem_singleton.mp hT]
  rfl

/-- The option `maxSize` is sent as `maxsize`, which the worker does not know. -/
theorem camelCase_option_lost :
    ∃ values, ValidValues [textExtension "custom" ["maxSize"]] values ∧
      values "custom".toList "maxSize".toList = some ['7'] ∧
      ∃ headers, getConfigExtensionPropagationHeaders
          (.registered [textExtension "custom" ["maxSize"]] values) = .ok headers ∧
        ∃ worker, [textExtension "custom" ["maxSize"]].foldlM
            (fun cfg T => setDistributedOptionExtensionFromHeaders T cfg headers.iter) {} =
              .ok worker ∧
          ∃ options, worker.getExtension (textExtension "custom" ["maxSize"]) = some options ∧
            options "maxSize".toList = some [] ∧
            ¬ Arrives [textExtension "custom" ["maxSize"]] values := by
  refine ⟨fun _ _ => some ['7'], validValues_textExtension _, rfl, _, rfl, _, rfl, _, rfl, rfl, ?_⟩
  intro h
  obtain ⟨worker, hworker, harrive⟩ := h _ rfl _ (List.Perm.refl _)
  cases hworker
  obtain ⟨options, hget, hoptions⟩ := harrive _ List.mem_cons_self
  cases hget
  have hlost := hoptions "maxSize".toList (by decide) ['7'] rfl
  cases hlost

theorem names_apart_of_not_isPrefix {T : ConfigExtension} {key text : List Char}
    (h : ¬ T.configPrefix ++ ['.'] <+: text) (count : ℕ) :
    text ≠ copies (count + 1) (T.configPrefix ++ ['.']) ++ key := by
  rintro rfl
  rw [copies_succ, List.append_assoc] at h
  exact h (List.prefix_append _ _)

/-- The options of two extensions with plain names arrive. -/
theorem plain_options_arrive :
    (∀ values, ValidValues
        [textExtension "custom" ["size", "max.size"], textExtension "distributed" ["size"]] values →
      ReadValues
        [textExtension "custom" ["size", "max.size"], textExtension "distributed" ["size"]] values →
      Arrives [textExtension "custom" ["size", "max.size"],
        textExtension "distributed" ["size"]] values) ∧
      Unaffected [textExtension "custom" ["size", "max.size"],
        textExtension "distributed" ["size"]] := by
  refine (propagates_iff (by decide) ?_ ?_).1.mpr ⟨?_, ?_⟩
  · unfold HaveHeaderNames
    decide
  · intro T hT key _
    rw [List.mem_cons, List.mem_singleton] at hT
    rcases hT with rfl | rfl <;> exact textExtension_hasTwoValues _ _ key
  · decide
  · intro T hT T' hT' hne key _ key' hkey' count
    apply names_apart_of_not_isPrefix
    rw [List.mem_cons, List.mem_singleton] at hT hT'
    rcases hT with rfl | rfl <;> rcases hT' with rfl | rfl
    any_goals exact absurd rfl hne
    all_goals
      revert key'
      decide

end DatafusionDistributed
