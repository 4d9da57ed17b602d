import DatafusionDistributed.Common
import DatafusionDistributed.Library.Checked
import DatafusionDistributed.Library.HashMap
import DatafusionDistributed.Library.TrimStart

/-!
# Config extensions in request headers

The coordinator sends the options of its config extensions to the workers as HTTP headers. The name
of a header is a reserved text, the name space of the extension (its `PREFIX`), a dot and the key of
the option, in lower case. A worker takes the reserved text and the name space off again, each as
often as it stands there, and sets the option that is left.

Texts are lists of characters. An extension type is given by its name space, the keys of its
`entries`, its default values, and what `entries` shows after a value was set. What the `http` crate
accepts is a parameter.
-/

namespace DatafusionDistributed

open Library

/-! ## Headers -/

/-- The checks of the `http` crate: the texts that `HeaderName::from_str` and
`HeaderValue::from_str` accept, and the values that `HeaderValue::to_str` reads. -/
class Http where
  isName : List Char → Bool
  isValue : List Char → Bool
  isText : List Char → Bool

/-- `HeaderName`: a text in lower case. -/
structure HeaderName where
  text : List Char
  lowercase : asciiLowercase text = text
  deriving DecidableEq

/-- `HeaderValue`: the text that its bytes encode. -/
structure HeaderValue where
  text : List Char
  deriving DecidableEq, Repr

section Checks

variable [Http]

def HeaderName.fromStr (text : List Char) : Option HeaderName :=
  if Http.isName text then some ⟨asciiLowercase text, asciiLowercase_asciiLowercase text⟩ else none

def HeaderValue.fromStr (text : List Char) : Option HeaderValue :=
  if Http.isValue text then some ⟨text⟩ else none

def HeaderValue.toStr (self : HeaderValue) : Option (List Char) :=
  if Http.isText self.text then some self.text else none

end Checks

/-- `HeaderMap`: the values of each name. -/
abbrev HeaderMap := HashMap HeaderName (List HeaderValue)

/-- The headers in one of the orders in which the map may yield them. -/
def HeaderMap.iter (self : HeaderMap) : List (HeaderName × HeaderValue) :=
  self.entries.flatMap fun entry => entry.2.map fun value => (entry.1, value)

/-! ## Extensions and sessions -/

def flightMetadataConfigPrefix : List Char :=
  "x-datafusion-distributed-config-".toList

/-- What `entries` of an extension shows for a key. -/
abbrev Options := List Char → Option (List Char)

/-- A type that implements `ConfigExtension` and `Default`. `set key value` is what `entries` shows
for the key once the value was set. -/
structure ConfigExtension where
  configPrefix : List Char
  keys : List (List Char)
  default : Options
  set : List Char → List Char → Result (List Char)

/-- What the modelled code reads of a `SessionConfig`: the extensions of its options, the name
spaces of the `ConfigExtensionPropagationContext`, and the `PassthroughHeaders`. -/
structure SessionConfig where
  extensions : List (ConfigExtension × Options) := []
  prefixes : List (List Char) := []
  passthroughHeaders : HeaderMap := ∅

namespace SessionConfig

/-- `extensions.get::<T>()`. -/
def getExtension (self : SessionConfig) (T : ConfigExtension) : Option Options :=
  (self.extensions.find? fun entry => entry.1.configPrefix = T.configPrefix).map Prod.snd

/-- `extensions.insert`, which replaces an extension of the same name space. -/
def insertExtension (self : SessionConfig) (T : ConfigExtension) (options : Options) :
    SessionConfig :=
  { self with
    extensions :=
      (self.extensions.filter fun entry => entry.1.configPrefix ≠ T.configPrefix) ++
        [(T, options)] }

end SessionConfig

def setDistributedOptionExtension (cfg : SessionConfig) (T : ConfigExtension) (t : Options) :
    SessionConfig :=
  let cfg := cfg.insertExtension T t
  { cfg with prefixes := cfg.prefixes ++ [T.configPrefix] }

section Propagation

variable [Http]

/-- Sets an option to the value of a header. -/
def ConfigExtension.setValue (T : ConfigExtension) (result : Options) (key : List Char)
    (value : HeaderValue) : Result Options :=
  match value.toStr with
  | none => .error (.internal "Cannot parse header value: failed to convert header to a str")
  | some text => do
    let shown ← T.set key text
    return Function.update result key (some shown)

/-- The loop body of `set_distributed_option_extension_from_headers`. -/
def ConfigExtension.setFromHeader (T : ConfigExtension) (result : Options)
    (header : HeaderName × HeaderValue) : Result Options :=
  let key := trimStartMatches flightMetadataConfigPrefix header.1.text
  let dotted := T.configPrefix ++ ['.']
  if dotted <+: key then
    let key := trimStartMatches dotted key
    if key ∈ T.keys then T.setValue result key header.2 else .ok result
  else .ok result

/-- `set_distributed_option_extension_from_headers`, with the headers in the order in which the map
yields them. -/
def setDistributedOptionExtensionFromHeaders (T : ConfigExtension) (cfg : SessionConfig)
    (headers : List (HeaderName × HeaderValue)) : Result SessionConfig := do
  let cfg := { cfg with prefixes := cfg.prefixes ++ [T.configPrefix] }
  let result ← headers.foldlM T.setFromHeader ((cfg.getExtension T).getD T.default)
  return cfg.insertExtension T result

/-- The inner loop body of `get_config_extension_propagation_headers`. -/
def insertEntry (extension : ConfigExtension × Options) (headers : HeaderMap) (key : List Char) :
    Result HeaderMap :=
  match extension.2 key with
  | none => .ok headers
  | some value =>
    match HeaderName.fromStr
        (flightMetadataConfigPrefix ++ (extension.1.configPrefix ++ '.' :: key)) with
    | none => .error (.internal "Failed to add config extension: invalid HTTP header name")
    | some name =>
      match HeaderValue.fromStr value with
      | none => .error (.internal "Failed to add config extension: failed to parse header value")
      | some value => .ok (headers.insert name [value])

def getConfigExtensionPropagationHeaders (cfg : SessionConfig) : Result HeaderMap :=
  if cfg.prefixes.isEmpty then .ok ∅
  else
    cfg.extensions.foldlM
      (fun headers extension =>
        if extension.1.configPrefix ∈ cfg.prefixes then
          extension.1.keys.foldlM (insertEntry extension) headers
        else .ok headers)
      ∅

end Propagation

/-! ## How a worker reads a name -/

/-- The option of `T` that a header of this name sets. -/
def ConfigExtension.readsAs (T : ConfigExtension) (name : HeaderName) : Option (List Char) :=
  let key := trimStartMatches flightMetadataConfigPrefix name.text
  let dotted := T.configPrefix ++ ['.']
  if dotted <+: key ∧ trimStartMatches dotted key ∈ T.keys then
    some (trimStartMatches dotted key)
  else none

/-- The options of a worker that was sent `options`: the value that was sent, or the default. -/
def ConfigExtension.arrived (T : ConfigExtension) (options : Options) : Options := fun key =>
  if key ∈ T.keys then (options key).or (T.default key) else T.default key

def ConfigExtension.headerName (T : ConfigExtension) (key : List Char) : HeaderName where
  text := asciiLowercase (flightMetadataConfigPrefix ++ (T.configPrefix ++ '.' :: key))
  lowercase := asciiLowercase_asciiLowercase _

/-- The worker reads the name of the option's header as the option: neither the name space nor the
key has upper-case letters, the name space does not start with the reserved text, and the key does
not start with the name space and a dot. -/
structure ConfigExtension.ReadsOwn (T : ConfigExtension) (key : List Char) : Prop where
  lowercase_prefix : asciiLowercase T.configPrefix = T.configPrefix
  lowercase_key : asciiLowercase key = key
  unreserved : ¬ flightMetadataConfigPrefix <+: T.configPrefix
  undotted : ¬ T.configPrefix ++ ['.'] <+: key

instance (T : ConfigExtension) (key : List Char) : Decidable (T.ReadsOwn key) :=
  decidable_of_iff
    (asciiLowercase T.configPrefix = T.configPrefix ∧ asciiLowercase key = key ∧
      ¬ flightMetadataConfigPrefix <+: T.configPrefix ∧ ¬ T.configPrefix ++ ['.'] <+: key)
    ⟨fun h => ⟨h.1, h.2.1, h.2.2.1, h.2.2.2⟩,
      fun h => ⟨h.lowercase_prefix, h.lowercase_key, h.unreserved, h.undotted⟩⟩

section Names

variable {T : ConfigExtension} {name : HeaderName} {key : List Char}

theorem flightMetadataConfigPrefix_ne_nil : flightMetadataConfigPrefix ≠ [] := by
  decide

/-- The reserved text has no dot, so it ends before the first dot of a name. -/
theorem reserved_isPrefix_iff {front rest : List Char} :
    flightMetadataConfigPrefix <+: front ++ '.' :: rest ↔ flightMetadataConfigPrefix <+: front := by
  constructor
  · intro h
    rcases List.prefix_or_prefix_of_prefix h (List.prefix_append front ('.' :: rest)) with h' | h'
    · exact h'
    · obtain ⟨middle, hmiddle⟩ := h'
      rw [← hmiddle, List.prefix_append_right_inj] at h
      cases middle with
      | nil => exact ⟨[], by simpa using hmiddle.symm⟩
      | cons c middle =>
        obtain ⟨rfl, -⟩ := List.cons_prefix_cons.mp h
        have hdot : '.' ∈ flightMetadataConfigPrefix := by
          rw [← hmiddle]
          simp
        exact absurd hdot (by decide)
  · intro h
    exact h.trans (List.prefix_append _ _)

/-- A name is read as an option if it is the reserved text, some times, the name space, once or more
often, and the key. -/
theorem ConfigExtension.readsAs_eq_some_iff :
    T.readsAs name = some key ↔
      key ∈ T.keys ∧ ¬ T.configPrefix ++ ['.'] <+: key ∧
        ∃ count, trimStartMatches flightMetadataConfigPrefix name.text =
          copies (count + 1) (T.configPrefix ++ ['.']) ++ key := by
  have hdotted : T.configPrefix ++ ['.'] ≠ [] := by simp
  unfold readsAs
  dsimp only
  generalize trimStartMatches flightMetadataConfigPrefix name.text = text
  constructor
  · intro hread
    obtain ⟨hcond, hread⟩ := Option.ite_none_right_eq_some.mp hread
    obtain ⟨⟨rest, hrest⟩, hkey⟩ := hcond
    rw [Option.some.injEq] at hread
    rw [hread] at hkey
    rw [← hrest, trimStartMatches_append hdotted] at hread
    obtain ⟨count, hcount, hundotted⟩ := (trimStartMatches_eq_iff hdotted).mp hread
    refine ⟨hkey, hundotted, count, ?_⟩
    rw [copies_succ, List.append_assoc (T.configPrefix ++ ['.']), ← hcount, hrest]
  · rintro ⟨hkey, hundotted, count, hcount⟩
    have htrim : trimStartMatches (T.configPrefix ++ ['.']) text = key :=
      (trimStartMatches_eq_iff hdotted).mpr ⟨count + 1, hcount, hundotted⟩
    rw [htrim, if_pos]
    refine ⟨?_, hkey⟩
    rw [hcount, copies_succ, List.append_assoc]
    exact List.prefix_append _ _

theorem ConfigExtension.ReadsOwn.of_readsAs (h : T.readsAs name = some key) :
    T.ReadsOwn key := by
  obtain ⟨-, hundotted, count, hcount⟩ := readsAs_eq_some_iff.mp h
  obtain ⟨reserved, htext, hreserved⟩ :=
    (trimStartMatches_eq_iff flightMetadataConfigPrefix_ne_nil).mp hcount
  have hlower := name.lowercase
  rw [htext, asciiLowercase_append_eq_iff, asciiLowercase_append_eq_iff, copies_succ,
    asciiLowercase_append_eq_iff, asciiLowercase_append_eq_iff] at hlower
  refine ⟨hlower.2.1.1.1, hlower.2.2, ?_, hundotted⟩
  rw [copies_succ, List.append_assoc, List.append_assoc, List.singleton_append,
    reserved_isPrefix_iff] at hreserved
  exact hreserved

/-- The name of an option's header, if the name space and the key are in lower case. -/
theorem ConfigExtension.ReadsOwn.text_headerName (h : T.ReadsOwn key) :
    (T.headerName key).text =
      flightMetadataConfigPrefix ++ (T.configPrefix ++ ['.'] ++ key) := by
  have hdot : asciiLowercase ('.' :: key) = '.' :: key := by
    rw [← List.singleton_append, asciiLowercase_append_eq_iff]
    exact ⟨by decide, h.lowercase_key⟩
  show asciiLowercase (flightMetadataConfigPrefix ++ (T.configPrefix ++ '.' :: key)) = _
  rw [asciiLowercase_append, asciiLowercase_append, h.lowercase_prefix, hdot, List.append_assoc]
  rfl

/-- The header of an option as other extensions see it, without the reserved text. -/
theorem ConfigExtension.ReadsOwn.trim_headerName (h : T.ReadsOwn key) :
    trimStartMatches flightMetadataConfigPrefix (T.headerName key).text =
      T.configPrefix ++ ['.'] ++ key := by
  rw [h.text_headerName, trimStartMatches_append flightMetadataConfigPrefix_ne_nil]
  apply trimStartMatches_of_not_isPrefix
  rw [List.append_assoc, List.singleton_append, reserved_isPrefix_iff]
  exact h.unreserved

/-- The options that other extensions' headers may be taken for: the name of the header is the name
space, once or more often, and the key. -/
theorem ConfigExtension.readsAs_headerName_iff {T' : ConfigExtension} {key' : List Char}
    (h : T'.ReadsOwn key') :
    T.readsAs (T'.headerName key') = some key ↔
      key ∈ T.keys ∧ ¬ T.configPrefix ++ ['.'] <+: key ∧
        ∃ count, T'.configPrefix ++ ['.'] ++ key' =
          copies (count + 1) (T.configPrefix ++ ['.']) ++ key := by
  rw [readsAs_eq_some_iff, h.trim_headerName]

theorem ConfigExtension.ReadsOwn.readsAs_headerName (h : T.ReadsOwn key) (hkey : key ∈ T.keys) :
    T.readsAs (T.headerName key) = some key := by
  rw [readsAs_headerName_iff h]
  refine ⟨hkey, h.undotted, 0, ?_⟩
  rw [copies_succ, copies_zero, List.append_nil]

theorem ConfigExtension.setFromHeader_eq [Http] (result : Options)
    (header : HeaderName × HeaderValue) :
    T.setFromHeader result header =
      (T.readsAs header.1).elim (.ok result) fun key => T.setValue result key header.2 := by
  unfold setFromHeader readsAs
  dsimp only
  split_ifs <;> simp_all

end Names

end DatafusionDistributed
