import DatafusionDistributed.Common

/-!
# Functions of the user on the wire

`DistributedCodecWithUserCodecs` asks the codecs that the user registered, in their order, to
write and to read a scalar, aggregate or window function. The first codec that writes bytes for
a function wins, and the first codec that reads the bytes wins; which codec wrote them is not
recorded.

A codec is its six methods. What a method appends before it fails is kept in the model, because
the composed codec has to cut it off again.

`userFunction_roundTrips_iff` says for which functions the round trip is right.
-/

namespace DatafusionDistributed

inductive FunctionKind where
  | scalar
  | aggregate
  | window
  deriving DecidableEq, Repr

/-- The name of the kind in the errors of the codec. -/
def FunctionKind.label : FunctionKind → String
  | scalar => "ScalarUDF"
  | aggregate => "AggregateUDF"
  | window => "WindowUDF"

/-- The methods of one registered `PhysicalExtensionCodec` that are about functions. `tryEncode`
gives the bytes it appended to the buffer, and how it ended. -/
structure UserCodec (F : Type) where
  tryEncode : FunctionKind → F → List UInt8 × Result Unit
  tryDecode : FunctionKind → String → List UInt8 → Result F

def DataFusionError.isNotImplemented : DataFusionError → Bool
  | notImplemented _ => true
  | _ => false

structure DistributedCodecWithUserCodecs (F : Type) where
  userCodecs : List (UserCodec F)

namespace DistributedCodecWithUserCodecs

variable {F : Type}

/-- The loop of the three `try_decode` methods, with the last refusal so far. -/
def decodeWith (kind : FunctionKind) (name : String) (buf : List UInt8) :
    List (UserCodec F) → Option DataFusionError → Result F
  | [], lastErr => .error (lastErr.getD (.notImplemented
      s!"{kind.label} '{name}' is not supported by any registered user PhysicalExtensionCodec"))
  | codec :: codecs, _ =>
    match codec.tryDecode kind name buf with
    | .ok function => .ok function
    | .error err =>
      if err.isNotImplemented then decodeWith kind name buf codecs (some err) else .error err

/-- The loop of the three `try_encode` methods. The buffer is left as it was when no codec writes
anything. -/
def encodeWith (kind : FunctionKind) (function : F) (buf : List UInt8) :
    List (UserCodec F) → Result (List UInt8)
  | [] => .ok buf
  | codec :: codecs =>
    let startLen := buf.length
    let (bytes, result) := codec.tryEncode kind function
    let buf := buf ++ bytes
    match result with
    | .ok () =>
      if startLen < buf.length then .ok buf
      else encodeWith kind function (buf.take startLen) codecs
    | .error err =>
      if err.isNotImplemented then encodeWith kind function (buf.take startLen) codecs
      else .error err

def tryDecodeUdf (self : DistributedCodecWithUserCodecs F) (name : String) (buf : List UInt8) :
    Result F :=
  decodeWith .scalar name buf self.userCodecs none

def tryEncodeUdf (self : DistributedCodecWithUserCodecs F) (node : F) (buf : List UInt8) :
    Result (List UInt8) :=
  encodeWith .scalar node buf self.userCodecs

def tryDecodeUdaf (self : DistributedCodecWithUserCodecs F) (name : String) (buf : List UInt8) :
    Result F :=
  decodeWith .aggregate name buf self.userCodecs none

def tryEncodeUdaf (self : DistributedCodecWithUserCodecs F) (node : F) (buf : List UInt8) :
    Result (List UInt8) :=
  encodeWith .aggregate node buf self.userCodecs

def tryDecodeUdwf (self : DistributedCodecWithUserCodecs F) (name : String) (buf : List UInt8) :
    Result F :=
  decodeWith .window name buf self.userCodecs none

def tryEncodeUdwf (self : DistributedCodecWithUserCodecs F) (node : F) (buf : List UInt8) :
    Result (List UInt8) :=
  encodeWith .window node buf self.userCodecs

/-- The method that a function of the kind is encoded with. -/
def tryEncode (self : DistributedCodecWithUserCodecs F) :
    FunctionKind → F → List UInt8 → Result (List UInt8)
  | .scalar => self.tryEncodeUdf
  | .aggregate => self.tryEncodeUdaf
  | .window => self.tryEncodeUdwf

/-- The method that a function of the kind is decoded with. -/
def tryDecode (self : DistributedCodecWithUserCodecs F) :
    FunctionKind → String → List UInt8 → Result F
  | .scalar => self.tryDecodeUdf
  | .aggregate => self.tryDecodeUdaf
  | .window => self.tryDecodeUdwf

theorem tryEncode_eq (self : DistributedCodecWithUserCodecs F) (kind : FunctionKind) (function : F)
    (buf : List UInt8) :
    self.tryEncode kind function buf = encodeWith kind function buf self.userCodecs := by
  cases kind <;> rfl

theorem tryDecode_eq (self : DistributedCodecWithUserCodecs F) (kind : FunctionKind)
    (name : String) (buf : List UInt8) :
    self.tryDecode kind name buf = decodeWith kind name buf self.userCodecs none := by
  cases kind <;> rfl

end DistributedCodecWithUserCodecs

/-! ## What one codec does with a function -/

namespace UserCodec

variable {F : Type} (self : UserCodec F) (kind : FunctionKind)

/-- The codec encodes the function with the payload `bytes`. -/
def Writes (function : F) (bytes : List UInt8) : Prop :=
  self.tryEncode kind function = (bytes, .ok ()) ∧ bytes ≠ []

/-- The codec leaves the function to the codecs after it: it reports that it does not know the
function, or reports nothing and writes nothing. -/
def PassesOn (function : F) : Prop :=
  (∃ bytes message, self.tryEncode kind function = (bytes, .error (.notImplemented message))) ∨
    self.tryEncode kind function = ([], .ok ())

/-- The codec reports that it cannot read the payload. -/
def TurnsDown (name : String) (bytes : List UInt8) : Prop :=
  ∃ message, self.tryDecode kind name bytes = .error (.notImplemented message)

/-- Taken alone, the codec reads back every payload that it wrote. `name` is the name that a
function is registered under, which travels beside the payload. -/
def ReadsBack (name : F → String) : Prop :=
  ∀ (kind : FunctionKind) (function : F) (bytes : List UInt8),
    self.Writes kind function bytes → self.tryDecode kind (name function) bytes = .ok function

end UserCodec

/-! ## What the list of codecs does with a function -/

namespace DistributedCodecWithUserCodecs

variable {F : Type} {kind : FunctionKind} {codecs : List (UserCodec F)}

variable {codec : UserCodec F} {bytes : List UInt8} {before : List (UserCodec F)}

theorem encodeWith_passesOn {function : F} (h : codec.PassesOn kind function) (buf : List UInt8) :
    encodeWith kind function buf (codec :: codecs) = encodeWith kind function buf codecs := by
  rcases h with ⟨bytes, message, h⟩ | h
  · simp [encodeWith, h, DataFusionError.isNotImplemented]
  · simp [encodeWith, h]

theorem encodeWith_writes {function : F} (h : codec.Writes kind function bytes) (buf : List UInt8) :
    encodeWith kind function buf (codec :: codecs) = .ok (buf ++ bytes) := by
  obtain ⟨hwrite, hbytes⟩ := h
  have hlength : buf.length < (buf ++ bytes).length := by
    have := List.length_pos_iff.mpr hbytes
    rw [List.length_append]
    omega
  simp only [encodeWith, hwrite, if_pos hlength]

/-- The codecs before the first one that writes have no part in the encoding. -/
theorem encodeWith_append {function : F} (h : ∀ codec ∈ before, codec.PassesOn kind function)
    (buf : List UInt8) :
    encodeWith kind function buf (before ++ codecs) = encodeWith kind function buf codecs := by
  induction before with
  | nil => rfl
  | cons codec before ih =>
    rw [List.forall_mem_cons] at h
    rw [List.cons_append, encodeWith_passesOn h.1, ih h.2]

/-- Codecs that turn the payload down have no part in the decoding. -/
theorem decodeWith_append {name : String} (h : ∀ codec ∈ before, codec.TurnsDown kind name bytes)
    (lastErr : Option DataFusionError) :
    ∃ lastErr', decodeWith kind name bytes (before ++ codecs) lastErr =
      decodeWith kind name bytes codecs lastErr' := by
  induction before generalizing lastErr with
  | nil => exact ⟨lastErr, rfl⟩
  | cons codec before ih =>
    rw [List.forall_mem_cons] at h
    obtain ⟨⟨message, hcodec⟩, hbefore⟩ := h
    obtain ⟨lastErr', hrest⟩ := ih hbefore (some (.notImplemented message))
    refine ⟨lastErr', ?_⟩
    rw [List.cons_append, decodeWith, hcodec]
    exact hrest

theorem decodeWith_reads {name : String} {function : F}
    (h : codec.tryDecode kind name bytes = .ok function) (lastErr : Option DataFusionError) :
    decodeWith kind name bytes (codec :: codecs) lastErr = .ok function := by
  rw [decodeWith, h]

/-- The codec at `index` is the one that encodes the function: the codecs before it pass the
function on, and it writes `bytes`. -/
def EncodedBy (self : DistributedCodecWithUserCodecs F) (kind : FunctionKind) (function : F)
    (bytes : List UInt8) (index : ℕ) : Prop :=
  (∀ codec ∈ self.userCodecs.take index, codec.PassesOn kind function) ∧
    ∃ codec, self.userCodecs[index]? = some codec ∧ codec.Writes kind function bytes

/-- The codec at `index` is the one that answers for the payload: the codecs before it turn the
payload down, and it does not. -/
def DecodedBy (self : DistributedCodecWithUserCodecs F) (kind : FunctionKind) (name : String)
    (bytes : List UInt8) (index : ℕ) : Prop :=
  (∀ codec ∈ self.userCodecs.take index, codec.TurnsDown kind name bytes) ∧
    ∃ codec, self.userCodecs[index]? = some codec ∧ ¬ codec.TurnsDown kind name bytes

/-- The round trip of a function: some codec encodes it, decoding the bytes gives the function
again, and the codec that answers is the one that wrote. -/
def RoundTrips (self : DistributedCodecWithUserCodecs F) (name : F → String) (kind : FunctionKind)
    (function : F) : Prop :=
  ∃ bytes index, self.tryEncode kind function [] = .ok bytes ∧
    self.EncodedBy kind function bytes index ∧
    self.tryDecode kind (name function) bytes = .ok function ∧
    self.DecodedBy kind (name function) bytes index

/-- The codecs before the first one that does not pass the function on turn down what that one
writes. -/
def Undisputed (self : DistributedCodecWithUserCodecs F) (name : F → String) (kind : FunctionKind)
    (function : F) : Prop :=
  ∃ before codec after bytes, self.userCodecs = before ++ codec :: after ∧
    (∀ earlier ∈ before, earlier.PassesOn kind function ∧
      earlier.TurnsDown kind (name function) bytes) ∧
    codec.Writes kind function bytes

variable {self : DistributedCodecWithUserCodecs F} {name : F → String} {function : F}

theorem Undisputed.roundTrips (hcodecs : ∀ codec ∈ self.userCodecs, codec.ReadsBack name)
    (h : self.Undisputed name kind function) : self.RoundTrips name kind function := by
  obtain ⟨before, codec, after, bytes, hlist, hbefore, hwrites⟩ := h
  have hread : codec.tryDecode kind (name function) bytes = .ok function :=
    hcodecs codec (by simp [hlist]) kind function bytes hwrites
  have htake : self.userCodecs.take before.length = before := by simp [hlist]
  have hget : self.userCodecs[before.length]? = some codec := by simp [hlist]
  refine ⟨bytes, before.length, ?_, ⟨?_, codec, hget, hwrites⟩, ?_, ⟨?_, codec, hget, ?_⟩⟩
  · rw [tryEncode_eq, hlist, encodeWith_append fun c hc => (hbefore c hc).1,
      encodeWith_writes hwrites]
    rfl
  · rw [htake]
    exact fun c hc => (hbefore c hc).1
  · obtain ⟨lastErr, hdecode⟩ : ∃ lastErr,
        decodeWith kind (name function) bytes (before ++ codec :: after) none =
          decodeWith kind (name function) bytes (codec :: after) lastErr :=
      decodeWith_append (fun c hc => (hbefore c hc).2) none
    rw [tryDecode_eq, hlist, hdecode, decodeWith_reads hread]
  · rw [htake]
    exact fun c hc => (hbefore c hc).2
  · rintro ⟨message, hdown⟩
    rw [hread] at hdown
    cases hdown

theorem RoundTrips.undisputed (h : self.RoundTrips name kind function) :
    self.Undisputed name kind function := by
  obtain ⟨bytes, index, -, ⟨hpass, codec, hget, hwrites⟩, -, ⟨hdown, -⟩⟩ := h
  obtain ⟨hlt, rfl⟩ := List.getElem?_eq_some_iff.mp hget
  refine ⟨self.userCodecs.take index, self.userCodecs[index], self.userCodecs.drop (index + 1),
    bytes, ?_, fun earlier hearlier => ⟨hpass earlier hearlier, hdown earlier hearlier⟩, hwrites⟩
  rw [List.getElem_cons_drop, List.take_append_drop]

/-- If every codec reads back what it wrote, a function survives the list of codecs exactly if
the codecs before its writer pass it on and turn its payload down. -/
theorem userFunction_roundTrips_iff
    (hcodecs : ∀ codec ∈ self.userCodecs, codec.ReadsBack name) :
    self.RoundTrips name kind function ↔ self.Undisputed name kind function :=
  ⟨RoundTrips.undisputed, Undisputed.roundTrips hcodecs⟩

end DistributedCodecWithUserCodecs

/-! ## Two codecs -/

/-- A codec of functions that are one byte each. -/
def byteCodec : UserCodec UInt8 where
  tryEncode _ function := ([function], .ok ())
  tryDecode _ _ bytes := match bytes with
    | [function] => .ok function
    | _ => .error (.internal "Expected one byte")

/-- A codec of one function, `0`: it writes nothing, as a codec that leaves `try_encode_udf` at its
default does, and makes its function of any payload. -/
def eagerCodec : UserCodec UInt8 where
  tryEncode _ _ := ([], .ok ())
  tryDecode _ _ _ := .ok 0

/-- A codec of plans only. -/
def plansOnlyCodec : UserCodec UInt8 where
  tryEncode _ _ := ([], .ok ())
  tryDecode _ name _ := .error (.notImplemented name)

theorem byteCodec_readsBack (name : UInt8 → String) : byteCodec.ReadsBack name := by
  rintro kind function bytes ⟨hwrite, -⟩
  cases hwrite
  rfl

theorem readsBack_of_writes_nothing {codec : UserCodec UInt8} {name : UInt8 → String}
    (h : ∀ kind function, codec.tryEncode kind function = ([], .ok ())) :
    codec.ReadsBack name := by
  rintro kind function bytes ⟨hwrite, hbytes⟩
  rw [h] at hwrite
  cases hwrite
  exact absurd rfl hbytes

theorem byteCodec_writes (kind : FunctionKind) (function : UInt8) :
    byteCodec.Writes kind function [function] :=
  ⟨rfl, by simp⟩

/-- The eager codec does not write the function `7`, but reads the payload that the codec after it
wrote, and makes the function `0` of it. -/
theorem eager_codec_misreads :
    (∀ codec ∈ [eagerCodec, byteCodec], codec.ReadsBack fun _ => "udf") ∧
      (∃ codec ∈ [eagerCodec, byteCodec], codec.Writes .scalar 7 [7]) ∧
      (⟨[eagerCodec, byteCodec]⟩ : DistributedCodecWithUserCodecs UInt8).tryEncode .scalar 7 [] =
        .ok [7] ∧
      (⟨[eagerCodec, byteCodec]⟩ : DistributedCodecWithUserCodecs UInt8).tryDecode .scalar "udf"
        [7] = .ok 0 ∧
      ¬ (⟨[eagerCodec, byteCodec]⟩ : DistributedCodecWithUserCodecs UInt8).RoundTrips
        (fun _ => "udf") .scalar 7 := by
  refine ⟨?_, ⟨byteCodec, by simp, byteCodec_writes .scalar 7⟩, rfl, rfl, ?_⟩
  · rw [List.forall_mem_cons, List.forall_mem_singleton]
    exact ⟨readsBack_of_writes_nothing fun _ _ => rfl, byteCodec_readsBack _⟩
  · rintro ⟨bytes, index, hencode, -, hdecode, -⟩
    cases hdecode

/-- Behind a codec that turns the payload down the function survives. -/
theorem byte_function_survives :
    (⟨[plansOnlyCodec, byteCodec]⟩ : DistributedCodecWithUserCodecs UInt8).RoundTrips
      (fun _ => "udf") .window 7 := by
  refine (DistributedCodecWithUserCodecs.userFunction_roundTrips_iff ?_).mpr
    ⟨[plansOnlyCodec], byteCodec, [], [7], rfl, ?_, byteCodec_writes .window 7⟩
  · rw [List.forall_mem_cons, List.forall_mem_singleton]
    exact ⟨readsBack_of_writes_nothing fun _ _ => rfl, byteCodec_readsBack _⟩
  · rw [List.forall_mem_singleton]
    exact ⟨Or.inr rfl, "udf", rfl⟩

end DatafusionDistributed
