import DeferredDefaults.Proofs.Codec.Chunking

/-!
Reading on behind a failure. Reads fail until the source has been taken from without a failure and
what it gave has been decoded; then every read succeeds, and what they hand out begins the text of
the bytes of that one attempt. Bytes of earlier attempts are lost. So the bytes handed out begin the
text of the whole source only if no failure has come behind a byte and no attempt has been made on
bytes that cannot be decoded.
-/

set_option autoImplicit false
set_option relaxedAutoImplicit false

namespace DeferredDefaults

namespace Source

variable {σ : Type} [Source σ] {source : σ}

/-- The source when it has been taken from a number of times. -/
def behind : (count : Nat) → σ → σ
  | 0, source => source
  | count + 1, source => behind count (takeAll source).rest

def Dry (source : σ) : Prop :=
  ∀ count, (takeAll (behind count source)).bytes = [] ∧
    (takeAll (behind count source)).failed = false

/-- A source that fails does so in front of the bytes that it still has to give. -/
def FailsFirst (source : σ) : Prop :=
  ∀ count, (takeAll (behind count source)).failed = true →
    (takeAll (behind count source)).bytes = []

/-- The complete content of a source: all bytes that come up to its end, over any number of
failures. -/
inductive Holds : σ → List UInt8 → Prop where
  | ended {source : σ} : (takeAll source).failed = false → Dry (takeAll source).rest →
      Holds source (takeAll source).bytes
  | failed {source : σ} {content : List UInt8} : (takeAll source).failed = true →
      Holds (takeAll source).rest content → Holds source ((takeAll source).bytes ++ content)

private theorem Dry.now (dry : Dry source) :
    (takeAll source).bytes = [] ∧ (takeAll source).failed = false :=
  dry 0

private theorem Dry.rest (dry : Dry source) :
    Dry (takeAll source).rest := fun count => dry (count + 1)

private theorem FailsFirst.now (failsFirst : FailsFirst source)
    (failed : (takeAll source).failed = true) :
    (takeAll source).bytes = [] := failsFirst 0 failed

private theorem FailsFirst.rest (failsFirst : FailsFirst source) :
    FailsFirst (takeAll source).rest :=
  fun count => failsFirst (count + 1)

private theorem dry_empty : Dry (⟨[], none⟩ : ByteSource) := by
  intro count
  induction count with
  | zero => exact ⟨rfl, rfl⟩
  | succ count ih => exact ih

private theorem holds_byteSource (source : ByteSource) : Holds source source.bytes := by
  obtain ⟨bytes, failAfter⟩ := source
  cases failAfter with
  | none => exact .ended rfl dry_empty
  | some count =>
    have more : Holds (⟨bytes.drop count, none⟩ : ByteSource) (bytes.drop count) :=
      .ended rfl dry_empty
    have whole : Holds (⟨bytes, some count⟩ : ByteSource) (bytes.take count ++ bytes.drop count) :=
      .failed rfl more
    rwa [List.take_append_drop] at whole

private theorem failsFirst_byteSource (bytes : List UInt8) :
    FailsFirst (⟨bytes, some 0⟩ : ByteSource) := by
  intro count failed
  cases count with
  | zero => rfl
  | succ count =>
    cases count with
    | zero => cases failed
    | succ count =>
      rw [show behind (count + 1 + 1) (⟨bytes, some 0⟩ : ByteSource) = behind count ⟨[], none⟩ from rfl,
        (dry_empty count).2] at failed
      cases failed

end Source

namespace DecodingReader

open Source (takeAll Dry FailsFirst Holds)

variable {σ : Type} [Source σ] {registry : Registry} {reader : DecodingReader σ}

def emptied (reader : DecodingReader σ) : DecodingReader σ :=
  { reader with source := (takeAll reader.source).rest }

/-- The text that a reader hands out in the end: that of the bytes that its source gives at the first
take that does not fail and can be decoded. -/
inductive Settles (registry : Registry) : DecodingReader σ → String → Prop where
  | decoded {reader : DecodingReader σ} {text : String} : (takeAll reader.source).failed = false →
      reader.decode registry (takeAll reader.source).bytes = .ok text → Settles registry reader text
  | failed {reader : DecodingReader σ} {text : String} : (takeAll reader.source).failed = true →
      Settles registry reader.emptied text → Settles registry reader text
  | refused {reader : DecodingReader σ} {text : String} {failure : Failure} :
      (takeAll reader.source).failed = false →
      reader.decode registry (takeAll reader.source).bytes = .error failure →
      Settles registry reader.emptied text → Settles registry reader text

/-- What reads of given sizes come to: they fail until the reader settles on a text, and then hand
out this text. -/
def Unfolds (registry : Registry) (reader : DecodingReader σ) (sizes : List Nat)
    (results : List (Except ReadFault (List UInt8))) : Prop :=
  ∃ (faults : List ReadFault) (chunks : List (List UInt8)),
    results = faults.map .error ++ chunks.map .ok ∧
    (chunks = [] ∨ ∃ text, Settles registry reader text ∧
      chunks.flatten = text.toUTF8.data.toList.take (sizes.drop faults.length).sum)

private theorem Unfolds.cons {size : Nat} {sizes : List Nat} {fault : ReadFault}
    (vain : reader.read registry size = (.error fault, reader.emptied))
    (unfolds : Unfolds registry reader.emptied sizes (readEach registry sizes reader.emptied))
    (settles : ∀ text, Settles registry reader.emptied text → Settles registry reader text) :
    Unfolds registry reader (size :: sizes) (readEach registry (size :: sizes) reader) := by
  obtain ⟨faults, chunks, results, handed⟩ := unfolds
  refine ⟨fault :: faults, chunks, ?_, ?_⟩
  · rw [readEach, vain]
    exact congrArg (_ :: ·) results
  · exact handed.imp_right fun settled => settled.imp fun text => And.imp_left (settles text)

/-- Reads of a fresh reader fail until it settles on a text, and then hand out this text. -/
private theorem unfolds_readEach (fresh : reader.decoded = none) (registry : Registry)
    (sizes : List Nat) : Unfolds registry reader sizes (readEach registry sizes reader) := by
  induction sizes generalizing reader with
  | nil => exact ⟨[], [], rfl, .inl rfl⟩
  | cons size sizes ih =>
    have again : Unfolds registry reader.emptied sizes (readEach registry sizes reader.emptied) :=
      ih fresh
    cases failed : (takeAll reader.source).failed with
    | true =>
      have vain : reader.read registry size = (.error .source, reader.emptied) := by
        simp only [read, fill, fresh, load, failed, if_true, emptied]
      exact again.cons vain fun _ => .failed failed
    | false =>
      cases decodes : reader.decode registry (takeAll reader.source).bytes with
      | error failure =>
        have vain : reader.read registry size = (.error (.decoding failure), reader.emptied) := by
          simp only [read, fill, fresh, load, failed, decodes, Bool.false_eq_true, if_false, emptied]
        exact again.cons vain fun _ => .refused failed decodes
      | ok text =>
        obtain ⟨results, -⟩ := readUnder_of_fresh fresh failed decodes size (sizes.map (registry, ·))
        rw [List.map_map, Function.comp_def, List.map_id'] at results
        refine ⟨[], (Buffer.full text.toUTF8.data.toList).chunks (size :: sizes), ?_,
          .inr ⟨text, .decoded failed decodes, Buffer.flatten_chunks _ _⟩⟩
        rw [readEach_eq]
        exact results

private theorem Unfolds.delivered {sizes : List Nat}
    {results : List (Except ReadFault (List UInt8))}
    (unfolds : Unfolds registry reader sizes results) :
    DecodingReader.delivered results = [] ∨ ∃ text, Settles registry reader text ∧
      DecodingReader.delivered results <+: text.toUTF8.data.toList := by
  obtain ⟨faults, chunks, rfl, handed⟩ := unfolds
  have none : DecodingReader.delivered (faults.map .error) = [] := by
    simp [DecodingReader.delivered, Except.toOption]
  rw [DecodingReader.delivered, List.flatMap_append, ← DecodingReader.delivered,
    ← DecodingReader.delivered, none, List.nil_append, delivered_ok]
  rcases handed with rfl | ⟨text, settles, flat⟩
  · exact .inl rfl
  · exact .inr ⟨text, settles, flat ▸ List.take_prefix _ _⟩

private theorem Settles.of_dry {text : String} (settles : Settles registry reader text)
    (dry : Dry reader.source) : reader.decode registry [] = .ok text := by
  induction settles with
  | decoded _ decodes =>
    rw [dry.now.1] at decodes
    exact decodes
  | failed failed =>
    rw [dry.now.2] at failed
    cases failed
  | refused _ _ _ ih => exact ih dry.rest

/-- Where no failure comes behind a byte, a reader settles on the text of the whole content, or on
that of the empty source if the content cannot be decoded. -/
private theorem Settles.of_holds {text : String} (settles : Settles registry reader text)
    {content : List UInt8} (holds : Holds reader.source content)
    (failsFirst : FailsFirst reader.source) :
    reader.decode registry content = .ok text ∨
      (∃ failure, reader.decode registry content = .error failure) ∧
        reader.decode registry [] = .ok text := by
  induction settles generalizing content with
  | decoded ended decodes =>
    cases holds with
    | ended => exact .inl decodes
    | failed failed =>
      rw [ended] at failed
      cases failed
  | failed failed _ ih =>
    cases holds with
    | ended ended =>
      rw [ended] at failed
      cases failed
    | failed _ more =>
      rw [failsFirst.now failed]
      exact ih more failsFirst.rest
  | refused ended refuses again =>
    cases holds with
    | ended _ dry => exact .inr ⟨⟨_, refuses⟩, again.of_dry dry⟩
    | failed failed =>
      rw [ended] at failed
      cases failed

omit [Source σ] in
private theorem decode_nil (noCodec : reader.codec = none) (registry : Registry) :
    reader.decode registry [] = .ok "" := by
  rw [decode, noCodec]
  rfl

/-- Reads fail until the reader settles on a text, and then hand out this text. If no failure comes
behind a byte, and the content can be decoded or the reader has no codec of its own, the bytes handed
out begin the text of the whole content, and there are none if it has no text. -/
theorem readEach_sound (fresh : reader.decoded = none) {content : List UInt8}
    (holds : Holds reader.source content) (registry : Registry) (sizes : List Nat) :
    Unfolds registry reader sizes (readEach registry sizes reader) ∧
      (FailsFirst reader.source →
        reader.codec = none ∨ (∃ text, reader.decode registry content = .ok text) →
        (∀ text, reader.decode registry content = .ok text →
          delivered (readEach registry sizes reader) <+: text.toUTF8.data.toList) ∧
        (∀ failure, reader.decode registry content = .error failure →
          delivered (readEach registry sizes reader) = [])) := by
  have unfolds := unfolds_readEach fresh registry sizes
  refine ⟨unfolds, fun failsFirst decodable => ?_⟩
  rcases unfolds.delivered with nothing | ⟨text, settles, begins⟩
  · rw [nothing]
    exact ⟨fun text _ => List.nil_prefix, fun failure _ => rfl⟩
  · rcases settles.of_holds holds failsFirst with decodes | ⟨⟨failure, refuses⟩, empty⟩
    · refine ⟨fun other same => ?_, fun failure refuses => ?_⟩
      · rw [decodes] at same
        cases same
        exact begins
      · rw [decodes] at refuses
        cases refuses
    · have noCodec : reader.codec = none := by
        rcases decodable with noCodec | ⟨other, decodes⟩
        · exact noCodec
        · rw [refuses] at decodes
          cases decodes
      rw [decode_nil noCodec registry] at empty
      cases empty
      have nothing : "".toUTF8.data.toList = [] := by decide
      rw [nothing] at begins
      refine ⟨fun other decodes => ?_, fun _ _ => List.prefix_nil.1 begins⟩
      rw [refuses] at decodes
      cases decodes

def delayedReader : DecodingReader where
  source := ⟨"def f(a => (1)): a\n".toUTF8.data.toList, some 0⟩
  codec := some (.standard {})

theorem readEach_sound_delayed :
    delayedReader.decoded = none ∧ Holds delayedReader.source delayedReader.source.bytes ∧
      FailsFirst delayedReader.source ∧
      ∃ text, delayedReader.decode {} delayedReader.source.bytes = .ok text ∧
        delivered (readEach {} [9, 0, 7, 4096] delayedReader) <+: text.toUTF8.data.toList := by
  have holds := Source.holds_byteSource delayedReader.source
  have failsFirst : FailsFirst delayedReader.source := Source.failsFirst_byteSource _
  have isOk : (delayedReader.decode {} delayedReader.source.bytes).isOk = true := by
    decide +kernel
  refine ⟨rfl, holds, failsFirst, ?_⟩
  cases decodes : delayedReader.decode {} delayedReader.source.bytes with
  | error failure =>
    rw [decodes] at isOk
    cases isOk
  | ok text =>
    have fresh : delayedReader.decoded = none := rfl
    obtain ⟨-, sound⟩ := readEach_sound fresh holds {} [9, 0, 7, 4096]
    exact ⟨text, rfl, (sound failsFirst (.inr ⟨text, decodes⟩)).1 text decodes⟩

end DecodingReader

end DeferredDefaults
