import DeferredDefaults.Codec.DecodingReader
import Mathlib.Algebra.GroupWithZero.Nat
import Mathlib.Data.List.Basic

/-!
Reading in pieces. Whatever the sizes of the reads, they hand out the decoded bytes one behind the
other: none is skipped and none comes twice. The first read loads the source, and no later one does.
-/

set_option autoImplicit false
set_option relaxedAutoImplicit false

namespace DeferredDefaults

namespace Buffer

private theorem chunk_eq (buffer : Buffer) (size : Nat) :
    buffer.chunk size = buffer.available.take size := by
  rw [chunk, copied, Nat.min_comm, ← List.take_eq_take_min]

private theorem available_advance (buffer : Buffer) (size : Nat) :
    (buffer.advance size).available = buffer.available.drop size := by
  rw [List.drop_eq_drop_min, Nat.min_comm, available, available, List.drop_drop]
  rfl

def chunks : List Nat → Buffer → List (List UInt8)
  | [], _ => []
  | size :: sizes, buffer => buffer.chunk size :: chunks sizes (buffer.advance size)

private theorem length_chunks (sizes : List Nat) (buffer : Buffer) :
    (chunks sizes buffer).length = sizes.length := by
  induction sizes generalizing buffer with
  | nil => rfl
  | cons size sizes ih => rw [chunks, List.length_cons, ih, List.length_cons]

private theorem getElem?_chunks (sizes : List Nat) (buffer : Buffer) (index : Nat) :
    (chunks sizes buffer)[index]? =
      sizes[index]?.map fun size => (buffer.available.drop (sizes.take index).sum).take size := by
  induction sizes generalizing buffer index with
  | nil => rfl
  | cons size sizes ih =>
    rw [chunks]
    cases index with
    | zero => rw [List.getElem?_cons_zero, chunk_eq]; rfl
    | succ index =>
      rw [List.getElem?_cons_succ, ih, List.getElem?_cons_succ, List.take_succ_cons, List.sum_cons,
        available_advance, List.drop_drop]

theorem flatten_chunks (sizes : List Nat) (buffer : Buffer) :
    (chunks sizes buffer).flatten = buffer.available.take sizes.sum := by
  induction sizes generalizing buffer with
  | nil => rfl
  | cons size sizes ih =>
    rw [chunks, List.flatten_cons, ih, chunk_eq, available_advance, List.sum_cons, List.take_add]

end Buffer

namespace DecodingReader

variable {σ : Type} [Source σ] {reader : DecodingReader σ} {buffer : Buffer}

/-- Reads one after the other, each with the registry of its time and a size. The reader behind
them comes back. -/
def readUnder : List (Registry × Nat) → DecodingReader σ →
    List (Except ReadFault (List UInt8)) × DecodingReader σ
  | [], reader => ([], reader)
  | (registry, size) :: rest, reader =>
    let first := reader.read registry size
    let others := readUnder rest first.2
    (first.1 :: others.1, others.2)

/-- The number of reads that load the source. -/
def loads : List (Registry × Nat) → DecodingReader σ → Nat
  | [], _ => 0
  | (registry, size) :: rest, reader =>
    (if reader.decoded.isNone then 1 else 0) + loads rest (reader.read registry size).2

/-- The bytes that all successful reads have handed out. -/
def delivered (results : List (Except ReadFault (List UInt8))) : List UInt8 :=
  results.flatMap fun result => result.toOption.getD []

theorem delivered_ok (chunks : List (List UInt8)) : delivered (chunks.map .ok) = chunks.flatten := by
  rw [delivered, List.flatMap_map, ← List.flatMap_id]
  rfl

theorem readEach_eq (registry : Registry) (sizes : List Nat) (reader : DecodingReader σ) :
    readEach registry sizes reader = (readUnder (sizes.map (registry, ·)) reader).1 := by
  induction sizes generalizing reader with
  | nil => rfl
  | cons size sizes ih =>
    rw [readEach]
    exact congrArg (_ :: ·) (ih _)

private theorem read_of_decoded (found : reader.decoded = some buffer) (registry : Registry)
    (size : Nat) :
    reader.read registry size =
      (.ok (buffer.chunk size), { reader with decoded := some (buffer.advance size) }) := by
  rw [read, fill, found]

private theorem read_of_fresh (fresh : reader.decoded = none) {registry : Registry} {text : String}
    (ended : (Source.takeAll reader.source).failed = false)
    (decodes : reader.decode registry (Source.takeAll reader.source).bytes = .ok text)
    (size : Nat) :
    reader.read registry size =
      (.ok ((Buffer.full text.toUTF8.data.toList).chunk size),
        { source := (Source.takeAll reader.source).rest
          codec := reader.codec
          decoded := some ((Buffer.full text.toUTF8.data.toList).advance size) }) := by
  simp only [read, fill, fresh, load, ended, decodes, Bool.false_eq_true, if_false]

private theorem readUnder_of_decoded (found : reader.decoded = some buffer)
    (steps : List (Registry × Nat)) :
    (readUnder steps reader).1 = (buffer.chunks (steps.map Prod.snd)).map .ok ∧
      (readUnder steps reader).2.source = reader.source ∧ loads steps reader = 0 := by
  induction steps generalizing reader buffer with
  | nil => exact ⟨rfl, rfl, rfl⟩
  | cons step steps ih =>
    obtain ⟨registry, size⟩ := step
    rw [readUnder, loads, read_of_decoded found, found]
    have advanced : { reader with decoded := some (buffer.advance size) }.decoded =
      some (buffer.advance size) := rfl
    obtain ⟨results, source, none⟩ := ih advanced
    exact ⟨congrArg (_ :: ·) results, source, (Nat.zero_add _).trans none⟩

/-- Reads of a fresh reader whose source decodes hand out the decoded bytes. Later reads ask no
registry. -/
theorem readUnder_of_fresh (fresh : reader.decoded = none) {registry : Registry} {text : String}
    (ended : (Source.takeAll reader.source).failed = false)
    (decodes : reader.decode registry (Source.takeAll reader.source).bytes = .ok text)
    (size : Nat) (steps : List (Registry × Nat)) :
    (readUnder ((registry, size) :: steps) reader).1 =
        ((Buffer.full text.toUTF8.data.toList).chunks (size :: steps.map Prod.snd)).map .ok ∧
      (readUnder ((registry, size) :: steps) reader).2.source =
        (Source.takeAll reader.source).rest ∧
      loads ((registry, size) :: steps) reader = 1 := by
  rw [readUnder, loads, read_of_fresh fresh ended decodes, fresh]
  let next : DecodingReader σ :=
    { source := (Source.takeAll reader.source).rest
      codec := reader.codec
      decoded := some ((Buffer.full text.toUTF8.data.toList).advance size) }
  have loaded : next.decoded = some ((Buffer.full text.toUTF8.data.toList).advance size) := rfl
  obtain ⟨results, source, none⟩ := readUnder_of_decoded loaded steps
  exact ⟨congrArg (_ :: ·) results, source, by rw [none]; rfl⟩

/-- Reads of a source that does not fail and decodes to `text`: each hands out the next bytes, as
many as asked for or all that are left, and the source is taken from and decoded once. -/
theorem read_transparent (fresh : reader.decoded = none) {text : String}
    {steps : List (Registry × Nat)} (ended : (Source.takeAll reader.source).failed = false)
    (decodes : ∀ first ∈ steps.head?,
      reader.decode first.1 (Source.takeAll reader.source).bytes = .ok text) :
    (readUnder steps reader).1.length = steps.length ∧
      (∀ index size, (steps.map Prod.snd)[index]? = some size → ∃ chunk,
        (readUnder steps reader).1[index]? = some (.ok chunk) ∧
        chunk = (text.toUTF8.data.toList.drop ((steps.map Prod.snd).take index).sum).take size ∧
        chunk.length =
          min size (text.toUTF8.data.toList.length - ((steps.map Prod.snd).take index).sum)) ∧
      delivered (readUnder steps reader).1 = text.toUTF8.data.toList.take (steps.map Prod.snd).sum ∧
      (steps ≠ [] → loads steps reader = 1 ∧
        (readUnder steps reader).2.source = (Source.takeAll reader.source).rest) := by
  cases steps with
  | nil => exact ⟨rfl, nofun, rfl, fun some => absurd rfl some⟩
  | cons step steps =>
    obtain ⟨registry, size⟩ := step
    obtain ⟨results, source, once⟩ :=
      readUnder_of_fresh fresh ended (decodes _ rfl) size steps
    rw [results]
    refine ⟨?_, ?_, ?_, fun _ => ⟨once, source⟩⟩
    · rw [List.length_map, Buffer.length_chunks, List.length_cons, List.length_map,
        List.length_cons]
    · intro index size found
      rw [List.map_cons] at found
      refine ⟨_, ?_, rfl, ?_⟩
      · rw [List.getElem?_map, Buffer.getElem?_chunks, found]
        rfl
      · rw [List.length_take, List.length_drop]
    · rw [delivered_ok, Buffer.flatten_chunks]
      rfl

def lateRegistry : Registry := ({} : Registry).register (.named "Late" {}) |>.2

def declaringReader : DecodingReader where
  source := ⟨"# coding: late\ndef f(a => (1)): a\n".toUTF8.data.toList, none⟩

theorem read_transparent_declared : ∃ text,
    declaringReader.decode lateRegistry declaringReader.source.bytes = .ok text ∧
      delivered (readUnder [(lateRegistry, 0), ({}, 24), ({}, 0), ({}, 4096)] declaringReader).1 =
        text.toUTF8.data.toList.take 4120 := by
  have isOk : (declaringReader.decode lateRegistry declaringReader.source.bytes).isOk = true := by
    decide +kernel
  cases decodes : declaringReader.decode lateRegistry declaringReader.source.bytes with
  | error failure =>
    rw [decodes] at isOk
    cases isOk
  | ok text =>
    have first : ∀ step ∈ [(lateRegistry, 0), ({}, 24), ({}, 0), ({}, 4096)].head?,
        declaringReader.decode step.1 (Source.takeAll declaringReader.source).bytes = .ok text := by
      rintro step ⟨⟩
      exact decodes
    have fresh : declaringReader.decoded = none := rfl
    obtain ⟨-, -, handed, -⟩ := read_transparent fresh rfl first
    exact ⟨text, rfl, handed⟩

end DecodingReader

end DeferredDefaults
