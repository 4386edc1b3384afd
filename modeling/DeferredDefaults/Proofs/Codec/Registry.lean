import DeferredDefaults.Proofs.Codec.Naming
import DeferredDefaults.Proofs.Text.Decoding
import Mathlib.Data.List.Induction
import Mathlib.Data.List.Pairwise

/-!
A registry as a map from names to codecs in which the spelling of a name does not matter. Whatever
has been done with it, a name has the codec that was last registered under a spelling of the name and
has not been removed since. Registering and removing answer what a lookup would find in their place,
and decoding, which finds the codec that a header declares in the same way, changes nothing.
-/

set_option autoImplicit false
set_option relaxedAutoImplicit false

namespace DeferredDefaults

private theorem decodeText_eq_ok_iff {source : List UInt8} {text : String} :
    decodeText source = .ok text ↔ source = text.toUTF8.data.toList := by
  rw [Text.Utf8.toUTF8_eq, ← Text.Utf8.decode_eq_ok_iff, decodeText]
  cases Text.Utf8.decode source with
  | ok chars =>
    constructor
    · rintro ⟨⟩
      rw [String.toList_ofList]
    · rintro ⟨⟩
      exact congrArg Except.ok String.ofList_toList
  | error fault => exact iff_of_false nofun nofun

namespace Registry

open Codec (SameName normalize named)

/-- What can be done with a registry. -/
inductive Operation where
  /-- Registers the codec with a spelling of its name. -/
  | register (spelling : String) (options : Options)
  | unregister (spelling : String)
  | lookup (spelling : String)
  | decodeSource (source : List UInt8)
deriving DecidableEq, Repr

inductive Answer where
  /-- The codec found, replaced or removed, if there is one. -/
  | codec (found : Option Codec)
  | text (result : Except Failure String)
deriving DecidableEq, Repr

def apply (registry : Registry) : Operation → Answer × Registry
  | .register spelling options =>
    let (replaced, next) := registry.register (named spelling options)
    (.codec replaced, next)
  | .unregister spelling =>
    let (removed, next) := registry.unregister spelling
    (.codec removed, next)
  | .lookup spelling => (.codec (registry.lookup? spelling), registry)
  | .decodeSource source => (.text (registry.decodeSource source), registry)

/-- Operations one after the other, with their answers and the registry behind them. -/
def run : List Operation → Registry → List Answer × Registry
  | [], registry => ([], registry)
  | operation :: others, registry =>
    let first := registry.apply operation
    let rest := run others first.2
    (first.1 :: rest.1, rest.2)

private theorem run_append (earlier later : List Operation) (registry : Registry) :
    run (earlier ++ later) registry =
      ((run earlier registry).1 ++ (run later (run earlier registry).2).1,
        (run later (run earlier registry).2).2) := by
  induction earlier generalizing registry with
  | nil => rfl
  | cons operation earlier ih => simp only [List.cons_append, run, ih]

private theorem run_concat (history : List Operation) (operation : Operation)
    (registry : Registry) :
    (run (history ++ [operation]) registry).2 = ((run history registry).2.apply operation).2 := by
  rw [run_append]
  rfl

private theorem length_run (operations : List Operation) (registry : Registry) :
    (run operations registry).1.length = operations.length := by
  induction operations generalizing registry with
  | nil => rfl
  | cons operation others ih => rw [run, List.length_cons, ih, List.length_cons]

private theorem getElem?_run (earlier later : List Operation) (operation : Operation)
    (registry : Registry) :
    (run (earlier ++ operation :: later) registry).1[earlier.length]? =
      some ((run earlier registry).2.apply operation).1 := by
  rw [run_append, ← length_run earlier registry, List.getElem?_append_right (Nat.le_refl _),
    Nat.sub_self]
  rfl

section Finding

variable {registry : Registry} {name : String}

private theorem find?_without (registry : Registry) (other name : String) :
    (registry.without other).find? name = if other = name then none else registry.find? name := by
  rw [without, find?, find?, List.find?_filter]
  split
  · next same =>
    subst same
    rw [List.find?_eq_none]
    simp
  · next differs =>
    refine congrArg (List.find? · registry.codecs) (funext fun codec => ?_)
    by_cases isName : codec.name = name
    · simp [isName, Ne.symm differs]
    · simp [isName]

private theorem find?_register (registry : Registry) (codec : Codec) (name : String) :
    (registry.register codec).2.find? name =
      if codec.name = name then some codec else registry.find? name := by
  show List.find? _ (codec :: (registry.without codec.name).codecs) = _
  rw [List.find?_cons]
  by_cases same : codec.name = name
  · rw [if_pos same, beq_iff_eq.2 same]
  · rw [if_neg same, beq_eq_false_iff_ne.2 same]
    exact (find?_without registry codec.name name).trans (if_neg same)

private theorem lookup?_register (registry : Registry) (spelling : String) (options : Options)
    (name : String) :
    (registry.register (named spelling options)).2.lookup? name =
      if SameName spelling name then some (named spelling options) else registry.lookup? name :=
  find?_register registry (named spelling options) (normalize name)

private theorem lookup?_unregister (registry : Registry) (spelling name : String) :
    (registry.unregister spelling).2.lookup? name =
      if SameName spelling name then none else registry.lookup? name :=
  find?_without registry (normalize spelling) (normalize name)

end Finding

def Operation.Concerns (name : String) : Operation → Prop
  | .register spelling _ => SameName spelling name
  | .unregister spelling => SameName spelling name
  | .lookup _ => False
  | .decodeSource _ => False

/-- A history leaves a codec under a name: the one that was last registered under a spelling of the
name, unless it has been removed under one since. -/
def Stands (history : List Operation) (name : String) (codec : Codec) : Prop :=
  ∃ earlier spelling options later,
    history = earlier ++ .register spelling options :: later ∧ SameName spelling name ∧
      codec = named spelling options ∧ ∀ operation ∈ later, ¬ operation.Concerns name

section Standing

variable {registry : Registry} {history : List Operation} {operation : Operation} {name : String}
  {codec : Codec}

private theorem not_stands_nil : ¬ Stands [] name codec := by
  rintro ⟨earlier, spelling, options, later, split, -⟩
  cases earlier <;> cases split

/-- One more operation leaves the codec that it registers, and any other that it does not concern. -/
private theorem stands_concat : Stands (history ++ [operation]) name codec ↔
    (∃ spelling options, operation = .register spelling options ∧ SameName spelling name ∧
      codec = named spelling options) ∨
    Stands history name codec ∧ ¬ operation.Concerns name := by
  constructor
  · rintro ⟨earlier, spelling, options, later, split, same, isNamed, apart⟩
    -- The registration that stands is the last operation, or the last one stands behind it.
    rcases later.eq_nil_or_concat with rfl | ⟨later, last, rfl⟩
    · obtain ⟨-, isLast⟩ := List.append_inj' split rfl
      cases isLast
      exact .inl ⟨spelling, options, rfl, same, isNamed⟩
    · rw [List.concat_eq_append] at split apart
      rw [← List.cons_append, ← List.append_assoc] at split
      obtain ⟨isFront, isLast⟩ := List.append_inj' split rfl
      cases isLast
      rw [List.forall_mem_append, List.forall_mem_singleton] at apart
      exact .inr ⟨⟨earlier, spelling, options, later, isFront, same, isNamed, apart.1⟩, apart.2⟩
  · rintro (⟨spelling, options, rfl, same, isNamed⟩ |
      ⟨⟨earlier, spelling, options, later, rfl, same, isNamed, apart⟩, unconcerned⟩)
    · exact ⟨history, spelling, options, [], rfl, same, isNamed, nofun⟩
    · refine ⟨earlier, spelling, options, later ++ [operation], ?_, same, isNamed, ?_⟩
      · rw [List.append_assoc, List.cons_append]
      · rw [List.forall_mem_append, List.forall_mem_singleton]
        exact ⟨apart, unconcerned⟩

/-- One operation on a registry does to the codec of a name what it does to a history. -/
private theorem lookup?_apply : (registry.apply operation).2.lookup? name = some codec ↔
    (∃ spelling options, operation = .register spelling options ∧ SameName spelling name ∧
      codec = named spelling options) ∨
    registry.lookup? name = some codec ∧ ¬ operation.Concerns name := by
  cases operation with
  | register spelling options =>
    show (registry.register (named spelling options)).2.lookup? name = _ ↔ _
    rw [lookup?_register]
    by_cases same : SameName spelling name
    · rw [if_pos same, Option.some_inj]
      constructor
      · exact fun isNamed => .inl ⟨spelling, options, rfl, same, isNamed.symm⟩
      · rintro (⟨_, _, ⟨⟩, -, rfl⟩ | ⟨-, apart⟩)
        · rfl
        · exact absurd same apart
    · rw [if_neg same]
      constructor
      · exact fun found => .inr ⟨found, same⟩
      · rintro (⟨_, _, ⟨⟩, same', -⟩ | ⟨found, -⟩)
        · exact absurd same' same
        · exact found
  | unregister spelling =>
    show (registry.unregister spelling).2.lookup? name = _ ↔ _
    rw [lookup?_unregister]
    by_cases same : SameName spelling name
    · rw [if_pos same]
      refine iff_of_false nofun ?_
      rintro (⟨_, _, ⟨⟩, -⟩ | ⟨-, apart⟩)
      exact apart same
    · rw [if_neg same]
      constructor
      · exact fun found => .inr ⟨found, same⟩
      · rintro (⟨_, _, ⟨⟩, -⟩ | ⟨found, -⟩)
        exact found
  | lookup | decodeSource =>
    constructor
    · exact fun found => .inr ⟨found, id⟩
    · rintro (⟨_, _, ⟨⟩, -⟩ | ⟨found, -⟩)
      exact found

private theorem lookup?_run (history : List Operation) (name : String) (codec : Codec) :
    (run history {}).2.lookup? name = some codec ↔ Stands history name codec := by
  induction history using List.reverseRecOn with
  | nil => exact iff_of_false nofun not_stands_nil
  | append_singleton history operation ih =>
    -- One more operation changes both sides in the same way.
    rw [run_concat, lookup?_apply, ih, stands_concat]

end Standing

/-- A map from names to codecs, in which the spelling of a name does not matter. -/
structure IsMap (registry : Registry) : Prop where
  /-- A codec has its name in normal form, and is the same when it is built again under it. -/
  normal : ∀ codec ∈ registry.codecs, named codec.name codec.options = codec
  /-- No two codecs have spellings of one name. -/
  single : registry.codecs.Pairwise fun codec other => ¬ SameName codec.name other.name

namespace IsMap

variable {registry : Registry}

private theorem empty : ({} : Registry).IsMap := ⟨nofun, .nil⟩

private theorem normalize_name (isMap : registry.IsMap) {codec : Codec}
    (member : codec ∈ registry.codecs) :
    normalize codec.name = codec.name := congrArg Codec.name (isMap.normal codec member)

private theorem without (isMap : registry.IsMap) (name : String) :
    (registry.without name).IsMap where
  normal := fun codec member => isMap.normal codec (List.mem_of_mem_filter member)
  single := isMap.single.filter _

private theorem register (isMap : registry.IsMap) (spelling : String) (options : Options) :
    (registry.register (named spelling options)).2.IsMap where
  normal := by
    have isNormal : named (named spelling options).name options = named spelling options :=
      congrArg (Codec.mk · options) (Codec.sameName_named spelling options)
    exact List.forall_mem_cons.2 ⟨isNormal, (isMap.without _).normal⟩
  single := by
    refine List.Pairwise.cons (fun codec member same => ?_) (isMap.without _).single
    obtain ⟨kept, differs⟩ := List.mem_filter.1 member
    have isName : (named spelling options).name = codec.name :=
      (Codec.sameName_named spelling options).symm.trans (same.trans (isMap.normalize_name kept))
    exact bne_iff_ne.1 differs isName.symm

private theorem apply (isMap : registry.IsMap) (operation : Operation) :
    (registry.apply operation).2.IsMap := by
  cases operation with
  | register spelling options => exact isMap.register spelling options
  | unregister spelling => exact isMap.without (normalize spelling)
  | lookup => exact isMap
  | decodeSource => exact isMap

private theorem run (isMap : registry.IsMap) (history : List Operation) :
    (Registry.run history registry).2.IsMap := by
  induction history generalizing registry with
  | nil => exact isMap
  | cons operation history ih => exact ih (isMap.apply operation)

end IsMap

def IsPlain (source : List UInt8) : Prop :=
  ∀ name, Coding.declaration? source = some name →
    normalize name = "utf-8" ∨ normalize name = "utf8"

/-- What an operation answers behind a history. -/
inductive Recalls (history : List Operation) : Operation → Answer → Prop where
  | lookup {name : String} {found : Option Codec} :
      (∀ codec, found = some codec ↔ Stands history name codec) →
      Recalls history (.lookup name) (.codec found)
  /-- Registering answers what a lookup would in its place. -/
  | register {name : String} {options : Options} {answer : Answer} :
      Recalls history (.lookup name) answer → Recalls history (.register name options) answer
  | unregister {name : String} {answer : Answer} :
      Recalls history (.lookup name) answer → Recalls history (.unregister name) answer
  /-- The text comes back unchanged. -/
  | plain {source : List UInt8} {text : String} : IsPlain source →
      source = text.toUTF8.data.toList →
      Recalls history (.decodeSource source) (.text (.ok text))
  | malformed {source : List UInt8} {fault : Text.Utf8.Fault} : IsPlain source →
      Text.Utf8.decode source = .error fault →
      Recalls history (.decodeSource source) (.text (.error (.encoding fault)))
  /-- The codec that a lookup would find under the declared name decodes the source. -/
  | known {source : List UInt8} {name : String} {codec : Codec} : ¬ IsPlain source →
      Coding.declaration? source = some name →
      Recalls history (.lookup name) (.codec (some codec)) →
      Recalls history (.decodeSource source) (.text (codec.decode source))
  | unknown {source : List UInt8} {name : String} : ¬ IsPlain source →
      Coding.declaration? source = some name →
      Recalls history (.lookup name) (.codec none) →
      Recalls history (.decodeSource source) (.text (.error (.unknownCodec name)))

section Recalling

variable {registry : Registry} {history : List Operation} {source : List UInt8} {name : String}

private theorem decodeSource_of_isPlain (isPlain : IsPlain source) :
    registry.decodeSource source = decodeText source := by
  unfold decodeSource
  split
  · rfl
  · next name declared => rw [if_pos ((Codec.isUtf8Name_iff name).2 (isPlain name declared))]

private theorem decodeSource_of_declared (declared : Coding.declaration? source = some name)
    (notPlain : ¬ IsPlain source) :
    registry.decodeSource source = match registry.lookup? name with
      | some codec => codec.decode source
      | none => .error (.unknownCodec name) := by
  have other : ¬ Codec.isUtf8Name name = true := by
    intro isUtf8
    refine notPlain fun declaredName same => ?_
    cases declared.symm.trans same
    exact (Codec.isUtf8Name_iff name).1 isUtf8
  rw [decodeSource, declared]
  exact if_neg other

private theorem exists_declared (notPlain : ¬ IsPlain source) :
    ∃ name, Coding.declaration? source = some name := by
  unfold IsPlain at notPlain
  push Not at notPlain
  exact notPlain.imp fun name => And.left

private theorem recalls_lookup_iff {answer : Answer} : Recalls history (.lookup name) answer ↔
    answer = .codec ((run history {}).2.lookup? name) := by
  constructor
  · rintro ⟨found⟩
    exact congrArg Answer.codec (Option.ext fun codec =>
      (found codec).trans (lookup?_run history name codec).symm)
  · rintro rfl
    exact .lookup (lookup?_run history name)

private theorem recalls_decodeSource (history : List Operation) (source : List UInt8) :
    Recalls history (.decodeSource source) (.text ((run history {}).2.decodeSource source)) := by
  by_cases isPlain : IsPlain source
  · rw [decodeSource_of_isPlain isPlain]
    cases decodes : Text.Utf8.decode source with
    | ok text =>
      have isText : decodeText source = .ok (String.ofList text) := by rw [decodeText, decodes]
      rw [isText]
      exact .plain isPlain (decodeText_eq_ok_iff.1 isText)
    | error fault =>
      rw [decodeText, decodes]
      exact .malformed isPlain decodes
  · obtain ⟨name, declared⟩ := exists_declared isPlain
    rw [decodeSource_of_declared declared isPlain]
    cases found : (run history {}).2.lookup? name with
    | some codec =>
      exact .known isPlain declared (recalls_lookup_iff.2 (congrArg Answer.codec found.symm))
    | none =>
      exact .unknown isPlain declared (recalls_lookup_iff.2 (congrArg Answer.codec found.symm))

private theorem recalls_iff {operation : Operation} {answer : Answer} :
    Recalls history operation answer ↔ answer = ((run history {}).2.apply operation).1 := by
  constructor
  · intro recalls
    cases recalls with
    | lookup found => exact recalls_lookup_iff.1 (.lookup found)
    | register looked => exact recalls_lookup_iff.1 looked
    | unregister looked => exact recalls_lookup_iff.1 looked
    | plain isPlain isText =>
      rw [apply, decodeSource_of_isPlain isPlain, decodeText_eq_ok_iff.2 isText]
    | malformed isPlain faulty =>
      rw [apply, decodeSource_of_isPlain isPlain, decodeText, faulty]
    | known notPlain declared looked =>
      have found := Answer.codec.inj (recalls_lookup_iff.1 looked)
      rw [apply, decodeSource_of_declared declared notPlain, ← found]
    | unknown notPlain declared looked =>
      have found := Answer.codec.inj (recalls_lookup_iff.1 looked)
      rw [apply, decodeSource_of_declared declared notPlain, ← found]
  · rintro rfl
    cases operation with
    | lookup name => exact recalls_lookup_iff.2 rfl
    | register name => exact .register (recalls_lookup_iff.2 rfl)
    | unregister name => exact .unregister (recalls_lookup_iff.2 rfl)
    | decodeSource source => exact recalls_decodeSource history source

end Recalling

/-- Operations on an empty registry, one after the other. They keep it a map in which the spelling of
a name does not matter: a lookup finds the codec that the operations in front of it leave under its
name, and every operation answers accordingly. Decoding leaves the registry as it is. -/
theorem run_recalls (earlier later : List Operation) (operation : Operation) :
    (run earlier {}).2.IsMap ∧
      (∀ name codec, (run earlier {}).2.lookup? name = some codec ↔ Stands earlier name codec) ∧
      (∀ answer, (run (earlier ++ operation :: later) {}).1[earlier.length]? = some answer ↔
        Recalls earlier operation answer) ∧
      ∀ source, (run (earlier ++ [.decodeSource source]) {}).2 = (run earlier {}).2 := by
  refine ⟨IsMap.empty.run earlier, lookup?_run earlier, fun answer => ?_, fun source => ?_⟩
  · rw [getElem?_run, recalls_iff, Option.some_inj, eq_comm]
  · rw [run_concat]
    rfl

/-- A codec is registered, found, removed and gone, each time under another spelling of its name. -/
example : (run [.register " Late_Bound" {}, .lookup "late bound\t", .unregister "LATE-BOUND",
    .lookup "late-bound"] {}).1 =
    [.codec none, .codec (some ⟨"late-bound", {}⟩), .codec (some ⟨"late-bound", {}⟩),
      .codec none] := by
  decide +kernel

end Registry

end DeferredDefaults
