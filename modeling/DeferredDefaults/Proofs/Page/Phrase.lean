import DeferredDefaults.Proofs.Page.Linearization
import DeferredDefaults.Proofs.Token.Revision

/-!
Generated code, word by word. The wrapper of a late default, the lines of a prologue and the import
consist of names, operators of one character and blanks, and each of these is read as it has been
put together, in front of anything that does not go on with its last word.
-/

set_option autoImplicit false
set_option relaxedAutoImplicit false

namespace DeferredDefaults

open Lexeme (Spacing isQuote isStop)
open Text.Identifier (isIdentifier isInner)

def Follows (depth : Nat) (blocks : List Nat) (text : List Char)
    (found : List (Kind × String)) : Prop :=
  ∀ gap, Spacing gap → Yields (.inside depth) blocks (gap ++ text) found

inductive Word where
  | name (text : String)
  /-- An operator of one character. -/
  | op (c : Char)
  | blank

namespace Word

def toList : Word → List Char
  | name text => text.toList
  | op c => [c]
  | blank => [' ']

def token? : Word → Option Token
  | name text => some ⟨.name, text, .origin, .origin⟩
  | op c => some ⟨.op, String.ofList [c], .origin, .origin⟩
  | blank => none

/-- The word is read in front of the character `next`, or at the end. -/
def Stands : Word → (next : Option Char) → Prop
  | name text, next =>
    isIdentifier text.toList = true ∧ ∀ c ∈ next, isInner c = false ∧ isQuote c = false
  | op c, next => c = '(' ∨ isStop c = true ∨ ((c = '=' ∨ c = ':') ∧ next ≠ some '=')
  | blank, _ => True

end Word

namespace Phrase

def textOf (words : List Word) : List Char := words.flatMap Word.toList

def tokensOf (words : List Word) : List Token := words.filterMap Word.token?

/-- Every word is read in front of those behind it, and the last in front of `next`. -/
def Stands : List Word → (next : Option Char) → Prop
  | [], _ => True
  | word :: rest, next => word.Stands ((textOf rest).head?.or next) ∧ Stands rest next

@[simp] theorem textOf_nil : textOf [] = [] := rfl

@[simp] theorem textOf_cons (word : Word) (rest : List Word) :
    textOf (word :: rest) = word.toList ++ textOf rest := List.flatMap_cons

@[simp] theorem textOf_append (front back : List Word) :
    textOf (front ++ back) = textOf front ++ textOf back := List.flatMap_append

@[simp] theorem tokensOf_append (front back : List Word) :
    tokensOf (front ++ back) = tokensOf front ++ tokensOf back := List.filterMap_append

private theorem stands_append {front back : List Word} {next : Option Char} :
    Stands (front ++ back) next ↔
      Stands front ((textOf back).head?.or next) ∧ Stands back next := by
  induction front with
  | nil => simp [Stands]
  | cons word rest ih =>
    rw [List.cons_append, Stands, Stands, ih, textOf_append, List.head?_append, Option.or_assoc,
      and_assoc]

private theorem Stands.lineEnd {words : List Word} (stands : Stands words none) :
    Stands words (some '\n') := by
  induction words with
  | nil => trivial
  | cons word rest ih =>
    obtain ⟨standsWord, standsRest⟩ := stands
    refine ⟨?_, ih standsRest⟩
    cases head : (textOf rest).head? with
    | some c => rwa [head] at standsWord
    | none =>
      rw [head] at standsWord
      cases word with
      | name text =>
        refine ⟨standsWord.1, ?_⟩
        rintro c ⟨⟩
        exact ⟨rfl, rfl⟩
      | op c => exact standsWord.imp_right (.imp_right fun single => ⟨single.1, by simp⟩)
      | blank => trivial

theorem Stands.plain {words : List Word} {next : Option Char} (stands : Stands words next) :
    ∀ c ∈ textOf words, isQuote c = false ∧ c ≠ '\\' := by
  induction words with
  | nil => nofun
  | cons word rest ih =>
    rw [textOf_cons, List.forall_mem_append]
    refine ⟨?_, ih stands.2⟩
    cases word with
    | name text =>
      intro c member
      exact Text.Identifier.plain_of_isInner
        (Text.Identifier.isInner_of_isIdentifier stands.1.1 c member)
    | op c =>
      intro other member
      rw [List.mem_singleton.1 member]
      rcases stands.1 with rfl | stop | ⟨rfl | rfl, _⟩
      · decide
      · simp only [isStop, Bool.or_eq_true, beq_iff_eq] at stop
        rcases stop with ((rfl | rfl) | rfl) | rfl <;> decide
      · decide
      · decide
    | blank =>
      intro other member
      rw [List.mem_singleton.1 member]
      decide

private theorem first_of_op {c : Char} {rest : List Char} (stands : (Word.op c).Stands rest.head?) :
    Lexeme.first (c :: rest) = (.operator, 1) := by
  rcases stands with rfl | stop | ⟨single, noEquals⟩
  · match rest with
    | [] | [_] | _ :: _ :: _ => rfl
  · exact Lexeme.first_of_isStop stop rest
  · exact Lexeme.first_of_single single noEquals

private theorem first_of_stands {word : Word} {token : Token} (isToken : word.token? = some token)
    {rest : List Char} (stands : word.Stands rest.head?) : ∃ kind : Lexeme.Kind,
      kind.isCode = true ∧ token.kind = Layout.codeKind kind ∧ token.text.toList = word.toList ∧
        token.text ≠ "" ∧
        Lexeme.first (word.toList ++ rest) = (kind, word.toList.length) := by
  cases word with
  | name text =>
    cases isToken
    refine ⟨.name, rfl, rfl, rfl, ?_, Lexeme.first_of_isIdentifier stands.1 stands.2⟩
    rintro rfl
    cases stands.1
  | op c =>
    cases isToken
    exact ⟨.operator, rfl, rfl, String.toList_ofList, by simp, first_of_op stands⟩
  | blank => cases isToken

end Phrase

open Phrase (textOf tokensOf)

section Words

variable {blocks : List Nat} {rest : List Char} {found : List (Kind × String)} {phrase : List Word}
  {depth : Nat}

theorem Follows.words (stands : Phrase.Stands phrase rest.head?)
    (follows : Follows ((tokensOf phrase).foldl Token.depthAfter depth) blocks rest found) :
    Follows depth blocks (textOf phrase ++ rest) (gist (tokensOf phrase) ++ found) := by
  induction phrase generalizing depth with
  | nil => exact follows
  | cons word others ih =>
    obtain ⟨standsWord, standsOthers⟩ := stands
    rw [← List.head?_append] at standsWord
    intro gap spacing
    rw [Phrase.textOf_cons, List.append_assoc]
    cases isToken : word.token? with
    | none =>
      have isBlank : word = .blank := by
        cases word <;> first | rfl | cases isToken
      subst isBlank
      rw [← List.append_assoc]
      exact ih standsOthers follows _ (spacing.append (.space rfl .nil))
    | some token =>
      have tokens : tokensOf (word :: others) = token :: tokensOf others :=
        List.filterMap_cons_some isToken
      rw [tokens, List.foldl_cons] at follows
      rw [tokens, gist_cons, List.append_assoc]
      obtain ⟨kind, isCode, sameKind, sameText, nonempty, read⟩ :=
        Phrase.first_of_stands isToken standsWord
      rw [← sameText] at read ⊢
      exact Yields.code spacing nonempty isCode sameKind read (ih standsOthers follows [] .nil)

def Phrase.IsLine (text : String) : Prop := ∃ first phrase,
  text.toList = textOf (.name first :: phrase) ∧ Stands (.name first :: phrase) none ∧
    (tokensOf phrase).foldl Token.depthAfter 0 = 0

private theorem Lines.words {indent : List Char} (spaces : indent.all Lexeme.isSpace = true)
    (level : Layout.width indent = blocks.headD 0) {first : String}
    (stands : Phrase.Stands (.name first :: phrase) rest.head?)
    (yields : Follows ((tokensOf phrase).foldl Token.depthAfter 0) blocks rest found) :
    Lines true blocks (indent ++ (textOf (.name first :: phrase) ++ rest))
      (gist (tokensOf (.name first :: phrase)) ++ found) := by
  obtain ⟨standsFirst, standsOthers⟩ := stands
  rw [← List.head?_append] at standsFirst
  obtain ⟨kind, isCode, sameKind, _, nonempty, read⟩ :=
    @Phrase.first_of_stands (.name first) ⟨.name, first, .origin, .origin⟩ rfl _ standsFirst
  have lines := Lines.first spaces level nonempty isCode sameKind read
    (yields.words standsOthers [] .nil)
  rw [Phrase.textOf_cons, List.append_assoc]
  exact lines

theorem Yields.tokenize {text : String} (yields : Yields {} [] text.toList found) :
    ∃ tokens, tokenize text = .ok tokens ∧ gist tokens = found :=
  yields {} ⟨rfl, rfl, rfl, fun _ => rfl, fun _ _ => rfl⟩ rfl

private theorem lineGist_of_stands {text first : String}
    (split : text.toList = textOf (.name first :: phrase))
    (stands : Phrase.Stands (.name first :: phrase) none)
    (closed : (tokensOf phrase).foldl Token.depthAfter 0 = 0) :
    lineGist text = gist (tokensOf (.name first :: phrase)) ++ [(Kind.newline, "")] := by
  have ending : Follows 0 [] [] [(.newline, ""), (.endMarker, "")] := by
    intro gap spacing
    rw [List.append_nil]
    exact @Yields.ended (.inside 0) [] gap spacing rfl
  have lines := @Lines.words [] [] _ phrase [] rfl rfl first stands (by
    rw [closed]
    exact ending)
  rw [List.nil_append, List.append_nil, ← split] at lines
  obtain ⟨tokens, read, said⟩ := lines.yields.tokenize
  rw [lineGist, read]
  simp only
  rw [said]
  simp [List.dropLast_append_of_ne_nil]

theorem Lines.added {text : String} (isLine : Phrase.IsLine text) {indent : List Char}
    (spaces : indent.all Lexeme.isSpace = true) (level : Layout.width indent = blocks.headD 0)
    {begins : Bool} (lines : Lines begins blocks rest found) :
    Lines true blocks (indent ++ (text.toList ++ '\n' :: rest)) (lineGist text ++ found) := by
  obtain ⟨first, phrase, split, stands, closed⟩ := isLine
  have ending : Follows 0 blocks ('\n' :: rest) ((.newline, "") :: found) := by
    intro gap spacing
    exact @Yields.lineBreak (.inside 0) blocks gap ['\n'] rest found spacing (by decide) lines.yields
  rw [lineGist_of_stands split stands closed, split, List.append_assoc]
  refine Lines.words spaces level stands.lineEnd ?_
  rw [closed]
  exact ending

end Words

def Phrase.listed : List String → List Word
  | [] => []
  | name :: rest => .name name :: rest.flatMap fun other => [.op ',', .blank, .name other]

namespace Phrase

theorem listed_cons_cons (name next : String) (rest : List String) :
    listed (name :: next :: rest) = .name name :: .op ',' :: .blank :: listed (next :: rest) := rfl

private theorem textOf_listed (names : List String) :
    (", ".intercalate names).toList = textOf (listed names) := by
  induction names with
  | nil => rfl
  | cons name rest ih =>
    cases rest with
    | nil => simp [listed, Word.toList]
    | cons next others =>
      rw [String.intercalate_cons_cons, String.toList_append, String.toList_append, ih,
        listed_cons_cons]
      simp [Word.toList]

private theorem gist_listed (names : List String) :
    gist (tokensOf (listed names)) = listing names := by
  induction names with
  | nil => rfl
  | cons name rest ih =>
    cases rest with
    | nil => rfl
    | cons next others =>
      have tokens : tokensOf (listed (name :: next :: others)) =
          ⟨.name, name, .origin, .origin⟩ :: ⟨.op, ",", .origin, .origin⟩ ::
            tokensOf (listed (next :: others)) := rfl
      rw [tokens, gist_cons, gist_cons, ih]
      rfl

private theorem depth_listed (names : List String) (depth : Nat) :
    (tokensOf (listed names)).foldl Token.depthAfter depth = depth := by
  induction names with
  | nil => rfl
  | cons name rest ih =>
    cases rest with
    | nil => rfl
    | cons next others =>
      have tokens : tokensOf (listed (name :: next :: others)) =
          ⟨.name, name, .origin, .origin⟩ :: ⟨.op, ",", .origin, .origin⟩ ::
            tokensOf (listed (next :: others)) := rfl
      rw [tokens]
      exact ih

private theorem stands_listed {names : List String}
    (identifiers : ∀ name ∈ names, isIdentifier name.toList = true) {next : Option Char}
    (ends : ∀ c ∈ next, isInner c = false ∧ isQuote c = false) : Stands (listed names) next := by
  induction names with
  | nil => trivial
  | cons name rest ih =>
    rw [List.forall_mem_cons] at identifiers
    cases rest with
    | nil => exact ⟨⟨identifiers.1, ends⟩, trivial⟩
    | cons next others =>
      rw [listed_cons_cons]
      refine ⟨⟨identifiers.1, ?_⟩, .inr (.inl rfl), trivial, ih identifiers.2⟩
      rintro c ⟨⟩
      exact ⟨rfl, rfl⟩

private theorem stands_name {text : String} (identifier : isIdentifier text.toList = true)
    {c : Char} (ends : c ∈ [' ', '(', ')', ',', ':']) : (Word.name text).Stands (some c) := by
  refine ⟨identifier, ?_⟩
  rintro other ⟨⟩
  revert c
  decide

end Phrase

namespace Page

variable (options : Options)

def lambdaWords (deferred : Deferred) : List Word :=
  ([.name options.wrapperName, .op '(', .name "lambda"] : List Word) ++
    ((if deferred.dependencies.isEmpty then [] else .blank :: Phrase.listed deferred.dependencies) ++
      .op ':' :: if deferred.call.gap.head?.any fun first => first.kind == .nl then [] else [.blank])

def assignmentWords (resolution : Resolution) : List Word :=
  ([.blank, .name "isinstance", .op '(', .name resolution.name, .op ',', .blank,
    .name options.wrapperName, .op ')', .op ':', .blank, .name resolution.name, .blank, .op '=',
    .blank, .name resolution.name, .op '('] : List Word) ++
      (Phrase.listed resolution.dependencies ++ [.op ')'])

def importWords : List Word :=
  [.blank, .name options.runtimeModule, .blank, .name "import", .blank, .name options.wrapperName,
    .op ',', .blank, .name options.evaluatorName]

variable {options}

theorem textOf_lambdaWords (deferred : Deferred) :
    (lambdaText options deferred).toList = textOf (lambdaWords options deferred) := by
  rw [lambdaText, lambdaWords]
  simp only [String.toList_append, Phrase.textOf_append]
  split <;> split <;> simp [Word.toList, ← Phrase.textOf_listed]

theorem stands_lambdaWords (named : isIdentifier options.wrapperName.toList = true)
    {deferred : Deferred}
    (identifiers : ∀ name ∈ deferred.dependencies, isIdentifier name.toList = true)
    {next : Option Char}
    (noEquals : (deferred.call.gap.head?.any fun first => first.kind == .nl) = true →
      next ≠ some '=') :
    Phrase.Stands (lambdaWords options deferred) next := by
  have isLambda : isIdentifier "lambda".toList = true := by decide
  rw [lambdaWords, Phrase.stands_append, Phrase.stands_append]
  refine ⟨⟨Phrase.stands_name named (by decide), .inl rfl, ?_, trivial⟩, ?_,
    .inr (.inr ⟨.inr rfl, ?_⟩), ?_⟩
  · split
    · exact Phrase.stands_name isLambda (by decide)
    · exact Phrase.stands_name isLambda (by decide)
  · split
    · trivial
    · refine ⟨trivial, Phrase.stands_listed identifiers ?_⟩
      rintro c ⟨⟩
      exact ⟨rfl, rfl⟩
  · split
    · next breaks => exact noEquals breaks
    · simp [Word.toList]
  · split
    · trivial
    · exact ⟨trivial, trivial⟩

theorem head_lambdaWords (named : isIdentifier options.wrapperName.toList = true)
    (deferred : Deferred) :
    (textOf (lambdaWords options deferred)).head?.any (· != '=') = true := by
  cases text : options.wrapperName.toList with
  | nil =>
    rw [text] at named
    cases named
  | cons c rest =>
    have noEquals : c ≠ '=' := by
      rintro rfl
      rw [text, isIdentifier, Bool.and_eq_true] at named
      exact absurd named.1 (by decide)
    simpa [lambdaWords, Word.toList, text] using noEquals

private theorem tokensOf_lambdaWords (deferred : Deferred) :
    tokensOf (lambdaWords options deferred) =
      [⟨.name, options.wrapperName, .origin, .origin⟩, ⟨.op, "(", .origin, .origin⟩,
        ⟨.name, "lambda", .origin, .origin⟩] ++
      (tokensOf (Phrase.listed deferred.dependencies) ++ [⟨.op, ":", .origin, .origin⟩]) := by
  have listed : tokensOf (if deferred.dependencies.isEmpty then []
      else .blank :: Phrase.listed deferred.dependencies) =
      tokensOf (Phrase.listed deferred.dependencies) := by
    split
    · next none =>
      rw [List.isEmpty_iff.1 none]
      rfl
    · rfl
  rw [lambdaWords, Phrase.tokensOf_append, Phrase.tokensOf_append, listed]
  split <;> rfl

theorem depth_lambdaWords (deferred : Deferred) (depth : Nat) :
    (tokensOf (lambdaWords options deferred)).foldl Token.depthAfter depth = depth + 1 := by
  rw [tokensOf_lambdaWords, List.foldl_append, List.foldl_append, Phrase.depth_listed]
  rfl

theorem gist_lambdaWords (deferred : Deferred) :
    gist (tokensOf (lambdaWords options deferred)) =
      [(Kind.name, options.wrapperName), (.op, "("), (.name, "lambda")] ++
        listing deferred.dependencies ++ [(Kind.op, ":")] := by
  rw [tokensOf_lambdaWords, gist_append, gist_append, Phrase.gist_listed, ← List.append_assoc]
  rfl

theorem textOf_assignmentWords (resolution : Resolution) :
    (assignmentLine options resolution).toList =
      textOf (.name "if" :: assignmentWords options resolution) := by
  unfold assignmentLine assignmentWords
  simp only [String.toList_append, Phrase.textOf_append, Phrase.textOf_cons, Phrase.textOf_nil,
    Word.toList, List.append_assoc]
  rw [← Phrase.textOf_listed]
  simp

theorem stands_assignmentWords (named : isIdentifier options.wrapperName.toList = true)
    {resolution : Resolution} (isName : isIdentifier resolution.name.toList = true)
    (identifiers : ∀ name ∈ resolution.dependencies, isIdentifier name.toList = true) :
    Phrase.Stands (.name "if" :: assignmentWords options resolution) none := by
  have isCall : isIdentifier "isinstance".toList = true := by decide
  refine ⟨Phrase.stands_name (by decide) (by decide), ?_⟩
  rw [assignmentWords, Phrase.stands_append, Phrase.stands_append]
  refine ⟨⟨trivial, Phrase.stands_name isCall (by decide), .inl rfl,
    Phrase.stands_name isName (by decide), .inr (.inl rfl), trivial,
    Phrase.stands_name named (by decide), .inr (.inl rfl),
    .inr (.inr ⟨.inr rfl, by simp [Word.toList]⟩), trivial,
    Phrase.stands_name isName (by decide), trivial,
    .inr (.inr ⟨.inl rfl, by simp [Word.toList]⟩), trivial,
    Phrase.stands_name isName (by decide), .inl rfl, trivial⟩,
    Phrase.stands_listed identifiers ?_, .inr (.inl rfl), trivial⟩
  rintro c ⟨⟩
  exact ⟨rfl, rfl⟩

theorem isLine_assignmentLine (named : isIdentifier options.wrapperName.toList = true)
    {resolution : Resolution} (isName : isIdentifier resolution.name.toList = true)
    (identifiers : ∀ name ∈ resolution.dependencies, isIdentifier name.toList = true) :
    Phrase.IsLine (assignmentLine options resolution) := by
  refine ⟨"if", assignmentWords options resolution, textOf_assignmentWords resolution,
    stands_assignmentWords named isName identifiers, ?_⟩
  rw [assignmentWords, Phrase.tokensOf_append, Phrase.tokensOf_append, List.foldl_append,
    List.foldl_append, Phrase.depth_listed]
  rfl

theorem isLine_evaluatorLine (named : isIdentifier options.evaluatorName.toList = true) :
    Phrase.IsLine (options.evaluatorName ++ "(locals())") := by
  refine ⟨options.evaluatorName, [.op '(', .name "locals", .op '(', .op ')', .op ')'], ?_, ?_, rfl⟩
  · simp [Word.toList]
  · have isCall : isIdentifier "locals".toList = true := by decide
    exact ⟨Phrase.stands_name named (by decide), .inl rfl, Phrase.stands_name isCall (by decide),
      .inl rfl, .inr (.inl rfl), .inr (.inl rfl), trivial⟩

theorem isLine_importLine (module : isIdentifier options.runtimeModule.toList = true)
    (wrapper : isIdentifier options.wrapperName.toList = true)
    (evaluator : isIdentifier options.evaluatorName.toList = true) :
    Phrase.IsLine options.importLine := by
  refine ⟨"from", importWords options, ?_, ⟨?_, ?_⟩, rfl⟩
  · simp [Options.importLine, importWords, Word.toList]
  · exact Phrase.stands_name (by decide) (by decide)
  · have isImport : isIdentifier "import".toList = true := by decide
    exact ⟨trivial, Phrase.stands_name module (by decide), trivial,
      Phrase.stands_name isImport (by decide), trivial, Phrase.stands_name wrapper (by decide),
      .inr (.inl rfl), trivial, ⟨evaluator, nofun⟩, trivial⟩

end Page

end DeferredDefaults
