import DeferredDefaults.Expansion
import DeferredDefaults.Proofs.Page.Saying
import DeferredDefaults.Proofs.Sigil.Stability
import DeferredDefaults.Proofs.Tree.Completion

/-!
Code generation says what the tree says. The marked tokens spell a text, and their blocks are
indented as layout has found them; so printing the tree conveys them, and the code is read as the
tokens of the tree in order.
-/

set_option autoImplicit false
set_option relaxedAutoImplicit false

namespace DeferredDefaults

open Text.Identifier (isIdentifier)

private theorem deepens_dedents {blocks rest : List Token} {widths : List Nat}
    (dedents : ∀ block ∈ blocks, block.kind = .dedent)
    (deepens : Deepens (widths.drop blocks.length) rest) : Deepens widths (blocks ++ rest) := by
  induction blocks generalizing widths with
  | nil => exact deepens
  | cons block more ih =>
    rw [List.forall_mem_cons] at dedents
    refine ⟨by simp [dedents.1], ih dedents.2 ?_⟩
    rw [Layout.widthsAfter, dedents.1, List.drop_tail]
    exact deepens

private theorem deepens_cons {token : Token} {rest : List Token} {widths : List Nat}
    (noLayout : token.isLayout = false) (deepens : Deepens widths rest) :
    Deepens widths (token :: rest) := by
  refine ⟨fun isIndent => ?_, ?_⟩
  · simp [Token.isLayout, isIndent] at noLayout
  · rwa [Layout.widths_of_not_isLayout noLayout]

private theorem Written.deepens {phase : Phase} {writer : SourceText} {tokens : List Token}
    {lexemes : List Lexeme} (written : Written phase writer tokens lexemes) :
    Deepens (writer.indents.map fun indent => Layout.width indent.toList) tokens := by
  have closing : ∀ {blocks : List Token} {stop : Token} (widths : List Nat),
      (∀ block ∈ blocks, block.kind = .dedent ∧ block.text = "") → stop.kind = .endMarker →
      Deepens widths (blocks ++ [stop]) := by
    intro blocks stop widths dedents isStop
    exact deepens_dedents (fun block member => (dedents block member).1) ⟨by simp [isStop], trivial⟩
  induction written with
  | @token phase writer lexeme token rest lexemes _ _ kind _ _ _ _ ih =>
    rw [SourceText.indents_after] at ih
    exact deepens_cons (phase.isLayout_kindOf kind) ih
  | @first phase writer blocks lexeme token rest lexemes _ _ _ dedents _ _ kind _ _ _ _ ih =>
    have places : ∀ block ∈ blocks, block.kind = .dedent ∧ block.stop = token.start :=
      fun block member => ⟨(dedents block member).1, (dedents block member).2.2⟩
    rw [SourceText.indents_after, SourceText.foldl_enter_dedents places] at ih
    refine deepens_dedents (fun block member => (dedents block member).1) ?_
    rw [← List.map_drop]
    exact deepens_cons (phase.isLayout_kindOf kind) ih
  | @opened phase writer block lexeme token rest lexemes isCode _ _ isIndent spaces deeper kind _ _ _
      _ ih =>
    rw [SourceText.indents_after, SourceText.enter_indent isIndent] at ih
    rw [SourceText.width_headD] at deeper
    refine ⟨fun _ => ⟨spaces, deeper, ?_⟩, ?_⟩
    · rintro next ⟨⟩
      have hasToken : lexeme.kind.hasToken = true := by simp [Lexeme.Kind.hasToken, isCode]
      rw [(Lexeme.traits_of_kindOf hasToken kind).2.1, isCode]
    · rw [Layout.widthsAfter, isIndent]
      exact deepens_cons (phase.isLayout_kindOf kind) ih
  | ended _ _ dedents _ isStop _ => exact closing _ dedents isStop
  | cutOff _ _ isNewline _ _ dedents _ isStop _ =>
    exact deepens_cons (by simp [Token.isLayout, isNewline]) (closing _ dedents isStop)

private theorem Spells.namesAreIdentifiers {spot : Spot} {tokens : List Token} {text : List Char}
    (spells : Spells spot tokens text) : NamesAreIdentifiers tokens := by
  induction tokens generalizing spot text with
  | nil => exact List.forall_mem_nil _
  | cons token rest ih =>
    cases isLayout : token.isLayout with
    | true =>
      refine List.forall_mem_cons.2 ⟨fun isName => ?_, ih ((spells_layout isLayout).1 spells).2⟩
      simp [Token.isLayout, isName] at isLayout
    | false =>
      obtain ⟨gap, behind, -, -, -, spelled, others⟩ := (spells_token isLayout).1 spells
      refine List.forall_mem_cons.2 ⟨fun isName => ?_, ih others⟩
      cases spelled with
      | cutOff isNewline => simp [isName] at isNewline
      | lexeme kind _ _ sameKind nonempty read =>
        rw [(Lexeme.kind_of_kindOf sameKind).2.1 isName] at read
        exact Lexeme.isIdentifier_of_first (by simpa using nonempty) read

/-- All names of the options are identifiers. -/
structure Options.AreIdentifiers (options : Options) : Prop where
  marker : isIdentifier options.markerName.toList = true
  module : isIdentifier options.runtimeModule.toList = true
  wrapper : isIdentifier options.wrapperName.toList = true
  evaluator : isIdentifier options.evaluatorName.toList = true

namespace Page

private theorem conveys_import {options : Options} (identifiers : options.AreIdentifiers) :
    Conveys options [.runtimeImport] [] := by
  refine .added [options.importLine] (fun _ _ => rfl) ?_ rfl ?_
  · rw [Stmt.linear, List.flatMap_singleton]
  · rw [List.forall_mem_singleton]
    exact isLine_importLine identifiers.module identifiers.wrapper identifiers.evaluator

theorem tokenize_render {options : Options} {program : Program} {tokens : List Token} {stop : Token}
    {text : List Char} (conveys : Conveys options program.body tokens)
    (deepens : Deepens [] (tokens ++ [stop])) (isStop : stop.kind = .endMarker)
    (spells : Spells {} (tokens ++ [stop]) text) :
    ∃ again, tokenize (program.render options) = .ok again ∧ gist again = program.linear options := by
  have ended : Proceeds (program.render options).toList (statements options "" program.body {})
      [stop] (Lines false [] · [(.endMarker, "")]) :=
    Proceeds.layout (by simp [Token.isLayout, isStop]) (Proceeds.ended rfl)
  obtain ⟨rest, split, behind⟩ :=
    conveys.proceeds rfl rfl (deepens_append deepens).1 ended
  obtain ⟨-, lines, -⟩ := behind none text spells
  have whole : (program.render options).toList = rest := split
  have yields := lines.yields
  rw [← whole] at yields
  exact yields.tokenize

end Page

namespace Expansion

/-- An expanded tree conveys what it says in place of the marked tokens, which spell a text and are
indented as layout has found them. -/
theorem conveys_throughTokens {options : Options} (identifiers : options.AreIdentifiers)
    {source : String} {tokens : List Token} (tokenized : tokenize source = .ok tokens)
    (noStray : ∀ token ∈ tokens, token.kind ≠ .stray)
    (finished : Lexeme.Finished (Lexeme.split source.toList))
    (apart : Sigil.followedBy Token.endsName tokens = true) {expanded : Expanded}
    (expands : throughTokens options source = .ok expanded) :
    expanded.code = expanded.program.render options ∧ ∃ front stop text,
      Page.Conveys options expanded.program.body front ∧ Deepens [] (front ++ [stop]) ∧
      stop.kind = .endMarker ∧ Spells {} (front ++ [stop]) text := by
  obtain ⟨written, isWritten, splits, finishes⟩ := Sigil.written_mark tokenized options.markerName
  have reads : Lexeme.Reads written :=
    splits identifiers.marker (Sigil.clears_of_endsName identifiers.marker tokenized apart) ▸
      Lexeme.reads_split (Lexeme.textOf written)
  have noStrayMark : ∀ token ∈ Sigil.mark options.markerName tokens, token.kind ≠ .stray := by
    intro token member
    rcases Sigil.mem_mark token member with ⟨isName, -⟩ | ⟨origin, isOrigin, kind, -⟩
    · simp [isName]
    · rw [kind]
      exact noStray origin isOrigin
  have spells := isWritten.spells reads noStrayMark
    (finishes finished) (List.forall_mem_nil _) nofun
  have marked : markedTokens options source = .ok (Sigil.mark options.markerName tokens) := by
    rw [markedTokens, tokenized]
    rfl
  rw [throughTokens, marked] at expands
  replace expands : ofMarked options (Sigil.mark options.markerName tokens) = .ok expanded := expands
  obtain ⟨program, read, expands⟩ := bind_eq_ok.1 expands
  obtain ⟨next, bound, expands⟩ := bind_eq_ok.1 expands
  obtain ⟨body, boundBody, isNext⟩ := bind_eq_ok.1 bound
  cases expands
  cases isNext
  obtain ⟨front, stop, split, isStop, covers⟩ := Program.covers_of_nested
    (Sigil.nested_mark options.markerName (Layout.nested_run Layout.stacked_initial tokenized)) read
  have deepens := isWritten.deepens
  rw [split] at deepens spells
  have names := spells.namesAreIdentifiers
  rw [NamesAreIdentifiers, List.forall_mem_append] at names
  have conveys := (Page.conveys_statements ⟨identifiers.wrapper, identifiers.evaluator⟩ program.body
    covers (Program.shaped_ofTokens read) names.1 boundBody).insertAt
      (Page.conveys_import identifiers) (LateBinding.importIndex body)
  exact ⟨rfl, front, stop, _, conveys, deepens, isStop, spells⟩

/-- The code of an expanded tree is read as what the tree says. -/
theorem code_faithful {options : Options} (identifiers : options.AreIdentifiers) {source : String}
    {tokens : List Token} (tokenized : tokenize source = .ok tokens)
    (noStray : ∀ token ∈ tokens, token.kind ≠ .stray)
    (finished : Lexeme.Finished (Lexeme.split source.toList))
    (apart : Sigil.followedBy Token.endsName tokens = true) {expanded : Expanded}
    (expands : throughTokens options source = .ok expanded) :
    ∃ again, tokenize expanded.code = .ok again ∧
      gist again = expanded.program.linear options := by
  obtain ⟨code, front, stop, text, conveys, deepens, isStop, spells⟩ :=
    conveys_throughTokens identifiers tokenized noStray finished apart expands
  rw [code]
  exact Page.tokenize_render conveys deepens isStop spells

/-- A tuple, a comment in front of an expression over two rows that ends in a comma, a suite that
must leave its header's line, and blocks indented by tabs without a line break behind them. -/
def mixedSource : String :=
  "def f(a, b => (a, 1), c=># d\n (b + \\\n  a,)) : return c\n" ++
    "if a :\n\tasync def g(*, e=>(f(1))) -> a:\n\t\t'h'\n\n\t\treturn e # i"

theorem code_faithful_mixed : ∃ expanded, throughTokens {} mixedSource = .ok expanded ∧
    ∃ again, tokenize expanded.code = .ok again ∧ gist again = expanded.program.linear {} := by
  have identifiers : ({} : Options).AreIdentifiers :=
    ⟨by decide +kernel, by decide +kernel, by decide +kernel, by decide +kernel⟩
  have finished : Lexeme.Finished (Lexeme.split mixedSource.toList) := by
    unfold Lexeme.Finished
    decide +kernel
  have holds : ((tokenize mixedSource).toOption.any fun tokens =>
      (throughTokens {} mixedSource).isOk && tokens.all (fun token => token.kind != .stray) &&
        Sigil.followedBy Token.endsName tokens) = true := by decide +kernel
  cases tokenized : tokenize mixedSource with
  | error fault =>
    rw [tokenized] at holds
    cases holds
  | ok tokens =>
    rw [tokenized, toOption_ok, Option.any_some] at holds
    simp only [Bool.and_eq_true, List.all_eq_true, bne_iff_ne] at holds
    obtain ⟨⟨isOk, noStray⟩, apart⟩ := holds
    cases expands : throughTokens {} mixedSource with
    | error fault =>
      rw [expands] at isOk
      cases isOk
    | ok expanded =>
      exact ⟨expanded, rfl, code_faithful identifiers tokenized noStray finished apart expands⟩

end Expansion

end DeferredDefaults
