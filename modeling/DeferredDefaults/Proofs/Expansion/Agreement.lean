import DeferredDefaults.Expansion
import DeferredDefaults.Proofs.LateBinding.Printing
import DeferredDefaults.Proofs.LateBinding.Relocation
import DeferredDefaults.Proofs.Sigil.MarkedText
import DeferredDefaults.Proofs.Token.Margins

/-!
The two ways to expand a text agree. The marked text is read back as the marked tokens, at other
places but at the same distances within every line, so that the trees are the same up to places and
are printed the same. This takes every sigil to stand in front of a parenthesis, and the space that
is written in front of every logical line to fit its block.
-/

set_option autoImplicit false
set_option relaxedAutoImplicit false

namespace DeferredDefaults

namespace Seam

private theorem Laid.same {seam : Seam} {pairs : List (Token × Token)} (laid : seam.Laid pairs) :
    ∀ pair ∈ pairs, pair.1.kind = pair.2.kind ∧ pair.1.text = pair.2.text := by
  induction pairs generalizing seam with
  | nil => exact List.forall_mem_nil _
  | cons pair rest ih => exact List.forall_mem_cons.2 ⟨laid.1.same, ih laid.2⟩

end Seam

def Token.placedAmong (tokens : List Token) (token : Token) : Token :=
  { token with
    start := ((tokens[token.start.row]?).map Token.start).getD token.start
    stop := ((tokens[token.start.row]?).map Token.stop).getD token.stop }

private theorem relocates_placedAmong (tokens : List Token) :
    Relocates (Token.placedAmong tokens) :=
  ⟨fun _ => rfl, fun _ => rfl⟩

private theorem exists_relocations {pairs : List (Token × Token)}
    (same : ∀ pair ∈ pairs, pair.1.kind = pair.2.kind ∧ pair.1.text = pair.2.text) :
    ∃ (tokens : List Token) (here there : Token → Token),
      (Relocates here ∧ Relocates there) ∧ tokens.map (Page.both here there) = pairs := by
  refine ⟨pairs.mapIdx fun index pair => { pair.1 with start := ⟨index, 0⟩ },
    Token.placedAmong (pairs.map Prod.fst), Token.placedAmong (pairs.map Prod.snd),
    ⟨relocates_placedAmong _, relocates_placedAmong _⟩, ?_⟩
  apply List.ext_getElem
  · simp
  · intro index _ within
    obtain ⟨kind, text⟩ := same pairs[index] (List.getElem_mem within)
    have second : pairs[index].2 = ⟨pairs[index].1.kind, pairs[index].1.text,
        pairs[index].2.start, pairs[index].2.stop⟩ := by rw [kind, text]
    simp only [List.getElem_map, List.getElem_mapIdx, Page.both, Token.placedAmong,
      List.getElem?_map, List.getElem?_eq_getElem within, Option.map_some, Option.getD_some]
    rw [← second]

namespace Sigil

def parenthesized : List Token → Bool
  | eq :: gt :: rest =>
    (!isSigil eq gt || rest.head?.any fun next => next.isOp "(") && parenthesized (gt :: rest)
  | _ => true

private theorem parenthesized_eq (tokens : List Token) :
    parenthesized tokens = followedBy (fun next => next.isOp "(") tokens := by
  fun_induction parenthesized tokens with
  | case1 eq gt rest ih => rw [followedBy, ih]
  | case2 tokens short =>
    rw [followedBy]
    exact short

private theorem clears_of_parenthesized {marker : String} {tokens : List Token}
    (identifier : Text.Identifier.isIdentifier marker.toList = true)
    (holds : parenthesized tokens = true) : Clears marker tokens := by
  intro front eq gt next back split sigil _ c more text rest
  rw [parenthesized_eq] at holds
  have isOp := select_of_followedBy holds split sigil
  rw [Token.isOp, Bool.and_eq_true, beq_iff_eq, beq_iff_eq] at isOp
  have parenthesis : "(".toList = c :: more := by rw [← text, isOp.2]
  cases parenthesis
  refine Lexeme.first_of_isIdentifier identifier ?_
  rintro _ ⟨⟩
  exact ⟨by decide, by decide⟩

end Sigil

namespace Expansion

private theorem ofMarked_of_laid (options : Options) {pairs : List (Token × Token)}
    (laid : Seam.start.Laid pairs) :
    (ofMarked options (pairs.map Prod.snd)).toOption.map Expanded.code =
      (ofMarked options (pairs.map Prod.fst)).toOption.map Expanded.code := by
  obtain ⟨tokens, here, there, relocates, rfl⟩ := exists_relocations laid.same
  have moved : ∀ move : Token → Token, Relocates move →
      (ofMarked options (tokens.map move)).toOption.map Expanded.code =
        ((Program.ofTokens tokens).toOption.bind fun program =>
          (program.bindLate options.markerName).toOption).map fun program =>
            (program.map move).render options := by
    intro move relocates
    rw [ofMarked, toOption_bind, Program.ofTokens_map relocates]
    cases Program.ofTokens tokens with
    | error fault => rfl
    | ok program =>
      simp only [toOption_ok, Option.map_some, Option.bind_some]
      rw [toOption_bind, Program.bindLate_map relocates]
      cases program.bindLate options.markerName <;> rfl
  have firsts : (tokens.map (Page.both here there)).map Prod.fst = tokens.map here := by
    rw [List.map_map]
    rfl
  have seconds : (tokens.map (Page.both here there)).map Prod.snd = tokens.map there := by
    rw [List.map_map]
    rfl
  rw [firsts, seconds, moved here relocates.1, moved there relocates.2]
  cases read : Program.ofTokens tokens with
  | error fault => rfl
  | ok program =>
    simp only [toOption_ok, Option.bind_some]
    cases bound : program.bindLate options.markerName with
    | error fault => rfl
    | ok next =>
      have prints := Program.prints_bindLate (Program.prints_ofTokens relocates laid read) bound
      rw [toOption_ok, Option.map_some, Option.map_some, Program.render_map relocates options prints]

/-- Every sigil of the text stands in front of an opening parenthesis. -/
def hasParentheses (source : String) : Bool :=
  match tokenize source with
  | .ok tokens => Sigil.parenthesized tokens
  | .error _ => true

/-- The space in front of every logical line of the marked text fits its block. -/
def fitsBlocks (options : Options) (source : String) : Bool :=
  match markedTokens options source with
  | .ok tokens => SourceText.keepsMargins true false {} tokens
  | .error _ => true

/-- The marked text falls into the lexemes that have been written. -/
theorem split_markedText {options : Options} {source : String}
    (identifier : Text.Identifier.isIdentifier options.markerName.toList = true)
    {tokens : List Token} (tokenized : tokenize source = .ok tokens)
    (clears : Sigil.Clears options.markerName tokens) :
    ∃ text, markedText options source = .ok text ∧
      Written {} {} (Sigil.mark options.markerName tokens) (Lexeme.split text.toList) := by
  obtain ⟨written, isWritten, splits, _⟩ := Sigil.written_mark tokenized options.markerName
  refine ⟨String.ofList (Lexeme.textOf written), ?_, ?_⟩
  · rw [markedText, markedTokens, tokenized]
    show sourceText (Sigil.mark options.markerName tokens) = _
    rw [sourceText, isWritten.run_eq]
    rfl
  · rwa [String.toList_ofList, splits identifier clears]

private theorem toOption_throughText (options : Options) (source : String) :
    (throughText options source).toOption =
      (markedText options source >>= tokenize).toOption.bind fun tokens =>
        (ofMarked options tokens).toOption.map Expanded.code := by
  rw [throughText]
  cases markedText options source with
  | error fault => rfl
  | ok text =>
    show (tokenize text >>= _).toOption = (tokenize text).toOption.bind _
    rw [toOption_bind]
    cases tokenize text with
    | error fault => rfl
    | ok tokens =>
      show (ofMarked options tokens >>= _).toOption = (ofMarked options tokens).toOption.map _
      cases ofMarked options tokens <;> rfl

/-- Where every sigil stands in front of a parenthesis, the two ways to expand a text agree if the
space written in front of every logical line fits its block: both fail, or both give the same text.
The condition is exact: it holds just when the marked tokens are what the marked text reads back
as. -/
theorem throughText_agrees {options : Options} {source : String}
    (identifier : Text.Identifier.isIdentifier options.markerName.toList = true)
    (parentheses : hasParentheses source = true) :
    (fitsBlocks options source = true →
      (throughText options source).toOption =
        (throughTokens options source).toOption.map Expanded.code) ∧
    ∀ marked, markedTokens options source = .ok marked →
      (fitsBlocks options source = true ↔
        ∃ again, (markedText options source >>= tokenize) = .ok again ∧
          again.map Token.shape = marked.map Token.shape) := by
  cases tokenized : tokenize source with
  | error fault =>
    refine ⟨fun _ => ?_, fun marked isMarked => ?_⟩
    · simp only [throughText, throughTokens, markedText, markedTokens, tokenized]
      rfl
    · rw [markedTokens, tokenized] at isMarked
      cases isMarked
  | ok tokens =>
    have marked : markedTokens options source = .ok (Sigil.mark options.markerName tokens) := by
      rw [markedTokens, tokenized]
      rfl
    have holds : Sigil.parenthesized tokens = true := by
      rw [hasParentheses, tokenized] at parentheses
      exact parentheses
    obtain ⟨text, isText, isWritten⟩ := split_markedText identifier tokenized
      (Sigil.clears_of_parenthesized identifier holds)
    have reread : (markedText options source >>= tokenize) =
        Layout.run {} (Lexeme.split text.toList) := by
      rw [isText]
      rfl
    have fits : fitsBlocks options source = SourceText.keepsMargins true false {}
        (Sigil.mark options.markerName tokens) := by rw [fitsBlocks, marked]
    have laid : fitsBlocks options source = true → ∃ pairs : List (Token × Token),
        pairs.map Prod.fst = Sigil.mark options.markerName tokens ∧
        (markedText options source >>= tokenize) = .ok (pairs.map Prod.snd) ∧
        Seam.start.Laid pairs := by
      intro keeps
      rw [fits] at keeps
      obtain ⟨pairs, firsts, ran, laid⟩ := isWritten.laid relay_initial false nofun keeps
      exact ⟨pairs, firsts, reread.trans ran, laid⟩
    refine ⟨fun keeps => ?_, fun others isMarked => ⟨fun keeps => ?_, fun read => ?_⟩⟩
    · obtain ⟨pairs, firsts, read, laid⟩ := laid keeps
      have direct : throughTokens options source = ofMarked options (pairs.map Prod.fst) := by
        rw [throughTokens, marked, firsts]
        rfl
      rw [toOption_throughText, read, direct, ← ofMarked_of_laid options laid]
      rfl
    · obtain ⟨pairs, firsts, read, laid⟩ := laid keeps
      rw [marked] at isMarked
      cases isMarked
      refine ⟨pairs.map Prod.snd, read, ?_⟩
      rw [← firsts, List.map_map, List.map_map]
      refine List.map_congr_left fun pair member => ?_
      obtain ⟨kind, text⟩ := laid.same pair member
      simp only [Function.comp_apply, Token.shape, kind, text]
    · obtain ⟨again, read, same⟩ := read
      rw [marked] at isMarked
      cases isMarked
      rw [fits]
      exact isWritten.keepsMargins_of_run relay_initial (reread.symm.trans read) same

def tabbedSource : String := "def f(a, b=>(a, 1)):\n\treturn b\n"

theorem throughText_agrees_tabbed :
    (throughTokens {} tabbedSource).toOption.isSome = true ∧
      (throughText {} tabbedSource).toOption =
        (throughTokens {} tabbedSource).toOption.map Expanded.code :=
  ⟨by decide +kernel,
    (throughText_agrees (by decide +kernel) (by decide +kernel)).1 (by decide +kernel)⟩

/-- A form feed makes no width, but is written back as a space, which does. -/
example : fitsBlocks {} "\x0cx = 1\n" = false := by decide +kernel

end Expansion

end DeferredDefaults
