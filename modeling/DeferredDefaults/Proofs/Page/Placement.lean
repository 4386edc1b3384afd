import DeferredDefaults.Page
import DeferredDefaults.Proofs.Token.Relaying
import DeferredDefaults.Proofs.Tree.Lossless
import DeferredDefaults.Proofs.Tree.Relocation

/-!
Printing does not depend on where the lines of a text stand. Two trees whose tokens differ only in
places are printed the same if within every line the tokens stand at the same distances.
-/

set_option autoImplicit false
set_option relaxedAutoImplicit false

namespace DeferredDefaults

namespace Seam

def behind (seam : Seam) (pairs : List (Token × Token)) : Seam := pairs.foldl after seam

/-- A token that is printed fits, and a comma stands in a line. -/
structure Admits (seam : Seam) (pair : Token × Token) : Prop where
  noLayout : pair.1.isLayout = false
  line : pair.1.isOp "," = true → seam.line = true
  fits : seam.Fits pair

def Prints : Seam → List (Token × Token) → Prop
  | _, [] => True
  | seam, pair :: rest => seam.Admits pair ∧ Prints (seam.after pair) rest

theorem behind_append (seam : Seam) (front back : List (Token × Token)) :
    seam.behind (front ++ back) = (seam.behind front).behind back := List.foldl_append

theorem prints_append {seam : Seam} {front back : List (Token × Token)} :
    seam.Prints (front ++ back) ↔ seam.Prints front ∧ (seam.behind front).Prints back := by
  induction front generalizing seam with
  | nil => simp [Prints, behind]
  | cons pair rest ih =>
    rw [List.cons_append, Prints, ih, Prints]
    simp only [and_assoc]
    rfl

private theorem last_after {seam : Seam} {pair : Token × Token} (noLayout : pair.1.isLayout = false)
    (noBreak : pair.1.isBreak = false) :
    (seam.after pair).last = some (pair.1.stop, pair.2.stop) := by
  simp [after, noLayout, noBreak]

end Seam

namespace Page

theorem padding_some (last start : Position) :
    padding (some last) start = String.ofList (SourceText.gap last start) := by
  unfold padding SourceText.gap
  simp only
  by_cases down : last.row < start.row
  · rw [if_pos down, if_pos down]
    rfl
  · rw [if_neg down, if_neg down]
    have none : start.row - last.row = 0 := by omega
    simp [none]

/-- Two pages with the same text, at the two places of a seam. Where only commas have come since
the row began, the places may be missing. -/
structure Same (seam : Seam) (page other : Page) : Prop where
  text : page.text = other.text
  atLineStart : page.atLineStart = other.atLineStart
  cursor : (∃ last, seam.last = some last ∧ page.cursor = some last.1 ∧
      other.cursor = some last.2) ∨
    (page.cursor = none ∧ other.cursor = none ∧ seam.flush = true)

namespace Same

variable {seam : Seam} {page other : Page} {pair : Token × Token}

private theorem write (same : Same seam page other) (text : String) :
    Same seam (page.write text) (other.write text) := by
  refine ⟨?_, ?_, same.cursor⟩
  · simp only [Page.write, same.text]
  · simp only [Page.write, same.atLineStart]

private theorem padTo (same : Same seam page other) (fits : seam.Fits pair) :
    Same seam (page.padTo pair.1.start) (other.padTo pair.2.start) := by
  have padding : padding page.cursor pair.1.start = padding other.cursor pair.2.start := by
    rcases same.cursor with ⟨last, found, cursor, cursor'⟩ | ⟨cursor, cursor', flush⟩
    · rw [cursor, cursor', padding_some, padding_some, fits.follows last found]
    · rw [cursor, cursor']
      simp only [Page.padding, fits.level flush]
  rw [Page.padTo, Page.padTo, padding]
  exact same.write _

private theorem moveTo (same : Same seam page other) (pair : Token × Token) {next : Seam}
    (last : next.last = some (pair.1.stop, pair.2.stop)) :
    Same next (page.moveTo (some pair.1.stop)) (other.moveTo (some pair.2.stop)) :=
  ⟨same.text, same.atLineStart, .inl ⟨_, last, rfl, rfl⟩⟩

end Same

section Printing

variable {here there : Token → Token} (relocates : Relocates here ∧ Relocates there)
  {seam : Seam} {page other : Page}

def both (here there : Token → Token) (token : Token) : Token × Token := (here token, there token)

include relocates

private theorem last_after_both {token : Token} (noLayout : token.isLayout = false)
    (noBreak : token.isBreak = false) :
    (seam.after (both here there token)).last = some ((here token).stop, (there token).stop) := by
  apply Seam.last_after
  · rw [both, relocates.1.isLayout, noLayout]
  · rw [both, relocates.1.isBreak, noBreak]

private theorem same_token (same : Same seam page other) {token : Token}
    (admits : seam.Admits (both here there token)) :
    Same (seam.after (both here there token)) (page.token (here token))
      (other.token (there token)) := by
  have noLayout : token.isLayout = false := relocates.1.isLayout token ▸ admits.noLayout
  have padded := (same.padTo admits.fits).write token.text
  simp only [Page.token, relocates.1.isLayout, relocates.2.isLayout, noLayout, Bool.false_eq_true,
    if_false, relocates.1.text, relocates.2.text, relocates.1.isBreak, relocates.2.isBreak]
  cases isBreak : token.isBreak with
  | true =>
    refine ⟨padded.text, padded.atLineStart, .inr ⟨rfl, rfl, ?_⟩⟩
    simp [Seam.after, both, relocates.1.isLayout, noLayout, relocates.1.isBreak, isBreak]
  | false =>
    exact padded.moveTo (both here there token) (last_after_both relocates noLayout isBreak)

theorem same_tokens (same : Same seam page other) {tokens : List Token}
    (prints : seam.Prints (tokens.map (both here there))) :
    Same (seam.behind (tokens.map (both here there))) (page.tokens (tokens.map here))
      (other.tokens (tokens.map there)) := by
  induction tokens generalizing seam page other with
  | nil => exact same
  | cons token rest ih =>
    exact ih (same_token relocates same prints.1) prints.2

private theorem same_comma (same : Same seam page other) {comma : Token}
    (isComma : comma.isOp "," = true) (admits : seam.Admits (both here there comma))
    (tuple : Bool) :
    Same (seam.after (both here there comma)) (page.comma tuple (some (here comma)))
      (other.comma tuple (some (there comma))) := by
  have kind : comma.kind = .op := by
    rw [Token.isOp, Bool.and_eq_true, beq_iff_eq] at isComma
    exact isComma.1
  have noLayout : comma.isLayout = false := by simp [Token.isLayout, kind]
  have noBreak : comma.isBreak = false := by simp [Token.isBreak, kind]
  have line : seam.line = true := admits.line (by rw [both, relocates.1.isOp, isComma])
  cases tuple with
  | true => exact same_token relocates same admits
  | false =>
    simp only [Page.comma, Bool.false_eq_true, if_false]
    rcases same.cursor with ⟨last, found, cursor, cursor'⟩ | ⟨cursor, cursor', flush⟩
    · rw [cursor, cursor']
      exact same.moveTo (both here there comma) (last_after_both relocates noLayout noBreak)
    · rw [cursor, cursor']
      refine ⟨same.text, same.atLineStart, .inr ⟨cursor, cursor', ?_⟩⟩
      simp [Seam.after, both, relocates.1.isLayout, noLayout, line, flush, relocates.1.isOp, isComma]

private theorem same_argument (same : Same seam page other) {argument : Argument}
    (commas : ∀ comma ∈ argument.comma, comma.isOp "," = true)
    (prints : seam.Prints (argument.tokens.map (both here there))) (tuple : Bool) :
    Same (seam.behind (argument.tokens.map (both here there)))
      (page.argument tuple (argument.map here)) (other.argument tuple (argument.map there)) := by
  obtain ⟨value, comma⟩ := argument
  rw [Argument.tokens, List.map_append, Seam.prints_append] at prints
  rw [Argument.tokens, List.map_append, Seam.behind_append]
  have printed := same_tokens relocates same prints.1
  cases comma with
  | none => exact printed
  | some comma => exact same_comma relocates printed (commas comma rfl) prints.2.1 tuple

private theorem same_arguments (same : Same seam page other) {args : List Argument}
    (commas : ∀ argument ∈ args, ∀ comma ∈ argument.comma, comma.isOp "," = true)
    (prints : seam.Prints ((args.flatMap Argument.tokens).map (both here there)))
    (tuple : Bool) :
    Same (seam.behind ((args.flatMap Argument.tokens).map (both here there)))
      ((args.map (Argument.map here)).foldl (Page.argument · tuple) page)
      ((args.map (Argument.map there)).foldl (Page.argument · tuple) other) := by
  induction args generalizing seam page other with
  | nil => exact same
  | cons argument rest ih =>
    rw [List.flatMap_cons, List.map_append, Seam.prints_append] at prints
    rw [List.flatMap_cons, List.map_append, Seam.behind_append]
    rw [List.forall_mem_cons] at commas
    exact ih (same_argument relocates same commas.1 prints.1 tuple) commas.2 prints.2

omit relocates in
private theorem lambdaText_map {move : Token → Token} (relocates : Relocates move)
    (options : Options) (deferred : Deferred) :
    lambdaText options (deferred.map move) = lambdaText options deferred := by
  have space : ((deferred.map move).call.gap.head?.any fun first => first.kind == .nl) =
      deferred.call.gap.head?.any fun first => first.kind == .nl := by
    simp only [Deferred.map, MarkerCall.map, List.head?_map]
    cases deferred.call.gap.head? with
    | none => rfl
    | some first => simp [relocates.kind]
  simp only [lambdaText, space]
  rfl

private theorem same_gap (same : Same seam page other) {call : MarkerCall} (whole : call.Whole)
    (prints : (seam.after (both here there call.name)).Prints (call.gap.map (both here there)))
    (fits : ((seam.after (both here there call.name)).behind (call.gap.map (both here there))).Fits
      (both here there call.opening)) :
    ∃ next, Same next (page.gap (call.map here)) (other.gap (call.map there)) := by
  obtain ⟨name, gap, opening, args, trailing, closing⟩ := call
  cases gap with
  | nil => exact ⟨seam, same⟩
  | cons token rest =>
    have kind : name.kind = .name := whole.name
    have moved := same.moveTo (both here there name)
      (last_after_both relocates (by simp [Token.isLayout, kind]) (by simp [Token.isBreak, kind]) :
        (seam.after (both here there name)).last = _)
    have padded := (same_tokens relocates moved prints).padTo fits
    exact ⟨_, padded⟩

private theorem same_deferred (options : Options) (same : Same seam page other)
    {deferred : Deferred} (whole : deferred.call.Whole)
    (prints : seam.Prints (deferred.call.tokens.map (both here there))) :
    Same (seam.behind (deferred.call.tokens.map (both here there)))
      (page.deferred options (deferred.map here)) (other.deferred options (deferred.map there)) := by
  have split : deferred.call.tokens.map (both here there) =
      [both here there deferred.call.name] ++ (deferred.call.gap.map (both here there) ++
        ([both here there deferred.call.opening] ++
          ((deferred.call.args.flatMap Argument.tokens).map (both here there) ++
            (deferred.call.trailing.map (both here there) ++
              [both here there deferred.call.closing])))) := by
    simp [MarkerCall.tokens, MarkerCall.inner]
  rw [split, Seam.prints_append, Seam.prints_append, Seam.prints_append, Seam.prints_append,
    Seam.prints_append] at prints
  rw [split]
  simp only [Seam.behind_append]
  obtain ⟨name, gap, opening, args, trailing, closing⟩ := prints
  have isTuple : ∀ move : Token → Token, (deferred.map move).isTuple = deferred.isTuple := by
    intro move
    simp [Deferred.isTuple, Deferred.map, MarkerCall.map]
  have begun := (same.padTo name.1.fits).write (lambdaText options deferred)
  obtain ⟨next, passed⟩ := same_gap relocates begun whole gap opening.1.fits
  have isOp := whole.opening
  rw [Token.isOp, Bool.and_eq_true, beq_iff_eq] at isOp
  have opened := passed.moveTo (both here there deferred.call.opening)
    (last_after_both relocates (by simp [Token.isLayout, isOp.1]) (by simp [Token.isBreak, isOp.1]) :
      (((seam.after (both here there deferred.call.name)).behind
        (deferred.call.gap.map (both here there))).after
          (both here there deferred.call.opening)).last = _)
  simp only [Page.deferred, isTuple, lambdaText_map relocates.1, lambdaText_map relocates.2]
  cases deferred.isTuple with
  | false =>
    have listed := same_arguments relocates opened whole.comma args false
    exact same_token relocates (same_tokens relocates listed trailing) closing.1
  | true =>
    have listed := same_arguments relocates (opened.write "(") whole.comma args true
    exact same_token relocates ((same_tokens relocates listed trailing).write ")") closing.1

private theorem same_default (options : Options) (same : Same seam page other)
    {default : Option ParameterDefault} (whole : ∀ value ∈ default, value.Whole)
    (prints : seam.Prints (((default.map ParameterDefault.tokens).getD []).map (both here there))) :
    Same (seam.behind (((default.map ParameterDefault.tokens).getD []).map (both here there)))
      (page.default options (default.map (ParameterDefault.map here)))
      (other.default options (default.map (ParameterDefault.map there))) := by
  cases default with
  | none => exact same
  | some default =>
    obtain ⟨eq, value⟩ := default
    have begun := same_token relocates same prints.1
    cases value with
    | expression tokens => exact same_tokens relocates begun prints.2
    | deferred deferred => exact same_deferred relocates options begun (whole _ rfl) prints.2

private theorem same_item (options : Options) (same : Same seam page other) {item : ParameterItem}
    (whole : item.Whole) (prints : seam.Prints (item.tokens.map (both here there))) :
    Same (seam.behind (item.tokens.map (both here there)))
      (page.item options (item.map here)) (other.item options (item.map there)) := by
  cases item with
  | separator value =>
    exact same_tokens relocates (same_token relocates same prints.1) prints.2
  | parameter value =>
    have split : (ParameterItem.parameter value).tokens.map (both here there) =
        value.stars.map (both here there) ++ ([both here there value.name] ++
          (value.hint.map (both here there) ++
            (((value.default.map ParameterDefault.tokens).getD []).map (both here there) ++
              value.suffix.map (both here there)))) := by
      simp [ParameterItem.tokens, Parameter.tokens]
    rw [split] at prints ⊢
    simp only [Seam.prints_append] at prints
    simp only [Seam.behind_append]
    obtain ⟨stars, name, hint, default, suffix⟩ := prints
    have named := same_token relocates (same_tokens relocates same stars) name.1
    have hinted := same_tokens relocates named hint
    exact same_tokens relocates (same_default relocates options hinted whole default) suffix

theorem same_items (options : Options) (same : Same seam page other) {items : List ParameterItem}
    (whole : ∀ item ∈ items, item.Whole)
    (prints : seam.Prints ((items.flatMap ParameterItem.tokens).map (both here there))) :
    Same (seam.behind ((items.flatMap ParameterItem.tokens).map (both here there)))
      ((items.map (ParameterItem.map here)).foldl (Page.item options) page)
      ((items.map (ParameterItem.map there)).foldl (Page.item options) other) := by
  induction items generalizing seam page other with
  | nil => exact same
  | cons item rest ih =>
    rw [List.flatMap_cons, List.map_append, Seam.prints_append] at prints
    rw [List.flatMap_cons, List.map_append, Seam.behind_append]
    rw [List.forall_mem_cons] at whole
    exact ih (same_item relocates options same whole.1 prints.1) whole.2 prints.2

end Printing

end Page

end DeferredDefaults
