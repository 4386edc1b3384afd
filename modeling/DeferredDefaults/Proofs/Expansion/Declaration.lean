import DeferredDefaults.Proofs.Coding.Printing

/-!
Expansion keeps the header of a source. The preface of the source is that of its tokens, of the
marked text, of the tokens read again and of the code, and the header depends on nothing else.
-/

set_option autoImplicit false
set_option relaxedAutoImplicit false

namespace DeferredDefaults

open Coding (Prefaced)

namespace Expansion

variable {options : Options} {source : String} {lines : List (List Char)} {code : List Char}

private theorem prefaced_markedText {text : String} (prefaced : Prefaced lines source.toList code)
    (isCode : Lexeme.IsCode code) (marked : markedText options source = .ok text) :
    ∃ code, Prefaced lines text.toList code ∧ Lexeme.IsCode code := by
  obtain ⟨tokens, marks, marked⟩ := bind_eq_ok.1 marked
  obtain ⟨old, tokenized, rfl⟩ := map_eq_ok.1 marks
  obtain ⟨written, ran, rfl⟩ := map_eq_ok.1 marked
  obtain ⟨trivia, rest, rfl, preface⟩ := preface_of_tokenize prefaced isCode tokenized
  obtain ⟨same, kept⟩ := Sigil.preface_mark preface
  rw [same] at ran
  rw [String.toList_ofList]
  exact SourceText.exists_prefaced kept ran rfl rfl

private theorem prefaced_throughText {out : String} (prefaced : Prefaced lines source.toList code)
    (isCode : Lexeme.IsCode code) (expands : throughText options source = .ok out) :
    ∃ code, Prefaced lines out.toList code := by
  obtain ⟨text, marked, reads⟩ := bind_eq_ok.1 expands
  obtain ⟨code', prefacedText, isCodeText⟩ := prefaced_markedText prefaced isCode marked
  obtain ⟨tokens, tokenized, prints⟩ := bind_eq_ok.1 reads
  obtain ⟨expanded, ofMarked, isOut⟩ := bind_eq_ok.1 prints
  obtain ⟨program, read, binds⟩ := bind_eq_ok.1 ofMarked
  obtain ⟨next, bound, isExpanded⟩ := bind_eq_ok.1 binds
  cases isExpanded
  cases isOut
  obtain ⟨trivia, rest, rfl, preface⟩ := preface_of_tokenize prefacedText isCodeText tokenized
  exact Program.exists_prefaced preface read bound

/-- The code has the header of the source, or none if the source has none. -/
theorem declaration?_throughText {out : String} (paired : Text.ReturnsPaired source.toList)
    (noContinuation : ∀ lexeme ∈ Lexeme.split source.toList, lexeme.kind ≠ .continuation)
    (expands : throughText options source = .ok out) :
    Coding.declaration? out.toUTF8.data.toList =
      Coding.declaration? source.toUTF8.data.toList := by
  obtain ⟨lines, code, prefaced, isCode⟩ :=
    Lexeme.exists_preface source.toList paired noContinuation
  obtain ⟨code', prefacedOut⟩ := prefaced_throughText prefaced isCode expands
  rw [Text.Utf8.toUTF8_eq, Text.Utf8.toUTF8_eq, Coding.declaration?_of_prefaced prefaced,
    Coding.declaration?_of_prefaced prefacedOut]

/-- A header on the second line, indented by a tab, above a docstring and a late default. -/
def headedSource : String :=
  "#!/bin/py\r\n\t# coding: latin-1\r\n\r\n''\ndef f(b, c=>(b)): c\n"

theorem declaration?_throughText_headed : ∃ out, throughText {} headedSource = .ok out ∧
    Coding.declaration? headedSource.toUTF8.data.toList = some "latin-1" ∧
    Coding.declaration? out.toUTF8.data.toList =
      Coding.declaration? headedSource.toUTF8.data.toList := by
  have paired : Text.ReturnsPaired headedSource.toList := by
    have tails : ∀ rest ∈ headedSource.toList.tails, rest.head? = some '\r' →
        rest.tail.head? = some '\n' := by decide +kernel
    exact fun rest isSuffix => tails _ ((List.mem_tails _ _).2 isSuffix) rfl
  have noContinuation : ∀ lexeme ∈ Lexeme.split headedSource.toList,
      lexeme.kind ≠ .continuation := by decide +kernel
  have isOk : (throughText {} headedSource).isOk = true := by decide +kernel
  cases expands : throughText {} headedSource with
  | error fault =>
    rw [expands] at isOk
    cases isOk
  | ok out =>
    exact ⟨out, rfl, by decide +kernel, declaration?_throughText paired noContinuation expands⟩

end Expansion

end DeferredDefaults
