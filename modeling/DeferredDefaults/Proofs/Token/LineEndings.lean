import DeferredDefaults.Proofs.Token.CarriageReturns

/-!
Line endings. A text that ends its rows with line feeds has the same tokens when every row ends with
a carriage return and a line feed: the kinds and the places where tokens start stay, and the texts
gain the carriage returns. The one exception is a string in single quotes that goes on behind an
escaped line feed, which is then not terminated.
-/

set_option autoImplicit false
set_option relaxedAutoImplicit false

namespace DeferredDefaults

namespace Token

/-- The token in a text whose rows end with carriage returns and line feeds. A line break takes a
column more. -/
def withReturns (token : Token) : Token :=
  { token with
    text := String.ofList (Text.withReturns token.text.toList)
    stop := if token.isBreak then token.stop.right (token.text.toList.count '\n') else token.stop }

def breaksOff (token : Token) : Bool :=
  token.kind == .string &&
    Lexeme.breaksOff (token.text.toList.drop (Lexeme.lettersLength token.text.toList))

private theorem withReturns_of_noFeed {token : Token} (noFeed : '\n' ∉ token.text.toList) :
    token.withReturns = token := by
  have stop : (if token.isBreak then token.stop.right (token.text.toList.count '\n')
      else token.stop) = token.stop := by
    rw [List.count_eq_zero_of_not_mem noFeed]
    exact ite_self _
  rw [withReturns, Text.withReturns_of_noFeed noFeed, stop, String.ofList_toList]

end Token

namespace Layout

variable {layout : Layout} {lexeme : Lexeme} {rest : List Lexeme}

private theorem tokenAt_withReturns (layout : Layout) {kind : Kind} {text : List Char}
    (noBreak : (kind == .newline || kind == .nl) = false) (noReturn : '\r' ∉ text) :
    (layout.tokenAt kind text).withReturns = layout.tokenAt kind (Text.withReturns text) := by
  simp only [tokenAt, Token.withReturns, Token.isBreak, noBreak, String.toList_ofList,
    Position.advance_withReturns _ noReturn]
  rfl

private theorem tokenFor_withReturns (reads : Lexeme.Reads (lexeme :: rest))
    (noReturn : '\r' ∉ lexeme.text) :
    layout.tokenFor lexeme.withReturns = (layout.tokenFor lexeme).withReturns := by
  obtain ⟨nonempty, read, -⟩ := reads
  obtain ⟨kind, text⟩ := lexeme
  rcases Lexeme.feeds_of_first nonempty noReturn read with ⟨rfl, rfl⟩ | ⟨rfl, rfl⟩ | rfl |
    ⟨noBreak, -, noFeed⟩
  · simp only [tokenFor, lineBreak, Lexeme.withReturns, Token.withReturns, Token.isBreak]
    split <;> rfl
  · exact (tokenAt_withReturns layout rfl noReturn).symm
  · exact (tokenAt_withReturns layout rfl noReturn).symm
  · rw [Lexeme.withReturns, Text.withReturns_of_noFeed noFeed, Token.withReturns_of_noFeed]
    rwa [text_tokenFor, String.toList_ofList]

private theorem behind_withReturns (reads : Lexeme.Reads (lexeme :: rest))
    (noReturn : '\r' ∉ lexeme.text) :
    layout.behind lexeme.withReturns = layout.behind lexeme := by
  obtain ⟨nonempty, read, -⟩ := reads
  obtain ⟨kind, text⟩ := lexeme
  rcases Lexeme.feeds_of_first nonempty noReturn read with ⟨rfl, rfl⟩ | ⟨rfl, rfl⟩ | rfl |
    ⟨noBreak, -, noFeed⟩
  · rfl
  · rfl
  · simp only [behind, tokenFor, Lexeme.withReturns, past,
      Position.advance_withReturns _ noReturn]
    rfl
  · rw [Lexeme.withReturns, Text.withReturns_of_noFeed noFeed]

private theorem withReturns_settle (noFeed : '\n' ∉ layout.margin) {blocks : List Token}
    {settled : Layout} (settles : layout.settle = .ok (blocks, settled)) :
    blocks.map Token.withReturns = blocks := by
  refine (List.map_congr_left fun block member => Token.withReturns_of_noFeed ?_).trans
    (List.map_id' blocks)
  rcases settle_eq_ok settles with ⟨-, rfl, -⟩ | ⟨-, rfl, -⟩
  · rw [List.mem_singleton] at member
    rwa [member, opening, String.toList_ofList]
  · obtain ⟨width, -, rfl⟩ := List.mem_map.1 member
    exact List.not_mem_nil

/-- One step gives the same tokens with their carriage returns, and leads to the same layout. -/
private theorem step_withReturns (reads : Lexeme.Reads (lexeme :: rest))
    (noReturn : '\r' ∉ lexeme.text) (noFeed : '\n' ∉ layout.margin) :
    layout.step lexeme.withReturns =
      (layout.step lexeme).map (Prod.map (List.map Token.withReturns) id) := by
  cases hasToken : lexeme.kind.hasToken with
  | true =>
    cases first : layout.atLineStart && lexeme.kind.isCode with
    | false =>
      rw [step_of_not_first hasToken first,
        step_of_not_first (show lexeme.withReturns.kind.hasToken = true from hasToken) first,
        tokenFor_withReturns reads noReturn, behind_withReturns reads noReturn]
      rfl
    | true =>
      obtain ⟨fresh, isCode⟩ := Bool.and_eq_true_iff.1 first
      rw [step_of_first isCode fresh,
        step_of_first (show lexeme.withReturns.kind.isCode = true from isCode) fresh]
      cases settles : layout.settle with
      | error fault => rfl
      | ok result =>
        obtain ⟨blocks, settled⟩ := result
        simp only [bind, Except.bind, Except.map, Prod.map, id, List.map_append, List.map_cons,
          List.map_nil, withReturns_settle noFeed settles, tokenFor_withReturns reads noReturn,
          behind_withReturns reads noReturn]
  | false =>
    obtain ⟨nonempty, read, -⟩ := reads
    obtain ⟨kind, text⟩ := lexeme
    cases kind with
    | space =>
      rcases Lexeme.feeds_of_first nonempty noReturn read with h | h | h | ⟨-, -, noFeed⟩
      · cases h.1
      · cases h.1
      · cases h
      · rw [Lexeme.withReturns, Text.withReturns_of_noFeed noFeed]
        rfl
    | continuation => rfl
    | openQuote => rfl
    | lineBreak | comment | string | number | name | operator | stray => cases hasToken

private theorem margin_behind_subset (layout : Layout) (lexeme : Lexeme) :
    (layout.behind lexeme).margin ⊆ layout.margin := by
  unfold behind
  split
  · exact List.Subset.refl _
  · simp only [lineBreak]
    generalize (layout.atLineStart || _) = fresh
    cases fresh with
    | true => exact List.nil_subset _
    | false => exact List.Subset.refl _
  · exact List.Subset.refl _

private theorem noFeed_margin_step (reads : Lexeme.Reads (lexeme :: rest))
    (noReturn : '\r' ∉ lexeme.text) (noFeed : '\n' ∉ layout.margin) {own : List Token}
    {next : Layout} (stepped : layout.step lexeme = .ok (own, next)) : '\n' ∉ next.margin := by
  rcases step_eq_ok stepped with ⟨gap, -, rfl⟩ | ⟨-, -, -, rfl⟩ |
    ⟨-, -, blocks, settled, settles, -, rfl⟩
  · obtain ⟨nonempty, read, -⟩ := reads
    obtain ⟨kind, text⟩ := lexeme
    rcases gap with rfl | rfl
    · rcases Lexeme.feeds_of_first nonempty noReturn read with h | h | h | ⟨-, -, noFeedHere⟩
      · cases h.1
      · cases h.1
      · cases h
      · simp only [pass]
        split
        · exact noFeedHere
        · exact noFeed
    · exact noFeed
  · exact fun member => noFeed (margin_behind_subset layout lexeme member)
  · have same : settled.margin = layout.margin := by
      rcases settle_eq_ok settles with ⟨-, -, rfl⟩ | ⟨-, -, rfl⟩ <;> rfl
    exact fun member => noFeed (same ▸ margin_behind_subset settled lexeme member)

private theorem text_of_finish {tokens : List Token} (finished : layout.finish = .ok tokens) :
    ∀ token ∈ tokens, token.text = "" ∧ token.kind ≠ .string := by
  obtain ⟨place, finishes⟩ := finish_of_depth (depth_of_finish finished)
  rw [finishes] at finished
  cases finished
  rw [List.forall_mem_append, List.forall_mem_append]
  refine ⟨?_, fun token member => ?_, ?_⟩
  · split
    · exact List.forall_mem_singleton.2 ⟨rfl, nofun⟩
    · exact List.forall_mem_nil _
  · rw [List.eq_of_mem_replicate member]
    exact ⟨rfl, nofun⟩
  · exact List.forall_mem_singleton.2 ⟨rfl, nofun⟩

private theorem breaksOff_tokenFor (layout : Layout) (lexeme : Lexeme) :
    (layout.tokenFor lexeme).breaksOff = lexeme.kind.breaksOff lexeme.text := by
  have kind : ((layout.tokenFor lexeme).kind == .string) = (lexeme.kind == .string) := by
    obtain ⟨kind, text⟩ := lexeme
    cases kind with
    | lineBreak =>
      simp only [tokenFor, lineBreak]
      split <;> rfl
    | continuation | space | comment | openQuote | string | number | name | operator | stray => rfl
  rw [Token.breaksOff, Lexeme.Kind.breaksOff, kind, text_tokenFor, String.toList_ofList]

private theorem find?_breaksOff_step {own : List Token} {next : Layout}
    (stepped : layout.step lexeme = .ok (own, next)) : own.find? Token.breaksOff =
      if lexeme.kind.breaksOff lexeme.text then some (layout.tokenFor lexeme) else none := by
  rcases step_eq_ok stepped with ⟨gap, rfl, -⟩ | ⟨-, -, rfl, -⟩ |
    ⟨-, -, blocks, settled, settles, rfl, -⟩
  · obtain ⟨kind, text⟩ := lexeme
    rcases gap with rfl | rfl <;> rfl
  · rw [List.find?_singleton, breaksOff_tokenFor]
  · have noString : ∀ block ∈ blocks, ¬ block.breaksOff = true := by
      rcases settle_eq_ok settles with ⟨-, rfl, -⟩ | ⟨-, rfl, -⟩
      · exact List.forall_mem_singleton.2 nofun
      · exact List.forall_mem_map.2 fun _ _ => nofun
    rw [List.find?_append, List.find?_eq_none.2 noString, List.find?_singleton,
      breaksOff_tokenFor, Option.none_or]

end Layout

/-- What the tokens of a text become when its rows end with carriage returns and line feeds. The
first string that goes on behind an escaped line feed is then not terminated. -/
def Token.relined (tokens : List Token) : Except Fault (List Token) :=
  match tokens.find? Token.breaksOff with
  | none => .ok (tokens.map Token.withReturns)
  | some token => .error (.lex .unterminatedString token.start)

private theorem Token.relined_of_plain {tokens : List Token}
    (plain : ∀ token ∈ tokens, token.text = "" ∧ token.kind ≠ .string) :
    relined tokens = .ok tokens := by
  have noString : ∀ token ∈ tokens, ¬ token.breaksOff = true := by
    intro token member broken
    rw [breaksOff, Bool.and_eq_true, beq_iff_eq] at broken
    exact (plain token member).2 broken.1
  have same : tokens.map withReturns = tokens := by
    refine (List.map_congr_left fun token member => withReturns_of_noFeed ?_).trans
      (List.map_id' tokens)
    rw [(plain token member).1]
    exact List.not_mem_nil
  rw [relined, List.find?_eq_none.2 noString, same]

private theorem Token.relined_append {front : List Token} (plain : front.find? breaksOff = none)
    (back : List Token) :
    relined (front ++ back) = (relined back).map (front.map withReturns ++ ·) := by
  rw [relined, relined, List.find?_append, plain, Option.none_or]
  cases back.find? breaksOff with
  | none => simp [Except.map]
  | some token => rfl

namespace Layout

variable {layout : Layout}

private theorem run_withReturns {lexemes : List Lexeme} (reads : Lexeme.Reads lexemes)
    (noReturn : '\r' ∉ Lexeme.textOf lexemes) (noFeed : '\n' ∉ layout.margin) :
    (∀ tokens, layout.run lexemes = .ok tokens →
      layout.run (Lexeme.split (Text.withReturns (Lexeme.textOf lexemes))) =
        Token.relined tokens) ∧
    ∀ fault, layout.run lexemes = .error fault → ∃ fault',
      layout.run (Lexeme.split (Text.withReturns (Lexeme.textOf lexemes))) = .error fault' ∧
        (fault' = fault ∨ ∃ place, fault' = .lex .unterminatedString place) := by
  induction lexemes generalizing layout with
  | nil =>
    refine ⟨fun tokens finished => ?_, fun fault finished => ⟨fault, finished, .inl rfl⟩⟩
    rw [Token.relined_of_plain (text_of_finish finished)]
    exact finished
  | cons lexeme rest ih =>
    rw [Lexeme.textOf_cons, List.mem_append, not_or] at noReturn
    cases broken : lexeme.kind.breaksOff lexeme.text with
    | true =>
      obtain ⟨quotes, others, splits, isQuote⟩ := Lexeme.split_of_breaksOff reads broken
      have stops : layout.run (quotes :: others) =
          .error (.lex .unterminatedString layout.cursor) := by
        rw [run, step, isQuote]
        rfl
      rw [splits, stops]
      refine ⟨fun tokens ran => ?_, fun fault _ => ⟨_, rfl, .inr ⟨_, rfl⟩⟩⟩
      obtain ⟨⟨own, next⟩, stepped, ran⟩ := bind_eq_ok.1 ran
      obtain ⟨others, -, joined⟩ := bind_eq_ok.1 ran
      cases joined
      rw [Token.relined, List.find?_append, find?_breaksOff_step stepped, if_pos broken,
        Option.some_or, ← start_tokenFor layout lexeme]
    | false =>
      have again := step_withReturns reads noReturn.1 noFeed
      rw [Lexeme.split_withReturns reads noReturn.1 broken]
      cases stepped : layout.step lexeme with
      | error fault =>
        rw [stepped] at again
        rw [run_of_error stepped, run_of_error again]
        refine ⟨?_, fun _ same => ⟨_, same, .inl rfl⟩⟩
        rintro _ ⟨⟩
      | ok result =>
        obtain ⟨own, next⟩ := result
        rw [stepped] at again
        have plain := find?_breaksOff_step stepped
        rw [broken, if_neg Bool.false_ne_true] at plain
        obtain ⟨onOk, onError⟩ :=
          ih reads.2.2 noReturn.2 (noFeed_margin_step reads noReturn.1 noFeed stepped)
        rw [run_of_ok stepped, run_of_ok again]
        cases ran : next.run rest with
        | ok others =>
          refine ⟨?_, by rintro _ ⟨⟩⟩
          rintro _ ⟨⟩
          rw [Token.relined_append plain, ← onOk others ran]
          rfl
        | error fault =>
          obtain ⟨fault', again, cause⟩ := onError fault ran
          refine ⟨by rintro _ ⟨⟩, ?_⟩
          rintro _ ⟨⟩
          exact ⟨fault', congrArg _ again, cause⟩

end Layout

/-- Line endings: a text keeps its tokens when its rows end with carriage returns and line feeds,
but for a string in single quotes that goes on behind an escaped line feed, which is then not
terminated. A text that has no tokens gets none. -/
theorem tokenize_withReturns {source : String} (noReturn : '\r' ∉ source.toList) :
    (∀ tokens, tokenize source = .ok tokens →
      tokenize (String.ofList (Text.withReturns source.toList)) = Token.relined tokens) ∧
    ∀ fault, tokenize source = .error fault → ∃ fault',
      tokenize (String.ofList (Text.withReturns source.toList)) = .error fault' ∧
        (fault' = fault ∨ ∃ place, fault' = .lex .unterminatedString place) := by
  have whole : Lexeme.textOf (Lexeme.split source.toList) = source.toList :=
    Lexeme.flatMap_text_split _
  have relined := @Layout.run_withReturns {} _ (Lexeme.reads_split source.toList)
    (by rwa [whole]) List.not_mem_nil
  rw [whole] at relined
  rwa [tokenize, tokenize, String.toList_ofList]

def layeredSource : String := "if a: # b\n\tc = '''d\ne''' + \\\n  f(\n'g',\n)\n"

def escapedSource : String := "x = 'a\\\nb'\n"

theorem tokenize_withReturns_escaped :
    (∃ tokens, tokenize layeredSource = .ok tokens ∧
      tokenize (String.ofList (Text.withReturns layeredSource.toList)) =
        .ok (tokens.map Token.withReturns)) ∧
    (∃ tokens, tokenize escapedSource = .ok tokens) ∧
    tokenize (String.ofList (Text.withReturns escapedSource.toList)) =
      .error (.lex .unterminatedString ⟨1, 4⟩) := by
  have layered : ((tokenize layeredSource).map fun tokens =>
      tokens.find? Token.breaksOff).toOption = some none := by
    decide +kernel
  have escaped : ((tokenize escapedSource).map fun tokens =>
      (tokens.find? Token.breaksOff).map Token.start).toOption = some (some ⟨1, 4⟩) := by
    decide +kernel
  refine ⟨?_, ?_⟩
  · cases tokenized : tokenize layeredSource with
    | error fault =>
      rw [tokenized] at layered
      cases layered
    | ok tokens =>
      rw [tokenized] at layered
      have plain : tokens.find? Token.breaksOff = none := Option.some.inj layered
      refine ⟨tokens, rfl, ?_⟩
      rw [(tokenize_withReturns (by decide +kernel)).1 tokens tokenized, Token.relined, plain]
  · cases tokenized : tokenize escapedSource with
    | error fault =>
      rw [tokenized] at escaped
      cases escaped
    | ok tokens =>
      rw [tokenized] at escaped
      obtain ⟨token, found, start⟩ := Option.map_eq_some_iff.1 (Option.some.inj escaped)
      refine ⟨⟨tokens, rfl⟩, ?_⟩
      rw [(tokenize_withReturns (by decide +kernel)).1 tokens tokenized, Token.relined, found,
        ← start]

end DeferredDefaults
