import DeferredDefaults.Proofs.Tree.Lossless

/-!
Which tokens a tree stands for. A tree leaves out the tokens that close its blocks, so the tokens it
has been read from are given by a relation: `BodyCovers body tokens` takes the tokens apart along the
statements. The reader keeps it row by row, and what it has read in the end covers all tokens up to
the end marker.
-/

set_option autoImplicit false
set_option relaxedAutoImplicit false

namespace DeferredDefaults

def Line.IsWhole (line : List Token) : Prop :=
  ∃ code stop, line = code ++ [stop] ∧ stop.kind = .newline ∧
    (∀ token ∈ code, token.kind ≠ .newline ∧ token.isLayout = false) ∧
    ∀ first ∈ line.head?, first.isTrivia = false

theorem Line.IsWhole.noLayout {line : List Token} (whole : Line.IsWhole line) :
    ∀ token ∈ line, token.isLayout = false := by
  obtain ⟨code, stop, rfl, isNewline, inLine, -⟩ := whole
  rw [List.forall_mem_append, List.forall_mem_singleton]
  exact ⟨fun token member => (inLine token member).2, by simp [Token.isLayout, isNewline]⟩

def Header.OpensSuite (header : Header) (suite line : List Token) : Prop :=
  ∃ first more, Header.read first more = .ok (header, suite) ∧ line = first :: more

def Header.OpensBlock (header : Header) (line : List Token) : Prop :=
  ∃ (base : Header) (behind : List Token), base.OpensSuite behind line ∧
    (∀ token ∈ behind, token.isTrivia = true ∨ token.kind = .newline) ∧
    header = { base with tail := base.tail ++ behind }

namespace Header

variable {header : Header} {suite line : List Token}

theorem OpensSuite.tokens_eq (opens : header.OpensSuite suite line) :
    header.tokens ++ suite = line := by
  obtain ⟨first, more, read, rfl⟩ := opens
  exact tokens_read read

theorem OpensSuite.plain (opens : header.OpensSuite suite line) :
    ∀ item ∈ header.parameters.items, Parameters.Plain item := by
  obtain ⟨first, more, read, rfl⟩ := opens
  exact (plain_read read).2.2

theorem OpensBlock.tokens_eq (opens : header.OpensBlock line) : header.tokens = line := by
  obtain ⟨base, behind, suite, -, rfl⟩ := opens
  rw [← suite.tokens_eq]
  simp [tokens]

theorem OpensBlock.plain (opens : header.OpensBlock line) :
    ∀ item ∈ header.parameters.items, Parameters.Plain item := by
  obtain ⟨base, behind, suite, -, rfl⟩ := opens
  exact suite.plain

end Header

def Margin.Covers (margin : Margin) (tokens : List Token) : Prop :=
  ∃ indent, margin.indent = some indent ∧ indent.kind = .indent ∧
    (∀ token ∈ margin.leading, token.isTrivia = true) ∧ tokens = margin.leading ++ [indent]

mutual

def Stmt.Covers : Stmt → List Token → Prop
  | .trivia trivia, tokens => tokens = trivia ∧ ∀ token ∈ trivia, token.isTrivia = true
  | .simple line, tokens => tokens = line ∧ Line.IsWhole line
  | .compound header margin body, tokens => ∃ indent inner dedent,
    tokens = header ++ indent ++ inner ++ [dedent] ∧ Line.IsWhole header ∧
      margin.Covers indent ∧ BodyCovers body inner ∧ dedent.kind = .dedent
  | .function header margin body, tokens => ∃ line indent inner dedent,
    tokens = line ++ indent ++ inner ++ [dedent] ∧ Line.IsWhole line ∧ header.OpensBlock line ∧
      margin.Covers indent ∧ BodyCovers body inner ∧ dedent.kind = .dedent
  | .inlineFunction header suite, tokens => Line.IsWhole tokens ∧ header.OpensSuite suite tokens ∧
    suite.any fun token => !token.isTrivia && token.kind != .newline
  | .prologue _, _ | .runtimeImport, _ => False

def BodyCovers : List Stmt → List Token → Prop
  | [], tokens => tokens = []
  | stmt :: rest, tokens =>
    ∃ front back, tokens = front ++ back ∧ stmt.Covers front ∧ BodyCovers rest back

end

theorem bodyCovers_append {front back : List Stmt} {tokens more : List Token}
    (covers : BodyCovers front tokens) (coversMore : BodyCovers back more) :
    BodyCovers (front ++ back) (tokens ++ more) := by
  induction front generalizing tokens with
  | nil =>
    cases covers
    exact coversMore
  | cons stmt rest ih =>
    obtain ⟨first, others, rfl, coversFirst, coversOthers⟩ := covers
    exact ⟨first, others ++ more, List.append_assoc .., coversFirst, ih coversOthers⟩

private theorem bodyCovers_singleton {stmt : Stmt} {tokens : List Token}
    (covers : stmt.Covers tokens) :
    BodyCovers [stmt] tokens :=
  ⟨tokens, [], (List.append_nil _).symm, covers, rfl⟩

def Opener.Covers : Opener → List Token → Prop
  | .compound header, tokens => tokens = header ∧ Line.IsWhole tokens
  | .function header, tokens => header.OpensBlock tokens ∧ Line.IsWhole tokens

private theorem Opener.covers_close {opener : Opener} {margin : Margin} {body : List Stmt}
    {header indent inner : List Token} {dedent : Token} (opens : opener.Covers header)
    (indents : margin.Covers indent) (covers : BodyCovers body inner)
    (dedents : dedent.kind = .dedent) :
    (opener.close margin body).Covers (header ++ indent ++ inner ++ [dedent]) := by
  cases opener with
  | compound line =>
    obtain ⟨rfl, whole⟩ := opens
    exact ⟨indent, inner, dedent, rfl, whole, indents, covers, dedents⟩
  | function line =>
    obtain ⟨block, whole⟩ := opens
    exact ⟨header, indent, inner, dedent, rfl, whole, block, indents, covers, dedents⟩

namespace Row

def Whole : Row → Prop
  | .trivia first more => ∀ token ∈ first :: more, token.isTrivia = true
  | .line first more => Line.IsWhole (first :: more)
  | .indent token => token.kind = .indent
  | .dedent token => token.kind = .dedent
  | .stop token => token.kind = .endMarker
  | .broken _ _ => False

/-- The rows of a text: each in front of the tokens of the others, up to the end marker or a broken
line. -/
def Gathered : List Row → List Token → Prop
  | [], tokens => tokens = []
  | .broken _ _ :: _, _ => True
  | .stop token :: _, tokens => token.kind = .endMarker ∧ ∃ rest, tokens = token :: rest
  | row :: rows, tokens => row.Whole ∧ ∃ rest, tokens = row.tokens ++ rest ∧ Gathered rows rest

def Begun.tokens : Begun → List Token
  | .nothing => []
  | .trivia first reversed => first :: reversed.reverse
  | .line first reversed => first :: reversed.reverse

def Begun.Sound : Begun → Prop
  | .nothing => True
  | .trivia first reversed => ∀ token ∈ first :: reversed, token.isTrivia = true
  | .line first reversed => first.isTrivia = false ∧
    ∀ token ∈ first :: reversed, token.kind ≠ .newline ∧ token.isLayout = false

private theorem gathered_ended {begun : Begun} (sound : begun.Sound) (noLine : ∀ first reversed,
    begun ≠ .line first reversed) {rows : List Row} {tokens : List Token}
    (gathered : Gathered rows tokens) : Gathered (begun.ended ++ rows) (begun.tokens ++ tokens) := by
  cases begun with
  | nothing => exact gathered
  | trivia first reversed =>
    refine ⟨?_, tokens, rfl, gathered⟩
    intro token member
    refine sound token ?_
    simpa using member
  | line first reversed => exact absurd rfl (noLine first reversed)

private theorem sound_addTrivia {begun : Begun} (sound : begun.Sound) (noLine : ∀ first reversed,
    begun ≠ .line first reversed) {token : Token} (trivia : token.isTrivia = true) :
    (begun.addTrivia token).Sound ∧
      (begun.addTrivia token).tokens = begun.tokens ++ [token] := by
  cases begun with
  | nothing => exact ⟨List.forall_mem_singleton.2 trivia, rfl⟩
  | trivia first reversed =>
    refine ⟨?_, by simp [Begun.addTrivia, Begun.tokens]⟩
    intro other member
    rcases List.mem_cons.1 member with rfl | member
    · exact sound other List.mem_cons_self
    · rcases List.mem_cons.1 member with rfl | member
      · exact trivia
      · exact sound other (List.mem_cons_of_mem _ member)
  | line first reversed => exact absurd rfl (noLine first reversed)

private theorem isWhole_of_sound {first stop : Token} {reversed : List Token}
    (sound : (Begun.line first reversed).Sound) (ends : stop.kind = .newline) :
    Line.IsWhole (first :: (stop :: reversed).reverse) := by
  refine ⟨first :: reversed.reverse, stop, by simp, ends, ?_, ?_⟩
  · intro token member
    refine sound.2 token ?_
    simpa using member
  · rintro token ⟨⟩
    exact sound.1

/-- Gathering loses no token in front of the end marker, unless a line is broken. -/
private theorem gathered_gather {begun : Begun} {tokens : List Token} (sound : begun.Sound) :
    Gathered (gather begun tokens) (begun.tokens ++ tokens) := by
  fun_induction gather begun tokens with
  | case1 first reversed => trivial
  | case2 begun noLine =>
    have none : Gathered [] [] := rfl
    simpa using gathered_ended sound noLine none
  | case3 first reversed token rest ends ih =>
    refine ⟨isWhole_of_sound sound ends, rest, ?_, ih trivial⟩
    simp [Begun.tokens, Row.tokens]
  | case4 | case5 | case6 => trivial
  | case7 first reversed token rest noNewline noIndent noDedent noEnd ih =>
    have next : (Begun.line first (token :: reversed)).Sound := by
      refine ⟨sound.1, ?_⟩
      intro other member
      rcases List.mem_cons.1 member with rfl | member
      · exact sound.2 other List.mem_cons_self
      · rcases List.mem_cons.1 member with rfl | member
        · refine ⟨noNewline, ?_⟩
          simpa [Token.isLayout] using ⟨⟨noIndent, noDedent⟩, noEnd⟩
        · exact sound.2 other (List.mem_cons_of_mem _ member)
    simpa [Begun.tokens] using ih next
  | case8 begun token rest noLine isComment ih | case9 begun token rest noLine isComment ih =>
    have trivia : token.isTrivia = true := by simp [Token.isTrivia, isComment]
    obtain ⟨nextSound, same⟩ := sound_addTrivia sound noLine trivia
    have gathered := ih nextSound
    rwa [same, List.append_assoc, List.singleton_append] at gathered
  | case10 begun token rest noLine isIndent ih | case11 begun token rest noLine isIndent ih =>
    exact gathered_ended sound noLine ⟨isIndent, rest, rfl, ih trivial⟩
  | case12 begun token rest noLine isEnd =>
    exact gathered_ended sound noLine ⟨isEnd, rest, rfl⟩
  | case13 begun token rest noLine isNewline ih =>
    refine gathered_ended sound noLine
      ⟨⟨[], token, rfl, isNewline, List.forall_mem_nil _, ?_⟩, rest, rfl, ih trivial⟩
    rintro first ⟨⟩
    simp [Token.isTrivia, isNewline]
  | case14 begun token rest noLine noComment noNl noIndent noDedent noEnd noNewline ih =>
    have code : (Begun.line token []).Sound := by
      refine ⟨by simpa [Token.isTrivia] using ⟨noComment, noNl⟩, ?_⟩
      rw [List.forall_mem_singleton]
      exact ⟨noNewline, by simpa [Token.isLayout] using ⟨⟨noIndent, noDedent⟩, noEnd⟩⟩
    exact gathered_ended sound noLine (ih code)

end Row

/-- The open blocks with the statements in front of them have been read from these tokens. -/
def FramesCover : List Frame → List Token → Prop
  | [], tokens => tokens = []
  | frame :: outer, tokens => ∃ front before header indent,
    tokens = front ++ (before ++ (header ++ indent)) ∧ FramesCover outer front ∧
      BodyCovers frame.before before ∧ frame.opener.Covers header ∧ frame.margin.Covers indent

namespace Reader

/-- The header that waits and the trivia behind it have been read from these tokens. -/
def WaitingCovers : Option (Opener × List Token) → List Token → Prop
  | none, tokens => tokens = []
  | some (opener, leading), tokens => ∃ header, tokens = header ++ leading ∧
    opener.Covers header ∧ ∀ token ∈ leading, token.isTrivia = true

/-- What has been read, and the tokens it has been read from. -/
structure Covers (reader : Reader) (outer inner pending : List Token) : Prop where
  frames : FramesCover reader.frames outer
  body : BodyCovers reader.body inner
  waiting : WaitingCovers reader.waiting pending

variable {reader next : Reader} {outer inner pending : List Token}

private theorem Covers.push (covers : reader.Covers outer inner pending) {stmt : Stmt}
    {tokens : List Token} (stmtCovers : stmt.Covers tokens) :
    (reader.push stmt).Covers outer (inner ++ tokens) pending where
  frames := covers.frames
  body := bodyCovers_append covers.body (bodyCovers_singleton stmtCovers)
  waiting := covers.waiting

private theorem covers_line (covers : reader.Covers outer inner []) {first : Token}
    {more : List Token} (whole : Line.IsWhole (first :: more))
    (read : reader.line first more = .ok next) :
    ∃ inner' pending, next.Covers outer inner' pending ∧
      inner' ++ pending = inner ++ first :: more := by
  unfold Reader.line at read
  split at read
  · obtain ⟨⟨header, behind⟩, found, read⟩ := bind_eq_ok.1 read
    have opens : header.OpensSuite behind (first :: more) := ⟨first, more, found, rfl⟩
    simp only at read
    split at read
    · next code =>
      cases read
      exact ⟨_, [], covers.push ⟨whole, opens, code⟩, List.append_nil _⟩
    · next noCode =>
      cases read
      have behindTrivia : ∀ token ∈ behind, token.isTrivia = true ∨ token.kind = .newline := by
        rw [Bool.not_eq_true, List.any_eq_false] at noCode
        intro token member
        cases trivia : token.isTrivia with
        | true => exact .inl rfl
        | false => exact .inr (by simpa [trivia] using noCode token member)
      refine ⟨inner, first :: more, ⟨covers.frames, covers.body, ?_⟩, rfl⟩
      exact ⟨first :: more, (List.append_nil _).symm,
        ⟨⟨header, behind, opens, behindTrivia, rfl⟩, whole⟩, nofun⟩
  · split at read
    · cases read
      refine ⟨inner, first :: more, ⟨covers.frames, covers.body, ?_⟩, rfl⟩
      exact ⟨first :: more, (List.append_nil _).symm, ⟨rfl, whole⟩, nofun⟩
    · cases read
      exact ⟨_, [], covers.push ⟨rfl, whole⟩, List.append_nil _⟩

private theorem covers_statement (covers : reader.Covers outer inner []) {row : Row}
    (whole : row.Whole) (read : reader.statement row = .ok next) :
    ∃ outer' inner' pending, next.Covers outer' inner' pending ∧
      outer' ++ inner' ++ pending = outer ++ inner ++ row.tokens := by
  cases row with
  | trivia first more =>
    cases read
    refine ⟨outer, _, [], covers.push ⟨rfl, whole⟩, ?_⟩
    simp [Row.tokens]
  | line first more =>
    obtain ⟨inner', pending, nextCovers, same⟩ := covers_line covers whole read
    refine ⟨outer, inner', pending, nextCovers, ?_⟩
    rw [List.append_assoc, same, ← List.append_assoc]
    rfl
  | indent token | stop token => cases read
  | broken first fault => cases read
  | dedent token =>
    simp only [Reader.statement] at read
    split at read
    · cases read
    · next frame frames found =>
      cases read
      have opened := covers.frames
      rw [found] at opened
      obtain ⟨front, before, header, indent, rfl, framesCover, beforeCovers, opens, indents⟩ := opened
      have closed := Opener.covers_close opens indents covers.body whole
      refine ⟨front, _, [], ⟨framesCover,
        bodyCovers_append beforeCovers (bodyCovers_singleton closed), covers.waiting⟩, ?_⟩
      simp [Row.tokens]

private theorem covers_block (covers : reader.Covers outer inner pending) {opener : Opener}
    {leading : List Token} (waits : reader.waiting = some (opener, leading)) {row : Row}
    (whole : row.Whole) (read : reader.block opener leading row = .ok next) :
    ∃ outer' inner' pending', next.Covers outer' inner' pending' ∧
      outer' ++ inner' ++ pending' = outer ++ inner ++ pending ++ row.tokens := by
  have waiting := covers.waiting
  rw [waits] at waiting
  obtain ⟨header, rfl, opens, trivia⟩ := waiting
  cases row with
  | trivia first more =>
    cases read
    refine ⟨outer, inner, header ++ (leading ++ first :: more), ⟨covers.frames, covers.body,
      header, rfl, opens, List.forall_mem_append.2 ⟨trivia, whole⟩⟩, ?_⟩
    simp [Row.tokens]
  | indent token =>
    cases read
    refine ⟨_, [], [], ⟨⟨outer, inner, header, _, rfl, covers.frames, covers.body, opens, token, rfl,
      whole, trivia, rfl⟩, rfl, rfl⟩, ?_⟩
    simp [Row.tokens]
  | line first more | dedent token | stop token => cases read
  | broken first fault => cases read

private theorem covers_step (covers : reader.Covers outer inner pending) {row : Row}
    (whole : row.Whole) (stepped : reader.step row = .ok next) :
    ∃ outer' inner' pending', next.Covers outer' inner' pending' ∧
      outer' ++ inner' ++ pending' = outer ++ inner ++ pending ++ row.tokens := by
  unfold Reader.step at stepped
  split at stepped
  · next opener leading waits =>
    obtain ⟨read, found, stepped⟩ := bind_eq_ok.1 stepped
    cases stepped
    obtain ⟨outer', inner', pending', nextCovers, same⟩ := covers_block covers waits whole found
    exact ⟨outer', inner', pending',
      ⟨nextCovers.frames, nextCovers.body, nextCovers.waiting⟩, same⟩
  · next noWaiting =>
    obtain ⟨read, found, stepped⟩ := bind_eq_ok.1 stepped
    cases stepped
    have waiting := covers.waiting
    rw [noWaiting] at waiting
    cases waiting
    obtain ⟨outer', inner', pending', nextCovers, same⟩ := covers_statement covers whole found
    exact ⟨outer', inner', pending', ⟨nextCovers.frames, nextCovers.body, nextCovers.waiting⟩,
      by rw [same, List.append_nil]⟩

private theorem gathered_step {row : Row} {rest : List Row} {tokens : List Token}
    (gathered : Row.Gathered (row :: rest) tokens) (stepped : reader.step row = .ok next) :
    row.Whole ∧ ∃ others, tokens = row.tokens ++ others ∧ Row.Gathered rest others := by
  have refused : (∀ opener leading read, reader.block opener leading row ≠ .ok read) →
      (∀ read, reader.statement row ≠ .ok read) → False := by
    intro noBlock noStatement
    unfold Reader.step at stepped
    split at stepped
    · obtain ⟨read, found, -⟩ := bind_eq_ok.1 stepped
      exact noBlock _ _ read found
    · obtain ⟨read, found, -⟩ := bind_eq_ok.1 stepped
      exact noStatement read found
  cases row with
  | trivia | line | indent | dedent => exact gathered
  | stop token => exact (refused nofun nofun).elim
  | broken first fault => exact (refused nofun nofun).elim

/-- What is left behind the statements: nothing, or the end marker and what follows it. -/
def IsRest (tokens : List Token) : Prop := ∀ stop ∈ tokens.head?, stop.kind = .endMarker

/-- The statements that are read from rows cover their tokens up to the end marker. -/
private theorem covers_run {rows : List Row} {tokens : List Token}
    (covers : reader.Covers outer inner pending) (gathered : Row.Gathered rows tokens)
    {body : List Stmt} (ran : reader.run rows = .ok body) :
    ∃ front back, BodyCovers body front ∧ IsRest back ∧
      outer ++ inner ++ pending ++ tokens = front ++ back := by
  induction rows generalizing reader outer inner pending tokens with
  | nil =>
    cases gathered
    simp only [Reader.run, Reader.finish] at ran
    split at ran
    · cases ran
    · cases ran
    · next noWaiting noFrames =>
      cases ran
      obtain ⟨frames, body, waiting⟩ := covers
      rw [noFrames] at frames
      rw [noWaiting] at waiting
      cases frames
      cases waiting
      exact ⟨inner, [], body, nofun, by simp⟩
  | cons row rest ih =>
    rw [Reader.run] at ran
    split at ran
    · next stops =>
      cases ran
      unfold Reader.atStop at stops
      split at stops
      · next token =>
        rw [Bool.and_eq_true, Option.isNone_iff_eq_none, List.isEmpty_iff] at stops
        obtain ⟨frames, body, waiting⟩ := covers
        rw [stops.2] at frames
        rw [stops.1] at waiting
        cases frames
        cases waiting
        obtain ⟨isEnd, back, rfl⟩ := gathered
        refine ⟨inner, token :: back, body, ?_, by simp⟩
        rintro stop ⟨⟩
        exact isEnd
      · cases stops
    · obtain ⟨next, stepped, ran⟩ := bind_eq_ok.1 ran
      obtain ⟨rowWhole, others, rfl, restGathered⟩ := gathered_step gathered stepped
      obtain ⟨outer', inner', pending', nextCovers, same⟩ := covers_step covers rowWhole stepped
      obtain ⟨front, back, bodyCovers, isRest, split⟩ := ih nextCovers restGathered ran
      exact ⟨front, back, bodyCovers, isRest, by rw [← split, same]; simp⟩

end Reader

theorem Program.covers_ofTokens {tokens : List Token} {program : Program}
    (read : Program.ofTokens tokens = .ok program) :
    ∃ front back, BodyCovers program.body front ∧ Reader.IsRest back ∧ tokens = front ++ back := by
  obtain ⟨body, ran, read⟩ := bind_eq_ok.1 read
  cases read
  have nothing : ({} : Reader).Covers [] [] [] := ⟨rfl, rfl, rfl⟩
  have gathered : Row.Gathered (Row.ofTokens tokens) tokens :=
    Row.gathered_gather (trivial : Row.Begun.nothing.Sound)
  exact Reader.covers_run nothing gathered ran

end DeferredDefaults
