import DeferredDefaults.Proofs.Page.Continuation
import DeferredDefaults.Proofs.Tree.Nodes

/-!
The headers of a tree that has been read. The parameters stand inside the brackets that the header
has opened, every parameter has a name, defaults stand behind an `=`, and at the colon all brackets
are closed. The reader keeps this of every statement, row by row.
-/

set_option autoImplicit false
set_option relaxedAutoImplicit false

namespace DeferredDefaults

private theorem Token.opensBracket_of_isOp {token : Token} {op : String}
    (isOp : token.isOp op = true) (opens : op = "(" ∨ op = "[") : token.opensBracket = true := by
  rcases opens with rfl | rfl <;> simp [opensBracket, isOp]

namespace Cut

variable {list : List Token} {cut : Cut}

/-- Up to the closing bracket all tokens stand inside brackets. -/
theorem within_atClose {depth : Nat} (found : atClose depth list = some cut) (base : Nat) :
    Within (base + depth + 1) cut.before ∧
      cut.before.foldl Token.depthAfter (base + depth + 1) = base + 1 ∧
      cut.token.closesBracket = true := by
  induction list generalizing depth cut with
  | nil => cases found
  | cons token rest ih =>
    rw [atClose_cons] at found
    split at found
    · next here =>
      cases found
      obtain ⟨rfl, closes⟩ := here
      exact ⟨Nat.succ_pos _, rfl, closes⟩
    · next inside =>
      obtain ⟨tail, tailFound, rfl⟩ := Option.map_eq_some_iff.1 found
      obtain ⟨within, ends, closes⟩ := ih tailFound
      have depthAfter : token.depthAfter (base + depth + 1) =
          base + token.depthAfter depth + 1 := by
        unfold Token.depthAfter
        split
        · omega
        · split
          · next closes =>
            have deeper : depth ≠ 0 := fun top => inside ⟨top, closes⟩
            omega
          · rfl
      simp only [push, Within, List.foldl_cons, depthAfter]
      exact ⟨⟨by omega, within⟩, ends, closes⟩

theorem depth_atOp {op : String} {depth : Nat} (found : atOp op depth list = some cut) :
    cut.before.foldl Token.depthAfter depth = 0 ∧ cut.token.isOp op = true := by
  induction list generalizing depth cut with
  | nil => cases found
  | cons token rest ih =>
    unfold atOp at found
    split at found
    · next here =>
      cases found
      exact here
    · obtain ⟨tail, tailFound, rfl⟩ := Option.map_eq_some_iff.1 found
      exact @ih tail _ tailFound

end Cut

/-- The parameter of the item has a name, and its default stands behind an `=`. -/
def ParameterItem.Legible : ParameterItem → Prop
  | .parameter value =>
    value.name.kind = .name ∧ ∀ default ∈ value.default, default.eq.isOp "=" = true
  | .separator _ => True

private theorem Parameters.kept_legible : Kept ParameterItem.Legible where
  separator := fun _ => trivial
  beforeSlash := by
    rintro (value | value) legible
    · exact legible
    · trivial
  parameter := by
    intro reading raw position parameter read
    obtain ⟨isName, rest, found⟩ := parameter_eq_ok read
    refine ⟨isName, fun default member => ?_⟩
    obtain ⟨-, value, split, -⟩ := readDefault_eq_ok found default member
    rw [splitDefault] at split
    split at split
    · next cut isCut =>
      rw [← (Prod.mk.inj (Option.some.inj split)).1]
      exact (Cut.depth_atOp isCut).2
    · cases split

namespace Header

/-- The parameters of the header stand inside its brackets and can be read. -/
structure Shaped (header : Header) : Prop where
  within : Within (header.head.foldl Token.depthAfter 0) header.parameters.tokens
  legible : ∀ item ∈ header.parameters.items, item.Legible

structure Closes (header : Header) : Prop where
  colon : ∃ front colon, header.tail = front ++ [colon] ∧ colon.isOp ":" = true
  closed : header.tokens.foldl Token.depthAfter 0 = 0

private theorem depth_typeParameters {start : Position} {list types rest : List Token}
    (found : typeParameters start list = .ok (types, rest)) :
    types.foldl Token.depthAfter 0 = 0 := by
  unfold typeParameters at found
  split at found
  · cases found
    rfl
  · split at found
    · next opening others isOpening =>
      split at found
      · next cut isCut =>
        cases found
        have opens := Token.opensBracket_of_isOp isOpening (.inr rfl)
        obtain ⟨-, inside, closes⟩ := Cut.within_atClose isCut 0
        have notOpens := Token.opensBracket_of_closesBracket closes
        have deeper : opening.depthAfter 0 = 0 + 0 + 1 := by simp [Token.depthAfter, opens]
        rw [List.cons_append, List.foldl_cons, List.foldl_append, deeper, inside]
        simp [Token.depthAfter, closes, notOpens]
      · cases found
    · cases found
      rfl

private theorem depth_signature {start : Position} {list : List Token} {opening : Token}
    {parameters : Parameters} {tail behind : List Token}
    (found : signature start list = .ok (opening, parameters, tail, behind)) :
    Within (opening.depthAfter 0) parameters.tokens ∧
      (∀ item ∈ parameters.items, item.Legible) ∧
      (∃ front colon, tail = front ++ [colon] ∧ colon.isOp ":" = true) ∧
      (opening :: (parameters.tokens ++ tail)).foldl Token.depthAfter 0 = 0 := by
  obtain ⟨cut, colon, -, isOpening, isCut, isEnd, read, rfl, -⟩ := signature_eq_ok found
  have deeper : opening.depthAfter 0 = 0 + 0 + 1 := by
    simp [Token.depthAfter, Token.opensBracket_of_isOp isOpening (.inl rfl)]
  obtain ⟨within, inside, closes⟩ := Cut.within_atClose isCut 0
  obtain ⟨outside, isColon⟩ := Cut.depth_atOp isEnd
  have notOpens := Token.opensBracket_of_closesBracket closes
  rw [Parameters.tokens_read read, deeper]
  refine ⟨within, Parameters.kept_legible.read read, ⟨_, colon.token, rfl, isColon⟩, ?_⟩
  have level : cut.token.depthAfter (0 + 1) = 0 := by
    simp [Token.depthAfter, notOpens, closes]
  have colonLevel : colon.token.depthAfter 0 = 0 := by
    have op := Token.isOp_iff.1 isColon
    simp [Token.depthAfter, Token.opensBracket, Token.closesBracket, Token.isOp, op.2]
  rw [List.foldl_cons, deeper, List.foldl_append, inside, List.cons_append, List.foldl_cons,
    level, List.foldl_append, outside, List.foldl_cons, colonLevel, List.foldl_nil]

private theorem shaped_read {first : Token} {more behind : List Token} {header : Header}
    (starts : Line.startsFunction (first :: more) = true)
    (found : read first more = .ok (header, behind)) : header.Shaped ∧ header.Closes := by
  have nameDepth : ∀ {token : Token} {name : String}, token.isName name = true →
      token.depthAfter 0 = 0 := by
    intro token name isName
    rw [Token.isName, Bool.and_eq_true, beq_iff_eq] at isName
    exact Token.depthAfter_of_kind (by simp [isName.1]) 0
  have keywordDepth : (if first.isName "async" then first :: more.take 1 else [first]).foldl
      Token.depthAfter 0 = 0 := by
    rw [Line.startsFunction, Bool.or_eq_true, Bool.and_eq_true] at starts
    rcases starts with isDef | ⟨isAsync, second⟩
    · have notAsync : first.isName "async" = false := by
        rw [Token.isName, Bool.and_eq_true, beq_iff_eq, beq_iff_eq] at isDef
        simp [Token.isName, isDef.2]
      simp [notAsync, nameDepth isDef]
    · cases more with
      | nil => cases second
      | cons other more => simp [isAsync, nameDepth isAsync, nameDepth second]
  obtain ⟨name, rest, types, list, opening, -, isName, foundTypes, foundSignature, parts⟩ :=
    read_eq_ok found
  obtain ⟨within, legible, colon, closed⟩ := depth_signature foundSignature
  have nameLevel : name.depthAfter 0 = 0 :=
    Token.depthAfter_of_kind (by rw [isName]; rintro ⟨⟩) 0
  have head : header.head.foldl Token.depthAfter 0 = opening.depthAfter 0 := by
    have named : (name :: types).foldl Token.depthAfter 0 = 0 := by
      rw [List.foldl_cons, nameLevel, depth_typeParameters foundTypes]
    rw [parts, List.foldl_append, List.foldl_append, keywordDepth, named]
    rfl
  refine ⟨⟨by rwa [head], legible⟩, ⟨colon, ?_⟩⟩
  rw [tokens, List.append_assoc, List.foldl_append, head]
  exact closed

end Header

namespace Stmt

def Shaped : Stmt → Prop
  | function header _ _ => header.Shaped
  | inlineFunction header _ => header.Shaped ∧ header.Closes
  | _ => True

end Stmt

def Opener.Shaped : Opener → Prop
  | compound _ => True
  | function header => header.Shaped

private theorem Reader.kept_shaped : Reader.Kept Stmt.Shaped Opener.Shaped where
  trivia := fun _ => trivial
  simple := fun _ _ => trivial
  compound := fun _ _ _ => trivial
  function := by
    intro first more behind header starts found
    obtain ⟨shaped, -⟩ := Header.shaped_read starts found
    exact ⟨shaped.within, shaped.legible⟩
  inlineFunction := Header.shaped_read
  close := by
    rintro (header | header) shaped margin body
    · trivial
    · exact shaped

theorem Program.shaped_ofTokens {tokens : List Token} {program : Program}
    (read : Program.ofTokens tokens = .ok program) : ∀ stmt ∈ bodyNodes program.body, stmt.Shaped :=
  Reader.kept_shaped.ofTokens read

end DeferredDefaults
