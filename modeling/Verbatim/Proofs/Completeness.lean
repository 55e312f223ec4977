/-
  Completeness: parsing undoes printing.

  A tree of a whole text is printed by writing its tokens one behind the other, each
  with a blank behind it.  If the tree is sound and every token is scanned on its own
  as what it is, the printed text is scanned into the leaves of the tree, the grammar
  reads the leaves back, and the output is replayed into the tree.  Nothing is reported
  on the way, and no option makes a difference.
-/
import Verbatim.Proofs.SourceReading
import Verbatim.Proofs.StatementRecognition

set_option autoImplicit false

namespace Verbatim

/-! ## Printed trees -/

namespace Element

/-- A tree of a whole text that is ready to be printed.  It is sound, a blank stands
behind each of its tokens, and nothing around the end of the file. -/
structure Printed (root : Element) : Prop where
  isUnit : root.isNodeIn [.sourceUnit] = true
  sound : root.Sound
  spaced : ∀ t ∈ root.leaves, t.kind ≠ .eof → t.Spaced
  bare : ∀ t ∈ root.leaves, t.kind = .eof → t = .make .eof [] .empty .empty

/-- Leaves of an element that is put together by the constructors have their facts
settled. -/
theorem Made.leaf_eq {e : Element} (h : e.Made) :
    ∀ t ∈ e.leaves, Token.make t.kind t.text t.leading t.trailing = t := by
  induction h with
  | token kind text leading trailing => exact List.forall_mem_singleton.mpr rfl
  | node kind children _ ih => exact forall_mem_leavesAll.mpr ih
  | list nodes _ ih => exact forall_mem_leavesAll.mpr ih
  | separated slots _ ih => exact forall_mem_leavesAll.mpr ih

/-- The tokens of a printed tree, and the end of the file behind them. -/
theorem Printed.exists_front {root : Element} (h : root.Printed) :
    ∃ front, root.leaves = front ++ [.make .eof [] .empty .empty] ∧ ∀ t ∈ front, t.Spaced := by
  obtain ⟨cs, rfl, hfills⟩ := h.sound.exists_children h.isUnit
  obtain ⟨body, later, rfl, hbody, hlater⟩ :=
    Part.exists_of_accepts_cons (hfills.accepts_of_production rfl)
  obtain ⟨last, rfl, hlast⟩ := Part.exists_of_accepts_one hlater
  obtain ⟨leaf, rfl, hleaf⟩ := exists_of_isTokenIn hlast
  have hleaves : (makeNode .sourceUnit [body, .token leaf]).leaves = body.leaves ++ [leaf] := by
    simp [makeNode, leaves, leavesAll]
  have hspaced := h.spaced
  have hbare := h.bare
  rw [hleaves] at hspaced hbare ⊢
  refine ⟨body.leaves, by rw [hbare leaf (by simp) hleaf], fun t ht => ?_⟩
  have hinner := (hfills.sound body (by simp)).kind_ne_eof rfl hbody t ht
  exact hspaced t (List.mem_append_left _ ht) hinner

end Element

/-! ## Scanning a printed tree -/

/-- Tokens with blanks behind them are no more than the characters that they are written
with. -/
theorem Token.length_le_of_spaced {tokens : List Token} (h : ∀ t ∈ tokens, t.Spaced) :
    tokens.length ≤ (tokens.flatMap Token.fullText).length := by
  induction tokens with
  | nil => exact Nat.le_refl 0
  | cons t rest ih =>
      obtain ⟨ht, hrest⟩ := List.forall_mem_cons.mp h
      have hle := ih hrest
      rw [List.flatMap_cons, ht.fullText]
      simp only [List.length_append, List.length_cons, List.length_nil]
      omega

theorem Token.Spaced.plain {t : Token} (h : t.Spaced) : t.Plain where
  isToken := by
    have hsignificant := h.scansAlone.isSignificant
    rw [Kind.isSignificant, Bool.and_eq_true] at hsignificant
    exact hsignificant.1
  leading := h.leading
  newline := by
    rw [h.trailing]
    rfl

/-- A printed tree is scanned into its leaves without a report. -/
theorem Element.Printed.scan_fullText {root : Element} (h : root.Printed) :
    ∃ tokens, scan root.fullText = .ok ⟨tokens, []⟩ ∧
      (ParseState.start tokens).Faces root.leaves := by
  obtain ⟨front, hleaves, hspaced⟩ := h.exists_front
  have htext : root.fullText = front.flatMap Token.fullText := by
    rw [fullText_eq_leaves, hleaves, List.flatMap_append]
    exact List.append_nil _
  obtain ⟨tokens, hscan, hscanned⟩ := Scanner.scanFrom_spaced hspaced 0
    (Nat.lt_succ_of_le (Token.length_le_of_spaced hspaced))
  refine ⟨tokens, by rw [htext]; exact hscan, ?_, ?_, rfl, rfl, rfl⟩
  · have hmade := h.sound.made.leaf_eq
    rw [hleaves] at hmade ⊢
    have hfront : front.map (fun t => .make t.kind t.text t.leading t.trailing) = front :=
      (List.map_congr_left fun t ht => hmade t (List.mem_append_left _ ht)).trans
        (List.map_id front)
    rw [hfront] at hscanned
    exact hscanned
  · rw [hleaves]
    intro t ht
    rcases List.mem_append.mp ht with ht | ht
    · exact (hspaced t ht).plain
    · rw [List.mem_singleton.mp ht]
      exact ⟨rfl, rfl, rfl⟩

/-! ## Parsing a printed tree -/

/-- Parsing undoes printing: the text of a printed tree is parsed into the tree, without
a report and under any options. -/
theorem parse_fullText {root : Element} (h : root.Printed) (options : ParseOptions) :
    parse root.fullText options = .ok ⟨root, []⟩ := by
  obtain ⟨tokens, hscan, hfaces⟩ := h.scan_fullText
  have hbudget : (ParseState.start tokens).tokens.length + 3 < Parser.budget tokens.length :=
    Nat.lt_succ_self _
  rw [← List.append_nil root.leaves] at hfaces
  obtain ⟨events, last, hrun, hstands, hlast⟩ :=
    Parser.sourceUnit_recognizes options h.sound h.isUnit hfaces hbudget
  have htokens : parseTokens tokens options = .ok (events, []) := by
    unfold parseTokens
    rw [hrun, ← hlast.diagnostics]
    rfl
  have hreplay := hstands.replay_eq (Element.isNode_of_isNodeIn h.isUnit)
  exact parse_eq_of_replay hscan htokens hreplay

namespace Element

/-- A leaf with a blank behind it. -/
def leafOf (kind : Kind) (text : String) : Element :=
  .token (.make kind text.toList .empty .blank)

/-- The tree of `interface I { p : T , q ? : U } if ( a ) while ( b ) ; else c = - d ( 1 ) * 2 ;`,
in which the last property has no end and the `else` stands behind the body of a loop. -/
def printedTree : Element :=
  let propertyOf (name type : String) (question ending : List Element) : Element :=
    makeNode .propertySignature ([leafOf .identifier name] ++ question ++
      [makeNode .typeAscription
        [leafOf .colon ":", makeNode .typeReference [leafOf .identifier type]]] ++ ending)
  let nameOf (name : String) : Element := makeNode .nameExpression [leafOf .identifier name]
  let literalOf (value : String) : Element :=
    makeNode .literalExpression [leafOf .numericLiteral value]
  let arguments : List Element := [literalOf "1"]
  let call : Element := makeNode .invocationExpression
    [nameOf "d", makeNode .argumentList [leafOf .openParen "(",
      .separated (measureAll arguments) arguments, leafOf .closeParen ")"]]
  let product : Element := makeNode .binaryExpression
    [makeNode .prefixUnaryExpression [leafOf .minus "-", call], leafOf .asterisk "*",
      literalOf "2"]
  makeNode .sourceUnit
    [makeList
      [makeNode .interfaceDeclaration
        [leafOf .interfaceKw "interface", leafOf .identifier "I", leafOf .openBrace "\x7b",
          makeList [propertyOf "p" "T" [] [leafOf .comma ","],
            propertyOf "q" "U" [leafOf .question "?"] []],
          leafOf .closeBrace "\x7d"],
        makeNode .ifStatement
          [leafOf .ifKw "if", leafOf .openParen "(", nameOf "a", leafOf .closeParen ")",
            makeNode .whileStatement
              [leafOf .whileKw "while", leafOf .openParen "(", nameOf "b", leafOf .closeParen ")",
                makeNode .emptyStatement [leafOf .semicolon ";"]],
            makeNode .elseClause
              [leafOf .elseKw "else",
                makeNode .expressionStatement
                  [makeNode .assignmentExpression [nameOf "c", leafOf .equals "=", product],
                    leafOf .semicolon ";"]]]],
      .token (.make .eof [] .empty .empty)]

theorem made_printedTree : printedTree.Made := by
  unfold printedTree leafOf
  dsimp only
  repeat' first
    | exact List.forall_mem_nil _
    | refine List.forall_mem_cons.mpr ⟨?_, ?_⟩
    | constructor

theorem printed_printedTree : printedTree.Printed where
  isUnit := rfl
  sound := ⟨made_printedTree, by decide, by decide, by decide⟩
  spaced := by decide
  bare := by decide

end Element

theorem parse_printedTree :
    Element.printedTree.Printed ∧
      parse Element.printedTree.fullText ⟨false⟩ = .ok ⟨.printedTree, []⟩ :=
  ⟨Element.printed_printedTree, parse_fullText Element.printed_printedTree ⟨false⟩⟩

end Verbatim
