/-
  Parsing never fails.

  A parse could fail in three places.  A parser could use up its budget; it does not,
  because every pass of every loop takes a token off the sequence or is the last
  one, and everything nested is read behind a token.  The replay could meet a broken
  link, or output that a builder refuses; it does not, because the output of every
  production stands for elements.  And a range could cut through a character; none
  does, because tokens and their trivia tile the source.
-/
import Verbatim.Proofs.SourceReading

set_option autoImplicit false

namespace Verbatim

namespace Parser

/-! ## Loops -/

theorem statements_loops (options : ParseOptions) (toBrace : Bool) (n : Nat) :
    Loops (statements (statement options (n + 3)) toBrace)
      (fun _ => statementsPass (statement options (n + 3)) toBrace) [] n where
  eq_iterate := statements_eq_iterate _ toBrace
  advances := by
    intro _ acc s _ hlimit
    refine (statementsPass_succeeds acc (statement_succeeds options (by omega))).mono ?_
    exact fun _ _ h => h.1

theorem members_loops (n : Nat) : Loops members (fun _ => membersPass) [] n where
  eq_iterate := members_eq_iterate
  advances := fun _ acc s _ _ => (membersPass_succeeds s acc).mono fun _ _ h => h.1

/-- The items of a separated list make a loop if they can be read. -/
theorem separatedItems_loops {kinds : List Kind} {first : Kind → Bool} {item : Parser Segment}
    {n : Nat} (hitem : ∀ s : ParseState, s.tokens.length < n → ReadsItem kinds first item s) :
    Loops (separatedItems .comma first item) (fun _ => separatedPass .comma first item) [] n where
  eq_iterate := separatedItems_eq_iterate .comma first item
  advances := fun _ acc s _ hlimit =>
    (separatedPass_succeeds acc (hitem s hlimit)).mono fun _ _ h => h.1

theorem skipUntil_loops (stop : Kind → Bool) (message : String) (n : Nat) :
    Loops (skipUntil stop message) (fun _ _ => skipPass stop message) () n where
  eq_iterate := skipUntil_eq_iterate stop message
  advances := fun _ _ s _ _ => (skipPass_succeeds stop message s).mono fun _ _ h => h.2

theorem chain_loops (object : Completed) (n : Nat) :
    Loops (fun budget => chain (expression (n + 1)) budget object)
      (chainPass (expression (n + 1))) object n where
  eq_iterate := fun budget => chain_eq_iterate _ budget object
  advances := by
    intro _ c s hbudget hlimit
    have hinner (t : ParseState) (ht : t.tokens.length < s.tokens.length) :
        ReadsExpression 0 (expression (n + 1)) t :=
      expression_succeeds (by omega)
    exact (chainPass_succeeds c hbudget hinner).mono fun _ _ h => h.2.1

theorem binary_loops (least : Nat) (left : Completed) (n : Nat) :
    Loops (fun budget => binary (unary (expression (n + 1)) (n + 1)) budget least left)
      (binaryPass (unary (expression (n + 1)) (n + 1)) least) left n where
  eq_iterate := fun budget => binary_eq_iterate _ least budget left
  advances := by
    intro _ c s hbudget hlimit
    have hoperand (t : ParseState) (ht : t.tokens.length < s.tokens.length) :
        ReadsExpression Grammar.signed (unary (expression (n + 1)) (n + 1)) t :=
      unary_succeeds (by omega) fun u hu => expression_succeeds (by omega)
    have hoperators (t : ParseState) (ht : t.tokens.length < s.tokens.length) :
        ReadsOperators (unary (expression (n + 1)) (n + 1)) t :=
      binary_succeeds (Nat.le_refl _) fun u hu => hoperand u (by omega)
    exact (binaryPass_succeeds c hbudget hoperand hoperators).mono fun _ _ h => h.2.1

/-- The loops of the parser, with what they repeat: in a state with fewer than `n`
tokens, every pass takes one off or is the last. -/
structure LoopsAdvance (options : ParseOptions) (n : Nat) : Prop where
  /-- The statements of a source text, and those of a block. -/
  statements : ∀ toBrace,
    Loops (statements (statement options (n + 3)) toBrace)
      (fun _ => statementsPass (statement options (n + 3)) toBrace) [] n
  members : Loops members (fun _ => membersPass) [] n
  declarators :
    Loops (separatedItems .comma startsName (variableDeclarator (n + 2)))
      (fun _ => separatedPass .comma startsName (variableDeclarator (n + 2))) [] n
  parameters :
    Loops (separatedItems .comma startsName parameter)
      (fun _ => separatedPass .comma startsName parameter) [] n
  arguments :
    Loops (separatedItems .comma startsExpression (do return (← expression (n + 2)).events))
      (fun _ => separatedPass .comma startsExpression (do return (← expression (n + 2)).events))
      [] n
  skipUntil : ∀ stop message,
    Loops (skipUntil stop message) (fun _ _ => skipPass stop message) () n
  chain : ∀ object,
    Loops (fun budget => chain (expression (n + 1)) budget object)
      (chainPass (expression (n + 1))) object n
  binary : ∀ least left,
    Loops (fun budget => binary (unary (expression (n + 1)) (n + 1)) budget least left)
      (binaryPass (unary (expression (n + 1)) (n + 1)) least) left n

theorem loopsAdvance (options : ParseOptions) (n : Nat) : LoopsAdvance options n where
  statements := fun toBrace => statements_loops options toBrace n
  members := members_loops n
  declarators := separatedItems_loops fun _ hs => variableDeclarator_readsItem (by omega)
  parameters := separatedItems_loops fun s _ => parameter_readsItem s
  arguments := separatedItems_loops fun _ hs => argument_readsItem (expression_succeeds (by omega))
  skipUntil := fun stop message => skipUntil_loops stop message n
  chain := fun object => chain_loops object n
  binary := fun least left => binary_loops least left n

end Parser

theorem ParseRun.sliceOf {source : Text} {options : ParseOptions}
    (run : ParseRun source options) : ∀ t ∈ run.scanned.tokens, t.SliceOf source := by
  have hslices : ∀ t ∈ run.scanned.tokens,
      t.SliceOf ([] ++ run.scanned.tokens.flatMap ScannedToken.fullText) :=
    Tiles.sliceOf (show Tiles (Text.width []) run.scanned.tokens from run.covers.tiles)
  rwa [run.covers.spells] at hslices

/-! ## The whole parse -/

/-- Every text that offsets can count is scanned into slices of it, its tokens are
parsed into output in which everything that is started is finished, and the output
is replayed into a tree.  No loop on the way goes on without taking a token off. -/
theorem parse_total (source : Text) (options : ParseOptions) (h : source.width < Offset.limit) :
    (∀ n, Parser.LoopsAdvance options n) ∧
      ∃ scanned events reported root,
        scan source = .ok scanned ∧ (∀ t ∈ scanned.tokens, t.SliceOf source) ∧
        parseTokens scanned.tokens options = .ok (events, reported) ∧ events.Balanced ∧
        events.replay = .ok root ∧
        parse source options =
          .ok ⟨root, Diagnostic.sort (scanned.diagnostics ++ reported)⟩ := by
  obtain ⟨run⟩ := exists_parseRun source options h
  exact ⟨Parser.loopsAdvance options, run.scanned, run.events, run.last.diagnostics, run.root,
    run.scan_eq, run.sliceOf, run.parseTokens_eq, run.balanced, run.replay_eq, run.parse_eq⟩

theorem parse_brokenSource_total :
    brokenSource.width < Offset.limit ∧
      (∀ n, Parser.LoopsAdvance ⟨true⟩ n) ∧
        ∃ scanned events reported root,
          scan brokenSource = .ok scanned ∧ (∀ t ∈ scanned.tokens, t.SliceOf brokenSource) ∧
          parseTokens scanned.tokens ⟨true⟩ = .ok (events, reported) ∧ events.Balanced ∧
          events.replay = .ok root ∧
          parse brokenSource ⟨true⟩ =
            .ok ⟨root, Diagnostic.sort (scanned.diagnostics ++ reported)⟩ :=
  ⟨width_brokenSource, parse_total brokenSource ⟨true⟩ width_brokenSource⟩

end Verbatim
