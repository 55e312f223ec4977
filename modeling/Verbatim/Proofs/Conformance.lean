/-
  Trees have the shape that the grammar gives them, also trees of malformed texts.

  Every node that a production makes fills the parts of its kind, because a token
  that the source does not have is supplied and a token that has no place never
  comes into the tree.  What is left to see is the root, and that the end of the
  file is its last leaf and no other one.
-/
import Verbatim.Proofs.SourceReading

set_option autoImplicit false

namespace Verbatim

namespace ParseRun

variable {source : Text} {options : ParseOptions} (run : ParseRun source options)

theorem kind_nextLeaf_last : run.last.nextLeaf.kind = .eof :=
  run.reads.peekKind

/-- The root is a list of statements and the end of the file. -/
theorem root_conforms : run.root.conforms = true := by
  have hlist : Symbol.admits (.list Grammar.statements) (.makeList run.statements) = true :=
    List.all_eq_true.mpr run.reads.statements
  have heof : Symbol.admits (.token [.eof]) (.token run.last.nextLeaf) = true := by
    simp [Symbol.admits, Element.isTokenIn, run.kind_nextLeaf_last]
  exact Part.accepts_append (Part.accepts_one hlist) (Part.accepts_one heof)

theorem nodes_conform : ∀ n ∈ run.root.nodes, n.conforms = true := by
  rw [run.nodes_root]
  exact List.forall_mem_cons.mpr ⟨run.root_conforms, run.reads.reading.conforms⟩

end ParseRun

/-- Every text that offsets can count is parsed into a tree of which all nodes conform
to the productions of their kinds.  The root is that of a source text, and the end of
the file is the last leaf of the tree and no other one. -/
theorem parse_conforms (source : Text) (options : ParseOptions)
    (h : source.width < Offset.limit) :
    ∃ p, parse source options = .ok p ∧ p.root.kind = .sourceUnit ∧
      (∀ n ∈ p.root.nodes, n.conforms = true) ∧
      ∃ front eof, p.root.leaves = front ++ [eof] ∧ eof.kind = .eof ∧
        ∀ t ∈ front, t.kind ≠ .eof := by
  obtain ⟨run⟩ := exists_parseRun source options h
  refine ⟨run.result, run.parse_eq, rfl, run.nodes_conform, ?_⟩
  exact ⟨_, _, run.leaves_root, run.kind_nextLeaf_last, run.reads.reading.steps.leaf_kind_ne⟩

theorem parse_brokenSource_conforms :
    brokenSource.width < Offset.limit ∧
      ∃ p, parse brokenSource ⟨true⟩ = .ok p ∧ p.root.kind = .sourceUnit ∧
        (∀ n ∈ p.root.nodes, n.conforms = true) ∧
        ∃ front eof, p.root.leaves = front ++ [eof] ∧ eof.kind = .eof ∧
          ∀ t ∈ front, t.kind ≠ .eof :=
  ⟨width_brokenSource, parse_conforms brokenSource ⟨true⟩ width_brokenSource⟩

end Verbatim
