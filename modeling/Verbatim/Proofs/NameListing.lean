/-
  The names that a file is listed with.

  A text goes into a set at its place in the order, and the order of texts is that of their
  bytes; so the listed names stand in byte order, each once.  The hooks of a walk meet the
  leaves, and an identifier contributes its text.  A leaf that the source has is a scanned
  token, so what it contributes is a name at its place in the source.  A leaf that the source
  does not have contributes the empty text: wherever the parser has supplied an identifier, an
  empty line is listed in front of the names.
-/
import Verbatim.Proofs.ByteOrder
import Verbatim.Proofs.Conservation
import Verbatim.Proofs.Representation
import Verbatim.Proofs.Seams
import Verbatim.Proofs.TokenForms
import Verbatim.Proofs.TokenOrder
import Verbatim.Proofs.WriteBack

set_option autoImplicit false

namespace Verbatim

/-! ## Sets of texts -/

namespace Text

theorem mem_insertSorted {t u : Text} {set : List Text} :
    u ∈ insertSorted t set ↔ u = t ∨ u ∈ set := by
  induction set with
  | nil => simp [insertSorted]
  | cons s rest ih =>
      rw [insertSorted]
      split
      · rename_i heq
        simp [heq]
      · split
        · exact List.mem_cons
        · rw [List.mem_cons, ih, List.mem_cons]
          exact or_left_comm

theorem mem_sortedSet {t : Text} {ts : List Text} : t ∈ sortedSet ts ↔ t ∈ ts := by
  have hmem (set : List Text) :
      t ∈ ts.foldl (fun set t => insertSorted t set) set ↔ t ∈ set ∨ t ∈ ts := by
    induction ts generalizing set with
    | nil => simp
    | cons u rest ih =>
        rw [List.foldl_cons, ih, mem_insertSorted, List.mem_cons, or_assoc]
        exact or_left_comm
  rw [sortedSet, hmem]
  simp

/-- Texts in strictly ascending order. -/
def Ascending (ts : List Text) : Prop :=
  ts.Pairwise fun s t => before s t = true

theorem Ascending.insertSorted {set : List Text} (h : Ascending set) (t : Text) :
    Ascending (insertSorted t set) := by
  induction set with
  | nil => exact List.pairwise_singleton _ _
  | cons s rest ih =>
      obtain ⟨hs, hrest⟩ := List.pairwise_cons.mp h
      rw [Text.insertSorted]
      split
      · exact h
      · rename_i hne
        split
        · rename_i hbefore
          exact List.pairwise_cons.mpr ⟨List.forall_mem_cons.mpr
            ⟨hbefore, fun u hu => before_trans hbefore (hs u hu)⟩, h⟩
        · rename_i hbefore
          -- The text is another one, and not before this one; so it comes behind.
          have hafter : before s t = true := by
            cases hst : before s t with
            | true => rfl
            | false => exact absurd (eq_of_not_before (Bool.eq_false_iff.mpr hbefore) hst) hne
          refine List.pairwise_cons.mpr ⟨fun u hu => ?_, ih hrest⟩
          rcases mem_insertSorted.mp hu with rfl | hu
          · exact hafter
          · exact hs u hu

theorem ascending_sortedSet (ts : List Text) : Ascending (sortedSet ts) := by
  have hkeeps (set : List Text) (h : Ascending set) :
      Ascending (ts.foldl (fun set t => insertSorted t set) set) := by
    induction ts generalizing set with
    | nil => exact h
    | cons t rest ih => exact ih _ (h.insertSorted t)
  exact hkeeps [] .nil

end Text

theorem IsName.not_mem_newline {name : Text} (h : IsName name) : '\n' ∉ name := by
  obtain ⟨first, rest, rfl, hfirst, hrest⟩ := h
  have hparts : ∀ c ∈ first :: rest, Text.isNamePart c = true :=
    List.forall_mem_cons.mpr ⟨isNamePart_of_isNameStart hfirst, hrest⟩
  intro hmem
  have hblank := isBlank_of_isNamePart (hparts _ hmem)
  cases hblank

/-! ## The names of a tree -/

namespace Element

/-- The names are the texts of the leaves that are identifiers. -/
theorem mem_names {root : Element} {name : Text} :
    name ∈ root.names ↔ ∃ t ∈ root.leaves, t.kind = .identifier ∧ t.text = name := by
  have htexts : (root.visits.filterMap fun v => v.token?.bind nameOf?) =
      root.leaves.filterMap nameOf? := by
    rw [← visits_tokens, List.filterMap_filterMap]
  rw [names, htexts, Text.mem_sortedSet, List.mem_filterMap]
  refine exists_congr fun t => and_congr_right fun _ => ?_
  rw [nameOf?, Option.ite_none_right_eq_some, Option.some.injEq]

/-- Apart from the empty text, the names are those of the identifiers that the source has. -/
theorem Regular.mem_names_iff {root : Element} (h : root.Regular) {name : Text} :
    name ∈ root.names ∧ name ≠ [] ↔
      ∃ t ∈ root.presentLeaves, t.kind = .identifier ∧ t.text = name := by
  rw [mem_names]
  constructor
  · rintro ⟨⟨t, ht, hkind, rfl⟩, hne⟩
    have hpresent : t.isZeroWidth = false := Bool.eq_false_iff.mpr fun hzero =>
      hne ((h.leaves t ht).token_zeroWidth_iff.mp hzero).1
    exact ⟨t, List.mem_filter.mpr ⟨ht, by simp [hpresent]⟩, hkind, rfl⟩
  · rintro ⟨t, ht, hkind, rfl⟩
    obtain ⟨ht, hpresent⟩ := List.mem_filter.mp ht
    refine ⟨⟨t, ht, hkind, rfl⟩, fun htext => ?_⟩
    have hzero : t.isZeroWidth = true :=
      (h.leaves t ht).token_zeroWidth_iff.mpr ⟨htext, by rw [hkind]; nofun⟩
    rw [hzero] at hpresent
    cases hpresent

/-- The empty text is a name exactly if an identifier is missing. -/
theorem Regular.nil_mem_names_iff {root : Element} (h : root.Regular) :
    [] ∈ root.names ↔ ∃ t ∈ root.leaves, t.kind = .identifier ∧ t.isZeroWidth = true := by
  rw [mem_names]
  refine exists_congr fun t => and_congr_right fun ht => and_congr_right fun hkind => ?_
  rw [(h.leaves t ht).token_zeroWidth_iff, hkind]
  exact (and_iff_left nofun).symm

end Element

/-! ## The command -/

/-- What the names of a tree are, if the tokens of a source have been read into the tree. -/
structure NamesOf (names : List Text) (source : Text) (tokens : List ScannedToken)
    (root : Element) : Prop where
  /-- The names are in the order of their bytes, and so each is there once. -/
  ascending : names.Pairwise fun s t => s.bytes < t.bytes
  /-- A text that is not empty is listed exactly if it is that of an identifier that the source
  has and that was kept. -/
  present : ∀ name, name ∈ names ∧ name ≠ [] ↔
    ∃ t ∈ root.presentLeaves, t.kind = .identifier ∧ t.text = name
  /-- The empty text is listed exactly if an identifier is missing. -/
  missing : [] ∈ names ↔ ∃ t ∈ root.leaves, t.kind = .identifier ∧ t.isZeroWidth = true
  /-- A name that is not empty has the form of a name, takes one line, and stands in the source
  where the scan has found an identifier. -/
  occurs : ∀ name ∈ names, name ≠ [] → IsName name ∧ '\n' ∉ name ∧
    ∃ t ∈ tokens, t.kind = .identifier ∧ t.text = name ∧ t.FitsIn source

theorem ParseRun.namesOf {source : Text} {options : ParseOptions}
    (run : ParseRun source options) :
    NamesOf run.root.names source run.scanned.tokens run.root where
  ascending := (Text.ascending_sortedSet _).imp fun h => (Text.before_iff_bytes_lt _ _).mp h
  present := fun _ => run.regular_root.mem_names_iff
  missing := run.regular_root.nil_mem_names_iff
  occurs := by
    intro name hname hne
    obtain ⟨t, ht, hkind, htext⟩ := run.regular_root.mem_names_iff.mp ⟨hname, hne⟩
    obtain ⟨ht, hpresent⟩ := List.mem_filter.mp ht
    obtain ⟨u, hu, hkindu, htextu⟩ :=
      run.exists_scanned_of_mem_leaves ht (by simpa using hpresent)
    rw [hkind] at hkindu
    rw [htext] at htextu
    subst htextu
    obtain ⟨_, _, _, _, _, hform⟩ := fitsIn_of_scan run.scan_eq u hu
    have hname : IsName u.text := (hform.name hkindu).1
    exact ⟨hname, hname.not_mem_newline, u, hu, hkindu, rfl,
      fitsIn_of_scan run.scan_eq u hu⟩

namespace Memory

variable {memory : Memory} {settings : Settings} {path : Path}

/-- A file that is there is listed with the names of its tree. -/
theorem run_identifiers_of_ok {text : Text} {p : Parse} (hread : memory.read path = .ok text)
    (hparse : parse text settings.parse = .ok p) :
    memory.run (Command.identifiers settings path) =
      (.ok (), memory.putOut (p.root.names.flatMap fun name => name ++ "\n".toList)) := by
  rw [Command.identifiers, run_bind_of_ok (run_load_of_ok hread hparse)]
  rfl

/-- Listing the names of a file prints them, one in a line, in the order of their bytes.  They
are the names of the identifiers that the source has and that were kept, and an empty line in
front if an identifier is missing.  Where there is no file, nothing is printed. -/
theorem identifiers_lists_names (memory : Memory) (settings : Settings) (path : Path) :
    (memory.isFile path = false →
        memory.run (Command.identifiers settings path) =
          (.error (.read path .notFound), memory)) ∧
      ∀ text, memory.read path = .ok text → text.width < Offset.limit →
        ∃ p scanned names, parse text settings.parse = .ok p ∧ scan text = .ok scanned ∧
          memory.run (Command.identifiers settings path) =
            (.ok (), memory.putOut (names.flatMap fun name => name ++ "\n".toList)) ∧
          NamesOf names text scanned.tokens p.root := by
  refine ⟨fun hfile => ?_, fun text hread hlimit => ?_⟩
  · rw [Command.identifiers, run_bind_of_error (run_load_of_error (read_eq_notFound hfile))]
  · obtain ⟨run⟩ := exists_parseRun text settings.parse hlimit
    exact ⟨run.result, run.scanned, run.root.names, run.parse_eq, run.scan_eq,
      run_identifiers_of_ok hread run.parse_eq, run.namesOf⟩

/-- A file with names that occur again, and one with a declaration that lacks its name. -/
def unnamedFiles : Memory :=
  ⟨[(⟨"a.ts".toList⟩, "é(b, ) a b )".toList), (⟨"b.ts".toList⟩, "let = 1;".toList)], [], [], []⟩

/-- The names of the one file are listed, and none of a file that is not there. -/
theorem identifiers_unnamedFiles :
    unnamedFiles.read ⟨"a.ts".toList⟩ = .ok "é(b, ) a b )".toList ∧
      Text.width "é(b, ) a b )".toList < Offset.limit ∧
      (∃ p scanned names, parse "é(b, ) a b )".toList Settings.default.parse = .ok p ∧
        scan "é(b, ) a b )".toList = .ok scanned ∧
        unnamedFiles.run (Command.identifiers .default ⟨"a.ts".toList⟩) =
          (.ok (), unnamedFiles.putOut (names.flatMap fun name => name ++ "\n".toList)) ∧
        NamesOf names "é(b, ) a b )".toList scanned.tokens p.root) ∧
      unnamedFiles.isFile ⟨"c.ts".toList⟩ = false ∧
      unnamedFiles.run (Command.identifiers .default ⟨"c.ts".toList⟩) =
        (.error (.read ⟨"c.ts".toList⟩ .notFound), unnamedFiles) := by
  have hread : unnamedFiles.read ⟨"a.ts".toList⟩ = .ok "é(b, ) a b )".toList := rfl
  have hlimit : Text.width "é(b, ) a b )".toList < Offset.limit := by decide
  have hmissing : unnamedFiles.isFile ⟨"c.ts".toList⟩ = false := by decide
  exact ⟨hread, hlimit,
    (identifiers_lists_names unnamedFiles .default ⟨"a.ts".toList⟩).2 _ hread hlimit, hmissing,
    (identifiers_lists_names unnamedFiles .default ⟨"c.ts".toList⟩).1 hmissing⟩

/-- No identifier is in the text of the other file, and still a line is printed for it. -/
theorem identifiers_prints_empty_line :
    unnamedFiles.read ⟨"b.ts".toList⟩ = .ok "let = 1;".toList ∧
      (scan "let = 1;".toList).toOption.map (fun scanned => scanned.tokens.map ScannedToken.kind) =
        some [.letKw, .equals, .numericLiteral, .semicolon, .eof] ∧
      unnamedFiles.run (Command.identifiers .default ⟨"b.ts".toList⟩) =
        (.ok (), unnamedFiles.putOut "\n".toList) := by
  have hread : unnamedFiles.read ⟨"b.ts".toList⟩ = .ok "let = 1;".toList := rfl
  have hnames : (parse "let = 1;".toList Settings.default.parse).toOption.map
      (fun p => p.root.names) = some [[]] := by
    decide +kernel
  refine ⟨hread, by decide +kernel, ?_⟩
  cases hparse : parse "let = 1;".toList Settings.default.parse with
  | error fault =>
      rw [hparse] at hnames
      cases hnames
  | ok p =>
      rw [hparse] at hnames
      have hempty : p.root.names = [[]] := Option.some.inj hnames
      rw [run_identifiers_of_ok hread hparse, hempty]
      rfl

end Memory

end Verbatim
