/-
  Locating an offset in a file.

  Two searches answer where an offset is.  The tree is searched by width, and every offset up
  to the end of the text is in some token, also one inside of a character.  The text is
  searched by characters, and only an offset at which the text can be cut has a line and a
  column.  Nothing is written before both have answered.  So the command shows where an offset
  is exactly if the text can be cut there, a lookup error answers an offset behind the text,
  and an offset inside of a character ends in a fault.  At the last of all offsets it may be
  that the line or the column, counted from one, is no number of 32 bits any more.
-/
import Verbatim.Proofs.AncestorPath
import Verbatim.Proofs.TextParts
import Verbatim.Proofs.WriteBack

set_option autoImplicit false

namespace Verbatim

/-! ## Lines and columns -/

namespace Text

theorem IsBoundary.le_width {t : Text} {offset : Nat} (h : t.IsBoundary offset) :
    offset ≤ t.width := by
  obtain ⟨front, back, rfl, rfl⟩ := isBoundary_iff.mp h
  rw [width_append]
  exact Nat.le_add_right _ _

/-- The line and the column at the end of a text, counted from one, are numbers of 32 bits. -/
def EndFits (t : Text) : Prop :=
  t.count '\n' + 1 < Offset.limit ∧ t.lastLine.width + 1 < Offset.limit

theorem exists_eq_append_lastLine (t : Text) : ∃ front, t = front ++ t.lastLine := by
  refine ⟨(t.reverse.dropWhile (· != '\n')).reverse, ?_⟩
  rw [lastLine, ← List.reverse_append, List.takeWhile_append_dropWhile, List.reverse_reverse]

theorem length_le_width (t : Text) : t.length ≤ t.width := by
  induction t with
  | nil => exact Nat.le_refl _
  | cons c rest ih =>
      have hpos := c.utf8Size_pos
      rw [List.length_cons, width_cons]
      omega

/-- In front of the last offset there is always room for the line and the column. -/
theorem endFits_of_lt {t : Text} (h : t.width + 1 < Offset.limit) : t.EndFits := by
  obtain ⟨front, hfront⟩ := t.exists_eq_append_lastLine
  have hlast : t.lastLine.width ≤ t.width := by
    have hwidth := congrArg width hfront
    rw [width_append] at hwidth
    omega
  have hcount : t.count '\n' ≤ t.width := Nat.le_trans List.count_le_length t.length_le_width
  exact ⟨by omega, by omega⟩

end Text

/-- A lookup that counts the line feeds in front of an offset and the bytes behind the last of
them, and that breaks off where the text cannot be cut. -/
structure LineLookup.Counts (lookup : Command.LineLookup) : Prop where
  boundary : ∀ front back : Text, Text.width (front ++ back) < Offset.limit →
    lookup (front ++ back) front.width = .ok (front.count '\n', front.lastLine.width)
  invalid : ∀ (text : Text) (offset : Nat), text.width < Offset.limit →
    ¬ text.IsBoundary offset → lookup text offset = .error .invalidOffset

/-- The index of the lines of a text is such a lookup. -/
theorem LineIndex.counts : LineLookup.Counts fun text => LineIndex.lineColumn ⟨text⟩ where
  boundary := by
    intro front back _
    rw [lineColumn, Text.lineColumn?, Text.splitAt?_append]
    rfl
  invalid := by
    intro text offset _ hcut
    have hnone : text.splitAt? offset = none := Option.not_isSome_iff_eq_none.mp hcut
    rw [lineColumn, Text.lineColumn?, hnone]
    rfl

/-! ## The descent in a parsed tree -/

namespace ParseRun

variable {source : Text} {options : ParseOptions} (run : ParseRun source options) {offset : Nat}

theorem width_root : run.root.width = source.width := by
  rw [run.made_root.width_eq, run.fullText_root]

/-- Behind the text there is nothing to descend to. -/
theorem descend_of_lt (h : source.width < offset) :
    run.root.descend offset = .error (.positionOutOfRange offset source.width) := by
  rw [← run.width_root] at h ⊢
  exact Element.descend_of_childAt_error rfl (run.made_root.childAt_eq_error rfl (.inl h))

/-- Every offset up to the end of the text is in a token. -/
theorem exists_descend_of_le (h : offset ≤ source.width) :
    ∃ found, run.root.descend offset = .ok found ∧
      run.root.AncestorPath offset found.nodes found.token := by
  have hleaves : run.root.leaves ≠ [] := by simp [run.leaves_root]
  obtain ⟨found, _, _, _, hfound, _⟩ :=
    run.made_root.descendFrom_eq (Nat.le_refl _) (Nat.zero_le offset)
      (by rwa [Nat.zero_add, run.width_root]) hleaves
  exact ⟨found, hfound, run.regular_root.ancestorPath rfl hfound⟩

end ParseRun

/-! ## The command -/

namespace Memory

variable {lookup : Command.LineLookup} {memory : Memory} {settings : Settings} {path : Path}
  {text : Text} {offset : Nat}

theorem run_orFault_of_ok {α : Type} {x : Except Fault α} {value : α} (h : x = .ok value) :
    memory.run (Command.orFault x) = (.ok value, memory) := by
  rw [h]
  rfl

theorem run_orFault_of_error {α : Type} {x : Except Fault α} {fault : Fault}
    (h : x = .error fault) :
    memory.run (Command.orFault x) = (.error (.fault fault), memory) := by
  rw [h]
  rfl

/-- Where the tree has nothing at the offset, the lookup error is the answer. -/
theorem run_locateWith_of_lookup {p : Parse} {error : LookupError}
    (hload : memory.run (Command.load settings path) = (.ok (text, p), memory))
    (hdescend : p.root.descend offset = .error error) :
    memory.run (Command.locateWith lookup settings path offset) =
      (.error (.lookup error), memory) := by
  rw [Command.locateWith, run_bind_of_ok hload]
  simp only [hdescend]
  rfl

/-- Where the text cannot be cut, the command breaks off before it writes. -/
theorem run_locateWith_of_fault {p : Parse} {found : Element.Descent} {fault : Fault}
    (hload : memory.run (Command.load settings path) = (.ok (text, p), memory))
    (hdescend : p.root.descend offset = .ok found) (hplace : lookup text offset = .error fault) :
    memory.run (Command.locateWith lookup settings path offset) =
      (.error (.fault fault), memory) := by
  rw [Command.locateWith, run_bind_of_ok hload]
  simp only [hdescend]
  rw [run_bind_of_error (run_orFault_of_error hplace)]

/-- Where both searches answer, the lines that tell about the offset are written, unless there
is no room for the numbers. -/
theorem run_locateWith_of_ok {p : Parse} {found : Element.Descent} {line column : Nat}
    (hload : memory.run (Command.load settings path) = (.ok (text, p), memory))
    (hdescend : p.root.descend offset = .ok found)
    (hplace : lookup text offset = .ok (line, column)) :
    memory.run (Command.locateWith lookup settings path offset) =
      if line + 1 < Offset.limit ∧ column + 1 < Offset.limit then
        (.ok (), memory.putOut (Command.locationLines path.spelling (Text.decimal (line + 1))
          (Text.decimal (column + 1)) found.nodes found.token).flatten)
      else (.error (.fault .sumTooLarge), memory) := by
  rw [Command.locateWith, run_bind_of_ok hload]
  simp only [hdescend]
  have hnext {n : Nat} (h : n + 1 < Offset.limit) : Offset.add n 1 = .ok (n + 1) := if_pos h
  have hlast {n : Nat} (h : ¬ n + 1 < Offset.limit) : Offset.add n 1 = .error .sumTooLarge :=
    if_neg h
  rw [run_bind_of_ok (run_orFault_of_ok hplace)]
  by_cases hline : line + 1 < Offset.limit
  · rw [run_bind_of_ok (run_orFault_of_ok (hnext hline))]
    by_cases hcolumn : column + 1 < Offset.limit
    · rw [run_bind_of_ok (run_orFault_of_ok (hnext hcolumn)), if_pos ⟨hline, hcolumn⟩]
      rfl
    · rw [run_bind_of_error (run_orFault_of_error (hlast hcolumn)), if_neg fun h => hcolumn h.2]
  · rw [run_bind_of_error (run_orFault_of_error (hlast hline)), if_neg fun h => hline h.1]

/-- What locating an offset in a file with a text comes to. -/
structure Locates (lookup : Command.LineLookup) (memory : Memory) (settings : Settings)
    (path : Path) (text : Text) (offset : Nat) : Prop where
  /-- Where the text can be cut, what is written tells the line and the column of the cut, the
  path of nodes around the offset, and the token that the path leads to. -/
  shown : ∀ front back, text = front ++ back → offset = front.width → front.EndFits →
    ∃ p nodes t, parse text settings.parse = .ok p ∧ p.root.tokenAt offset = .ok t ∧
      p.root.AncestorPath offset nodes t ∧
      memory.run (Command.locateWith lookup settings path offset) =
        (.ok (), memory.putOut (Command.locationLines path.spelling
          (Text.decimal (front.count '\n' + 1)) (Text.decimal (front.lastLine.width + 1))
          nodes t).flatten)
  /-- Without room for the numbers it is a fault, and nothing is written. -/
  tooFar : ∀ front back, text = front ++ back → offset = front.width → ¬ front.EndFits →
    memory.run (Command.locateWith lookup settings path offset) =
      (.error (.fault .sumTooLarge), memory)
  /-- An offset behind the text is an error, and nothing is written. -/
  behind : text.width < offset →
    memory.run (Command.locateWith lookup settings path offset) =
      (.error (.lookup (.positionOutOfRange offset text.width)), memory)
  /-- An offset inside of a character is a fault, and nothing is written. -/
  inside : offset ≤ text.width → ¬ text.IsBoundary offset →
    memory.run (Command.locateWith lookup settings path offset) =
      (.error (.fault .invalidOffset), memory)

theorem locates_of_read (hlookup : LineLookup.Counts lookup) (hread : memory.read path = .ok text)
    (hlimit : text.width < Offset.limit) :
    Locates lookup memory settings path text offset := by
  obtain ⟨run⟩ := exists_parseRun text settings.parse hlimit
  have hload : memory.run (Command.load settings path) = (.ok (text, run.result), memory) :=
    run_load_of_ok hread run.parse_eq
  -- Where the text can be cut, both searches answer.
  have hcut (front back : Text) (hsplit : text = front ++ back) (hoffset : offset = front.width) :
      ∃ found, run.root.descend offset = .ok found ∧
        run.root.AncestorPath offset found.nodes found.token ∧
        lookup text offset = .ok (front.count '\n', front.lastLine.width) := by
    have hboundary := Text.isBoundary_append front back
    have hplace := hlookup.boundary front back (hsplit ▸ hlimit)
    rw [← hsplit, ← hoffset] at hboundary hplace
    obtain ⟨found, hfound, hpath⟩ := run.exists_descend_of_le hboundary.le_width
    exact ⟨found, hfound, hpath, hplace⟩
  refine ⟨?_, ?_, fun h => run_locateWith_of_lookup hload (run.descend_of_lt h), ?_⟩
  · intro front back hsplit hoffset hfits
    obtain ⟨found, hfound, hpath, hplace⟩ := hcut front back hsplit hoffset
    refine ⟨run.result, found.nodes, found.token, run.parse_eq,
      Element.tokenAt_eq_ok_iff.mpr ⟨found, hfound, rfl⟩, hpath, ?_⟩
    exact (run_locateWith_of_ok hload hfound hplace).trans (if_pos hfits)
  · intro front back hsplit hoffset hfits
    obtain ⟨found, hfound, _, hplace⟩ := hcut front back hsplit hoffset
    exact (run_locateWith_of_ok hload hfound hplace).trans (if_neg hfits)
  · intro h hinside
    obtain ⟨found, hfound, _⟩ := run.exists_descend_of_le h
    exact run_locateWith_of_fault hload hfound (hlookup.invalid text offset hlimit hinside)

/-- Locating an offset in a file succeeds exactly if the text of the file can be cut there, and
then tells where the offset is.  Behind the text and inside of a character it fails, in
different ways, and so it does where there is no file; then nothing has changed. -/
theorem locate_succeeds_at_boundaries (hlookup : LineLookup.Counts lookup) (memory : Memory)
    (settings : Settings) (path : Path) (offset : Nat) :
    (memory.isFile path = false →
        memory.run (Command.locateWith lookup settings path offset) =
          (.error (.read path .notFound), memory)) ∧
      ∀ text, memory.read path = .ok text → text.width < Offset.limit →
        Locates lookup memory settings path text offset ∧
          (offset + 1 < Offset.limit →
            ((memory.run (Command.locateWith lookup settings path offset)).1 = .ok () ↔
              text.IsBoundary offset)) := by
  refine ⟨fun hfile => ?_, fun text hread hlimit => ?_⟩
  · rw [Command.locateWith, run_bind_of_error (run_load_of_error (read_eq_notFound hfile))]
  · have hlocates : Locates lookup memory settings path text offset :=
      locates_of_read hlookup hread hlimit
    refine ⟨hlocates, fun hbefore => ⟨fun hok => ?_, fun hboundary => ?_⟩⟩
    · refine Classical.byContradiction fun hcut => ?_
      rcases Nat.lt_or_ge text.width offset with hlt | hle
      · rw [hlocates.behind hlt] at hok
        cases hok
      · rw [hlocates.inside hle hcut] at hok
        cases hok
    · obtain ⟨front, back, hsplit, rfl⟩ := Text.isBoundary_iff.mp hboundary
      obtain ⟨_, _, _, _, _, _, hrun⟩ :=
        hlocates.shown front back hsplit rfl (Text.endFits_of_lt hbefore)
      rw [hrun]

/-- A file with a name of one character, which takes two bytes. -/
def accentedFiles : Memory :=
  ⟨[(⟨"a.ts".toList⟩, "é".toList)], [], [], []⟩

/-- The end of the name is located, an offset behind it is not, and no offset in a file that is
not there. -/
theorem locate_accentedFiles :
    accentedFiles.read ⟨"a.ts".toList⟩ = .ok "é".toList ∧
      Text.width "é".toList < Offset.limit ∧ Text.IsBoundary "é".toList 2 ∧
      (accentedFiles.run (Command.locate .default ⟨"a.ts".toList⟩ 2)).1 = .ok () ∧
      accentedFiles.run (Command.locate .default ⟨"a.ts".toList⟩ 3) =
        (.error (.lookup (.positionOutOfRange 3 2)), accentedFiles) ∧
      accentedFiles.isFile ⟨"b.ts".toList⟩ = false ∧
      accentedFiles.run (Command.locate .default ⟨"b.ts".toList⟩ 0) =
        (.error (.read ⟨"b.ts".toList⟩ .notFound), accentedFiles) := by
  have hread : accentedFiles.read ⟨"a.ts".toList⟩ = .ok "é".toList := rfl
  have hlimit : Text.width "é".toList < Offset.limit := by decide
  have hboundary : Text.IsBoundary "é".toList 2 := by decide
  have hlocated (file : Text) (offset : Nat) :=
    locate_succeeds_at_boundaries LineIndex.counts accentedFiles .default ⟨file⟩ offset
  have hmissing : accentedFiles.isFile ⟨"b.ts".toList⟩ = false := by decide
  exact ⟨hread, hlimit, hboundary,
    ((hlocated "a.ts".toList 2).2 _ hread hlimit).2 (by decide) |>.mpr hboundary,
    ((hlocated "a.ts".toList 3).2 _ hread hlimit).1.behind (by decide), hmissing,
    (hlocated "b.ts".toList 0).1 hmissing⟩

/-- An offset inside of the name is not behind the text, and still it is not located: the
command ends in a fault. -/
theorem locate_faults_inside_character :
    accentedFiles.read ⟨"a.ts".toList⟩ = .ok "é".toList ∧ 1 ≤ Text.width "é".toList ∧
      accentedFiles.run (Command.locate .default ⟨"a.ts".toList⟩ 1) =
        (.error (.fault .invalidOffset), accentedFiles) ∧
      (Failure.fault .invalidOffset).message = some "invalid offset" := by
  have hread : accentedFiles.read ⟨"a.ts".toList⟩ = .ok "é".toList := rfl
  have hlocates : Locates _ accentedFiles .default ⟨"a.ts".toList⟩ "é".toList 1 :=
    locates_of_read LineIndex.counts hread (by decide)
  exact ⟨hread, by decide, hlocates.inside (by decide) (by decide), rfl⟩

end Memory

end Verbatim
