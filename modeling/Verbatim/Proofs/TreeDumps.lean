/-
  The outline of a tree and the dump of a parse agree.

  The two come to their ranges in different ways.  The outline moves a position along behind
  the tokens that it has passed; the dump starts each element where the widths that are kept
  put it.  Both list the placements of the tree, so the ranges of both are those at which the
  elements stand in the source.  The outline is the one that can fail: its indentation is an
  offset, and the deepest placement decides whether all of them fit.
-/
import Mathlib.Data.List.Forall2
import Verbatim.Parse.Dump
import Verbatim.Proofs.Emission

set_option autoImplicit false

namespace Verbatim

/-! ## Texts on one line -/

namespace Text

/-- No character of the text ends a line. -/
def IsOneLine (t : Text) : Prop :=
  ∀ c ∈ t, c ≠ '\n' ∧ c ≠ '\r'

instance (t : Text) : Decidable t.IsOneLine :=
  List.decidableBAll _ t

theorem IsOneLine.append {s t : Text} (hs : s.IsOneLine) (ht : t.IsOneLine) :
    (s ++ t).IsOneLine :=
  List.forall_mem_append.mpr ⟨hs, ht⟩

theorem IsOneLine.flatMap {f : Char → Text} (h : ∀ c, (f c).IsOneLine) (t : Text) :
    IsOneLine (t.flatMap f) := by
  intro c hc
  obtain ⟨origin, _, hc⟩ := List.mem_flatMap.mp hc
  exact h origin c hc

theorem digitChar_ne (digit : Nat) :
    digit.digitChar ≠ '\n' ∧ digit.digitChar ≠ '\r' := by
  grind [Nat.digitChar]

theorem isOneLine_toDigits {base : Nat} (hbase : 1 < base) (n : Nat) :
    IsOneLine (Nat.toDigits base n) := by
  induction n using Nat.strongRecOn with
  | _ n ih =>
      have hlast (digit : Nat) : IsOneLine [digit.digitChar] :=
        List.forall_mem_singleton.mpr (digitChar_ne digit)
      rw [Nat.toDigits_eq_if hbase]
      split
      · exact hlast n
      · exact (ih (n / base) (Nat.div_lt_self (by omega) hbase)).append (hlast _)

theorem isOneLine_range (start stop : Nat) : (range start stop).IsOneLine :=
  ((isOneLine_toDigits (by decide) start).append (by decide)).append
    (isOneLine_toDigits (by decide) stop)

theorem isOneLine_quotedChar (c : Char) : (quotedChar c).IsOneLine := by
  unfold quotedChar
  split
  case h_7 _ hfeed hreturn _ _ =>
    split
    · exact (IsOneLine.append (by decide) (isOneLine_toDigits (by decide) _)).append (by decide)
    · exact List.forall_mem_singleton.mpr ⟨hfeed, hreturn⟩
  all_goals decide

/-- The escapes of a quoted text keep it on one line. -/
theorem isOneLine_quoted (t : Text) : (quoted t).IsOneLine :=
  (IsOneLine.append (by decide) (IsOneLine.flatMap isOneLine_quotedChar t)).append (by decide)

end Text

theorem Kind.isOneLine_label (k : Kind) : k.label.IsOneLine := by
  cases k <;> decide +kernel

/-! ## Indentation -/

namespace FormatOptions

variable (options : FormatOptions)

/-- Columns that a text of blanks and tabs covers. -/
def columns (t : Text) : Nat :=
  (t.map fun c => if c = '\t' then options.spacesPerTab else 1).sum

theorem columns_append (s t : Text) :
    options.columns (s ++ t) = options.columns s + options.columns t := by
  rw [columns, List.map_append, List.sum_append]
  rfl

theorem columns_blanks (n : Nat) : options.columns (List.replicate n ' ') = n := by
  rw [columns, List.map_replicate, List.sum_replicate_nat]
  exact Nat.mul_one n

theorem columns_tabs (n : Nat) :
    options.columns (List.replicate n '\t') = n * options.spacesPerTab := by
  rw [columns, List.map_replicate, List.sum_replicate_nat]
  rfl

/-- A text of blanks, and of tabs where these are used, covers a number of columns. -/
structure Indents (t : Text) (columns : Nat) : Prop where
  blank : ∀ c ∈ t, c = ' ' ∨ c = '\t' ∧ options.useTabs = true
  columns_eq : options.columns t = columns

theorem indents_indentation (columns : Nat) :
    options.Indents (options.indentation columns) columns := by
  unfold indentation
  split
  · rename_i htabs
    have huse : options.useTabs = true := (Bool.and_eq_true_iff.mp htabs).1
    constructor
    · intro c hc
      rcases List.mem_append.mp hc with hc | hc
      · exact .inr ⟨List.eq_of_mem_replicate hc, huse⟩
      · exact .inl (List.eq_of_mem_replicate hc)
    · rw [columns_append, columns_tabs, columns_blanks, Nat.div_add_mod']
  · exact ⟨fun c hc => .inl (List.eq_of_mem_replicate hc), options.columns_blanks columns⟩

variable {options}

theorem Indents.isOneLine {t : Text} {columns : Nat} (h : options.Indents t columns) :
    t.IsOneLine := by
  intro c hc
  rcases h.blank c hc with rfl | ⟨rfl, _⟩ <;> decide

end FormatOptions

/-! ## Lines of the outline -/

namespace Placement

/-- Where the text of the element ends. -/
def stop (p : Placement) : Nat :=
  p.start + p.item.fullText.width

/-- What a line shows of the source: the text of a token, without its trivia. -/
def excerpt (p : Placement) : Text :=
  match p.item with
  | .token t => " ".toList ++ Text.quoted t.text
  | _ => []

variable (options : FormatOptions) (p : Placement)

/-- A line that shows an element: it is indented to the level of the element, and gives its
kind and its range. -/
structure IsShownBy (line : Text) : Prop where
  oneLine : line.IsOneLine
  layout : ∃ blank, options.Indents blank (p.depth * options.indentSpaces) ∧
    line = blank ++ p.item.kind.label ++ "@".toList ++ Text.range p.start p.stop ++ p.excerpt

variable {p}

theorem isOneLine_excerpt : p.excerpt.IsOneLine := by
  unfold excerpt
  split
  · exact Text.IsOneLine.append (by decide) (Text.isOneLine_quoted _)
  · exact List.forall_mem_nil _

/-- The line of a regular element gives the range that the element has in the source.  A token
that shows no text is without text. -/
theorem line_eq (h : p.item.Regular) :
    p.line options = options.indentation (p.depth * options.indentSpaces) ++
      p.item.kind.label ++ "@".toList ++ Text.range p.start p.stop ++ p.excerpt := by
  rw [line, stop, h.made.width_eq]
  obtain ⟨depth, item, start⟩ := p
  cases item with
  | node _ _ _ | list _ _ | separated _ _ => rfl
  | token t =>
      have htext : (if t.isZeroWidth then [] else t.text) = t.text := by
        split
        · rename_i hzero
          exact ((Element.Regular.token_zeroWidth_iff h).mp hzero).1.symm
        · rfl
      simp only [Element.outlineText, htext, excerpt]

theorem isShownBy_line (h : p.item.Regular) : p.IsShownBy options (p.line options) := by
  have hindents := options.indents_indentation (p.depth * options.indentSpaces)
  refine ⟨?_, _, hindents, line_eq options h⟩
  rw [line_eq options h]
  exact (((hindents.isOneLine.append p.item.kind.isOneLine_label).append (by decide)).append
    (Text.isOneLine_range _ _)).append isOneLine_excerpt

/-- The indentation of a placement that is too deep for the options is no offset. -/
theorem outlineLine_eq_error (h : Offset.limit ≤ p.depth * options.indentSpaces) :
    p.item.outlineLine options p.depth p.start = .error .productTooLarge := by
  have hcolumns : Offset.mul p.depth options.indentSpaces = .error .productTooLarge :=
    if_neg (Nat.not_lt.mpr h)
  rw [Element.outlineLine, hcolumns]
  rfl

end Placement

/-! ## The outline in a sink without a limit -/

namespace TextWriter

variable {σ ε : Type} {w : TextWriter σ ε} {options : FormatOptions}

/-- A walk ends at a placement that is too deep, whatever the writer is. -/
theorem run_placeLine_error {p : Placement}
    (h : Offset.limit ≤ p.depth * options.indentSpaces) (state : σ) :
    (w.placeLine options none p).run.run state = (.error .productTooLarge, state) := by
  have hline : (ofExcept (p.item.outlineLine options p.depth p.start) :
      Writing σ Fault Text).run.run state = (.error .productTooLarge, state) := by
    rw [p.outlineLine_eq_error options h]
    rfl
  have hwalk : (w.walkLine options p.item ⟨p.start, p.depth, none⟩).run.run state =
      (.error .productTooLarge, state) := by
    rw [walkLine_none]
    exact Writing.run_bind_of_error hline
  exact Writing.run_bind_of_error hwalk

end TextWriter

namespace Sink

variable {options : FormatOptions}

/-- Where one of the placements is too deep, the steps end in a fault: those in front of it
go through. -/
theorem exists_run_placeLines_error (newLine : Text) {ps : List Placement}
    (hstop : ∀ p ∈ ps, p.start + p.item.width < Offset.limit) {deep : Placement}
    (hdeep : deep ∈ ps) (h : Offset.limit ≤ deep.depth * options.indentSpaces)
    (parts : List Text) :
    ∃ more, ((writer newLine).placeLines options none ps).run.run (holding parts) =
      (.error .productTooLarge, holding more) := by
  induction ps generalizing parts with
  | nil => cases hdeep
  | cons p rest ih =>
      obtain ⟨hp, hrest⟩ := List.forall_mem_cons.mp hstop
      rw [TextWriter.placeLines_cons]
      -- A placement that fits is not the deep one, and its line goes through.
      by_cases hcolumns : p.depth * options.indentSpaces < Offset.limit
      · have hbehind : deep ∈ rest := by
          rcases List.mem_cons.mp hdeep with rfl | hmem
          · omega
          · exact hmem
        have hwritten : ((writer newLine).writeLine (p.line options)).run.run (holding parts) =
            (.ok (), holding (newLine :: p.line options :: parts)) := rfl
        rw [Writing.run_bind_of_ok (TextWriter.run_placeLine ⟨hcolumns, hp⟩ hwritten)]
        exact ih hrest hbehind _
      · have hfault := TextWriter.run_placeLine_error (w := writer newLine)
          (Nat.not_lt.mp hcolumns) (holding parts)
        exact ⟨parts, Writing.run_bind_of_error hfault⟩

end Sink

namespace Element

/-- What comes of the outline of a tree in a place without a limit, and what it leaves there. -/
def outlineRun (root : Element) (options : FormatOptions) :
    Except (EmitError SinkError) Unit × Sink :=
  ((Sink.writer options.newLine).emitOutline options root).run.run .unlimited

/-- Some element of a tree is on the deepest level. -/
theorem exists_deepest (e : Element) (depth start : Nat) :
    ∃ deepest ∈ e.placements depth start,
      ∀ p ∈ e.placements depth start, p.depth ≤ deepest.depth := by
  have hne : (e.placements depth start).map Placement.depth ≠ [] := by
    cases e <;> simp [placements]
  obtain ⟨most, hmost⟩ := Option.isSome_iff_exists.mp (List.isSome_max?_of_ne_nil hne)
  obtain ⟨hmem, hle⟩ := List.max?_eq_some_iff.mp hmost
  obtain ⟨deepest, hdeepest, rfl⟩ := List.mem_map.mp hmem
  exact ⟨deepest, hdeepest, fun p hp => hle _ (List.mem_map_of_mem hp)⟩

variable {root : Element} {options : FormatOptions}

/-- Where all indentations are offsets, the outline is written line by line. -/
theorem outlineRun_of_fits (h : root.Regular) (hlimit : root.width < Offset.limit)
    (hcolumns : ∀ p ∈ root.placements 0 0, p.depth * options.indentSpaces < Offset.limit) :
    (root.outlineRun options).1 = .ok () ∧
      (root.outlineRun options).2.text =
        ((root.placements 0 0).map (Placement.line options)).flatMap (· ++ options.newLine) := by
  have htext : root.fullText.width < Offset.limit := by rwa [← h.made.width_eq]
  obtain ⟨more, hrun, hmore⟩ := Sink.exists_run_callAll options.newLine
    ((root.placements 0 0).map (fun p => .writeLine (p.line options)) ++ [.close]) []
  have houtline : root.outlineRun options = (.ok (), .holding more) := by
    rw [outlineRun, TextWriter.emitOutline_eq htext (h.fits hlimit hcolumns)]
    exact Writing.run_adapt hrun EmitError.writer
  rw [houtline]
  refine ⟨rfl, hmore.trans ?_⟩
  rw [Sink.text_holding, List.flatMap_append, List.flatMap_map, List.flatMap_map]
  simp [WriterCall.output]

/-- Where an element is too deep for the options, the outline ends in a fault. -/
theorem outlineRun_of_deep (h : root.Regular) (hlimit : root.width < Offset.limit)
    {deep : Placement} (hdeep : deep ∈ root.placements 0 0)
    (hcolumns : Offset.limit ≤ deep.depth * options.indentSpaces) :
    (root.outlineRun options).1 = .error (.fault .productTooLarge) := by
  have htext : 0 + root.fullText.width < Offset.limit := by
    rwa [Nat.zero_add, ← h.made.width_eq]
  have hstop : ∀ p ∈ root.placements 0 0, p.start + p.item.width < Offset.limit := fun p hp =>
    Nat.lt_of_le_of_lt (h.stop_le 0 0 p hp) (by rwa [Nat.zero_add])
  obtain ⟨more, hsteps⟩ := Sink.exists_run_placeLines_error options.newLine hstop hdeep
    hcolumns []
  have hwalk : ((Sink.writer options.newLine).walkOutline options root ⟨0, 0, none⟩).run.run
      .unlimited = (.error .productTooLarge, .holding more) := by
    rw [TextWriter.walksAs root ⟨0, 0, none⟩ htext]
    exact Writing.run_bind_of_error hsteps
  rw [outlineRun, TextWriter.emitOutline,
    Writing.run_bind_of_error (Writing.run_adapt hwalk EmitError.fault)]

end Element

/-! ## The dump of a parse -/

namespace Placement

variable (p : Placement)

/-- The range that a dump gives.  That of a token goes without its trivia. -/
def dumpRange : Nat × Nat :=
  match p.item with
  | .token t => (p.start + t.leading.width, p.stop - t.trailing.width)
  | _ => (p.start, p.stop)

/-- What a dump shows of the source: the text of a token, or that it is missing. -/
def dumpExcerpt : Text :=
  match p.item with
  | .token t => " ".toList ++ if t.isZeroWidth then "missing".toList else Text.quoted t.text
  | _ => []

/-- The line of an element in a dump. -/
def dumpHeading : Text :=
  dumpLine p.depth (dumpHead p.item.kind p.dumpRange.1 p.dumpRange.2 ++ p.dumpExcerpt)

/-- The lines of the trivia of a token, which stand below its own line. -/
def triviaLines : List Text :=
  match p.item with
  | .token t =>
      t.leading.toList.map (Trivia.dumpLine p.depth "<".toList) ++
        t.trailing.toList.map (Trivia.dumpLine p.depth ">".toList)
  | _ => []

/-- All lines that a dump has for an element itself. -/
def dumpLines : List Text :=
  p.dumpHeading :: p.triviaLines

end Placement

namespace Element

theorem dumpLinesAll_eq {es : List Element} (hmade : ∀ e ∈ es, e.Made)
    (h : ∀ e ∈ es, ∀ start depth,
      e.dumpLines start depth = (e.placements depth start).flatMap Placement.dumpLines)
    (start depth : Nat) :
    dumpLinesAll es start depth = (placementsAll es depth start).flatMap Placement.dumpLines := by
  induction es generalizing start with
  | nil => rfl
  | cons e rest ih =>
      obtain ⟨he, hrest⟩ := List.forall_mem_cons.mp h
      obtain ⟨hmadeHead, hmadeRest⟩ := List.forall_mem_cons.mp hmade
      rw [dumpLinesAll, placementsAll, List.flatMap_append, he, ih hmadeRest hrest,
        hmadeHead.width_eq]

/-- The widths that elements keep lead to the places at which they stand. -/
theorem Made.dumpLines_eq {e : Element} (h : e.Made) (start depth : Nat) :
    e.dumpLines start depth = (e.placements depth start).flatMap Placement.dumpLines := by
  induction e using Element.induction generalizing start depth with
  | token t =>
      have hstop : start + t.fullText.width - t.trailing.width =
          start + t.leading.width + t.width := by
        rw [Token.width_fullText, Token.fullWidth]
        omega
      simp only [dumpLines, Token.dumpLines, placements, List.flatMap_singleton,
        Placement.dumpLines, Placement.dumpHeading, Placement.triviaLines, Placement.dumpRange,
        Placement.dumpExcerpt, Placement.stop, fullText, hstop, kind, List.append_assoc]
  | node kind measure children ih | list measure children ih | separated measure children ih =>
      have hwidth : measure.width = (fullTextAll children).width := h.width_eq
      have hbelow : dumpLinesAll children start (depth + 1) =
          (placementsAll children (depth + 1) start).flatMap Placement.dumpLines :=
        dumpLinesAll_eq h.children (fun c hc => ih c hc (h.children c hc)) start (depth + 1)
      simp only [dumpLines, placements, List.flatMap_cons, Placement.dumpLines,
        Placement.dumpHeading, Placement.triviaLines, Placement.dumpRange, Placement.dumpExcerpt,
        Placement.stop, fullText, Element.kind, hwidth, hbelow, List.append_nil,
        List.cons_append, List.nil_append]

end Element

/-! ## Both dumps -/

/-- The dumps of a tree list its placements: each element once, in preorder, with its level
and with the range at which it stands in the source. -/
structure Element.DumpsAgree (root : Element) (options : FormatOptions) : Prop where
  placed : ∀ p ∈ root.placements 0 0,
    root.fullText.slice? p.start p.stop = some p.item.fullText
  finishes : ∃ deepest ∈ root.placements 0 0,
    (∀ p ∈ root.placements 0 0, p.depth ≤ deepest.depth) ∧
      ((root.outlineRun options).1 = .ok () ↔
        deepest.depth * options.indentSpaces < Offset.limit) ∧
      ((root.outlineRun options).1 = .error (.fault .productTooLarge) ↔
        Offset.limit ≤ deepest.depth * options.indentSpaces)
  outline : (root.outlineRun options).1 = .ok () →
    ∃ lines, List.Forall₂ (Placement.IsShownBy options) (root.placements 0 0) lines ∧
      (root.outlineRun options).2.text = lines.flatMap (· ++ options.newLine)
  dump : ∀ p : Parse, p.root = root →
    p.dump = ((root.placements 0 0).flatMap Placement.dumpLines).flatten ++
      (p.diagnostics.map Diagnostic.dumpLine).flatten

/-- The outline of a tree is finished exactly if the indentation of its deepest element is an
offset, and has a line for each element then.  The dump of a parse lists the same elements. -/
theorem Element.dumps_agree {root : Element} (h : root.Constructed)
    (hlimit : root.width < Offset.limit) (options : FormatOptions) : root.DumpsAgree options := by
  have hregular := h.regular
  obtain ⟨deepest, hdeepest, hmost⟩ := root.exists_deepest 0 0
  have hfits (hcolumns : deepest.depth * options.indentSpaces < Offset.limit) :=
    outlineRun_of_fits hregular hlimit fun p hp =>
      Nat.lt_of_le_of_lt (Nat.mul_le_mul_right _ (hmost p hp)) hcolumns
  have hdeep (hcolumns : Offset.limit ≤ deepest.depth * options.indentSpaces) :=
    outlineRun_of_deep hregular hlimit hdeepest hcolumns
  have hfinishes : (root.outlineRun options).1 = .ok () ↔
      deepest.depth * options.indentSpaces < Offset.limit := by
    refine ⟨fun hok => Nat.lt_of_not_le fun hcolumns => ?_, fun hcolumns => (hfits hcolumns).1⟩
    rw [hdeep hcolumns] at hok
    cases hok
  have hfault : (root.outlineRun options).1 = .error (.fault .productTooLarge) ↔
      Offset.limit ≤ deepest.depth * options.indentSpaces := by
    refine ⟨fun herror => Nat.le_of_not_lt fun hcolumns => ?_, hdeep⟩
    rw [(hfits hcolumns).1] at herror
    cases herror
  refine ⟨fun p hp => ?_, ⟨deepest, hdeepest, hmost, hfinishes, hfault⟩, fun hok => ?_,
    fun p hp => ?_⟩
  · exact (root.hasAt_of_mem_placements 0 0 p hp).slice?_eq
  · refine ⟨(root.placements 0 0).map (Placement.line options), ?_,
      (hfits (hfinishes.mp hok)).2⟩
    refine List.forall₂_map_right_iff.mpr (List.forall₂_same.mpr fun p hp => ?_)
    exact p.isShownBy_line options (hregular.of_mem_placements 0 0 p hp)
  · rw [Parse.dump, List.flatten_append, hp, hregular.made.dumpLines_eq]

/-- Eight elements down to the third level.  The outline is finished where a tab covers a level
and a half, and not where a level is half of the limit wide. -/
theorem Element.dumps_agree_unevenBlock :
    unevenBlock.Constructed ∧ unevenBlock.width < Offset.limit ∧
      (unevenBlock.placements 0 0).map (fun p => (p.depth, p.start, p.stop)) =
        [(0, 0, 7), (1, 0, 0), (1, 0, 0), (1, 0, 5), (2, 0, 5), (3, 0, 5), (2, 5, 5), (1, 5, 7)] ∧
      (unevenBlock.outlineRun ⟨true, 3, 2, "\n".toList⟩).1 = .ok () ∧
      (unevenBlock.outlineRun ⟨true, 2 ^ 31, 2 ^ 31, "\n".toList⟩).1 =
        .error (.fault .productTooLarge) ∧
      unevenBlock.DumpsAgree ⟨true, 3, 2, "\n".toList⟩ ∧
      unevenBlock.DumpsAgree ⟨true, 2 ^ 31, 2 ^ 31, "\n".toList⟩ := by
  have hlimit : unevenBlock.width < Offset.limit := by decide
  have hcolumns : ∀ p ∈ unevenBlock.placements 0 0, p.depth * 2 < Offset.limit := by decide
  have hdone : (unevenBlock.outlineRun ⟨true, 3, 2, "\n".toList⟩).1 = .ok () :=
    (outlineRun_of_fits constructed_unevenBlock.regular hlimit hcolumns).1
  have hagree := dumps_agree constructed_unevenBlock hlimit
  exact ⟨constructed_unevenBlock, hlimit, by decide, hdone, rfl, hagree _, hagree _⟩

end Verbatim
