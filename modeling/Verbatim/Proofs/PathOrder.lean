/-
  The order of paths, and files that are kept in it.

  Paths are compared part by part and names character by character, so both orders are
  lexicographic: what orders the entries orders the sequences.  A write looks for the place of
  a path from the front, and finds a place where the order is kept; a removal leaves gaps
  only.  Therefore the files of every memory stand in path order, each path once.
-/
import Verbatim.Files.Memory

set_option autoImplicit false

namespace Verbatim

/-! ## Texts -/

namespace Text

theorem before_iff_lex (s t : Text) :
    before s t = true ↔ List.Lex (fun c d => c.toNat < d.toNat) s t := by
  fun_induction before s t with
  | case1 s => exact iff_of_false nofun nofun
  | case2 d t => exact iff_of_true rfl .nil
  | case3 c s t ih =>
      rw [ih]
      refine ⟨.cons, fun h => ?_⟩
      cases h with
      | rel h => exact absurd h (Nat.lt_irrefl _)
      | cons h => exact h
  | case4 c s d t hne =>
      rw [decide_eq_true_iff]
      refine ⟨fun h => .rel h, fun h => ?_⟩
      cases h with
      | rel h => exact h
      | cons h => exact absurd rfl hne

theorem before_irrefl (s : Text) : before s s = false := by
  rw [← Bool.not_eq_true, before_iff_lex]
  exact List.lex_irrefl (fun c => Nat.lt_irrefl c.toNat) s

theorem before_trans {s t u : Text} (h : before s t = true) (h' : before t u = true) :
    before s u = true := by
  rw [before_iff_lex] at h h' ⊢
  exact List.lex_trans Nat.lt_trans h h'

/-- Of two texts that differ, one comes before the other. -/
theorem eq_of_not_before {s t : Text} (h : before s t = false) (h' : before t s = false) :
    s = t := by
  rw [← Bool.not_eq_true, before_iff_lex] at h h'
  refine List.lex_trichotomous (fun c d hcd hdc => ?_) h' h
  exact Char.toNat_inj.mp (Nat.le_antisymm (Nat.le_of_not_lt hdc) (Nat.le_of_not_lt hcd))

end Text

/-! ## Parts of paths -/

namespace PathPart

theorem before_irrefl (p : PathPart) : p.before p = false := by
  cases p with
  | name s => exact Text.before_irrefl s
  | root | here | parent => rfl

theorem before_trans {p q r : PathPart} (h : p.before q = true) (h' : q.before r = true) :
    p.before r = true := by
  cases p <;> cases q <;> cases r <;> first
    | rfl
    | exact Text.before_trans h h'
    | exact absurd h Bool.false_ne_true
    | exact absurd h' Bool.false_ne_true

theorem eq_of_not_before {p q : PathPart} (h : p.before q = false) (h' : q.before p = false) :
    p = q := by
  cases p <;> cases q <;> first
    | rfl
    | exact congrArg name (Text.eq_of_not_before h h')
    | exact absurd h.symm Bool.false_ne_true
    | exact absurd h'.symm Bool.false_ne_true

end PathPart

/-! ## Paths -/

namespace Path

theorem partsBefore_iff_lex (ps qs : List PathPart) :
    partsBefore ps qs = true ↔ List.Lex (fun p q => p.before q = true) ps qs := by
  fun_induction partsBefore ps qs with
  | case1 ps => exact iff_of_false nofun nofun
  | case2 q qs => exact iff_of_true rfl .nil
  | case3 p ps qs ih =>
      rw [ih]
      refine ⟨.cons, fun h => ?_⟩
      cases h with
      | rel h => rw [PathPart.before_irrefl] at h; cases h
      | cons h => exact h
  | case4 p ps q qs hne =>
      refine ⟨fun h => .rel h, fun h => ?_⟩
      cases h with
      | rel h => exact h
      | cons h => exact absurd rfl hne

theorem before_trans {p q r : Path} (h : p.before q = true) (h' : q.before r = true) :
    p.before r = true := by
  rw [before, partsBefore_iff_lex] at h h' ⊢
  exact List.lex_trans PathPart.before_trans h h'

/-- Of two paths, one comes before the other unless they have the same parts. -/
theorem parts_eq_of_not_before {p q : Path} (h : p.before q = false) (h' : q.before p = false) :
    p.parts = q.parts := by
  rw [before, ← Bool.not_eq_true, partsBefore_iff_lex] at h h'
  refine List.lex_trichotomous (fun a b hab hba => ?_) h' h
  exact PathPart.eq_of_not_before (Bool.eq_false_iff.mpr hab) (Bool.eq_false_iff.mpr hba)

/-- Paths in strictly ascending order. -/
def Ascending (paths : List Path) : Prop :=
  paths.Pairwise fun p q => p.before q = true

end Path

/-! ## Files -/

namespace Memory

/-- The memories that there can be: files are written and removed, and output is added. -/
inductive Constructed : Memory → Prop where
  | new (arguments : List Text) : Constructed ⟨[], arguments, [], []⟩
  | write {memory : Memory} : Constructed memory → ∀ path text,
      Constructed (memory.write path text)
  | delete {memory after : Memory} {path : Path} : Constructed memory →
      memory.delete path = .ok after → Constructed after
  | putOut {memory : Memory} : Constructed memory → ∀ text, Constructed (memory.putOut text)
  | putErr {memory : Memory} : Constructed memory → ∀ text, Constructed (memory.putErr text)

/-- What holds of a path and of those of all files holds of those behind a write. -/
theorem forall_insert {P : Path → Prop} {path : Path} {files : List (Path × Text)}
    (hpath : P path) (hfiles : ∀ f ∈ files, P f.1) (text : Text) :
    ∀ f ∈ insert path text files, P f.1 := by
  induction files with
  | nil => exact List.forall_mem_singleton.mpr hpath
  | cons f rest ih =>
      obtain ⟨hf, hrest⟩ := List.forall_mem_cons.mp hfiles
      rw [insert]
      split
      · exact List.forall_mem_cons.mpr ⟨hf, hrest⟩
      · split
        · exact List.forall_mem_cons.mpr ⟨hpath, hfiles⟩
        · exact List.forall_mem_cons.mpr ⟨hf, ih hrest⟩

/-- A write keeps files in path order. -/
theorem ascending_insert {files : List (Path × Text)}
    (h : Path.Ascending (files.map Prod.fst)) (path : Path) (text : Text) :
    Path.Ascending ((insert path text files).map Prod.fst) := by
  rw [Path.Ascending, List.pairwise_map] at h ⊢
  induction files with
  | nil => exact List.pairwise_singleton _ _
  | cons f rest ih =>
      obtain ⟨hf, hrest⟩ := List.pairwise_cons.mp h
      rw [insert]
      split
      · exact List.pairwise_cons.mpr ⟨hf, hrest⟩
      · rename_i hne
        split
        · rename_i hbefore
          refine List.pairwise_cons.mpr ⟨?_, h⟩
          exact List.forall_mem_cons.mpr
            ⟨hbefore, fun g hg => Path.before_trans hbefore (hf g hg)⟩
        · rename_i hbefore
          cases hafter : f.1.before path with
          | true =>
              have hall := forall_insert (P := fun p => f.1.before p = true) hafter hf text
              exact List.pairwise_cons.mpr ⟨hall, ih hrest⟩
          | false =>
              have hparts := Path.parts_eq_of_not_before hafter (Bool.eq_false_iff.mpr hbefore)
              exact absurd hparts hne

/-- Files are kept in path order, each path once. -/
theorem Constructed.ascending {memory : Memory} (h : memory.Constructed) :
    Path.Ascending (memory.files.map Prod.fst) := by
  induction h with
  | new arguments => exact .nil
  | write _ path text ih => exact ascending_insert ih path text
  | @delete memory after path _ hdelete ih =>
      unfold Memory.delete at hdelete
      split at hdelete
      · cases hdelete
        exact ih.sublist (List.filter_sublist.map Prod.fst)
      · cases hdelete
  | putOut _ text ih => exact ih
  | putErr _ text ih => exact ih

end Memory

end Verbatim
