/-
  Reports in order.

  Reports are put in order one by one, each in front of the first one that does not start
  before it.  So the result is ordered by where reports start, those that start at one
  place keep the order in which they were found, and a list that is part of another one is
  part of it in order, too.
-/
import Verbatim.Diagnostic

set_option autoImplicit false

namespace Verbatim.Diagnostic

/-! ## The order -/

/-- No report starts before one in front of it. -/
def Ordered (ds : List Diagnostic) : Prop :=
  ds.Pairwise fun d e => d.start ≤ e.start

theorem ordered_insert {d : Diagnostic} {ds : List Diagnostic} (h : Ordered ds) :
    Ordered (insert d ds) := by
  induction ds with
  | nil => exact List.pairwise_singleton _ d
  | cons e rest ih =>
      obtain ⟨he, hrest⟩ := List.pairwise_cons.mp h
      rw [insert]
      split
      · rename_i hle
        refine List.pairwise_cons.mpr ⟨?_, h⟩
        refine List.forall_mem_cons.mpr ⟨hle, fun f hf => ?_⟩
        exact Nat.le_trans hle (he f hf)
      · rename_i hlt
        refine List.pairwise_cons.mpr ⟨fun f hf => ?_, ih hrest⟩
        rcases List.mem_cons.mp ((insert_perm d rest).mem_iff.mp hf) with rfl | hf
        · exact Nat.le_of_not_le hlt
        · exact he f hf

theorem ordered_sort (ds : List Diagnostic) : Ordered (sort ds) := by
  induction ds with
  | nil => exact List.Pairwise.nil
  | cons d rest ih => exact ordered_insert ih

/-! ## Stability -/

/-- A list holds the reports of another one, ordered by where they start; reports that start
at one place are in the order of the other list. -/
structure StablySorts (ds sorted : List Diagnostic) : Prop where
  perm : sorted.Perm ds
  ordered : Ordered sorted
  stable : ∀ start, sorted.filter (fun d => d.start == start) =
    ds.filter (fun d => d.start == start)

/-- A report is put behind others only if they start elsewhere. -/
theorem filter_insert (start : Nat) (d : Diagnostic) (ds : List Diagnostic) :
    (insert d ds).filter (fun e => e.start == start) =
      (d :: ds).filter (fun e => e.start == start) := by
  induction ds with
  | nil => rfl
  | cons e rest ih =>
      rw [insert]
      split
      · rfl
      · rename_i hlt
        rw [List.filter_cons, ih, List.filter_cons, List.filter_cons, List.filter_cons]
        by_cases hd : d.start = start
        · have he : e.start ≠ start := fun he => hlt (Nat.le_of_eq (hd.trans he.symm))
          simp [hd, he]
        · simp [hd]

theorem filter_sort (start : Nat) (ds : List Diagnostic) :
    (sort ds).filter (fun d => d.start == start) = ds.filter (fun d => d.start == start) := by
  induction ds with
  | nil => rfl
  | cons d rest ih =>
      have hsort : sort (d :: rest) = insert d (sort rest) := rfl
      rw [hsort, filter_insert, List.filter_cons, List.filter_cons, ih]

theorem stablySorts_sort (ds : List Diagnostic) : StablySorts ds (sort ds) where
  perm := sort_perm ds
  ordered := ordered_sort ds
  stable := fun start => filter_sort start ds

/-! ## Parts of a list -/

theorem insert_of_forall_le {d : Diagnostic} {ds : List Diagnostic}
    (h : ∀ e ∈ ds, d.start ≤ e.start) : insert d ds = d :: ds := by
  cases ds with
  | nil => rfl
  | cons e rest => rw [insert, if_pos (h e List.mem_cons_self)]

theorem sublist_insert (d : Diagnostic) (ds : List Diagnostic) : ds.Sublist (insert d ds) := by
  induction ds with
  | nil => exact List.nil_sublist _
  | cons e rest ih =>
      rw [insert]
      split
      · exact List.sublist_cons_self d _
      · exact ih.cons_cons e

/-- Putting one report into two ordered lists keeps the shorter one inside the longer. -/
theorem insert_sublist_insert {d : Diagnostic} {xs ys : List Diagnostic} (h : xs.Sublist ys)
    (hys : Ordered ys) : (insert d xs).Sublist (insert d ys) := by
  induction h with
  | slnil => exact .refl _
  | @cons xs ys y hxs ih =>
      obtain ⟨hy, hordered⟩ := List.pairwise_cons.mp hys
      by_cases hle : d.start ≤ y.start
      · -- The report comes first in both lists, since all others start later.
        have hlater : ∀ e ∈ xs, d.start ≤ e.start := fun e he =>
          Nat.le_trans hle (hy e (hxs.subset he))
        rw [insert_of_forall_le hlater, insert, if_pos hle]
        exact (hxs.cons y).cons_cons d
      · rw [insert, if_neg hle]
        exact (ih hordered).cons y
  | @cons_cons xs ys x hxs ih =>
      obtain ⟨_, hordered⟩ := List.pairwise_cons.mp hys
      rw [insert, insert]
      split
      · exact (hxs.cons_cons x).cons_cons d
      · exact (ih hordered).cons_cons x

/-- Ordering keeps a sublist a sublist. -/
theorem sort_sublist_sort {xs ys : List Diagnostic} (h : xs.Sublist ys) :
    (sort xs).Sublist (sort ys) := by
  induction h with
  | slnil => exact .refl _
  | cons y _ ih => exact ih.trans (sublist_insert y _)
  | cons_cons x _ ih => exact insert_sublist_insert ih (ordered_sort _)

end Verbatim.Diagnostic
