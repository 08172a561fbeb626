import Mathlib.Data.String.Basic
import GoldenRom.Proofs.Listings

/-!
# The order of the queue

The queue is sorted by components, and of paths with the same components the one comes first
that was found first.  So a queue is known when it is known, for all components, in which order
the paths with these components are found.  One search path finds at most one of them.  Hence
the queue does not depend on the order in which directories list their entries, and with the
search paths in another order only paths with the same components change places.

## Main results

* `Path.mergeSort_eq_of_filter_eq`: what the sorted list depends on.
* `FileSystem.count_findTests`: how often a path stands in the queue.
* `FileSystem.Alike.findTests_eq`: the queue with directories listed in another order.
* `FileSystem.Alike.components_findTests_eq`: the queue with the search paths in another order
  as well.
-/

namespace GoldenRom

namespace Component

/-- Where a component sorts among those of other kinds. -/
def rank : Component → Nat
  | root => 0
  | current => 1
  | parent => 2
  | normal _ => 3

/-- The name in a component, if it is one. -/
def name : Component → String
  | normal name => name
  | _ => ""

/-- Components sort by their kinds, and names among themselves as texts. -/
theorem compare_eq :
    (compare : Component → Component → Ordering) =
      compareLex (compareOn rank) (compareOn name) := by
  funext x y
  cases x <;> cases y <;> first | rfl | skip
  rename_i first second
  show (compare first second).then .eq = compare first second
  cases compare first second <;> rfl

instance : Std.TransOrd Component := by
  rw [Std.TransOrd, compare_eq]
  infer_instance

instance : Std.LawfulEqOrd Component where
  eq_of_compare {x y} heq := by
    rw [compare_eq, compareLex_eq_eq, compareOn, compareOn, Std.compare_eq_iff_eq,
      Std.compare_eq_iff_eq] at heq
    obtain ⟨hrank, hname⟩ := heq
    cases x <;> cases y <;> simp_all [rank, name]

end Component

namespace Path

/-! ## Sorting by components -/

theorem sortsBefore_trans (p q r : Path) (hpq : p.sortsBefore q = true)
    (hqr : q.sortsBefore r = true) : p.sortsBefore r = true :=
  Std.TransCmp.isLE_trans hpq hqr

theorem sortsBefore_total (p q : Path) : (p.sortsBefore q || q.sortsBefore p) = true := by
  have hswap : compare q.components p.components = (compare p.components q.components).swap :=
    Std.OrientedCmp.eq_swap
  rw [sortsBefore, sortsBefore, hswap]
  cases compare p.components q.components <;> rfl

/-- Paths that may stand either way mean the same. -/
theorem components_eq_of_sortsBefore {p q : Path} (hpq : p.sortsBefore q = true)
    (hqp : q.sortsBefore p = true) : p.components = q.components :=
  Std.LawfulEqCmp.eq_of_compare (Std.OrientedCmp.isLE_antisymm hpq hqp)

theorem sortsBefore_of_components_eq {p q : Path} (heq : p.components = q.components) :
    p.sortsBefore q = true := by
  have hself : compare q.components q.components = .eq := Std.ReflCmp.compare_self
  rw [sortsBefore, heq, hself]
  rfl

/-- The paths of a list with certain components, in their order. -/
def meaning (paths : List Path) (components : List Component) : List Path :=
  paths.filter (·.components = components)

theorem mem_meaning {paths : List Path} {components : List Component} {p : Path} :
    p ∈ meaning paths components ↔ p ∈ paths ∧ p.components = components := by
  rw [meaning, List.mem_filter, decide_eq_true_eq]

theorem mem_iff_of_meaning_eq {first second : List Path}
    (hmeaning : ∀ components, meaning first components = meaning second components) (p : Path) :
    p ∈ first ↔ p ∈ second := by
  have hsame : p ∈ meaning first p.components ↔ p ∈ meaning second p.components := by
    rw [hmeaning]
  simpa only [mem_meaning, and_true] using hsame

/-- The head of a sorted list sorts before all of the list. -/
theorem sortsBefore_of_mem_cons {p q : Path} {rest : List Path}
    (hsorted : (p :: rest).Pairwise (·.sortsBefore ·)) (hq : q ∈ p :: rest) :
    p.sortsBefore q = true := by
  rcases List.mem_cons.1 hq with rfl | hq
  · exact sortsBefore_of_components_eq rfl
  · exact (List.pairwise_cons.1 hsorted).1 q hq

/-- Two sorted lists are the same if they have the same paths with the same components in the
same order. -/
theorem eq_of_sorted {first second : List Path} (hfirst : first.Pairwise (·.sortsBefore ·))
    (hsecond : second.Pairwise (·.sortsBefore ·))
    (hmeaning : ∀ components, meaning first components = meaning second components) :
    first = second := by
  induction first generalizing second with
  | nil =>
      have hmem := mem_iff_of_meaning_eq hmeaning
      exact (List.eq_nil_iff_forall_not_mem.2 fun p hp => List.not_mem_nil ((hmem p).2 hp)).symm
  | cons p first ih =>
      have hmem := mem_iff_of_meaning_eq hmeaning
      cases second with
      | nil => exact absurd ((hmem p).1 List.mem_cons_self) List.not_mem_nil
      | cons q second =>
          -- Each head stands in the other list, so they mean the same, and then they are the
          -- same.
          have hsame : p.components = q.components := components_eq_of_sortsBefore
            (sortsBefore_of_mem_cons hfirst ((hmem q).2 List.mem_cons_self))
            (sortsBefore_of_mem_cons hsecond ((hmem p).1 List.mem_cons_self))
          have hheads := hmeaning p.components
          rw [meaning, meaning, List.filter_cons_of_pos (by simp),
            List.filter_cons_of_pos (by simp [hsame])] at hheads
          obtain ⟨rfl, -⟩ := List.cons.inj hheads
          refine congrArg (p :: ·) (ih hfirst.of_cons hsecond.of_cons fun components => ?_)
          have hboth := hmeaning components
          rw [meaning, meaning, List.filter_cons, List.filter_cons] at hboth
          split at hboth
          · exact (List.cons.inj hboth).2
          · exact hboth

/-- Sorting keeps the order of paths with the same components. -/
theorem meaning_mergeSort (paths : List Path) (components : List Component) :
    meaning (paths.mergeSort sortsBefore) components = meaning paths components := by
  have hsame : (meaning paths components).Pairwise (·.sortsBefore ·) := by
    refine List.pairwise_iff_forall_sublist.2 fun {p q} hpq => sortsBefore_of_components_eq ?_
    have hp := hpq.subset (List.mem_cons_self : p ∈ [p, q])
    have hq := hpq.subset (List.mem_cons_of_mem p List.mem_cons_self : q ∈ [p, q])
    rw [mem_meaning] at hp hq
    rw [hp.2, hq.2]
  have hsublist : (meaning paths components).Sublist (paths.mergeSort sortsBefore) :=
    List.sublist_mergeSort sortsBefore_trans sortsBefore_total hsame List.filter_sublist
  have hkept : (meaning paths components).Sublist
      (meaning (paths.mergeSort sortsBefore) components) := by
    have hfiltered := hsublist.filter (·.components = components)
    simpa [meaning] using hfiltered
  have hlength : (meaning (paths.mergeSort sortsBefore) components).length =
      (meaning paths components).length :=
    ((List.mergeSort_perm paths sortsBefore).filter _).length_eq
  exact (hkept.eq_of_length hlength.symm).symm

/-- **What the sorted list depends on**: for all components, the order of the paths with these
components. -/
theorem mergeSort_eq_of_meaning_eq {first second : List Path}
    (hmeaning : ∀ components, meaning first components = meaning second components) :
    first.mergeSort sortsBefore = second.mergeSort sortsBefore := by
  refine eq_of_sorted (List.pairwise_mergeSort sortsBefore_trans sortsBefore_total first)
    (List.pairwise_mergeSort sortsBefore_trans sortsBefore_total second) fun components => ?_
  rw [meaning_mergeSort, meaning_mergeSort, hmeaning]

end Path

namespace FileSystem

variable {fs other : FileSystem} {searchPaths otherPaths : List Path}

theorem findTests_perm (fs : FileSystem) (searchPaths : List Path) :
    (fs.findTests searchPaths).Perm (searchPaths.flatMap fs.testsAt) :=
  List.mergeSort_perm _ _

/-- The queue is sorted by components. -/
theorem pairwise_findTests (fs : FileSystem) (searchPaths : List Path) :
    (fs.findTests searchPaths).Pairwise (·.sortsBefore ·) :=
  List.pairwise_mergeSort Path.sortsBefore_trans Path.sortsBefore_total _

open scoped Classical in
/-- **A path stands in the queue once for each search path that leads to it.** -/
theorem count_findTests (hfs : fs.WellFormed) (searchPaths : List Path) (q : Path) :
    (fs.findTests searchPaths).count q = searchPaths.countP (fs.LeadsTo · q) := by
  rw [(findTests_perm fs searchPaths).count_eq]
  induction searchPaths with
  | nil => rfl
  | cons p rest ih =>
      have hmem : q ∈ fs.testsAt p ↔ fs.LeadsTo p q := mem_testsAt_iff hfs
      rw [List.flatMap_cons, List.count_append, ih, List.countP_cons, Nat.add_comm,
        (nodup_testsAt hfs p).count]
      by_cases hleads : fs.LeadsTo p q <;> simp [hmem, hleads]

namespace Alike

/-- Of the tests that a search path stands for, at most one has certain components. -/
theorem meaning_testsAt_eq (h : fs.Alike other) (hfs : fs.WellFormed)
    (hother : other.WellFormed) (p : Path) (components : List Component) :
    Path.meaning (fs.testsAt p) components = Path.meaning (other.testsAt p) components := by
  have hdistinct : ∀ {fs : FileSystem}, fs.WellFormed →
      (Path.meaning (fs.testsAt p) components).Pairwise fun q q' =>
        q.components ≠ q'.components := fun hfs =>
    (List.pairwise_map.1 (nodup_components_testsAt hfs p)).filter _
  refine ((h.testsAt_perm hfs hother p).filter _).eq_of_pairwise ?_ (hdistinct hfs)
    (hdistinct hother)
  intro q q' hq hq' hne _
  exact absurd ((Path.mem_meaning.1 hq).2.trans (Path.mem_meaning.1 hq').2.symm) hne

/-- **The queue does not depend on the order of entries.** -/
theorem findTests_eq (h : fs.Alike other) (hfs : fs.WellFormed) (hother : other.WellFormed)
    (searchPaths : List Path) :
    other.findTests searchPaths = fs.findTests searchPaths := by
  refine (Path.mergeSort_eq_of_meaning_eq fun components => ?_).symm
  rw [Path.meaning, Path.meaning, List.filter_flatMap, List.filter_flatMap]
  exact congrArg (searchPaths.flatMap ·)
    (funext fun p => h.meaning_testsAt_eq hfs hother p components)

/-- With the search paths in another order the queue holds the same paths. -/
theorem findTests_perm_of_perm (h : fs.Alike other) (hfs : fs.WellFormed)
    (hother : other.WellFormed) (hpaths : searchPaths.Perm otherPaths) :
    (fs.findTests searchPaths).Perm (other.findTests otherPaths) := by
  rw [h.findTests_eq hfs hother]
  exact (findTests_perm fs searchPaths).trans
    ((hpaths.flatMap_right fs.testsAt).trans (findTests_perm fs otherPaths).symm)

/-- **The components in the queue do not depend on the order of the search paths.** -/
theorem components_findTests_eq (h : fs.Alike other) (hfs : fs.WellFormed)
    (hother : other.WellFormed) (hpaths : searchPaths.Perm otherPaths) :
    (other.findTests otherPaths).map Path.components =
      (fs.findTests searchPaths).map Path.components := by
  have hsorted : ∀ (fs : FileSystem) (searchPaths : List Path),
      ((fs.findTests searchPaths).map Path.components).Pairwise
        fun components components' => (compare components components').isLE :=
    fun fs searchPaths => List.pairwise_map.2 (pairwise_findTests fs searchPaths)
  refine List.Perm.eq_of_pairwise ?_ (hsorted other otherPaths) (hsorted fs searchPaths)
    ((h.findTests_perm_of_perm hfs hother hpaths).map Path.components).symm
  exact fun _ _ _ _ hle hge =>
    Std.LawfulEqCmp.eq_of_compare (Std.OrientedCmp.isLE_antisymm hle hge)

end Alike

end FileSystem

end GoldenRom
