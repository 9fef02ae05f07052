import Mathlib.Data.List.Basic

/-!
# Lists that are sorted stably

Sorting moves nothing past what it is tied with, so the elements of a list that are tied among
themselves stay as they were (`filter_mergeSort`). Where elements of one sort never come after those
of another, a list is the ones followed by the others (`eq_filter_append_filter`).
-/

namespace NodeFactory

variable {α : Type} {le : α → α → Bool}

theorem filter_mergeSort (htrans : ∀ a b c, le a b = true → le b c = true → le a c = true)
    (htotal : ∀ a b, (le a b || le b a) = true) {p : α → Bool}
    (htied : ∀ a b, p a = true → p b = true → le a b = true) (list : List α) :
    (list.mergeSort le).filter p = list.filter p := by
  have hsorted : (list.filter p).Pairwise fun a b => le a b = true := by
    refine List.pairwise_of_forall_mem_list fun a ha b hb => ?_
    exact htied a b (List.of_mem_filter ha) (List.of_mem_filter hb)
  have hsub : (list.filter p).Sublist (list.mergeSort le) :=
    List.sublist_mergeSort htrans htotal hsorted List.filter_sublist
  have hsub' : (list.filter p).Sublist ((list.mergeSort le).filter p) := by
    have := hsub.filter p
    simpa only [List.filter_filter, Bool.and_self] using this
  exact (hsub'.eq_of_length ((List.mergeSort_perm list le).filter p).length_eq.symm).symm

theorem eq_filter_append_filter {p : α → Bool} : ∀ {list : List α},
    (list.Pairwise fun a b => p b = true → p a = true) →
      list = list.filter p ++ list.filter fun a => !p a
  | [], _ => rfl
  | a :: list, h => by
    obtain ⟨ha, h⟩ := List.pairwise_cons.1 h
    cases hpa : p a with
    | true =>
      rw [List.filter_cons_of_pos hpa, List.filter_cons_of_neg (by simp [hpa]), List.cons_append,
        ← eq_filter_append_filter h]
    | false =>
      -- Nothing after such an element is of the first sort.
      have hnone : list.filter p = [] :=
        List.filter_eq_nil_iff.2 fun b hb hpb => by simp [ha b hb hpb] at hpa
      rw [List.filter_cons_of_neg (by simp [hpa]), List.filter_cons_of_pos (by simp [hpa]), hnone,
        List.nil_append, List.filter_eq_self.2 fun b hb => ?_]
      cases hpb : p b with
      | true => simp [ha b hb hpb] at hpa
      | false => rfl

end NodeFactory
