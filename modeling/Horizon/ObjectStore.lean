/-
**Object stores.**

A remote prefix of an object store is a finite map from keys to contents.  The library has the
operations of such a map and what they leave alone, and the position that an entry takes when the
entries are put into the order of a key: that is what retention by age is about.

Main definitions:

* `ObjectStore.Store` — with `get`, `put`, `delete`, `under`;
* `ObjectStore.ahead` — the entries that a stable sort puts before a given one.

Main results:

* `ObjectStore.insertionSort_position` — **a stable sort puts an entry after those ahead of it**.
-/

import Mathlib.Data.List.Nodup
import Mathlib.Data.List.Sort

namespace ObjectStore

open List

/-! ### Stores -/

structure Store (β : Type) where
  objects : List (String × β)
  unique : (objects.map Prod.fst).Nodup
  deriving DecidableEq

namespace Store

variable {β : Type} (s : Store β) (k : String)

def empty : Store β := ⟨[], nodup_nil⟩

/-- The content stored under `k`. -/
def get : Option β := (s.objects.find? fun o => o.1 = k).map Prod.snd

/-- Remove the object `k`, if there is one. -/
def delete : Store β :=
  ⟨s.objects.filter fun o => o.1 ≠ k, s.unique.sublist (filter_sublist.map _)⟩

/-- Store `b` under `k`. -/
def put (b : β) : Store β :=
  ⟨(s.delete k).objects ++ [(k, b)], by
    rw [map_append, nodup_append]
    refine ⟨(s.delete k).unique, by simp, ?_⟩
    intro a ha b' hb hab
    obtain ⟨o, ho, rfl⟩ := mem_map.1 ha
    rw [map_singleton, mem_singleton] at hb
    have hne := (mem_filter.1 ho).2
    simp [hab, hb] at hne⟩

/-- The objects whose keys start with `start`. -/
def under (start : String) : List (String × β) :=
  s.objects.filter fun o => start.toList.isPrefixOf o.1.toList

variable {s}

theorem mem_objects {k : String} {b : β} : (k, b) ∈ s.objects ↔ s.get k = some b := by
  constructor
  · intro h
    cases hf : s.objects.find? fun o => o.1 = k with
    | none =>
      have := find?_eq_none.1 hf _ h
      simp at this
    | some o =>
      have hk : o.1 = k := by simpa using find?_some hf
      have ho := mem_of_find?_eq_some hf
      have hinj := inj_on_of_nodup_map s.unique ho h (hk)
      simp [get, hf, hinj]
  · intro h
    obtain ⟨o, ho, rfl⟩ := Option.map_eq_some_iff.1 h
    have hk : o.1 = k := by simpa using find?_some ho
    rw [← hk]
    exact mem_of_find?_eq_some ho

theorem mem_under {start k : String} {b : β} :
    (k, b) ∈ s.under start ↔ s.get k = some b ∧ start.toList.isPrefixOf k.toList = true := by
  rw [under, mem_filter, mem_objects]

@[simp] theorem get_delete (k k' : String) :
    (s.delete k).get k' = if k' = k then none else s.get k' := by
  refine Option.ext fun b => ?_
  rw [← mem_objects, delete, mem_filter, mem_objects]
  by_cases h : k' = k
  · simp [h]
  · simp [h]

@[simp] theorem get_put (k k' : String) (b : β) :
    (s.put k b).get k' = if k' = k then some b else s.get k' := by
  refine Option.ext fun c => ?_
  have hmem : (k', c) ∈ (s.put k b).objects ↔
      (k', c) ∈ (s.delete k).objects ∨ (k', c) = (k, b) := by
    rw [put, mem_append, mem_singleton]
  rw [← mem_objects, hmem, mem_objects, get_delete]
  by_cases h : k' = k
  · simp [h, eq_comm]
  · simp [h]

end Store

/-! ### Sorting by age -/

variable {α : Type} (r : α → α → Prop) [DecidableRel r] (before : List α)

/-- How many elements a stable sort puts before the element that stands between `before` and
`behind`: an earlier one also goes first when the two are equivalent. -/
def ahead (x : α) (behind : List α) : ℕ :=
  before.countP (fun a => r a x) + behind.countP (fun b => ¬ r x b)

variable {r} {l : List α}

/-- In a sorted list the elements that `x` does not precede stand first. -/
theorem length_takeWhile_of_sorted [IsTrans α r] (x : α) (h : l.Pairwise r) :
    (l.takeWhile fun b => ¬ r x b).length = l.countP fun b => ¬ r x b := by
  induction l with
  | nil => rfl
  | cons a l ih =>
    rw [pairwise_cons] at h
    by_cases hx : r x a
    · have hzero : l.countP (fun b => ¬ r x b) = 0 := by
        rw [countP_eq_zero]
        intro b hb
        simpa using IsTrans.trans _ _ _ hx (h.1 b hb)
      rw [takeWhile_cons_of_neg (by simpa using hx),
        countP_cons_of_neg (by simpa using hx), hzero, length_nil]
    · rw [takeWhile_cons_of_pos (by simpa using hx),
        countP_cons_of_pos (by simpa using hx), length_cons, ih h.2]

/-- An element that precedes `x` is inserted before it. -/
theorem orderedInsert_ahead {a x : α} (h : r a x) (S T : List α) :
    ∃ S', (S ++ x :: T).orderedInsert r a = S' ++ x :: T ∧ S'.length = S.length + 1 := by
  induction S with
  | nil => exact ⟨[a], by simp [h], rfl⟩
  | cons b S ih =>
    by_cases hb : r a b
    · exact ⟨a :: b :: S, by simp [hb], rfl⟩
    · obtain ⟨S', hS', hlen⟩ := ih
      refine ⟨b :: S', ?_, by simp [hlen]⟩
      rw [cons_append, orderedInsert_cons, if_neg hb, hS', cons_append]

/-- An element that precedes neither `x` nor what stands before it is inserted after it. -/
theorem orderedInsert_behind {a x : α} (h : ¬ r a x) {S : List α} (hS : ∀ b ∈ S, ¬ r a b)
    (T : List α) : (S ++ x :: T).orderedInsert r a = S ++ x :: T.orderedInsert r a := by
  induction S with
  | nil => rw [nil_append, orderedInsert_cons, if_neg h, nil_append]
  | cons b S ih =>
    rw [cons_append, orderedInsert_cons, if_neg (hS b (by simp)),
      ih fun c hc => hS c (.tail _ hc), cons_append]

/-- **A stable sort puts an element after those that are ahead of it.** -/
theorem insertionSort_position [IsTrans α r] [Std.Total r] (x : α) (behind : List α) :
    ∃ S T, (before ++ x :: behind).insertionSort r = S ++ x :: T ∧
      S.length = ahead r before x behind := by
  induction before with
  | nil =>
    refine ⟨_, _, insertionSort_cons_eq_take_drop r x behind, ?_⟩
    rw [length_takeWhile_of_sorted x (pairwise_insertionSort r behind),
      (perm_insertionSort r behind).countP_eq, ahead, countP_nil, Nat.zero_add]
  | cons a before ih =>
    obtain ⟨S, T, hsort, hlen⟩ := ih
    have hsorted := pairwise_insertionSort r (before ++ x :: behind)
    rw [hsort, pairwise_append] at hsorted
    rw [cons_append, insertionSort_cons, hsort]
    by_cases ha : r a x
    · obtain ⟨S', hS', hlen'⟩ := orderedInsert_ahead ha S T
      refine ⟨S', T, hS', ?_⟩
      rw [hlen', hlen, ahead, ahead, countP_cons_of_pos (by simpa using ha)]
      omega
    · refine ⟨S, _, orderedInsert_behind ha ?_ T, ?_⟩
      · intro b hb hab
        exact ha (IsTrans.trans _ _ _ hab (hsorted.2.2 b hb x (by simp)))
      · rw [hlen, ahead, ahead, countP_cons_of_neg (by simpa using ha)]

/-- An element is beyond the first `n` of the sorted list when `n` elements are ahead of it. -/
theorem mem_drop_insertionSort [IsTrans α r] [Std.Total r] {before behind : List α} {x : α}
    (h : (before ++ x :: behind).Nodup) (n : ℕ) :
    x ∈ ((before ++ x :: behind).insertionSort r).drop n ↔ n ≤ ahead r before x behind := by
  obtain ⟨S, T, hsort, hlen⟩ := insertionSort_position (r := r) before x behind
  have hnodup : (S ++ x :: T).Nodup :=
    hsort ▸ (perm_insertionSort r (before ++ x :: behind)).nodup_iff.2 h
  have hx := nodup_middle.1 hnodup
  rw [nodup_cons, mem_append, not_or] at hx
  rw [hsort, ← hlen, drop_append, mem_append]
  constructor
  · rintro (hS | hT)
    · exact absurd (mem_of_mem_drop hS) hx.1.1
    · by_contra hn
      obtain ⟨m, hm⟩ : ∃ m, n - S.length = m := ⟨_, rfl⟩
      cases m with
      | zero => omega
      | succ m =>
        rw [hm, drop_succ_cons] at hT
        exact hx.1.2 (mem_of_mem_drop hT)
  · intro hn
    right
    rw [Nat.sub_eq_zero_of_le hn, drop_zero]
    exact .head _

/-- All but the elements beyond the first `n`. -/
theorem countP_notMem_drop [DecidableEq α] (h : l.Nodup) (n : ℕ) :
    l.countP (fun a => a ∉ l.drop n) = min l.length n := by
  have hsplit := take_append_drop n l
  have hdisjoint := disjoint_of_nodup_append (hsplit.symm ▸ h)
  have htake : (l.take n).countP (fun a => a ∉ l.drop n) = (l.take n).length := by
    rw [countP_eq_length]
    intro a ha
    simpa using fun hdrop => hdisjoint ha hdrop
  have hdrop : (l.drop n).countP (fun a => a ∉ l.drop n) = 0 := by
    rw [countP_eq_zero]
    intro a ha
    simpa using ha
  calc l.countP (fun a => a ∉ l.drop n)
      = (l.take n ++ l.drop n).countP (fun a => a ∉ l.drop n) := by rw [hsplit]
    _ = (l.take n).length + 0 := by rw [countP_append, htake, hdrop]
    _ = min l.length n := by rw [length_take, Nat.add_zero, Nat.min_comm]

theorem countP_or {p q : α → Bool} (h : ∀ a ∈ l, p a = true → q a = false) :
    l.countP (fun a => p a || q a) = l.countP p + l.countP q := by
  induction l with
  | nil => rfl
  | cons a l ih =>
    have hih := ih fun b hb => h b (.tail _ hb)
    have ha := h a (.head _)
    simp only [countP_cons, hih]
    cases hp : p a with
    | true =>
      simp only [Bool.true_or, if_true, ha hp, Bool.false_eq_true, if_false]
      omega
    | false =>
      simp only [Bool.false_or, Bool.false_eq_true, if_false]
      omega

end ObjectStore
