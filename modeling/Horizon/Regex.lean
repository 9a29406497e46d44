/-
**Patterns searched by backtracking, and texts rewritten at their matches.**

A backtracking engine tries the ways a pattern can read a text in a fixed order and takes the first
one.  `Regex.ends` lists what a pattern can read from a position in that order; a search goes from
left to right, goes on behind each match, and cuts the text into kept letters and matches.
Replacing the matches by one fixed text is then a question about the cut only: a word that avoids
the first and last letter of the replacement, and its inside, cannot be made by any replacement.

Main definitions:

* `Regex`, `Regex.ends` — patterns, and what they read, in the order of the attempts;
* `Regex.scan`, `Regex.sub`, `Regex.findAll` — the cut of a text, its rewriting, its matches;
* `Regex.Foreign` — a word that a replacement cannot help to build.

Main results:

* `Regex.source_scan` — the pieces of the cut are the text;
* `Regex.Foreign.of_infix_rewrite` — a rewritten text has no foreign word that the text had not;
* `Regex.Foreign.not_infix_sub_word` — replacing a foreign word removes all its occurrences.
-/

import Mathlib.Tactic

/-- Patterns over an alphabet: repetition is of one class of letters only. -/
inductive Regex (α : Type) where
  | empty
  | one (p : α → Bool)
  | seq (a b : Regex α)
  | alt (a b : Regex α)
  | many (greedy : Bool) (p : α → Bool) (least : ℕ) (most : Option ℕ)
  | boundary (word : α → Bool)
  | finish (newline : α → Bool)

namespace Regex

open List

variable {α : Type} {pieces : List (α ⊕ List α)} (repl : List α) (r : Regex α) {prev : Option α}
  {xs u : List α}

/-! ### What a pattern reads -/

/-- The lengths of the runs of `p` that a repetition may take, in the order in which it tries
them. -/
def lengths (greedy : Bool) (p : α → Bool) (least : ℕ) (most : Option ℕ) (xs : List α) : List ℕ :=
  let run := (xs.takeWhile p).length
  let top := most.elim run (min run)
  let all := (range (top + 1)).filter (least ≤ ·)
  if greedy then all.reverse else all

/-- What the pattern can read from a position, first attempt first.  `prev` is the letter before
the position. -/
def ends : Regex α → Option α → List α → List (List α)
  | empty, _, _ => [[]]
  | one p, _, xs => (xs.head?.filter p).toList.map fun c => [c]
  | seq a b, prev, xs =>
    (ends a prev xs).flatMap fun u => (ends b (u.getLast?.or prev) (xs.drop u.length)).map (u ++ ·)
  | alt a b, prev, xs => ends a prev xs ++ ends b prev xs
  | many greedy p least most, _, xs => (lengths greedy p least most xs).map (xs.take ·)
  | boundary word, prev, xs => if prev.any word ≠ xs.head?.any word then [[]] else []
  | finish newline, _, xs => if xs = [] ∨ (xs.length = 1 ∧ xs.all newline) then [[]] else []

def matchAt (prev : Option α) (xs : List α) : Option (List α) := (ends r prev xs).head?

theorem isPrefix_of_mem_ends {r : Regex α} (hu : u ∈ ends r prev xs) : u <+: xs := by
  induction r generalizing prev xs u with
  | empty =>
    rw [ends, mem_singleton] at hu
    exact hu ▸ nil_prefix
  | one p =>
    cases xs with
    | nil => simp [ends] at hu
    | cons c rest =>
      simp only [ends, head?_cons, mem_map, Option.mem_toList,
        Option.filter_eq_some_iff] at hu
      obtain ⟨a, ⟨hca, _⟩, rfl⟩ := hu
      cases hca
      exact ⟨rest, rfl⟩
  | seq a b iha ihb =>
    simp only [ends, mem_flatMap, mem_map] at hu
    obtain ⟨v, hv, w, hw, rfl⟩ := hu
    obtain ⟨rest, rfl⟩ := iha hv
    have hw' : w <+: rest := by simpa using ihb hw
    exact prefix_append_right_inj _ |>.2 hw'
  | alt a b iha ihb =>
    rw [ends, mem_append] at hu
    exact hu.elim iha ihb
  | many greedy p least most =>
    obtain ⟨n, _, rfl⟩ := mem_map.1 hu
    exact take_prefix n xs
  | boundary | finish =>
    simp only [ends] at hu
    split at hu
    · exact mem_singleton.1 hu ▸ nil_prefix
    · cases hu

theorem isPrefix_of_matchAt {r : Regex α} (hu : matchAt r prev xs = some u) : u <+: xs :=
  isPrefix_of_mem_ends (mem_of_head? hu)

/-! ### Cutting a text -/

/-- The cut of a text: letters between matches, and matches.  `skip` letters belong to a match that
was already recorded; a match that reads nothing is none. -/
def scan (r : Regex α) : Option α → ℕ → List α → List (α ⊕ List α)
  | _, _, [] => []
  | _, skip + 1, c :: rest => scan r (some c) skip rest
  | prev, 0, c :: rest =>
    match (matchAt r prev (c :: rest)).filter (· ≠ []) with
    | some u => .inr u :: scan r (some c) (u.length - 1) rest
    | none => .inl c :: scan r (some c) 0 rest

def source (pieces : List (α ⊕ List α)) : List α := pieces.flatMap (Sum.elim (fun c => [c]) id)

def rewrite (pieces : List (α ⊕ List α)) : List α :=
  pieces.flatMap (Sum.elim (fun c => [c]) fun _ => repl)

/-- All matches replaced, from left to right. -/
def sub (repl xs : List α) : List α := rewrite repl (scan r none 0 xs)

def findAll (xs : List α) : List (List α) := (scan r none 0 xs).filterMap Sum.getRight?

@[simp] theorem source_nil : source ([] : List (α ⊕ List α)) = [] := rfl

@[simp] theorem source_inl (c : α) (pieces : List (α ⊕ List α)) :
    source (.inl c :: pieces) = c :: source pieces := rfl

@[simp] theorem source_inr (u : List α) (pieces : List (α ⊕ List α)) :
    source (.inr u :: pieces) = u ++ source pieces := rfl

@[simp] theorem rewrite_nil : rewrite repl [] = [] := rfl

@[simp] theorem rewrite_inl (c : α) (pieces : List (α ⊕ List α)) :
    rewrite repl (.inl c :: pieces) = c :: rewrite repl pieces := rfl

@[simp] theorem rewrite_inr (repl u : List α) (pieces : List (α ⊕ List α)) :
    rewrite repl (.inr u :: pieces) = repl ++ rewrite repl pieces := rfl

/-- The pieces of the cut make up the text behind the letters that are skipped. -/
theorem source_scan (prev : Option α) (skip : ℕ) (xs : List α) :
    source (scan r prev skip xs) = xs.drop skip := by
  fun_induction scan r prev skip xs with
  | case1 prev skip => simp
  | case2 prev skip c rest ih => exact ih
  | case3 prev c rest u hu ih =>
    obtain ⟨hmatch, hne⟩ := Option.filter_eq_some_iff.1 hu
    obtain ⟨tail, htail⟩ := isPrefix_of_matchAt hmatch
    obtain ⟨d, v, rfl⟩ := exists_cons_of_ne_nil (of_decide_eq_true hne)
    obtain ⟨rfl, rfl⟩ := cons.inj htail
    rw [source_inr, ih]
    simp
  | case4 prev c rest _ ih => simpa using ih

/-! ### Words that a replacement cannot help to build -/

/-- A word that is not empty, has neither the first nor the last letter of the replacement and is
not part of what stands between them. -/
structure Foreign (first last : α) (inside word : List α) : Prop where
  ne_nil : word ≠ []
  first_notMem : first ∉ word
  last_notMem : last ∉ word
  not_inside : ¬ word <:+: inside

/-- The replacement between its two letters. -/
def marker (first last : α) (inside : List α) : List α := first :: inside ++ [last]

/-- A word without the letter `x` lies before it or behind it. -/
theorem infix_append_cons {x : α} {word u v : List α} (hx : x ∉ word)
    (h : word <:+: u ++ x :: v) : word <:+: u ∨ word <:+: v := by
  obtain ⟨front, back, h⟩ := h
  rw [append_assoc] at h
  rcases append_eq_append_iff.1 h with ⟨rest, rfl, hword⟩ | ⟨rest, rfl, hv⟩
  · -- the word begins in `u`, and ends there because it lacks `x`
    left
    rcases append_eq_append_iff.1 hword with ⟨rest', rfl, -⟩ | ⟨rest', rfl, hback⟩
    · exact ⟨front, rest', by simp⟩
    · cases rest' with
      | nil => exact ⟨front, [], by simp⟩
      | cons y rest' =>
        obtain ⟨rfl, -⟩ := cons.inj hback
        exact absurd (by simp) hx
  · cases rest with
    | nil =>
      cases word with
      | nil => exact .inl nil_infix
      | cons y word =>
        obtain ⟨rfl, -⟩ := cons.inj hv
        exact absurd (.head _) hx
    | cons y rest =>
      obtain ⟨-, rfl⟩ := cons.inj hv
      exact .inr ⟨rest, back, by simp⟩

section

variable {first last : α} {inside word : List α}

/-- A beginning of the rewritten text without the first letter of the replacement is a beginning of
the text. -/
theorem prefix_of_prefix_rewrite (hfirst : first ∉ word)
    (h : word <+: rewrite (marker first last inside) pieces) : word <+: source pieces := by
  induction pieces generalizing word with
  | nil => exact h
  | cons piece pieces ih =>
    cases word with
    | nil => exact nil_prefix
    | cons c word =>
      rw [mem_cons, not_or] at hfirst
      cases piece with
      | inl d =>
        rw [rewrite_inl, cons_prefix_cons] at h
        rw [source_inl, cons_prefix_cons]
        exact ⟨h.1, ih hfirst.2 h.2⟩
      | inr u =>
        rw [rewrite_inr, marker, cons_append, cons_append, cons_prefix_cons] at h
        exact absurd h.1.symm hfirst.1

theorem Foreign.of_infix_marker_append {rest : List α} (hword : Foreign first last inside word)
    (h : word <:+: marker first last inside ++ rest) : word <:+: rest := by
  rw [marker, append_assoc, singleton_append, cons_append] at h
  have h' := infix_append_cons (u := []) hword.first_notMem h
  rcases h' with h' | h'
  · exact absurd (infix_nil.1 h') hword.ne_nil
  · rcases infix_append_cons hword.last_notMem h' with h' | h'
    · exact absurd h' hword.not_inside
    · exact h'

/-- **A rewritten text has no foreign word that the text had not.** -/
theorem Foreign.of_infix_rewrite (hword : Foreign first last inside word)
    (h : word <:+: rewrite (marker first last inside) pieces) : word <:+: source pieces := by
  induction pieces with
  | nil => exact h
  | cons piece pieces ih =>
    cases piece with
    | inl c =>
      rw [rewrite_inl, infix_cons_iff, ← rewrite_inl] at h
      rcases h with h | h
      · exact (prefix_of_prefix_rewrite hword.first_notMem h).isInfix
      · exact infix_cons (ih h)
    | inr u =>
      exact (ih (hword.of_infix_marker_append h)).trans (suffix_append u _).isInfix

theorem Foreign.of_infix_sub (hword : Foreign first last inside word)
    (h : word <:+: sub r (marker first last inside) xs) : word <:+: xs := by
  have hsource := hword.of_infix_rewrite h
  rwa [source_scan, drop_zero] at hsource

/-! ### Fixed words -/

variable [DecidableEq α]

def ofWord (word : List α) : Regex α := word.foldr (fun c r => .seq (.one (· = c)) r) .empty

theorem ends_ofWord (word : List α) (prev : Option α) (xs : List α) :
    ends (ofWord word) prev xs = if word <+: xs then [word] else [] := by
  induction word generalizing prev xs with
  | nil => simp [ofWord, ends]
  | cons c word ih =>
    rw [show ofWord (c :: word) = .seq (.one (· = c)) (ofWord word) from rfl, ends]
    cases xs with
    | nil => simp [ends]
    | cons d rest =>
      by_cases hd : d = c
      · subst hd
        simp only [ends, head?_cons, decide_true, Option.filter_some, if_true,
          Option.toList_some, map_cons, map_nil, flatMap_cons,
          flatMap_nil, append_nil, length_singleton, drop_succ_cons,
          drop_zero, ih, cons_prefix_cons, true_and]
        split <;> simp
      · have hne : ¬ c :: word <+: d :: rest := fun h => hd (cons_prefix_cons.1 h).1.symm
        simp [ends, hd, hne]

theorem matchAt_ofWord (word : List α) (prev : Option α) (xs : List α) :
    matchAt (ofWord word) prev xs = if word <+: xs then some word else none := by
  rw [matchAt, ends_ofWord]
  split <;> rfl

/-- What the rewriting keeps between the matches of a foreign word does not hold it. -/
theorem Foreign.not_infix_rewrite_scan (hword : Foreign first last inside word) (prev : Option α)
    (skip : ℕ) (xs : List α) :
    ¬ word <:+: rewrite (marker first last inside) (scan (ofWord word) prev skip xs) := by
  fun_induction scan (ofWord word) prev skip xs with
  | case1 prev skip => exact fun h => hword.ne_nil (infix_nil.1 h)
  | case2 prev skip c rest ih => exact ih
  | case3 prev c rest u _ ih =>
    exact fun h => ih (hword.of_infix_marker_append h)
  | case4 prev c rest hnone ih =>
    rw [rewrite_inl, infix_cons_iff, ← rewrite_inl, not_or]
    refine ⟨fun h => ?_, ih⟩
    -- An occurrence at this letter is one of the text, where the search found none.
    have hpre : word <+: c :: rest := by
      simpa [source_scan] using prefix_of_prefix_rewrite hword.first_notMem h
    rw [matchAt_ofWord, if_pos hpre] at hnone
    simp [hword.ne_nil] at hnone

/-- **Replacing a foreign word removes all its occurrences.** -/
theorem Foreign.not_infix_sub_word (hword : Foreign first last inside word) (xs : List α) :
    ¬ word <:+: sub (ofWord word) (marker first last inside) xs :=
  hword.not_infix_rewrite_scan none 0 xs

end

end Regex
