/-
**Lines: cutting a sequence after the elements that end a line.**

A sequence is cut into lines, each of which keeps the element that ends it; only the last line may
lack one.  Cutting is the inverse of concatenation on the lists of lines that can arise this way.

Main definitions:

* `Lines.split` — the lines of a sequence;
* `Lines.Whole`, `Lines.Broken` — a line with its end, and the lists of lines of a sequence.

Main results:

* `Lines.Broken.split_flatten` — **a list of lines is found again in its concatenation**.
-/

import Mathlib.Tactic

namespace Lines

open List

universe u

variable {α : Type u} (ends : α → Bool)

/-- The lines of a sequence, each with the element that ends it. -/
def split : List α → List (List α)
  | [] => []
  | a :: rest =>
    if ends a then [a] :: split rest
    else
      match split rest with
      | [] => [[a]]
      | line :: lines => (a :: line) :: lines

def Whole (line : List α) : Prop :=
  ∃ body last, line = body ++ [last] ∧ (∀ a ∈ body, ends a = false) ∧ ends last = true

/-- A list of lines: all have an end, except perhaps the last, which is then not empty. -/
inductive Broken : List (List α) → Prop
  | nil : Broken []
  | last {line : List α} (hne : line ≠ []) (hbody : ∀ a ∈ line, ends a = false) : Broken [line]
  | cons {line : List α} {lines : List (List α)} (hline : Whole ends line)
      (hlines : Broken lines) : Broken (line :: lines)

@[simp] theorem flatten_split (xs : List α) : (split ends xs).flatten = xs := by
  induction xs with
  | nil => rfl
  | cons a rest ih =>
    rw [split]
    split
    · rw [flatten_cons, ih, singleton_append]
    · cases hrest : split ends rest with
      | nil | cons =>
        rw [hrest] at ih
        rw [← ih]
        rfl

variable {ends}

theorem whole_singleton {a : α} (h : ends a = true) : Whole ends [a] := ⟨[], a, rfl, nofun, h⟩

variable {line : List α}

theorem Whole.cons {a : α} (h : Whole ends line) (ha : ends a = false) :
    Whole ends (a :: line) := by
  obtain ⟨body, last, rfl, hbody, hlast⟩ := h
  exact ⟨a :: body, last, rfl, forall_mem_cons.2 ⟨ha, hbody⟩, hlast⟩

variable (ends) in
theorem split_broken (xs : List α) : Broken ends (split ends xs) := by
  induction xs with
  | nil => exact .nil
  | cons a rest ih =>
    rw [split]
    split_ifs with ha
    · exact .cons (whole_singleton ha) ih
    · have ha : ends a = false := Bool.eq_false_iff.2 ha
      cases hrest : split ends rest with
      | nil =>
        refine .last (cons_ne_nil _ _) fun b hb => ?_
        rw [mem_singleton.1 hb]
        exact ha
      | cons line lines =>
        rw [hrest] at ih
        cases ih with
        | last hne hbody =>
          exact .last (cons_ne_nil _ _) (forall_mem_cons.2 ⟨ha, hbody⟩)
        | cons hline hlines => exact .cons (hline.cons ha) hlines

theorem split_of_forall (hne : line ≠ []) (hbody : ∀ a ∈ line, ends a = false) :
    split ends line = [line] := by
  induction line with
  | nil => exact absurd rfl hne
  | cons a rest ih =>
    obtain ⟨ha, hrest⟩ := forall_mem_cons.1 hbody
    rw [split, ha, if_neg Bool.false_ne_true]
    cases rest with
    | nil => rfl
    | cons b rest => rw [ih (cons_ne_nil _ _) hrest]

theorem split_whole_append (hline : Whole ends line) (xs : List α) :
    split ends (line ++ xs) = line :: split ends xs := by
  obtain ⟨body, last, rfl, hbody, hlast⟩ := hline
  induction body with
  | nil => rw [nil_append, singleton_append, split, if_pos hlast]
  | cons a body ih =>
    obtain ⟨ha, hbody⟩ := forall_mem_cons.1 hbody
    rw [cons_append, cons_append, split, ha, if_neg Bool.false_ne_true, ih hbody]

variable {lines : List (List α)} {xs : List α}

/-- **A list of lines is found again in its concatenation.** -/
theorem Broken.split_flatten (h : Broken ends lines) : split ends lines.flatten = lines := by
  induction h with
  | nil => rfl
  | last hne hbody =>
    rw [flatten_cons, flatten_nil, append_nil]
    exact split_of_forall hne hbody
  | cons hline _ ih => rw [flatten_cons, split_whole_append hline, ih]

theorem Broken.append {lines' : List (List α)} (h : ∀ line ∈ lines, Whole ends line)
    (h' : Broken ends lines') : Broken ends (lines ++ lines') := by
  induction lines with
  | nil => exact h'
  | cons line lines ih =>
    obtain ⟨hline, hlines⟩ := forall_mem_cons.1 h
    exact .cons hline (ih hlines)

theorem split_append (h : ∀ line ∈ lines, Whole ends line)
    (xs : List α) : split ends (lines.flatten ++ xs) = lines ++ split ends xs := by
  have hbroken := (Broken.append h (split_broken ends xs)).split_flatten
  rw [flatten_append, flatten_split] at hbroken
  exact hbroken

theorem Broken.whole_or_last (h : Broken ends lines) (hmem : line ∈ lines) : Whole ends line ∨
    (∃ front, lines = front ++ [line]) ∧ line ≠ [] ∧ ∀ a ∈ line, ends a = false := by
  induction h with
  | nil => cases hmem
  | last hne hbody =>
    rw [mem_singleton.1 hmem]
    exact .inr ⟨⟨[], rfl⟩, hne, hbody⟩
  | @cons first lines hline hlines ih =>
    rcases mem_cons.1 hmem with rfl | hmem
    · exact .inl hline
    · refine (ih hmem).imp_right ?_
      rintro ⟨⟨front, rfl⟩, hbody⟩
      exact ⟨⟨first :: front, rfl⟩, hbody⟩

/-! ### Texts that end with a line -/

variable (ends) in
def Terminated (xs : List α) : Prop := ∃ body last, xs = body ++ [last] ∧ ends last = true

theorem Whole.terminated (h : Whole ends line) : Terminated ends line := by
  obtain ⟨body, last, heq, -, hlast⟩ := h
  exact ⟨body, last, heq, hlast⟩

theorem Terminated.whole (h : Terminated ends xs) (hline : line ∈ split ends xs) :
    Whole ends line := by
  rcases (split_broken ends xs).whole_or_last hline with hwhole | ⟨⟨front, hlines⟩, hne, hbody⟩
  · exact hwhole
  · obtain ⟨body, last, rfl, hlast⟩ := h
    -- the last element of the text is the last element of the last line
    have hflat := flatten_split ends (body ++ [last])
    rw [hlines, flatten_append, flatten_cons, flatten_nil, append_nil] at hflat
    obtain ⟨line', x, rfl⟩ : ∃ line' x, line = line' ++ [x] :=
      ⟨_, _, (dropLast_append_getLast hne).symm⟩
    rw [← append_assoc] at hflat
    have hx : x = last := singleton_inj.1 (append_inj_right' hflat rfl)
    have hfalse := hbody x (mem_append_right _ (mem_singleton.2 rfl))
    rw [hx, hlast] at hfalse
    cases hfalse

/-- The lines of a text in front of which a terminated text stands. -/
theorem Terminated.split_append (h : Terminated ends xs) (ys : List α) :
    split ends (xs ++ ys) = split ends xs ++ split ends ys := by
  have hlines := Lines.split_append (fun line hline => h.whole hline) ys
  rwa [flatten_split] at hlines

/-- The lines of a concatenation of terminated texts, the last of which may lack its end. -/
theorem split_flatten {pieces : List (List α)}
    (h : ∀ piece ∈ pieces.dropLast, Terminated ends piece) :
    split ends pieces.flatten = pieces.flatMap (split ends) := by
  induction pieces with
  | nil => rfl
  | cons piece pieces ih =>
    cases pieces with
    | nil => simp
    | cons next pieces =>
      obtain ⟨hpiece, hrest⟩ := forall_mem_cons.1 h
      rw [flatten_cons, hpiece.split_append, ih hrest]
      rfl

theorem split_of_mem (h : line ∈ split ends xs) : split ends line = [line] := by
  rcases (split_broken ends xs).whole_or_last h with hwhole | ⟨-, hne, hbody⟩
  · have hline := split_whole_append hwhole []
    rwa [append_nil] at hline
  · exact split_of_forall hne hbody

theorem Broken.whole_of_mem_dropLast (h : Broken ends lines) (hmem : line ∈ lines.dropLast) :
    Whole ends line := by
  induction h with
  | nil => cases hmem
  | last hne hbody => cases hmem
  | @cons first lines hline hlines ih =>
    cases lines with
    | nil => cases hmem
    | cons next lines =>
      rcases mem_cons.1 hmem with rfl | hmem
      · exact hline
      · exact ih hmem

end Lines
