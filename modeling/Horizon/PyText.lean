/-
**Texts: Python's `str` as a sequence of code points.**

A `str` is a sequence of code points, lone surrogates among them; a file that is read as UTF-8 has
none.  Reading in text mode turns `\r\n` and `\r` into `\n`; `splitlines` knows more line ends than
that.

Main definitions:

* `Text`, `Text.of` — code points, and those of a literal;
* `Text.isSpace`, `Text.isBoundary` — what `strip` and `splitlines` look for;
* `Text.universal`, `Text.splitlines`, `Text.strip`.

Main results:

* `Text.universal_eq_iff` — reading a file changes its text exactly when it has a carriage
  return;
* `Text.splitlines_eq` — without one, lines are cut after each boundary;
* `Text.strip_eq` — nothing is stripped from a text without spaces.
-/

import Mathlib.Data.List.DropRight
import Horizon.TextLines

namespace Horizon

open List

abbrev Text := List ℕ

namespace Text

def of (s : String) : Text := s.toList.map Char.toNat

def isSurrogate (c : ℕ) : Bool := 0xD800 ≤ c && c ≤ 0xDFFF

variable (t : Text)

/-- A text that is read from, or can be written to, a file in UTF-8. -/
def Encodable : Prop := ∀ c ∈ t, isSurrogate c = false

instance (t : Text) : Decidable (Encodable t) := inferInstanceAs (Decidable (∀ c ∈ t, _))

/-- `str.isspace`, for one code point. -/
def isSpace (c : ℕ) : Bool :=
  (0x09 ≤ c && c ≤ 0x0D) || (0x1C ≤ c && c ≤ 0x20) || c = 0x85 || c = 0xA0 || c = 0x1680 ||
    (0x2000 ≤ c && c ≤ 0x200A) || c = 0x2028 || c = 0x2029 || c = 0x202F || c = 0x205F ||
    c = 0x3000

/-- The code points after which `splitlines` ends a line. -/
def isBoundary (c : ℕ) : Bool :=
  (0x0A ≤ c && c ≤ 0x0D) || (0x1C ≤ c && c ≤ 0x1E) || c = 0x85 || c = 0x2028 || c = 0x2029

/-- `"\r\n"` is one line end. -/
def joinReturns : List Text → List Text
  | [] => []
  | [line] => [line]
  | line :: next :: lines =>
    if line.getLast? = some 0x0D ∧ next = [0x0A] then (line ++ next) :: joinReturns lines
    else line :: joinReturns (next :: lines)

/-- `splitlines(keepends=True)`. -/
def splitlines : List Text := joinReturns (Lines.split isBoundary t)

/-- Universal newlines: what reading in text mode makes of a file. -/
def universal : Text → Text
  | 0x0D :: 0x0A :: rest => 0x0A :: universal rest
  | 0x0D :: rest => 0x0A :: universal rest
  | c :: rest => c :: universal rest
  | [] => []

/-- `lstrip`. -/
def lstrip : Text := t.dropWhile isSpace

/-- `strip`. -/
def strip : Text := (lstrip t).rdropWhile isSpace

/-! ### Reading a file -/

theorem return_notMem_universal : 0x0D ∉ universal t := by
  fun_induction universal t with
  | case1 rest ih => simpa using ih
  | case2 rest _ ih => simpa using ih
  | case3 c rest _ hc ih =>
    rw [mem_cons, not_or]
    exact ⟨fun h => hc h.symm, ih⟩
  | case4 => exact not_mem_nil

theorem universal_of_notMem {t : Text} (h : 0x0D ∉ t) : universal t = t := by
  fun_induction universal t with
  | case1 rest _ | case2 rest _ _ => exact absurd (.head _) h
  | case3 c rest _ hc ih => rw [ih fun hmem => h (mem_cons_of_mem _ hmem)]
  | case4 => rfl

/-- Reading changes a text exactly when it has a carriage return. -/
theorem universal_eq_iff {t : Text} : universal t = t ↔ 0x0D ∉ t := by
  constructor
  · intro h
    rw [← h]
    exact return_notMem_universal t
  · exact universal_of_notMem

theorem joinReturns_of_notMem {lines : List Text} (h : 0x0D ∉ lines.flatten) :
    joinReturns lines = lines := by
  fun_induction joinReturns lines with
  | case1 => rfl
  | case2 line => rfl
  | case3 line next lines hjoin _ =>
    have hmem : 0x0D ∈ line := mem_of_getLast? hjoin.1
    rw [flatten_cons, mem_append, not_or] at h
    exact absurd hmem h.1
  | case4 line next lines _ ih =>
    rw [flatten_cons, mem_append, not_or] at h
    rw [ih h.2]

/-- Without a carriage return, lines are cut after each boundary. -/
theorem splitlines_eq {t : Text} (h : 0x0D ∉ t) : splitlines t = Lines.split isBoundary t := by
  refine joinReturns_of_notMem ?_
  rwa [Lines.flatten_split]

/-! ### Stripping -/

theorem lstrip_eq {t : Text} (h : ∀ c ∈ t, isSpace c = false) : lstrip t = t := by
  cases t with
  | nil => rfl
  | cons c rest => exact dropWhile_cons_of_neg (Bool.eq_false_iff.1 (h c (.head _)))

theorem strip_eq {t : Text} (h : ∀ c ∈ t, isSpace c = false) : strip t = t := by
  rw [strip, lstrip_eq h, rdropWhile_eq_self_iff]
  intro hne
  exact Bool.eq_false_iff.1 (h _ (getLast_mem hne))

end Text

end Horizon
