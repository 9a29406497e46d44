/-
**Relative paths as strings.**

A relative path is a list of names.  `render` joins the names with slashes, and `parts` takes a
string apart again and drops empty components and single dots, as a path object does.  For names
that can stand in a directory the two are inverse, and the first name can be read off the string.

Main definitions:

* `PosixPath.IsName` — what an entry of a directory can be called;
* `PosixPath.render`, `PosixPath.parts` — to a string and back.

Main results:

* `PosixPath.parts_render` — **nothing is lost on the way**.
-/

import Mathlib.Tactic.Common

namespace PosixPath

open List
open String (toList ofList)

/-- What an entry of a directory can be called. -/
structure IsName (n : String) : Prop where
  nonempty : n ≠ ""
  notDot : n ≠ "."
  notDots : n ≠ ".."
  noSlash : '/' ∉ n.toList
  noNul : Char.ofNat 0 ∉ n.toList

instance (n : String) : Decidable (IsName n) :=
  decidable_of_iff (n ≠ "" ∧ n ≠ "." ∧ n ≠ ".." ∧ '/' ∉ n.toList ∧ Char.ofNat 0 ∉ n.toList)
    ⟨fun h => ⟨h.1, h.2.1, h.2.2.1, h.2.2.2.1, h.2.2.2.2⟩, fun h => ⟨h.1, h.2, h.3, h.4, h.5⟩⟩

/-- `PurePosixPath(*names).as_posix()`. -/
def render (p : List String) : String := ofList (['/'].intercalate (p.map toList))

/-- `PurePosixPath(text).parts` of a relative path. -/
def parts (text : String) : List String :=
  ((text.toList.splitOn '/').map ofList).filter fun n => n ≠ "" ∧ n ≠ "."

/-- `PurePosixPath(text).is_absolute()`. -/
def isAbsolute (text : String) : Bool := text.toList.head? = some '/'

/-- `text.startswith(start)`. -/
def startsWith (start text : String) : Bool := start.toList.isPrefixOf text.toList

/-- `text[len(start):]`. -/
def dropStart (start text : String) : String := ofList (text.toList.drop start.toList.length)

variable {p q : List String} {rest : List String} (n : String)

theorem toList_render (p : List String) : (render p).toList = ['/'].intercalate (p.map toList) := by
  simp [render]

theorem map_ofList_toList (p : List String) : (p.map toList).map ofList = p := by
  simp [Function.comp_def]

theorem splitOn_render (h : ∀ n ∈ p, IsName n) (hp : p ≠ []) :
    (render p).toList.splitOn '/' = p.map toList := by
  rw [toList_render]
  refine splitOn_intercalate '/' ?_ (by simpa using hp)
  intro l hl
  obtain ⟨n, hn, rfl⟩ := mem_map.1 hl
  exact (h n hn).noSlash

/-- **Nothing is lost on the way.** -/
theorem parts_render (h : ∀ n ∈ p, IsName n) : parts (render p) = p := by
  by_cases hp : p = []
  · subst hp
    simp [parts, toList_render]
  · unfold parts
    rw [splitOn_render h hp, map_ofList_toList]
    refine filter_eq_self.2 fun n hn => ?_
    simpa using ⟨(h n hn).nonempty, (h n hn).notDot⟩

theorem render_inj (hp : ∀ n ∈ p, IsName n) (hq : ∀ n ∈ q, IsName n) (h : render p = render q) :
    p = q := by
  rw [← parts_render hp, h, parts_render hq]

/-! ### The first name -/

theorem toList_render_cons (h : rest ≠ []) :
    (render (n :: rest)).toList = n.toList ++ '/' :: (render rest).toList := by
  obtain ⟨m, rest, rfl⟩ := exists_cons_of_ne_nil h
  rw [toList_render, toList_render, map_cons, map_cons, intercalate_cons_cons]
  simp

/-- **When the string starts with a name and a slash.** -/
theorem start_render_iff {n : String} (hn : IsName n) (h : ∀ m ∈ p, IsName m) :
    startsWith (n ++ "/") (render p) = true ↔ ∃ rest, rest ≠ [] ∧ p = n :: rest := by
  rw [startsWith, isPrefixOf_iff_prefix]
  constructor
  · rintro ⟨t, ht⟩
    have hp : p ≠ [] := by
      rintro rfl
      simp [toList_render] at ht
    have hsplit := splitOn_render h hp
    have htext : (render p).toList = n.toList ++ '/' :: t := by
      rw [← ht]
      simp
    have hfirst : (n.toList ++ '/' :: t).splitOn '/' = n.toList :: t.splitOn '/' := by
      refine splitOnP_append_cons_of_forall_mem (fun c hc => ?_) '/' (by simp) t
      exact beq_eq_false_iff_ne.2 fun he => hn.noSlash (he ▸ hc)
    rw [htext, hfirst] at hsplit
    obtain ⟨m, rest, rfl⟩ := exists_cons_of_ne_nil hp
    obtain ⟨hname, hrest⟩ := cons.inj hsplit
    refine ⟨rest, ?_, by rw [String.toList_inj.1 hname]⟩
    rintro rfl
    exact splitOnP_ne_nil _ _ hrest
  · rintro ⟨rest, hrest, rfl⟩
    refine ⟨(render rest).toList, ?_⟩
    rw [toList_render_cons n hrest]
    simp

theorem dropStart_render (h : rest ≠ []) :
    dropStart (n ++ "/") (render (n :: rest)) = render rest := by
  unfold dropStart
  rw [toList_render_cons n h]
  refine String.toList_inj.1 ?_
  rw [String.toList_ofList, String.toList_append]
  have hsplit : n.toList ++ '/' :: (render rest).toList =
      (n.toList ++ "/".toList) ++ (render rest).toList := by
    simp
  rw [hsplit, drop_left]

end PosixPath
