/-
**The history is read page by page.**

`list_events` and `list_audit` order the rows by the text of their time and then by their id, both
descending; the cursor of a full page is that pair of its last row.  Who follows the cursors comes
by every row of the first request exactly once, whatever is inserted between the requests.  The
times may still go up: where the text of a whole second ends in `Z`, that of a later microsecond has
a point, which is the smaller character.

Main results:

* `History.paging_complete` — **every row once, and in order unless a second is mixed**.
-/

import Horizon.Calendar
import Mathlib.Data.List.Sort
import Mathlib.Data.Prod.Lex

namespace Horizon.History

open List

/-! ### Requests -/

/-- A row of `events` or `audit` with a time that the controller wrote, in microseconds; the rows of
`notifications.py`, whose times end in `+00:00`, are not covered. -/
structure Row where
  id : List ℕ
  time : ℕ
  inRange : time < Calendar.limit

abbrev Cursor := List ℕ ×ₗ List ℕ

/-- `(timestamp, id)`. -/
def Row.key (r : Row) : Cursor := toLex (Calendar.iso r.time, r.id)

/-- `WHERE (timestamp,id) < (?,?)`, or no condition. -/
def Row.before (cursor : Option Cursor) (r : Row) : Bool := cursor.all (r.key < ·)

/-- `ORDER BY timestamp DESC, id DESC`. -/
def selected (table : List Row) (cursor : Option Cursor) : List Row :=
  (table.filter (Row.before cursor)).insertionSort fun a b => b.key ≤ a.key

def page (limit : ℕ) (table : List Row) (cursor : Option Cursor) : List Row :=
  (selected table cursor).take limit

/-- `_page_cursor`. -/
def pageCursor (limit : ℕ) (rows : List Row) : Option Cursor :=
  if rows.length = limit then rows.getLast?.map Row.key else none

/-- The rows of at most `n` requests.  Before each request but the first a batch is inserted. -/
def follow (limit : ℕ) : ℕ → List Row → Option Cursor → List (List Row) → List Row
  | 0, _, _, _ => []
  | n + 1, table, cursor, batches =>
    let rows := page limit table cursor
    match pageCursor limit rows with
    | none => rows
    | some next => rows ++ follow limit n (table ++ batches.headD []) (some next) batches.tail

/-- All rows that are there at the end. -/
def total (table : List Row) (batches : List (List Row)) : List Row := table ++ batches.flatten

/-- The rows of all requests, from the first page to one without a cursor. -/
def paging (limit : ℕ) (table : List Row) (batches : List (List Row)) : List Row :=
  follow limit ((total table batches).length + 1) table none batches

/-! ### One page -/

section Page

variable {limit : ℕ} {table : List Row} {cursor : Option Cursor} {r : Row}

theorem before_some {k : Cursor} : r.before (some k) = true ↔ r.key < k := by
  simp [Row.before]

theorem before_trans {last : Row} (h : r.before (some last.key) = true)
    (hlast : last.before cursor = true) : r.before cursor = true := by
  cases cursor with
  | none => rfl
  | some k => exact before_some.2 ((before_some.1 h).trans (before_some.1 hlast))

def Descending (rows : List Row) : Prop := rows.Pairwise fun a b => b.key < a.key

instance : Std.Total fun a b : Row => b.key ≤ a.key := ⟨fun a b => le_total b.key a.key⟩

instance : IsTrans Row fun a b => b.key ≤ a.key := ⟨fun _ _ _ h h' => h'.trans h⟩

theorem mem_selected : r ∈ selected table cursor ↔ r ∈ table ∧ r.before cursor = true := by
  rw [selected, mem_insertionSort, mem_filter]

theorem selected_descending (hids : (table.map Row.id).Nodup) :
    Descending (selected table cursor) := by
  have hperm := perm_insertionSort (fun a b : Row => b.key ≤ a.key)
    (table.filter (Row.before cursor))
  have hnodup : ((selected table cursor).map Row.id).Nodup :=
    (hperm.map Row.id).nodup_iff.2 (hids.sublist (filter_sublist.map Row.id))
  refine (pairwise_insertionSort _ _).imp₂ (fun a b hle hne => ?_) (pairwise_map.1 hnodup)
  exact hle.lt_of_ne fun heq => hne (congrArg (fun k : Cursor => (ofLex k).2) heq).symm

/-- A page ends the requests only if it has every row that is left. -/
theorem page_last (hlimit : 0 < limit) (h : pageCursor limit (page limit table cursor) = none)
    (hr : r ∈ table) (hbefore : r.before cursor = true) : r ∈ page limit table cursor := by
  have hmem := mem_selected.2 ⟨hr, hbefore⟩
  have hlength : (page limit table cursor).length ≠ limit := by
    intro heq
    rw [pageCursor, if_pos heq, Option.map_eq_none_iff, getLast?_eq_none_iff] at h
    rw [h] at heq
    exact hlimit.ne heq
  rw [page, length_take] at hlength
  rwa [page, take_of_length_le (by omega)]

/-- The cursor is the key of a row of the page, and the rows that are left are before it. -/
theorem page_next (hids : (table.map Row.id).Nodup) {next : Cursor}
    (h : pageCursor limit (page limit table cursor) = some next) :
    (∃ last ∈ page limit table cursor, last.key = next) ∧
      (∀ a ∈ page limit table cursor, next ≤ a.key) ∧
      ∀ r ∈ table, r.before cursor = true →
        r ∈ page limit table cursor ∨ r.before (some next) = true := by
  have hsorted : Descending (selected table cursor) := selected_descending hids
  rw [pageCursor] at h
  split at h
  · obtain ⟨last, hlast, rfl⟩ := Option.map_eq_some_iff.1 h
    obtain ⟨init, hinit⟩ := getLast?_eq_some_iff.1 hlast
    have hmem : last ∈ page limit table cursor := by simp [hinit]
    rw [← take_append_drop limit (selected table cursor), Descending,
      pairwise_append] at hsorted
    refine ⟨⟨last, hmem, rfl⟩, fun a ha => ?_, fun r hr hbefore => ?_⟩
    · have hpage := hsorted.1
      rw [← page, hinit, pairwise_append] at hpage
      rw [hinit, mem_append, mem_singleton] at ha
      rcases ha with ha | rfl
      · exact (hpage.2.2 a ha last (by simp)).le
      · exact le_rfl
    · have hselected := mem_selected.2 ⟨hr, hbefore⟩
      rw [← take_append_drop limit (selected table cursor), mem_append] at hselected
      refine hselected.imp_right fun hdrop => ?_
      exact before_some.2 (hsorted.2.2 last hmem r hdrop)
  · cases h

end Page

/-! ### All requests -/

theorem total_tail (table : List Row) (batches : List (List Row)) :
    total (table ++ batches.headD []) batches.tail = total table batches := by
  cases batches <;> simp [total]

/-- **What is returned from a cursor on**: rows before it, in descending order, and all of the table
unless the requests do not suffice. -/
theorem follow_spec {limit : ℕ} (hlimit : 0 < limit) {n : ℕ} {table : List Row}
    {cursor : Option Cursor} {batches : List (List Row)}
    (hids : ((total table batches).map Row.id).Nodup) :
    Descending (follow limit n table cursor batches) ∧
      (∀ r ∈ follow limit n table cursor batches, r ∈ total table batches ∧
        r.before cursor = true) ∧
      ∀ r ∈ table, r.before cursor = true → r ∈ follow limit n table cursor batches ∨
        n ≤ (follow limit n table cursor batches).length := by
  induction n generalizing table cursor batches with
  | zero => exact ⟨.nil, by simp [follow], fun _ _ _ => .inr (Nat.zero_le _)⟩
  | succ n ih =>
    have htable : (table.map Row.id).Nodup :=
      hids.sublist ((sublist_append_left _ _).map Row.id)
    have hpage : ∀ r ∈ page limit table cursor, r ∈ total table batches ∧
        r.before cursor = true := by
      intro r hr
      exact (mem_selected.1 (mem_of_mem_take hr)).imp_left (mem_append_left _)
    have hdescending : Descending (page limit table cursor) :=
      (selected_descending htable).sublist (take_sublist _ _)
    rw [follow]
    split
    · rename_i hnone
      exact ⟨hdescending, hpage, fun r hr hbefore => .inl (page_last hlimit hnone hr hbefore)⟩
    · rename_i next hsome
      obtain ⟨⟨last, hlast, rfl⟩, hle, hleft⟩ := page_next htable hsome
      rw [← total_tail] at hids
      obtain ⟨hdesc, hmem, hall⟩ := @ih _ (some last.key) _ hids
      rw [total_tail] at hmem
      refine ⟨pairwise_append.2 ⟨hdescending, hdesc, fun a ha b hb => ?_⟩, fun r hr => ?_,
        fun r hr hr' => ?_⟩
      · exact (before_some.1 (hmem b hb).2).trans_le (hle a ha)
      · refine (mem_append.1 hr).elim (hpage r) fun hr => ⟨(hmem r hr).1, ?_⟩
        exact before_trans (hmem r hr).2 (hpage last hlast).2
      · rcases hleft r hr hr' with hr | hr'
        · exact .inl (mem_append_left _ hr)
        · have hlength := length_pos_of_mem hlast
          refine (hall r (mem_append_left _ hr) hr').imp (mem_append_right _) fun h => ?_
          rw [length_append]
          omega

/-- No row is at a whole second while another is at a later microsecond of that second. -/
def Unmixed (rows : List Row) : Prop :=
  ∀ r ∈ rows, ∀ s ∈ rows, r.time / 1000000 = s.time / 1000000 → r.time % 1000000 = 0 →
    s.time % 1000000 = 0

/-- The times never increase from one row to the next. -/
def Chronological (rows : List Row) : Prop := rows.IsChain fun a b => b.time ≤ a.time

theorem time_le_of_key_lt {a b : Row} (h : b.key < a.key) : b.time ≤ a.time ∨
    b.time / 1000000 = a.time / 1000000 ∧ b.time % 1000000 ≠ 0 ∧ a.time % 1000000 = 0 := by
  rw [Row.key, Row.key, Prod.Lex.toLex_lt_toLex] at h
  have hle : Calendar.iso b.time ≤ Calendar.iso a.time := by
    rcases h with h | ⟨h, -⟩
    · exact h.le
    · exact h.le
  rw [Calendar.iso_le_iso_iff b.inRange a.inRange] at hle
  omega

/-- **Who follows the cursors gets every row of the first request exactly once**, and gets the rows
in order of time if no second is mixed; the rows of the first request have to be unmixed for it. -/
theorem paging_complete (limit : ℕ) (hlimit : 0 < limit) (table : List Row)
    (batches : List (List Row)) (hids : ((total table batches).map Row.id).Nodup) :
    (paging limit table batches).Nodup ∧ (∀ r ∈ table, r ∈ paging limit table batches) ∧
      (Unmixed (total table batches) → Chronological (paging limit table batches)) ∧
      (Chronological (paging limit table batches) → Unmixed table) := by
  obtain ⟨hdesc, hmem, hall⟩ := @follow_spec limit hlimit ((total table batches).length + 1)
    table none batches hids
  rw [← paging] at hdesc hmem hall
  have hnodup : (paging limit table batches).Nodup :=
    hdesc.imp (S := (· ≠ ·)) fun h heq => h.ne (congrArg Row.key heq.symm)
  have hlength := (hnodup.subperm fun r hr => (hmem r hr).1).length_le
  have hcomplete : ∀ r ∈ table, r ∈ paging limit table batches := fun r hr =>
    (hall r hr rfl).resolve_right (by omega)
  refine ⟨hnodup, hcomplete, fun h => ?_, fun h r hr s hs hsecond hwhole => ?_⟩
  · refine (hdesc.imp_of_mem fun {a b} ha hb hlt => ?_).isChain
    rcases time_le_of_key_lt hlt with hle | ⟨hsecond, hpart, hwhole⟩
    · exact hle
    · exact absurd (h a (hmem a ha).1 b (hmem b hb).1 hsecond.symm hwhole) hpart
  · by_contra hpart
    have hlt : s.key < r.key := Prod.Lex.toLex_lt_toLex.2 (.inl
      ((Calendar.iso_lt_iso_iff s.inRange r.inRange).2 (.inr ⟨hsecond.symm, hpart, .inl hwhole⟩)))
    -- `r` comes before `s`, although it is the earlier one
    obtain ⟨newer, older, hsplit⟩ := append_of_mem (hcomplete r hr)
    have hs := hcomplete s hs
    have htimes := isChain_iff_pairwise.1 h
    rw [hsplit] at hs hdesc htimes
    rw [mem_append, mem_cons] at hs
    rcases hs with hs | rfl | hs
    · exact lt_asymm hlt ((pairwise_append.1 hdesc).2.2 s hs r (.head _))
    · exact hpart hwhole
    · have hle := (pairwise_cons.1 (pairwise_append.1 htimes).2.1).1 s hs
      omega

/-! ### A whole second and a later time in it -/

/-- At noon of a day and half a second later. -/
def wholeRow : Row := ⟨[1], 43200000000, by decide⟩

def partRow : Row := ⟨[2], 43200500000, by decide⟩

/-- In the next second, and in the one after it. -/
def laterRow : Row := ⟨[3], 43201000000, by decide⟩

def insertedRow : Row := ⟨[4], 43202000000, by decide⟩

/-- One row a page, two rows of different seconds, and one that is inserted after the first
request. -/
theorem paging_complete_inserted :
    (paging 1 [partRow, laterRow] [[insertedRow]]).Nodup ∧
      (∀ r ∈ [partRow, laterRow], r ∈ paging 1 [partRow, laterRow] [[insertedRow]]) ∧
      Chronological (paging 1 [partRow, laterRow] [[insertedRow]]) := by
  obtain ⟨hnodup, hall, hordered, -⟩ :=
    paging_complete 1 (by decide) [partRow, laterRow] [[insertedRow]] (by decide)
  refine ⟨hnodup, hall, hordered ?_⟩
  unfold Unmixed
  decide

/-- The earlier row comes first. -/
theorem whole_second_first :
    (paging 1 [wholeRow, partRow] []).map Row.time = [43200000000, 43200500000] ∧
      ¬ Chronological (paging 1 [wholeRow, partRow] []) := by
  have hrows : (paging 1 [wholeRow, partRow] []).map Row.time = [43200000000, 43200500000] := by
    decide +kernel
  refine ⟨hrows, fun h => ?_⟩
  have htimes := (isChain_map Row.time (R := fun m n => n ≤ m)).2 h
  rw [hrows] at htimes
  revert htimes
  decide

end Horizon.History
