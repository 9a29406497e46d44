/-
**Tables and one connection.**

A table is a list of rows whose keys are distinct.  A callback on a connection is a program of
statements: reads, data changes, writes to the database header, commits.  The connection is in
Python's legacy transaction mode: a data change opens a transaction when none is open, nothing else
does, and only a commit closes it.  A header write outside a transaction commits itself.

A statement can raise.  SQLite then undoes that statement alone, or the whole transaction; which of
the two is part of the schedule of faults.  The callback ends at the first statement that raises.

Main definitions:

* `Sqlite.Table` — with `find`, `insert`, `update`, `count`;
* `Sqlite.Conn` — the committed state and the one the connection itself sees;
* `Sqlite.Prog`, `Sqlite.Prog.exec`, `Sqlite.Prog.eval` — callbacks, with and without faults;
* `Sqlite.Prog.transact` — a callback on an idle connection, and what is then committed;
* `Sqlite.Prog.before` — what the connection sees when a given statement starts.

Main results:

* `Sqlite.Prog.exec_noFault` — without faults `exec` computes `eval`;
* `Sqlite.Prog.transact_eq_some` — and commits it, when the callback seals its transactions;
* `Sqlite.Prog.exec_single` — what a callback leaves when one statement raises.
-/

import Mathlib.Data.List.Nodup
import Mathlib.Tactic.Common

namespace Sqlite

open List

/-! ### Tables -/

variable {ρ κ : Type} [DecidableEq κ]

/-- The rows of a table, in the order of insertion, with `key` as primary key. -/
structure Table (key : ρ → κ) where
  rows : List ρ
  unique : (rows.map key).Nodup
  deriving DecidableEq

namespace Table

variable {key : ρ → κ} (t : Table key) (p : ρ → Bool) (f : ρ → ρ)

def empty : Table key := ⟨[], nodup_nil⟩

/-- The row with key `k`. -/
def find (k : κ) : Option ρ := t.rows.find? fun r => key r = k

/-- `INSERT`; a key that is taken violates the constraint. -/
def insert (r : ρ) : Option (Table key) :=
  if h : key r ∈ t.rows.map key then none
  else some ⟨t.rows ++ [r], by
    rw [map_append, nodup_append]
    refine ⟨t.unique, by simp, ?_⟩
    rintro k hk _ hr rfl
    rw [map_singleton, mem_singleton] at hr
    exact h (hr ▸ hk)⟩

/-- `UPDATE … WHERE p`, for a change that keeps the key. -/
def update (hf : ∀ r, key (f r) = key r) : Table key :=
  ⟨t.rows.map fun r => if p r then f r else r, by
    have hkeys : (t.rows.map fun r => if p r then f r else r).map key = t.rows.map key := by
      rw [map_map]
      refine map_congr_left fun r _ => ?_
      simp only [Function.comp_apply]
      split
      · exact hf r
      · rfl
    rw [hkeys]
    exact t.unique⟩

/-- The number of rows that satisfy `p`. -/
def count : ℕ := t.rows.countP p

variable {t} {t' : Table key} {r : ρ} {k : κ}

omit [DecidableEq κ] in
theorem eq_of_rows (h : t.rows = t'.rows) : t = t' := by
  obtain ⟨rows, hrows⟩ := t
  obtain ⟨rows', hrows'⟩ := t'
  obtain rfl : rows = rows' := h
  rfl

@[simp] theorem find_empty (k : κ) : (empty : Table key).find k = none := rfl

theorem find_key (h : t.find k = some r) : key r = k := by
  simpa using find?_some h

theorem find_mem (h : t.find k = some r) : r ∈ t.rows := mem_of_find?_eq_some h

theorem find_eq_none_iff : t.find k = none ↔ k ∉ t.rows.map key := by
  simp [find, find?_eq_none, mem_map]

theorem insert_eq_some (h : t.insert r = some t') :
    t.find (key r) = none ∧ t'.rows = t.rows ++ [r] := by
  unfold insert at h
  split at h <;> cases h
  exact ⟨find_eq_none_iff.2 ‹_›, rfl⟩

theorem insert_of_find (h : t.find (key r) = none) : ∃ t', t.insert r = some t' := by
  rw [find_eq_none_iff] at h
  exact ⟨_, dif_neg h⟩

/-- After an insertion the new row is found, and the others as before. -/
theorem find_insert (h : t.insert r = some t') (k : κ) :
    t'.find k = if key r = k then some r else t.find k := by
  obtain ⟨hnew, hrows⟩ := insert_eq_some h
  rw [find, hrows, find?_append]
  by_cases hk : key r = k
  · subst hk
    rw [if_pos rfl, show t.rows.find? (fun x => decide (key x = key r)) = none from hnew]
    simp
  · rw [if_neg hk, show find? (fun x => decide (key x = k)) [r] = none by simp [hk],
      Option.or_none, find]

/-- An update changes the row that is found when it satisfies the condition. -/
theorem find_update (hf : ∀ r, key (f r) = key r) (k : κ) :
    (t.update p f hf).find k = (t.find k).map fun r => if p r then f r else r := by
  simp only [find, update, find?_map]
  congr 2
  funext r
  simp only [Function.comp_apply]
  split
  · rw [hf r]
  · rfl

/-- An update that asks for the key `k` leaves what is found under the others. -/
theorem find_update_of_ne (hf : ∀ r, key (f r) = key r) {k' : κ} (hne : k' ≠ k)
    (hp : ∀ r, p r = true → key r = k) : (t.update p f hf).find k' = t.find k' := by
  rw [find_update]
  cases hrow : t.find k' with
  | none => rfl
  | some r =>
    have hr : ¬ p r = true := fun h => hne ((find_key hrow).symm.trans (hp r h))
    rw [Option.map_some, if_neg hr]

omit [DecidableEq κ] in
theorem update_eq_self {p : ρ → Bool} {f : ρ → ρ} (hf : ∀ r, key (f r) = key r)
    (h : ∀ r ∈ t.rows, p r = true → f r = r) : t.update p f hf = t := by
  refine eq_of_rows ?_
  show t.rows.map (fun r => if p r then f r else r) = t.rows
  conv_rhs => rw [← map_id t.rows]
  refine map_congr_left fun r hr => ?_
  split
  · rename_i hp
    exact h r hr hp
  · rfl

theorem insert_length (h : t.insert r = some t') : t'.rows.length = t.rows.length + 1 := by
  rw [(insert_eq_some h).2, length_append, length_singleton]

theorem find_of_mem (h : r ∈ t.rows) : t.find (key r) = some r := by
  cases hfind : t.find (key r) with
  | none => exact absurd (mem_map_of_mem h) (find_eq_none_iff.1 hfind)
  | some r' =>
    rw [inj_on_of_nodup_map t.unique (find_mem hfind) h (find_key hfind)]

/-- A key selects at most one row, so a count over it is zero or one. -/
theorem count_key (k : κ) (q : ρ → Bool) :
    t.count (fun r => decide (key r = k) && q r) =
      match t.find k with
      | none => 0
      | some r => if q r then 1 else 0 := by
  obtain ⟨rows, hrows⟩ := t
  simp only [count, find]
  induction rows with
  | nil => rfl
  | cons r rows ih =>
    rw [map_cons, nodup_cons] at hrows
    by_cases hk : key r = k
    · -- the other rows have other keys
      have hrest : rows.countP (fun r => decide (key r = k) && q r) = 0 := by
        rw [countP_eq_zero]
        intro x hx hp
        simp only [Bool.and_eq_true, decide_eq_true_eq] at hp
        exact hrows.1 (mem_map.2 ⟨x, hx, hp.1.trans hk.symm⟩)
      rw [countP_cons, hrest, find?_cons_of_pos (by simpa using hk)]
      simp [hk]
    · rw [countP_cons, find?_cons_of_neg (by simpa using hk), ← ih hrows.2]
      simp [hk]

end Table

/-! ### The connection -/

/-- What is committed and what the connection itself sees; the two are equal while no transaction is
open. -/
structure Conn (σ : Type) where
  committed : σ
  working : σ
  inTransaction : Bool
  idle : inTransaction = false → working = committed

/-- What SQLite undoes when a statement raises. -/
inductive Fault
  | statement
  | transaction
  deriving DecidableEq

namespace Conn

variable {σ : Type} (c : Conn σ) (d : σ)

def opened : Conn σ := ⟨d, d, false, fun _ => rfl⟩

/-- Inside a transaction, the connection sees `d`. -/
def change : Conn σ := ⟨c.committed, d, true, fun h => by cases h⟩

def header : Conn σ := if c.inTransaction then c.change d else opened d

def commit : Conn σ := opened c.working

def rollback : Conn σ := opened c.committed

/-- A statement that has begun a transaction, or not, raises. -/
def fail : Fault → Conn σ
  | .statement => c
  | .transaction => c.rollback

@[simp] theorem opened_working : (opened d).working = d := rfl
@[simp] theorem opened_committed : (opened d).committed = d := rfl
@[simp] theorem opened_inTransaction : (opened d).inTransaction = false := rfl
@[simp] theorem change_working : (c.change d).working = d := rfl
@[simp] theorem change_committed : (c.change d).committed = c.committed := rfl
@[simp] theorem change_inTransaction : (c.change d).inTransaction = true := rfl
@[simp] theorem commit_committed : c.commit.committed = c.working := rfl
@[simp] theorem commit_working : c.commit.working = c.working := rfl

@[simp] theorem header_working : (c.header d).working = d := by
  unfold header
  split <;> rfl

@[simp] theorem header_inTransaction : (c.header d).inTransaction = c.inTransaction := by
  unfold header
  cases h : c.inTransaction <;> rfl

/-- With no transaction open there is only one state. -/
theorem eq_opened {c : Conn σ} (h : c.inTransaction = false) : c = opened c.working := by
  obtain ⟨committed, working, b, hidle⟩ := c
  subst h
  obtain rfl := hidle rfl
  rfl

theorem header_of_inTransaction (h : c.inTransaction = true) (d : σ) :
    c.header d = c.change d := if_pos h

/-- Two connections that differ at most in whether a transaction is open. -/
def Agrees (c c' : Conn σ) : Prop := c.working = c'.working ∧ c.committed = c'.committed

@[simp] theorem fail_committed (f : Fault) : (c.fail f).committed = c.committed := by
  cases f <;> rfl

end Conn

/-! ### Callbacks -/

inductive Prog (σ ε α : Type)
  | done (a : α)
  | raise (e : ε)
  /-- A statement that reads. -/
  | select (k : σ → Prog σ ε α)
  /-- A data change and the number of rows it changed; `none` violates a constraint. -/
  | write (f : σ → Option (σ × ℕ)) (k : ℕ → Prog σ ε α)
  /-- A write to the database header. -/
  | pragma (f : σ → σ) (k : Prog σ ε α)
  | commit (k : Prog σ ε α)

inductive Result (ε α : Type)
  | value (a : α)
  | raised (e : ε)
  | sqliteError
  deriving DecidableEq

/-- Which statements raise, counted from the next one. -/
abbrev Schedule := ℕ → Option Fault

def noFault : Schedule := fun _ => none

/-- Statement `i` raises. -/
def single (i : ℕ) (f : Fault) : Schedule := fun n => if n = i then some f else none

namespace Prog

variable {σ ε α : Type} {p : Prog σ ε α} {g : σ → Option (σ × ℕ)} {k : Prog σ ε α}
  {p₁ p₂ : Prog σ ε α}

def exec : Prog σ ε α → Schedule → Conn σ → Conn σ × Result ε α
  | done a, _, c => (c, .value a)
  | raise e, _, c => (c, .raised e)
  | select k, s, c =>
    match s 0 with
    | some f => (c.fail f, .sqliteError)
    | none => (k c.working).exec (fun n => s (n + 1)) c
  | write g k, s, c =>
    -- the transaction is open before the statement itself runs
    match s 0 with
    | some f => ((c.change c.working).fail f, .sqliteError)
    | none =>
      match g c.working with
      | none => (c.change c.working, .sqliteError)
      | some (d, rows) => (k rows).exec (fun n => s (n + 1)) (c.change d)
  | pragma g k, s, c =>
    match s 0 with
    | some f => (c.fail f, .sqliteError)
    | none => k.exec (fun n => s (n + 1)) (c.header (g c.working))
  | commit k, s, c =>
    match s 0 with
    | some f => (c.fail f, .sqliteError)
    | none => k.exec (fun n => s (n + 1)) c.commit

/-- A callback without faults, on what the connection sees. -/
def eval : Prog σ ε α → σ → σ × Result ε α
  | done a, d => (d, .value a)
  | raise e, d => (d, .raised e)
  | select k, d => (k d).eval d
  | write g k, d =>
    match g d with
    | none => (d, .sqliteError)
    | some (d', rows) => (k rows).eval d'
  | pragma g k, d => k.eval (g d)
  | commit k, d => k.eval d

/-- Without faults `exec` computes `eval` on what the connection sees. -/
theorem exec_noFault (p : Prog σ ε α) (c : Conn σ) :
    (p.exec noFault c).1.working = (p.eval c.working).1 ∧
      (p.exec noFault c).2 = (p.eval c.working).2 := by
  induction p generalizing c with
  | done | raise => exact ⟨rfl, rfl⟩
  | select k ih => exact ih c.working c
  | write g k ih =>
    simp only [exec, eval, noFault]
    cases g c.working with
    | none => exact ⟨rfl, rfl⟩
    | some out => exact ih out.2 (c.change out.1)
  | pragma g k ih =>
    have hrest := ih (c.header (g c.working))
    rw [Conn.header_working] at hrest
    exact hrest
  | commit k ih => exact ih c.commit

/-- Every exception that the callback itself can raise has `P`. -/
def RaisesOnly (P : ε → Prop) : Prog σ ε α → Prop
  | done _ => True
  | raise e => P e
  | select k => ∀ d, (k d).RaisesOnly P
  | write _ k => ∀ rows, (k rows).RaisesOnly P
  | pragma _ k => k.RaisesOnly P
  | commit k => k.RaisesOnly P

theorem RaisesOnly.exec {P : ε → Prop} (h : p.RaisesOnly P) (s : Schedule) (c : Conn σ) {e : ε}
    (he : (p.exec s c).2 = .raised e) : P e := by
  induction p generalizing s c with
  | done a => cases he
  | raise e' =>
    cases he
    exact h
  | select k ih =>
    simp only [Prog.exec] at he
    split at he
    · cases he
    · exact ih _ (h _) _ _ he
  | write g k ih =>
    simp only [Prog.exec] at he
    split at he
    · cases he
    · split at he
      · cases he
      · exact ih _ (h _) _ _ he
  | pragma g k ih | commit k ih =>
    simp only [Prog.exec] at he
    split at he
    · cases he
    · exact ih h _ _ he

/-- Does a run without faults close every transaction it opens? -/
def closes : Prog σ ε α → Bool → σ → Bool
  | done _, b, _ => !b
  | raise _, b, _ => !b
  | select k, b, d => (k d).closes b d
  | write g k, _, d =>
    match g d with
    | none => false
    | some (d', rows) => (k rows).closes true d'
  | pragma g k, b, d => k.closes b (g d)
  | commit k, _, d => k.closes false d

/-- A callback that closes its transactions has committed what it did. -/
theorem exec_closes (p : Prog σ ε α) (c : Conn σ) (h : p.closes c.inTransaction c.working = true) :
    p.exec noFault c = (.opened (p.eval c.working).1, (p.eval c.working).2) := by
  induction p generalizing c with
  | done | raise =>
    have hb : c.inTransaction = false := by simpa [closes] using h
    exact Prod.ext (Conn.eq_opened hb) rfl
  | select k ih => exact ih c.working c h
  | write g k ih =>
    simp only [closes] at h
    simp only [exec, eval, noFault]
    cases hg : g c.working with
    | none => rw [hg] at h; cases h
    | some out =>
      rw [hg] at h
      exact ih out.2 (c.change out.1) h
  | pragma g k ih =>
    have hrest := ih (c.header (g c.working))
    rw [Conn.header_working, Conn.header_inTransaction] at hrest
    exact hrest h
  | commit k ih => exact ih c.commit h

/-- Whatever transaction is open when the callback starts, none is when it ends. -/
def Seals (p : Prog σ ε α) : Prop := ∀ b d, (p.eval d).2 ≠ .sqliteError → p.closes b d = true

namespace Seals

theorem commit_done (a : α) : Seals (.commit (.done a) : Prog σ ε α) := fun _ _ _ => rfl

theorem commit_raise (e : ε) : Seals (.commit (.raise e) : Prog σ ε α) := fun _ _ _ => rfl

theorem select {k : σ → Prog σ ε α} (h : ∀ d, Seals (k d)) : Seals (.select k) :=
  fun b d hr => h d b d hr

theorem write {k : ℕ → Prog σ ε α} (h : ∀ rows, Seals (k rows)) : Seals (.write g k) := by
  intro b d hr
  simp only [eval] at hr
  simp only [closes]
  cases hg : g d with
  | none => rw [hg] at hr; exact absurd rfl hr
  | some out =>
    rw [hg] at hr
    exact h out.2 true out.1 hr

theorem pragma {g : σ → σ} (h : Seals k) : Seals (.pragma g k) := fun b d hr => h b (g d) hr

theorem ite {q : Prop} [Decidable q] (h₁ : Seals p₁) (h₂ : Seals p₂) :
    Seals (if q then p₁ else p₂) := by
  split
  · exact h₁
  · exact h₂

end Seals

/-- One call of a callback on a connection with no transaction open, when no statement raises: what
is committed afterwards, and how the callback ended. -/
def transact (p : Prog σ ε α) (d : σ) : Option (σ × Result ε α) :=
  match p.exec noFault (.opened d) with
  | (_, .sqliteError) => none
  | (c, r) => some (c.committed, r)

/-- A callback that seals commits what `eval` computes. -/
theorem transact_eq_some {d d' : σ} {r : Result ε α} (hp : p.Seals)
    (h : p.transact d = some (d', r)) : p.eval d = (d', r) ∧ r ≠ .sqliteError := by
  have hresult := (exec_noFault p (.opened d)).2
  simp only [Conn.opened_working] at hresult
  unfold transact at h
  cases he : (p.eval d).2 with
  | sqliteError =>
    rw [he] at hresult
    rw [show p.exec noFault (.opened d) = (_, .sqliteError) from Prod.ext rfl hresult] at h
    cases h
  | value | raised =>
    rw [exec_closes p (.opened d) (hp false d (by simp [he]))] at h
    simp only [Conn.opened_working, he, Conn.opened_committed] at h
    cases h
    exact ⟨Prod.ext rfl he, by simp⟩

/-- What the connection sees when statement `i` starts, provided the callback gets there and nothing
was committed on the way. -/
def before : Prog σ ε α → Bool → ℕ → σ → Option σ
  | done _, _, _, _ => none
  | raise _, _, _, _ => none
  | select _, _, 0, d => some d
  | select k, b, n + 1, d => (k d).before b n d
  | write _ _, _, 0, d => some d
  | write g k, _, n + 1, d =>
    match g d with
    | none => none
    | some (d', rows) => (k rows).before true n d'
  | pragma _ _, _, 0, d => some d
  | pragma g k, true, n + 1, d => k.before true n (g d)
  | pragma _ _, false, _ + 1, _ => none
  | commit _, _, 0, d => some d
  | commit _, _, _ + 1, _ => none

section Before

variable {b : Bool} {i : ℕ} {d d' : σ}

theorem before_select {k : σ → Prog σ ε α} (h : (select k).before b i d = some d') :
    (i = 0 ∧ d' = d) ∨ ∃ n, i = n + 1 ∧ (k d).before b n d = some d' := by
  cases i with
  | zero => exact .inl ⟨rfl, (Option.some.inj h).symm⟩
  | succ n => exact .inr ⟨n, rfl, h⟩

theorem before_write {k : ℕ → Prog σ ε α} (h : (write g k).before b i d = some d') :
    (i = 0 ∧ d' = d) ∨
      ∃ n e rows, i = n + 1 ∧ g d = some (e, rows) ∧ (k rows).before true n e = some d' := by
  cases i with
  | zero => exact .inl ⟨rfl, (Option.some.inj h).symm⟩
  | succ n =>
    simp only [before] at h
    cases hg : g d with
    | none => rw [hg] at h; cases h
    | some out =>
      rw [hg] at h
      exact .inr ⟨n, out.1, out.2, rfl, rfl, h⟩

theorem before_pragma {g : σ → σ} (h : (pragma g k).before true i d = some d') :
    (i = 0 ∧ d' = d) ∨ ∃ n, i = n + 1 ∧ k.before true n (g d) = some d' := by
  cases i with
  | zero => exact .inl ⟨rfl, (Option.some.inj h).symm⟩
  | succ n => exact .inr ⟨n, rfl, h⟩

theorem before_commit (h : (commit k).before b i d = some d') : i = 0 ∧ d' = d := by
  cases i with
  | zero => exact ⟨rfl, (Option.some.inj h).symm⟩
  | succ n => cases h

end Before

theorem single_succ (i : ℕ) (f : Fault) : (fun n => single (i + 1) f (n + 1)) = single i f := by
  funext n
  simp [single]

/-- **What a callback leaves when one statement raises**: nothing new is committed, and the
connection sees what it saw when the statement started, unless the whole transaction is undone. -/
theorem exec_single (p : Prog σ ε α) (f : Fault) (i : ℕ) (c : Conn σ) (d : σ)
    (h : p.before c.inTransaction i c.working = some d) :
    (p.exec (single i f) c).2 = .sqliteError ∧
      (p.exec (single i f) c).1.committed = c.committed ∧
      (p.exec (single i f) c).1.working =
        match f with
        | .statement => d
        | .transaction => c.committed := by
  induction p generalizing i c with
  | done a => cases h
  | raise e => cases h
  | select k ih =>
    cases i with
    | zero =>
      cases h
      exact ⟨rfl, Conn.fail_committed c f, by cases f <;> rfl⟩
    | succ i =>
      simp only [exec, single_succ]
      exact ih c.working i c h
  | write g k ih =>
    cases i with
    | zero =>
      cases h
      exact ⟨rfl, Conn.fail_committed _ f, by cases f <;> rfl⟩
    | succ i =>
      simp only [before] at h
      simp only [exec, single_succ]
      cases hg : g c.working with
      | none => rw [hg] at h; cases h
      | some out =>
        rw [hg] at h
        exact ih out.2 i (c.change out.1) h
  | pragma g k ih =>
    cases i with
    | zero =>
      obtain rfl : c.working = d := by
        cases hb : c.inTransaction <;> rw [hb] at h <;> exact Option.some.inj h
      exact ⟨rfl, Conn.fail_committed c f, by cases f <;> rfl⟩
    | succ i =>
      cases hb : c.inTransaction with
      | false => rw [hb] at h; cases h
      | true =>
        rw [hb] at h
        simp only [exec, single_succ]
        rw [show single (i + 1) f 0 = none from rfl, Conn.header_of_inTransaction c hb]
        exact ih i (c.change (g c.working)) h
  | commit k ih =>
    cases i with
    | zero =>
      cases h
      exact ⟨rfl, Conn.fail_committed c f, by cases f <;> rfl⟩
    | succ i => cases h

/-- A header write of the callback comes after a data change, or not at all. -/
def Covered : Prog σ ε α → Prop
  | done _ | raise _ => True
  | select k => ∀ d, (k d).Covered
  | write _ _ => True
  | pragma _ _ => False
  | commit _ => True

theorem Covered.ite {q : Prop} [Decidable q] (h₁ : p₁.Covered) (h₂ : p₂.Covered) :
    (if q then p₁ else p₂).Covered := by
  split
  · exact h₁
  · exact h₂

/-- Two connections that see the same state over the same committed one go on in the same way, also
when one has a transaction open that has changed nothing. -/
theorem exec_agrees (p : Prog σ ε α) (s : Schedule) {c c' : Conn σ} (hp : p.Covered)
    (h : c.Agrees c') : (p.exec s c).1.Agrees (p.exec s c').1 := by
  obtain ⟨hworking, hcommitted⟩ := h
  have hchange (d : σ) : c.change d = c'.change d := by
    simp only [Conn.change, hcommitted]
  have hfail (f : Fault) : (c.fail f).Agrees (c'.fail f) := by
    cases f with
    | statement => exact ⟨hworking, hcommitted⟩
    | transaction => exact ⟨hcommitted, hcommitted⟩
  induction p generalizing s with
  | done | raise => exact ⟨hworking, hcommitted⟩
  | select k ih =>
    simp only [exec, hworking]
    cases s 0 with
    | some f => exact hfail f
    | none => exact ih _ _ (hp _)
  | write g k ih =>
    -- from the data change on the two connections are equal
    simp only [exec, hworking, hchange]
    exact ⟨rfl, rfl⟩
  | pragma g k ih => exact absurd hp id
  | commit k ih =>
    have hcommit : c.commit = c'.commit := by simp only [Conn.commit, hworking]
    simp only [exec, hcommit]
    cases s 0 with
    | some f => exact hfail f
    | none => exact ⟨rfl, rfl⟩

end Prog

end Sqlite
