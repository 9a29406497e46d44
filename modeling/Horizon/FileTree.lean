/-
**Directory trees.**

A tree is a file or a directory of named children, and a path is a list of names.  `get` looks a
path up, `put` sets or removes what is at a path and does nothing if its directory is missing, and
`move` is a rename.  Two paths are apart if neither lies below the other; what happens at one of
them does not concern the other.

Main definitions:

* `FileTree.Node` — with `get`, `put` and `move`;
* `FileTree.Apart` — neither path lies below the other;
* `FileTree.Node.prune` — a removal that was not finished;
* `FileTree.Node.addFile` — a new file, with the directories above it.

Main results:

* `FileTree.get_put_self`, `FileTree.get_put_apart` — what a `put` changes;
* `FileTree.isDir_put` — directories above and beside stay;
* `FileTree.get_move_source`, `FileTree.get_move_target`, `FileTree.get_move_apart` — renames;
* `FileTree.get_addFile` — the files after one has been added.
-/

import Mathlib.Tactic.Common

namespace FileTree

open Option
open List

abbrev Path := List String

/-- A file, or a directory of named children. -/
inductive Node (α : Type)
  | file (content : α)
  | dir (children : List (String × Node α))

variable {α : Type}

namespace Node

def empty : Node α := dir []

def isDir : Node α → Bool
  | file _ => false
  | dir _ => true

def child (n : Node α) (name : String) : Option (Node α) :=
  match n with
  | file _ => none
  | dir children => children.lookup name

def get : Node α → Path → Option (Node α)
  | n, [] => some n
  | n, name :: rest =>
    match n.child name with
    | none => none
    | some c => c.get rest

/-- The children with one of them set or removed. -/
def setChild (name : String) (x : Option (Node α)) (children : List (String × Node α)) :
    List (String × Node α) :=
  match x with
  | none => children.filter (·.1 ≠ name)
  | some c => (name, c) :: children.filter (·.1 ≠ name)

def put : Node α → Path → Option (Node α) → Node α
  | n, [], x => x.getD n
  | file content, _ :: _, _ => file content
  | dir children, [name], x => dir (setChild name x children)
  | dir children, name :: next :: rest, x =>
    match children.lookup name with
    | none => dir children
    | some c => dir (setChild name (some (c.put (next :: rest) x)) children)

def move (n : Node α) (source target : Path) : Node α :=
  (n.put source none).put target (n.get source)

mutual

/-- The tree without what is below the removed paths; the node itself is still there. -/
def prune (removed : Path → Bool) : Node α → Node α
  | file content => file content
  | dir children => dir (pruneChildren removed children)

def pruneChildren (removed : Path → Bool) : List (String × Node α) → List (String × Node α)
  | [] => []
  | (name, c) :: rest =>
    if removed [name] then pruneChildren removed rest
    else (name, prune (fun p => removed (name :: p)) c) :: pruneChildren removed rest

end

mutual

def decEq [DecidableEq α] : (m n : Node α) → Decidable (m = n)
  | file a, file b =>
    if h : a = b then isTrue (congrArg file h) else isFalse fun he => h (file.inj he)
  | dir a, dir b =>
    match decEqChildren a b with
    | isTrue h => isTrue (congrArg dir h)
    | isFalse h => isFalse fun he => h (dir.inj he)
  | file _, dir _ => isFalse nofun
  | dir _, file _ => isFalse nofun

def decEqChildren [DecidableEq α] : (a b : List (String × Node α)) → Decidable (a = b)
  | [], [] => isTrue rfl
  | [], _ :: _ => isFalse nofun
  | _ :: _, [] => isFalse nofun
  | (k, m) :: a, (j, n) :: b =>
    if hk : k = j then
      match decEq m n, decEqChildren a b with
      | isTrue hm, isTrue ha => isTrue (by rw [hk, hm, ha])
      | isFalse hm, _ => isFalse fun he => hm (Prod.mk.inj (cons.inj he).1).2
      | _, isFalse ha => isFalse fun he => ha (cons.inj he).2
    else isFalse fun he => hk (Prod.mk.inj (cons.inj he).1).1

end

instance [DecidableEq α] : DecidableEq (Node α) := decEq

mutual

/-- The names in each directory are admissible and differ. -/
def Named (ok : String → Prop) : Node α → Prop
  | file _ => True
  | dir children => NamedChildren ok children

def NamedChildren (ok : String → Prop) : List (String × Node α) → Prop
  | [] => True
  | (name, n) :: rest => ok name ∧ (∀ c ∈ rest, c.1 ≠ name) ∧ Named ok n ∧ NamedChildren ok rest

end

end Node

open Node

/-! ### Looking up -/

@[simp] theorem get_nil (n : Node α) : n.get [] = some n := by
  cases n <;> rfl

theorem get_cons (n : Node α) (name : String) (rest : Path) :
    n.get (name :: rest) = (n.child name).bind (·.get rest) := by
  rw [Node.get]
  cases n.child name <;> rfl

theorem get_append (n : Node α) (p q : Path) : n.get (p ++ q) = (n.get p).bind (·.get q) := by
  induction p generalizing n with
  | nil => simp
  | cons name rest ih =>
    rw [cons_append, get_cons, get_cons]
    cases n.child name with
    | none => rfl
    | some c => exact ih c

variable {name other : String} {ok : String → Prop}

theorem lookup_cons_ne (h : other ≠ name) (c : Node α) (children : List (String × Node α)) :
    ((name, c) :: children).lookup other = children.lookup other := by
  rw [lookup_cons, beq_eq_false_iff_ne.2 h]

theorem lookup_filter (other name : String) (children : List (String × Node α)) :
    (children.filter (·.1 ≠ name)).lookup other =
      if other = name then none else children.lookup other := by
  induction children with
  | nil => simp
  | cons c rest ih =>
    obtain ⟨k, c⟩ := c
    by_cases hk : k = name
    · subst hk
      rw [filter_cons_of_neg (by simp), ih]
      exact if_ctx_congr Iff.rfl (fun _ => rfl) fun ho => (lookup_cons_ne ho c rest).symm
    · rw [filter_cons_of_pos (by simpa using hk)]
      by_cases ho : other = k
      · subst ho
        rw [lookup_cons_self, lookup_cons_self, if_neg hk]
      · rw [lookup_cons_ne ho, lookup_cons_ne ho, ih]

theorem lookup_setChild_self (name : String) (x : Option (Node α))
    (children : List (String × Node α)) : (setChild name x children).lookup name = x := by
  cases x with
  | none => exact (lookup_filter name name children).trans (if_pos rfl)
  | some c => exact lookup_cons_self

theorem lookup_setChild_ne (h : other ≠ name) (x : Option (Node α))
    (children : List (String × Node α)) :
    (setChild name x children).lookup other = children.lookup other := by
  cases x with
  | none => exact (lookup_filter other name children).trans (if_neg h)
  | some c =>
    unfold setChild
    rw [lookup_cons_ne h, lookup_filter, if_neg h]

/-! ### Names -/

theorem named_of_lookup {c : Node α} {children : List (String × Node α)}
    (h : NamedChildren ok children) (hc : children.lookup name = some c) :
    ok name ∧ c.Named ok := by
  induction children with
  | nil => simp at hc
  | cons e rest ih =>
    obtain ⟨k, n⟩ := e
    by_cases hk : name = k
    · subst hk
      rw [lookup_cons_self] at hc
      cases hc
      exact ⟨h.1, h.2.2.1⟩
    · rw [lookup_cons_ne hk] at hc
      exact ih h.2.2.2 hc

variable {p q : Path} {n : Node α}

theorem named_of_get {n c : Node α} (h : n.Named ok) (hc : n.get p = some c) :
    ∀ name ∈ p, ok name := by
  induction p generalizing n with
  | nil => simp
  | cons name rest ih =>
    cases n with
    | file content => simp [get_cons, child] at hc
    | dir children =>
      rw [get_cons, child] at hc
      obtain ⟨m, hm, hrest⟩ := bind_eq_some_iff.1 hc
      obtain ⟨hname, hm'⟩ := named_of_lookup h hm
      intro other hother
      rcases mem_cons.1 hother with rfl | hin
      · exact hname
      · exact ih hm' hrest other hin

/-! ### Setting and removing -/

def Apart (p q : Path) : Prop := ¬ p <+: q ∧ ¬ q <+: p

instance (p q : Path) : Decidable (Apart p q) := inferInstanceAs (Decidable (_ ∧ _))

theorem Apart.symm (h : Apart p q) : Apart q p := ⟨h.2, h.1⟩

theorem Apart.ne_nil (h : Apart p q) : p ≠ [] := by
  rintro rfl
  exact h.1 nil_prefix

def IsDirAt (n : Node α) (p : Path) : Prop := ∃ d, n.get p = some d ∧ d.isDir = true

theorem isDirAt_dropLast (hp : p ≠ []) (h : n.get p ≠ none) :
    IsDirAt n p.dropLast := by
  rw [← dropLast_concat_getLast hp, get_append] at h
  cases hd : n.get p.dropLast with
  | none => simp [hd] at h
  | some d =>
    refine ⟨d, hd, ?_⟩
    cases d with
    | file content => simp [hd, get_cons, child] at h
    | dir children => rfl

theorem child_put_ne (n : Node α) (h : other ≠ name) (rest : Path) (x : Option (Node α)) :
    (n.put (name :: rest) x).child other = n.child other := by
  cases n with
  | file content => rfl
  | dir children =>
    cases rest with
    | nil => exact lookup_setChild_ne h x children
    | cons next rest =>
      rw [put]
      cases children.lookup name with
      | none => rfl
      | some c => exact lookup_setChild_ne h _ children

theorem child_put_self (n : Node α) (name next : String) (rest : Path) (x : Option (Node α)) :
    (n.put (name :: next :: rest) x).child name = (n.child name).map (·.put (next :: rest) x) := by
  cases n with
  | file content => rfl
  | dir children =>
    rw [put]
    cases hc : children.lookup name with
    | none => simp [child, hc]
    | some c => simp [child, hc, lookup_setChild_self]

/-- **What a `put` sets.** -/
theorem get_put_self (hp : p ≠ []) (h : IsDirAt n p.dropLast) (x : Option (Node α)) :
    (n.put p x).get p = x := by
  induction p generalizing n with
  | nil => exact absurd rfl hp
  | cons name rest ih =>
    cases rest with
    | nil =>
      obtain ⟨d, hd, hdir⟩ := h
      have hnd : n = d := some.inj (hd)
      subst hnd
      cases n with
      | file content => simp [isDir] at hdir
      | dir children =>
        rw [get_cons, put, child, lookup_setChild_self]
        cases x <;> simp
    | cons next rest =>
      obtain ⟨d, hd, hdir⟩ := h
      rw [dropLast_cons_of_ne_nil (by simp), get_cons] at hd
      rw [get_cons, child_put_self]
      cases hc : n.child name with
      | none => rw [hc] at hd; simp at hd
      | some c =>
        rw [hc] at hd
        exact ih (by simp) ⟨d, hd, hdir⟩

/-- What a `put` does to a place that is not at or below its path. -/
theorem get_put (h : ¬ p <+: q) (x : Option (Node α)) :
    (n.put p x).get q =
      (n.get q).map fun c => if q <+: p then c.put (p.drop q.length) x else c := by
  -- the `put` goes down the place that is read until the names part
  induction q generalizing n p with
  | nil => simp
  | cons other q ih =>
    cases p with
    | nil => exact absurd nil_prefix h
    | cons name rest =>
      rw [get_cons, get_cons]
      by_cases hname : other = name
      · subst hname
        have hrest : ¬ rest <+: q := fun hpq => h ((prefix_cons_inj other).2 hpq)
        cases rest with
        | nil => exact absurd nil_prefix hrest
        | cons next rest =>
          rw [child_put_self]
          cases n.child other with
          | none => rfl
          | some c => simpa [prefix_cons_inj] using ih hrest
      · rw [child_put_ne n hname]
        simp [cons_prefix_cons, hname]

/-- **What a `put` leaves alone.** -/
theorem get_put_apart (h : Apart p q) (x : Option (Node α)) :
    (n.put p x).get q = n.get q := by
  rw [get_put h.1]
  simp [h.2]

theorem isDir_put_self (n : Node α) (hp : p ≠ []) (x : Option (Node α)) :
    (n.put p x).isDir = n.isDir := by
  cases n with
  | file content =>
    cases p with
    | nil => exact absurd rfl hp
    | cons name rest => rfl
  | dir children =>
    match p with
    | [] => exact absurd rfl hp
    | [name] => rfl
    | name :: next :: rest =>
      rw [put]
      cases children.lookup name <;> rfl

/-- A directory that does not lie at or below the path stays one. -/
theorem isDir_put (h : ¬ p <+: q) (x : Option (Node α))
    (hq : IsDirAt n q) : IsDirAt (n.put p x) q := by
  obtain ⟨d, hd, hdir⟩ := hq
  unfold IsDirAt
  rw [get_put h, hd]
  refine ⟨_, rfl, ?_⟩
  split
  · rename_i hqp
    have hne : p.drop q.length ≠ [] := fun hnil =>
      h (hqp.eq_of_length_le (drop_eq_nil_iff.1 hnil) ▸ prefix_rfl)
    rw [isDir_put_self d hne, hdir]
  · exact hdir

/-! ### Renames -/

section Move

variable {source target : Path}

theorem get_move_target (h : Apart source target) (ht : IsDirAt n target.dropLast)
    (hs : ¬ source <+: target.dropLast) : (n.move source target).get target = n.get source :=
  get_put_self h.symm.ne_nil (isDir_put hs none ht) _

theorem get_move_source (h : Apart source target) (hs : IsDirAt n source.dropLast) :
    (n.move source target).get source = none := by
  unfold move
  rw [get_put_apart h.symm]
  exact get_put_self h.ne_nil hs none

theorem get_move_apart {q : Path} (hs : Apart source q) (ht : Apart target q) :
    (n.move source target).get q = n.get q := by
  unfold move
  rw [get_put_apart ht, get_put_apart hs]

theorem isDir_move {q : Path} (hs : ¬ source <+: q) (ht : ¬ target <+: q) (hq : IsDirAt n q) :
    IsDirAt (n.move source target) q :=
  isDir_put ht _ (isDir_put hs none hq)

end Move

/-! ### New files -/

namespace Node

/-- The directories above the path are made and the file is written; an exclusive one must be
new. -/
def addFile (exclusive : Bool) (content : α) : Path → Node α → Option (Node α)
  | [], _ => none
  | _ :: _, file _ => none
  | [name], dir children =>
    match children.lookup name with
    | none => some (dir (setChild name (some (file content)) children))
    | some (file _) =>
      if exclusive then none else some (dir (setChild name (some (file content)) children))
    | some (dir _) => none
  | name :: next :: rest, dir children =>
    (addFile exclusive content (next :: rest) ((children.lookup name).getD empty)).map fun c =>
      dir (setChild name (some c) children)

def children : Node α → List (String × Node α)
  | file _ => []
  | dir children => children

theorem dir_children (h : n.isDir = true) : dir n.children = n := by
  cases n with
  | file content => simp [isDir] at h
  | dir children => rfl

end Node

@[simp] theorem get_file_cons (content : α) (name : String) (rest : Path) :
    (file content).get (name :: rest) = none := by
  rfl

theorem get_dir_cons (children : List (String × Node α)) (name : String) (rest : Path) :
    (dir children).get (name :: rest) = (children.lookup name).bind (·.get rest) :=
  get_cons _ _ _

@[simp] theorem get_empty_ne_file (q : Path) (content : α) : empty.get q ≠ some (file content) := by
  cases q with
  | nil => simp [empty]
  | cons name rest => simp [empty, get_dir_cons]

variable {exclusive : Bool} {content : α} {n' : Node α}

theorem addFile_singleton (h : n.addFile exclusive content [name] = some n') :
    ∃ children, n = dir children ∧ n' = dir (setChild name (some (file content)) children) ∧
      (∀ c, children.lookup name = some c → exclusive = false ∧ ∃ old, c = file old) := by
  cases n with
  | file old => simp [addFile] at h
  | dir children =>
    refine ⟨children, rfl, ?_⟩
    rw [addFile] at h
    cases hc : children.lookup name with
    | none =>
      rw [hc] at h
      exact ⟨(some.inj h).symm, by simp⟩
    | some c =>
      rw [hc] at h
      cases c with
      | dir inner => simp at h
      | file old =>
        dsimp only at h
        split at h
        · simp at h
        · rename_i hx
          refine ⟨(some.inj h).symm, fun c hc => ⟨by simpa using hx, old, ?_⟩⟩
          exact (some.inj hc).symm

theorem addFile_cons {name next : String} {rest : Path}
    (h : n.addFile exclusive content (name :: next :: rest) = some n') :
    ∃ children c, n = dir children ∧
      ((children.lookup name).getD empty).addFile exclusive content (next :: rest) = some c ∧
      n' = dir (setChild name (some c) children) := by
  cases n with
  | file old => simp [addFile] at h
  | dir children =>
    obtain ⟨c, hc, rfl⟩ := map_eq_some_iff.1 h
    exact ⟨children, c, rfl, hc, rfl⟩

/-- **The files after one has been added.** -/
theorem get_addFile (h : n.addFile exclusive content p = some n') (q : Path) (b : α) :
    n'.get q = some (file b) ↔ (q = p ∧ b = content) ∨ (q ≠ p ∧ n.get q = some (file b)) := by
  induction p generalizing n n' q with
  | nil => simp [addFile] at h
  | cons name rest ih =>
    cases q with
    | nil =>
      have hdir : ∃ old new, n = dir old ∧ n' = dir new := by
        cases rest with
        | nil =>
          obtain ⟨children, rfl, rfl, -⟩ := addFile_singleton h
          exact ⟨_, _, rfl, rfl⟩
        | cons next rest =>
          obtain ⟨children, c, rfl, -, rfl⟩ := addFile_cons h
          exact ⟨_, _, rfl, rfl⟩
      obtain ⟨old, new, rfl, rfl⟩ := hdir
      simp
    | cons other q =>
      cases rest with
      | nil =>
        obtain ⟨children, rfl, rfl, hfile⟩ := addFile_singleton h
        rw [get_dir_cons, get_dir_cons]
        by_cases hname : other = name
        · subst hname
          rw [lookup_setChild_self]
          cases q with
          | nil => simp [eq_comm]
          | cons next q =>
            -- nothing is below a file, neither the old one nor the new one
            have hold : (children.lookup other).bind (·.get (next :: q)) = none := by
              cases hc : children.lookup other with
              | none => rfl
              | some c =>
                obtain ⟨-, old, rfl⟩ := hfile c hc
                exact get_file_cons old next q
            simp [hold]
        · rw [lookup_setChild_ne hname]
          simp [hname]
      | cons next rest =>
        obtain ⟨children, c, rfl, hc, rfl⟩ := addFile_cons h
        rw [get_dir_cons, get_dir_cons]
        by_cases hname : other = name
        · subst hname
          rw [lookup_setChild_self]
          have hbelow : ((children.lookup other).getD empty).get q = some (file b) ↔
              (children.lookup other).bind (·.get q) = some (file b) := by
            cases children.lookup other with
            | none => simp
            | some old => rfl
          simpa [hbelow] using ih hc q
        · rw [lookup_setChild_ne hname]
          simp [hname]

theorem addFile_new (h : n.addFile true content p = some n') (b : α) : n.get p ≠ some (file b) := by
  induction p generalizing n n' with
  | nil => simp [addFile] at h
  | cons name rest ih =>
    cases rest with
    | nil =>
      obtain ⟨children, rfl, -, hfile⟩ := addFile_singleton h
      rw [get_dir_cons]
      cases hc : children.lookup name with
      | none => simp
      | some c => exact absurd (hfile c hc).1 (by simp)
    | cons next rest =>
      obtain ⟨children, c, rfl, hc, -⟩ := addFile_cons h
      rw [get_dir_cons]
      cases hl : children.lookup name with
      | none => simp
      | some old =>
        rw [hl] at hc
        exact ih hc

theorem isDir_addFile (h : n.addFile exclusive content p = some n') : n'.isDir = true := by
  cases p with
  | nil => simp [addFile] at h
  | cons name rest =>
    cases rest with
    | nil =>
      obtain ⟨children, -, rfl, -⟩ := addFile_singleton h
      rfl
    | cons next rest =>
      obtain ⟨children, c, -, -, rfl⟩ := addFile_cons h
      rfl

end FileTree
