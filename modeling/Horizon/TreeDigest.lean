/-
**Digests of release trees.**

`_tree_digest` feeds SHA-256 with the members of a tree in the order of their paths: the kind, the
path, the mode if it counts, and the target of a link or the digest of a file, each before a NUL.
A digest may hold a NUL itself; its length tells where it ends.

A tree is what `rglob` lists below its root.  A path is the bytes that the system has, which are
what `encode` makes of its text; in UTF-8 both are ordered alike.

Main results:

* `TreeDigest.members_of_fed` — **trees that feed the same bytes have the same members**.
-/

import Mathlib.Data.List.Sort

namespace Horizon.TreeDigest

abbrev Bytes := List UInt8

/-- A path or a target: the system allows no NUL in it. -/
abbrev PathBytes := { b : Bytes // 0 ∉ b }

/-- What `lstat` shows, with the target or the content. -/
inductive Member (γ : Type)
  | link (target : PathBytes)
  | directory
  | regular (content : γ)
  | other

structure Entry (γ : Type) where
  relative : PathBytes
  /-- `S_IMODE`. -/
  mode : ℕ
  member : Member γ

structure Tree where
  /-- The mode of the root. -/
  mode : ℕ
  below : List (Entry Bytes)

/-- `[root, *root.rglob("*")]`. -/
def Tree.members (t : Tree) : List (Entry Bytes) :=
  ⟨⟨[46], by decide⟩, t.mode, .directory⟩ :: t.below

abbrev Digest := Vector UInt8 32

/-- `encode("utf-8")` raises if the bytes are no UTF-8. -/
def encode (b : Bytes) : Option Bytes :=
  if (ByteArray.mk b.toArray).validateUTF8 then some b else none

/-- `str(n).encode("ascii")`. -/
def ascii (n : ℕ) : Bytes := (Nat.toDigits 10 n).map fun c => c.toNat.toUInt8

variable (sha256 : Bytes → Digest) (includeMode : Bool)

def Member.kindPayload : Member Bytes → Option (UInt8 × Bytes)
  | link target => (encode target).map (108, ·)
  | directory => some (100, [])
  | regular content => some (102, (sha256 content).toList)
  | other => none

/-- A file is told by its digest. -/
def Member.seen : Member Bytes → Member Digest
  | link target => .link target
  | directory => .directory
  | regular content => .regular (sha256 content)
  | other => .other

namespace Entry

def update (e : Entry Bytes) : Option Bytes := do
  let (kind, payload) ← e.member.kindPayload sha256
  let relative ← encode e.relative
  return kind :: 0 :: (relative ++ 0 :: ((if includeMode then ascii e.mode ++ [0] else []) ++
    (payload ++ [0])))

def key (e : Entry Bytes) : Bytes := if e.relative.1 = [46] then [] else e.relative

/-- What is to be told apart: not the mode, unless it counts. -/
def seen (e : Entry Bytes) : Entry Digest :=
  ⟨e.relative, if includeMode then e.mode else 0, e.member.seen sha256⟩

end Entry

def feed : List (Entry Bytes) → Option Bytes
  | [] => some []
  | e :: rest => do return (← e.update sha256 includeMode) ++ (← feed rest)

/-- The bytes that `_tree_digest` feeds to SHA-256. -/
def fed (t : Tree) : Option Bytes :=
  feed sha256 includeMode (t.members.insertionSort fun a b => a.key ≤ b.key)

def treeDigest (t : Tree) : Option Digest := (fed sha256 includeMode t).map sha256

theorem append_nul_inj {a b u v : Bytes} (ha : 0 ∉ a) (hb : 0 ∉ b)
    (h : a ++ 0 :: u = b ++ 0 :: v) : a = b ∧ u = v := by
  have htake : ∀ {c w : Bytes}, 0 ∉ c → (c ++ 0 :: w).takeWhile (· ≠ 0) = c := by
    intro c w hc
    rw [List.takeWhile_append_of_pos fun x hx => decide_eq_true (ne_of_mem_of_not_mem hx hc)]
    simp
  obtain rfl : a = b := by rw [← htake (w := u) ha, h, htake hb]
  exact ⟨rfl, (List.cons.inj (List.append_cancel_left h)).2⟩

theorem encode_eq {b c : Bytes} (h : encode b = some c) : c = b := by
  rw [encode] at h
  split at h
  · exact (Option.some.inj h).symm
  · cases h

/-- A digit is told by its byte. -/
theorem digit_byte {n : ℕ} {c : Char} (hc : c ∈ Nat.toDigits 10 n) :
    c.toNat.toUInt8.toNat = c.toNat ∧ c.toNat ≠ 0 := by
  have hdigit := Nat.isDigit_of_mem_toDigits (by decide) (by decide) hc
  simp only [Char.isDigit, Bool.and_eq_true, decide_eq_true_eq] at hdigit
  have hlow : 48 ≤ c.toNat := hdigit.1
  have hhigh : c.toNat ≤ 57 := hdigit.2
  exact ⟨Nat.mod_eq_of_lt (by omega), by omega⟩

theorem nul_notMem_ascii (n : ℕ) : 0 ∉ ascii n := by
  intro h
  obtain ⟨c, hc, hzero⟩ := List.mem_map.1 h
  obtain ⟨hbyte, hne⟩ := digit_byte hc
  rw [hzero] at hbyte
  exact hne hbyte.symm

theorem ascii_inj {m n : ℕ} (h : ascii m = ascii n) : m = n := by
  have hread : ∀ k, (ascii k).map (fun b => Char.ofNat b.toNat) = Nat.toDigits 10 k := by
    intro k
    rw [ascii, List.map_map, List.map_congr_left, List.map_id]
    intro c hc
    rw [Function.comp_apply, (digit_byte hc).1, Char.ofNat_toNat, id]
  rw [← Nat.ofDigitChars_ten_toDigits (n := m), ← hread m, h, hread n,
    Nat.ofDigitChars_ten_toDigits]

section Decoding

variable {H : Bytes → Digest} {m : Bool} {b u v : Bytes} {e e' : Entry Bytes}
  {l l' : List (Entry Bytes)}

/-- A target ends at the NUL, a digest after 32 bytes. -/
theorem Member.seen_of_payload {x y : Member Bytes} {kind : UInt8} {p q : Bytes}
    (hx : x.kindPayload H = some (kind, p)) (hy : y.kindPayload H = some (kind, q))
    (h : p ++ 0 :: u = q ++ 0 :: v) : x.seen H = y.seen H ∧ u = v := by
  -- members of one kind remain: two links, or two files
  rcases x with s | _ | content | _ <;> rcases y with t | _ | content' | _ <;>
    simp [kindPayload] at hx hy <;> try grind
  · rw [encode_eq hx.1, encode_eq hy.1] at h
    obtain ⟨htarget, huv⟩ := append_nul_inj s.2 t.2 h
    exact ⟨by rw [Subtype.ext htarget], huv⟩
  · rw [← hx.2, ← hy.2] at h
    obtain ⟨hdigest, hrest⟩ := List.append_inj h (by simp)
    exact ⟨by rw [seen, seen, Vector.toList_inj.1 hdigest], (List.cons.inj hrest).2⟩

theorem update_eq (h : e.update H m = some b) : ∃ kind p, e.member.kindPayload H = some (kind, p) ∧
    b = kind :: 0 :: (e.relative.1 ++ 0 ::
      ((if m then ascii e.mode ++ [0] else []) ++ (p ++ [0]))) := by
  simp only [Entry.update, Option.bind_eq_bind, Option.bind_eq_some_iff, Option.pure_def,
    Option.some.injEq, Prod.exists] at h
  obtain ⟨kind, p, hkind, relative, hrelative, rfl⟩ := h
  exact ⟨kind, p, hkind, by rw [encode_eq hrelative]⟩

/-- What is fed for a member tells the member, and where the next one begins. -/
theorem seen_of_update {b' : Bytes} (hb : e.update H m = some b) (hb' : e'.update H m = some b')
    (h : b ++ u = b' ++ v) : e.seen H m = e'.seen H m ∧ u = v := by
  obtain ⟨kind, p, hkind, rfl⟩ := update_eq hb
  obtain ⟨kind', p', hkind', rfl⟩ := update_eq hb'
  simp only [List.cons_append, List.append_assoc, List.cons.injEq, true_and] at h
  obtain ⟨rfl, h⟩ := h
  obtain ⟨hpath, h⟩ := append_nul_inj e.relative.2 e'.relative.2 h
  have hmode : (if m then e.mode else 0) = (if m then e'.mode else 0) ∧
      p ++ 0 :: u = p' ++ 0 :: v := by
    cases m with
    | false => exact ⟨rfl, by simpa using h⟩
    | true =>
      obtain ⟨hmode, hrest⟩ := append_nul_inj (nul_notMem_ascii e.mode)
        (nul_notMem_ascii e'.mode) (by simpa using h)
      exact ⟨ascii_inj hmode, hrest⟩
  obtain ⟨hmember, huv⟩ := Member.seen_of_payload hkind hkind' hmode.2
  exact ⟨by rw [Entry.seen, Entry.seen, hmode.1, Subtype.ext hpath, hmember], huv⟩

theorem feed_cons (h : feed H m (e :: l) = some b) :
    b ≠ [] ∧ ∃ c r, e.update H m = some c ∧ feed H m l = some r ∧ b = c ++ r := by
  simp only [feed, Option.bind_eq_bind, Option.bind_eq_some_iff, Option.pure_def,
    Option.some.injEq] at h
  obtain ⟨c, hc, r, hr, rfl⟩ := h
  refine ⟨?_, c, r, hc, hr, rfl⟩
  obtain ⟨_, _, _, rfl⟩ := update_eq hc
  simp

/-- Unique decoding, member by member. -/
theorem seen_of_feed (h : feed H m l = some b) (h' : feed H m l' = some b) :
    l.map (Entry.seen H m) = l'.map (Entry.seen H m) := by
  induction l generalizing l' b with
  | nil =>
    obtain rfl := Option.some.inj h
    cases l' with
    | nil => rfl
    | cons e' l' => exact absurd rfl (feed_cons h').1
  | cons e l ih =>
    obtain ⟨hne, c, r, hc, hr, rfl⟩ := feed_cons h
    cases l' with
    | nil => exact absurd (Option.some.inj h').symm hne
    | cons e' l' =>
      obtain ⟨_, c', r', hc', hr', heq⟩ := feed_cons h'
      obtain ⟨hseen, rfl⟩ := seen_of_update hc hc' heq
      rw [List.map_cons, List.map_cons, hseen, ih hr hr']

end Decoding

/-- **Trees that feed the same bytes have the same members**: the same paths, kinds, targets and
file digests, and the same modes if they count. -/
theorem members_of_fed {t t' : Tree} {b : Bytes} (h : fed sha256 includeMode t = some b)
    (h' : fed sha256 includeMode t' = some b) :
    (t.members.map (Entry.seen sha256 includeMode)).Perm
      (t'.members.map (Entry.seen sha256 includeMode)) := by
  have hsorted : ∀ t : Tree, ((t.members.insertionSort fun a b => a.key ≤ b.key).map
      (Entry.seen sha256 includeMode)).Perm (t.members.map (Entry.seen sha256 includeMode)) :=
    fun t => (List.perm_insertionSort _ _).map _
  exact (hsorted t).symm.trans (seen_of_feed h h' ▸ hsorted t')

/-- A directory with a file in it, and a link to the file; the digest of the file has NULs only. -/
def sampleBelow : List (Entry Bytes) :=
  [⟨⟨[97], by decide⟩, 0o755, .directory⟩, ⟨⟨[97, 47, 102], by decide⟩, 0o644, .regular [0]⟩,
    ⟨⟨[108], by decide⟩, 0o777, .link ⟨[97, 47, 102], by decide⟩⟩]

/-- Two listings of one tree, and another mode of its root that does not count. -/
theorem members_of_fed_listings :
    let digest : Bytes → Digest := fun b => .replicate 32 (b.headD 1)
    (fed digest false ⟨0o755, sampleBelow⟩).isSome ∧
      ((Tree.members ⟨0o755, sampleBelow⟩).map (Entry.seen digest false)).Perm
        ((Tree.members ⟨0o700, sampleBelow.reverse⟩).map (Entry.seen digest false)) := by
  intro digest
  have hsome : (fed digest false ⟨0o755, sampleBelow⟩).isSome := by decide +kernel
  have hsame : fed digest false ⟨0o755, sampleBelow⟩ = fed digest false
      ⟨0o700, sampleBelow.reverse⟩ := by decide +kernel
  obtain ⟨b, hb⟩ := Option.isSome_iff_exists.1 hsome
  exact ⟨hsome, members_of_fed digest false hb (hsame ▸ hb)⟩

end Horizon.TreeDigest
