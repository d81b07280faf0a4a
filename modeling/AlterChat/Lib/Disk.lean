import AlterChat.Lib.Paths
import AlterChat.Lib.Table
import AlterChat.Lib.Codec

/-!
# Disks

The files of a disk by their places. A directory is there as soon as a file lies below it. What an
operating system answers to the calls of a program is a parameter (`FileSystem`); what a write
leaves follows from the answer (`put`).

* §1 disks, directories, writing;
* §2 `Touches` -- what may differ between two disks;
* §3 removing a tree as a program does it, entry by entry; `lookup_remove` -- what is left.
-/

namespace Lib

open Paths

/-! ## 1. Files and directories -/

/-- The files by place, each with what it holds. -/
abbrev Disk (C : Type) := Table Location C

/-- What becomes of a write: nothing; a file that holds only so much; the file. -/
inductive Written where
  | refused (error : String)
  | broken (left : Bytes) (error : String)
  | written
  deriving DecidableEq

/-- The file is there, or its content is gone. -/
def Written.touches : Written → Bool
  | .refused _ => false
  | .broken .. => true
  | .written => true

def Written.error : Written → Option String
  | .refused e => some e
  | .broken _ e => some e
  | .written => none

/-- What the operating system answers, by path. -/
structure FileSystem where
  createDirAll : String → Bool
  /-- The error of a read, if it fails. -/
  read : String → Option String
  write : String → Written

/-- A system that does what it is told. -/
def FileSystem.willing : FileSystem where
  createDirAll _ := true
  read _ := none
  write _ := .written

/-- A system that writes nothing. -/
def FileSystem.readOnly : FileSystem where
  createDirAll _ := false
  read _ := none
  write _ := .refused "Read-only file system"

namespace Disk

variable {C : Type}

def get (disk : Disk C) (path : String) : Option C := disk.lookup (place path)

/-- A disk after a write; `ofBytes` is what a broken file holds. -/
def put (disk : Disk C) (ofBytes : Bytes → C) (answer : Written) (path : String)
    (content : C) : Disk C :=
  match answer with
  | .refused _ => disk
  | .broken left _ => disk.insert (place path) (ofBytes left)
  | .written => disk.insert (place path) content

/-! ## 2. What differs -/

/-- **Between two disks only certain places differ**, and no file is gone. -/
structure Touches (P : Location → Prop) (disk disk' : Disk C) : Prop where
  frame : ∀ q, ¬ P q → disk'.lookup q = disk.lookup q
  kept : ∀ q ∈ disk, q ∈ disk'

variable {P Q : Location → Prop} {disk disk' disk'' : Disk C}

theorem Touches.refl (P : Location → Prop) (disk : Disk C) : Touches P disk disk :=
  ⟨fun _ _ => rfl, fun _ hq => hq⟩

theorem Touches.trans (h₁ : Touches P disk disk') (h₂ : Touches P disk' disk'') :
    Touches P disk disk'' :=
  ⟨fun q hq => (h₂.frame q hq).trans (h₁.frame q hq), fun q hq => h₂.kept q (h₁.kept q hq)⟩

theorem Touches.mono (h : Touches P disk disk') (hle : ∀ q, P q → Q q) : Touches Q disk disk' :=
  ⟨fun q hq => h.frame q fun hp => hq (hle q hp), h.kept⟩

/-- A file that is new lies at a place that may differ. -/
theorem Touches.new (h : Touches P disk disk') {q : Location} (hq : q ∈ disk') :
    q ∈ disk ∨ P q := by
  by_cases hp : P q
  · exact .inr hp
  · left
    rw [← AList.lookup_isSome, ← h.frame q hp]
    exact AList.lookup_isSome.mpr hq

theorem touches_insert (disk : Disk C) (p : Location) (content : C) :
    Touches (fun q => q = p) disk (disk.insert p content) :=
  ⟨fun _ hq => AList.lookup_insert_ne hq, fun _ hq => (AList.mem_insert disk).mpr (.inr hq)⟩

/-- **A write touches one place**, and none if it is refused. -/
theorem touches_put (disk : Disk C) (ofBytes : Bytes → C) (answer : Written) (path : String)
    (content : C) :
    Touches (fun q => answer.touches = true ∧ q = place path) disk
      (disk.put ofBytes answer path content) := by
  cases answer with
  | refused e => exact .refl _ disk
  | broken left e =>
    exact (touches_insert disk (place path) (ofBytes left)).mono fun _ hq => ⟨rfl, hq⟩
  | written => exact (touches_insert disk (place path) content).mono fun _ hq => ⟨rfl, hq⟩

theorem get_put_written (disk : Disk C) (ofBytes : Bytes → C) (path : String) (content : C) :
    (disk.put ofBytes .written path content).get path = some content := AList.lookup_insert disk

/-! ## 3. Removing a tree -/

/-- The first name on the way from a directory to a place below it. -/
def entryOf (p q : Location) : Option String :=
  if q.anchor = p.anchor ∧ p.names <+: q.names then q.names[p.names.length]? else none

/-- The entries of a directory. -/
def entries (disk : Disk C) (p : Location) : List String := (disk.keys.filterMap (entryOf p)).dedup

/-- An entry of a directory. -/
def child (p : Location) (name : String) : Location := { p with names := p.names ++ [name] }

/-- A file is erased; a directory entry by entry, and then itself. -/
def removeTree : Nat → Disk C → Location → Disk C
  | 0, disk, p => disk.erase p
  | fuel + 1, disk, p =>
    if disk.entries p = [] then disk.erase p
    else
      ((disk.entries p).foldl (fun disk name => removeTree fuel disk (child p name)) disk).erase p

/-- How many names the longest place has. -/
def depth (disk : Disk C) : Nat := (disk.keys.map fun q => q.names.length).foldr max 0

/-- What lies at a place is removed. -/
def remove (disk : Disk C) (p : Location) : Disk C := removeTree disk.depth disk p

theorem inside_child_iff {p q : Location} {name : String} :
    Inside (child p name) q ↔ entryOf p q = some name := by
  unfold Inside entryOf child
  constructor
  · intro h
    obtain ⟨hanchor, rest, hrest⟩ := h
    rw [List.append_assoc] at hrest
    rw [if_pos ⟨hanchor, ⟨_, hrest⟩⟩, ← hrest, List.getElem?_append_right (Nat.le_refl _),
      Nat.sub_self]
    rfl
  · intro h
    split at h
    · next hin =>
      obtain ⟨hanchor, rest, hrest⟩ := hin
      refine ⟨hanchor, ?_⟩
      rw [← hrest, List.getElem?_append_right (Nat.le_refl _), Nat.sub_self] at h
      cases rest with
      | nil => cases h
      | cons n rest =>
        cases h
        exact ⟨rest, by rw [List.append_assoc, ← hrest]; rfl⟩
    · cases h

/-- **What lies inside a place**: the place, or what lies inside one of its entries. -/
theorem inside_iff {p q : Location} : Inside p q ↔ q = p ∨ ∃ name, Inside (child p name) q := by
  constructor
  · intro h
    obtain ⟨hanchor, rest, hrest⟩ := h
    cases rest with
    | nil =>
      left
      cases p
      cases q
      simp only [List.append_nil] at hrest
      cases hanchor
      cases hrest
      rfl
    | cons n rest => exact .inr ⟨n, hanchor, rest, by rw [← hrest, child, List.append_assoc]; rfl⟩
  · intro h
    rcases h with rfl | ⟨name, h⟩
    · exact .refl q
    · exact (show Inside p (child p name) from ⟨rfl, List.prefix_append _ _⟩).trans h

theorem mem_entries {disk : Disk C} {p : Location} {name : String} :
    name ∈ disk.entries p ↔ ∃ q ∈ disk, Inside (child p name) q := by
  unfold entries
  rw [List.mem_dedup, List.mem_filterMap]
  exact exists_congr fun q => and_congr Iff.rfl inside_child_iff.symm

theorem lookup_erase_eq (disk : Disk C) (p q : Location) :
    (disk.erase p).lookup q = if q = p then none else disk.lookup q := by
  by_cases h : q = p
  · subst h
    rw [if_pos rfl]
    exact AList.lookup_erase q disk
  · rw [if_neg h]
    exact AList.lookup_erase_ne h

/-- Where nothing lies below a place, erasing it removes all that lies inside. -/
theorem lookup_erase_flat {disk : Disk C} {p : Location}
    (h : ∀ name, ∀ r ∈ disk, ¬ Inside (child p name) r) (q : Location) :
    (disk.erase p).lookup q = if Inside p q then none else disk.lookup q := by
  rw [lookup_erase_eq]
  by_cases hin : Inside p q
  · rw [if_pos hin]
    rcases inside_iff.mp hin with rfl | ⟨name, hchild⟩
    · exact if_pos rfl
    · split
      · rfl
      · exact AList.lookup_eq_none.mpr fun hq => h name q hq hchild
  · rw [if_neg hin, if_neg]
    intro hq
    exact hin (hq ▸ .refl p)

/-- The fuel reaches as deep as the tree. -/
def Reaches (fuel : Nat) (disk : Disk C) (p : Location) : Prop :=
  ∀ q ∈ disk, Inside p q → q.names.length ≤ p.names.length + fuel

/-- **Removing entries one after the other.** -/
theorem lookup_foldl {step : Disk C → String → Disk C} {keeps : Disk C → Prop} {p : Location}
    (hstep : ∀ d name, keeps d → keeps (step d name) ∧
      ∀ q, (step d name).lookup q = if Inside (child p name) q then none else d.lookup q)
    (names : List String) {disk : Disk C} (h : keeps disk) (q : Location) :
    (names.foldl step disk).lookup q =
      if (names.any fun name => decide (Inside (child p name) q)) = true then none
      else disk.lookup q := by
  induction names generalizing disk with
  | nil => rfl
  | cons name names ih =>
    obtain ⟨hnext, hlookup⟩ := hstep disk name h
    rw [List.foldl_cons, ih hnext, hlookup, List.any_cons]
    by_cases hin : Inside (child p name) q
    · simp [hin]
    · simp [hin]

/-- **What is left of a disk without a tree**, where the fuel reaches as deep as the tree. -/
theorem lookup_removeTree (fuel : Nat) {disk : Disk C} {p : Location} (hfuel : Reaches fuel disk p)
    (q : Location) :
    (removeTree fuel disk p).lookup q = if Inside p q then none else disk.lookup q := by
  induction fuel generalizing disk p q with
  | zero =>
    refine lookup_erase_flat (fun name r hr hchild => ?_) q
    have hlen := hfuel r hr (inside_iff.mpr (.inr ⟨name, hchild⟩))
    have hle := hchild.2.length_le
    simp only [child, List.length_append, List.length_singleton] at hle
    omega
  | succ fuel ih =>
    unfold removeTree
    split
    · next hempty =>
      refine lookup_erase_flat (fun name r hr hchild => ?_) q
      have hmem := mem_entries.mpr ⟨r, hr, hchild⟩
      rw [hempty] at hmem
      exact absurd hmem List.not_mem_nil
    · have hstep : ∀ (d : Disk C) (name : String), Reaches (fuel + 1) d p →
          Reaches (fuel + 1) (removeTree fuel d (child p name)) p ∧ ∀ q,
            (removeTree fuel d (child p name)).lookup q =
              if Inside (child p name) q then none else d.lookup q := by
        intro d name hd
        have hone := @ih d (child p name) (fun r hr hin => by
          have hlen := hd r hr (inside_iff.mpr (.inr ⟨name, hin⟩))
          simp only [child, List.length_append, List.length_singleton]
          omega)
        refine ⟨fun r hr hin => hd r ?_ hin, hone⟩
        -- nothing is there that was not there
        by_contra hno
        have hr' := AList.lookup_isSome.mpr hr
        rw [hone r, AList.lookup_eq_none.mpr hno, ite_self] at hr'
        cases hr'
      rw [lookup_erase_eq, lookup_foldl hstep _ hfuel]
      by_cases hin : Inside p q
      · rw [if_pos hin]
        rcases inside_iff.mp hin with rfl | ⟨name, hchild⟩
        · exact if_pos rfl
        · by_cases hq : q ∈ disk
          · rw [if_pos (List.any_eq_true.mpr
              ⟨name, mem_entries.mpr ⟨q, hq, hchild⟩, decide_eq_true hchild⟩), ite_self]
          · rw [AList.lookup_eq_none.mpr hq, ite_self, ite_self]
      · rw [if_neg hin, if_neg, if_neg]
        · intro hany
          obtain ⟨name, -, hchild⟩ := List.any_eq_true.mp hany
          exact hin (inside_iff.mpr (.inr ⟨name, of_decide_eq_true hchild⟩))
        · intro hq
          exact hin (hq ▸ .refl p)

theorem length_le_depth {disk : Disk C} {q : Location} (h : q ∈ disk) :
    q.names.length ≤ disk.depth := by
  have hmem : q ∈ disk.keys := h
  unfold depth
  generalize disk.keys = keys at hmem
  induction keys with
  | nil => cases hmem
  | cons r keys ih =>
    rcases List.mem_cons.mp hmem with rfl | hmem
    · exact Nat.le_max_left _ _
    · exact Nat.le_trans (ih hmem) (Nat.le_max_right _ _)

/-- **What is left after a removal**: everything that does not lie inside. -/
theorem lookup_remove (disk : Disk C) (p q : Location) :
    (disk.remove p).lookup q = if Inside p q then none else disk.lookup q :=
  lookup_removeTree disk.depth (fun _ hr _ => Nat.le_trans (length_le_depth hr)
    (Nat.le_add_left _ _)) q

/-- Several places, one after the other. -/
def removeAll (disk : Disk C) (places : List Location) : Disk C := places.foldl remove disk

/-- **What is left after several removals.** -/
theorem lookup_removeAll (disk : Disk C) (places : List Location) (q : Location) :
    (disk.removeAll places).lookup q =
      if (places.any fun p => decide (Inside p q)) = true then none else disk.lookup q := by
  unfold removeAll
  induction places generalizing disk with
  | nil => rfl
  | cons p places ih =>
    rw [List.foldl_cons, ih, lookup_remove, List.any_cons]
    by_cases hin : Inside p q
    · simp [hin]
    · simp [hin]

theorem mem_removeAll {disk : Disk C} {places : List Location} {q : Location} :
    q ∈ disk.removeAll places ↔ q ∈ disk ∧ ∀ p ∈ places, ¬ Inside p q := by
  rw [← AList.lookup_isSome, lookup_removeAll, ← AList.lookup_isSome]
  by_cases hany : (places.any fun p => decide (Inside p q)) = true
  · obtain ⟨p, hp, hin⟩ := List.any_eq_true.mp hany
    rw [if_pos hany]
    exact ⟨fun h => (by cases h), fun h => absurd (of_decide_eq_true hin) (h.2 p hp)⟩
  · rw [if_neg hany]
    exact ⟨fun h => ⟨h, fun p hp hin => hany (List.any_eq_true.mpr ⟨p, hp, decide_eq_true hin⟩)⟩,
      fun h => h.1⟩

end Disk

end Lib
