/-
A file system with files that are only appended to, as far as a program uses it.

- `Files`: the operations, and the contents of a file as a specification sees them;
- `Files.Lawful`: what a program may rely on. An open may fail, and then the disk is as before; one that succeeds makes
  the file if there is none;
- `Files.table`: an instance, a finite table of names.
-/
import Mathlib.Data.Set.Finite.Basic
import Mathlib.Tactic

namespace NuStars

/-- the operations on a disk -/
structure Files where
  Disk : Type
  existsFile : Disk → List Char → Bool
  /-- open for writing at the end -/
  openWrite : Disk → List Char → Option Disk
  write : Disk → List Char → List UInt8 → Disk
  /-- the contents of a file -/
  read : Disk → List Char → Option (List UInt8)

namespace Files

structure Lawful (F : Files) : Prop where
  exists_iff : ∀ d n, F.existsFile d n = true ↔ ∃ bytes, F.read d n = some bytes
  open_self : ∀ d n d', F.openWrite d n = some d' → F.read d' n = some ((F.read d n).getD [])
  open_other : ∀ d n d' m, F.openWrite d n = some d' → m ≠ n → F.read d' m = F.read d m
  write_self : ∀ d n bytes new, F.read d n = some bytes → F.read (F.write d n new) n = some (bytes ++ new)
  write_other : ∀ d n new m, m ≠ n → F.read (F.write d n new) m = F.read d m
  finite : ∀ d, Set.Finite {n | F.existsFile d n = true}

/-! ## Tables -/

/-- a finite table of files -/
structure Table where
  file : List Char → Option (List UInt8)
  finite : Set.Finite {n | (file n).isSome = true}

namespace Table

def empty : Table := ⟨fun _ => none, by simp⟩

theorem set_finite (t : Table) (n : List Char) (bytes : Option (List UInt8)) :
    Set.Finite {m | (Function.update t.file n bytes m).isSome = true} := by
  refine (t.finite.insert n).subset ?_
  intro m hm
  rcases eq_or_ne m n with rfl | hne
  · exact Set.mem_insert _ _
  · rw [Set.mem_ofPred_eq, Function.update_of_ne hne] at hm
    exact Set.mem_insert_of_mem n hm

def set (t : Table) (n : List Char) (bytes : Option (List UInt8)) : Table :=
  ⟨Function.update t.file n bytes, t.set_finite n bytes⟩

end Table

/-- a disk on which every open succeeds -/
def table : Files where
  Disk := Table
  existsFile t n := (t.file n).isSome
  openWrite t n := some (t.set n (some ((t.file n).getD [])))
  write t n new := t.set n ((t.file n).map (· ++ new))
  read t n := t.file n

theorem table_lawful : table.Lawful where
  exists_iff _ _ := Option.isSome_iff_exists
  open_self t n d' h := by
    obtain rfl := Option.some.inj h
    exact Function.update_self n _ t.file
  open_other t n d' m h hne := by
    obtain rfl := Option.some.inj h
    exact Function.update_of_ne hne _ t.file
  write_self t n bytes new h := by
    have hset : table.read (table.write t n new) n = (table.read t n).map (· ++ new) :=
      Function.update_self n _ t.file
    rw [hset, h, Option.map_some]
  write_other t n new m hne := Function.update_of_ne hne _ t.file
  finite t := t.finite

end Files

end NuStars
