import JackToolchain.Build
import JackToolchain.Proofs.Disk.FileTree
import Mathlib.Data.List.Nodup

/-!
# Storing artifacts

What a directory holds once files have been written into it.

## Main Definitions

* `store` — files written one after the other.
* `Stored` — the files have been written, and everything else is as it was.

## Main Statements

* `stored_of_store` — files with proper names are stored, if they are written.
* `Stored.read` — each of them is read back, if their names are different.
-/

namespace JackToolchain

open Disk FileTree

/-- Files written into a directory one after the other. -/
def store (directory : Path) (tree : FileTree) (artifacts : List Artifact) : Except DiskError FileTree :=
  artifacts.foldlM
    (fun tree artifact => tree.write (directory.join artifact.name) artifact.content) tree

/-- **Stored files.**  There is a file of each name, with the content of the last one of that name; what
stands elsewhere is as it was. -/
structure Stored (directory : Path) (artifacts : List Artifact) (before after : FileTree) : Prop where
  keeps : KeepsDirectories before after
  files : ∀ artifact ∈ artifacts, ∃ last ∈ artifacts, last.name = artifact.name ∧
    after.read (directory.join artifact.name) = .ok last.content
  others : ∀ location, (∀ artifact ∈ artifacts,
      after.resolve (directory.join artifact.name) ≠ .ok location) →
    after.node? location = before.node? location

variable {directory : Path} {artifacts : List Artifact} {before after : FileTree}

/-- **Files that are written** one after the other are stored. -/
theorem stored_of_store (names : ∀ artifact ∈ artifacts, IsFileName artifact.name)
    (done : store directory before artifacts = .ok after) :
    Stored directory artifacts before after := by
  induction artifacts generalizing before with
  | nil =>
      obtain rfl := Except.ok.inj done
      exact ⟨.refl before, List.forall_mem_nil _, fun _ _ => rfl⟩
  | cons artifact rest ih =>
      obtain ⟨isName, others⟩ := List.forall_mem_cons.mp names
      obtain ⟨between, written, done⟩ := foldlM_cons_eq_ok done
      obtain ⟨location, resolved, free, rfl⟩ := write_eq_ok written
      have behind := ih others done
      have keeps := (KeepsDirectories.put free (.file artifact.content.toUTF8)).trans behind.keeps
      have resolvedAfter := keeps.resolve resolved
      refine ⟨keeps, List.forall_mem_cons.mpr ⟨?_, fun other member => ?_⟩, fun elsewhere apart => ?_⟩
      · by_cases again : ∃ other ∈ rest, other.name = artifact.name
        · obtain ⟨other, member, same⟩ := again
          obtain ⟨last, inRest, lastName, read⟩ := behind.files other member
          exact ⟨last, List.mem_cons_of_mem _ inRest, lastName.trans same, same ▸ read⟩
        · -- no file behind this one has its name, so none is written over it
          have apart : ∀ other ∈ rest, after.resolve (directory.join other.name) ≠ .ok location := by
            intro other member same
            have last := getLast?_of_resolve_join isName resolved
            rw [getLast?_of_resolve_join (others other member) same] at last
            exact again ⟨other, member, Option.some.inj last⟩
          refine ⟨artifact, List.mem_cons_self, rfl, read_of_file resolvedAfter ?_⟩
          rw [behind.others location apart]
          exact node?_put_self (ne_nil_of_node? free) _
      · obtain ⟨last, inRest, found⟩ := behind.files other member
        exact ⟨last, List.mem_cons_of_mem _ inRest, found⟩
      · obtain ⟨here, apartRest⟩ := List.forall_mem_cons.mp apart
        rw [behind.others elsewhere apartRest]
        refine node?_put_of_ne ?_ _
        rintro rfl
        exact here resolvedAfter

/-- **Different names** are read back. -/
theorem Stored.read (stored : Stored directory artifacts before after)
    (distinct : (artifacts.map (·.name)).Nodup) {artifact : Artifact} (member : artifact ∈ artifacts) :
    after.read (directory.join artifact.name) = .ok artifact.content := by
  obtain ⟨last, inArtifacts, same, read⟩ := stored.files artifact member
  obtain rfl := List.inj_on_of_nodup_map distinct inArtifacts member same
  exact read

end JackToolchain
