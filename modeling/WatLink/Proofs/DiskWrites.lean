import WatLink.Proofs.KeyedLists
import WatLink.Store.Disk

/-!
# Writing files

A path can only be followed through directories, so whatever it leads to stands in
a directory already.  Writing a file there therefore adds no directory: every path
leads where it led before, and only the one file has other contents.
-/

namespace WatLink

namespace Disk

variable {disk disk' : Disk} {path : Path} {bytes : Bytes}

theorem isDirectory_iff {parts : List String} :
    disk.isDirectory parts = true ↔ parts <+: disk.workingDirectory.parts ∨
      (∃ directory ∈ disk.directories, parts <+: directory) ∨
        ∃ file ∈ disk.files, parts <+: file.1 ∧ parts ≠ file.1 := by
  simp [isDirectory, or_assoc, List.isPrefixOf_iff_prefix]

theorem isDirectory_of_prefix {parts shorter : List String} (isPrefix : shorter <+: parts)
    (isDirectory : disk.isDirectory parts = true) : disk.isDirectory shorter = true := by
  rw [isDirectory_iff] at isDirectory ⊢
  rcases isDirectory with working | ⟨directory, listed, inside⟩ | ⟨file, exists', inside, differs⟩
  · exact .inl (isPrefix.trans working)
  · exact .inr (.inl ⟨directory, listed, isPrefix.trans inside⟩)
  · refine .inr (.inr ⟨file, exists', isPrefix.trans inside, ?_⟩)
    rintro rfl
    exact differs (inside.eq_of_length_le isPrefix.length_le)

/-- Whether a place stands in directories. -/
def Nested (disk : Disk) (place : List String) : Prop :=
  ∀ shorter, shorter <+: place → shorter ≠ place → disk.isDirectory shorter = true

theorem nested_of_isDirectory {place : List String} (isDirectory : disk.isDirectory place = true) :
    disk.Nested place :=
  fun _ isPrefix _ => isDirectory_of_prefix isPrefix isDirectory

theorem follow_cons_eq_ok_iff {place rest target : List String} {part : String} :
    disk.follow place (part :: rest) = .ok target ↔
      disk.isDirectory place = true ∧ disk.permission place ≠ .none ∧
        disk.follow (if part = ".." then place.dropLast else place ++ [part]) rest =
          .ok target := by
  rw [follow]
  by_cases isDirectory : disk.isDirectory place = true
  · by_cases denied : disk.permission place = .none
    · simp [isDirectory, denied]
    · simp [isDirectory, denied]
  · simp [isDirectory]

theorem nested_of_follow {place parts target : List String} (nested : disk.Nested place)
    (follows : disk.follow place parts = .ok target) : disk.Nested target := by
  induction parts generalizing place with
  | nil =>
      cases follows
      exact nested
  | cons part rest ih =>
      obtain ⟨isDirectory, -, followsRest⟩ := follow_cons_eq_ok_iff.mp follows
      refine ih (fun shorter isPrefix differs => ?_) followsRest
      refine isDirectory_of_prefix ?_ isDirectory
      split at isPrefix
      · exact isPrefix.trans (List.dropLast_prefix place)
      · rename_i notUp
        rw [if_neg notUp] at differs
        exact (List.prefix_concat_iff.mp isPrefix).resolve_left differs

theorem locate_eq_ok_iff {parts : List String} :
    disk.locate path = .ok parts ↔ path.hasNull = false ∧
      disk.follow (if path.isAbsolute then [] else disk.workingDirectory.parts) path.parts =
        .ok parts := by
  unfold locate
  cases path.hasNull <;> simp

theorem nested_of_locate {parts : List String} (leads : disk.locate path = .ok parts) :
    disk.Nested parts := by
  refine nested_of_follow ?_ (locate_eq_ok_iff.mp leads).2
  split
  · intro shorter isPrefix differs
    exact absurd (List.prefix_nil.mp isPrefix) differs
  · exact nested_of_isDirectory (isDirectory_iff.mpr (.inl List.prefix_rfl))

theorem write_eq_ok_iff :
    disk.write path bytes = .ok disk' ↔
      ∃ parts, disk.locate path = .ok parts ∧ disk.isDirectory parts = false ∧
        disk.allowsWriting parts = true ∧
        disk' = { disk with
          files := (parts, bytes) :: disk.files.filter fun file => file.1 != parts
          permission := fun place => if place = parts then .full else disk.permission place } := by
  unfold write
  cases disk.locate path with
  | error fault => simp
  | ok parts =>
      cases directory : disk.isDirectory parts with
      | true => simp [directory]
      | false =>
          cases allowed : disk.allowsWriting parts with
          | false => simp [directory, allowed]
          | true =>
              simp only [directory, allowed, Bool.not_true, Bool.false_eq_true, if_false,
                Except.ok.injEq, exists_eq_left', true_and]
              exact eq_comm

/-- Writing changes the contents of one file. -/
theorem file?_write {parts : List String} (leads : disk.locate path = .ok parts)
    (written : disk.write path bytes = .ok disk') (other : List String) :
    disk'.file? other = if other = parts then some bytes else disk.file? other := by
  obtain ⟨parts', leads', -, -, rfl⟩ := write_eq_ok_iff.mp written
  cases leads.symm.trans leads'
  exact lookup_put parts other bytes disk.files

theorem isDirectory_write (written : disk.write path bytes = .ok disk') (place : List String) :
    disk'.isDirectory place = disk.isDirectory place := by
  obtain ⟨parts, leads, -, -, rfl⟩ := write_eq_ok_iff.mp written
  rw [Bool.eq_iff_iff, isDirectory_iff]
  constructor
  · rintro (working | listed | ⟨file, exists', inside, differs⟩)
    · exact isDirectory_iff.mpr (.inl working)
    · exact isDirectory_iff.mpr (.inr (.inl listed))
    · rcases List.mem_cons.mp exists' with rfl | kept
      · exact nested_of_locate leads place inside differs
      · exact isDirectory_iff.mpr (.inr (.inr ⟨file, List.mem_of_mem_filter kept, inside, differs⟩))
  · intro isDirectory
    rcases isDirectory_iff.mp isDirectory with working | listed | ⟨file, exists', inside, differs⟩
    · exact .inl working
    · exact .inr (.inl listed)
    · by_cases same : file.1 = parts
      · exact .inr (.inr ⟨(parts, bytes), List.mem_cons_self, same ▸ inside, same ▸ differs⟩)
      · exact .inr (.inr ⟨file, List.mem_cons_of_mem _ (by simp [exists', same]), inside, differs⟩)

theorem permission_write (written : disk.write path bytes = .ok disk') {place : List String}
    (isDirectory : disk.isDirectory place = true) :
    disk'.permission place = disk.permission place := by
  obtain ⟨parts, -, notDirectory, -, rfl⟩ := write_eq_ok_iff.mp written
  have other : place ≠ parts := by
    rintro rfl
    rw [notDirectory] at isDirectory
    cases isDirectory
  exact if_neg other

/-- Writing lets every path lead where it led. -/
theorem follow_write (written : disk.write path bytes = .ok disk')
    {place parts target : List String} (follows : disk.follow place parts = .ok target) :
    disk'.follow place parts = .ok target := by
  induction parts generalizing place with
  | nil => exact follows
  | cons part rest ih =>
      obtain ⟨isDirectory, allowed, followsRest⟩ := follow_cons_eq_ok_iff.mp follows
      rw [follow_cons_eq_ok_iff, isDirectory_write written, permission_write written isDirectory]
      exact ⟨isDirectory, allowed, ih followsRest⟩

/-- What is written to a path is read from there. -/
theorem read_write (written : disk.write path bytes = .ok disk') : disk'.read path = .ok bytes := by
  obtain ⟨parts, leads, -, -, disk'_eq⟩ := write_eq_ok_iff.mp written
  have leads' : disk'.locate path = .ok parts := by
    have sameStart : disk'.workingDirectory = disk.workingDirectory := by rw [disk'_eq]
    obtain ⟨noNull, follows⟩ := locate_eq_ok_iff.mp leads
    rw [locate_eq_ok_iff, sameStart]
    exact ⟨noNull, follow_write written follows⟩
  have allowed : disk'.permission parts = .full := by simp [disk'_eq]
  simp [read, leads', file?_write leads written, allowed]

end Disk

end WatLink
