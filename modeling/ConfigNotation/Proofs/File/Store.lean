import ConfigNotation.Proofs.File.Normal
import ConfigNotation.Syntax.Literal

/-!
Files in memory after any number of insertions: they are a map on the normal forms of paths.
What was inserted last under a normal form is read, and the directories are what lies in front
of the stored files step by step.
-/

namespace ConfigNotation

namespace Store

def ofInsertions (insertions : List (Path × List UInt8)) : Store :=
  insertions.foldl (fun store (path, bytes) => store.insert path (.bytes bytes)) .empty

def entryOf (insertion : Path × List UInt8) : List Step × Contents :=
  (insertion.1.normalSteps, .bytes insertion.2)

/-- The latest insertion stands first. -/
theorem files_ofInsertions (insertions : List (Path × List UInt8)) :
    (ofInsertions insertions).files = (insertions.map entryOf).reverse := by
  suffices h : ∀ store : Store,
      (insertions.foldl (fun store (path, bytes) => store.insert path (.bytes bytes)) store).files =
        (insertions.map entryOf).reverse ++ store.files by
    rw [ofInsertions, h, empty, List.append_nil]
  induction insertions with
  | nil => simp
  | cons insertion rest ih =>
      intro store
      rw [List.foldl_cons, ih, List.map_cons, List.reverse_cons, List.append_assoc]
      rfl

variable {insertions : List (Path × List UInt8)} {path : Path}

theorem get?_eq_some_iff {contents : Contents} :
    (ofInsertions insertions).get? path = some contents ↔ ∃ before other bytes after,
      insertions = before ++ (other, bytes) :: after ∧ .bytes bytes = contents ∧
        other.normalize = path.normalize ∧ ∀ later ∈ after, later.1.normalize ≠ path.normalize := by
  rw [get?, files_ofInsertions, List.lookup_eq_some_iff]
  simp only [Path.normalize_eq_iff, List.reverse_eq_append_iff, List.reverse_cons,
    List.append_assoc, List.singleton_append, bne_iff_ne, ne_eq]
  constructor
  · rintro ⟨later, earlier, hmap, hother⟩
    obtain ⟨before, rest, rfl, -, hrest⟩ := List.map_eq_append_iff.1 hmap
    obtain ⟨⟨other, bytes⟩, after, rfl, hentry, hafter⟩ := List.map_eq_cons_iff.1 hrest
    obtain ⟨hsteps, hcontents⟩ := Prod.mk.inj hentry
    refine ⟨before, other, bytes, after, rfl, hcontents, hsteps, ?_⟩
    intro insertion hmem
    have hentry : entryOf insertion ∈ later := by
      rw [← List.mem_reverse, ← hafter]
      exact List.mem_map_of_mem hmem
    exact Ne.symm (hother _ hentry)
  · rintro ⟨before, other, bytes, after, rfl, rfl, hsteps, hafter⟩
    refine ⟨(after.map entryOf).reverse, (before.map entryOf).reverse, ?_, ?_⟩
    · simp [entryOf, hsteps]
    · intro entry hmem
      obtain ⟨insertion, hinsertion, rfl⟩ := List.mem_map.1 (List.mem_reverse.1 hmem)
      exact Ne.symm (hafter insertion hinsertion)

theorem isFile_iff : (ofInsertions insertions).isFile path = true ↔
    ∃ insertion ∈ insertions, insertion.1.normalize = path.normalize := by
  simp only [isFile, get?, files_ofInsertions, List.lookup_isSome_iff, List.mem_reverse,
    List.mem_map, beq_iff_eq, Path.normalize_eq_iff]
  constructor
  · rintro ⟨_, ⟨insertion, hmem, rfl⟩, hsteps⟩
    exact ⟨insertion, hmem, hsteps.symm⟩
  · rintro ⟨insertion, hmem, hsteps⟩
    exact ⟨_, ⟨insertion, hmem, rfl⟩, hsteps.symm⟩

theorem isPresent_iff : (ofInsertions insertions).isPresent path = true ↔
    ∃ insertion ∈ insertions, path.normalize.steps <+: insertion.1.normalize.steps := by
  simp only [isPresent, files_ofInsertions, List.any_reverse, List.any_map, List.any_eq_true,
    Path.steps_normalize]
  simp [entryOf]

/-- Bytes are read as they were inserted. -/
theorem read_eq_ok_iff {bytes : List UInt8} : (ofInsertions insertions).read path = .ok bytes ↔
    (ofInsertions insertions).get? path = some (.bytes bytes) := by
  rw [read]
  cases hfound : (ofInsertions insertions).get? path with
  | none => simp
  | some contents =>
      obtain ⟨_, _, held, _, _, rfl, _⟩ := get?_eq_some_iff.1 hfound
      simp

/-- All that is stored can be read. -/
theorem isFile_iff_read : (ofInsertions insertions).isFile path = true ↔
    ∃ bytes, (ofInsertions insertions).read path = .ok bytes := by
  simp only [read_eq_ok_iff]
  constructor
  · intro h
    obtain ⟨contents, hfound⟩ := Option.isSome_iff_exists.1 h
    obtain ⟨_, _, bytes, _, _, rfl, _⟩ := get?_eq_some_iff.1 hfound
    exact ⟨bytes, hfound⟩
  · rintro ⟨bytes, hfound⟩
    rw [isFile, hfound]
    rfl

end Store

/-- A file that a literal names is a file where the literal is read. -/
theorem Literal.isFile_of_readFile {workspace : Workspace} {text : List Char} {file : FileRef}
    (h : readFile workspace text = .ok file) : workspace.files.isFile file.path = true := by
  rw [readFile] at h
  dsimp only at h
  split at h
  · cases h
  · split at h
    · cases h
    · split at h
      · cases h
      · next hfile =>
        cases h
        simpa using hfile

/-- After any number of insertions, what is a file can be read, and a path is
one exactly if something was inserted under its normal form. The bytes of the
last such insertion are read. A path is present if its normal form leads to a
stored one or on the way to it. Normal forms stay as they are, and what an
accepted file literal names can be read. -/
theorem Store.reads_last_insertion (insertions : List (Path × List UInt8)) (path : Path) :
    ((ofInsertions insertions).isFile path = true ↔
      ∃ bytes, (ofInsertions insertions).read path = .ok bytes) ∧
    ((ofInsertions insertions).isFile path = true ↔
      ∃ insertion ∈ insertions, insertion.1.normalize = path.normalize) ∧
    (∀ bytes, (ofInsertions insertions).read path = .ok bytes ↔ ∃ before other after,
      insertions = before ++ (other, bytes) :: after ∧ other.normalize = path.normalize ∧
        ∀ later ∈ after, later.1.normalize ≠ path.normalize) ∧
    ((ofInsertions insertions).isPresent path = true ↔
      ∃ insertion ∈ insertions, path.normalize.steps <+: insertion.1.normalize.steps) ∧
    path.normalize.normalize = path.normalize ∧
    ∀ (config : Config) (explain : List Char → List Char → String) (text : List Char)
      (file : FileRef),
      Literal.readFile ⟨config, (ofInsertions insertions).fileSystem, explain⟩ text = .ok file →
        ∃ bytes, (ofInsertions insertions).read file.path = .ok bytes := by
  refine ⟨isFile_iff_read, isFile_iff, ?_, isPresent_iff, path.isNormal_normalize, ?_⟩
  · intro bytes
    simp only [read_eq_ok_iff, get?_eq_some_iff, Contents.bytes.injEq]
    constructor
    · rintro ⟨before, other, _, after, hsplit, rfl, hlast⟩
      exact ⟨before, other, after, hsplit, hlast⟩
    · rintro ⟨before, other, after, hsplit, hlast⟩
      exact ⟨before, other, bytes, after, hsplit, rfl, hlast⟩
  · intro config explain text file h
    exact isFile_iff_read.1 (Literal.isFile_of_readFile h)

/-- One file that is inserted twice, under two spellings of its path. -/
def Store.rewritten : List (Path × List UInt8) := [(⟨"/w/b/../a"⟩, [1]), (⟨"/w/a"⟩, [2])]

theorem Store.reads_last_insertion_rewritten :
    (ofInsertions rewritten).read ⟨"/w/./a"⟩ = .ok [2] ∧
      Literal.readFile ⟨.new ⟨"/w"⟩, (ofInsertions rewritten).fileSystem, fun _ _ => ""⟩
        "\"b/../a\".utf8".toList = .ok ⟨⟨"/w/a"⟩, .utf8⟩ ∧
      ∃ bytes, (ofInsertions rewritten).read ⟨"/w/a"⟩ = .ok bytes := by
  obtain ⟨-, -, hread, -, -, hliteral⟩ := reads_last_insertion rewritten ⟨"/w/./a"⟩
  have hlast : (Path.mk "/w/a").normalize = (Path.mk "/w/./a").normalize := by decide
  have haccepted : Literal.readFile ⟨.new ⟨"/w"⟩, (ofInsertions rewritten).fileSystem, fun _ _ => ""⟩
      "\"b/../a\".utf8".toList = .ok ⟨⟨"/w/a"⟩, .utf8⟩ := by
    rfl
  refine ⟨?_, haccepted, hliteral _ _ _ _ haccepted⟩
  exact (hread [2]).2 ⟨[(⟨"/w/b/../a"⟩, [1])], ⟨"/w/a"⟩, [], rfl, hlast, nofun⟩

end ConfigNotation
