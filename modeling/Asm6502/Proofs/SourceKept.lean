import Asm6502.Proofs.Places
import Asm6502.Proofs.SourceFiles
import Asm6502.Proofs.Verdict

/-! What becomes of a source that is assembled. A program is written beside its source, under the
name of the source with another suffix, and nothing else is touched. The source is in danger only if
it has that name itself: then the program takes its place. -/
namespace Asm6502

open SourceLine

/-- Octets that are a text which the assembler reads to its end. -/
def Assembles (bytes : List UInt8) : Prop :=
  ∃ text, Text.Utf8.decode bytes = .ok text ∧ Readable (ofRaw text.lines)

/-- A path whose last name is already that of a program. -/
def Path.NamesProgram (p : Path) : Prop :=
  ∃ before base, base ≠ [] ∧ p.parts = before ++ [base ++ ['.', 'p', 'r', 'g']]

theorem Path.namesProgram_iff {p : Path} (plain : p.Plain) :
    p.NamesProgram ↔ p.withSuffix ['.', 'p', 'r', 'g'] = p := by
  obtain ⟨before, name, parts⟩ := plain.exists_last
  rw [withSuffix_eq_self_iff parts (by simp) (by simp), NamesProgram, parts]
  constructor
  · rintro ⟨front, base, nonempty, same⟩
    obtain ⟨-, last⟩ := List.append_inj' same rfl
    exact ⟨base, nonempty, List.singleton_inj.mp last⟩
  · rintro ⟨base, nonempty, rfl⟩
    exact ⟨before, base, nonempty, rfl⟩

namespace Assembler

variable {s : Assembler} {files : FileTree} {path : Path} {bytes : List UInt8}

theorem assembleFile_finished_iff (read : files.read path.text = .ok bytes) :
    (s.assembleFile files path).2 = none ↔ Assembles bytes := by
  cases decoded : Text.Utf8.decode bytes with
  | error e =>
    have failed : s.assembleFile files path = (s, some (.encoding e)) := by
      simp only [assembleFile, readSource, read, decoded]
    simp [failed, Assembles, decoded]
  | ok text =>
    rw [assembleFile_of_decoded read decoded, assembleText, finished_iff]
    simp [Assembles, decoded]

end Assembler

namespace Command.Assemble

variable {files : FileTree} {environment : Text → Option Text} {job : Job}

def built (job : Job) (environment : Text → Option Text) (files : FileTree) :
    Assembler × Option RunFault :=
  (Assembler.new (settingsOf job environment)).assembleFile files (Path.parse job.input)

theorem files_conclude (s : Assembler) (c : Console) : (conclude job s c).1.files = c.files := by
  simp [conclude, Console.print]

theorem files_saveAll (binary : job.binary = none) (s : Assembler) (c : Console) :
    (saveAll job s c).1.files =
      (c.files.write (outputPath job).text s.program).toOption.getD c.files := by
  rw [← files_save s (outputPath job) s.program [] c]
  unfold saveAll
  cases save s (outputPath job) s.program [] c with
  | error e => rfl
  | ok d => simp [binary, files_conclude, Except.map, Except.toOption]

theorem files_of_fault (fault : (built job environment files).2 ≠ none) :
    (work job environment { files }).1.files = files := by
  rw [work_eq, files_announced]
  split
  · simp [Console.fail, Console.warn]
  · rename_i s finished
    exact absurd (congrArg Prod.snd finished) fault

theorem files_of_finished (binary : job.binary = none)
    (finished : (built job environment files).2 = none) :
    (work job environment { files }).1.files =
      (files.write (outputPath job).text (built job environment files).1.program).toOption.getD
        files := by
  rw [work_eq, files_announced]
  split
  · rename_i s e fault
    cases (congrArg Prod.snd fault).symm.trans finished
  · rename_i s made
    have same : (built job environment files).1 = s := congrArg Prod.fst made
    rw [same, files_saveAll binary]
    simp

theorem files_work_cases (files : FileTree) (environment : Text → Option Text)
    (binary : job.binary = none) :
    (work job environment { files }).1.files = files ∨
      ∃ target, files.locate (outputPath job).text = .ok target ∧
        files.node? target ≠ some .directory ∧
        (work job environment { files }).1.files =
          files.put target (.file (built job environment files).1.program) := by
  by_cases finished : (built job environment files).2 = none
  · rw [files_of_finished binary finished]
    cases written : files.write (outputPath job).text (built job environment files).1.program with
    | error e => exact .inl rfl
    | ok after =>
      obtain ⟨target, located, closed, -, rfl⟩ := FileTree.write_eq_ok_iff.mp written
      exact .inr ⟨target, located, closed, rfl⟩
  · exact .inl (files_of_fault finished)

theorem node?_work {place : List Text} (binary : job.binary = none)
    (changed : (work job environment { files }).1.files.node? place ≠ files.node? place) :
    files.locate (outputPath job).text = .ok place ∧
      (work job environment { files }).1.files.node? place =
        some (.file (built job environment files).1.program) := by
  rcases files_work_cases files environment binary with kept | ⟨target, aside, closed, written⟩
  · rw [kept] at changed
    contradiction
  · rw [written] at changed ⊢
    by_cases here : place = target
    · subst here
      exact ⟨aside, FileTree.node?_put_self ..⟩
    · exact absurd (FileTree.node?_put_of_ne (FileTree.supported_of_locate aside) here _) changed

section Source

variable {bytes : List UInt8}

theorem read_work_of_other_name (output : job.output = none) (binary : job.binary = none)
    (read : files.read job.input = .ok bytes)
    (other : (Path.parse job.input).withSuffix ['.', 'p', 'r', 'g'] ≠ Path.parse job.input) :
    (work job environment { files }).1.files.read job.input = .ok bytes := by
  rcases files_work_cases files environment binary with kept | ⟨target, aside, closed, written⟩
  · rwa [kept]
  · obtain ⟨place, located, holds⟩ := FileTree.read_eq_ok_iff.mp read
    obtain ⟨plain, same⟩ := FileTree.locate_parse located holds
    rw [outputPath, output] at aside
    have apart : place ≠ target :=
      FileTree.locate_withSuffix_ne plain (by simp) (by simp) same aside other
    rw [written]
    exact FileTree.read_put_of_ne (FileTree.supported_of_locate aside) closed located apart holds

theorem built_finished_iff (environment : Text → Option Text)
    (read : files.read job.input = .ok bytes) :
    (built job environment files).2 = none ↔ Assembles bytes := by
  obtain ⟨place, located, holds⟩ := FileTree.read_eq_ok_iff.mp read
  obtain ⟨-, same⟩ := FileTree.locate_parse located holds
  have parsed : files.read (Path.parse job.input).text = .ok bytes :=
    FileTree.read_eq_ok_iff.mpr ⟨place, same, holds⟩
  exact Assembler.assembleFile_finished_iff parsed

end Source

end Command.Assemble
end Asm6502
