import Asm6502.Command.Assemble
import Asm6502.Proofs.Endings

/-! Whether a build is said to have failed. The report counts every defect of the source, and the
limit decides how many of them it keeps. Whether there were errors is read off what was kept, so
under a limit that lets nothing through a defective source passes for a sound one. -/
namespace Asm6502

open SourceLine

namespace SourceLine

/-- Some line repeats a label, or counts and has a defect. -/
def Flawed (lines : List SourceLine) : Prop :=
  (∃ line name first, Repeats lines line name first) ∨
    ∃ line ∈ active lines, ∃ cause, Defective lines (tableOf {} lines) line.statement cause

/-- All diagnostics of a source, in the order in which a run meets them. -/
def findings (file : Text) (lines : List SourceLine) : List Diagnostic :=
  repeats file lines ++ defects file (tableOf {} lines) (active lines)

theorem exists_finding_iff (file : Text) (lines : List SourceLine) :
    (∃ d, d ∈ findings file lines) ↔ Flawed lines := by
  simp only [findings, List.mem_append, mem_repeats_iff,
    mem_defects_iff (toList_tableOf {} lines)]
  constructor
  · rintro ⟨d, ⟨line, name, first, repeated, -⟩ | ⟨line, counts, cause, defective, -⟩⟩
    · exact .inl ⟨line, name, first, repeated⟩
    · exact .inr ⟨line, counts, cause, defective⟩
  · rintro (⟨line, name, first, repeated⟩ | ⟨line, counts, cause, defective⟩)
    · exact ⟨_, .inl ⟨line, name, first, repeated, rfl⟩⟩
    · exact ⟨_, .inr ⟨line, counts, cause, defective, rfl⟩⟩

theorem length_findings_pos_iff (file : Text) (lines : List SourceLine) :
    0 < (findings file lines).length ↔ Flawed lines := by
  rw [List.length_pos_iff_exists_mem]
  exact exists_finding_iff file lines

end SourceLine

namespace Report

theorem hasErrors_gather_iff (limit : Option Int) (ds : List Diagnostic) :
    (gather { limit } ds).hasErrors = true ↔ 0 < ds.length ∧ ∀ m, limit = some m → 0 < m := by
  have kept : (gather { limit } ds).kept.toList = fitting { limit } ds := by
    rw [kept_gather]
    rfl
  have seen : (gather { limit } ds).hasErrors = true ↔ 0 < (fitting { limit } ds).length := by
    rw [← kept, hasErrors, List.length_pos_iff]
    simp
  rw [seen]
  -- Of a first diagnostic nothing is kept just if the limit is zero or below.
  cases limit with
  | none => simp [fitting]
  | some m =>
    simp only [fitting, Array.size_empty, List.length_take, Option.some.injEq, forall_eq']
    omega

end Report

namespace Assembler

variable {s : Assembler} {raw : List Text} {file : Text}

theorem labels_of_finished (finished : (s.assemble raw file).2 = none) :
    (s.assemble raw file).1.assembly.labels = tableOf {} (ofRaw raw) := by
  obtain ⟨-, table, -⟩ := assemble_eq_none finished
  rw [eq_tableOf table]
  exact tableOf_eq _ _ _

theorem code_of_finished (finished : (s.assemble raw file).2 = none) :
    (s.assemble raw file).1.code =
      stub ++ image (tableOf {} (ofRaw raw)) (active (ofRaw raw)) := by
  obtain ⟨-, -, code⟩ := assemble_eq_none finished
  rw [code, labels_of_finished finished]

theorem findings_of_finished (finished : (s.assemble raw file).2 = none) :
    (s.assemble raw file).1.assembly.report =
      Report.gather { limit := s.settings.limit } (findings file (ofRaw raw)) := by
  rw [findings, ← labels_of_finished finished]
  exact report_of_finished finished

end Assembler

namespace Command

namespace Console

@[simp] theorem files_sayIf (c : Console) (condition : Bool) (t : Text) :
    (c.sayIf condition t).files = c.files := by
  unfold sayIf
  split <;> rfl

@[simp] theorem files_warnIf (c : Console) (condition : Bool) (t : Text) :
    (c.warnIf condition t).files = c.files := by
  unfold warnIf
  split <;> rfl

@[simp] theorem files_logIf (c : Console) (condition : Bool) (events : List Event) :
    (c.logIf condition events).files = c.files := by
  unfold logIf
  split <;> rfl

@[simp] theorem files_logBare (c : Console) (events : List Event) :
    (c.logBare events).files = c.files := rfl

end Console

namespace Assemble

/-- The files after a job has written what it was asked for: the program, then the image. -/
def written (job : Job) (files : FileTree) (program code : List UInt8) :
    Except FileFault FileTree :=
  match files.write (outputPath job).text program with
  | .error e => .error e
  | .ok files =>
    match job.binary with
    | none => .ok files
    | some path => files.write (Path.parse path).text code

/-- The job is to assemble `file`, which has the lines `raw`, under a limit. -/
structure Asked (files : FileTree) (environment : Text → Option Text) (job : Job)
    (limit : Option Int) (raw : List Text) (file : Text) : Prop where
  source : ∃ text, Assembler.readSource files (Path.parse job.input) = .ok text ∧ text.lines = raw
  named : (Path.parse job.input).text = file
  limit : (Settings.ofEnvironment environment).1.limit = limit

theorem files_save (s : Assembler) (path : Path) (bytes : List UInt8) (kind : Text) (c : Console) :
    (save s path bytes kind c).map Console.files = c.files.write path.text bytes := by
  unfold save Assembler.writeBytes
  cases c.files.write path.text bytes with
  | error e => rfl
  | ok files => simp [Except.map]

theorem status_saveAll (job : Job) (s : Assembler) (c : Console) :
    (saveAll job s c).2 =
      match written job c.files s.program s.code with
      | .error e => (Fault.ofFile e).status
      | .ok _ => if s.assembly.report.hasErrors then .buildError else .success := by
  have first := files_save s (outputPath job) s.program [] c
  unfold saveAll written
  rw [← first]
  cases save s (outputPath job) s.program [] c with
  | error e => rfl
  | ok d =>
    cases job.binary with
    | none => rfl
    | some path =>
      have second := files_save s (.parse path) s.code " raw binary" d
      simp only [Except.map, ← second]
      cases save s (.parse path) s.code " raw binary" d with
      | error e => rfl
      | ok d => rfl

def settingsOf (job : Job) (environment : Text → Option Text) : Settings :=
  let settings := (Settings.ofEnvironment environment).1
  { settings with verbose := settings.verbose || job.verbose }

def announced (job : Job) (environment : Text → Option Text) (c : Console) : Console :=
  (c.logBare (Settings.ofEnvironment environment).2).sayIf (settingsOf job environment).verbose
    ("Assembling " ++ (Path.parse job.input).text ++ "...")

@[simp] theorem files_announced (job : Job) (environment : Text → Option Text) (c : Console) :
    (announced job environment c).files = c.files := by
  simp [announced]

theorem work_eq (job : Job) (environment : Text → Option Text) (c : Console) :
    work job environment c =
      match (Assembler.new (settingsOf job environment)).assembleFile
        (announced job environment c).files (Path.parse job.input) with
      | (s, some e) =>
        ((announced job environment c).logIf (settingsOf job environment).verbose
          s.assembly.events).fail (settingsOf job environment).verbose activity (.ofRun e)
      | (s, none) =>
        saveAll job s (((announced job environment c).logIf (settingsOf job environment).verbose
          s.assembly.events).warnIf s.assembly.report.hasErrors s.assembly.report.text) := rfl

theorem work_of_finished {job : Job} {environment : Text → Option Text} {c : Console} {text : Text}
    {s : Assembler} (read : Assembler.readSource c.files (Path.parse job.input) = .ok text)
    (finished : (Assembler.new (settingsOf job environment)).assemble text.lines
      (Path.parse job.input).text = (s, none)) :
    ∃ d, d.files = c.files ∧ work job environment c = saveAll job s d := by
  have assembled : (Assembler.new (settingsOf job environment)).assembleFile
      (announced job environment c).files (Path.parse job.input) = (s, none) := by
    rw [Assembler.assembleFile, files_announced, read]
    exact finished
  rw [work_eq, assembled]
  exact ⟨_, by simp, rfl⟩

/-- The status of a job that was asked for is told by any assembler with the same limit. -/
theorem Asked.status {files : FileTree} {environment : Text → Option Text} {job : Job}
    {s : Assembler} {raw : List Text} {file : Text}
    (asked : Asked files environment job s.settings.limit raw file)
    (finished : (s.assemble raw file).2 = none) :
    let result := (s.assemble raw file).1
    (work job environment { files }).2 =
      match written job files result.program result.code with
      | .error e => (Fault.ofFile e).status
      | .ok _ => if result.assembly.report.hasErrors then .buildError else .success := by
  intro result
  obtain ⟨⟨text, read, rfl⟩, rfl, limit⟩ := asked
  -- The assembler of the job may be more talkative than `s`, but what it leaves is the same.
  let worker := Assembler.new (settingsOf job environment)
  have done : (worker.assemble text.lines (Path.parse job.input).text).2 = none := by
    apply (Assembler.finished_iff _ _ _).mpr
    exact (Assembler.finished_iff _ _ _).mp finished
  have image : (worker.assemble text.lines (Path.parse job.input).text).1.code = result.code :=
    (Assembler.code_of_finished done).trans (Assembler.code_of_finished finished).symm
  have report : (worker.assemble text.lines (Path.parse job.input).text).1.assembly.report =
      result.assembly.report := by
    rw [Assembler.findings_of_finished done, Assembler.findings_of_finished finished, ← limit]
    rfl
  obtain ⟨d, untouched, worked⟩ := work_of_finished (c := { files }) read (Prod.ext rfl done)
  rw [worked, status_saveAll, untouched, Assembler.program, image, report]
  rfl

end Assemble
end Command

namespace Assembler

/-- Whether there were errors, and with it the exit status, is told rightly exactly if the source
has no defect or the limit is none or above zero. In any case each defect is counted, and the
limit only cuts off what is kept of them. -/
theorem verdict_right_iff (s : Assembler) (raw : List Text) (file : Text)
    (finished : (s.assemble raw file).2 = none) :
    let found := findings file (ofRaw raw)
    let result := (s.assemble raw file).1
    let report := result.assembly.report
    let told := ¬ Flawed (ofRaw raw) ∨ ∀ m, s.settings.limit = some m → 0 < m
    (0 < report.count ↔ Flawed (ofRaw raw)) ∧ report.count = found.length ∧
      report.kept.toList =
        (match s.settings.limit with
          | none => found
          | some m => found.take m.toNat) ∧
      ((report.hasErrors = true ↔ 0 < report.count) ↔ told) ∧
      ∀ files environment job,
        Command.Assemble.Asked files environment job s.settings.limit raw file →
        let status := (Command.Assemble.work job environment { files }).2
        match Command.Assemble.written job files result.program result.code with
        | .error e => status = (Command.Fault.ofFile e).status
        | .ok _ => (status = .buildError ∨ status = .success) ∧
            ((status = .buildError ↔ Flawed (ofRaw raw)) ↔ told) := by
  intro found result report told
  have gathered : report = Report.gather { limit := s.settings.limit } found :=
    findings_of_finished finished
  have flawed : 0 < found.length ↔ Flawed (ofRaw raw) := length_findings_pos_iff file (ofRaw raw)
  have seen : report.hasErrors = true ↔
      Flawed (ofRaw raw) ∧ ∀ m, s.settings.limit = some m → 0 < m := by
    rw [gathered, Report.hasErrors_gather_iff, flawed]
  have count : report.count = found.length := by
    rw [gathered, Report.count_gather]
    exact Nat.zero_add _
  have right : (report.hasErrors = true ↔ Flawed (ofRaw raw)) ↔ told := by
    rw [seen, and_iff_left_iff_imp, imp_iff_not_or]
  refine ⟨?_, count, ?_, ?_, ?_⟩
  · rw [count]
    exact flawed
  · rw [gathered, Report.kept_gather]
    cases s.settings.limit <;> simp [Report.fitting]
  · rw [count, flawed]
    exact right
  · intro files environment job asked status
    have ended : status = _ := asked.status finished
    split
    · rename_i e failed
      rw [ended, failed]
    · rename_i after saved
      rw [saved] at ended
      change status = if report.hasErrors then .buildError else .success at ended
      rw [ended, ← right]
      cases report.hasErrors with
      | false => exact ⟨.inr rfl, by simp⟩
      | true => exact ⟨.inl rfl, by simp⟩

/-- An unknown word and a repeated label, of which the limit keeps one. The tool is given the
same source in a file, and the limit in its environment. -/
theorem verdict_right_iff_limit_one :
    let raw : List Text := [['F', 'O', 'O'], ['l', ':', 'N', 'O', 'P'], ['l', ':', '?']]
    let files : FileTree :=
      { nodes := [([['a']],
          .file [0x46, 0x4F, 0x4F, 10, 0x6C, 0x3A, 0x4E, 0x4F, 0x50, 10, 0x6C, 0x3A, 0x3F])] }
    let environment := fun v => if v = Settings.limitVariable then some ['1'] else none
    let r := (new { limit := some 1 }).assemble raw ['a']
    r.2 = none ∧ Flawed (ofRaw raw) ∧ r.1.assembly.report.count = 2 ∧
      r.1.assembly.report.kept.toList = (findings ['a'] (ofRaw raw)).take 1 ∧
      r.1.assembly.report.hasErrors = true ∧
      (Command.Assemble.work { input := ['a'] } environment { files }).2 = .buildError := by
  intro raw files environment r
  have finished : r.2 = none := by decide +kernel
  have two : r.1.assembly.report.count = 2 := by decide +kernel
  obtain ⟨flawed, -, kept, errors, tool⟩ :=
    verdict_right_iff (new { limit := some 1 }) raw ['a'] finished
  have met : 0 < r.1.assembly.report.count := by
    rw [two]
    decide
  have told : ¬ Flawed (ofRaw raw) ∨ ∀ m, some (1 : Int) = some m → 0 < m := by
    right
    rintro m ⟨⟩
    decide
  have asked : Command.Assemble.Asked files environment { input := ['a'] } (some 1) raw ['a'] := by
    refine ⟨⟨['F', 'O', 'O', '\n', 'l', ':', 'N', 'O', 'P', '\n', 'l', ':', '?'], ?_, ?_⟩,
      ?_, ?_⟩ <;> decide +kernel
  have saved : (Command.Assemble.written { input := ['a'] } files r.1.program r.1.code).isOk := by
    decide +kernel
  refine ⟨finished, flawed.mp met, two, kept, (errors.mpr told).mpr met, ?_⟩
  have ended := tool files environment { input := ['a'] } asked
  dsimp only at ended
  split at ended
  · rename_i e failed
    rw [failed] at saved
    cases saved
  · exact (ended.2.mpr told).mpr (flawed.mp met)

/-- Under a limit of zero an unknown word is counted, and yet there are no errors: the tool ends
as after a sound build. -/
theorem failed_build_passes_under_limit_zero :
    let raw : List Text := [['F', 'O', 'O']]
    let r := (new { limit := some 0 }).assemble raw ['a']
    r.2 = none ∧ r.1.assembly.report.count = 1 ∧ r.1.assembly.report.hasErrors = false ∧
      (Command.Assemble.run { nodes := [([['a']], .file [0x46, 0x4F, 0x4F])] }
        (fun v => if v = Settings.limitVariable then some ['0'] else none) [['a']]).2 =
          .success := by
  decide +kernel

end Assembler

end Asm6502
