import RpcOpenApi.Proofs.Files.Writing
import RpcOpenApi.CommandLine.Run

/-!
# What generating leaves behind

Generating a document reads one file and writes one, and tells on the standard output what it does.
The document itself may go there, and then nothing else may. What becomes of the files is a function
of them and of the paths, from which all that is told has gone (`Files.generate`): it stops at the
document that the description in a file compiles to, if there is none (`Files.document`). The
command runs as this function does, and from there comes its exit code (`CommandLine.run_generate`).
So the amount that is told has no part in the files, and `CommandLine.generate_files` tells all that
is left behind.
-/

namespace RpcOpenApi

namespace TextFormat

/-- The format of a file is YAML iff that is asked for, or nothing is and its extension says so, in
capitals or not. -/
theorem forOutput_eq_yaml {asked : Option TextFormat} {path : String} :
    forOutput asked path = .yaml ↔ asked = some .yaml ∨ asked = none ∧
      ∃ extension, Path.extension? path = some extension ∧
        extension.toLower ∈ ["yaml", "yml"] := by
  cases asked with
  | some f => simp [forOutput]
  | none =>
    cases hextension : Path.extension? path with
    | none => simp [forOutput, ofOutputPath?, hextension]
    | some extension =>
      simp only [forOutput, ofOutputPath?, hextension, Option.map_some, Option.getD_none]
      split <;> simp_all

end TextFormat

namespace Files

/-- Loads the description in a file. -/
def load (f : Files) (path : String) : Except ServiceError RpcDocument := do
  RpcDocument.ofText (.ofInputPath path) (← (f.read path).mapError (.unreadableFile path))

/-- The document that the description in a file compiles to. -/
def document (f : Files) (path : String) : Except ServiceError OpenApiDocument := do
  (compile (← f.load path)).result

/-- What becomes of the files when a document is generated, and why it cannot be, if so. -/
def generate (f : Files) (input output : String) (format : TextFormat) :
    Except ServiceError Unit × Files :=
  match f.document input with
  | .error e => (.error e, f)
  | .ok d =>
    if output = CommandLine.standardOutput then (.ok (), f)
    else (system.writeText output (d.render format)).run f

/-- Loading a description reads a file and leaves all files as they are. -/
theorem run_loadDocument (f : Files) (path : String) :
    (system.loadDocument path).run f = (f.load path, f) := by
  have hread : (system.read path).run f = (f.read path, f) := rfl
  rw [FileSystem.loadDocument, run_bind hread, load]
  cases f.read path <;> rfl

end Files

namespace CommandLine

/-- The command runs as the function on the files does. It fails iff this fails, and what goes to
the standard output, if the document does, is the document. -/
theorem run_generate (files : Files) (input output : String) (asked : Option TextFormat)
    (isVerbose : Bool) : ∃ outcome : Outcome,
    (generate Files.system input output asked isVerbose).run files
      = (outcome, (files.generate input output (.forOutput asked output)).2) ∧
    outcome.exitCode
      = (if (files.generate input output (.forOutput asked output)).1.isOk then 0 else 1) ∧
    (output = standardOutput → outcome.output
      = ((files.document input).toOption.map (·.render (.forOutput asked output))).getD "") := by
  unfold generate Files.generate
  rw [Files.run_bind (Files.run_loadDocument files input)]
  cases hload : files.load input with
  | error e =>
    have hdocument : files.document input = .error e := by rw [Files.document, hload]; rfl
    rw [hdocument]
    exact ⟨_, rfl, rfl, fun hout => if_pos hout⟩
  | ok d =>
    have hdocument : files.document input = (compile d).result := by rw [Files.document, hload]; rfl
    rw [hdocument]
    dsimp only
    cases (compile d).result with
    | error e => exact ⟨_, rfl, rfl, fun hout => if_pos hout⟩
    | ok document =>
      dsimp only
      by_cases hout : output = standardOutput
      · simp only [if_pos hout]
        exact ⟨_, rfl, rfl, fun _ => rfl⟩
      · simp only [if_neg hout]
        obtain ⟨⟨r, after⟩, hwrite⟩ : ∃ w, (Files.system.writeText output
            (document.render (.forOutput asked output))).run files = w := ⟨_, rfl⟩
        rw [Files.run_bind hwrite, hwrite]
        cases r <;> exact ⟨_, rfl, rfl, fun h => absurd h hout⟩

section
variable {files : Files} {input output : String} {document : OpenApiDocument}

/-- Without a document the command fails and leaves nothing. -/
theorem generate_of_error {e : ServiceError} (h : files.document input = .error e)
    (output : String) (asked : Option TextFormat) (isVerbose : Bool) :
    ∃ outcome : Outcome,
      (generate Files.system input output asked isVerbose).run files = (outcome, files) ∧
      outcome.exitCode = 1 ∧ (output = standardOutput → outcome.output = "") := by
  obtain ⟨outcome, hrun, hcode, houtput⟩ := run_generate files input output asked isVerbose
  rw [Files.generate, h] at hrun hcode
  rw [h] at houtput
  exact ⟨outcome, hrun, hcode, houtput⟩

/-- A document that goes to the standard output is all that goes there. -/
theorem generate_to_standardOutput (h : files.document input = .ok document)
    (asked : Option TextFormat) (isVerbose : Bool) :
    ∃ outcome : Outcome, (generate Files.system input standardOutput asked isVerbose).run files
        = (outcome, files) ∧
      outcome.exitCode = 0 ∧
      outcome.output = document.render (.forOutput asked standardOutput) := by
  obtain ⟨outcome, hrun, hcode, houtput⟩ := run_generate files input standardOutput asked isVerbose
  rw [Files.generate, h] at hrun hcode
  rw [h] at houtput
  exact ⟨outcome, hrun, hcode, houtput rfl⟩

/-- A document that goes to a file goes to that file only, and the command fails iff it cannot be
written. -/
theorem generate_to_file (h : files.document input = .ok document) (hout : output ≠ standardOutput)
    (asked : Option TextFormat) (isVerbose : Bool) :
    ∃ outcome : Outcome, ∃ r after,
      (generate Files.system input output asked isVerbose).run files = (outcome, after) ∧
      (Files.system.writeText output (document.render (.forOutput asked output))).run files
        = (r, after) ∧
      outcome.exitCode = if r.isOk then 0 else 1 := by
  obtain ⟨outcome, hrun, hcode, -⟩ := run_generate files input output asked isVerbose
  simp only [Files.generate, h, if_neg hout] at hrun hcode
  exact ⟨outcome, _, _, hrun, rfl, hcode⟩

end

/-- **What generating leaves behind.** If there is no document, the command fails, all files are as
they were, and nothing goes to the standard output if the document should. If there is one, it goes
to the standard output alone, with no file changed, or to one file, with no other changed. The
command fails iff that file cannot be written, and then no file has another content. The format is
the one that is asked for, else the one that the extension says, else JSON. How much is told has no
part in this. -/
theorem generate_files (files : Files) (input output : String) (asked : Option TextFormat) :
    let format := TextFormat.forOutput asked output
    let run (isVerbose : Bool) := (generate Files.system input output asked isVerbose).run files
    (∀ isVerbose,
      (∀ e, files.document input = .error e →
        (run isVerbose).1.exitCode = 1 ∧ (run isVerbose).2 = files ∧
          (output = standardOutput → (run isVerbose).1.output = "")) ∧
      (∀ document, files.document input = .ok document →
        (output = standardOutput → (run isVerbose).1.exitCode = 0 ∧
          (run isVerbose).1.output = document.render format ∧ (run isVerbose).2 = files) ∧
        (output ≠ standardOutput →
          ((run isVerbose).1.exitCode = 0 ↔
            ((Files.system.writeText output (document.render format)).run files).1 = .ok ()) ∧
          ((run isVerbose).1.exitCode = 0 →
            Files.Wrote output (document.render format) files (run isVerbose).2) ∧
          ((run isVerbose).1.exitCode ≠ 0 → (run isVerbose).2.contents = files.contents)))) ∧
    ((∀ f, asked = some f → format = f) ∧
      (asked = none → (format = .yaml ↔ ∃ extension, Path.extension? output = some extension ∧
        extension.toLower ∈ ["yaml", "yml"]))) ∧
    (run true).2 = (run false).2 ∧ (run true).1.exitCode = (run false).1.exitCode ∧
      (output = standardOutput → (run true).1.output = (run false).1.output) := by
  intro format run
  refine ⟨fun isVerbose => ⟨fun e he => ?_, fun document hdocument => ⟨?_, fun hout => ?_⟩⟩,
    ⟨?_, fun hasked => ?_⟩, ?_⟩
  · obtain ⟨outcome, hrun, hcode, houtput⟩ := generate_of_error he output asked isVerbose
    rw [show run isVerbose = _ from hrun]
    exact ⟨hcode, rfl, houtput⟩
  · rintro rfl
    obtain ⟨outcome, hrun, hcode, houtput⟩ := generate_to_standardOutput hdocument asked isVerbose
    rw [show run isVerbose = _ from hrun]
    exact ⟨hcode, houtput, rfl⟩
  · -- only the write is left to fail, and the exit code says whether it does
    obtain ⟨outcome, r, after, hrun, hwrite, hcode⟩ :=
      generate_to_file hdocument hout asked isVerbose
    rw [show run isVerbose = _ from hrun, show (StateT.run _ _) = _ from hwrite]
    cases r with
    | ok _ =>
      have hwrote := Files.writeText_eq_ok hwrite
      exact ⟨⟨fun _ => rfl, fun _ => hcode⟩, fun _ => hwrote, fun hne => absurd hcode hne⟩
    | error e =>
      have hcontents := Files.writeText_eq_error hwrite
      have hne : outcome.exitCode ≠ 0 := hcode ▸ Nat.one_ne_zero
      exact ⟨⟨fun h0 => absurd h0 hne, nofun⟩, fun h0 => absurd h0 hne, fun _ => hcontents⟩
  · rintro f rfl
    rfl
  · rw [show (format = .yaml) = _ from propext TextFormat.forOutput_eq_yaml, hasked]
    simp
  · obtain ⟨outcome, hrun, hcode, houtput⟩ := run_generate files input output asked true
    obtain ⟨outcome', hrun', hcode', houtput'⟩ := run_generate files input output asked false
    rw [show run true = _ from hrun, show run false = _ from hrun']
    exact ⟨rfl, hcode.trans hcode'.symm, fun h => (houtput h).trans (houtput' h).symm⟩

/-- A directory with a description in it, and another one in which the program works. -/
def serviceFiles : Files :=
  { workingDirectory := ["home", "user"]
    contents := [(["tmp", "service.yaml"], String.toUTF8 "yarpc: 1.0.0
info:
  title: Test
  version: 1.0.0
operations:
  queries:
    health: \x7b\x7d
")] }

/-- The description is generated beside itself and into a directory that is made above the working
directory, in YAML; if there is none, nothing is left behind. -/
theorem generate_serviceFiles :
    (∃ document, serviceFiles.document "/tmp/service.yaml" = .ok document ∧
      ∀ output ∈ ["/tmp/openapi.yaml", "../out/api.YML"], ∀ isVerbose,
        let run :=
          (generate Files.system "/tmp/service.yaml" output none isVerbose).run serviceFiles
        run.1.exitCode = 0 ∧
          Files.Wrote output (document.render .yaml) serviceFiles run.2) ∧
    (∃ e, serviceFiles.document "service.yaml" = .error e ∧ ∀ isVerbose,
      let run := (generate Files.system "service.yaml" "-" none isVerbose).run serviceFiles
      run.1.exitCode = 1 ∧ run.2 = serviceFiles ∧ run.1.output = "") := by
  have houtputs : ∀ output ∈ ["/tmp/openapi.yaml", "../out/api.YML"],
      output ≠ standardOutput ∧ TextFormat.forOutput none output = .yaml := by decide +kernel
  refine ⟨?_, ?_⟩
  · have hrun : (serviceFiles.document "/tmp/service.yaml").toOption.any (fun d =>
        ["/tmp/openapi.yaml", "../out/api.YML"].all (fun output =>
          ((Files.system.writeText output (d.render .yaml)).run serviceFiles).1.isOk))
        = true := by decide +kernel
    cases hdocument : serviceFiles.document "/tmp/service.yaml" with
    | error e =>
      rw [hdocument] at hrun
      cases hrun
    | ok document =>
      refine ⟨document, rfl, fun output hmem isVerbose => ?_⟩
      obtain ⟨hout, hformat⟩ := houtputs output hmem
      have hwrite : ((Files.system.writeText output (document.render .yaml)).run
          serviceFiles).1 = .ok () := by
        rw [hdocument] at hrun
        have hok := List.all_eq_true.1 hrun output hmem
        generalize ((Files.system.writeText output (document.render .yaml)).run
          serviceFiles).1 = r at hok ⊢
        cases r with
        | error e => cases hok
        | ok _ => rfl
      have hall := (generate_files serviceFiles "/tmp/service.yaml" output none).1 isVerbose
      rw [hformat] at hall
      obtain ⟨hcode, hwrote, -⟩ := (hall.2 document hdocument).2 hout
      exact ⟨hcode.2 hwrite, hwrote (hcode.2 hwrite)⟩
  · cases hdocument : serviceFiles.document "service.yaml" with
    | ok document =>
      have hmissing : (serviceFiles.document "service.yaml").toOption.isNone = true := by
        decide +kernel
      rw [hdocument] at hmissing
      cases hmissing
    | error e =>
      refine ⟨e, rfl, fun isVerbose => ?_⟩
      obtain ⟨hcode, hfiles, houtput⟩ :=
        ((generate_files serviceFiles "service.yaml" "-" none).1 isVerbose).1 e hdocument
      exact ⟨hcode, hfiles, houtput rfl⟩

end CommandLine

end RpcOpenApi
