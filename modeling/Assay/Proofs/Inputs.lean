-- Inputs. A report on the bytes of a file and a report on the same bytes from
-- standard input are one report, if the bytes are a text. If they are none, the file
-- is told of, but standard input ends the run without an output.
import Assay.Proofs.Encoding
import Assay.Proofs.ExitCodes

namespace Assay

/-! ## Bytes that are a text -/

theorem textOfBytes_of_encode {bytes : List UInt8} {text : List Char}
    (h : bytes.toByteArray = text.utf8Encode) :
    textOfBytes bytes = .ok (String.ofList (unifyLineEnds text)) := by
  rw [textOfBytes, Utf8.decode_eq_ok_iff.mpr h]
  rfl

theorem Source.ofArgument_of_ne {name : String} (h : name ≠ "-") :
    ofArgument name = .file (.ofString name) :=
  if_neg h

theorem Invocation.reads_of_input {surroundings : Invocation} {source : String}
    (h : textOfBytes surroundings.input = .ok source) : surroundings.Reads "-" source :=
  h

theorem Invocation.reads_of_file {surroundings : Invocation} {name source : String}
    {bytes : List UInt8} (hname : name ≠ "-")
    (hfile : surroundings.files (.ofString name) = .ok (.file bytes))
    (h : textOfBytes bytes = .ok source) : surroundings.Reads name source := by
  unfold Reads
  rw [Source.ofArgument_of_ne hname]
  exact ⟨bytes, hfile, h⟩

/-! ## Bytes that are none -/

/-- A report on a file that is no text ends with 1, prints nothing and says why. -/
theorem run_of_bad_file {surroundings : Invocation} {word name : String} {report : Report}
    {bytes : List UInt8} {fault : Utf8.Fault} {arguments : List String}
    (hword : Report.ofWord? word = some report) (hname : name ≠ "-") (hflag : name ∉ verboseFlags)
    (hfile : surroundings.files (.ofString name) = .ok (.file bytes))
    (hfault : Utf8.decode bytes = .error fault) (hflags : WithFlags [word, name] arguments) :
    ∃ log : List String, run { surroundings with arguments } =
      .ok ⟨1, "", unlines (log ++
        [errorLine (SourceFault.notText (.ofString name) fault).message])⟩ := by
  have htext : (Entry.file bytes).text (.ofString name) =
      .error (.notText (.ofString name) fault) := by
    rw [Entry.text, textOfBytes, hfault]
    rfl
  unfold run
  simp only [hflags.ofArguments_eq hword hflag, Source.ofArgument_of_ne hname, hfile,
    Except.mapError, Except.map, Report.outputOfEntry, htext]
  exact ⟨_, rfl⟩

/-- Standard input that is no text breaks the run off. -/
theorem run_of_bad_input {surroundings : Invocation} {word : String} {report : Report}
    {fault : Utf8.Fault} {arguments : List String} (hword : Report.ofWord? word = some report)
    (hfault : Utf8.decode surroundings.input = .error fault)
    (hflags : WithFlags [word, "-"] arguments) :
    run { surroundings with arguments } = .error (.inputNotText fault) := by
  have htext : textOfBytes surroundings.input = .error fault := by
    rw [textOfBytes, hfault]
    rfl
  have hsource : Source.ofArgument "-" = .standardInput := rfl
  unfold run
  simp only [hflags.ofArguments_eq hword (by decide), hsource, htext]
  rfl

/-! ## The law -/

/-- The same bytes make the same report, from standard input and from a file of whatever name, if
they are the UTF-8 form of a text: then the report is on this text with its line ends made one, in
both cases with one exit code. If they are no such form, the file is told of on the error stream,
with nothing printed and exit code 1, but the run on standard input breaks off. All this is the
same whatever flags for the log are put among the arguments. -/
theorem the_same_bytes_make_the_same_report (piped filed : Invocation) (word name : String)
    (report : Report) (hword : Report.ofWord? word = some report) (hname : name ≠ "-")
    (hflag : name ∉ verboseFlags)
    (hfile : filed.files (.ofString name) = .ok (.file piped.input)) :
    (∀ text : List Char, piped.input.toByteArray = text.utf8Encode →
      ∃ exit stdout, stdout = unlines (report.lines (String.ofList (unifyLineEnds text))) ∧
        piped.Prints [word, "-"] exit stdout ∧ filed.Prints [word, name] exit stdout) ∧
    (¬ piped.input.toByteArray.IsValidUTF8 → ∃ fault : Utf8.Fault,
      (∀ arguments, WithFlags [word, name] arguments → ∃ log : List String,
        run { filed with arguments } = .ok ⟨1, "", unlines (log ++
          [errorLine (SourceFault.notText (.ofString name) fault).message])⟩) ∧
      ∀ arguments, WithFlags [word, "-"] arguments →
        run { piped with arguments } = .error (.inputNotText fault)) := by
  constructor
  · intro text hencode
    have htext := textOfBytes_of_encode hencode
    have hpiped := (Invocation.reads_of_input htext).prints (by decide) report hword
    have hfiled := (Invocation.reads_of_file hname hfile htext).prints hflag report hword
    exact ⟨_, _, rfl, hpiped, hfiled⟩
  · intro hinvalid
    obtain ⟨fault, hfault⟩ := Utf8.exists_fault_of_invalid hinvalid
    exact ⟨fault, fun arguments => run_of_bad_file hword hname hflag hfile hfault,
      fun arguments => run_of_bad_input hword hfault⟩

/-- The bytes on standard input and in every file. -/
def surroundingsOf (bytes : List UInt8) : Invocation :=
  { arguments := []
    logSetting := none
    input := bytes
    files := fun _ => .ok (.file bytes)
    clock := "" }

/-- A byte order mark stays, and a carriage return before a line feed goes. -/
theorem a_marked_text_makes_one_report :
    Report.ofWord? "parse" = some .tree ∧ "a" ≠ "-" ∧ "a" ∉ verboseFlags ∧
      ∃ exit, (surroundingsOf [0xEF, 0xBB, 0xBF, 0x78, 0x0D, 0x0A]).Prints ["parse", "-"] exit
          (unlines (Report.tree.lines "\uFEFFx\n")) ∧
        (surroundingsOf [0xEF, 0xBB, 0xBF, 0x78, 0x0D, 0x0A]).Prints ["parse", "a"] exit
          (unlines (Report.tree.lines "\uFEFFx\n")) := by
  obtain ⟨hvalid, -⟩ := the_same_bytes_make_the_same_report
    (surroundingsOf [0xEF, 0xBB, 0xBF, 0x78, 0x0D, 0x0A])
    (surroundingsOf [0xEF, 0xBB, 0xBF, 0x78, 0x0D, 0x0A]) "parse" "a" .tree rfl (by decide)
    (by decide) rfl
  obtain ⟨exit, stdout, rfl, hpiped, hfiled⟩ :=
    hvalid ['\uFEFF', 'x', '\r', '\n'] (by decide +kernel)
  exact ⟨rfl, by decide, by decide, exit, hpiped, hfiled⟩

/-- On a byte that starts no character, the report on a file fails as it should, and the run on
standard input breaks off without an exit code. -/
theorem a_stray_byte_on_standard_input_breaks_the_run :
    ¬ ∀ (bytes : List UInt8) (word name : String) (report : Report),
      Report.ofWord? word = some report → name ≠ "-" → name ∉ verboseFlags →
      ∃ exit stdout, (surroundingsOf bytes).Prints [word, "-"] exit stdout ∧
        (surroundingsOf bytes).Prints [word, name] exit stdout := by
  intro hagree
  obtain ⟨exit, stdout, hpiped, -⟩ := hagree [0xFF] "parse" "a" .tree rfl (by decide) (by decide)
  have hword : Report.ofWord? "parse" = some .tree := rfl
  have hfault : Utf8.decode (surroundingsOf [0xFF]).input = .error ⟨0, 1, 0xFF, .badStart⟩ := by
    decide +kernel
  have hflags : WithFlags ["parse", "-"] ["parse", "-"] := .word "parse" (.word "-" .nil)
  have hbreaks := run_of_bad_input hword hfault hflags
  obtain ⟨stderr, hrun⟩ := hpiped ["parse", "-"] hflags
  rw [hbreaks] at hrun
  cases hrun

end Assay
