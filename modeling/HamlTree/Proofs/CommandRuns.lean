import Mathlib.Control.Monad.Basic
import HamlTree.CommandLine.Run
import HamlTree.Proofs.CommandItems

/-!
# What a run leaves behind

What a run leaves behind depends on little of its command line. Whether the path names a template
decides about the exit code; the command, the flag `--json` after it and the template decide what is
printed; and what is said about a failure without `-v` does not even depend on the command
(`CommandLine.runs_agree`). All of these can be told from the items of the command line
(`CommandLine.words_of_ofArgs`, `CommandLine.json_iff_of_ofArgs`,
`CommandLine.verbose_iff_of_ofArgs`). So options and `-v` change nothing, wherever they stand,
except that `-v` adds a report.
-/

namespace HamlTree

namespace CommandLine

/-! ### Outcomes -/

/-- The text that is found under a path, if it is one. -/
def Content.text? : Content → Option String
  | bytes b => String.fromUTF8? b
  | _ => none

/-- A text that was encoded is found. -/
theorem text?_toUTF8 (source : String) : Content.text? (.bytes source.toUTF8) = some source :=
  dif_pos source.isValidUTF8

/-- The template that is found under a path, if it is a text that can be parsed. -/
def Content.template? (content : Content) : Option Template :=
  content.text?.bind fun source ↦ (parse source).toOption

theorem template?_eq_some_iff {content : Content} {t : Template} :
    content.template? = some t ↔ ∃ source, content.text? = some source ∧ parse source = .ok t := by
  rw [Content.template?, Option.bind_eq_some_iff]
  refine exists_congr fun source ↦ and_congr_right fun _ ↦ ?_
  rcases parse source with e | t' <;> simp [Except.toOption]

/-- What is left behind by carrying out a command on what its path names. -/
structure Accounts (i : Invocation) (content : Content) (o : Outcome) : Prop where
  /-- The exit code is 0 when the path names a text that can be parsed, -/
  success : o.code = 0 ↔ ∃ source t, content.text? = some source ∧ parse source = .ok t
  /-- and otherwise it is 1. -/
  failure : o.code ≠ 0 → o.code = 1
  /-- A failing run prints nothing, -/
  silent : o.code ≠ 0 → o.stdout = ""
  /-- and neither does `check`. -/
  check : i.command = .check → o.stdout = ""
  /-- What `tree` prints of a template is its outline, -/
  outline : ∀ source t, content.text? = some source → parse source = .ok t →
    i.command = .tree false → o.stdout = t.outline
  /-- or with `--json` its pretty JSON text and a line feed. -/
  json : ∀ source t, content.text? = some source → parse source = .ok t →
    i.command = .tree true → o.stdout = t.toJson.pretty ++ "\n"
  /-- Without `-v` a parse error is reported as it is displayed, after the path. -/
  complaint : ∀ source e, content.text? = some source → parse source = .error e →
    i.verbose = false → o.stderr = i.path ++ ": " ++ e.display ++ "\n"

/-- A text that is found is what the command is carried out on. -/
theorem run_of_text?_eq_some (i : Invocation) {content : Content} {source : String}
    (h : content.text? = some source) : i.run content = i.runText source := by
  cases content with
  | bytes b =>
    have h : String.fromUTF8? b = some source := h
    rw [Invocation.run, h]
  | missing | unreadable => exact absurd h nofun

/-- Without a text a run fails and prints nothing, and what it says depends on the path alone. -/
theorem run_of_text?_eq_none {content : Content} (h : content.text? = none) (i : Invocation) :
    (i.run content).code = 1 ∧ (i.run content).stdout = "" ∧
      ∀ i' : Invocation, i'.path = i.path → i'.run content = i.run content := by
  cases content with
  | bytes b =>
    have h : String.fromUTF8? b = none := h
    have hrun : ∀ i : Invocation, i.run (.bytes b) =
        { code := 1, stderr := s!"Error reading {i.path}: {notText}\n" } := fun i ↦ by
      rw [Invocation.run, h]
    exact ⟨by rw [hrun], by rw [hrun], fun i' hpath ↦ by rw [hrun, hrun, hpath]⟩
  | missing | unreadable =>
    exact ⟨rfl, rfl, fun i' hpath ↦ by rw [Invocation.run, Invocation.run, hpath]⟩

/-- Where a template is found, it is printed as the command says. -/
theorem run_of_template?_eq_some (i : Invocation) {content : Content} {t : Template}
    (h : content.template? = some t) :
    (i.run content).code = 0 ∧ (i.run content).stdout = i.command.print t := by
  obtain ⟨source, htext, hparse⟩ := template?_eq_some_iff.1 h
  rw [parse] at hparse
  rw [run_of_text?_eq_some i htext]
  simp [Invocation.runText, hparse]

/-- Where none is found, the run fails and prints nothing. -/
theorem run_of_template?_eq_none (i : Invocation) {content : Content}
    (h : content.template? = none) : (i.run content).code = 1 ∧ (i.run content).stdout = "" := by
  rcases htext : content.text? with - | source
  · obtain ⟨hcode, hstdout, -⟩ := run_of_text?_eq_none htext i
    exact ⟨hcode, hstdout⟩
  · rw [run_of_text?_eq_some i htext]
    rcases hresult : (trace source).result with e | t
    · simp [Invocation.runText, hresult]
    · exact absurd (h.symm.trans (template?_eq_some_iff.2 ⟨source, htext, hresult⟩)) nofun

/-- Without `-v` a parse error is all that is reported. -/
theorem stderr_run_of_error {i : Invocation} (hquiet : i.verbose = false) {content : Content}
    {source : String} {e : ParseError} (htext : content.text? = some source)
    (hparse : parse source = .error e) :
    (i.run content).stderr = i.path ++ ": " ++ e.display ++ "\n" := by
  rw [parse] at hparse
  rw [run_of_text?_eq_some i htext]
  simp [Invocation.runText, hparse, hquiet]
  rfl

/-- **A run is accounted for by its command and by what its path names.** -/
theorem accounts_run (i : Invocation) (content : Content) : Accounts i content (i.run content) := by
  have hcomplaint := fun source e htext he hquiet ↦
    @stderr_run_of_error i hquiet content source e htext he
  have hfound : ∀ {source t}, content.text? = some source → parse source = .ok t →
      content.template? = some t := fun htext ht ↦ template?_eq_some_iff.2 ⟨_, htext, ht⟩
  rcases h : content.template? with - | t
  · obtain ⟨hcode, hstdout⟩ := run_of_template?_eq_none i h
    have hnone : ∀ {source t}, content.text? = some source → parse source ≠ .ok t :=
      fun htext ht ↦ absurd (h.symm.trans (hfound htext ht)) nofun
    exact
      { success := ⟨fun hzero ↦ absurd (hcode.symm.trans hzero) Nat.one_ne_zero,
          fun ⟨_, _, htext, ht⟩ ↦ absurd ht (hnone htext)⟩
        failure := fun _ ↦ hcode
        silent := fun _ ↦ hstdout
        check := fun _ ↦ hstdout
        outline := fun _ _ htext ht ↦ absurd ht (hnone htext)
        json := fun _ _ htext ht ↦ absurd ht (hnone htext)
        complaint := hcomplaint }
  · obtain ⟨hcode, hstdout⟩ := run_of_template?_eq_some i h
    have hprint : ∀ {source t'}, content.text? = some source → parse source = .ok t' →
        (i.run content).stdout = i.command.print t' := fun htext ht ↦ by
      rw [hstdout, Option.some.inj (h.symm.trans (hfound htext ht))]
    obtain ⟨source, htext, ht⟩ := template?_eq_some_iff.1 h
    exact
      { success := ⟨fun _ ↦ ⟨source, t, htext, ht⟩, fun _ ↦ hcode⟩
        failure := fun hfails ↦ absurd hcode hfails
        silent := fun hfails ↦ absurd hcode hfails
        check := fun hcommand ↦ by rw [hstdout, hcommand]; rfl
        outline := fun _ _ htext ht hcommand ↦ by rw [hprint htext ht, hcommand]; rfl
        json := fun _ _ htext ht hcommand ↦ by rw [hprint htext ht, hcommand]; rfl
        complaint := hcomplaint }

/-- Two runs on the same path end alike. The same command prints the same, and without `-v` the same
is said about a failure whatever the command. -/
theorem run_agrees {i i' : Invocation} (hpath : i'.path = i.path) (content : Content) :
    (i'.run content).code = (i.run content).code ∧
      (i'.command = i.command → (i'.run content).stdout = (i.run content).stdout) ∧
      ((i.run content).code ≠ 0 → i.verbose = false → i'.verbose = false →
        (i'.run content).stderr = (i.run content).stderr) := by
  rcases h : content.template? with - | t
  · obtain ⟨hcode, hstdout⟩ := run_of_template?_eq_none i h
    obtain ⟨hcode', hstdout'⟩ := run_of_template?_eq_none i' h
    refine ⟨hcode'.trans hcode.symm, fun _ ↦ hstdout'.trans hstdout.symm, ?_⟩
    intro _ hquiet hquiet'
    -- without a template there is no text, or a text with a fault
    rcases htext : content.text? with - | source
    · rw [(run_of_text?_eq_none htext i).2.2 i' hpath]
    · rcases hparse : parse source with e | t
      · rw [stderr_run_of_error hquiet htext hparse, stderr_run_of_error hquiet' htext hparse,
          hpath]
      · exact absurd (h.symm.trans (template?_eq_some_iff.2 ⟨source, htext, hparse⟩)) nofun
  · obtain ⟨hcode, hstdout⟩ := run_of_template?_eq_some i h
    obtain ⟨hcode', hstdout'⟩ := run_of_template?_eq_some i' h
    refine ⟨hcode'.trans hcode.symm, fun hcommand ↦ ?_, fun hfails ↦ absurd hcode hfails⟩
    rw [hstdout, hstdout', hcommand]

/-- Commands of one name are the same when both print JSON or neither does. -/
theorem Command.eq_of_name_eq {c c' : Command} (hname : c'.name = c.name)
    (hjson : c' = .tree true ↔ c = .tree true) : c' = c := by
  cases c with
  | check =>
    cases c' with
    | check => rfl
    | tree =>
      have hname : "tree" = "check" := hname
      exact absurd hname (by decide)
  | tree json =>
    cases c' with
    | check =>
      have hname : "check" = "tree" := hname
      exact absurd hname (by decide)
    | tree json' =>
      have hsame : json' = true ↔ json = true := by simpa using hjson
      rw [Bool.eq_iff_iff.2 hsame]

/-- **Exit codes and outputs agree across commands and options.** The words of an accepted command
line are the name of a command and a path, the command prints JSON when `--json` stands after it,
and `-v` counts wherever it stands. What a run leaves behind is accounted for by these. Another
accepted command line for the same path has the same exit code; it prints the same if it has the
same words, and `--json` or not; and without `-v` the same is said about a failure whatever the
command. -/
theorem runs_agree {args : List String} {i : Invocation} (h : Invocation.ofArgs args = .ok i) :
    words (items false args) = [.word i.command.name, .word i.path] ∧
      (i.command = .tree true ↔ .flag "json" ∈ afterCommand args) ∧
      (i.verbose = true ↔ .flag "verbose" ∈ items false args) ∧
      (∀ d : Directory, runIn d args = i.run (d.read i.path)) ∧
      (∀ content, Accounts i content (i.run content)) ∧
      ∀ args' i', Invocation.ofArgs args' = .ok i' → i'.path = i.path → ∀ content,
        (i'.run content).code = (i.run content).code ∧
        (words (items false args') = words (items false args) →
          (.flag "json" ∈ afterCommand args' ↔ .flag "json" ∈ afterCommand args) →
          (i'.run content).stdout = (i.run content).stdout) ∧
        ((i.run content).code ≠ 0 →
          .flag "verbose" ∉ items false args → .flag "verbose" ∉ items false args' →
          (i'.run content).stderr = (i.run content).stderr) := by
  have hjson := json_iff_of_ofArgs h
  have hverbose := verbose_iff_of_ofArgs h
  refine ⟨words_of_ofArgs h, hjson, hverbose, fun d ↦ by rw [runIn, h], accounts_run i, ?_⟩
  intro args' i' h' hpath content
  obtain ⟨hcode, hstdout, hstderr⟩ := run_agrees hpath content
  refine ⟨hcode, fun hwords hflag ↦ hstdout ?_, fun hfails hquiet hquiet' ↦ hstderr hfails ?_ ?_⟩
  · rw [words_of_ofArgs h, words_of_ofArgs h'] at hwords
    have hname : i'.command.name = i.command.name := Item.word.inj (List.cons.inj hwords).1
    exact Command.eq_of_name_eq hname ((json_iff_of_ofArgs h').trans (hflag.trans hjson.symm))
  · exact Bool.eq_false_iff.2 (mt hverbose.1 hquiet)
  · exact Bool.eq_false_iff.2 (mt (verbose_iff_of_ofArgs h').1 hquiet')

/-- The file `a` holds one line of text, which is printed as JSON by a command line with `-v` before
the command and an option after it, and the same by one that has neither. -/
theorem runs_agree_json :
    let d : Directory := ⟨[("a", .file "b".toUTF8)]⟩
    (runIn d ["-v", "tree", "-ok=1", "a", "--json"]).code = 0 ∧
      (runIn d ["-v", "tree", "-ok=1", "a", "--json"]).stdout =
        (Template.mk [.leaf .plainText "b"]).toJson.pretty ++ "\n" ∧
      (runIn d ["tree", "--json", "a"]).stdout =
        (runIn d ["-v", "tree", "-ok=1", "a", "--json"]).stdout := by
  intro d
  have h : Invocation.ofArgs ["-v", "tree", "-ok=1", "a", "--json"] =
      .ok ⟨.tree true, "a", true, [("k", "1")]⟩ := by decide +kernel
  have h' : Invocation.ofArgs ["tree", "--json", "a"] = .ok ⟨.tree true, "a", false, []⟩ := by
    decide +kernel
  have hread : d.read "a" = .bytes "b".toUTF8 := by
    rw [Directory.read, if_neg (by decide +kernel), Directory.components]
    rfl
  have hparse : parse "b" = .ok ⟨[.leaf .plainText "b"]⟩ := by decide +kernel
  obtain ⟨-, -, -, hrun, haccounts, hagree⟩ := runs_agree h
  have hof := haccounts (.bytes "b".toUTF8)
  obtain ⟨-, hstdout, -⟩ := hagree _ _ h' rfl (.bytes "b".toUTF8)
  have hwords : words (items false ["tree", "--json", "a"]) =
      words (items false ["-v", "tree", "-ok=1", "a", "--json"]) := by decide +kernel
  have hflag : .flag "json" ∈ afterCommand ["tree", "--json", "a"] ↔
      .flag "json" ∈ afterCommand ["-v", "tree", "-ok=1", "a", "--json"] := by decide +kernel
  have hrun' : runIn d ["tree", "--json", "a"] =
      (⟨.tree true, "a", false, []⟩ : Invocation).run (d.read "a") := by rw [runIn, h']
  rw [hrun, hrun', hread]
  exact ⟨hof.success.2 ⟨_, _, text?_toUTF8 "b", hparse⟩,
    hof.json _ _ (text?_toUTF8 "b") hparse rfl, hstdout hwords hflag⟩

end CommandLine

end HamlTree
