import ShaderAlgebra.Proofs.Command.Arguments
import ShaderAlgebra.Proofs.Digest.Text
import ShaderAlgebra.Proofs.Request.Store
import ShaderAlgebra.Proofs.SharedText.Rendering

/-!
# Builds print all or nothing

A file is built if its content is a request that gives outputs. In this case the
bindings are printed and one entry for each of the outputs, and none is lost when
the outputs are paired with their texts. In every other case there is an error to
report, as no request breaks a rule of a primitive, and nothing is printed.
-/

namespace ShaderAlgebra.Command

open ShaderAlgebra.Expr Build Digest

/-- The text that shows an output: its number, its type, the text of its root and, if asked for,
its fingerprint in brackets. -/
inductive Entry (i : Nat) (output : Expr) (root : String) : (fingerprint : Bool) → String → Prop
  | plain : Entry i output root false
      ("out" ++ toString i ++ ": " ++ output.type.name ++ " = " ++ root)
  | marked (digits : String)
      (h : WritesHex digits 32
        (output.fingerprint.hi.toNat * 2 ^ 64 + output.fingerprint.lo.toNat)) :
      Entry i output root true
        ("out" ++ toString i ++ ": " ++ output.type.name ++ " = " ++ root ++ " [" ++ digits ++ "]")

/-- The text consists of lines: the bindings that the outputs share, and then the entries of the
outputs, `count` in number and in their order. There are as many texts of roots. -/
def Prints (fingerprint : Bool) (count : Nat) (outputs : List Expr) (text : String) : Prop :=
  ∃ entries : List String,
    text = String.join (((SharedText.render outputs).bindings ++ entries).map (· ++ "\n")) ∧
    outputs.length = count ∧ (SharedText.render outputs).roots.length = count ∧
    entries.length = count ∧
    ∀ i < count, ∃ output root entry, outputs[i]? = some output ∧
      (SharedText.render outputs).roots[i]? = some root ∧ entries[i]? = some entry ∧
      Entry i output root fingerprint entry

variable {outputs : List Expr}

theorem entry_outputLine (fingerprint : Bool) (i : Nat) (output : Expr) (root : String) :
    Entry i output root fingerprint (outputLine fingerprint i output root) := by
  cases fingerprint with
  | false =>
    rw [outputLine, if_neg nofun, String.append_empty]
    exact .plain
  | true =>
    rw [outputLine, if_pos rfl, ← String.append_assoc, ← String.append_assoc]
    exact .marked _ (writesHex_text _)

/-- No output is left without a text when the two are paired, and no text without an output. -/
theorem prints_outputsText (h : Coherent outputs) (fingerprint : Bool) :
    Prints fingerprint outputs.length outputs (outputsText fingerprint outputs) := by
  have hroots : (SharedText.render outputs).roots = outputs.map (SharedText.shared outputs) := by
    rw [SharedText.render_eq h]
  refine ⟨_, rfl, rfl, ?_, ?_, fun i hi => ?_⟩
  · rw [hroots, List.length_map]
  · simp [hroots]
  · have houtput : outputs[i]? = some outputs[i] := List.getElem?_eq_getElem hi
    refine ⟨outputs[i], SharedText.shared outputs outputs[i], _, houtput, ?_, ?_,
      entry_outputLine ..⟩
    · rw [hroots, List.getElem?_map, houtput]
      rfl
    · simp [hroots, hi]

/-! ### What a file gives -/

/-- The content is a request, and the request builds the outputs. -/
def Source.Builds (source : Source) (request : Request) (outputs : List Expr) : Prop :=
  ∃ bytes, source = .content bytes ∧ Request.parse bytes = .ok request ∧
    request.build.result = .ok outputs

/-- There is an error to report: the file cannot be read, its content is no request, or the
request is refused. -/
inductive Source.Fails : Source → Prop
  | unopened (reason : String) : Fails (.unopened reason)
  | unread (reason : String) : Fails (.unread reason)
  | unparsed (bytes : List UInt8) (e : Error) (h : Request.parse bytes = .error e) :
    Fails (.content bytes)
  | refused (bytes : List UInt8) (request : Request) (e : Error)
    (h : Request.parse bytes = .ok request)
    (hbuild : request.build.result = .error (.refused e)) : Fails (.content bytes)

section Stages

variable {source : Source} {request : Request}

/-- A request that is read gives outputs or is refused with an error: no rule of a primitive is
broken on the way. -/
theorem Source.builds_or_fails (source : Source) :
    (∃ request outputs, source.Builds request outputs) ∨ source.Fails := by
  cases source with
  | unopened reason => exact .inr (.unopened reason)
  | unread reason => exact .inr (.unread reason)
  | content bytes =>
    cases hparse : Request.parse bytes with
    | error e => exact .inr (.unparsed bytes e hparse)
    | ok request =>
      have hmeets : Meets (fun failure => ∃ e, failure = .refused e) request.build
          request.operator.Outputs := request.build_meets fun e => ⟨e, rfl⟩
      have hresult := hmeets Literal.identities
      cases hbuild : request.build.result with
      | ok outputs => exact .inl ⟨request, outputs, bytes, rfl, hparse, hbuild⟩
      | error failure =>
        rw [result] at hbuild
        rw [hbuild] at hresult
        obtain ⟨e, rfl⟩ := hresult
        exact .inr (.refused bytes request e hparse hbuild)

/-- The printed outputs are as many as the operator gives. -/
theorem Source.Builds.prints (h : source.Builds request outputs) (fingerprint : Bool) :
    Prints fingerprint request.operator.outputs outputs (outputsText fingerprint outputs) := by
  obtain ⟨bytes, -, -, hbuild⟩ := h
  have hcoherent : Coherent outputs := (Request.build_sound (Nat.le_refl _) hbuild).1
  have hmeets : Meets (fun _ => True) request.build request.operator.Outputs :=
    request.build_meets fun _ => trivial
  have hcount : outputs.length = request.operator.outputs := (hmeets.of_ok hbuild).1
  rw [← hcount]
  exact prints_outputsText hcoherent fingerprint

theorem runBuild_of_builds (h : source.Builds request outputs) (path : String)
    (fingerprint : Bool) :
    runBuild path fingerprint source =
      { exit := 0, stdout := outputsText fingerprint outputs } := by
  obtain ⟨bytes, rfl, hparse, hbuild⟩ := h
  simp only [runBuild, hparse, hbuild]

theorem runBuild_of_fails (h : source.Fails) (path : String) (fingerprint : Bool) :
    ∃ message, runBuild path fingerprint source = failed message := by
  cases h with
  | unopened | unread => exact ⟨_, rfl⟩
  | unparsed bytes e hparse =>
    simp only [runBuild, hparse]
    exact ⟨_, rfl⟩
  | refused bytes request e hparse hbuild =>
    simp only [runBuild, hparse, hbuild]
    exact ⟨_, rfl⟩

end Stages

variable {args : List String} {path : String} {fingerprint : Bool}

theorem run_build (source : String → Source)
    (h : Invocation.ofArguments args = .build path fingerprint) :
    run source args = runBuild path fingerprint (source path) := by
  rw [run, h]
  rfl

/-- A command line that asks for a build exits with 0 exactly if the content of its file is a
request that builds outputs, and then it prints the bindings and the entries of all of them.
Otherwise there is an error, it exits with 1 and prints nothing. -/
theorem build_prints_all_or_nothing (source : String → Source)
    (h : Invocation.ofArguments args = .build path fingerprint) :
    ((fingerprint = true ↔ "--fingerprint" ∈ args) ∧
      ("--in=" ++ path ∈ args ∨ ["--in", path] <:+: args)) ∧
    ((run source args).exit = 0 ↔ ∃ request outputs, (source path).Builds request outputs) ∧
    (∀ request outputs, (source path).Builds request outputs →
      Prints fingerprint request.operator.outputs outputs (run source args).stdout) ∧
    ((run source args).exit ≠ 0 →
      (run source args).exit = 1 ∧ (run source args).stdout = "" ∧ (source path).Fails) := by
  rw [run_build source h]
  refine ⟨words_of_build h, ?status, ?printed, ?failed⟩
  case status =>
    constructor
    · intro hexit
      refine (source path).builds_or_fails.resolve_right fun hfails => ?_
      obtain ⟨message, hrun⟩ := runBuild_of_fails hfails path fingerprint
      rw [hrun] at hexit
      cases hexit
    · rintro ⟨request, outputs, hbuilds⟩
      rw [runBuild_of_builds hbuilds]
  case printed =>
    intro request outputs hbuilds
    rw [runBuild_of_builds hbuilds]
    exact hbuilds.prints fingerprint
  case failed =>
    intro hexit
    rcases (source path).builds_or_fails with ⟨request, outputs, hbuilds⟩ | hfails
    · rw [runBuild_of_builds hbuilds] at hexit
      exact absurd rfl hexit
    · obtain ⟨message, hrun⟩ := runBuild_of_fails hfails path fingerprint
      rw [hrun]
      exact ⟨rfl, rfl, hfails⟩

def polarRequest : Request := ⟨.rectangularToPolar, [.input .float2 (some "p")]⟩

/-- A file with `polarRequest`, and one that asks for the direction of an integer. -/
def requestFiles (path : String) : Source :=
  if path = "polar.json" then .content (Request.bytesOfString
    "\x7b\"operator\":\"rectangular_to_polar\",\"inputs\":[\x7b\"input\":\"float2\",\"name\":\"p\"\x7d]\x7d")
  else if path = "normalize.json" then .content (Request.bytesOfString
    "\x7b\"operator\":\"normalize\",\"inputs\":[\x7b\"int\":3\x7d]\x7d")
  else .unopened "No such file or directory (os error 2)"

theorem build_prints_polar_or_nothing :
    (Invocation.ofArguments ["build", "--fingerprint", "--in", "polar.json"] =
        .build "polar.json" true ∧
      (run requestFiles ["build", "--fingerprint", "--in", "polar.json"]).exit = 0 ∧
      ∃ outputs, polarRequest.build.result = .ok outputs ∧
        outputs.map Expr.text = ["atan2(p.y, p.x)", "pow(((p * p).y + (p * p).x), 0.5)"] ∧
        Prints true 2 outputs
          (run requestFiles ["build", "--fingerprint", "--in", "polar.json"]).stdout) ∧
    Invocation.ofArguments ["build", "--in=normalize.json"] = .build "normalize.json" false ∧
      (run requestFiles ["build", "--in=normalize.json"]).exit = 1 ∧
      (run requestFiles ["build", "--in=normalize.json"]).stdout = "" := by
  have hpolar : Invocation.ofArguments ["build", "--fingerprint", "--in", "polar.json"] =
      .build "polar.json" true := by decide +kernel
  have hnormalize : Invocation.ofArguments ["build", "--in=normalize.json"] =
      .build "normalize.json" false := ofArguments_build "normalize.json" (by decide) false
  obtain ⟨outputs, hbuild, htexts⟩ : ∃ outputs, polarRequest.build.result = .ok outputs ∧
      outputs.map Expr.text = ["atan2(p.y, p.x)", "pow(((p * p).y + (p * p).x), 0.5)"] :=
    ⟨_, rfl, by decide +kernel⟩
  have hbuilds : (requestFiles "polar.json").Builds polarRequest outputs :=
    ⟨_, rfl, by decide +kernel, hbuild⟩
  have hone : (run requestFiles ["build", "--in=normalize.json"]).exit ≠ 0 := by decide +kernel
  obtain ⟨-, hexit, hprints, -⟩ := build_prints_all_or_nothing requestFiles hpolar
  obtain ⟨-, -, -, hfails⟩ := build_prints_all_or_nothing requestFiles hnormalize
  exact ⟨⟨hpolar, hexit.2 ⟨_, _, hbuilds⟩, outputs, hbuild, htexts, hprints _ _ hbuilds⟩,
    hnormalize, (hfails hone).1, (hfails hone).2.1⟩

end ShaderAlgebra.Command
