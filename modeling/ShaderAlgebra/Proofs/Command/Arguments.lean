import Mathlib.Data.List.Infix
import ShaderAlgebra.Command

/-!
# Command lines that ask for a build

The words of a command line are taken apart into pieces before they are read. What
the pieces ask for is led back to the words: the flag for fingerprints is one of
them, and the path is part of one or is the one after the option's name. Every path
but the empty one can be asked for, with the flag and without it.
-/

namespace ShaderAlgebra.Command

namespace Argument

/-- The pieces of a word, by its form. -/
inductive Pieces : String → List Argument → Prop
  | escape : Pieces "--" [escape]
  | name (name : String) : Pieces ("--" ++ name) [long name none]
  | value (name value : String) : Pieces ("--" ++ name ++ "=" ++ value) [long name (some value)]
  | letters (word : String) (flag : Char) (flags : List Char) :
    Pieces word (letter flag :: flags.map letter)
  | plain (word : String) : Pieces word [plain word]

theorem pieces_ofWord (word : String) : Pieces word (ofWord word) := by
  unfold ofWord
  split
  next h =>
    obtain rfl : word = "--" := String.toList_inj.1 h
    exact .escape
  next text _ h =>
    have hsplit := List.takeWhile_append_dropWhile (p := (· != '=')) (l := text)
    dsimp only
    split
    next hnone =>
      have hword : word = "--" ++ String.ofList (text.takeWhile (· != '=')) := by
        rw [hnone, List.append_nil] at hsplit
        rw [hsplit]
        exact String.toList_inj.1 (by simp [h])
      rw [hword]
      exact .name _
    next c value hsome =>
      have hmark := List.head?_dropWhile_not (· != '=') text
      rw [hsome] at hsplit hmark
      obtain rfl : c = '=' := by simpa using hmark
      have hword : word = "--" ++ String.ofList (text.takeWhile (· != '=')) ++ "=" ++
          String.ofList value := String.toList_inj.1 (by simp [h, hsplit])
      rw [hword]
      exact .value _ _
  next => exact .letters word _ _
  next => exact .plain word

variable {word name value text : String} {pieces : List Argument}

theorem Pieces.ne_nil (h : Pieces word pieces) : pieces ≠ [] := by
  cases h <;> nofun

theorem Pieces.of_name (h : Pieces word pieces) (hname : long name none ∈ pieces) :
    word = "--" ++ name ∧ pieces = [long name none] := by
  cases h with
  | name name' =>
    obtain rfl : name = name' := by simpa using hname
    exact ⟨rfl, rfl⟩
  | escape | value | letters | plain => simp at hname

theorem Pieces.of_value (h : Pieces word pieces) (hvalue : long name (some value) ∈ pieces) :
    word = "--" ++ name ++ "=" ++ value := by
  cases h with
  | value name' value' =>
    obtain ⟨rfl, rfl⟩ : name = name' ∧ value = value' := by simpa using hvalue
    rfl
  | escape | name | letters | plain => simp at hvalue

theorem Pieces.of_plain (h : Pieces word pieces) (hplain : Argument.plain text ∈ pieces) :
    word = text := by
  cases h with
  | plain => simpa [eq_comm] using hplain
  | escape | name | value | letters => simp at hplain

end Argument

open Argument

variable {words : List String} {pieces : List Argument} {name value path : String}
  {given given' : BuildArguments} {fingerprint verbose : Bool}

/-- A name and a text that follow each other in the pieces are two words in a row. -/
theorem infix_of_infix_flatMap_ofWord
    (h : [long name none, plain value] <:+: words.flatMap ofWord) :
    ["--" ++ name, value] <:+: words := by
  induction words with
  | nil => simp at h
  | cons word words ih =>
    have hword := pieces_ofWord word
    -- A word with the name has no second piece.
    have halone : ¬[long name none, plain value] <:+: ofWord word := by
      intro hinside
      have hlength := hinside.length_le
      rw [(hword.of_name (hinside.subset List.mem_cons_self)).2] at hlength
      exact absurd hlength (Nat.not_succ_le_self 1)
    rw [List.flatMap_cons, List.infix_append_iff] at h
    rcases h with hinside | hlater | ⟨before, after, hboth, hbefore, hafter⟩
    · exact absurd hinside halone
    · exact List.infix_cons (ih hlater)
    · match before, after, hboth, words with
      | [], after, hboth, words =>
        rw [List.nil_append] at hboth
        exact List.infix_cons (ih (hboth ▸ hafter.isInfix))
      | [_], [_], rfl, [] => simp at hafter
      | [_], [_], rfl, next :: words =>
        obtain ⟨rfl, -⟩ := hword.of_name (hbefore.mem List.mem_cons_self)
        have hnext := pieces_ofWord next
        rw [List.flatMap_cons] at hafter
        cases hfirst : ofWord next with
        | nil => exact absurd hfirst hnext.ne_nil
        | cons piece rest =>
          rw [hfirst, List.cons_append, List.cons_prefix_cons] at hafter
          obtain rfl := hafter.1
          obtain rfl := hnext.of_plain (hfirst ▸ List.mem_cons_self)
          exact ⟨[], words, rfl⟩
      | [_, _], [], rfl, _ => exact absurd hbefore.isInfix halone

/-- The pieces name a path, after an equals sign or as the next piece. -/
def NamesPath (path : String) (pieces : List Argument) : Prop :=
  long "in" (some path) ∈ pieces ∨ [long "in" none, plain path] <:+: pieces

theorem NamesPath.cons (h : NamesPath path pieces) (piece : Argument) :
    NamesPath path (piece :: pieces) :=
  h.imp (List.mem_cons_of_mem piece) List.infix_cons

/-- What a build is asked for was given before, or the pieces give it. -/
structure Asks (given : BuildArguments) (pieces : List Argument) (path : String)
    (fingerprint : Bool) : Prop where
  fingerprint_iff : fingerprint = true ↔
    given.fingerprint = true ∨ long "fingerprint" none ∈ pieces
  path_or : given.path = some path ∨ NamesPath path pieces

/-- A piece that is not the flag for fingerprints leaves the rest as it is. -/
theorem Asks.cons (h : Asks given pieces path fingerprint) (piece : Argument)
    (hpiece : piece ≠ long "fingerprint" none) : Asks given (piece :: pieces) path fingerprint where
  fingerprint_iff := by rw [h.fingerprint_iff, List.mem_cons, or_iff_right hpiece.symm]
  path_or := h.path_or.imp_right (·.cons piece)

theorem asks_of_invocation (h : given.invocation = .build path fingerprint) :
    Asks given [] path fingerprint := by
  unfold BuildArguments.invocation at h
  split at h
  next hpath =>
    cases h
    exact ⟨by simp, .inl hpath⟩
  · cases h

/-- A path that is added is one that the pieces name. -/
theorem Asks.of_withPath {path' : String} (h : Asks given' pieces path fingerprint)
    (hgiven : given.withPath path' = some given') (hnames : NamesPath path' pieces) :
    Asks given pieces path fingerprint := by
  unfold BuildArguments.withPath at hgiven
  split at hgiven
  · cases hgiven
  · cases hgiven
    refine ⟨h.fingerprint_iff, ?_⟩
    rcases h.path_or with hpath | hlater
    · cases hpath
      exact .inr hnames
    · exact .inr hlater

/-- Whatever a build is asked for stands in its pieces; all else ends in the help or in misuse. -/
theorem asks_of_buildArguments (h : buildArguments given pieces = .build path fingerprint) :
    Asks given pieces path fingerprint := by
  fun_induction buildArguments given pieces with
  | case1 given => exact asks_of_invocation h
  | case2 given path' rest given' hgiven ih =>
    have hpieces := (ih h).cons (long "in" (some path')) (by simp)
    exact hpieces.of_withPath hgiven (.inl List.mem_cons_self)
  | case4 given path' rest given' hgiven ih =>
    have hpieces := ((ih h).cons (plain path') (by simp)).cons (long "in" none) (by simp)
    exact hpieces.of_withPath hgiven (.inr ⟨[], rest, rfl⟩)
  | case7 given rest _ ih =>
    have hrest := ih h
    refine ⟨?_, hrest.path_or.imp_right (·.cons _)⟩
    simp [hrest.fingerprint_iff]
  | case9 given piece rest _ _ hflag _ _ ih =>
    have hrest : Asks given rest path fingerprint := ⟨(ih h).fingerprint_iff, (ih h).path_or⟩
    exact hrest.cons piece hflag
  | case11 given piece rest _ _ hflag _ _ hend =>
    rw [hend.2]
    exact (asks_of_invocation h).cons piece hflag
  | _ => cases h

theorem listArguments_ne_build : listArguments verbose pieces ≠ .build path fingerprint := by
  fun_induction listArguments verbose pieces with
  | case3 => assumption
  | _ => nofun

theorem helpArguments_ne_build : helpArguments pieces ≠ .build path fingerprint := by
  unfold helpArguments
  split
  · nofun
  · split <;> nofun
  · nofun

theorem asks_of_commandArguments
    (h : commandArguments verbose pieces = .build path fingerprint) :
    Asks {} pieces path fingerprint := by
  fun_induction commandArguments verbose pieces with
  | case2 => exact absurd h listArguments_ne_build
  | case3 verbose rest => exact (asks_of_buildArguments h).cons (plain "build") (by simp)
  | case4 => exact absurd h helpArguments_ne_build
  | case6 verbose piece rest _ _ _ hverbose _ ih =>
    refine (ih h).cons piece ?_
    rintro rfl
    cases hverbose
  | _ => cases h

/-- A command line that asks for a build asks for fingerprints exactly if one of its words is the
flag for them, and it names the path. -/
theorem words_of_build (h : Invocation.ofArguments words = .build path fingerprint) :
    (fingerprint = true ↔ "--fingerprint" ∈ words) ∧
      ("--in=" ++ path ∈ words ∨ ["--in", path] <:+: words) := by
  have hasks := asks_of_commandArguments h
  constructor
  · have hflag : ofWord "--fingerprint" = [long "fingerprint" none] := by decide
    rw [hasks.fingerprint_iff, or_iff_right (by simp), List.mem_flatMap]
    constructor
    · rintro ⟨word, hword, hmem⟩
      rwa [((pieces_ofWord word).of_name hmem).1] at hword
    · intro hword
      exact ⟨_, hword, by simp [hflag]⟩
  · rcases hasks.path_or with hpath | hvalue | hnext
    · cases hpath
    · obtain ⟨word, hword, hmem⟩ := List.mem_flatMap.1 hvalue
      rw [(pieces_ofWord word).of_value hmem] at hword
      exact .inl hword
    · exact .inr (infix_of_infix_flatMap_ofWord hnext)

theorem ofWord_path (path : String) : ofWord ("--in=" ++ path) = [long "in" (some path)] := by
  have hword : ("--in=" ++ path).toList = '-' :: '-' :: 'i' :: 'n' :: '=' :: path.toList := by
    rw [String.toList_append]
    rfl
  unfold ofWord
  rw [hword]
  simp

/-- Any path but the empty one can be asked for, with fingerprints or without. -/
theorem ofArguments_build (path : String) (hpath : path ≠ "") (fingerprint : Bool) :
    Invocation.ofArguments
        ("build" :: (if fingerprint then ["--fingerprint"] else []) ++ ["--in=" ++ path]) =
      .build path fingerprint := by
  have hpathGiven : (⟨none, fingerprint, false⟩ : BuildArguments).withPath path =
      some ⟨some path, fingerprint, false⟩ := by
    simp [BuildArguments.withPath, hpath]
  have hbuild : ofWord "build" = [plain "build"] := by decide
  have hflag : ofWord "--fingerprint" = [long "fingerprint" none] := by decide
  cases fingerprint <;>
    simp [Invocation.ofArguments, commandArguments, buildArguments, hbuild, hflag, ofWord_path,
      hpathGiven, BuildArguments.invocation]

end ShaderAlgebra.Command
