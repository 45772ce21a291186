import ShaderAlgebra.Proofs.Text.Words

/-!
# Words in a text

A word of a text is a run of name characters that goes on at neither side. If
there is a break at the border of two texts, a word of the whole is a word of
one of them.
-/

namespace ShaderAlgebra

/-- No word goes on from before the text into it. -/
def opensWithBreak (text : List Char) : Bool := text.head?.all (!isNameChar ·)

/-- No word goes on from the text into what follows it. -/
def endsWithBreak (text : List Char) : Bool := text.getLast?.all (!isNameChar ·)

/-- `w` stands in a text as a word, with `pre` before it and `post` after it. -/
structure WordAt (text pre w post : List Char) : Prop where
  text_eq : text = pre ++ (w ++ post)
  ne_nil : w ≠ []
  chars : ∀ c ∈ w, isNameChar c = true
  before : endsWithBreak pre = true
  after : opensWithBreak post = true

def HasWord (text w : List Char) : Prop := ∃ pre post, WordAt text pre w post

variable {text pre w post u v : List Char} {c : Char}

theorem opensWithBreak_append (hu : opensWithBreak u = true) (hv : opensWithBreak v = true) :
    opensWithBreak (u ++ v) = true := by
  cases u with
  | nil => exact hv
  | cons c u => exact hu

theorem endsWithBreak_append (hu : v = [] → endsWithBreak u = true)
    (hv : endsWithBreak v = true) : endsWithBreak (u ++ v) = true := by
  rw [endsWithBreak, List.getLast?_append]
  cases hlast : v.getLast? with
  | none => exact hu (List.getLast?_eq_none_iff.1 hlast)
  | some c =>
    rw [endsWithBreak, hlast] at hv
    exact hv

theorem opensWithBreak_of_append (h : opensWithBreak (u ++ v) = true) :
    opensWithBreak u = true := by
  cases u with
  | nil => rfl
  | cons c u => exact h

theorem endsWithBreak_of_append (h : endsWithBreak (u ++ v) = true) : endsWithBreak v = true := by
  rw [endsWithBreak, List.getLast?_append] at h
  cases hlast : v.getLast? with
  | none => rw [endsWithBreak, hlast, Option.all_none]
  | some c =>
    rw [hlast] at h
    rw [endsWithBreak, hlast]
    exact h

theorem eq_nil_of_opensWithBreak (h : opensWithBreak u = true)
    (hu : ∀ c ∈ u, isNameChar c = true) : u = [] := by
  cases u with
  | nil => rfl
  | cons c u => simp [opensWithBreak, hu c List.mem_cons_self] at h

theorem eq_nil_of_endsWithBreak (h : endsWithBreak u = true)
    (hu : ∀ c ∈ u, isNameChar c = true) : u = [] := by
  cases hlast : u.getLast? with
  | none => exact List.getLast?_eq_none_iff.1 hlast
  | some c => simp [endsWithBreak, hlast, hu c (List.mem_of_getLast? hlast)] at h

namespace WordAt

theorem length_lt (h : WordAt text pre w post) : pre.length < text.length := by
  have hpos := List.length_pos_iff.2 h.ne_nil
  rw [h.text_eq, List.length_append, List.length_append]
  omega

/-- A text of name characters has no other word than itself. -/
theorem eq_of_chars (h : WordAt text pre w post) (htext : ∀ c ∈ text, isNameChar c = true) :
    pre = [] ∧ w = text := by
  rw [h.text_eq] at htext
  have hpre : pre = [] := eq_nil_of_endsWithBreak h.before fun c hc => htext c (by simp [hc])
  have hpost : post = [] := eq_nil_of_opensWithBreak h.after fun c hc => htext c (by simp [hc])
  exact ⟨hpre, by simp [h.text_eq, hpre, hpost]⟩

/-- A word of a part that stands between breaks is a word of the whole. -/
theorem between (h : WordAt text pre w post) (hu : endsWithBreak u = true)
    (hv : opensWithBreak v = true) :
    WordAt (u ++ (text ++ v)) (u ++ pre) w (post ++ v) where
  text_eq := by simp [h.text_eq]
  ne_nil := h.ne_nil
  chars := h.chars
  before := endsWithBreak_append (fun _ => hu) h.before
  after := opensWithBreak_append h.after hv

/-- A word does not go over a border with a break. -/
theorem append_cases (h : WordAt (u ++ v) pre w post)
    (hborder : endsWithBreak u = true ∨ opensWithBreak v = true) :
    (∃ m, post = m ++ v ∧ WordAt u pre w m) ∨ ∃ m, pre = u ++ m ∧ WordAt v m w post := by
  obtain ⟨htext, hne, hchars, hbefore, hafter⟩ := h
  rcases List.append_eq_append_iff.1 htext with ⟨m, rfl, rfl⟩ | ⟨m, rfl, hrest⟩
  · exact .inr ⟨m, rfl, rfl, hne, hchars, endsWithBreak_of_append hbefore, hafter⟩
  · rcases List.append_eq_append_iff.1 hrest with ⟨n, rfl, rfl⟩ | ⟨n, rfl, rfl⟩
    · exact .inl ⟨n, rfl, rfl, hne, hchars, hbefore, opensWithBreak_of_append hafter⟩
    · -- The border is in the word, so it is at the word's start or at its end.
      rcases hborder with hends | hopens
      · obtain rfl : m = [] :=
          eq_nil_of_endsWithBreak (endsWithBreak_of_append hends) fun c hc => hchars c (by simp [hc])
        exact .inr ⟨[], by simp, rfl, hne, hchars, rfl, hafter⟩
      · obtain rfl : n = [] :=
          eq_nil_of_opensWithBreak (opensWithBreak_of_append hopens) fun c hc =>
            hchars c (by simp [hc])
        rw [List.append_nil] at hne hchars ⊢
        exact .inl ⟨[], rfl, by simp, hne, hchars, hbefore, rfl⟩

/-- A word is one of the pieces between the characters that are in no name. -/
theorem mem_splitOnP (h : WordAt text pre w post) : w ∈ text.splitOnP (!isNameChar ·) := by
  have hw : w.splitOnP (!isNameChar ·) = [w] :=
    List.splitOnP_eq_singleton fun c hc => by simp [h.chars c hc]
  have hrest : w ∈ (w ++ post).splitOnP (!isNameChar ·) := by
    cases post with
    | nil => simp [hw]
    | cons c post =>
      have hc : (!isNameChar c) = true := h.after
      rw [List.splitOnP_append_cons w post (p := fun c => !isNameChar c) hc, hw]
      exact List.mem_cons_self
  rw [h.text_eq]
  cases hlast : pre.getLast? with
  | none =>
    obtain rfl := List.getLast?_eq_none_iff.1 hlast
    exact hrest
  | some c =>
    obtain ⟨before, rfl⟩ := List.getLast?_eq_some_iff.1 hlast
    have hc : (!isNameChar c) = true := by simpa [endsWithBreak] using h.before
    rw [List.append_assoc, List.singleton_append,
      List.splitOnP_append_cons before (w ++ post) (p := fun c => !isNameChar c) hc]
    exact List.mem_append_right _ hrest

end WordAt

theorem hasWord_iff_of_chars (htext : ∀ c ∈ text, isNameChar c = true) (hne : text ≠ []) :
    HasWord text w ↔ w = text := by
  constructor
  · rintro ⟨pre, post, h⟩
    exact (h.eq_of_chars htext).2
  · rintro rfl
    exact ⟨[], [], by simp, hne, htext, rfl, rfl⟩

end ShaderAlgebra
