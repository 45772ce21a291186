import ShaderAlgebra.Proofs.Json.Scan

/-!
# What a scan can give

`Gives step post` says that every result of a step has a property, for all inputs.
It is proved along the steps of a scan. A list or an object keeps what each of its
entries keeps.
-/

namespace ShaderAlgebra.Json.Scan

variable {ε α β σ : Type} {step : Scan ε α} {post : α → Prop} {after : β → Prop}
  {wrap : Fault → ε}

/-- Every result of a step has a property. -/
def Gives (step : Scan ε α) (post : α → Prop) : Prop :=
  ∀ bytes a rest, step bytes = .ok (a, rest) → post a

theorem Gives.pure {a : α} (h : post a) : Gives (pure a : Scan ε α) post := by
  rintro bytes a' rest ⟨⟩
  exact h

theorem Gives.throw {fault : ε} : Gives (throw fault : Scan ε α) post := by
  rintro bytes a rest ⟨⟩

theorem Gives.bind {f : α → Scan ε β} (h : Gives step post)
    (hf : ∀ a, post a → Gives (f a) after) : Gives (step >>= f) after := by
  intro bytes b rest hrun
  rw [bind_apply] at hrun
  cases hstep : step bytes with
  | error fault =>
    rw [hstep] at hrun
    cases hrun
  | ok r =>
    rw [hstep] at hrun
    exact hf r.1 (h bytes r.1 r.2 hstep) r.2 b rest hrun

/-- A step whose result does not matter. -/
theorem Gives.seq {f : α → Scan ε β} (hf : ∀ a, Gives (f a) after) :
    Gives (step >>= f) after :=
  have hany : Gives step fun _ => True := fun _ _ _ _ => trivial
  hany.bind fun a _ => hf a

/-- A check that stops the scan or does nothing. -/
theorem Gives.guard {c : Prop} [Decidable c] {check : Scan ε Unit} {f : Unit → Scan ε β}
    (hf : Gives (f ()) after) : Gives (if c then check >>= f else f ()) after := by
  split
  · exact Gives.seq fun _ => hf
  · exact hf

theorem Gives.widen {s : Scan Fault α} (h : Gives s post) : Gives (s.widen wrap) post := by
  intro bytes a rest hrun
  rw [widen_apply] at hrun
  cases hs : s bytes with
  | error fault =>
    rw [hs] at hrun
    cases hrun
  | ok r =>
    rw [hs] at hrun
    cases hrun
    exact h bytes a rest hs

section Entries

variable {next : Bool → Scan Fault Bool} {inv : σ → Prop} {entry : σ → Scan ε σ} {acc : σ}

/-- What each entry keeps, all entries keep. -/
theorem foldEntries_gives (h : ∀ acc, inv acc → Gives (entry acc) inv) (bound : List UInt8)
    (first : Bool) (hacc : inv acc) : Gives (foldEntries next wrap entry bound first acc) inv := by
  induction bound generalizing first acc with
  | nil =>
    rw [foldEntries.eq_def]
    refine Gives.seq fun more => ?_
    split <;> exact Gives.pure hacc
  | cons b bound ih =>
    rw [foldEntries.eq_def]
    refine Gives.seq fun more => ?_
    split
    · exact (h acc hacc).bind fun acc' hacc' => ih false hacc'
    · exact Gives.pure hacc

theorem list_gives (h : ∀ acc, inv acc → Gives (entry acc) inv) (hacc : inv acc) :
    Gives (list wrap entry acc) inv := by
  unfold list
  rw [foldItems_eq]
  refine Gives.seq fun bound => (foldEntries_gives h bound true hacc).bind fun acc' hacc' => ?_
  exact Gives.seq fun _ => Gives.pure hacc'

theorem object_gives (h : ∀ acc, inv acc → Gives (entry acc) inv) (hacc : inv acc) :
    Gives (object wrap entry acc) inv := by
  unfold object
  rw [foldMembers_eq]
  refine Gives.seq fun bound => (foldEntries_gives h bound true hacc).bind fun acc' hacc' => ?_
  exact Gives.seq fun _ => Gives.pure hacc'

end Entries

end ShaderAlgebra.Json.Scan
