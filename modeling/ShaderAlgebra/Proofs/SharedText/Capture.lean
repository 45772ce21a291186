import ShaderAlgebra.Proofs.Request.Store
import ShaderAlgebra.Proofs.SharedText.Places
import ShaderAlgebra.Proofs.Text.Occurrence

/-!
# Names of bindings and names of inputs

Bindings are named by a counter, without a look at the names of inputs. The
texts between the places of a line have no such name as a word, and each place
is between breaks. So a word that is the name of a binding is the text of a
reference, or it is in the name of an input.
-/

namespace ShaderAlgebra

namespace SharedText

open ShaderAlgebra.Expr

theorem toList_bindingName (k : Nat) :
    (bindingName k).toList = 't' :: (toString k).toList := by
  simp [bindingName]

theorem bindingName_injective {j k : Nat} (h : (bindingName j).toList = (bindingName k).toList) :
    j = k := by
  rw [toList_bindingName, toList_bindingName] at h
  exact toString_nat_injective (List.cons.inj h).2

theorem isNameChar_of_mem_bindingName (k : Nat) :
    ∀ c ∈ (bindingName k).toList, isNameChar c = true := by
  rw [toList_bindingName]
  refine List.forall_mem_cons.2 ⟨rfl, fun c hc => ?_⟩
  have hdigit := isDigit_of_mem_toString k c hc
  simp [isNameChar, Char.isAlphanum, hdigit]

/-- A `t` with a digit after it, as the names of bindings begin. -/
def beginsBindingName : List Char → Bool
  | 't' :: c :: _ => c.isDigit
  | _ => false

theorem beginsBindingName_bindingName (k : Nat) :
    beginsBindingName (bindingName k).toList = true := by
  rw [toList_bindingName]
  obtain ⟨c, rest, hdigits⟩ := List.exists_cons_of_ne_nil (toString_ne_nil k)
  have hc : c.isDigit = true := isDigit_of_mem_toString k c (hdigits ▸ List.mem_cons_self)
  rw [hdigits]
  exact hc

/-- No word of the text begins as the name of a binding. -/
def hasNoBindingName (text : List Char) : Bool :=
  (text.splitOnP (!isNameChar ·)).all (!beginsBindingName ·)

theorem not_hasWord_of_hasNoBindingName {text : List Char} (h : hasNoBindingName text = true)
    (k : Nat) : ¬HasWord text (bindingName k).toList := by
  rintro ⟨pre, post, hword⟩
  have hname := List.all_eq_true.1 h _ hword.mem_splitOnP
  simp [beginsBindingName_bindingName] at hname

section Framed

variable {α β : Type} {f : α → String} {t u : Template α} {a : α} {afterBreak : Bool}
  {pre post : List Char} {k : Nat}

/-- Each slot is between breaks, and no text between slots has the name of a binding. The flag
says whether there is a break before the template. -/
def framed : Bool → Template α → Bool
  | _, [] => true
  | afterBreak, .chars text :: rest =>
    (afterBreak || text.toList.head?.any (!isNameChar ·)) && hasNoBindingName text.toList &&
      framed (endsWithBreak text.toList) rest
  | afterBreak, .slot _ :: rest => afterBreak && framed false rest

theorem framed_of_framed_false (h : framed false t = true) : framed afterBreak t = true := by
  cases t with
  | nil => rfl
  | cons p t =>
    cases p with
    | chars text =>
      simp only [framed, Bool.false_or, Bool.and_eq_true] at h ⊢
      simp [h]
    | slot a => cases h

theorem framed_append (ht : framed afterBreak t = true) (hu : framed false u = true) :
    framed afterBreak (t ++ u) = true := by
  induction t generalizing afterBreak with
  | nil => exact framed_of_framed_false hu
  | cons p t ih =>
    cases p with
    | chars text =>
      simp only [framed, Bool.and_eq_true] at ht
      simp only [List.cons_append, framed, Bool.and_eq_true]
      exact ⟨ht.1, ih ht.2⟩
    | slot a =>
      simp only [framed, Bool.and_eq_true] at ht
      simp only [List.cons_append, framed, Bool.and_eq_true]
      exact ⟨ht.1, ih ht.2⟩

theorem framed_bind {g : α → Template β} (ht : framed afterBreak t = true)
    (hg : ∀ a ∈ t.slots, framed true (g a) = true) : framed afterBreak (t.bind g) = true := by
  induction t generalizing afterBreak with
  | nil => rfl
  | cons p t ih =>
    cases p with
    | chars text =>
      simp only [framed, Bool.and_eq_true] at ht
      simp only [Template.bind, framed, Bool.and_eq_true]
      exact ⟨ht.1, ih ht.2 hg⟩
    | slot a =>
      simp only [framed, Bool.and_eq_true] at ht
      obtain ⟨rfl, hrest⟩ := ht
      have ha : framed true (g a) = true := hg a List.mem_cons_self
      exact framed_append ha (ih hrest fun b hb => hg b (List.mem_cons_of_mem a hb))

theorem opensWithBreak_fill (h : framed false t = true) :
    opensWithBreak (t.fill f).toList = true := by
  cases t with
  | nil => rfl
  | cons p t =>
    cases p with
    | chars text =>
      simp only [framed, Bool.false_or, Bool.and_eq_true] at h
      obtain ⟨⟨hopens, -⟩, -⟩ := h
      rw [Template.fill, String.toList_append]
      cases htext : text.toList with
      | nil => simp [htext] at hopens
      | cons c rest => simpa [htext, opensWithBreak] using hopens
    | slot a => cases h

/-- A slot of a framed template is between breaks. -/
theorem breaks_around_slot {s : List Char} (h : framed afterBreak (t ++ .slot a :: u) = true)
    (hs : afterBreak = true → endsWithBreak s = true) :
    endsWithBreak (s ++ (t.fill f).toList) = true ∧ opensWithBreak (u.fill f).toList = true := by
  induction t generalizing afterBreak s with
  | nil =>
    simp only [List.nil_append, framed, Bool.and_eq_true] at h
    exact ⟨by simpa [Template.fill] using hs h.1, opensWithBreak_fill h.2⟩
  | cons p t ih =>
    cases p with
    | chars text =>
      simp only [List.cons_append, framed, Bool.and_eq_true, Bool.or_eq_true] at h
      obtain ⟨⟨hopens, -⟩, hrest⟩ := h
      have hstep : endsWithBreak text.toList = true →
          endsWithBreak (s ++ text.toList) = true := by
        refine endsWithBreak_append fun hempty => hs ?_
        simpa [hempty] using hopens
      simpa [Template.fill] using ih hrest hstep
    | slot b =>
      simp only [List.cons_append, framed, Bool.and_eq_true] at h
      have hstep : false = true → endsWithBreak (s ++ (f b).toList) = true := by simp
      simpa [Template.fill] using ih h.2 hstep

/-- The name of a binding is a word of a framed text only as a word of a slot's text. -/
theorem exists_slot_of_wordAt (h : framed afterBreak t = true)
    (hword : WordAt (t.fill f).toList pre (bindingName k).toList post) :
    ∃ t₁ a t₂ m n, t = t₁ ++ .slot a :: t₂ ∧ pre = (Template.fill f t₁).toList ++ m ∧
      WordAt (f a).toList m (bindingName k).toList n := by
  induction t generalizing afterBreak pre with
  | nil =>
    have hempty := hword.text_eq
    simp [Template.fill, hword.ne_nil] at hempty
  | cons p t ih =>
    cases p with
    | chars text =>
      simp only [framed, Bool.and_eq_true] at h
      obtain ⟨⟨-, hnone⟩, hrest⟩ := h
      rw [Template.fill, String.toList_append] at hword
      have hborder : endsWithBreak text.toList = true ∨
          opensWithBreak (Template.fill f t).toList = true := by
        cases hends : endsWithBreak text.toList with
        | true => exact .inl rfl
        | false => exact .inr (opensWithBreak_fill (hends ▸ hrest))
      rcases hword.append_cases hborder with ⟨m, -, htext⟩ | ⟨m, rfl, hlater⟩
      · exact absurd ⟨pre, m, htext⟩ (not_hasWord_of_hasNoBindingName hnone k)
      · obtain ⟨t₁, a, t₂, m, n, rfl, rfl, hslot⟩ := ih hrest hlater
        exact ⟨.chars text :: t₁, a, t₂, m, n, rfl, by simp [Template.fill], hslot⟩
    | slot a =>
      simp only [framed, Bool.and_eq_true] at h
      rw [Template.fill, String.toList_append] at hword
      rcases hword.append_cases (.inr (opensWithBreak_fill h.2)) with
        ⟨m, -, hslot⟩ | ⟨m, rfl, hlater⟩
      · exact ⟨[], a, t, pre, m, rfl, rfl, hslot⟩
      · obtain ⟨t₁, b, t₂, m, n, rfl, rfl, hslot⟩ := ih h.2 hlater
        exact ⟨.slot a :: t₁, b, t₂, m, n, rfl, by simp [Template.fill], hslot⟩

/-- A slot whose text is not empty begins within the text of no other slot. -/
theorem slot_eq_of_within {t₁ t₂ u₁ u₂ : Template α} {a b : α}
    (hsplit : t₁ ++ .slot a :: t₂ = u₁ ++ .slot b :: u₂)
    (hbegin : (t₁.fill f).toList ++ pre = (u₁.fill f).toList)
    (hpre : pre.length < (f a).toList.length) (hb : (f b).toList ≠ []) : a = b := by
  rcases List.append_eq_append_iff.1 hsplit with ⟨m, rfl, hrest⟩ | ⟨m, rfl, hrest⟩
  · cases m with
    | nil => exact Piece.slot.inj (List.cons.inj hrest).1
    | cons p m =>
      obtain ⟨rfl, -⟩ := List.cons.inj hrest
      have hlength := congrArg List.length hbegin
      simp only [Template.fill, Template.fill_append, String.toList_append,
        List.length_append] at hlength
      omega
  · cases m with
    | nil => exact (Piece.slot.inj (List.cons.inj hrest).1).symm
    | cons p m =>
      obtain ⟨rfl, -⟩ := List.cons.inj hrest
      have hlength := congrArg List.length hbegin
      have hpos := List.length_pos_iff.2 hb
      simp only [Template.fill, Template.fill_append, String.toList_append,
        List.length_append] at hlength
      omega

end Framed

section Leaves

theorem framed_template {α : Type} (n : Node α) (hn : ∀ l, n ≠ .leaf l) :
    framed true n.template = true := by
  cases n with
  | leaf l => exact absurd rfl (hn l)
  | unary op a =>
    cases op with
    | channel i =>
      match i with
      | 0 | 1 | 2 | 3 => rfl
    | random perElement => cases perElement <;> rfl
    | _ => rfl
  | binary op a b => cases op <;> rfl
  | _ => rfl

variable {l : Leaf} {k : Nat}

theorem t_not_mem_digits {w : List Char} (h : ∀ c ∈ w, c.isDigit = true) : 't' ∉ w :=
  fun ht => absurd (h 't' ht) (by decide)

theorem t_not_mem_float (x : Single) : 't' ∉ x.text.toList := by
  have hunsigned : 't' ∉ x.unsignedText := by
    rcases x.unsignedText_cases with ⟨-, htext⟩ | ⟨-, whole, fraction, hparts, htext⟩
    · rw [htext]
      decide
    · rw [htext, Decimal.pointed]
      have hwhole := t_not_mem_digits hparts.whole_digits
      have hfraction := t_not_mem_digits hparts.fraction_digits
      split <;> simp [hwhole, hfraction]
  cases hnan : x.isNaN with
  | true =>
    rw [Single.toList_text_of_isNaN hnan]
    decide
  | false =>
    rw [Single.toList_text hnan]
    cases x.negative <;> simp [hunsigned]

theorem t_not_mem_int (z : Int) : 't' ∉ (toString z).toList := by
  cases z with
  | ofNat n => exact t_not_mem_digits (isDigit_of_mem_toString n)
  | negSucc n =>
    rw [toList_toString_negSucc, List.mem_cons, not_or]
    exact ⟨by decide, t_not_mem_digits (isDigit_of_mem_toString (n + 1))⟩

theorem t_mem_of_hasWord {text : List Char} (h : HasWord text (bindingName k).toList) :
    't' ∈ text := by
  obtain ⟨pre, post, hword⟩ := h
  rw [hword.text_eq, toList_bindingName]
  simp

theorem not_hasWord_constant (c : Constant) (k : Nat) :
    ¬HasWord c.text.toList (bindingName k).toList := by
  -- A vector is a call with texts of floats in its slots.
  have hvector (head : String) (xs : List Single)
      (hframed : framed true (Template.call head xs) = true) :
      ¬HasWord ((Template.call head xs).fill Single.text).toList (bindingName k).toList := by
    rintro ⟨pre, post, hword⟩
    obtain ⟨_, x, _, m, n, -, -, hslot⟩ := exists_slot_of_wordAt hframed hword
    exact t_not_mem_float x (t_mem_of_hasWord ⟨m, n, hslot⟩)
  cases c with
  | float x => exact fun h => t_not_mem_float x (t_mem_of_hasWord h)
  | int n => exact fun h => t_not_mem_int n.toInt (t_mem_of_hasWord h)
  | uint n =>
    intro h
    have ht := t_mem_of_hasWord h
    rw [Constant.text, String.toList_append, List.mem_append] at ht
    rcases ht with hdigits | hsuffix
    · exact t_not_mem_digits (isDigit_of_mem_toString n.toNat) hdigits
    · exact absurd hsuffix (by decide)
  | float2 x y =>
    have h := hvector "float2(" [x, y] rfl
    rwa [Template.fill_call] at h
  | float3 x y z =>
    have h := hvector "float3(" [x, y, z] rfl
    rwa [Template.fill_call] at h
  | float4 x y z w =>
    have h := hvector "float4(" [x, y, z, w] rfl
    rwa [Template.fill_call] at h

/-- Of all leaves only a named value has the name of a binding in its text. -/
theorem hasWord_leaf_iff :
    HasWord l.text.toList (bindingName k).toList ↔
      ∃ t name, l = .input t name ∧ HasWord name.toList (bindingName k).toList := by
  cases l with
  | constant c => simp [Leaf.text, not_hasWord_constant]
  | input t name => simp [Leaf.text]
  | systemSeed =>
    have hnone : ¬HasWord Leaf.systemSeed.text.toList (bindingName k).toList :=
      not_hasWord_of_hasNoBindingName (by decide) k
    simp [hnone]

end Leaves

section Lines

variable {roots : List Expr} {e : Expr} {line : Template Place} {l : Leaf} {k : Nat}

theorem framed_placeNode {n : Node (Template Place)}
    (h : ∀ t ∈ n.operands, framed true t = true) : framed true (placeNode n) = true := by
  cases n with
  | leaf l => rfl
  | _ =>
    refine framed_bind (framed_template _ nofun) fun t ht => h t ?_
    rwa [Node.slots_template] at ht

theorem framed_placed (roots : List Expr) (e : Expr) : framed true (placed roots e) = true := by
  induction e using induction_on_operands with
  | step e ih =>
    rw [placed_eq]
    cases (bound roots).idxOf? e with
    | some k => rfl
    | none =>
      refine framed_placeNode fun t ht => ?_
      rw [Node.operands_map] at ht
      obtain ⟨a, ha, rfl⟩ := List.mem_map.1 ht
      exact ih a ha

theorem framed_placedBody (roots : List Expr) (e : Expr) :
    framed true (placedBody roots e) = true := by
  refine framed_placeNode fun t ht => ?_
  rw [Node.operands_map] at ht
  obtain ⟨a, -, rfl⟩ := List.mem_map.1 ht
  exact framed_placed roots a

theorem framed_placedBinding (roots : List Expr) (k : Nat) (e : Expr) :
    framed true (placedBinding roots k e) = true := by
  have hbody : framed true (placedBody roots e ++ [.chars ";"]) = true :=
    framed_append (framed_placedBody roots e) rfl
  rw [placedBinding]
  cases e.type <;> exact hbody

theorem framed_of_mem (h : line ∈ placedBindings roots ++ placedRoots roots) :
    framed true line = true := by
  rcases List.mem_append.1 h with hbinding | hroot
  · obtain ⟨k, hk, rfl⟩ := List.mem_mapIdx.1 hbinding
    exact framed_placedBinding roots k _
  · obtain ⟨r, -, rfl⟩ := List.mem_map.1 hroot
    exact framed_placed roots r

/-- Wherever the name of a binding stands in a line as a word, the binding is made or referred
to. -/
def NamesApart (roots : List Expr) : Prop :=
  ∀ line ∈ placedBindings roots ++ placedRoots roots, ∀ k < (bound roots).length, ∀ pre post,
    WordAt (line.fill Place.text).toList pre (bindingName k).toList post →
      ∃ before after, line = before ++ .slot (.reference k) :: after ∧
        pre = (Template.fill Place.text before).toList

/-- References are unmistakable exactly if the name of no input has the name of a binding as a
word. -/
theorem namesApart_iff (h : Coherent roots) :
    NamesApart roots ↔
      ∀ k < (bound roots).length, ∀ i t name, .leaf i (.input t name) ∈ graph roots →
        ¬HasWord name.toList (bindingName k).toList := by
  constructor
  · rintro hapart k hk i t name hmem ⟨m, n, hname⟩
    obtain ⟨line, hline, hl⟩ := (exists_line_leaf_iff h).2 ⟨i, hmem⟩
    obtain ⟨t₁, t₂, rfl⟩ := Template.mem_slots.1 hl
    -- The name is between breaks, so what is a word in it is a word of the line.
    obtain ⟨hbefore, hafter⟩ :=
      breaks_around_slot (f := Place.text) (s := []) (framed_of_mem hline) fun _ => rfl
    have hword := hname.between hbefore hafter
    have htext :
        (Template.fill Place.text (t₁ ++ .slot (.leaf (.input t name)) :: t₂)).toList =
          [] ++ (Template.fill Place.text t₁).toList ++
            (name.toList ++ (Template.fill Place.text t₂).toList) := by
      simp [Template.fill_append, Template.fill, Place.text, Leaf.text]
    rw [← htext, List.nil_append] at hword
    obtain ⟨u₁, u₂, hsplit, hbegin⟩ := hapart _ hline k hk _ _ hword
    cases slot_eq_of_within hsplit hbegin hname.length_lt hname.ne_nil
  · intro hfree line hline k hk pre post hword
    obtain ⟨before, p, after, m, n, hsplit, rfl, hslot⟩ :=
      exists_slot_of_wordAt (framed_of_mem hline) hword
    cases p with
    | reference j =>
      obtain ⟨rfl, hname⟩ := hslot.eq_of_chars (isNameChar_of_mem_bindingName j)
      obtain rfl := bindingName_injective hname
      exact ⟨before, after, hsplit, by simp⟩
    | leaf l =>
      obtain ⟨t, name, rfl, hname⟩ := hasWord_leaf_iff.1 ⟨m, n, hslot⟩
      have hl : .leaf (.input t name) ∈ line.slots := by
        simp [hsplit, Template.slots, Template.slots_append]
      obtain ⟨i, hi⟩ := (exists_line_leaf_iff h).1 ⟨line, hline, hl⟩
      exact absurd hname (hfree k hk i t name hi)

end Lines

theorem not_hasWord_defaultName (position k : Nat) :
    ¬HasWord (Request.defaultName position).toList (bindingName k).toList := by
  intro h
  have ht := t_mem_of_hasWord h
  rw [Request.defaultName, String.toList_append, List.mem_append] at ht
  rcases ht with hhead | hdigits
  · exact absurd hhead (by decide)
  · exact t_not_mem_digits (isDigit_of_mem_toString position) hdigits

/-- The lines are written place by place, bindings named by a counter. The names of bindings are
shown as words only where the bindings are made or referred to, exactly if no reachable input has
one of them as a word of its name. In what a request builds this holds if none of its operands is
given such a name. -/
theorem render_namesApart :
    (∀ roots : List Expr, Coherent roots →
      render roots =
        ⟨(placedBindings roots).map (Template.fill Place.text),
          (placedRoots roots).map (Template.fill Place.text)⟩ ∧
      (NamesApart roots ↔ ∀ k < (render roots).bindings.length, ∀ i t name,
        .leaf i (.input t name) ∈ graph roots → ¬HasWord name.toList (bindingName k).toList)) ∧
    ∀ (r : Request) (next : Nat) (outs : List Expr), Literal.identities ≤ next →
      (r.build.runFrom next).1 = .ok outs →
        Coherent outs ∧
          ((∀ k < (render outs).bindings.length, ∀ t name, .input t (some name) ∈ r.inputs →
            ¬HasWord name.toList (bindingName k).toList) → NamesApart outs) := by
  have hlength (roots : List Expr) (h : Coherent roots) :
      (render roots).bindings.length = (bound roots).length := by
    rw [render_eq h, List.length_mapIdx]
  constructor
  · intro roots h
    rw [hlength roots h]
    exact ⟨render_eq_placed h, namesApart_iff h⟩
  · intro r next outs hnext hrun
    obtain ⟨hcoherent, hdescribes⟩ := Request.build_sound hnext hrun
    refine ⟨hcoherent, fun hnames => (namesApart_iff hcoherent).2 ?_⟩
    intro k hk i t name hmem
    rw [hlength outs hcoherent] at hnames
    rcases (hdescribes i t _ hmem).name_cases with hgiven | ⟨position, rfl⟩
    · exact hnames k hk t name hgiven
    · exact not_hasWord_defaultName position k

def lengthOf (name : String) : Request := ⟨.length, [.input .float3 (some name)]⟩

def lengthOutputs (name : String) : List Expr :=
  let v := Expr.leaf 54 (.input .float3 name)
  let square := Expr.binary 55 .mul v v
  let x := Expr.unary 56 (.channel 0) square
  let y := Expr.unary 57 (.channel 1) square
  let z := Expr.unary 58 (.channel 2) square
  let sum := Expr.binary 60 .add (.binary 59 .add z y) x
  [.binary 61 .pow sum (Literal.half.node .float)]

theorem run_lengthOf (name : String) :
    ((lengthOf name).build.runFrom Literal.identities).1 = .ok (lengthOutputs name) := rfl

theorem namesApart_lengthOf_t0_v :
    Literal.identities ≤ 54 ∧
      ((lengthOf "t0_v").build.runFrom 54).1 = .ok (lengthOutputs "t0_v") ∧
      (∀ k < (render (lengthOutputs "t0_v")).bindings.length, ∀ t name,
        .input t (some name) ∈ (lengthOf "t0_v").inputs →
          ¬HasWord name.toList (bindingName k).toList) ∧
      NamesApart (lengthOutputs "t0_v") := by
  have hnames : ∀ k < (render (lengthOutputs "t0_v")).bindings.length, ∀ t name,
      .input t (some name) ∈ (lengthOf "t0_v").inputs →
        ¬HasWord name.toList (bindingName k).toList := by
    intro k _ t name hmem hword
    obtain ⟨rfl, rfl⟩ : t = .float3 ∧ name = "t0_v" := by simpa [lengthOf] using hmem
    have hchars : ∀ c ∈ "t0_v".toList, isNameChar c = true := List.all_eq_true.1 (by decide)
    have hname := (hasWord_iff_of_chars hchars (by simp)).1 hword
    rw [toList_bindingName] at hname
    have hdigit := isDigit_of_mem_toString k '_' ((List.cons.inj hname).2 ▸ by decide)
    exact absurd hdigit (by decide)
  refine ⟨by decide, run_lengthOf "t0_v", hnames, ?_⟩
  exact (render_namesApart.2 (lengthOf "t0_v") 54 (lengthOutputs "t0_v") (by decide)
    (run_lengthOf "t0_v")).2 hnames

/-- An input with the name of a binding: its square is bound to the name that it has itself. -/
theorem capture_lengthOf_t0 :
    (lengthOf "t0").build.result = .ok (lengthOutputs "t0") ∧
      render (lengthOutputs "t0") =
        ⟨["let t0: float3 = (t0 * t0);"], ["pow(((t0.z + t0.y) + t0.x), 0.5)"]⟩ ∧
      (¬∀ k < (render (lengthOutputs "t0")).bindings.length, ∀ i t,
        .leaf i (.input t (bindingName k)) ∉ graph (lengthOutputs "t0")) ∧
      ¬NamesApart (lengthOutputs "t0") := by
  have h : Coherent (lengthOutputs "t0") := by decide
  have hrender : render (lengthOutputs "t0") =
      ⟨["let t0: float3 = (t0 * t0);"], ["pow(((t0.z + t0.y) + t0.x), 0.5)"]⟩ :=
    (render_eq h).trans rfl
  have hleaf : .leaf 54 (.input .float3 (bindingName 0)) ∈ graph (lengthOutputs "t0") := by decide
  refine ⟨run_lengthOf "t0", hrender, fun hfree => ?_, fun hapart => ?_⟩
  · rw [hrender] at hfree
    exact hfree 0 Nat.one_pos 54 .float3 hleaf
  · have hbound : 0 < (bound (lengthOutputs "t0")).length := by decide
    refine (namesApart_iff h).1 hapart 0 hbound 54 .float3 _ hleaf ?_
    exact (hasWord_iff_of_chars (isNameChar_of_mem_bindingName 0) (by decide)).2 rfl

end SharedText

end ShaderAlgebra
