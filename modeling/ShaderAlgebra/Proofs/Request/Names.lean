import ShaderAlgebra.Proofs.Expr.Rename
import ShaderAlgebra.Proofs.Fingerprint.Collision
import ShaderAlgebra.Proofs.Operator.Uses
import ShaderAlgebra.Proofs.Request.Store
import ShaderAlgebra.Proofs.Text.Unambiguous

/-!
# Names of inputs

An unnamed input has the name of its position. Two inputs have one name if both
were given it, or if one was given the name of the position of the other. All
other inputs can be told apart: what a request makes of them is written and
hashed unlike what it makes when one has the name of the other.
-/

namespace ShaderAlgebra

namespace Fingerprint

open ShaderAlgebra.Expr

variable {hash : List UInt8 → Digest} {roots roots' : List Expr} {a b : Expr}

/-- Nodes of two graphs with different trees and one fingerprint. -/
theorem exists_collision_of_digest_eq (h : Coherent roots) (h' : Coherent roots')
    (ha : a ∈ graph roots) (hb : b ∈ graph roots') (hne : a.tree ≠ b.tree)
    (heq : digest hash a = digest hash b) :
    ∃ x ∈ a.nodes, ∃ y ∈ b.nodes, preimage hash x ≠ preimage hash y ∧
      hash (preimage hash x) = hash (preimage hash y) := by
  rw [digest_eq h ha, digest_eq h' hb] at heq
  obtain ⟨x, hx, y, hy, hdigest, hbytes⟩ := exists_collision_of_digest_tree hne heq
  have hxa := mem_graph_of_mem_nodes ha hx
  have hyb := mem_graph_of_mem_nodes hb hy
  refine ⟨x, hx, y, hy, ?_, ?_⟩
  · rwa [preimage_eq h hxa, preimage_eq h' hyb]
  · calc
      hash (preimage hash x) = digest hash x := hash_preimage h hxa
      _ = x.tree.digest hash := digest_eq h hxa hash
      _ = y.tree.digest hash := hdigest
      _ = digest hash y := (digest_eq h' hyb hash).symm
      _ = hash (preimage hash y) := (hash_preimage h' hyb).symm

end Fingerprint

namespace Request

open Build Correspondence ShaderAlgebra.Expr Fingerprint

variable {r : Request} {i j next : Nat} {s t : ValueType} {given given' : Option String}
  {name : String} {es outs : List Expr} {ls : List Leaf}

def inputName (position : Nat) (given : Option String) : String :=
  given.getD (defaultName position)

/-- Both inputs were given one name, or one was given the name of the position of the other,
which was given none. -/
def Clash (i : Nat) (given : Option String) (j : Nat) (given' : Option String) : Prop :=
  (∃ name, given = some name ∧ given' = some name) ∨
    (given = none ∧ given' = some (defaultName i)) ∨
      given = some (defaultName j) ∧ given' = none

theorem defaultName_injective (h : defaultName i = defaultName j) : i = j := by
  have hlist := congrArg String.toList h
  rw [defaultName, defaultName, String.toList_append, String.toList_append] at hlist
  exact toString_nat_injective (List.append_cancel_left hlist)

/-- Inputs at two positions have one name exactly if their names clash. -/
theorem inputName_eq_iff (hne : i ≠ j) :
    inputName i given = inputName j given' ↔ Clash i given j given' := by
  cases given with
  | none =>
    cases given' with
    | none => simpa [inputName, Clash] using fun h => hne (defaultName_injective h)
    | some name' => simp [inputName, Clash, eq_comm]
  | some name =>
    cases given' with
    | none => simp [inputName, Clash]
    | some name' => simp [inputName, Clash, eq_comm]

/-! ### Leaves -/

/-- The leaves of the operands, position by position. -/
def Leaves (r : Request) (ls : List Leaf) : Prop :=
  List.Forall₂ (fun o l => o.1.leaf o.2 = .ok l) r.inputs.zipIdx ls

/-- Operands that are made have leaves. -/
theorem exists_leaves (h : (r.operands.runFrom next).1 = .ok es) : ∃ ls, r.Leaves ls := by
  have hmeets : Meets (fun _ => True) r.operands
      (List.Forall₂ (fun o _ => ∃ l, o.1.leaf o.2 = .ok l) r.inputs.zipIdx) := by
    apply Meets.mapM_forall₂
    rintro ⟨o, position⟩ _
    change Meets _ (o.build position) fun _ => ∃ l, o.leaf position = .ok l
    unfold Operand.build
    cases hleaf : o.leaf position with
    | error e => exact Meets.refuse trivial
    | ok l => exact Meets.node fun _ => ⟨l, rfl⟩
  have hplaces := hmeets.of_ok h
  unfold Leaves
  clear h
  generalize r.inputs.zipIdx = os at hplaces
  induction hplaces with
  | nil => exact ⟨[], .nil⟩
  | cons hl _ ih =>
    obtain ⟨l, hl⟩ := hl
    obtain ⟨ls, hls⟩ := ih
    exact ⟨l :: ls, .cons hl hls⟩

/-- Each leaf becomes a node, with identities in the order of the positions. -/
theorem runFrom_operands (h : r.Leaves ls) (next : Nat) :
    r.operands.runFrom next =
      (.ok (ls.mapIdx fun i l => .leaf (next + i) l), next + ls.length) := by
  have hsteps : r.operands = ls.mapM fun l => Build.node (.leaf l) := by
    unfold Leaves at h
    unfold operands
    generalize r.inputs.zipIdx = os at h
    induction h with
    | nil => rfl
    | @cons o l _ _ hl _ ih =>
      have hhead : o.1.build o.2 = Build.node (.leaf l) := by
        unfold Operand.build
        rw [hl]
      rw [List.mapM_cons, List.mapM_cons, ih]
      exact congrArg (· >>= _) hhead
  rw [hsteps]
  exact runFrom_mapM_leaf (fun l => l) ls next

theorem Leaves.getElem? (h : r.Leaves ls) (hi : r.inputs[i]? = some (.input s given)) :
    ls[i]? = some (.input s (inputName i given)) := by
  obtain ⟨hlt, hinput⟩ := List.getElem?_eq_some_iff.1 hi
  obtain ⟨hlength, hplaces⟩ := List.forall₂_iff_get.1 h
  rw [List.length_zipIdx] at hlength
  have hleaf := hplaces i (by rwa [List.length_zipIdx]) (hlength ▸ hlt)
  simp only [List.get_eq_getElem, List.getElem_zipIdx, Nat.zero_add, hinput] at hleaf
  rw [List.getElem?_eq_getElem (hlength ▸ hlt), ← Except.ok.inj hleaf]
  rfl

/-- The request in which the input at a position was given a name. -/
def named (r : Request) (j : Nat) (t : ValueType) (name : String) : Request :=
  { r with inputs := r.inputs.set j (.input t (some name)) }

theorem Leaves.named (h : r.Leaves ls) (j : Nat) (t : ValueType) (name : String) :
    (r.named j t name).Leaves (ls.set j (.input t name)) := by
  obtain ⟨hlength, hplaces⟩ := List.forall₂_iff_get.1 h
  refine List.forall₂_iff_get.2 ⟨?_, fun i hi hi' => ?_⟩
  · simpa [Request.named] using hlength
  · have hlt : i < ls.length := by simpa using hi'
    simp only [Request.named, List.get_eq_getElem, List.getElem_zipIdx, List.getElem_set,
      Nat.zero_add]
    split
    · rfl
    · simpa using hplaces i (hlength ▸ hlt) hlt

/-- Giving an input a name renames its node. -/
theorem runFrom_operands_named (h : r.Leaves ls) (hj : r.inputs[j]? = some (.input t given))
    (name : String) (next : Nat) :
    (r.named j t name).operands.runFrom next =
      (.ok ((ls.mapIdx fun i l => .leaf (next + i) l).map (rename (next + j) name)),
        next + ls.length) := by
  rw [runFrom_operands (h.named j t name), List.length_set]
  congr 2
  apply List.ext_getElem?
  intro i
  rw [List.getElem?_mapIdx, List.getElem?_map, List.getElem?_mapIdx, List.getElem?_set]
  split
  next hi =>
    subst hi
    have hleaf := h.getElem? hj
    have hlt := (List.getElem?_eq_some_iff.1 hleaf).1
    rw [if_pos hlt, hleaf]
    exact congrArg some rename_self.symm
  next hi =>
    cases ls[i]? with
    | none => rfl
    | some l =>
      have hid : next + i ≠ next + j := by omega
      exact congrArg some (rename_leaf_of_ne hid).symm

/-! ### Outputs -/

/-- The expressions have different texts and different trees, and one fingerprint only if the
hash takes two preimages of nodes below them to one digest. -/
def Distinguished (a b : Expr) : Prop :=
  a.text ≠ b.text ∧ a.tree ≠ b.tree ∧
    (a.fingerprint = b.fingerprint → ∃ x ∈ a.nodes, ∃ y ∈ b.nodes,
      preimage (Xxh3.digest seed) x ≠ preimage (Xxh3.digest seed) y ∧
        Xxh3.digest seed (preimage (Xxh3.digest seed) x) =
          Xxh3.digest seed (preimage (Xxh3.digest seed) y))

theorem eq_map_of_forall₂ {α β : Type} {f : α → β} {as : List α} {bs : List β}
    (h : List.Forall₂ (fun a b => b = f a) as bs) : bs = as.map f := by
  induction h with
  | nil => rfl
  | cons hab _ ih => rw [hab, ih, List.map_cons]

/-- Where an input has another name, the outputs are the same with the input renamed. -/
theorem build_named (h : r.Leaves ls) (hj : r.inputs[j]? = some (.input t given)) (name : String)
    (hrun : (r.build.runFrom next).1 = .ok outs) :
    ((r.named j t name).build.runFrom next).1 = .ok (outs.map (rename (next + j) name)) := by
  have hrelated : List.Forall₂ ((underName (next + j) name).Related ())
      (ls.mapIdx fun i l => .leaf (next + i) l)
      ((ls.mapIdx fun i l => .leaf (next + i) l).map (rename (next + j) name)) := by
    rw [List.forall₂_map_right_iff, List.forall₂_same]
    exact fun _ _ => rfl
  obtain ⟨_, -, -, hagree⟩ := Operator.apply_simulates r.operator hrelated
    (next + ls.length) (next + ls.length) rfl
  unfold build at hrun ⊢
  rw [runFrom_bind, runFrom_operands h] at hrun
  rw [runFrom_bind, runFrom_operands_named h hj]
  dsimp only at hrun ⊢
  rw [hrun] at hagree
  change ((r.operator.apply _).runFrom _).1 = _
  generalize ((r.operator.apply _).runFrom _).1 = outcome at hagree ⊢
  cases hagree with
  | ok houts => rw [eq_map_of_forall₂ houts]

/-- Every output uses every operand. -/
theorem mem_nodes_of_build (h : r.Leaves ls) (hrun : (r.build.runFrom next).1 = .ok outs)
    {l : Leaf} (hl : ls[i]? = some l) {out : Expr} (hout : out ∈ outs) :
    .leaf (next + i) l ∈ out.nodes := by
  unfold build at hrun
  rw [runFrom_bind, runFrom_operands h] at hrun
  refine (Operator.apply_covers r.operator _).of_ok hrun out hout _ ?_
  refine List.mem_of_getElem? (i := i) ?_
  rw [List.getElem?_mapIdx, hl]
  rfl

/-- An expression that uses an input is written unlike the one in which the input has another
name, and its tree is another one. -/
theorem distinguished_rename {k : Nat} {name' : String} {out : Expr} (h : Coherent outs)
    (h' : Coherent (outs.map (rename k name'))) (hout : out ∈ outs)
    (hleaf : .leaf k (.input t name) ∈ out.nodes) (hne : name ≠ name') :
    Distinguished out (out.rename k name') := by
  have hself : out.rename k name = out := by
    refine rename_eq_self fun t' given hgiven => ?_
    have hsame := h _ (mem_graph_of_mem_nodes (root_mem_graph hout) hgiven) _
      (mem_graph_of_mem_nodes (root_mem_graph hout) hleaf) rfl
    cases hsame
    rfl
  have htext : out.text ≠ (out.rename k name').text := by
    intro htext
    have hnames : (out.rename k name).text = (out.rename k name').text := by rw [hself, htext]
    exact hne (text_rename_injective hleaf hnames)
  have htree : out.tree ≠ (out.rename k name').tree := by
    intro htree
    have htexts := congrArg Tree.text htree
    rw [text_tree, text_tree] at htexts
    exact htext htexts
  refine ⟨htext, htree, fun hfingerprint => ?_⟩
  exact exists_collision_of_digest_eq h h' (root_mem_graph hout)
    (root_mem_graph (List.mem_map_of_mem hout)) htree hfingerprint

theorem exists_leaves_of_build (h : (r.build.runFrom next).1 = .ok outs) :
    ∃ ls, r.Leaves ls := by
  unfold build at h
  rw [runFrom_bind] at h
  rcases hoperands : r.operands.runFrom next with ⟨outcome, later⟩
  rw [hoperands] at h
  cases outcome with
  | error failure => cases h
  | ok es => exact exists_leaves (congrArg Prod.fst hoperands)

/-- Inputs at two positions that do not clash become leaves with different names, and every
output of the request tells them apart: if the second one is given the name of the first, then
the output has another text, another tree, and another fingerprint but for collisions. -/
theorem inputs_distinguished (hne : i ≠ j) (hi : r.inputs[i]? = some (.input s given))
    (hj : r.inputs[j]? = some (.input t given')) (hclash : ¬Clash i given j given') :
    inputName i given ≠ inputName j given' ∧
      (∀ next es, (r.operands.runFrom next).1 = .ok es →
        es[i]? = some (.leaf (next + i) (.input s (inputName i given))) ∧
          es[j]? = some (.leaf (next + j) (.input t (inputName j given')))) ∧
      ∀ next outs, Literal.identities ≤ next → (r.build.runFrom next).1 = .ok outs →
        ∃ outs', ((r.named j t (inputName i given)).build.runFrom next).1 = .ok outs' ∧
          List.Forall₂ Distinguished outs outs' := by
  have hnames : inputName i given ≠ inputName j given' := mt (inputName_eq_iff hne).1 hclash
  refine ⟨hnames, fun next es hes => ?_, fun next outs hnext hrun => ?_⟩
  · obtain ⟨ls, hls⟩ := exists_leaves hes
    rw [runFrom_operands hls] at hes
    obtain rfl := Except.ok.inj hes
    rw [List.getElem?_mapIdx, List.getElem?_mapIdx, hls.getElem? hi, hls.getElem? hj]
    exact ⟨rfl, rfl⟩
  · obtain ⟨ls, hls⟩ := exists_leaves_of_build hrun
    have hrun' := build_named hls hj (inputName i given) hrun
    refine ⟨_, hrun', ?_⟩
    rw [List.forall₂_map_right_iff, List.forall₂_same]
    intro out hout
    exact distinguished_rename (build_sound hnext hrun).1 (build_sound hnext hrun').1 hout
      (mem_nodes_of_build hls hrun (hls.getElem? hj) hout) hnames.symm

/-- The squared distance of two scalars, one named and one unnamed. -/
def squaredDistance (name : String) : Request :=
  ⟨.sqrDistance, [.input .float (some name), .input .float none]⟩

def squaredDistanceOutputs (name name' : String) : List Expr :=
  let x := Expr.leaf 54 (.input .float name)
  let y := Expr.leaf 55 (.input .float name')
  let difference := Expr.binary 56 .sub x y
  [.binary 57 .mul difference difference]

theorem distinguished_squaredDistance_x :
    ((squaredDistance "x").build.runFrom 54).1 = .ok (squaredDistanceOutputs "x" "in1") ∧
      ∃ outs', (((squaredDistance "x").named 1 .float "x").build.runFrom 54).1 = .ok outs' ∧
        List.Forall₂ Distinguished (squaredDistanceOutputs "x" "in1") outs' := by
  have hrun : ((squaredDistance "x").build.runFrom 54).1 =
      .ok (squaredDistanceOutputs "x" "in1") := rfl
  have hclash : ¬Clash 0 (some "x") 1 none := by
    rintro (⟨name, -, ⟨⟩⟩ | ⟨⟨⟩, -⟩ | ⟨hname, -⟩)
    revert hname
    decide
  refine ⟨hrun, ?_⟩
  exact (inputs_distinguished (by decide) rfl rfl hclash).2.2 54 _ (by decide) hrun

/-- One input was given the name of the position of the other: the two are leaves with one name,
and their difference has the text and the fingerprint of the difference of one of them to itself. -/
theorem clash_squaredDistance_in1 :
    (¬∃ name, (squaredDistance "in1").inputs[0]? = some (.input .float (some name)) ∧
      (squaredDistance "in1").inputs[1]? = some (.input .float (some name))) ∧
    ((squaredDistance "in1").operands.runFrom 54).1 =
      .ok [.leaf 54 (.input .float "in1"), .leaf 55 (.input .float "in1")] ∧
    ((squaredDistance "in1").build.runFrom 54).1 = .ok (squaredDistanceOutputs "in1" "in1") ∧
    let x := Expr.leaf 54 (.input .float "in1")
    let same := Expr.binary 57 .mul (.binary 56 .sub x x) (.binary 56 .sub x x)
    ∀ out ∈ squaredDistanceOutputs "in1" "in1",
      out.text = same.text ∧ out.fingerprint = same.fingerprint := by
  refine ⟨?_, rfl, rfl, ?_⟩
  · rintro ⟨name, -, hname⟩
    exact absurd hname (by simp [squaredDistance])
  · intro x same out hout
    have htree : out.tree = same.tree := by
      rw [List.mem_singleton.1 hout]
      rfl
    have hcoherent : Coherent (squaredDistanceOutputs "in1" "in1") := by decide
    have hsame : Coherent [same] := by decide
    constructor
    · rw [← text_tree, ← text_tree, htree]
    · rw [fingerprint_eq_digest, fingerprint_eq_digest, digest_eq hcoherent (root_mem_graph hout),
        digest_eq hsame (root_mem_graph List.mem_cons_self), htree]

end Request

end ShaderAlgebra
