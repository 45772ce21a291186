import ShaderAlgebra.Expr.Fingerprint
import ShaderAlgebra.Proofs.Expr.Traversal
import ShaderAlgebra.Proofs.Expr.Tree

/-!
# Fingerprints do not see sharing

`Tree.digest` hashes an unfolded tree place by place and remembers nothing. A
memo is sound when every entry for a node of the graph is the digest of that
node's tree. The visit of a node keeps a sound memo sound, so a fingerprint is
the digest of the tree, however the graph shares its nodes.
-/

namespace ShaderAlgebra

/-- The plain recursive hash of an unfolded tree. -/
def Tree.digest (hash : List UInt8 → Digest) (t : Tree) : Digest :=
  t.fold fun type n => hash (Fingerprint.encode type n)

theorem Tree.digest_tree (hash : List UInt8 → Digest) (e : Expr) :
    e.tree.digest hash =
      hash (Fingerprint.encode e.type (e.node.map fun a => a.tree.digest hash)) := by
  rw [Tree.digest, Tree.fold_eq, Expr.type_tree, Expr.node_tree, Node.map_map]
  rfl

namespace Fingerprint

open ShaderAlgebra.Expr

/-- The fingerprint of an expression under any hash. -/
def digest (hash : List UInt8 → Digest) (e : Expr) : Digest := ((visit hash e).run ∅).1

theorem fingerprint_eq_digest (e : Expr) : e.fingerprint = digest (Xxh3.digest seed) e := rfl

variable {hash : List UInt8 → Digest} {roots : List Expr} {memo : Memo} {e : Expr}

/-- Every entry for a node of the graph is the digest of its tree. -/
def Sound (hash : List UInt8 → Digest) (roots : List Expr) (memo : Memo) : Prop :=
  ∀ e ∈ graph roots, ∀ d, memo[e.id]? = some d → d = e.tree.digest hash

theorem Sound.empty (hash : List UInt8 → Digest) (roots : List Expr) : Sound hash roots ∅ := by
  intro e _ d hd
  rw [Std.HashMap.getElem?_empty] at hd
  cases hd

theorem Sound.insert (h : Coherent roots) (hm : Sound hash roots memo) (he : e ∈ graph roots) :
    Sound hash roots (memo.insert e.id (e.tree.digest hash)) := by
  intro x hx d hd
  rw [Std.HashMap.getElem?_insert] at hd
  split at hd
  · have hex : e = x := h e he x hx (by simpa using ‹(e.id == x.id) = true›)
    rw [← hex]
    exact (Option.some.inj hd).symm
  · exact hm x hx d hd

/-- The visit of a node gives the digest of its tree and keeps the memo sound. -/
theorem visit_tracks (h : Coherent roots) (he : e ∈ graph roots) :
    Tracks (fun _ : Unit => True) (fun _ => Sound hash roots) (fun _ _ => ())
      (fun e => e.tree.digest hash) (visit hash) e := by
  refine walk_tracks (fun memo e => memo[e.id]?) (· ∈ graph roots) (fun _ _ => rfl)
    (fun _ _ _ => trivial) (fun e he a ha => operand_mem_graph he ha) ?known ?finish he
  case known =>
    intro e _ memo d he _ hm hd
    exact ⟨hm e he d hd, hm⟩
  case finish =>
    intro e _ memo he _ _ _
    refine ⟨trivial, fun memo' hm' => ?_⟩
    have hdigest := Tree.digest_tree hash e
    refine ⟨hdigest.symm, ?_⟩
    have hinsert := hm'.insert h he
    rw [hdigest] at hinsert
    exact hinsert

theorem digest_eq (h : Coherent roots) (he : e ∈ graph roots) (hash : List UInt8 → Digest) :
    digest hash e = e.tree.digest hash :=
  (visit_tracks h he () ∅ trivial (Sound.empty hash roots)).1

/-- Sharing never shows in a fingerprint. For every hash, a node of a graph has the digest of
its unfolded tree, and so has every node of any other graph with the same tree. -/
theorem fingerprint_eq_digest_tree (roots : List Expr) (h : Coherent roots) :
    (∀ e ∈ graph roots, e.fingerprint = e.tree.digest (Xxh3.digest seed) ∧
      ∀ hash, ((visit hash e).run ∅).1 = e.tree.digest hash) ∧
    ∀ others, Coherent others → ∀ e ∈ graph roots, ∀ x ∈ graph others,
      e.tree = x.tree → e.fingerprint = x.fingerprint := by
  refine ⟨fun e he => ⟨digest_eq h he _, digest_eq h he⟩, ?_⟩
  intro others hothers e he x hx htree
  calc
    e.fingerprint = e.tree.digest (Xxh3.digest seed) := digest_eq h he _
    _ = x.tree.digest (Xxh3.digest seed) := by rw [htree]
    _ = x.fingerprint := (digest_eq hothers hx _).symm

/-- A masked seed or-ed with itself, of two operands with the given identities. -/
def maskedTwice (first second : Nat) : Expr :=
  let masked i := Expr.binary i .and (.leaf 0 .systemSeed) (.leaf 1 (.constant (.uint 255)))
  .binary 4 .or (masked first) (masked second)

/-- One operand at both places, and two operands that look alike. -/
theorem fingerprint_shared_eq_duplicated :
    Coherent [maskedTwice 2 2] ∧ Coherent [maskedTwice 2 3] ∧
      (maskedTwice 2 2).fingerprint = (maskedTwice 2 2).tree.digest (Xxh3.digest seed) ∧
      (maskedTwice 2 2).fingerprint = (maskedTwice 2 3).fingerprint := by
  have hshared : Coherent [maskedTwice 2 2] := by decide
  have hduplicated : Coherent [maskedTwice 2 3] := by decide
  have htree : (maskedTwice 2 2).tree = (maskedTwice 2 3).tree := by decide
  obtain ⟨hdigest, hequal⟩ := fingerprint_eq_digest_tree [maskedTwice 2 2] hshared
  have hmem : maskedTwice 2 2 ∈ graph [maskedTwice 2 2] := root_mem_graph (by simp)
  exact ⟨hshared, hduplicated, (hdigest _ hmem).1,
    hequal _ hduplicated _ hmem _ (root_mem_graph (by simp)) htree⟩

end Fingerprint

end ShaderAlgebra
