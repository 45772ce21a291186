import Mathlib.Tactic.ByContra
import ShaderAlgebra.Proofs.Fingerprint.Encoding
import ShaderAlgebra.Proofs.Fingerprint.Memo

/-!
# Collisions of fingerprints

Two expressions with different trees and one fingerprint show a collision of the
hash: somewhere below them two different byte strings were hashed to one digest.
Nothing is assumed of the hash.
-/

namespace ShaderAlgebra

namespace Fingerprint

open ShaderAlgebra.Expr

/-- The bytes that are hashed for a node: its type, kind and data, and the fingerprints of its
operands. -/
def preimage (hash : List UInt8 → Digest) (e : Expr) : List UInt8 :=
  encode e.type (e.node.map (digest hash))

variable {hash : List UInt8 → Digest} {roots : List Expr} {a b e : Expr}

theorem leaf_type_eq {f : Expr → Digest} {l : Leaf} (h : e.node.map f = .leaf l) :
    l.type = e.type := by
  cases e <;> simp_all [node, Node.map, Expr.type]

theorem encode_map_injective {x y : Expr} {f g : Expr → Digest}
    (h : encode x.type (x.node.map f) = encode y.type (y.node.map g)) :
    x.type = y.type ∧ x.node.map f = y.node.map g :=
  encode_injective (fun _ => leaf_type_eq) (fun _ => leaf_type_eq) h

/-- Follows a pair of equal digests down to the first pair of different preimages. -/
theorem exists_collision_of_digest_tree (hne : a.tree ≠ b.tree)
    (h : a.tree.digest hash = b.tree.digest hash) :
    ∃ x ∈ a.nodes, ∃ y ∈ b.nodes, x.tree.digest hash = y.tree.digest hash ∧
      encode x.type (x.node.map fun e => e.tree.digest hash) ≠
        encode y.type (y.node.map fun e => e.tree.digest hash) := by
  induction a using induction_on_operands generalizing b with
  | step a ih =>
    by_cases hbytes : encode a.type (a.node.map fun e => e.tree.digest hash) =
        encode b.type (b.node.map fun e => e.tree.digest hash)
    · obtain ⟨htype, hnode⟩ := encode_map_injective hbytes
      -- The two layers agree in all but their operands, so a pair of operands differs.
      have hoperands : ∃ x ∈ a.operands, ∃ y ∈ b.operands,
          x.tree.digest hash = y.tree.digest hash ∧ x.tree ≠ y.tree := by
        by_contra hnone
        push Not at hnone
        apply hne
        rw [tree_eq a, tree_eq b, htype, Node.map_eq_map_of_factor hnode hnone]
      obtain ⟨x, hx, y, hy, hdigest, htree⟩ := hoperands
      obtain ⟨p, hp, q, hq, hpq⟩ := ih x hx htree hdigest
      exact ⟨p, mem_nodes_of_operand hx hp, q, mem_nodes_of_operand hy hq, hpq⟩
    · exact ⟨a, self_mem_nodes a, b, self_mem_nodes b, h, hbytes⟩

theorem preimage_eq (h : Coherent roots) (he : e ∈ graph roots) :
    preimage hash e = encode e.type (e.node.map fun a => a.tree.digest hash) := by
  rw [preimage, Node.map_congr_operands fun a ha => digest_eq h (operand_mem_graph he ha) hash]

theorem hash_preimage (h : Coherent roots) (he : e ∈ graph roots) :
    hash (preimage hash e) = digest hash e := by
  rw [preimage_eq h he, digest_eq h he, Tree.digest_tree hash e]

/-- The bytes of a node determine its type and its layer, a fingerprint is the hash of the
preimage, and fingerprints separate trees up to collisions: if two expressions with different
trees have one fingerprint, then two different preimages of nodes below them have one digest. -/
theorem exists_collision_of_fingerprint_eq (hash : List UInt8 → Digest) :
    (∀ (x y : Expr) (f g : Expr → Digest),
      encode x.type (x.node.map f) = encode y.type (y.node.map g) →
        x.type = y.type ∧ x.node.map f = y.node.map g) ∧
    (∀ e : Expr, e.fingerprint = digest (Xxh3.digest seed) e) ∧
    (∀ e : Expr, Coherent [e] → ∀ x ∈ e.nodes, digest hash x = hash (preimage hash x)) ∧
    ∀ a b : Expr, Coherent [a] → Coherent [b] → a.tree ≠ b.tree → digest hash a = digest hash b →
      ∃ x ∈ a.nodes, ∃ y ∈ b.nodes, preimage hash x ≠ preimage hash y ∧
        hash (preimage hash x) = hash (preimage hash y) := by
  have hgraph : ∀ {e x : Expr}, x ∈ e.nodes → x ∈ graph [e] := fun hx => by simpa using hx
  refine ⟨fun _ _ _ _ => encode_map_injective, fingerprint_eq_digest, ?_, ?_⟩
  · intro e he x hx
    exact (hash_preimage he (hgraph hx)).symm
  · intro a b ha hb hne h
    have hdigest : a.tree.digest hash = b.tree.digest hash := by
      rwa [digest_eq ha (hgraph (self_mem_nodes a)),
        digest_eq hb (hgraph (self_mem_nodes b))] at h
    obtain ⟨x, hx, y, hy, hxy, hbytes⟩ := exists_collision_of_digest_tree hne hdigest
    refine ⟨x, hx, y, hy, ?_, ?_⟩
    · rwa [preimage_eq ha (hgraph hx), preimage_eq hb (hgraph hy)]
    · calc
        hash (preimage hash x) = digest hash x := hash_preimage ha (hgraph hx)
        _ = x.tree.digest hash := digest_eq ha (hgraph hx) hash
        _ = y.tree.digest hash := hxy
        _ = digest hash y := (digest_eq hb (hgraph hy) hash).symm
        _ = hash (preimage hash y) := (hash_preimage hb (hgraph hy)).symm

def noisePlus (bits : UInt32) : Expr :=
  .binary 3 .add (.unary 1 (.random false) (.leaf 0 .systemSeed))
    (.leaf 2 (.constant (.float (.ofBits bits))))

/-- Under a hash that only looks at lengths, adding zero and adding minus zero collide. -/
theorem exists_collision_of_signed_zeros :
    let hash : List UInt8 → Digest := fun bytes => ⟨0, UInt64.ofNat bytes.length⟩
    Coherent [noisePlus 0] ∧ Coherent [noisePlus 0x80000000] ∧
      (noisePlus 0).tree ≠ (noisePlus 0x80000000).tree ∧
      digest hash (noisePlus 0) = digest hash (noisePlus 0x80000000) ∧
      ∃ x ∈ (noisePlus 0).nodes, ∃ y ∈ (noisePlus 0x80000000).nodes,
        preimage hash x ≠ preimage hash y ∧ hash (preimage hash x) = hash (preimage hash y) := by
  intro hash
  have hplus : Coherent [noisePlus 0] := by decide
  have hminus : Coherent [noisePlus 0x80000000] := by decide
  have htree : (noisePlus 0).tree ≠ (noisePlus 0x80000000).tree := by decide
  have hdigest : digest hash (noisePlus 0) = digest hash (noisePlus 0x80000000) := by
    rw [digest_eq hplus (root_mem_graph (by simp)), digest_eq hminus (root_mem_graph (by simp))]
    rfl
  exact ⟨hplus, hminus, htree, hdigest,
    (exists_collision_of_fingerprint_eq hash).2.2.2 _ _ hplus hminus htree hdigest⟩

end Fingerprint

end ShaderAlgebra
