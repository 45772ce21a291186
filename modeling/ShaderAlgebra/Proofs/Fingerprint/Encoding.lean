import Mathlib.Algebra.Group.Nat.Defs
import ShaderAlgebra.Expr.Fingerprint

/-!
# Decoding the bytes of a node

The bytes that are hashed for a node determine its value type, its kind, its
data and the digests of its operands. A head of two bytes stands before the
digests of a node with operands, digests are blocks of 16 bytes, and a leaf has
nothing behind its data; so a name of any length ends where the bytes end.
-/

namespace ShaderAlgebra

/-- Blocks of one positive length can be cut apart again. -/
theorem flatMap_injective_of_length {α β : Type} {block : α → List β} {k : Nat} (hk : 0 < k)
    (hlength : ∀ a, (block a).length = k) (hblock : Function.Injective block) {as bs : List α}
    (h : as.flatMap block = bs.flatMap block) : as = bs := by
  induction as generalizing bs with
  | nil =>
    cases bs with
    | nil => rfl
    | cons b bs =>
      have hlen := congrArg List.length h
      simp only [List.flatMap_nil, List.flatMap_cons, List.length_nil, List.length_append,
        hlength] at hlen
      omega
  | cons a as ih =>
    cases bs with
    | nil =>
      have hlen := congrArg List.length h
      simp only [List.flatMap_nil, List.flatMap_cons, List.length_nil, List.length_append,
        hlength] at hlen
      omega
    | cons b bs =>
      obtain ⟨hab, hrest⟩ := List.append_inj h (by rw [hlength, hlength])
      rw [hblock hab, ih hrest]

theorem littleEndian_injective {n a b : Nat} (ha : a < 256 ^ n) (hb : b < 256 ^ n)
    (h : littleEndian n a = littleEndian n b) : a = b := by
  induction n generalizing a b with
  | zero => omega
  | succ n ih =>
    obtain ⟨hlow, hhigh⟩ := List.cons.inj h
    have hmod : a % 256 = b % 256 := by simpa using congrArg UInt8.toNat hlow
    have hdiv : a / 256 = b / 256 :=
      ih (Nat.div_lt_of_lt_mul (by rw [Nat.pow_succ] at ha; omega))
        (Nat.div_lt_of_lt_mul (by rw [Nat.pow_succ] at hb; omega)) hhigh
    omega

namespace Digest

theorem toNat_injective {d d' : Digest} (h : d.toNat = d'.toNat) : d = d' := by
  have hlo := d.lo.toNat_lt
  have hlo' := d'.lo.toNat_lt
  simp only [toNat, UInt64.size] at h
  have hhi : d.hi = d'.hi := UInt64.toNat_inj.1 (by omega)
  have hlow : d.lo = d'.lo := UInt64.toNat_inj.1 (by omega)
  cases d
  cases d'
  simp_all

theorem toNat_lt (d : Digest) : d.toNat < 256 ^ 16 := by
  have hlo := d.lo.toNat_lt
  have hhi := d.hi.toNat_lt
  simp only [toNat, UInt64.size]
  omega

theorem bytes_injective : Function.Injective bytes := fun d d' h =>
  toNat_injective (littleEndian_injective d.toNat_lt d'.toNat_lt h)

theorem length_bytes (d : Digest) : d.bytes.length = 16 := length_littleEndian 16 _

end Digest

namespace Fingerprint

theorem word_injective : Function.Injective fun n : UInt32 => word n.toNat := fun m n h =>
  UInt32.toNat_inj.1 (littleEndian_injective m.toNat_lt n.toNat_lt h)

def patterns : Constant → List UInt32
  | .int n => [n.toUInt32]
  | .uint n => [n]
  | c => c.floats.map Single.toUInt32

theorem constantBytes_eq (c : Constant) :
    constantBytes c = (patterns c).flatMap fun n => word n.toNat := by
  cases c <;> simp [constantBytes, patterns, Constant.floats]

theorem toUInt32_injective {x y : Single} (h : x.toUInt32 = y.toUInt32) : x = y := by
  rw [← Single.ofBits_toUInt32 x, h, Single.ofBits_toUInt32]

theorem patterns_injective {c d : Constant} (ht : c.type = d.type) (h : patterns c = patterns d) :
    c = d := by
  cases c <;> cases d <;> simp_all only [patterns, Constant.type, Constant.floats, reduceCtorEq,
    List.map_cons, List.map_nil, List.cons.injEq, and_true]
  case int m n => exact congrArg _ (congrArg Int32.ofUInt32 h)
  all_goals grind [toUInt32_injective]

theorem constantBytes_injective {c d : Constant} (ht : c.type = d.type)
    (h : constantBytes c = constantBytes d) : c = d := by
  rw [constantBytes_eq, constantBytes_eq] at h
  exact patterns_injective ht
    (flatMap_injective_of_length (by decide) (fun n => length_littleEndian 4 _) word_injective h)

theorem leafBytes_injective {k l : Leaf} (ht : k.type = l.type) (h : leafBytes k = leafBytes l) :
    k = l := by
  cases k <;> cases l <;> simp [leafBytes] at h
  case constant.constant c d => exact congrArg _ (constantBytes_injective ht h)
  case input.input s a t b =>
    obtain ⟨-, hname⟩ := List.append_inj h (by simp [word])
    have hab : a = b := String.toByteArray_inj.1 (ByteArray.ext (Array.toList_inj.1 hname))
    have hst : s = t := ht
    rw [hab, hst]
  case systemSeed.systemSeed => rfl

theorem byte_channel_injective : ∀ i j : Fin 4, byte i = byte j → i = j := by decide

theorem byte_flag_injective : ∀ p q : Bool, byte p.toNat = byte q.toNat → p = q := by decide

theorem unaryBytes_injective {a b : UnaryOp} (h : unaryBytes a = unaryBytes b) : a = b := by
  cases a <;> cases b <;> simp [unaryBytes] at h ⊢
  case channel.channel i j => exact byte_channel_injective i j h
  case random.random p q => exact byte_flag_injective p q h

theorem binaryTag_injective {a b : BinaryOp} (h : binaryTag a = binaryTag b) : a = b := by
  cases a <;> cases b <;> first | rfl | exact absurd h (by decide)

/-- With operands, a node's kind and data take two bytes. -/
theorem length_headBytes {n : Node Digest} (h : n.operands ≠ []) : (headBytes n).length = 2 := by
  cases n with
  | leaf => exact absurd rfl h
  | unary op => cases op <;> rfl
  | binary | vec2 | vec3 | vec4 => rfl

/-- The head of a leaf is none of a node with operands. -/
theorem leafBytes_ne {l : Leaf} {n : Node Digest} {rest : List UInt8} (h : n.operands ≠ []) :
    leafBytes l ≠ headBytes n ++ rest := by
  cases n with
  | leaf => exact absurd rfl h
  | unary op => cases l <;> cases op <;> simp [leafBytes, headBytes, unaryBytes]
  | binary | vec2 | vec3 | vec4 => cases l <;> simp [leafBytes, headBytes]

/-- With its operands known, a node is known by the bytes of its kind and data. -/
theorem headBytes_injective {m n : Node Digest} (hm : m.operands ≠ [])
    (hoperands : m.operands = n.operands) (h : headBytes m = headBytes n) : m = n := by
  cases m <;> cases n <;> simp_all [headBytes, Node.operands]
  case unary.unary => exact unaryBytes_injective h
  case binary.binary => exact binaryTag_injective h

theorem type_byte_injective {s t : ValueType} (h : byte s.index = byte t.index) : s = t := by
  cases s <;> cases t <;> first | rfl | exact absurd h (by decide)

theorem operands_eq_nil {n : Node Digest} (h : n.operands = []) : ∃ l, n = .leaf l := by
  cases n <;> simp_all [Node.operands]

/-- Bytes determine the value type and the layer, if leaves have the type that they say. -/
theorem encode_injective {s t : ValueType} {m n : Node Digest}
    (hs : ∀ l, m = .leaf l → l.type = s) (ht : ∀ l, n = .leaf l → l.type = t)
    (h : encode s m = encode t n) : s = t ∧ m = n := by
  rw [encode, encode, List.cons_append, List.cons_append, List.cons.injEq] at h
  obtain ⟨htype, hbytes⟩ := h
  have hst : s = t := type_byte_injective htype
  refine ⟨hst, ?_⟩
  by_cases hm : m.operands = [] <;> by_cases hn : n.operands = []
  · obtain ⟨k, rfl⟩ := operands_eq_nil hm
    obtain ⟨l, rfl⟩ := operands_eq_nil hn
    have hkl : k.type = l.type := by rw [hs k rfl, ht l rfl, hst]
    have hleaf : leafBytes k = leafBytes l := by
      simpa [headBytes, Node.operands] using hbytes
    rw [leafBytes_injective hkl hleaf]
  · obtain ⟨k, rfl⟩ := operands_eq_nil hm
    rw [hm, List.flatMap_nil, List.append_nil] at hbytes
    exact absurd hbytes (leafBytes_ne hn)
  · obtain ⟨l, rfl⟩ := operands_eq_nil hn
    rw [hn, List.flatMap_nil, List.append_nil] at hbytes
    exact absurd hbytes.symm (leafBytes_ne hm)
  · obtain ⟨hhead, hdigests⟩ :=
      List.append_inj hbytes (by rw [length_headBytes hm, length_headBytes hn])
    have hoperands : m.operands = n.operands :=
      flatMap_injective_of_length (by decide) Digest.length_bytes Digest.bytes_injective hdigests
    exact headBytes_injective hm hoperands hhead

end Fingerprint

end ShaderAlgebra
