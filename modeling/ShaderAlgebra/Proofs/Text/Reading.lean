import ShaderAlgebra.Proofs.Expr.Tree
import ShaderAlgebra.Proofs.Text.Words

/-!
# Reading shader text

A text is read back from the left. The word before a bracket and what follows the
first operand tell the layer, and each operand ends where the text of the layer
goes on. Only the types of places and the kinds of leaves are out of sight, so what
is read is the skeleton of a tree.
-/

namespace ShaderAlgebra

deriving instance DecidableEq for Node

/-- The word before the bracket that opens the operand. -/
def UnaryOp.name : UnaryOp → String
  | floor => "floor"
  | log2 => "log2"
  | sin => "sin"
  | cos => "cos"
  | asin => "asin"
  | toFloat => "float"
  | channel _ => ""
  | random _ => "fixedRandom"

/-- What stands after the operand. -/
def UnaryOp.ending : UnaryOp → String
  | floor | log2 | sin | cos | asin | toFloat => ")"
  | channel i => "." ++ channelLetter i
  | random perElement => ", " ++ (if perElement then "true" else "false") ++ ")"

theorem UnaryOp.text_eq (op : UnaryOp) (h : ∀ i, op ≠ channel i) (operand : String) :
    op.text operand = op.name ++ "(" ++ operand ++ op.ending := by
  cases op with
  | channel i => exact absurd rfl (h i)
  | random perElement =>
    change "fixedRandom(" ++ operand ++ ", " ++ (if perElement then "true" else "false") ++ ")" =
      "fixedRandom(" ++ operand ++ (", " ++ (if perElement then "true" else "false") ++ ")")
    simp only [String.append_assoc]
  | _ => rfl

/-- The primitives of one operand that are written with brackets. -/
def UnaryOp.bracketed : List UnaryOp :=
  [floor, log2, sin, cos, asin, toFloat, random true, random false]

theorem UnaryOp.mem_bracketed {op : UnaryOp} (h : ∀ i, op ≠ channel i) : op ∈ bracketed := by
  cases op with
  | channel i => exact absurd rfl (h i)
  | random perElement => cases perElement <;> decide
  | _ => decide

def BinaryOp.all : List BinaryOp :=
  [add, sub, mul, div, min, max, pow, atan2, and, or, xor, shl, shr]

theorem BinaryOp.mem_all (op : BinaryOp) : op ∈ all := by
  cases op <;> decide

/-- The word before the bracket that opens the operands; symbols have none. -/
def BinaryOp.name (op : BinaryOp) : String :=
  match op.spelling with
  | .between _ => ""
  | .call name => name

/-- What stands after the left operand. -/
def BinaryOp.middle (op : BinaryOp) : String :=
  match op.spelling with
  | .between symbol => " " ++ symbol ++ " "
  | .call _ => ", "

/-- Texts with what stands after each of them. -/
def weave (texts endings : List (List Char)) : List Char :=
  (List.zipWith (· ++ ·) texts endings).flatten

namespace Node

variable {α β : Type}

/-- Whether the operands stand in brackets. -/
def isBracketed : Node α → Bool
  | leaf _ | unary (.channel _) _ => false
  | _ => true

/-- The word before the brackets. -/
def name : Node α → String
  | leaf l => l.text
  | unary op _ => op.name
  | binary op .. => op.name
  | vec2 .. => "float2"
  | vec3 .. => "float3"
  | vec4 .. => "float4"

/-- What stands after each operand. -/
def endings : Node α → List String
  | leaf _ => []
  | unary op _ => [op.ending]
  | binary op .. => [op.middle, ")"]
  | vec2 .. => [", ", ")"]
  | vec3 .. => [", ", ", ", ")"]
  | vec4 .. => [", ", ", ", ", ", ")"]

def head (n : Node α) : Node Unit := n.map fun _ => ()

@[simp] theorem isBracketed_map (g : α → β) (n : Node α) :
    (n.map g).isBracketed = n.isBracketed := by
  cases n with
  | unary op a => cases op <;> rfl
  | _ => rfl

@[simp] theorem name_map (g : α → β) (n : Node α) : (n.map g).name = n.name := by
  cases n <;> rfl

@[simp] theorem endings_map (g : α → β) (n : Node α) : (n.map g).endings = n.endings := by
  cases n <;> rfl

@[simp] theorem name_head (n : Node α) : n.head.name = n.name := name_map _ n

@[simp] theorem endings_head (n : Node α) : n.head.endings = n.endings := endings_map _ n

@[simp] theorem head_map (g : α → β) (n : Node α) : (n.map g).head = n.head := by
  cases n <;> rfl

theorem length_endings {n : Node α} (h : n.isBracketed = true) :
    n.endings.length = n.operands.length := by
  cases n with
  | leaf => cases h
  | _ => rfl

theorem operands_ne_nil {n : Node α} (h : n.isBracketed = true) : n.operands ≠ [] := by
  cases n with
  | leaf => cases h
  | _ => exact List.cons_ne_nil _ _

theorem eq_of_head_eq {m n : Node α} (h : m.head = n.head) (hoperands : m.operands = n.operands) :
    m = n := by
  cases m <;> cases n <;> simp_all [head, map, operands]

/-- The text of a layer with brackets: a word, and the operands with their endings. -/
theorem toList_text {n : Node String} (h : n.isBracketed = true) :
    n.text.toList = n.name.toList ++
      '(' :: weave (n.operands.map String.toList) (n.endings.map String.toList) := by
  cases n with
  | leaf => cases h
  | unary op a =>
    change (op.text a).toList = op.name.toList ++ '(' :: weave [a.toList] [op.ending.toList]
    rw [op.text_eq (fun i hi => by rw [hi] at h; cases h)]
    simp [weave]
  | binary op a b =>
    change (op.text a b).toList = op.name.toList ++
      '(' :: weave [a.toList, b.toList] [op.middle.toList, ")".toList]
    cases hspelling : op.spelling <;>
      simp [weave, BinaryOp.text, BinaryOp.name, BinaryOp.middle, hspelling]
  | vec2 x y =>
    change ("float2(" ++ x ++ ", " ++ y ++ ")").toList =
      "float2".toList ++ '(' :: weave [x.toList, y.toList] [", ".toList, ")".toList]
    simp [weave]
  | vec3 x y z =>
    change ("float3(" ++ x ++ ", " ++ y ++ ", " ++ z ++ ")").toList =
      "float3".toList ++ '(' ::
        weave [x.toList, y.toList, z.toList] [", ".toList, ", ".toList, ")".toList]
    simp [weave]
  | vec4 x y z w =>
    change ("float4(" ++ x ++ ", " ++ y ++ ", " ++ z ++ ", " ++ w ++ ")").toList =
      "float4".toList ++ '(' :: weave [x.toList, y.toList, z.toList, w.toList]
        [", ".toList, ", ".toList, ", ".toList, ")".toList]
    simp [weave]

def heads : List (Node Unit) :=
  UnaryOp.bracketed.map (unary · ()) ++ BinaryOp.all.map (binary · () ()) ++
    [vec2 () (), vec3 () () (), vec4 () () () ()]

theorem head_mem_heads {n : Node α} (h : n.isBracketed = true) : n.head ∈ heads := by
  cases n with
  | leaf => cases h
  | unary op a =>
    have hop : op ∈ UnaryOp.bracketed := UnaryOp.mem_bracketed fun i hi => by rw [hi] at h; cases h
    exact List.mem_append_left _ (List.mem_append_left _ (List.mem_map_of_mem hop))
  | binary op a b =>
    exact List.mem_append_left _ (List.mem_append_right _ (List.mem_map_of_mem op.mem_all))
  | vec2 => exact List.mem_append_right _ (.head _)
  | vec3 => exact List.mem_append_right _ (.tail _ (.head _))
  | vec4 => exact List.mem_append_right _ (.tail _ (.tail _ (.head _)))

/-- The characters after operands. -/
def isStop (c : Char) : Bool := c == ' ' || c == ',' || c == ')'

/-- A text that ends the operand before it, whatever follows. -/
def isEnding (e : String) : Bool := e.toList.head?.any isStop

theorem heads_spell : ∀ h ∈ heads, h.name.toList.all isNameChar = true ∧
    ∀ e ∈ h.endings, isEnding e = true := by
  decide +kernel

theorem heads_injective : ∀ h ∈ heads, ∀ k ∈ heads, h.name = k.name →
    ∀ d ∈ h.endings.head?, ∀ e ∈ k.endings.head?,
      d.toList <+: e.toList ∨ e.toList <+: d.toList → h = k := by
  decide +kernel

theorem solid_name {n : Node α} (h : n.isBracketed = true) : Solid n.name.toList := by
  have hspell := (heads_spell _ (head_mem_heads h)).1
  rw [name_head] at hspell
  exact solid_of_isNameChar hspell

theorem isEnding_of_mem {n : Node α} (h : n.isBracketed = true) :
    ∀ e ∈ n.endings, isEnding e = true := by
  have hspell := (heads_spell _ (head_mem_heads h)).2
  rwa [endings_head] at hspell

/-- The word before the brackets and what follows the first operand tell the layer. -/
theorem head_eq_of_prefix {m : Node α} {n : Node β} {d e : String} (hm : m.isBracketed = true)
    (hn : n.isBracketed = true) (hname : m.name = n.name) (hd : d ∈ m.endings.head?)
    (he : e ∈ n.endings.head?) (h : d.toList <+: e.toList ∨ e.toList <+: d.toList) :
    m.head = n.head := by
  refine heads_injective _ (head_mem_heads hm) _ (head_mem_heads hn) ?_ d ?_ e ?_ h
  · rw [name_head, name_head, hname]
  · rwa [endings_head]
  · rwa [endings_head]

/-- A leaf shows only its text. -/
def bare : Node α → Node α
  | leaf l => leaf (.input .float l.text)
  | n => n

end Node

namespace Tree

variable {p q : Tree → Prop} {t t' : Tree} {r r' : List Char}

def operands (t : Tree) : List Tree := t.node.operands

/-- The nested text of a tree. -/
def text (t : Tree) : String := t.fold fun _ n => n.text

theorem text_eq (t : Tree) : t.text = (t.node.map text).text := fold_eq _ t

def chars (t : Tree) : List Char := t.text.toList

/-- A tree without its types, whose leaves are their texts. -/
def skeleton (t : Tree) : Tree := t.fold fun _ n => ofNode .float n.bare

theorem skeleton_eq (t : Tree) : t.skeleton = ofNode .float (t.node.map skeleton).bare :=
  fold_eq _ t

/-- A property of all places of a tree. -/
inductive Everywhere (p : Tree → Prop) : Tree → Prop
  | intro {t : Tree} (top : p t) (operands : ∀ a ∈ t.operands, Everywhere p a) : Everywhere p t

theorem Everywhere.top (h : t.Everywhere p) : p t := by
  cases h with
  | intro top _ => exact top

theorem Everywhere.of_mem (h : t.Everywhere p) : ∀ a ∈ t.operands, a.Everywhere p := by
  cases h with
  | intro _ operands => exact operands

theorem Everywhere.imp (h : t.Everywhere p)
    (hpq : ∀ t, p t → (∀ a ∈ t.operands, p a) → q t) : t.Everywhere q := by
  induction h with
  | intro top operands ih => exact .intro (hpq _ top fun a ha => (operands a ha).top) ih

def isChannel : Tree → Bool
  | unary _ (.channel _) _ => true
  | _ => false

/-- What makes a place readable: leaves are words, and channels are not of channels. -/
def Readable : Tree → Prop
  | leaf _ l => Solid l.text.toList
  | unary _ (.channel _) a => a.isChannel = false
  | _ => True

/-- A text that an operand does not reach. -/
def Stops (r : List Char) : Prop := ∀ c ∈ r.head?, Node.isStop c = true

/-- A text that is not part of anything but a channel of what stands before it. -/
def Ends (r : List Char) : Prop :=
  Stops r ∨ ∃ c rest, r = '.' :: c :: rest ∧ c.isDigit = false

theorem stops_append {e : String} (h : Node.isEnding e = true) (r : List Char) :
    Stops (e.toList ++ r) := by
  unfold Node.isEnding at h
  intro d hd
  cases he : e.toList with
  | nil => rw [he] at h; cases h
  | cons c rest =>
    rw [he] at h hd
    obtain rfl : c = d := by simpa using hd
    exact h

theorem Ends.endsWord (h : Ends r) : EndsWord r := by
  rcases h with hstops | ⟨c, rest, rfl, hc⟩
  · cases r with
    | nil => exact .nil
    | cons c rest =>
      refine .space ?_ rest
      have hc := hstops c (by simp)
      simp only [Node.isStop, isBreak, Bool.or_eq_true] at hc ⊢
      tauto
  · exact .channel hc rest

theorem not_ends_bracket : ¬Ends ('(' :: r) := by
  intro h
  rcases h with hstops | ⟨c, rest, hr, -⟩
  · exact absurd (hstops '(' (by simp)) (by decide)
  · exact absurd (List.cons.inj hr).1 (by decide)

theorem not_stops_point : ¬Stops ('.' :: r) :=
  fun h => absurd (h '.' (by simp)) (by decide)

/-- Before texts of a kind, the text of `t` is not the text of `t'`, unless they look alike. -/
def ReadBefore (ends : List Char → Prop) (t t' : Tree) : Prop :=
  ∀ r r', ends r → ends r' → t.chars ++ r = t'.chars ++ r' → t.skeleton = t'.skeleton ∧ r = r'

theorem skeleton_eq_of_head_eq (h : t.node.head = t'.node.head)
    (hoperands : t.operands.map skeleton = t'.operands.map skeleton) :
    t.skeleton = t'.skeleton := by
  have hnode : t.node.map skeleton = t'.node.map skeleton := by
    refine Node.eq_of_head_eq ?_ ?_
    · rw [Node.head_map, Node.head_map, h]
    · rw [Node.operands_map, Node.operands_map]
      exact hoperands
  rw [skeleton_eq, skeleton_eq, hnode]

/-- The operands of a tree with their endings. -/
def inside (t : Tree) : List Char :=
  weave (t.operands.map chars) (t.node.endings.map String.toList)

theorem chars_eq (h : t.node.isBracketed = true) :
    t.chars = t.node.name.toList ++ '(' :: t.inside := by
  have hmap : (t.node.map text).isBracketed = true := by rwa [Node.isBracketed_map]
  rw [chars, text_eq, Node.toList_text hmap, Node.name_map, Node.endings_map, Node.operands_map,
    List.map_map]
  rfl

/-- Operands with known endings are read one after the other. -/
theorem map_skeleton_eq {as bs : List Tree} {es : List String}
    (hes : ∀ e ∈ es, Node.isEnding e = true) (has : es.length = as.length)
    (hbs : es.length = bs.length) (ih : ∀ a ∈ as, ∀ b ∈ bs, ReadBefore Stops a b)
    (h : weave (as.map chars) (es.map String.toList) ++ r =
      weave (bs.map chars) (es.map String.toList) ++ r') :
    as.map skeleton = bs.map skeleton ∧ r = r' := by
  induction es generalizing as bs with
  | nil =>
    obtain rfl := List.length_eq_zero_iff.1 has.symm
    obtain rfl := List.length_eq_zero_iff.1 hbs.symm
    exact ⟨rfl, h⟩
  | cons e es ih' =>
    obtain ⟨a, as, rfl⟩ := List.exists_cons_of_length_eq_add_one has.symm
    obtain ⟨b, bs, rfl⟩ := List.exists_cons_of_length_eq_add_one hbs.symm
    have he := hes e (by simp)
    simp only [weave, List.map_cons, List.zipWith_cons_cons, List.flatten_cons,
      List.append_assoc] at h
    obtain ⟨hab, hrest⟩ := ih a (by simp) b (by simp) _ _ (stops_append he _) (stops_append he _) h
    obtain ⟨hskeletons, hr⟩ := ih' (fun e he => hes e (List.mem_cons_of_mem _ he))
      (Nat.succ.inj has) (Nat.succ.inj hbs)
      (fun a ha b hb => ih a (List.mem_cons_of_mem _ ha) b (List.mem_cons_of_mem _ hb))
      (List.append_cancel_left hrest)
    exact ⟨by rw [List.map_cons, List.map_cons, hab, hskeletons], hr⟩

/-- What stands in brackets begins with an operand and the ending after it. -/
theorem exists_inside_eq (h : t.node.isBracketed = true) :
    ∃ a ∈ t.operands, ∃ e ∈ t.node.endings.head?, ∃ rest,
      t.inside = a.chars ++ (e.toList ++ rest) := by
  obtain ⟨a, as, ha⟩ := List.exists_cons_of_ne_nil (Node.operands_ne_nil h)
  have hlength := Node.length_endings h
  rw [ha] at hlength
  obtain ⟨e, es, he⟩ := List.exists_cons_of_length_eq_add_one hlength
  refine ⟨a, ?_, e, ?_, weave (as.map chars) (es.map String.toList), ?_⟩
  · rw [operands, ha]
    exact List.mem_cons_self
  · rw [he]
    rfl
  · rw [inside, operands, ha, he]
    simp [weave]

/-- Layers with the same word before their brackets are told apart after the first operand. -/
theorem head_eq_of_inside_eq (h : t.node.isBracketed = true) (h' : t'.node.isBracketed = true)
    (hname : t.node.name = t'.node.name)
    (ih : ∀ a ∈ t.operands, ∀ b ∈ t'.operands, ReadBefore Stops a b)
    (htext : t.inside ++ r = t'.inside ++ r') : t.node.head = t'.node.head := by
  obtain ⟨a, ha, d, hd, rest, hinside⟩ := exists_inside_eq h
  obtain ⟨b, hb, e, he, rest', hinside'⟩ := exists_inside_eq h'
  have hdstops := Node.isEnding_of_mem h d (List.mem_of_mem_head? hd)
  have hestops := Node.isEnding_of_mem h' e (List.mem_of_mem_head? he)
  rw [hinside, hinside'] at htext
  simp only [List.append_assoc] at htext
  obtain ⟨-, hrest⟩ := ih a ha b hb _ _ (stops_append hdstops _) (stops_append hestops _) htext
  exact Node.head_eq_of_prefix h h' hname hd he
    (List.prefix_or_prefix_of_prefix ⟨_, hrest⟩ ⟨_, rfl⟩)

theorem readBefore_of_isBracketed (h : t.node.isBracketed = true)
    (h' : t'.node.isBracketed = true)
    (ih : ∀ a ∈ t.operands, ∀ b ∈ t'.operands, ReadBefore Stops a b) (ends : List Char → Prop) :
    ReadBefore ends t t' := by
  intro r r' _ _ htext
  rw [chars_eq h, chars_eq h', List.append_assoc, List.append_assoc] at htext
  obtain ⟨hname, hbracket⟩ :=
    (Node.solid_name h).append_inj (Node.solid_name h') (.space rfl _) (.space rfl _) htext
  have hinside : t.inside ++ r = t'.inside ++ r' := (List.cons.inj hbracket).2
  have hhead := head_eq_of_inside_eq h h' (String.toList_injective hname) ih hinside
  -- The layers are one, so the operands have the same endings.
  have hendings : t.node.endings = t'.node.endings := by
    simpa only [Node.endings_head] using congrArg Node.endings hhead
  have hlength := Node.length_endings h
  have hlength' := Node.length_endings h'
  rw [inside, inside, ← hendings] at hinside
  rw [← hendings] at hlength'
  obtain ⟨hskeletons, hr⟩ :=
    map_skeleton_eq (Node.isEnding_of_mem h) hlength hlength' ih hinside
  exact ⟨skeleton_eq_of_head_eq hhead hskeletons, hr⟩

/-- A layer that is no channel is a leaf or has brackets. -/
theorem leaf_or_isBracketed (h : t.isChannel = false) :
    (∃ type l, t = leaf type l) ∨ t.node.isBracketed = true := by
  cases t with
  | leaf type l => exact .inl ⟨type, l, rfl⟩
  | unary type op a =>
    cases op with
    | channel => cases h
    | _ => exact .inr rfl
  | _ => exact .inr rfl

theorem readBefore_leaf {type type' : ValueType} {l l' : Leaf} (h : Solid l.text.toList)
    (h' : Solid l'.text.toList) : ReadBefore Ends (leaf type l) (leaf type' l') := by
  intro r r' hr hr' htext
  obtain ⟨hword, hrest⟩ := h.append_inj h' hr.endsWord hr'.endsWord htext
  refine ⟨?_, hrest⟩
  change leaf .float (.input .float l.text) = leaf .float (.input .float l'.text)
  rw [String.toList_injective hword]

/-- A word is not the beginning of a text with brackets. -/
theorem leaf_ne_bracketed {type : ValueType} {l : Leaf} (h : Solid l.text.toList)
    (h' : t.node.isBracketed = true) (hr : Ends r) :
    (leaf type l).chars ++ r ≠ t.chars ++ r' := by
  intro htext
  rw [chars_eq h', List.append_assoc] at htext
  obtain ⟨-, rfl⟩ := h.append_inj (Node.solid_name h') hr.endsWord (.space rfl _) htext
  exact not_ends_bracket hr

/-- A tree that is no channel is read up to a channel of it, or to what stands after it. -/
theorem readBefore_ends (htop : t.Readable) (htop' : t'.Readable) (h : t.isChannel = false)
    (h' : t'.isChannel = false)
    (ih : ∀ a ∈ t.operands, ∀ b ∈ t'.operands, ReadBefore Stops a b) : ReadBefore Ends t t' := by
  rcases leaf_or_isBracketed h with ⟨type, l, rfl⟩ | hbracketed
  · rcases leaf_or_isBracketed h' with ⟨type', l', rfl⟩ | hbracketed'
    · exact readBefore_leaf htop htop'
    · exact fun r r' hr _ htext => absurd htext (leaf_ne_bracketed htop hbracketed' hr)
  · rcases leaf_or_isBracketed h' with ⟨type', l', rfl⟩ | hbracketed'
    · exact fun r r' _ hr' htext => absurd htext.symm (leaf_ne_bracketed htop' hbracketed hr')
    · exact readBefore_of_isBracketed hbracketed hbracketed' ih Ends

theorem chars_channel (type : ValueType) (i : Fin 4) (a : Tree) :
    (unary type (.channel i) a).chars = a.chars ++ '.' :: (channelLetter i).toList := by
  change (a.text ++ "." ++ channelLetter i).toList = a.text.toList ++ '.' :: _
  simp

theorem exists_channel (h : t.isChannel = true) : ∃ type i a, t = unary type (.channel i) a := by
  cases t with
  | unary type op a =>
    cases op with
    | channel i => exact ⟨type, i, a, rfl⟩
    | _ => cases h
  | _ => cases h

theorem toList_channelLetter : ∀ i, ∃ c, (channelLetter i).toList = [c] ∧ c.isDigit = false
  | 0 => ⟨'x', rfl, rfl⟩
  | 1 => ⟨'y', rfl, rfl⟩
  | 2 => ⟨'z', rfl, rfl⟩
  | 3 => ⟨'w', rfl, rfl⟩

theorem channelLetter_injective :
    ∀ i j, (channelLetter i).toList = (channelLetter j).toList → i = j := by
  decide

theorem ends_channel (i : Fin 4) (r : List Char) :
    Ends ('.' :: (channelLetter i).toList ++ r) := by
  obtain ⟨c, hletter, hc⟩ := toList_channelLetter i
  rw [hletter]
  exact .inr ⟨c, r, rfl, hc⟩

/-- The two ways to read a tree: up to a channel of it, or past all of its channels. -/
theorem readBefore_ends_and_stops (ht : t.Everywhere Readable) (ht' : t'.Everywhere Readable) :
    (t.isChannel = false → t'.isChannel = false → ReadBefore Ends t t') ∧
      ReadBefore Stops t t' := by
  induction ht generalizing t' with
  | @intro t htop hoperands ih =>
    have hends {t' : Tree} (ht' : t'.Everywhere Readable) (h : t.isChannel = false)
        (h' : t'.isChannel = false) : ReadBefore Ends t t' :=
      readBefore_ends htop ht'.top h h' fun a ha b hb => (ih a ha (ht'.of_mem b hb)).2
    refine ⟨hends ht', fun r r' hr hr' htext => ?_⟩
    cases hchannel : t.isChannel with
    | false =>
      cases hchannel' : t'.isChannel with
      | false => exact hends ht' hchannel hchannel' r r' (.inl hr) (.inl hr') htext
      | true =>
        obtain ⟨type, i, b, rfl⟩ := exists_channel hchannel'
        have hb : b.Everywhere Readable := ht'.of_mem b (List.mem_singleton.2 rfl)
        -- `t` would be read as the operand of the channel, and a point would follow it.
        rw [chars_channel, List.append_assoc] at htext
        obtain ⟨-, rfl⟩ := hends hb hchannel ht'.top r _ (.inl hr) (ends_channel i r') htext
        exact absurd hr not_stops_point
    | true =>
      obtain ⟨type, i, a, rfl⟩ := exists_channel hchannel
      have ha : a ∈ (unary type (.channel i) a).operands := List.mem_singleton.2 rfl
      rw [chars_channel, List.append_assoc] at htext
      cases hchannel' : t'.isChannel with
      | false =>
        obtain ⟨-, rfl⟩ := (ih a ha ht').1 htop hchannel' _ r' (ends_channel i r) (.inl hr') htext
        exact absurd hr' not_stops_point
      | true =>
        obtain ⟨type', j, b, rfl⟩ := exists_channel hchannel'
        have hb : b.Everywhere Readable := ht'.of_mem b (List.mem_singleton.2 rfl)
        rw [chars_channel, List.append_assoc] at htext
        obtain ⟨hskeleton, hrest⟩ :=
          (ih a ha hb).1 htop ht'.top _ _ (ends_channel i r) (ends_channel j r') htext
        obtain ⟨c, hi, -⟩ := toList_channelLetter i
        obtain ⟨d, hj, -⟩ := toList_channelLetter j
        rw [hi, hj] at hrest
        obtain ⟨rfl, rfl⟩ : c = d ∧ r = r' := by simpa using hrest
        obtain rfl := channelLetter_injective i j (hi.trans hj.symm)
        refine ⟨skeleton_eq_of_head_eq rfl ?_, rfl⟩
        exact congrArg (fun s => [s]) hskeleton

/-- A text tells the skeleton of its tree. -/
theorem skeleton_eq_of_text_eq (ht : t.Everywhere Readable) (ht' : t'.Everywhere Readable)
    (h : t.text = t'.text) : t.skeleton = t'.skeleton := by
  have hstops : Stops [] := nofun
  refine ((readBefore_ends_and_stops ht ht').2 [] [] hstops hstops ?_).1
  rw [chars, chars, h]

end Tree

end ShaderAlgebra
