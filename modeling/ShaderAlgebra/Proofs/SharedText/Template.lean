import ShaderAlgebra.Expr.Text

/-!
# Texts with slots

`Node.template` is the rule by which a node is written, with a slot in place of
each operand's text. Filling the slots gives the text of the node. A text with
references to bindings is a template whose slots are numbers, and `Expands` says
what is left when every reference is replaced by its binding's body, again and
again.
-/

namespace ShaderAlgebra

/-- A piece of a text: characters, or a slot for something else. -/
inductive Piece (α : Type)
  | chars (text : String)
  | slot (a : α)

/-- A text with slots. -/
abbrev Template (α : Type) := List (Piece α)

namespace Template

variable {α β γ : Type}

/-- The text with all slots filled. -/
def fill (f : α → String) : Template α → String
  | [] => ""
  | .chars text :: rest => text ++ fill f rest
  | .slot a :: rest => f a ++ fill f rest

/-- A template in place of each slot. -/
def bind (f : α → Template β) : Template α → Template β
  | [] => []
  | .chars text :: rest => .chars text :: bind f rest
  | .slot a :: rest => f a ++ bind f rest

/-- What the slots hold, from left to right. -/
def slots : Template α → List α
  | [] => []
  | .chars _ :: rest => slots rest
  | .slot a :: rest => a :: slots rest

theorem fill_append (f : α → String) (t u : Template α) :
    fill f (t ++ u) = fill f t ++ fill f u := by
  induction t with
  | nil => simp [fill]
  | cons p t ih => cases p <;> simp [fill, ih, String.append_assoc]

theorem fill_bind (f : α → Template β) (g : β → String) (t : Template α) :
    fill g (bind f t) = fill (fun a => fill g (f a)) t := by
  induction t with
  | nil => rfl
  | cons p t ih => cases p <;> simp [fill, bind, ih, fill_append]

theorem bind_append (f : α → Template β) (t u : Template α) :
    bind f (t ++ u) = bind f t ++ bind f u := by
  induction t with
  | nil => rfl
  | cons p t ih => cases p <;> simp [bind, ih]

theorem bind_bind (f : α → Template β) (g : β → Template γ) (t : Template α) :
    bind g (bind f t) = bind (fun a => bind g (f a)) t := by
  induction t with
  | nil => rfl
  | cons p t ih => cases p <;> simp [bind, ih, bind_append]

theorem slots_append (t u : Template α) : slots (t ++ u) = slots t ++ slots u := by
  induction t with
  | nil => rfl
  | cons p t ih => cases p <;> simp [slots, ih]

theorem slots_bind (f : α → Template β) (t : Template α) :
    slots (bind f t) = (slots t).flatMap fun a => slots (f a) := by
  induction t with
  | nil => rfl
  | cons p t ih => cases p <;> simp [slots, bind, ih, slots_append]

theorem mem_slots {a : α} {t : Template α} :
    a ∈ t.slots ↔ ∃ before after, t = before ++ .slot a :: after := by
  constructor
  · intro h
    induction t with
    | nil => cases h
    | cons p t ih =>
      have hlater (h : a ∈ slots t) : ∃ before after, p :: t = before ++ .slot a :: after := by
        obtain ⟨before, after, rfl⟩ := ih h
        exact ⟨p :: before, after, rfl⟩
      cases p with
      | chars text => exact hlater h
      | slot b =>
        rcases List.mem_cons.1 h with rfl | hrest
        · exact ⟨[], t, rfl⟩
        · exact hlater hrest
  · rintro ⟨before, after, rfl⟩
    simp [slots_append, slots]

def call (head : String) (args : List α) : Template α :=
  .chars head :: [.chars ", "].intercalate (args.map fun a => [.slot a]) ++ [.chars ")"]

theorem fill_intercalate (f : α → String) (args : List α) :
    fill f ([.chars ", "].intercalate (args.map fun a => [.slot a])) =
      ", ".intercalate (args.map f) := by
  induction args with
  | nil => rfl
  | cons a args ih =>
    cases args with
    | nil => simp [fill]
    | cons b args =>
      simp only [List.map_cons] at ih ⊢
      rw [List.intercalate_cons_cons, String.intercalate_cons_cons, fill_append, ih]
      simp [fill]

theorem fill_call (f : α → String) (head : String) (args : List α) :
    fill f (call head args) = head ++ ", ".intercalate (args.map f) ++ ")" := by
  rw [call, fill_append, fill, fill_intercalate]
  simp [fill]

end Template

open Template (call fill fill_call)

variable {α β : Type}

def UnaryOp.template (operand : α) : UnaryOp → Template α
  | floor => call "floor(" [operand]
  | log2 => call "log2(" [operand]
  | sin => call "sin(" [operand]
  | cos => call "cos(" [operand]
  | asin => call "asin(" [operand]
  | toFloat => call "float(" [operand]
  | channel i => [.slot operand, .chars ("." ++ channelLetter i)]
  | random perElement =>
    [.chars "fixedRandom(", .slot operand,
      .chars (", " ++ (if perElement then "true" else "false") ++ ")")]

def BinaryOp.template (op : BinaryOp) (lhs rhs : α) : Template α :=
  match op.spelling with
  | .between symbol =>
    [.chars "(", .slot lhs, .chars (" " ++ symbol ++ " "), .slot rhs, .chars ")"]
  | .call name => call (name ++ "(") [lhs, rhs]

theorem UnaryOp.fill_template (f : α → String) (op : UnaryOp) (a : α) :
    (op.template a).fill f = op.text (f a) := by
  have hcall (head : String) : fill f (call head [a]) = head ++ f a ++ ")" := by
    simp [fill_call]
  cases op with
  | channel i =>
    change f a ++ ("." ++ channelLetter i ++ "") = f a ++ "." ++ channelLetter i
    rw [String.append_empty, String.append_assoc]
  | random perElement =>
    have hflag (flag : String) :
        "fixedRandom(" ++ (f a ++ (", " ++ flag ++ ")" ++ "")) =
          "fixedRandom(" ++ f a ++ ", " ++ flag ++ ")" := by
      simp only [String.append_empty, String.append_assoc]
    exact hflag _
  | _ => exact hcall _

theorem BinaryOp.fill_template (f : α → String) (op : BinaryOp) (a b : α) :
    (op.template a b).fill f = op.text (f a) (f b) := by
  unfold template text
  cases op.spelling with
  | between symbol => simp [fill, String.append_assoc]
  | call name => simp [fill_call, String.append_assoc]

namespace Node

/-- The rule of a node, with a slot for each operand. -/
def template : Node α → Template α
  | leaf l => [.chars l.text]
  | unary op a => op.template a
  | binary op a b => op.template a b
  | vec2 x y => call "float2(" [x, y]
  | vec3 x y z => call "float3(" [x, y, z]
  | vec4 x y z w => call "float4(" [x, y, z, w]

theorem template_map (f : α → β) (n : Node α) :
    (n.map f).template = n.template.bind fun a => [.slot (f a)] := by
  cases n with
  | unary op _ => cases op <;> rfl
  | binary op _ _ => cases op <;> rfl
  | _ => rfl

theorem slots_template (n : Node α) : n.template.slots = n.operands := by
  cases n with
  | unary op _ => cases op <;> rfl
  | binary op _ _ => cases op <;> rfl
  | _ => rfl

/-- The text of a node is its rule, filled with the texts of the operands. -/
theorem text_map (f : α → String) (n : Node α) : (n.map f).text = n.template.fill f := by
  cases n with
  | leaf l => exact String.append_empty.symm
  | unary op a => exact (op.fill_template f a).symm
  | binary op a b => exact (op.fill_template f a b).symm
  | vec2 x y =>
    change "float2(" ++ f x ++ ", " ++ f y ++ ")" = fill f (call "float2(" [x, y])
    simp [fill_call, String.append_assoc]
  | vec3 x y z =>
    change "float3(" ++ f x ++ ", " ++ f y ++ ", " ++ f z ++ ")" =
      fill f (call "float3(" [x, y, z])
    simp [fill_call, String.append_assoc]
  | vec4 x y z w =>
    change "float4(" ++ f x ++ ", " ++ f y ++ ", " ++ f z ++ ", " ++ f w ++ ")" =
      fill f (call "float4(" [x, y, z, w])
    simp [fill_call, String.append_assoc]

end Node

end ShaderAlgebra
