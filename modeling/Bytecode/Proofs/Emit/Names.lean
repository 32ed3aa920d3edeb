import Bytecode.Emit.Sets
import Bytecode.Proofs.Rust.Literal
import Mathlib.Logic.Function.Iterate

/-!
# Canonical names in the emitted text

The function that gives the name of an opcode has an arm for each case, and in it the canonical name
as a string literal. Whatever characters a name has, its literal ends at its closing quote and denotes
the name, so that different names have different literals.
-/

namespace Bytecode.Emit

def nameLiteral (name : String) : String := "\"" ++ Text.escaped name ++ "\""

theorem literal?_nameLiteral (name : String) (rest : List Char) :
    Rust.literal? ((nameLiteral name).toList ++ rest) = some (name, rest) := by
  have htext : (nameLiteral name).toList ++ rest =
      '"' :: ((Text.escaped name).toList ++ '"' :: rest) := by
    simp [nameLiteral]
  rw [htext]
  exact Rust.literal?_escaped name rest

theorem nameLiteral_injective : Function.Injective nameLiteral := by
  intro name other h
  have hname := literal?_nameLiteral name []
  rw [h, literal?_nameLiteral] at hname
  exact (congrArg Prod.fst (Option.some.inj hname)).symm

/-! ### The arms of the names -/

theorem isInfix_indent {lines more : Lines} (h : lines <:+: more) : indent lines <:+: indent more :=
  h.map _

theorem isInfix_block (opening : String) (body : Lines) : indent body <:+: block opening body :=
  ⟨[opening ++ " \x7b"], ["\x7d"], rfl⟩

theorem isInfix_function (signature : String) (body : Lines) :
    indent body <:+: function signature body :=
  (isInfix_block signature body).trans (List.suffix_cons _ _).isInfix

/-- The arms of the names stand in the step in the order of the cases, within three blocks. -/
theorem isInfix_displayNames (m : GeneratedModel) (set : SetModel) :
    indent^[3] (set.model.cases.map nameArm) <:+: displayNames m set := by
  have harms := isInfix_block "match self" (set.model.cases.map nameArm)
  have hname := (isInfix_indent harms).trans
    (isInfix_function "pub const fn name(self) -> &'static str" _)
  have hopcodes := (isInfix_indent hname).trans (isInfix_block s!"impl {set.opcodeEnum}" _)
  unfold displayNames
  simp only [List.append_assoc]
  exact hopcodes.trans (List.prefix_append _ _).isInfix

/-- The step for the names of a set has an arm for each case in their order, with the canonical name
in a literal. A literal is read up to its closing quote and no further, and denotes the name it was
written for. -/
theorem displayNames_literals (m : GeneratedModel) (set : SetModel) :
    indent^[3] (set.model.cases.map fun c =>
        "Self::" ++ c.name ++ " => " ++ nameLiteral c.canonicalName ++ ",") <:+: displayNames m set ∧
      (∀ (name : String) (rest : List Char),
        Rust.literal? ((nameLiteral name).toList ++ rest) = some (name, rest)) ∧
      Function.Injective nameLiteral :=
  ⟨isInfix_displayNames m set, literal?_nameLiteral, nameLiteral_injective⟩

end Bytecode.Emit
