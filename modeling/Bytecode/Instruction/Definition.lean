import Bytecode.Error
import Bytecode.Properties
import Bytecode.Width

/-!
# Instruction definitions

A validated instruction, and the set of all instructions of one kind in increasing order of their
opcodes.
-/

namespace Bytecode

/-- An operand as the table declares it. -/
structure OperandReference where
  field : Option String := none
  type : String
  deriving DecidableEq, Repr

/-- The slot counts that the table gives instead of the stack layout. -/
structure StackOverride where
  popped : Expr
  pushed : Expr
  deriving DecidableEq, Repr

structure Definition where
  name : String
  canonicalName : String
  opcode : UInt32
  flags : Flags := {}
  operand : Option OperandReference := none
  stackOverride : Option StackOverride := none
  /-- The name of the instruction that this one specializes. -/
  family : Option String := none
  placeholder : Bool := false
  layout : Option StackLayout := none
  doc : Option String := none
  deriving DecidableEq, Repr

structure InstructionSet where
  kind : SetKind
  /-- The width in which the opcodes are represented. -/
  width : Width
  definitions : List Definition
  increasing : definitions.Pairwise fun a b => a.opcode < b.opcode

namespace InstructionSet

/-- The first definition, after those in `earlier`, whose opcode is taken, behind the one that has
it. -/
def collision? : List Definition → List Definition → Option (Definition × Definition)
  | _, [] => none
  | earlier, d :: rest =>
      match earlier.find? fun other => other.opcode = d.opcode with
      | some other => some (other, d)
      | none => collision? (earlier ++ [d]) rest

theorem pairwise_of_collision?_eq_none {earlier rest : List Definition}
    (h : collision? earlier rest = none)
    (he : earlier.Pairwise fun a b => a.opcode ≠ b.opcode) :
    (earlier ++ rest).Pairwise fun a b => a.opcode ≠ b.opcode := by
  induction rest generalizing earlier with
  | nil => simpa using he
  | cons d rest ih =>
      unfold collision? at h
      split at h
      · contradiction
      · next hd =>
          have hnew : (earlier ++ [d]).Pairwise fun a b => a.opcode ≠ b.opcode := by
            refine List.pairwise_append.2 ⟨he, List.pairwise_singleton _ _, ?_⟩
            intro a ha b hb
            rw [List.mem_singleton.1 hb]
            simpa using List.find?_eq_none.1 hd a ha
          simpa using ih h hnew

def sortByOpcode (definitions : List Definition) : List Definition :=
  definitions.mergeSort fun a b => a.opcode ≤ b.opcode

theorem increasing_sortByOpcode {definitions : List Definition}
    (h : definitions.Pairwise fun a b => a.opcode ≠ b.opcode) :
    (sortByOpcode definitions).Pairwise fun a b => a.opcode < b.opcode := by
  have hle : (sortByOpcode definitions).Pairwise fun a b => a.opcode ≤ b.opcode := by
    refine (List.pairwise_mergeSort ?_ ?_ definitions).imp ?_
    · intro a b c hab hbc
      exact decide_eq_true (UInt32.le_trans (of_decide_eq_true hab) (of_decide_eq_true hbc))
    · intro a b
      simpa using UInt32.le_total a.opcode b.opcode
    · intro a b hab
      exact of_decide_eq_true hab
  have hne : (sortByOpcode definitions).Pairwise fun a b => a.opcode ≠ b.opcode :=
    ((List.mergeSort_perm definitions _).pairwise_iff fun h => Ne.symm h).2 h
  exact (hle.and hne).imp fun hab => UInt32.lt_of_le_of_ne hab.1 hab.2

def ofDefinitions (kind : SetKind) (width : Width) (definitions : List Definition) :
    Except BuildError InstructionSet :=
  match h : collision? [] definitions with
  | some (first, second) =>
      .error (.duplicateOpcode kind second.opcode first.name second.name)
  | none =>
      .ok {
        kind, width
        definitions := sortByOpcode definitions
        increasing := increasing_sortByOpcode (by
          simpa using pairwise_of_collision?_eq_none h List.Pairwise.nil) }

/-- The definition of a name; of several with one name, the one with the highest opcode. -/
def get? (set : InstructionSet) (name : String) : Option Definition :=
  set.definitions.reverse.find? fun d => d.name = name

def ofOpcode? (set : InstructionSet) (opcode : UInt32) : Option Definition :=
  set.definitions.find? fun d => d.opcode = opcode

def size (set : InstructionSet) : Nat := set.definitions.length

def isEmpty (set : InstructionSet) : Bool := set.definitions.isEmpty

/-- The definition that ends the families from `d` on: one without a family. There is none where a
family is not in the set, or where the families come back to an instruction. -/
def familyRoot? (set : InstructionSet) (d : Definition) : Option Definition := do
  climb set.definitions.length [d.opcode] (← set.get? (← d.family))
where
  /-- Every step leads to another instruction of the set, so the size of the set bounds them. -/
  climb : Nat → List UInt32 → Definition → Option Definition
    | 0, _, _ => none
    | steps + 1, visited, current =>
        if current.opcode ∈ visited then none
        else
          match current.family with
          | none => some current
          | some family => do climb steps (current.opcode :: visited) (← set.get? family)

end InstructionSet

end Bytecode
