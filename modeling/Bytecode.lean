import Bytecode.Main
import Bytecode.Proofs.Checking
import Bytecode.Proofs.Document.RoundTrip
import Bytecode.Proofs.Emit.Tables
import Bytecode.Proofs.Emit.Documentation
import Bytecode.Proofs.Emit.Names
import Bytecode.Proofs.Expr.NormalForm
import Bytecode.Proofs.Expr.Printing
import Bytecode.Proofs.Expr.Rendering
import Bytecode.Proofs.Expr.Running
import Bytecode.Proofs.Instruction.Deoptimization
import Bytecode.Proofs.Instruction.Walks
import Bytecode.Proofs.Operand.Derivation
import Bytecode.Proofs.Rust.Evaluation
import Bytecode.Proofs.StackEffect.Counting
import Bytecode.Proofs.Instruction.FamilyErrors
import Bytecode.Proofs.Instruction.Inheritance
import Bytecode.Proofs.Instruction.Loading
import Bytecode.Proofs.Instruction.Operands
import Bytecode.Proofs.Expr.Exactness
import Bytecode.Proofs.Expr.Refusal
import Bytecode.Proofs.Summary
