import Bytecode.Proofs.Instruction.Cases
import Bytecode.Proofs.Operand.Encoding

/-!
# Decoding and encoding instructions

In a built model an instruction and its opcode with the raw operand determine each other. What is
not decoded has an opcode that no definition has, or an operand outside the domain of its type.
-/

namespace Bytecode

namespace InstructionModel

variable {model : InstructionModel} {registry : Registry} {opcode raw : UInt32} {c : Case}
  {operand : Operand} {instruction : Instruction} {e : DecodeError}

theorem opcode_of_ofOpcode? (hc : model.ofOpcode? opcode = some c) : c.opcode = opcode := by
  simpa using List.find?_some hc

/-! ### One case -/

theorem decode_of_none (hc : model.ofOpcode? opcode = none) :
    model.decode registry opcode raw = .error (.invalidBytecode model.kind opcode) := by
  simp [decode, ofOpcode, hc]

theorem decode_of_no_operand (hc : model.ofOpcode? opcode = some c) (hoperand : c.operand = none) :
    model.decode registry opcode raw = .ok ⟨opcode, none⟩ := by
  simp [decode, ofOpcode, hc, Case.operandType?, hoperand]

theorem decode_of_operand (hc : model.ofOpcode? opcode = some c)
    (hoperand : c.operand = some operand) :
    model.decode registry opcode raw =
      (registry.decode operand.type raw >>= fun value => .ok ⟨opcode, some value⟩) := by
  simp [decode, ofOpcode, hc, Case.operandType?, hoperand]

theorem decode_eq_ok_iff (hc : model.ofOpcode? opcode = some c) :
    model.decode registry opcode raw = .ok instruction ↔
      (c.operand = none ∧ instruction = ⟨opcode, none⟩) ∨
        ∃ operand value, c.operand = some operand ∧ instruction = ⟨opcode, some value⟩ ∧
          registry.decode operand.type raw = .ok value := by
  cases hoperand : c.operand with
  | none => simp [decode_of_no_operand hc hoperand, @eq_comm _ instruction]
  | some operand =>
      rw [decode_of_operand hc hoperand, bind_eq_ok_iff]
      simp [and_comm, @eq_comm _ instruction]

theorem encode_eq_ok_iff (hc : model.ofOpcode? opcode = some c)
    (hopcode : instruction.opcode = opcode) {encoded : UInt32 × UInt32} :
    model.encode registry instruction = .ok encoded ↔
      (c.operand = none ∧ instruction = ⟨opcode, none⟩ ∧ encoded = (opcode, 0)) ∨
        ∃ operand value raw, c.operand = some operand ∧ instruction = ⟨opcode, some value⟩ ∧
          encoded = (opcode, raw) ∧ registry.encode operand.type value = .ok raw := by
  obtain ⟨_, arg⟩ := instruction
  obtain rfl : _ = opcode := hopcode
  have hcase := opcode_of_ofOpcode? hc
  cases hoperand : c.operand with
  | none => cases arg <;> simp [encode, ofOpcode, hc, Case.operandType?, hoperand, hcase, eq_comm]
  | some operand =>
      cases arg with
      | none => simp [encode, ofOpcode, hc, Case.operandType?, hoperand]
      | some value =>
          simp [encode, ofOpcode, hc, Case.operandType?, hoperand, hcase, bind_eq_ok_iff, and_comm,
            @eq_comm _ encoded]

/-! ### All cases -/

/-- The registry holds the types of all operands, and in none of its types two variants share an
encoding. -/
structure Codable (registry : Registry) (model : InstructionModel) : Prop where
  unambiguous : ∀ type ∈ registry.types, type.Unambiguous
  operands : ∀ c ∈ model.cases, ∀ operand, c.operand = some operand → operand.TypeIn registry

theorem Codable.typeIn (h : model.Codable registry) (hc : model.ofOpcode? opcode = some c)
    (hoperand : c.operand = some operand) :
    ∃ type, registry.get? operand.type = some type :=
  h.operands c (List.mem_of_find?_eq_some hc) operand hoperand

/-- What is decoded is encoded again, without the raw value that a case without operand ignores. -/
theorem Codable.encode_of_decode (h : model.Codable registry)
    (hdecode : model.decode registry opcode raw = .ok instruction) :
    ∃ c, model.ofOpcode? opcode = some c ∧
      model.encode registry instruction = .ok (opcode, if c.operand.isSome then raw else 0) := by
  cases hc : model.ofOpcode? opcode with
  | none =>
      rw [decode_of_none hc] at hdecode
      cases hdecode
  | some c =>
      refine ⟨c, rfl, ?_⟩
      obtain ⟨hoperand, rfl⟩ | ⟨operand, value, hoperand, rfl, hvalue⟩ :=
        (decode_eq_ok_iff hc).1 hdecode
      · rw [encode_eq_ok_iff hc rfl]
        exact .inl ⟨hoperand, rfl, by simp [hoperand]⟩
      · obtain ⟨type, htype⟩ := h.typeIn hc hoperand
        have hraw := (Registry.decode_eq_ok_iff_encode h.unambiguous htype).1 hvalue
        rw [encode_eq_ok_iff hc rfl]
        exact .inr ⟨operand, value, raw, hoperand, rfl, by simp [hoperand], hraw⟩

theorem Codable.decode_of_encode (h : model.Codable registry)
    (hencode : model.encode registry instruction = .ok (opcode, raw)) :
    model.decode registry opcode raw = .ok instruction := by
  cases hc : model.ofOpcode? instruction.opcode with
  | none => simp [encode, ofOpcode, hc] at hencode
  | some c =>
      obtain ⟨hoperand, hinstruction, hencoded⟩ |
          ⟨operand, value, encoding, hoperand, hinstruction, hencoded, hraw⟩ :=
        (encode_eq_ok_iff hc rfl).1 hencode
      · obtain ⟨rfl, -⟩ : opcode = instruction.opcode ∧ raw = 0 := by simpa using hencoded
        exact (decode_eq_ok_iff hc).2 (.inl ⟨hoperand, hinstruction⟩)
      · obtain ⟨rfl, rfl⟩ : opcode = instruction.opcode ∧ raw = encoding := by simpa using hencoded
        obtain ⟨type, htype⟩ := h.typeIn hc hoperand
        have hvalue := (Registry.decode_eq_ok_iff_encode h.unambiguous htype).2 hraw
        exact (decode_eq_ok_iff hc).2 (.inr ⟨operand, value, hoperand, hinstruction, hvalue⟩)

/-- Decoding fails for an opcode without a case, and for an operand outside the domain of its
type. -/
theorem Codable.decode_eq_error_iff (h : model.Codable registry) :
    model.decode registry opcode raw = .error e ↔
      (e = .invalidBytecode model.kind opcode ∧ model.ofOpcode? opcode = none) ∨
        ∃ c operand type, e = .invalidOperand operand.type raw ∧
          model.ofOpcode? opcode = some c ∧ c.operand = some operand ∧
          registry.get? operand.type = some type ∧ ¬ type.Holds raw := by
  cases hc : model.ofOpcode? opcode with
  | none => simp [decode_of_none hc, eq_comm]
  | some c =>
      cases hoperand : c.operand with
      | none => simp [decode_of_no_operand hc hoperand, hoperand]
      | some operand =>
          obtain ⟨type, htype⟩ := h.typeIn hc hoperand
          have herror : model.decode registry opcode raw = .error e ↔
              registry.decode operand.type raw = .error e := by
            rw [decode_of_operand hc hoperand]
            cases registry.decode operand.type raw <;> simp
          rw [herror, Registry.decode_eq_error_iff htype]
          simp [hoperand, htype]

end InstructionModel

namespace GeneratedModel

variable {table : Table} {source : PropertySource} {m : GeneratedModel}

theorem codable_of_build (h : table.build source = .ok m) (kind : SetKind) :
    (m.set kind).model.Codable m.registry where
  unambiguous := Registry.unambiguous_of_build (Table.build_eq_ok h).1
  operands := by
    intro c hc operand hoperand
    have hresolves := InstructionModel.resolves_build (Table.model_of_build h kind)
    obtain ⟨d, -, hcase⟩ := exists_of_forall₂ hresolves hc
    exact hcase.operand operand hoperand

/-- In every built model decoding and encoding are inverse, and decoding fails only for an opcode
without a definition and for a raw value outside the domain of the operand. -/
theorem decode_encode (h : table.build source = .ok m) (kind : SetKind) (opcode raw : UInt32)
    (instruction : Instruction) :
    (m.decode kind opcode raw = .ok instruction →
      ∃ c, (m.set kind).model.ofOpcode? opcode = some c ∧
        m.encode kind instruction = .ok (opcode, if c.operand.isSome then raw else 0)) ∧
    (m.encode kind instruction = .ok (opcode, raw) →
      m.decode kind opcode raw = .ok instruction) ∧
    (m.decode kind opcode raw = .error (.invalidBytecode kind opcode) ↔
      ∀ d ∈ (m.set kind).definitions.definitions, d.opcode ≠ opcode) ∧
    (∀ oparg, m.decode kind opcode raw = .error (.invalidOperand oparg raw) ↔
      ∃ c type, (m.set kind).model.ofOpcode? opcode = some c ∧ c.operandType? = some oparg ∧
        m.registry.get? oparg = some type ∧ ¬ type.Holds raw) ∧
    ∀ e, m.decode kind opcode raw = .error e →
      e = .invalidBytecode kind opcode ∨ ∃ oparg, e = .invalidOperand oparg raw := by
  have hcodable := codable_of_build h kind
  have hkind : (m.set kind).model.kind = kind := Table.kind_of_build h kind
  refine ⟨hcodable.encode_of_decode, hcodable.decode_of_encode, ?_, fun oparg => ?_, fun e he => ?_⟩
  · have hresolves := InstructionModel.resolves_build (Table.model_of_build h kind)
    rw [← InstructionModel.ofOpcode?_eq_none_iff hresolves]
    exact hcodable.decode_eq_error_iff.trans (by simp [hkind])
  · refine hcodable.decode_eq_error_iff.trans ?_
    simp only [reduceCtorEq, false_and, false_or, DecodeError.invalidOperand.injEq, and_true,
      Case.operandType?, Option.map_eq_some_iff]
    constructor
    · rintro ⟨c, operand, type, rfl, hc, hoperand, htype, hnot⟩
      exact ⟨c, type, hc, ⟨operand, hoperand, rfl⟩, htype, hnot⟩
    · rintro ⟨c, type, hc, ⟨operand, hoperand, rfl⟩, htype, hnot⟩
      exact ⟨c, operand, type, rfl, hc, hoperand, htype, hnot⟩
  · obtain ⟨rfl, -⟩ | ⟨_, operand, _, rfl, -⟩ := hcodable.decode_eq_error_iff.1 he
    · exact .inl (by rw [hkind])
    · exact .inr ⟨operand.type, rfl⟩

def arithmetic : Table where
  opargs := .ofList [("Operator", .named { variants := [{ name := "Add" }, { name := "Sub" }] })]
  instructions := .ofList [
    ("Binary", {
      opcode := 10
      canonicalName := "BINARY"
      operand := some { type := some "Operator" } }),
    ("Nop", { opcode := 9, canonicalName := "NOP" })]

theorem decode_encode_arithmetic :
    ∃ m, arithmetic.build (fun _ => some { stack := some {} }) = .ok m ∧
      m.decode .real 10 1 = .ok ⟨10, some (.variant 1 1)⟩ ∧
      ∃ type, m.registry.get? "Operator" = some type ∧ ¬ type.Holds 2 := by
  have hrun : (arithmetic.build fun _ => some { stack := some {} }).toOption.map (fun m =>
      (m.encode .real ⟨10, some (.variant 1 1)⟩, m.decode .real 10 2)) =
      some (.ok (10, 1), .error (.invalidOperand "Operator" 2)) := by cbv
  cases hbuild : arithmetic.build fun _ => some { stack := some {} } with
  | error e => simp [hbuild, Except.toOption] at hrun
  | ok m =>
      obtain ⟨hencode, hfails⟩ : m.encode .real ⟨10, some (.variant 1 1)⟩ = .ok (10, 1) ∧
          m.decode .real 10 2 = .error (.invalidOperand "Operator" 2) := by
        simpa [hbuild, Except.toOption] using hrun
      have hdecode := (decode_encode hbuild .real 10 1 _).2.1 hencode
      obtain ⟨_, type, -, -, htype, hnot⟩ :=
        ((decode_encode hbuild .real 10 2 ⟨10, none⟩).2.2.2.1 "Operator").1 hfails
      exact ⟨m, rfl, hdecode, type, htype, hnot⟩

end GeneratedModel

end Bytecode
