import Bytecode.Proofs.Failing
import Bytecode.Properties.Document
import Bytecode.Table.Document
import Mathlib.Data.List.Induction

/-!
# Documents that are written and read back

What is written for a table or for property records is read back as the same table and the same
records. The two directions agree field by field: each view takes what the writer of its field
gives, and a field that is left out has its default.
-/

namespace Bytecode

namespace NameMap

variable {α : Type}

theorem insertEntry_of_forall_lt {name : String} {value : α} {entries : List (String × α)}
    (h : ∀ entry ∈ entries, entry.1 < name) :
    insertEntry name value entries = entries ++ [(name, value)] := by
  induction entries with
  | nil => rfl
  | cons head rest ih =>
      have hhead : head.1 < name := h head List.mem_cons_self
      have hrest := ih fun entry he => h entry (List.mem_cons_of_mem _ he)
      have hlt : ¬ name < head.1 := String.lt_asymm hhead
      have hne : name ≠ head.1 := (String.ne_of_lt hhead).symm
      rw [insertEntry, if_neg hlt, if_neg hne, hrest, List.cons_append]

theorem entries_ofList {entries : List (String × α)}
    (h : entries.Pairwise fun a b => a.1 < b.1) : (ofList entries).entries = entries := by
  induction entries using List.reverseRecOn with
  | nil => rfl
  | append_singleton entries entry ih =>
      obtain ⟨hentries, -, hlast⟩ := List.pairwise_append.1 h
      have hinsert : (ofList (entries ++ [entry])).entries =
          insertEntry entry.1 entry.2 (ofList entries).entries := by
        simp [ofList, insert]
      rw [hinsert, ih hentries]
      exact insertEntry_of_forall_lt fun other hother => hlast other hother entry (by simp)

/-- A map is the map of its entries. -/
theorem ofList_entries (map : NameMap α) : ofList map.entries = map := by
  have hentries : (ofList map.entries).entries = map.entries := entries_ofList map.sorted
  cases map with
  | mk entries sorted =>
      cases hlist : ofList entries with
      | mk other _ =>
          simp only [hlist] at hentries
          subst hentries
          rfl

end NameMap

namespace Value

variable {α β : Type} {item : α → Value} {view : Value → Option α} {names : List String}
  {fields : List (String × Value)} {name : String}

/-! ### Views of what is written -/

theorem asBool?_bool (value : Bool) : asBool? (bool value) = some value := rfl

theorem asString?_string (value : String) : asString? (string value) = some value := rfl

theorem asWord?_ofWord (value : UInt32) : asWord? (ofWord value) = some value := by
  have h : value.toNat < UInt32.size := value.toNat_lt
  have hlt : (value.toNat : Int) < UInt32.size := by exact_mod_cast h
  rw [ofWord, asWord?, if_pos ⟨Int.natCast_nonneg _, hlt⟩, Int.toNat_natCast, UInt32.ofNat_toNat]

theorem mapM_map_eq_some {f : β → Option α} {g : α → β} (h : ∀ a, f (g a) = some a)
    (items : List α) : (items.map g).mapM f = some items := by
  rw [mapM_map_eq_some_map fun a _ => h a, List.map_id']

theorem asList?_map (hview : ∀ a, view (item a) = some a) (items : List α) :
    asList? view (array (items.map item)) = some items :=
  mapM_map_eq_some hview items

theorem asMap?_ofMap (hview : ∀ a, view (item a) = some a) (map : NameMap α) :
    asMap? view (ofMap item map) = some map := by
  have hentries : (map.entries.map fun entry => (entry.1, item entry.2)).mapM
      (fun field => do return (field.1, ← view field.2)) = some map.entries :=
    mapM_map_eq_some (fun entry => by simp [hview]) map.entries
  rw [ofMap, asMap?, hentries]
  exact congrArg some map.ofList_entries

theorem asOption?_of_ne_null {value : Value} (h : value ≠ null) :
    asOption? view value = some <$> view value := by
  cases value <;> first | contradiction | rfl

/-- Nothing is written as null, which no other value is. -/
theorem asOption?_ofOption (hview : ∀ a, view (item a) = some a) (hnull : ∀ a, item a ≠ null)
    (value : Option α) : asOption? view (ofOption item value) = some value := by
  cases value with
  | none => rfl
  | some a =>
      rw [ofOption, asOption?_of_ne_null (hnull a), hview]
      rfl

theorem asOption?_ofOption_string (value : Option String) :
    asOption? asString? (ofOption string value) = some value :=
  asOption?_ofOption asString?_string (fun _ h => nomatch h) value

/-! ### Records -/

/-- One field after another. -/
theorem bind_eq_some {x : Option α} {f : α → Option β} {a : α} {b : β} (h : x = some a)
    (hf : f a = some b) : (x >>= f) = some b := by
  rw [h]
  exact hf

/-- Fields of other names are passed over. -/
theorem asRecord?_table (h : ∀ field ∈ fields, field.1 ∈ names ∨ field.2.isReadable = true) :
    asRecord? names (table fields) = some fields := by
  have hall : fields.all (fun field => names.contains field.1 || field.2.isReadable) = true := by
    refine List.all_eq_true.2 fun field hfield => ?_
    rw [Bool.or_eq_true, List.contains_iff_mem]
    exact h field hfield
  rw [asRecord?, if_pos hall]

theorem asRecord?_table_of_subset (h : fields.map Prod.fst ⊆ names) :
    asRecord? names (table fields) = some fields :=
  asRecord?_table fun _ hfield => .inl (h (List.mem_map_of_mem hfield))

theorem required_eq_some {value : Value} {a : α} (hfield : fields.lookup name = some value)
    (hview : view value = some a) : required fields name view = some a :=
  bind_eq_some hfield hview

/-! ### Fields that are left out when there is nothing to write -/

theorem lookup_fieldIfSome (name : String) (item : α → Value) (value : Option α) :
    (fieldIfSome name item value).lookup name = value.map item := by
  cases value with
  | none => rfl
  | some a => simp [fieldIfSome]

theorem lookup_fieldIfSome_of_ne {other : String} (h : name ≠ other) (item : α → Value)
    (value : Option α) : (fieldIfSome other item value).lookup name = none := by
  cases value with
  | none => rfl
  | some a => rw [fieldIfSome, List.lookup_cons, beq_eq_false_iff_ne.2 h, List.lookup_nil]

theorem map_fst_fieldIfSome (name : String) (item : α → Value) (value : Option α) :
    (fieldIfSome name item value).map Prod.fst = if value.isSome then [name] else [] := by
  cases value <;> rfl

theorem optional_eq_some (hview : ∀ a, view (item a) = some a) (hnull : ∀ a, item a ≠ null)
    {value : Option α} (hfield : fields.lookup name = value.map item) :
    optional fields name view = some value := by
  rw [optional, withDefault, hfield]
  cases value with
  | none => rfl
  | some a => exact asOption?_ofOption hview hnull (some a)

/-! ### Values that are taken up -/

/-- A value that taking it up leaves as it is. -/
def Plain (v : Value) : Prop := v.takeUp? = some v

theorem plain_null : Plain null := rfl

theorem plain_string (value : String) : Plain (string value) := rfl

theorem plain_ofWord (value : UInt32) : Plain (ofWord value) := by
  rw [Plain, ofWord, takeUp?, if_pos (isWide_toNat value)]

theorem plain_ofOption (h : ∀ a, Plain (item a)) (value : Option α) :
    Plain (ofOption item value) := by
  cases value with
  | none => exact plain_null
  | some a => exact h a

theorem takeUpItems?_of_plain {items : List Value} (h : ∀ v ∈ items, v.Plain) :
    takeUpItems? items = some items := by
  induction items with
  | nil => rfl
  | cons v items ih =>
      obtain ⟨hv, hitems⟩ := List.forall_mem_cons.1 h
      rw [takeUpItems?, hv, ih hitems]
      rfl

theorem plain_array (h : ∀ a, Plain (item a)) (items : List α) :
    Plain (array (items.map item)) := by
  have hitems : ∀ v ∈ items.map item, v.Plain := by simpa using fun a _ => h a
  rw [Plain, takeUp?, takeUpItems?_of_plain hitems]
  rfl

theorem takeUpFields?_of_plain (h : ∀ field ∈ fields, field.2.Plain) :
    takeUpFields? fields = some fields := by
  induction fields with
  | nil => rfl
  | cons field fields ih =>
      obtain ⟨hfield, hfields⟩ := List.forall_mem_cons.1 h
      rw [takeUpFields?, hfield, ih hfields]
      rfl

theorem plain_table (h : ∀ field ∈ fields, field.2.Plain) : Plain (table fields) := by
  rw [Plain, takeUp?, takeUpFields?_of_plain h]
  rfl

/-- A tag in front of the fields of a record is found, and the record with it. -/
theorem asTagged?_table {tag word : String} (h : ∀ field ∈ fields, field.2.Plain) :
    asTagged? tag (table ((tag, string word) :: fields)) =
      some (word, table ((tag, string word) :: fields)) := by
  have hplain : Plain (table ((tag, string word) :: fields)) :=
    plain_table (List.forall_mem_cons.2 ⟨plain_string word, h⟩)
  have hlookup : ((tag, string word) :: fields).lookup tag = some (string word) := by simp
  refine bind_eq_some hplain (bind_eq_some hlookup ?_)
  rfl

end Value

open Value

/-! ### Tables -/

theorem DefaultOpargs.ofValue?_toValue (d : DefaultOpargs) : ofValue? d.toValue = some d := by
  refine bind_eq_some (asRecord?_table (by simp)) ?_
  refine bind_eq_some (asString?_string d.jump) ?_
  refine bind_eq_some (asString?_string d.constant) ?_
  refine bind_eq_some (asString?_string d.name) ?_
  refine bind_eq_some (asString?_string d.raw) ?_
  rfl

theorem Config.ofValue?_toValue (c : Config) : ofValue? c.toValue = some c := by
  refine bind_eq_some (asRecord?_table (by simp)) ?_
  refine bind_eq_some (asWord?_ofWord c.realLimit) ?_
  refine bind_eq_some (asWord?_ofWord c.pseudoLimit) ?_
  refine bind_eq_some (asString?_string c.realOpcodeEnum) ?_
  refine bind_eq_some (asString?_string c.realInstructionEnum) ?_
  refine bind_eq_some (asString?_string c.pseudoOpcodeEnum) ?_
  refine bind_eq_some (asString?_string c.pseudoInstructionEnum) ?_
  refine bind_eq_some (asString?_string c.errorType) ?_
  refine bind_eq_some (asString?_string c.header) ?_
  refine bind_eq_some (DefaultOpargs.ofValue?_toValue c.defaultOpargs) ?_
  rfl

theorem Width.asWordOf?_name (width : Width) :
    asWordOf? words (string width.name) = some width := by
  cases width <;> rfl

theorem Numbering.asWordOf?_name (numbering : Numbering) :
    asWordOf? words (string numbering.name) = some numbering := by
  cases numbering <;> rfl

theorem AliasSpec.ofValue?_tagged (spec : AliasSpec) :
    ofValue? (table (("kind", string "alias") :: spec.fields)) = some spec := by
  refine bind_eq_some (asRecord?_table (by simp [fields, isReadable])) ?_
  refine bind_eq_some (Width.asWordOf?_name spec.width) ?_
  refine bind_eq_some (asOption?_ofOption_string spec.doc) ?_
  rfl

theorem VariantSpec.ofValue?_toValue (spec : VariantSpec) : ofValue? spec.toValue = some spec := by
  refine bind_eq_some (asRecord?_table (by simp)) ?_
  refine bind_eq_some (asString?_string spec.name) ?_
  refine bind_eq_some (asOption?_ofOption asWord?_ofWord (fun _ h => nomatch h) spec.value) ?_
  refine bind_eq_some (asList?_map asString?_string spec.combine) ?_
  refine bind_eq_some (asOption?_ofOption_string spec.doc) ?_
  rfl

theorem VariantSpec.plain_toValue (spec : VariantSpec) : Plain spec.toValue :=
  plain_table (by simp [plain_string, plain_ofOption, plain_ofWord, plain_array, ofStrings])

theorem DerivationSpec.ofValue?_toValue (spec : DerivationSpec) :
    ofValue? spec.toValue = some spec := by
  refine bind_eq_some (asRecord?_table (by simp)) ?_
  refine bind_eq_some (required_eq_some rfl (asString?_string spec.base)) ?_
  refine bind_eq_some (required_eq_some rfl (asWord?_ofWord spec.shiftLeft)) ?_
  rfl

theorem DerivationSpec.plain_toValue (spec : DerivationSpec) : Plain spec.toValue :=
  plain_table (by simp [plain_string, plain_ofWord])

theorem NamedSpec.ofValue?_tagged (spec : NamedSpec) :
    ofValue? (table (("kind", string "named") :: spec.fields)) = some spec := by
  refine bind_eq_some (asRecord?_table (by simp [fields, isReadable])) ?_
  refine bind_eq_some (asOption?_ofOption_string spec.doc) ?_
  refine bind_eq_some (Numbering.asWordOf?_name spec.numbering) ?_
  refine bind_eq_some (asList?_map VariantSpec.ofValue?_toValue spec.variants) ?_
  refine bind_eq_some (asOption?_ofOption DerivationSpec.ofValue?_toValue (fun _ h => nomatch h)
    spec.derivation) ?_
  rfl

/-- A specification is taken up before its kind is known, and then read as one of that kind. -/
theorem OpargSpec.ofValue?_toValue (spec : OpargSpec) : ofValue? spec.toValue = some spec := by
  cases spec with
  | aliased spec =>
      have hplain : ∀ field ∈ spec.fields, field.2.Plain := by
        simp [AliasSpec.fields, plain_string, plain_ofOption]
      refine bind_eq_some (asTagged?_table hplain) ?_
      exact bind_eq_some spec.ofValue?_tagged rfl
  | named spec =>
      have hplain : ∀ field ∈ spec.fields, field.2.Plain := by
        simp [NamedSpec.fields, plain_string, plain_ofOption, plain_array,
          VariantSpec.plain_toValue, DerivationSpec.plain_toValue]
      refine bind_eq_some (asTagged?_table hplain) ?_
      exact bind_eq_some spec.ofValue?_tagged rfl

theorem OperandSpec.ofValue?_toValue (spec : OperandSpec) : ofValue? spec.toValue = some spec := by
  refine bind_eq_some (asRecord?_table (by simp)) ?_
  refine bind_eq_some (asOption?_ofOption_string spec.field) ?_
  refine bind_eq_some (asOption?_ofOption_string spec.type) ?_
  rfl

theorem StackEffectSpec.ofValue?_toValue (spec : StackEffectSpec) :
    ofValue? spec.toValue = some spec := by
  refine bind_eq_some (asRecord?_table (by simp)) ?_
  refine bind_eq_some (required_eq_some rfl (asString?_string spec.popped)) ?_
  refine bind_eq_some (required_eq_some rfl (asString?_string spec.pushed)) ?_
  rfl

theorem InstructionSpec.ofValue?_toValue (spec : InstructionSpec) :
    ofValue? spec.toValue = some spec := by
  refine bind_eq_some (asRecord?_table (by simp)) ?_
  refine bind_eq_some (required_eq_some rfl (asWord?_ofWord spec.opcode)) ?_
  refine bind_eq_some (required_eq_some rfl (asString?_string spec.canonicalName)) ?_
  refine bind_eq_some (asOption?_ofOption OperandSpec.ofValue?_toValue (fun _ h => nomatch h)
    spec.operand) ?_
  refine bind_eq_some (asOption?_ofOption StackEffectSpec.ofValue?_toValue (fun _ h => nomatch h)
    spec.stackEffect) ?_
  refine bind_eq_some (asBool?_bool spec.placeholder) ?_
  refine bind_eq_some (asOption?_ofOption_string spec.family) ?_
  refine bind_eq_some (asOption?_ofOption_string spec.doc) ?_
  rfl

theorem Table.ofValue?_toValue (t : Table) : ofValue? t.toValue = some t := by
  refine bind_eq_some (asRecord?_table (by simp)) ?_
  refine bind_eq_some (Config.ofValue?_toValue t.config) ?_
  refine bind_eq_some (asMap?_ofMap OpargSpec.ofValue?_toValue t.opargs) ?_
  refine bind_eq_some (asMap?_ofMap InstructionSpec.ofValue?_toValue t.instructions) ?_
  rfl

/-! ### Properties -/

theorem StackVariable.ofValue?_toValue (x : StackVariable) : ofValue? x.toValue = some x := by
  refine bind_eq_some (asRecord?_table_of_subset ?_) ?_
  · rw [List.map_append, map_fst_fieldIfSome]
    split <;> simp
  refine bind_eq_some (required_eq_some rfl (asString?_string x.name)) ?_
  refine bind_eq_some (asString?_string x.size) ?_
  refine bind_eq_some (a := x.condition) ?_ rfl
  refine optional_eq_some asString?_string (fun _ h => nomatch h) ?_
  exact lookup_fieldIfSome "condition" string x.condition

theorem StackLayout.ofValue?_toValue (x : StackLayout) : ofValue? x.toValue = some x := by
  refine bind_eq_some (asRecord?_table (by simp)) ?_
  refine bind_eq_some (asList?_map StackVariable.ofValue?_toValue x.inputs) ?_
  refine bind_eq_some (asList?_map StackVariable.ofValue?_toValue x.outputs) ?_
  rfl

theorem Properties.ofValue?_toValue (p : Properties) : ofValue? p.toValue = some p := by
  refine bind_eq_some (asRecord?_table_of_subset ?_) ?_
  · rw [List.map_append, List.map_append, map_fst_fieldIfSome, map_fst_fieldIfSome]
    split <;> split <;> simp
  refine bind_eq_some (asBool?_bool p.flags.hasOparg) ?_
  refine bind_eq_some (asBool?_bool p.flags.jumps) ?_
  refine bind_eq_some (asBool?_bool p.flags.readsConstants) ?_
  refine bind_eq_some (asBool?_bool p.flags.readsNames) ?_
  refine bind_eq_some (asBool?_bool p.flags.readsLocals) ?_
  refine bind_eq_some (asBool?_bool p.flags.hasFree) ?_
  refine bind_eq_some (asBool?_bool p.flags.isPure) ?_
  -- Both may be left out, so that each is looked for among the fields of the other, too.
  refine bind_eq_some (a := p.family) ?_ (bind_eq_some (a := p.stack) ?_ rfl)
  · refine optional_eq_some asString?_string (fun _ h => nomatch h) ?_
    rw [List.lookup_append, List.lookup_append, lookup_fieldIfSome,
      lookup_fieldIfSome_of_ne (by decide), Option.or_none]
    rfl
  · refine optional_eq_some StackLayout.ofValue?_toValue (fun _ h => nomatch h) ?_
    rw [List.lookup_append, List.lookup_append, lookup_fieldIfSome,
      lookup_fieldIfSome_of_ne (by decide)]
    rfl

theorem PropertyRecords.ofValue?_toValue (records : PropertyRecords) :
    ofValue? records.toValue = some records :=
  asMap?_ofMap Properties.ofValue?_toValue records

def Value.fieldNames : Value → List String
  | table fields => fields.map Prod.fst
  | _ => []

/-- Tables and property records are read back from what is written for them. Of a record the family
and the stack layout, and of a stack variable the condition, are written only where they are there.
-/
theorem Value.read_back_of_written (t : Table) (records : PropertyRecords) :
    Table.ofValue? t.toValue = some t ∧
    PropertyRecords.ofValue? records.toValue = some records ∧
    (∀ p : Properties, ("family" ∈ p.toValue.fieldNames ↔ p.family.isSome = true) ∧
      ("stack" ∈ p.toValue.fieldNames ↔ p.stack.isSome = true)) ∧
    ∀ x : StackVariable, "condition" ∈ x.toValue.fieldNames ↔ x.condition.isSome = true := by
  refine ⟨t.ofValue?_toValue, records.ofValue?_toValue, fun p => ?_, fun x => ?_⟩
  · simp only [Properties.toValue, fieldNames, List.map_append, map_fst_fieldIfSome]
    cases p.family <;> cases p.stack <;> simp
  · simp only [StackVariable.toValue, fieldNames, List.map_append, map_fst_fieldIfSome]
    cases x.condition <;> simp

end Bytecode
