import Bytecode.Emit.Steps
import Bytecode.Proofs.Rust.Item

/-!
# The implementations that are emitted

What each step of the emission implements, and for which types. Where the names of all types
differ, the implementations of a type come from one place: from the type itself, or from the set
that it is the enumeration of.
-/

namespace Bytecode.Emit

open Rust (Token Scans Closed Leads Lays Implements Function Defines isIdentifier tokens opens
  owner? signature? functionsIn scans_identifier leads_symbol closed_bracket apart_cons
  finds_flatMap lays_nil lays_blank lays_docLines lays_line lays_of_forall head?_append opens_append
  opens_of_getLast? opens_of_isComment implements_block implements_block_of_ne defines_block
  defines_function)

variable {type source : String} {owner other : List Token}

/-! ### Owners -/

def inherent (type : String) : List Token := [.name type]

def tryFrom (source type : String) : List Token :=
  [.name "TryFrom", .symbol "<", .name source, .symbol ">", .name "for", .name type]

def convertsFrom (source type : String) : List Token :=
  [.name "From", .symbol "<", .name source, .symbol ">", .name "for", .name type]

def displays (type : String) : List Token :=
  [.name "fmt", .symbol "::", .name "Display", .name "for", .name type]

theorem isIdentifier_width (width : Width) : isIdentifier width.name = true := by
  cases width <;> decide

theorem scans_inherent (h : isIdentifier type = true) :
    Scans ("impl " ++ type).toList (.name "impl" :: inherent type) := by
  have himpl : Closed "impl ".toList [.name "impl"] := fun _ => rfl
  rw [String.toList_append]
  exact himpl.append (scans_identifier h)

theorem scans_between {before : String} {ts : List Token} (hbefore : Leads before.toList ts)
    (hsource : isIdentifier source = true) (htype : isIdentifier type = true) :
    Scans (before ++ source ++ "> for " ++ type).toList
      (ts ++ [.name source] ++ [.symbol ">", .name "for", .name type]) := by
  have hfor : Closed "> for ".toList [.symbol ">", .name "for"] := fun _ => rfl
  simp only [String.toList_append]
  rw [List.append_assoc]
  refine (hbefore.append_identifier hsource).append (hfor.append (scans_identifier htype)) ?_
  exact apart_cons (by decide) _

theorem scans_tryFrom (hsource : isIdentifier source = true) (htype : isIdentifier type = true) :
    Scans ("impl TryFrom<" ++ source ++ "> for " ++ type).toList
      (.name "impl" :: tryFrom source type) :=
  scans_between (leads_symbol ['<'] [.name "impl", .name "TryFrom"] (by decide)
    fun _ => rfl) hsource htype

theorem scans_convertsFrom (hsource : isIdentifier source = true)
    (htype : isIdentifier type = true) :
    Scans ("impl From<" ++ source ++ "> for " ++ type).toList
      (.name "impl" :: convertsFrom source type) :=
  scans_between (leads_symbol ['<'] [.name "impl", .name "From"] (by decide)
    fun _ => rfl) hsource htype

theorem scans_displays (h : isIdentifier type = true) :
    Scans ("impl fmt::Display for " ++ type).toList (.name "impl" :: displays type) := by
  have himpl : Closed "impl fmt::Display for ".toList
      [.name "impl", .name "fmt", .symbol "::", .name "Display", .name "for"] := fun _ => rfl
  rw [String.toList_append]
  exact himpl.append (scans_identifier h)

/-! ### Blocks -/

/-- A body, if its owner is the one in question. -/
def among (owner other : List Token) (body : Lines) : List Lines :=
  if other = owner then [body] else []

theorem among_self (owner : List Token) (body : Lines) : among owner owner body = [body] :=
  if_pos rfl

theorem among_inherent_tryFrom (type source other : String) (body : Lines) :
    among (inherent type) (tryFrom source other) body = [] :=
  if_neg (by simp [inherent, tryFrom])

theorem among_tryFrom_inherent (type source other : String) (body : Lines) :
    among (tryFrom source type) (inherent other) body = [] :=
  if_neg (by simp [inherent, tryFrom])

theorem among_inherent_inherent {type other : String} (h : type ≠ other) (body : Lines) :
    among (inherent type) (inherent other) body = [] :=
  if_neg (by simpa [inherent] using Ne.symm h)

theorem implements_of_ne {lines body : Lines} (h : Implements owner lines (among owner other body))
    (hne : owner ≠ other) : Implements owner lines [] := by
  rwa [among, if_neg (Ne.symm hne)] at h

theorem owner?_opening {text : String} (h : Scans text.toList (.name "impl" :: other)) :
    owner? (tokens (text ++ " \x7b").toList) = some other := by
  have hbrace : Closed " \x7b".toList [.symbol "\x7b"] :=
    closed_bracket '\x7b' [] (by decide) fun _ => rfl
  have hscans := h.append hbrace.scans (apart_cons (by decide) _)
  rw [String.toList_append, hscans.tokens_eq, List.cons_append, owner?, List.dropLast_concat]

theorem implements_opening {text : String} (h : Scans text.toList (.name "impl" :: other))
    (hhead : text.toList.head? = some 'i') (body : Lines) :
    Implements owner (block text body) (among owner other body) := by
  have hopening : opens (text ++ " \x7b") = true := opens_append hhead (by decide) (by decide)
  have howner := owner?_opening h
  unfold among
  split
  · next heq => exact implements_block hopening (heq ▸ howner) body
  · next hne =>
      refine implements_block_of_ne hopening (fun h => hne ?_) body
      rw [howner] at h
      exact Option.some.inj h

theorem implements_inherent (h : isIdentifier type = true) (body : Lines) :
    Implements owner (block s!"impl {type}" body) (among owner (inherent type) body) :=
  implements_opening (scans_inherent h) (head?_append rfl type) body

theorem implements_tryFrom (width : Width) (h : isIdentifier type = true) (body : Lines) :
    Implements owner (block s!"impl TryFrom<{width.name}> for {type}" body)
      (among owner (tryFrom width.name type) body) :=
  implements_opening (scans_tryFrom (isIdentifier_width width) h)
    (head?_append (head?_append (head?_append rfl _) _) _) body

theorem implements_convertsFrom (hsource : isIdentifier source = true)
    (htype : isIdentifier type = true) (body : Lines) :
    Implements owner (block s!"impl From<{source}> for {type}" body)
      (among owner (convertsFrom source type) body) :=
  implements_opening (scans_convertsFrom hsource htype)
    (head?_append (head?_append (head?_append rfl _) _) _) body

theorem implements_convertsFrom_u32 (h : isIdentifier type = true) (body : Lines) :
    Implements owner (block s!"impl From<{type}> for u32" body)
      (among owner (convertsFrom type "u32") body) := by
  have htext : s!"impl From<{type}> for u32" = "impl From<" ++ type ++ "> for " ++ "u32" :=
    (String.append_assoc : "impl From<" ++ type ++ "> for " ++ "u32" = _).symm
  rw [htext]
  exact implements_convertsFrom h (isIdentifier_width .u32) body

theorem implements_displays (h : isIdentifier type = true) (body : Lines) :
    Implements owner (block s!"impl fmt::Display for {type}" body)
      (among owner (displays type) body) :=
  implements_opening (scans_displays h) (head?_append rfl type) body

/-- An enumeration is no implementation. -/
theorem implements_enum (type : String) (body : Lines) :
    Implements owner (block s!"pub enum {type}" body) [] := by
  have hopening : opens (s!"pub enum {type}" ++ " \x7b") = true :=
    opens_append (c := 'p') (head?_append rfl _) (by decide) (by decide)
  have htokens : owner? (tokens (s!"pub enum {type}" ++ " \x7b").toList) = none := by
    rw [String.append_assoc, String.toList_append]
    rfl
  refine implements_block_of_ne hopening ?_ body
  rw [htokens]
  exact nofun

/-! ### The steps for operand types -/

theorem lays_header (model : GeneratedModel) : Lays (header model) [] := by
  refine lays_of_forall fun line hline => ?_
  rcases List.mem_append.1 hline with h | h
  · obtain ⟨text, -, rfl⟩ := List.mem_map.1 h
    refine opens_of_isComment ?_
    rw [Rust.isComment, String.toList_append]
    rfl
  · have hfixed : ∀ line ∈
        ["//!", "//! @generated by opforge. Do not edit by hand.", "", "use core::fmt;", ""],
        opens line = false := by
      decide
    exact hfixed line h

theorem lays_alias (aliased : AliasType) :
    Lays (docLines aliased.doc ++
      ["#[derive(Debug, Clone, Copy, PartialEq, Eq, PartialOrd, Ord, Hash, Default)]",
        "#[repr(transparent)]",
        s!"pub struct {aliased.name}(pub {aliased.width.name});",
        ""]) [] :=
  .append (lays_docLines aliased.doc) (.cons (lays_line (by decide)) (.cons (lays_line (by decide))
    (.cons (lays_line (opens_of_getLast? _ ");" ';' rfl (by decide))) lays_blank)))

def ownersOf (type : String) : List (List Token) :=
  [inherent type, tryFrom "u32" type, convertsFrom type "u32"]

theorem implements_blank : Implements owner [""] [] := lays_blank.implements_nil

theorem implements_aliasType (error : String) {aliased : AliasType}
    (h : isIdentifier aliased.name = true) (howner : owner ∉ ownersOf aliased.name) :
    Implements owner (aliasType error aliased) [] := by
  simp only [ownersOf, List.mem_cons, List.not_mem_nil, or_false, not_or] at howner
  obtain ⟨hinherent, htryFrom, hconvertsFrom⟩ := howner
  unfold aliasType
  dsimp only
  refine .append_nil (.append_nil (.append_nil (.append_nil (.append_nil (.append_nil
    (lays_alias aliased).implements_nil ?_) ?_) ?_) ?_) ?_) ?_
  · exact implements_of_ne (implements_inherent h _) hinherent
  · exact implements_blank
  · exact implements_of_ne (implements_tryFrom .u32 h _) htryFrom
  · exact implements_blank
  · exact implements_of_ne (implements_convertsFrom_u32 h _) hconvertsFrom
  · exact implements_blank

def rawArmLines (rows : List (UInt32 × String)) (failure : String) : Lines :=
  block "match raw"
    (rows.map (fun (raw, name) => arm (toString raw) s!"Ok(Self::{name})") ++ [arm "_" failure])

theorem lays_error (error : String) : Lays [s!"type Error = {error};", ""] [] :=
  .cons (lays_line (opens_of_getLast? _ ";" ';' rfl (by decide))) lays_blank

theorem functionsIn_rawConversion (error : String) (width : Width) (body : Lines) :
    functionsIn ([s!"type Error = {error};", ""] ++
        block s!"fn try_from(raw: {width.name}) -> Result<Self, Self::Error>" body) =
      [⟨"try_from", "raw", body⟩] := by
  have hopening : opens (s!"fn try_from(raw: {width.name}) -> Result<Self, Self::Error>" ++
      " \x7b") = true :=
    opens_append (c := 'f') (head?_append (head?_append rfl _) _) (by decide) (by decide)
  have hsignature : signature? (tokens
      (s!"fn try_from(raw: {width.name}) -> Result<Self, Self::Error>" ++ " \x7b").toList) =
      some ("try_from", "raw") := by
    cases width <;> decide
  exact ((lays_error error).defines_nil.nil_append
    (defines_block hopening hsignature body)).eq rfl

theorem exists_implements_namedType (owner : List Token) (error : String) {named : NamedType}
    (h : isIdentifier named.name = true) (hne : owner ≠ convertsFrom named.name "u32") :
    ∃ body, Implements owner (namedType error named)
        (among owner (tryFrom "u32" named.name) body) ∧
      functionsIn body =
        [⟨"try_from", "raw", rawArmLines (rawArms named) s!"Err({error}::InvalidOperand)"⟩] := by
  have hattributes : Lays
      ["#[derive(Debug, Clone, Copy, PartialEq, Eq, PartialOrd, Ord, Hash)]", "#[repr(u32)]"] [] :=
    lays_of_forall (by decide)
  have hfront : Implements owner _ [] :=
    Lays.implements_nil ((lays_docLines named.doc).append hattributes)
  refine ⟨_, .append_nil (.append_nil (.append_nil (.nil_append (.append_nil (.append_nil
    hfront ?_) ?_) ?_) ?_) ?_) ?_, functionsIn_rawConversion error .u32 _⟩
  · exact implements_enum _ _
  · exact implements_blank
  · exact implements_tryFrom .u32 h _
  · exact implements_blank
  · exact implements_of_ne (implements_convertsFrom_u32 h _) hne
  · exact implements_blank

theorem implements_derivedConversion {registry : Registry} {derived : NamedType}
    (hregistry : ∀ type ∈ registry.types, isIdentifier type.name = true)
    (hderived : isIdentifier derived.name = true)
    (howner : ∀ source type, owner ≠ convertsFrom source type) :
    Implements owner (derivedConversion registry derived) [] := by
  have hconversion : ∀ {source target : NamedType}, isIdentifier source.name = true →
      isIdentifier target.name = true → Implements owner (conversion source target) [] :=
    fun hsource htarget => .append_nil
      (implements_of_ne (implements_convertsFrom hsource htarget _) (howner _ _)) implements_blank
  unfold derivedConversion
  split
  · exact lays_nil.implements_nil
  · split
    · exact lays_nil.implements_nil
    · next base hbase =>
        obtain ⟨type, htype, hnamed⟩ := Option.bind_eq_some_iff.1 hbase
        have hname : isIdentifier base.name = true := by
          have htype := hregistry type (List.mem_of_find?_eq_some htype)
          cases type with
          | named named =>
              obtain rfl := Option.some.inj hnamed
              exact htype
          | aliased aliased => cases hnamed
        have hcomment : ∀ text, opens ("// `" ++ text) = false := fun text => by
          refine opens_of_isComment ?_
          rw [Rust.isComment, String.toList_append]
          rfl
        refine .cons (lays_line ?_).implements_nil (.append_nil ?_ ?_)
        · simp only [String.append_assoc]
          exact hcomment _
        · exact hconversion hname hderived
        · exact hconversion hderived hname

/-! ### The steps for a set -/

variable {set : SetModel} {model : GeneratedModel}

def predicateFunctions (set : SetModel) : List Function :=
  Predicate.all.map fun p => ⟨p.functionName, "self", [isOneOf (predicateCases set p)]⟩

def deoptFunctions (set : SetModel) : List Function :=
  [⟨"deopt", "self", deoptBody set
      ((deoptArms set).map fun (members, target) =>
        arm (alternatives members) s!"Self::{target}")
      (arm "_" "self")⟩,
    ⟨"is_specialized", "self", [isOneOf (specializedCases set)]⟩]

def instructionDeopt (set : SetModel) : Function :=
  ⟨"deopt", "self", deoptBody set
    ((instructionDeoptArms set).map fun (specialized, target) =>
      instructionDeoptArm specialized target)
    (arm "other" "other")⟩

def opcodeConversion (m : GeneratedModel) (set : SetModel) : Function :=
  ⟨"try_from", "raw",
    rawArmLines (opcodeArms set) s!"Err({m.config.errorType}::InvalidBytecode)"⟩

theorem implements_opcodeEnum (owner : List Token) (model : GeneratedModel) (set : SetModel) :
    Implements owner (opcodeEnum model set) [] := by
  have hcomment : opens s!"/// Opcodes of the {set.kind.name} instruction set." = false := by
    cases set.kind <;> decide
  have hrepr : opens s!"#[repr({set.model.width.name})]" = false := by
    cases set.model.width <;> decide
  have hderive : opens
      "#[derive(Debug, Clone, Copy, PartialEq, Eq, PartialOrd, Ord, Hash)]" = false := by
    decide
  have hfront : Implements owner _ [] :=
    Lays.implements_nil
      (.cons (lays_line hcomment) (.cons (lays_line hderive) (lays_line hrepr)))
  exact .append_nil (.append_nil hfront (implements_enum _ _)) implements_blank

theorem implements_sizeAssertions (owner : List Token) (model : GeneratedModel) (set : SetModel) :
    Implements owner (sizeAssertions model set) [] :=
  Lays.implements_nil (.cons
    (lays_line (opens_of_getLast? _ ");" ';' rfl (by decide))) lays_blank)

theorem defines_decode (opcode error : String) (body : Lines) :
    Defines (block s!"pub fn decode(opcode: {opcode}, oparg: u32) -> Result<Self, {error}>" body)
      [⟨"decode", "opcode", body⟩] := by
  refine defines_block (opens_append (c := 'p') (head?_append (head?_append (head?_append
    (head?_append rfl _) _) _) _) (by decide) (by decide)) ?_ body
  simp only [String.append_assoc, String.toList_append]
  rfl

theorem defines_opcode (opcode : String) (body : Lines) :
    Defines (function s!"pub const fn opcode(&self) -> {opcode}" body)
      [⟨"opcode", "self", body⟩] := by
  refine defines_function (opens_append (c := 'p') (head?_append rfl _) (by decide) (by decide))
    ?_ body
  simp only [String.append_assoc, String.toList_append]
  rfl

theorem defines_blank : Defines [""] [] := lays_blank.defines_nil

/-- The functions of the instructions of a set, other than the one that deoptimizes. -/
theorem exists_implements_instructionEnum (owner : List Token) (model : GeneratedModel)
    (h : isIdentifier set.instructionEnum = true) :
    ∃ body, Implements owner (instructionEnum model set)
        (among owner (inherent set.instructionEnum) body) ∧
      (functionsIn body).map Function.name = ["opcode", "decode", "oparg"] := by
  have hfront : Lays [s!"/// Decoded {set.kind.name} instructions.",
      "#[derive(Debug, Clone, Copy, PartialEq, Eq, Hash)]"] [] := by
    refine .cons (lays_line ?_) (lays_line (by decide))
    cases set.kind <;> decide
  have hdecodeDoc : Lays
      ["/// Decode the operand `oparg` of `opcode`. Cases without operand ignore it."] [] :=
    lays_line (by decide)
  have hunused : Lays (if set.model.cases.any fun c => c.operand.isSome then []
      else ["#[allow(unused_variables)]"]) [] := by
    split
    · exact lays_nil
    · exact lays_line (by decide)
  have hopargDoc : Lays ["/// Raw operand; `0` for cases without one."] [] :=
    lays_line (by decide)
  refine ⟨_, .append_nil (.nil_append (.append_nil (.append_nil hfront.implements_nil
    (implements_enum _ _)) implements_blank) (implements_inherent h _)) implements_blank, ?_⟩
  have hoparg : ∀ body, Defines (function "pub fn oparg(&self) -> u32" body)
      [⟨"oparg", "self", body⟩] :=
    defines_function (by decide) (by decide)
  have hdefines := fun opcodeBody decodeBody opargBody =>
    ((((((defines_opcode set.opcodeEnum opcodeBody).append_nil defines_blank).append_nil
      hdecodeDoc.defines_nil).append_nil hunused.defines_nil).append
      (defines_decode set.opcodeEnum model.config.errorType decodeBody)).append_nil
      defines_blank).append_nil hopargDoc.defines_nil |>.append (hoparg opargBody)
  rw [(hdefines _ _ _).eq rfl]
  rfl

/-- The conversion of raw values to the opcodes of a set. -/
theorem exists_implements_conversions (owner : List Token) (model : GeneratedModel)
    (h : isIdentifier set.opcodeEnum = true)
    (hne : owner ≠ convertsFrom set.opcodeEnum set.model.width.name) :
    ∃ body, Implements owner (conversions model set)
        (among owner (tryFrom set.model.width.name set.opcodeEnum) body) ∧
      functionsIn body = [opcodeConversion model set] :=
  ⟨_, .append_nil (.append_nil (.append_nil (implements_tryFrom set.model.width h _)
      implements_blank)
      (implements_of_ne (implements_convertsFrom h (isIdentifier_width _) _) hne)) implements_blank,
    functionsIn_rawConversion model.config.errorType set.model.width _⟩

theorem exists_implements_displayNames (owner : List Token) (model : GeneratedModel)
    (hopcode : isIdentifier set.opcodeEnum = true)
    (hinstruction : isIdentifier set.instructionEnum = true)
    (hne : owner ≠ displays set.opcodeEnum ∧ owner ≠ displays set.instructionEnum) :
    ∃ body, Implements owner (displayNames model set)
        (among owner (inherent set.opcodeEnum) body) ∧
      (functionsIn body).map Function.name = ["name"] := by
  have hdisplay : ∀ {type : String} (name : String), isIdentifier type = true →
      owner ≠ displays type → Implements owner (displayBy type name) [] := fun _ h hne =>
    .append_nil (implements_of_ne (implements_displays h _) hne) implements_blank
  have hname : ∀ body, Defines (function "pub const fn name(self) -> &'static str" body)
      [⟨"name", "self", body⟩] :=
    defines_function (by decide) (by decide)
  refine ⟨_, .append_nil (.append_nil (.append_nil (implements_inherent hopcode _)
    implements_blank) (hdisplay _ hopcode hne.1)) (hdisplay _ hinstruction hne.2), ?_⟩
  rw [(hname _).eq rfl]
  rfl

theorem exists_implements_predicates (owner : List Token) (model : GeneratedModel)
    (h : isIdentifier set.opcodeEnum = true) :
    ∃ body, Implements owner (predicates model set)
        (among owner (inherent set.opcodeEnum) body) ∧
      functionsIn body = predicateFunctions set ++
        [⟨"is_placeholder", "self", [isOneOf (placeholderCases set)]⟩] := by
  have hpredicate : ∀ (p : Predicate) body,
      Defines (function s!"pub const fn {p.functionName}(self) -> bool" body)
        [⟨p.functionName, "self", body⟩] := by
    intro p
    refine defines_function (opens_append (c := 'p') (head?_append (head?_append rfl _) _)
      (by decide) (by decide)) ?_
    cases p <;> decide
  have hplaceholderDoc : Lays
      ["/// Whether the stack effect is a placeholder rather than real metadata."] [] :=
    lays_line (by decide)
  have hplaceholder : ∀ body, Defines (function "pub const fn is_placeholder(self) -> bool" body)
      [⟨"is_placeholder", "self", body⟩] :=
    defines_function (by decide) (by decide)
  refine ⟨_, .append_nil (implements_inherent h _) implements_blank, ?_⟩
  have hpredicates : Defines (Predicate.all.flatMap fun p =>
      function s!"pub const fn {p.functionName}(self) -> bool" [isOneOf (predicateCases set p)] ++
        [""]) (predicateFunctions set) := by
    rw [predicateFunctions, List.map_eq_flatMap]
    exact finds_flatMap fun p _ => (hpredicate p _).append_nil defines_blank
  exact ((hpredicates.append_nil hplaceholderDoc.defines_nil).append (hplaceholder _)).eq rfl

theorem exists_implements_stackEffect (owner : List Token) (model : GeneratedModel)
    (h : isIdentifier set.opcodeEnum = true) :
    ∃ body, Implements owner (stackEffect model set)
        (among owner (inherent set.opcodeEnum) body) ∧
      (functionsIn body).map Function.name = ["stack_effect"] := by
  have hfront : Lays ["/// Slots `(popped, pushed)` for the raw operand `oparg`.", "#[must_use]",
      "#[allow(unused_variables)]"] [] :=
    lays_of_forall (by decide)
  have hstackEffect : ∀ body,
      Defines (block "pub fn stack_effect(self, oparg: u32) -> (i64, i64)" body)
        [⟨"stack_effect", "self", body⟩] :=
    defines_block (by decide) (by decide)
  refine ⟨_, .append_nil (implements_inherent h _) implements_blank, ?_⟩
  rw [(hfront.defines_nil.nil_append (hstackEffect _)).eq rfl]
  rfl

/-- The deoptimizing functions of the opcodes and of the instructions. -/
theorem exists_implements_deopt (owner : List Token) (model : GeneratedModel)
    (hopcode : isIdentifier set.opcodeEnum = true)
    (hinstruction : isIdentifier set.instructionEnum = true) :
    ∃ opcodeBody instructionBody, Implements owner (deopt model set)
        (among owner (inherent set.opcodeEnum) opcodeBody ++
          among owner (inherent set.instructionEnum) instructionBody) ∧
      functionsIn opcodeBody = deoptFunctions set ∧
      functionsIn instructionBody = [instructionDeopt set] := by
  have hdeopt : ∀ body, Defines (function "pub const fn deopt(self) -> Self" body)
      [⟨"deopt", "self", body⟩] :=
    defines_function (by decide) (by decide)
  have hspecialized : ∀ body, Defines (function "pub const fn is_specialized(self) -> bool" body)
      [⟨"is_specialized", "self", body⟩] :=
    defines_function (by decide) (by decide)
  have hopcodeDoc : Lays ["/// Generic instruction this opcode deoptimizes to."] [] :=
    lays_line (by decide)
  have hinstructionDoc : Lays
      ["/// Generic instruction this one deoptimizes to; the operand is kept."] [] :=
    lays_line (by decide)
  refine ⟨_, _, .append_nil (.append (.append_nil (implements_inherent hopcode _) implements_blank)
    (implements_inherent hinstruction _)) implements_blank, ?_, ?_⟩
  · exact (((hopcodeDoc.defines_nil.nil_append (hdeopt _)).append_nil defines_blank).append
      (hspecialized _)).eq rfl
  · exact (hinstructionDoc.defines_nil.nil_append (hdeopt _)).eq rfl

end Bytecode.Emit
