import ModRepair.Text.Bytes

/-!
# Opcodes

The instructions of the Common Intermediate Language that compiled modules use, named by their mnemonics, with
the kind of operand each takes. Field instructions are described by one `FieldAccess` record, from which loading,
storing, taking an address and being static are all read off.
-/

namespace ModRepair

/-- What an instruction may refer to. -/
inductive OperandKind
  | none | type | field | method | property
  deriving DecidableEq, Repr

namespace OperandKind

def all : List OperandKind :=
  [.none, .type, .field, .method, .property]

def name : OperandKind → Bytes
  | .none => ascii "none"
  | .type => ascii "type"
  | .field => ascii "field"
  | .method => ascii "method"
  | .property => ascii "property"

end OperandKind

inductive Opcode
  | nop | ldarg0 | ldarg1 | ldloc0 | stloc0 | ldnull | dup | pop | ret
  | ldfld | ldflda | stfld | ldsfld | ldsflda | stsfld
  | call | callvirt | newobj | ldftn | ldvirtftn
  | castclass | isinst | box | unboxAny | newarr | initobj | ldtoken
  deriving DecidableEq, Repr, Inhabited

/-- What a field instruction does with the field. -/
inductive FieldMode
  | load | address | store
  deriving DecidableEq, Repr

/-- A field instruction: what it does, and whether to a static field. -/
structure FieldAccess where
  mode : FieldMode
  isStatic : Bool
  deriving DecidableEq, Repr

/-- The two accessor methods of a property. -/
inductive Accessor
  | getter | setter
  deriving DecidableEq, Repr

namespace Accessor

def name : Accessor → Bytes
  | .getter => ascii "getter"
  | .setter => ascii "setter"

/-- The number of parameters an accessor method takes. -/
def arity : Accessor → Nat
  | .getter => 0
  | .setter => 1

end Accessor

namespace Opcode

/-- All opcodes, in the order of their codes. -/
def all : List Opcode :=
  [.nop, .ldarg0, .ldarg1, .ldloc0, .stloc0, .ldnull, .dup, .pop, .ret,
    .ldfld, .ldflda, .stfld, .ldsfld, .ldsflda, .stsfld,
    .call, .callvirt, .newobj, .ldftn, .ldvirtftn,
    .castclass, .isinst, .box, .unboxAny, .newarr, .initobj, .ldtoken]

/-- The position of an opcode among all. -/
def code (op : Opcode) : Nat :=
  all.idxOf op

def ofCode? (code : Nat) : Option Opcode :=
  all[code]?

def mnemonic : Opcode → Bytes
  | .nop => ascii "nop"
  | .ldarg0 => ascii "ldarg.0"
  | .ldarg1 => ascii "ldarg.1"
  | .ldloc0 => ascii "ldloc.0"
  | .stloc0 => ascii "stloc.0"
  | .ldnull => ascii "ldnull"
  | .dup => ascii "dup"
  | .pop => ascii "pop"
  | .ret => ascii "ret"
  | .ldfld => ascii "ldfld"
  | .ldflda => ascii "ldflda"
  | .stfld => ascii "stfld"
  | .ldsfld => ascii "ldsfld"
  | .ldsflda => ascii "ldsflda"
  | .stsfld => ascii "stsfld"
  | .call => ascii "call"
  | .callvirt => ascii "callvirt"
  | .newobj => ascii "newobj"
  | .ldftn => ascii "ldftn"
  | .ldvirtftn => ascii "ldvirtftn"
  | .castclass => ascii "castclass"
  | .isinst => ascii "isinst"
  | .box => ascii "box"
  | .unboxAny => ascii "unbox.any"
  | .newarr => ascii "newarr"
  | .initobj => ascii "initobj"
  | .ldtoken => ascii "ldtoken"

def ofMnemonic? (name : Bytes) : Option Opcode :=
  all.find? (·.mnemonic == name)

/-- The kind of operand that an opcode is written with. -/
def expectedOperand : Opcode → OperandKind
  | .ldfld | .ldflda | .stfld | .ldsfld | .ldsflda | .stsfld => .field
  | .call | .callvirt | .newobj | .ldftn | .ldvirtftn => .method
  | .castclass | .isinst | .box | .unboxAny | .newarr | .initobj | .ldtoken => .type
  | _ => .none

/-- Whether an opcode takes an operand of the kind. A token may be loaded for anything there is. -/
def accepts (op : Opcode) (kind : OperandKind) : Bool :=
  if op = .ldtoken then kind != .none else op.expectedOperand == kind

/-- How an opcode accesses a field, if it does. -/
def fieldAccess? : Opcode → Option FieldAccess
  | .ldfld => some ⟨.load, false⟩
  | .ldflda => some ⟨.address, false⟩
  | .stfld => some ⟨.store, false⟩
  | .ldsfld => some ⟨.load, true⟩
  | .ldsflda => some ⟨.address, true⟩
  | .stsfld => some ⟨.store, true⟩
  | _ => none

def hasFieldMode (op : Opcode) (mode : FieldMode) : Bool :=
  op.fieldAccess?.any (·.mode == mode)

/-- Whether an opcode accesses a static field. -/
def isStaticAccess (op : Opcode) : Bool :=
  op.fieldAccess?.any (·.isStatic)

/-- The accessor method that does for a property what the opcode does for a field: there is none that takes an
address. -/
def accessor? (op : Opcode) : Option Accessor :=
  op.fieldAccess?.bind fun access =>
    match access.mode with
    | .load => some .getter
    | .store => some .setter
    | .address => none

/-- Whether an opcode calls a method at once. -/
def isCall (op : Opcode) : Bool :=
  op == .call || op == .callvirt

end Opcode

/-- What is known of an opcode by its code alone. -/
structure OpcodeInfo where
  code : Nat
  name : Bytes
  opcode : Option Opcode
  deriving Repr

namespace OpcodeInfo

def of (op : Opcode) : OpcodeInfo :=
  ⟨op.code, op.mnemonic, some op⟩

/-- A code that no opcode has is named so, and takes no operand. -/
def ofCode (code : Nat) : OpcodeInfo :=
  match Opcode.ofCode? code with
  | some op => of op
  | none => ⟨code, ascii "<invalid>", none⟩

def expectedOperand (info : OpcodeInfo) : OperandKind :=
  (info.opcode.map Opcode.expectedOperand).getD .none

/-- The kinds of operand that fit, in the order of the kinds. -/
def accepted (info : OpcodeInfo) : List OperandKind :=
  OperandKind.all.filter fun kind =>
    match info.opcode with
    | some op => op.accepts kind
    | none => kind == .none

end OpcodeInfo

end ModRepair
