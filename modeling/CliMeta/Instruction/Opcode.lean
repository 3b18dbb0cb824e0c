/-!
The instruction set: which numbers are assigned, and for each the mnemonic, the form of the operand
and how control goes on.
-/

namespace CliMeta

inductive OperandKind where
  | none
  /-- A displacement of one byte, or of four. -/
  | shortBranch | branch
  | switch
  | token | string
  | int8 | uint8 | int32 | int64 | float32 | float64
  /-- The number of a local variable or an argument, in one byte or in two. -/
  | shortLocal | local | shortArgument | argument
  /-- The number of a local variable or an argument is part of the opcode. -/
  | implicitLocal (index : Nat) | implicitArgument (index : Nat)
  deriving DecidableEq, Repr, Inhabited

def OperandKind.name : OperandKind → String
  | .none => "None"
  | .shortBranch => "ShortBranch"
  | .branch => "Branch"
  | .switch => "Switch"
  | .token => "Token"
  | .string => "String"
  | .int8 => "Int8"
  | .uint8 => "UInt8"
  | .int32 => "Int32"
  | .int64 => "Int64"
  | .float32 => "Float32"
  | .float64 => "Float64"
  | .shortLocal => "ShortLocal"
  | .local => "Local"
  | .shortArgument => "ShortArgument"
  | .argument => "Argument"
  | .implicitLocal index => s!"ImplicitLocal({index})"
  | .implicitArgument index => s!"ImplicitArgument({index})"

inductive FlowKind where
  | sequential | conditional | unconditional | switch | call | ret | raise
  /-- An instruction that changes the one behind it. -/
  | modifier
  deriving DecidableEq, Repr, Inhabited

def FlowKind.name : FlowKind → String
  | .sequential => "Sequential"
  | .conditional => "ConditionalBranch"
  | .unconditional => "UnconditionalBranch"
  | .switch => "Switch"
  | .call => "Call"
  | .ret => "Return"
  | .raise => "Throw"
  | .modifier => "Meta"

def FlowKind.fallsThrough : FlowKind → Bool
  | .unconditional | .ret | .raise => false
  | _ => true

structure Opcode where
  mnemonic : String
  operand : OperandKind
  flow : FlowKind
  deriving DecidableEq, Repr, Inhabited

namespace Opcode

def plain (mnemonic : String) : Opcode := ⟨mnemonic, .none, .sequential⟩

def taking (mnemonic : String) (kind : OperandKind) : Opcode := ⟨mnemonic, kind, .sequential⟩

def assigned (opcodes : List Opcode) : List (Option Opcode) := opcodes.map some

def gap (count : Nat) : List (Option Opcode) := List.replicate count none

/-- The opcodes of one byte, by their number. -/
def oneByte : List (Option Opcode) :=
  assigned
      [plain "nop", plain "break", taking "ldarg.0" (.implicitArgument 0),
       taking "ldarg.1" (.implicitArgument 1), taking "ldarg.2" (.implicitArgument 2),
       taking "ldarg.3" (.implicitArgument 3), taking "ldloc.0" (.implicitLocal 0),
       taking "ldloc.1" (.implicitLocal 1), taking "ldloc.2" (.implicitLocal 2),
       taking "ldloc.3" (.implicitLocal 3), taking "stloc.0" (.implicitLocal 0),
       taking "stloc.1" (.implicitLocal 1), taking "stloc.2" (.implicitLocal 2),
       taking "stloc.3" (.implicitLocal 3), taking "ldarg.s" .shortArgument,
       taking "ldarga.s" .shortArgument, taking "starg.s" .shortArgument,
       taking "ldloc.s" .shortLocal, taking "ldloca.s" .shortLocal,
       taking "stloc.s" .shortLocal, plain "ldnull", plain "ldc.i4.m1", plain "ldc.i4.0",
       plain "ldc.i4.1", plain "ldc.i4.2", plain "ldc.i4.3", plain "ldc.i4.4", plain "ldc.i4.5",
       plain "ldc.i4.6", plain "ldc.i4.7", plain "ldc.i4.8", taking "ldc.i4.s" .int8,
       taking "ldc.i4" .int32, taking "ldc.i8" .int64, taking "ldc.r4" .float32,
       taking "ldc.r8" .float64] ++
    gap 1 ++
    assigned
      [plain "dup", plain "pop", ⟨"jmp", .token, .call⟩, ⟨"call", .token, .call⟩,
       ⟨"calli", .token, .call⟩, ⟨"ret", .none, .ret⟩, ⟨"br.s", .shortBranch, .unconditional⟩,
       ⟨"brfalse.s", .shortBranch, .conditional⟩, ⟨"brtrue.s", .shortBranch, .conditional⟩,
       ⟨"beq.s", .shortBranch, .conditional⟩, ⟨"bge.s", .shortBranch, .conditional⟩,
       ⟨"bgt.s", .shortBranch, .conditional⟩, ⟨"ble.s", .shortBranch, .conditional⟩,
       ⟨"blt.s", .shortBranch, .conditional⟩, ⟨"bne.un.s", .shortBranch, .conditional⟩,
       ⟨"bge.un.s", .shortBranch, .conditional⟩, ⟨"bgt.un.s", .shortBranch, .conditional⟩,
       ⟨"ble.un.s", .shortBranch, .conditional⟩, ⟨"blt.un.s", .shortBranch, .conditional⟩,
       ⟨"br", .branch, .unconditional⟩, ⟨"brfalse", .branch, .conditional⟩,
       ⟨"brtrue", .branch, .conditional⟩, ⟨"beq", .branch, .conditional⟩,
       ⟨"bge", .branch, .conditional⟩, ⟨"bgt", .branch, .conditional⟩,
       ⟨"ble", .branch, .conditional⟩, ⟨"blt", .branch, .conditional⟩,
       ⟨"bne.un", .branch, .conditional⟩, ⟨"bge.un", .branch, .conditional⟩,
       ⟨"bgt.un", .branch, .conditional⟩, ⟨"ble.un", .branch, .conditional⟩,
       ⟨"blt.un", .branch, .conditional⟩, ⟨"switch", .switch, .switch⟩, plain "ldind.i1",
       plain "ldind.u1", plain "ldind.i2", plain "ldind.u2", plain "ldind.i4", plain "ldind.u4",
       plain "ldind.i8", plain "ldind.i", plain "ldind.r4", plain "ldind.r8", plain "ldind.ref",
       plain "stind.ref", plain "stind.i1", plain "stind.i2", plain "stind.i4", plain "stind.i8",
       plain "stind.r4", plain "stind.r8", plain "add", plain "sub", plain "mul", plain "div",
       plain "div.un", plain "rem", plain "rem.un", plain "and", plain "or", plain "xor",
       plain "shl", plain "shr", plain "shr.un", plain "neg", plain "not", plain "conv.i1",
       plain "conv.i2", plain "conv.i4", plain "conv.i8", plain "conv.r4", plain "conv.r8",
       plain "conv.u4", plain "conv.u8", ⟨"callvirt", .token, .call⟩, taking "cpobj" .token,
       taking "ldobj" .token, taking "ldstr" .string, ⟨"newobj", .token, .call⟩,
       taking "castclass" .token, taking "isinst" .token, plain "conv.r.un"] ++
    gap 2 ++
    assigned
      [taking "unbox" .token, ⟨"throw", .none, .raise⟩, taking "ldfld" .token,
       taking "ldflda" .token, taking "stfld" .token, taking "ldsfld" .token,
       taking "ldsflda" .token, taking "stsfld" .token, taking "stobj" .token,
       plain "conv.ovf.i1.un", plain "conv.ovf.i2.un", plain "conv.ovf.i4.un",
       plain "conv.ovf.i8.un", plain "conv.ovf.u1.un", plain "conv.ovf.u2.un",
       plain "conv.ovf.u4.un", plain "conv.ovf.u8.un", plain "conv.ovf.i.un",
       plain "conv.ovf.u.un", taking "box" .token, taking "newarr" .token, plain "ldlen",
       taking "ldelema" .token, plain "ldelem.i1", plain "ldelem.u1", plain "ldelem.i2",
       plain "ldelem.u2", plain "ldelem.i4", plain "ldelem.u4", plain "ldelem.i8",
       plain "ldelem.i", plain "ldelem.r4", plain "ldelem.r8", plain "ldelem.ref",
       plain "stelem.i", plain "stelem.i1", plain "stelem.i2", plain "stelem.i4",
       plain "stelem.i8", plain "stelem.r4", plain "stelem.r8", plain "stelem.ref",
       taking "ldelem" .token, taking "stelem" .token, taking "unbox.any" .token] ++
    gap 13 ++
    assigned
      [plain "conv.ovf.i1", plain "conv.ovf.u1", plain "conv.ovf.i2", plain "conv.ovf.u2",
       plain "conv.ovf.i4", plain "conv.ovf.u4", plain "conv.ovf.i8", plain "conv.ovf.u8"] ++
    gap 7 ++
    assigned
      [taking "refanyval" .token, plain "ckfinite"] ++
    gap 2 ++
    assigned
      [taking "mkrefany" .token] ++
    gap 9 ++
    assigned
      [taking "ldtoken" .token, plain "conv.u2", plain "conv.u1", plain "conv.i",
       plain "conv.ovf.i", plain "conv.ovf.u", plain "add.ovf", plain "add.ovf.un",
       plain "mul.ovf", plain "mul.ovf.un", plain "sub.ovf", plain "sub.ovf.un",
       ⟨"endfinally", .none, .ret⟩, ⟨"leave", .branch, .unconditional⟩,
       ⟨"leave.s", .shortBranch, .unconditional⟩, plain "stind.i", plain "conv.u"]

/-- The opcodes of two bytes, by their second byte. -/
def twoByte : List (Option Opcode) :=
  assigned
      [plain "arglist", plain "ceq", plain "cgt", plain "cgt.un", plain "clt", plain "clt.un",
       taking "ldftn" .token, taking "ldvirtftn" .token] ++
    gap 1 ++
    assigned
      [taking "ldarg" .argument, taking "ldarga" .argument, taking "starg" .argument,
       taking "ldloc" .local, taking "ldloca" .local, taking "stloc" .local, plain "localloc"] ++
    gap 1 ++
    assigned
      [⟨"endfilter", .none, .ret⟩, ⟨"unaligned.", .uint8, .modifier⟩, ⟨"volatile.", .none, .modifier⟩,
       ⟨"tail.", .none, .modifier⟩, taking "initobj" .token, ⟨"constrained.", .token, .modifier⟩,
       plain "cpblk", plain "initblk", ⟨"no.", .uint8, .modifier⟩, ⟨"rethrow", .none, .raise⟩] ++
    gap 1 ++
    assigned
      [taking "sizeof" .token, plain "refanytype", ⟨"readonly.", .none, .modifier⟩]

@[simp] theorem oneByte_length : oneByte.length = 0xE1 := by
  decide +kernel

def escape : Nat := 0xFE

/-- The opcode of a number. Numbers above one byte have the escape byte on top. -/
def lookup? (code : Nat) : Option Opcode :=
  if code < 0x100 then (oneByte[code]?).join
  else if code / 0x100 = escape then (twoByte[code % 0x100]?).join
  else none

end Opcode

end CliMeta
