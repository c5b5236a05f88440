/-! The numbers and names of the abstract machine: what its instructions do, the registers they address
    memory with, and the routines it has built in. -/

namespace TriangleCompiler.Machine

/-- What an instruction does. -/
inductive OpCode where
  | load
  | loadAddress
  | loadIndirect
  | loadLiteral
  | store
  | storeIndirect
  | call
  | callIndirect
  | return_
  | push
  | pop
  | jump
  | jumpIndirect
  | jumpIf
  | halt
deriving DecidableEq, Repr

namespace OpCode

/-- Every one of them, in the order of their numbers. -/
def all : List OpCode :=
  [.load, .loadAddress, .loadIndirect, .loadLiteral, .store, .storeIndirect, .call, .callIndirect,
   .return_, .push, .pop, .jump, .jumpIndirect, .jumpIf, .halt]

/-- The number that encodes an operation. -/
def number : OpCode → Nat
  | load => 0
  | loadAddress => 1
  | loadIndirect => 2
  | loadLiteral => 3
  | store => 4
  | storeIndirect => 5
  | call => 6
  | callIndirect => 7
  | return_ => 8
  | push => 9
  | pop => 10
  | jump => 11
  | jumpIndirect => 12
  | jumpIf => 13
  | halt => 14

/-- The mnemonic of an operation. -/
def name : OpCode → String
  | load => "LOAD"
  | loadAddress => "LOADA"
  | loadIndirect => "LOADI"
  | loadLiteral => "LOADL"
  | store => "STORE"
  | storeIndirect => "STOREI"
  | call => "CALL"
  | callIndirect => "CALLI"
  | return_ => "RETURN"
  | push => "PUSH"
  | pop => "POP"
  | jump => "JUMP"
  | jumpIndirect => "JUMPI"
  | jumpIf => "JUMPIF"
  | halt => "HALT"

/-- The one with this name. -/
def ofName? (s : String) : Option OpCode :=
  all.find? (·.name = s)

end OpCode

/-- The registers that hold base addresses. -/
inductive Register where
  | cb
  | ct
  | pb
  | pt
  | sb
  | st
  | hb
  | ht
  | lb
  | l1
  | l2
  | l3
  | l4
  | l5
  | l6
  | cp
deriving DecidableEq, Repr

namespace Register

/-- Every one of them, in the order of their numbers. -/
def all : List Register :=
  [.cb, .ct, .pb, .pt, .sb, .st, .hb, .ht, .lb, .l1, .l2, .l3, .l4, .l5, .l6, .cp]

/-- The number that encodes a register. -/
def number : Register → Nat
  | cb => 0
  | ct => 1
  | pb => 2
  | pt => 3
  | sb => 4
  | st => 5
  | hb => 6
  | ht => 7
  | lb => 8
  | l1 => 9
  | l2 => 10
  | l3 => 11
  | l4 => 12
  | l5 => 13
  | l6 => 14
  | cp => 15

/-- The name of a register. -/
def name : Register → String
  | cb => "CB"
  | ct => "CT"
  | pb => "PB"
  | pt => "PT"
  | sb => "SB"
  | st => "ST"
  | hb => "HB"
  | ht => "HT"
  | lb => "LB"
  | l1 => "L1"
  | l2 => "L2"
  | l3 => "L3"
  | l4 => "L4"
  | l5 => "L5"
  | l6 => "L6"
  | cp => "CP"

/-- The one with this name. -/
def ofName? (s : String) : Option Register :=
  all.find? (·.name = s)

end Register

/-- The routines that the machine has built in. -/
inductive Primitive where
  | id
  | not
  | and
  | or
  | succ
  | pred
  | neg
  | add
  | sub
  | mult
  | div
  | mod
  | lt
  | le
  | ge
  | gt
  | eq
  | ne
  | eol
  | eof
  | get
  | put
  | getEol
  | putEol
  | getInt
  | putInt
  | new
  | dispose
deriving DecidableEq, Repr

namespace Primitive

/-- Every one of them, in the order of their numbers. -/
def all : List Primitive :=
  [.id, .not, .and, .or, .succ, .pred, .neg, .add, .sub, .mult, .div, .mod, .lt, .le, .ge, .gt, .eq,
   .ne, .eol, .eof, .get, .put, .getEol, .putEol, .getInt, .putInt, .new, .dispose]

/-- The place of a routine among the built-in ones. -/
def number : Primitive → Nat
  | id => 0
  | not => 1
  | and => 2
  | or => 3
  | succ => 4
  | pred => 5
  | neg => 6
  | add => 7
  | sub => 8
  | mult => 9
  | div => 10
  | mod => 11
  | lt => 12
  | le => 13
  | ge => 14
  | gt => 15
  | eq => 16
  | ne => 17
  | eol => 18
  | eof => 19
  | get => 20
  | put => 21
  | getEol => 22
  | putEol => 23
  | getInt => 24
  | putInt => 25
  | new => 26
  | dispose => 27

/-- The name of a routine. -/
def name : Primitive → String
  | id => "ID"
  | not => "NOT"
  | and => "AND"
  | or => "OR"
  | succ => "SUCC"
  | pred => "PRED"
  | neg => "NEG"
  | add => "ADD"
  | sub => "SUB"
  | mult => "MULT"
  | div => "DIV"
  | mod => "MOD"
  | lt => "LT"
  | le => "LE"
  | ge => "GE"
  | gt => "GT"
  | eq => "EQ"
  | ne => "NE"
  | eol => "EOL"
  | eof => "EOF"
  | get => "GET"
  | put => "PUT"
  | getEol => "GETEOL"
  | putEol => "PUTEOL"
  | getInt => "GETINT"
  | putInt => "PUTINT"
  | new => "NEW"
  | dispose => "DISPOSE"

/-- The one with this name. -/
def ofName? (s : String) : Option Primitive :=
  all.find? (·.name = s)

/-- The routine with this number. -/
def ofNumber? (n : Int) : Option Primitive :=
  all.find? fun p => (p.number : Int) = n

end Primitive

end TriangleCompiler.Machine
