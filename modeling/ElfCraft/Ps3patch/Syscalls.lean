import ElfCraft.Ppc.Encode

/-!
This module contains the code sequences that load and start a module through LV2 system calls.
-/

namespace ElfCraft
namespace Ps3patch

open Ppc

def SYS_PRX_LOAD_MODULE : BitVec 32 := 480
def SYS_PRX_START_MODULE : BitVec 32 := 481

def SYSCALL_SEQUENCE_INSTR_COUNT : Nat := 14

def REG_SYSCALL_NUMBER_DEFAULT : BitVec 32 := 11
def REG_ARG0 : BitVec 32 := 3
def REG_ARG1 : BitVec 32 := 4
def REG_ARG2 : BitVec 32 := 5
def REG_ARG3 : BitVec 32 := 6
def REG_ARG4 : BitVec 32 := 7
def REG_ARG5 : BitVec 32 := 8

def encodeSc : Instruction := (17#32 <<< 26) ||| (0#32 <<< 5) ||| (1#32 <<< 1)

def makeSyscallTrap (syscallNumber syscallNumberReg : BitVec 32) : List Instruction :=
  [encodeLi syscallNumberReg (syscallNumber.setWidth 16), encodeSc]

def makeLoadModuleCall (pathAddress : BitVec 32) : List Instruction :=
  loadImmediate32 REG_ARG0 pathAddress ++ [encodeLi REG_ARG1 0, encodeLi REG_ARG2 0] ++
    makeSyscallTrap SYS_PRX_LOAD_MODULE REG_SYSCALL_NUMBER_DEFAULT

def makeStartModuleCall : List Instruction :=
  [encodeLi REG_ARG1 0, encodeLi REG_ARG2 0, encodeLi REG_ARG3 0, encodeLi REG_ARG4 0,
    encodeLi REG_ARG5 0] ++
    makeSyscallTrap SYS_PRX_START_MODULE REG_SYSCALL_NUMBER_DEFAULT

def makeLoadAndStartModule (pathAddress : BitVec 32) : List Instruction :=
  makeLoadModuleCall pathAddress ++ makeStartModuleCall

end Ps3patch
end ElfCraft
