import LispMachine.Compiler
import LispMachine.Proofs.Evaluation

set_option autoImplicit false

-- Opened where simp compiles a program that is written out. The tables of a resolution cannot be evaluated
-- by the kernel: the hash of a string has no definition there.
namespace LispMachine.Unfolding

attribute [scoped simp] Bind.bind Except.bind pure Except.pure Functor.map Except.map Except.toBool
  Std.HashMap.getElem_insert Int64.toInt_ofNat Int64.size Int16.toInt_maxValue UInt16.size UInt32.size

attribute [scoped simp] Expression.topLevel Expression.position Stage.id Builtin.ofName? Builtin.all
  Builtin.name Builtin.arity maxArity

attribute [scoped simp] Environment.global Environment.push Environment.pop Environment.declare
  Environment.define Environment.scopes Environment.lookup Environment.lastSlot

attribute [scoped simp] resolve Resolution.Table.ofForms Resolution.Table.add Resolution.Table.addFunction
  Resolution.Table.empty Resolution.Table.limit Resolution.State.initial Resolution.State.push
  Resolution.State.pop Resolution.State.bind Resolution.State.target Resolution.State.declare
  Resolution.State.declareAll Resolution.State.define Resolution.expectArity Resolution.resolveCallee
  Resolution.resolveName Resolution.resolveStages Resolution.visit Resolution.visitAll

attribute [scoped simp] compile compileProgram generate entryName Generator.visit Generator.sequence
  Generator.following Generator.arguments Generator.stages Generator.emitCall Generator.callOpcode
  Generator.collect Generator.State.emit Generator.State.emitIndexed Generator.State.emitLiteral
  Generator.State.emitBranch Generator.State.land Generator.State.atDepth Generator.State.closeFunction
  Builder.new Builder.emit Builder.land Builder.join Builder.finish Builder.maxDepth Opcode.stackEffect
  Opcode.localSlot? Opcode.retarget? retargetAt? ConstantPool.empty ConstantPool.add ConstantPool.limit

attribute [scoped simp] Expression.evaluateProgram Expression.evaluate Expression.evaluateSequence
  Resolution.load Resolution.store Evaluation.load Evaluation.store Activation.enter Activation.store
  Literal.value Value.isTruthy

end LispMachine.Unfolding
