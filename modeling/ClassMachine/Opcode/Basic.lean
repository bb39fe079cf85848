/-!
# Opcodes

The assigned opcodes whose operands have a fixed width.  The two switches and the
wide modifier are not among them, since the number of bytes that follow those is
not fixed.
-/

namespace ClassMachine

inductive Opcode where
  | nop
  | aconstNull
  | iconstM1
  | iconst0
  | iconst1
  | iconst2
  | iconst3
  | iconst4
  | iconst5
  | lconst0
  | lconst1
  | fconst0
  | fconst1
  | fconst2
  | dconst0
  | dconst1
  | bipush
  | sipush
  | ldc
  | ldcW
  | ldc2W
  | iload
  | lload
  | fload
  | dload
  | aload
  | iload0
  | iload1
  | iload2
  | iload3
  | lload0
  | lload1
  | lload2
  | lload3
  | fload0
  | fload1
  | fload2
  | fload3
  | dload0
  | dload1
  | dload2
  | dload3
  | aload0
  | aload1
  | aload2
  | aload3
  | iaload
  | laload
  | faload
  | daload
  | aaload
  | baload
  | caload
  | saload
  | istore
  | lstore
  | fstore
  | dstore
  | astore
  | istore0
  | istore1
  | istore2
  | istore3
  | lstore0
  | lstore1
  | lstore2
  | lstore3
  | fstore0
  | fstore1
  | fstore2
  | fstore3
  | dstore0
  | dstore1
  | dstore2
  | dstore3
  | astore0
  | astore1
  | astore2
  | astore3
  | iastore
  | lastore
  | fastore
  | dastore
  | aastore
  | bastore
  | castore
  | sastore
  | pop
  | pop2
  | dup
  | dupX1
  | dupX2
  | dup2
  | dup2X1
  | dup2X2
  | swap
  | iadd
  | ladd
  | fadd
  | dadd
  | isub
  | lsub
  | fsub
  | dsub
  | imul
  | lmul
  | fmul
  | dmul
  | idiv
  | ldiv
  | fdiv
  | ddiv
  | irem
  | lrem
  | frem
  | drem
  | ineg
  | lneg
  | fneg
  | dneg
  | ishl
  | lshl
  | ishr
  | lshr
  | iushr
  | lushr
  | iand
  | land
  | ior
  | lor
  | ixor
  | lxor
  | iinc
  | i2l
  | i2f
  | i2d
  | l2i
  | l2f
  | l2d
  | f2i
  | f2l
  | f2d
  | d2i
  | d2l
  | d2f
  | i2b
  | i2c
  | i2s
  | lcmp
  | fcmpl
  | fcmpg
  | dcmpl
  | dcmpg
  | ifeq
  | ifne
  | iflt
  | ifge
  | ifgt
  | ifle
  | ifIcmpeq
  | ifIcmpne
  | ifIcmplt
  | ifIcmpge
  | ifIcmpgt
  | ifIcmple
  | ifAcmpeq
  | ifAcmpne
  | goto
  | jsr
  | ret
  | ireturn
  | lreturn
  | freturn
  | dreturn
  | areturn
  | returnVoid
  | getstatic
  | putstatic
  | getfield
  | putfield
  | invokevirtual
  | invokespecial
  | invokestatic
  | invokeinterface
  | invokedynamic
  | new
  | newarray
  | anewarray
  | arraylength
  | athrow
  | checkcast
  | instanceof
  | monitorenter
  | monitorexit
  | multianewarray
  | ifnull
  | ifnonnull
  | gotoW
  | jsrW
  deriving DecidableEq, Repr

namespace Opcode

def all : List Opcode :=
  [.nop, .aconstNull, .iconstM1, .iconst0, .iconst1, .iconst2, .iconst3, .iconst4, .iconst5,
    .lconst0, .lconst1, .fconst0, .fconst1, .fconst2, .dconst0, .dconst1, .bipush, .sipush, .ldc,
    .ldcW, .ldc2W, .iload, .lload, .fload, .dload, .aload, .iload0, .iload1, .iload2, .iload3,
    .lload0, .lload1, .lload2, .lload3, .fload0, .fload1, .fload2, .fload3, .dload0, .dload1,
    .dload2, .dload3, .aload0, .aload1, .aload2, .aload3, .iaload, .laload, .faload, .daload,
    .aaload, .baload, .caload, .saload, .istore, .lstore, .fstore, .dstore, .astore, .istore0,
    .istore1, .istore2, .istore3, .lstore0, .lstore1, .lstore2, .lstore3, .fstore0, .fstore1,
    .fstore2, .fstore3, .dstore0, .dstore1, .dstore2, .dstore3, .astore0, .astore1, .astore2,
    .astore3, .iastore, .lastore, .fastore, .dastore, .aastore, .bastore, .castore, .sastore,
    .pop, .pop2, .dup, .dupX1, .dupX2, .dup2, .dup2X1, .dup2X2, .swap, .iadd, .ladd, .fadd, .dadd,
    .isub, .lsub, .fsub, .dsub, .imul, .lmul, .fmul, .dmul, .idiv, .ldiv, .fdiv, .ddiv, .irem,
    .lrem, .frem, .drem, .ineg, .lneg, .fneg, .dneg, .ishl, .lshl, .ishr, .lshr, .iushr, .lushr,
    .iand, .land, .ior, .lor, .ixor, .lxor, .iinc, .i2l, .i2f, .i2d, .l2i, .l2f, .l2d, .f2i, .f2l,
    .f2d, .d2i, .d2l, .d2f, .i2b, .i2c, .i2s, .lcmp, .fcmpl, .fcmpg, .dcmpl, .dcmpg, .ifeq, .ifne,
    .iflt, .ifge, .ifgt, .ifle, .ifIcmpeq, .ifIcmpne, .ifIcmplt, .ifIcmpge, .ifIcmpgt, .ifIcmple,
    .ifAcmpeq, .ifAcmpne, .goto, .jsr, .ret, .ireturn, .lreturn, .freturn, .dreturn, .areturn,
    .returnVoid, .getstatic, .putstatic, .getfield, .putfield, .invokevirtual, .invokespecial,
    .invokestatic, .invokeinterface, .invokedynamic, .new, .newarray, .anewarray, .arraylength,
    .athrow, .checkcast, .instanceof, .monitorenter, .monitorexit, .multianewarray, .ifnull,
    .ifnonnull, .gotoW, .jsrW]

end Opcode

end ClassMachine
